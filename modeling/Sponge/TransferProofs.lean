import Sponge.AdvertisementProofs
import Sponge.SenderRuleProofs
import Sponge.ShutdownProofs

/-! # One segment at a time

    A sender with one sequence number to send, and space for it, sends one segment
    (`Ready.launched`).  It sends it again when its timer expires (`Flight.tick`), until the
    acknowledgement comes (`Flight.ackReceived`); then it is quiet.  The receiver takes what
    the segment says once (`Open.takes`), however often it arrives (`Open.again`).  A
    connection with a quiet sender answers it with a bare segment (`answer_of_quiet`), and
    that one is not answered (`no_answer_of_quiet`). -/

namespace SpongeTransfer

open SpongeByteStream SpongeReassembler SpongeWrapping SpongeSegment SpongeReceiver SpongeSender
open SpongeSenderRule SpongeConnection SpongeAgreement SpongeAdvertisement SpongeNetwork TCPSender
open BlockMap Word64 RunRule

/-! ## A sender with one thing to send -/

section Sender

variable {s : TCPSender}

theorem fillRound_of_stopped (h : Stopped s) : s.fillRound = (false, s) := by
  rcases fillRound_cases s with ⟨hsame, -⟩ | ⟨-, seg, hem⟩
  · exact hsame
  · exact absurd hem h.not_emitted

/-- One round is enough. -/
theorem fillWindow_once (hgo : s.fillRound.1 = true) (hstop : Stopped s.fillRound.2) :
    s.fillWindow = s.fillRound.2 := by
  rw [fillWindow, whileTrue_go _ hgo]
  cases s.unsent with
  | zero => rfl
  | succ fuel =>
      have hsame := fillRound_of_stopped hstop
      rw [whileTrue_stop fuel (by rw [hsame]), hsame]

/-- **ONE SEQUENCE NUMBER** to send, and space for it: it goes in one segment. -/
theorem fillWindow_unit (hspace : 0 < s.availableSpace)
    (hunit : synSize s + s.stream.buffer.length + s.stream.inputEnded.toNat = 1)
    (hlast : s.stream.inputEnded = true → s.nextSeqno = s.stream.bytesWritten + 1) :
    ∃ seg, Emission s seg s.fillWindow ∧ seg.payload = s.stream.buffer
      ∧ s.fillWindow.stream.buffer = [] ∧ seg.header.fin = s.stream.inputEnded
      ∧ seg.lengthInSequenceSpace = 1 := by
  have hneeded : s.segmentNeeded = true := by
    rw [segmentNeeded_iff]
    by_cases hzero : s.nextSeqno = 0
    · exact Or.inl hzero
    by_cases hbuffer : s.stream.buffer = []
    · have hended : s.stream.inputEnded = true := by
        rw [synSize, if_neg hzero, hbuffer] at hunit
        cases h : s.stream.inputEnded with
        | true => rfl
        | false =>
            rw [h] at hunit
            cases hunit
      exact Or.inr (Or.inr ⟨hended, hbuffer, by rw [hlast hended]; omega⟩)
    · exact Or.inr (Or.inl hbuffer)
  have hgo : s.fillRound.1 = true := by
    rcases fillRound_cases s with ⟨-, hno | hno⟩ | ⟨hgo, -⟩
    · omega
    · exact absurd (hno.symm.trans hneeded) Bool.false_ne_true
    · exact hgo
  obtain ⟨seg, hem⟩ := fillRound_emission hgo
  have hlength := hem.length
  have hbound : s.stream.buffer.length ≤ 1 := by omega
  have hsyn : 0 < s.stream.buffer.length → synSize s = 0 := by omega
  have hmax : TCPConfig.maxPayloadSize = 1000 := rfl
  have hwhole : seg.payload.length = s.stream.buffer.length := by omega
  have hpayload := hem.payload
  have hrest : s.fillRound.2.stream.buffer = [] := by
    have hlen := congrArg List.length hpayload
    rw [List.length_append] at hlen
    exact List.eq_nil_of_length_eq_zero (by omega)
  rw [hrest, List.append_nil] at hpayload
  have hfin : seg.header.fin = s.stream.inputEnded := by
    rw [Bool.eq_iff_iff, hem.fin_iff]
    refine ⟨fun h => h.1, fun hended => ⟨hended, hrest, ?_⟩⟩
    rw [hended] at hunit
    have hone : true.toNat = 1 := rfl
    omega
  have hsize : seg.lengthInSequenceSpace = 1 := by
    have hsyn' : (if seg.header.syn = true then 1 else 0) = synSize s :=
      if_congr hem.syn rfl rfl
    rw [TCPSegment.lengthInSequenceSpace, hwhole, hsyn', hfin]
    cases hended : s.stream.inputEnded with
    | true =>
        rw [hended] at hunit
        have hone : true.toNat = 1 := rfl
        rw [if_pos rfl]
        omega
    | false =>
        rw [hended] at hunit
        have hzero : false.toNat = 0 := rfl
        rw [if_neg Bool.false_ne_true]
        omega
  have hstop : Stopped s.fillRound.2 := by
    refine Or.inr (Bool.eq_false_iff.mpr fun hmore => ?_)
    rcases (segmentNeeded_iff _).mp hmore with hzero | hbuffer | ⟨hended, -, hless⟩
    · rw [hem.nextSeqno, hsize] at hzero
      omega
    · exact hbuffer hrest
    · rw [hem.same.inputEnded] at hended
      rw [hem.nextSeqno, hsize, hem.same.bytesWritten, hlast hended] at hless
      omega
  rw [fillWindow_once hgo hstop]
  exact ⟨seg, hem, hpayload, hrest, hfin, hsize⟩

/-- Filling takes nothing from the capacity. -/
theorem fillWindow_capacity (s : TCPSender) :
    s.fillWindow.stream.capacity = s.stream.capacity := by
  refine whileTrue_keeps (I := fun t : TCPSender => t.stream.capacity = s.stream.capacity)
    (fun t ht => ?_) _ _ rfl
  rw [fillRound]
  split_ifs
  · exact ht
  · exact ht
  · dsimp only
    split_ifs <;> exact ht

/-! ## At rest, and with one segment in flight -/

/-- All that there was to send is sent: `n` bytes, and the end if `ended`. -/
structure Sent (s : TCPSender) (n : Nat) (ended : Bool) : Prop where
  next : s.nextSeqno = n + 1 + ended.toNat
  written : s.stream.bytesWritten = n
  ended : s.stream.inputEnded = ended
  buffer : s.stream.buffer = []
  error : s.stream.error = false
  room : 0 < s.stream.capacity.toNat
  queue : s.segmentsOut = []
  window : s.windowSize < 2 ^ 16

/-- Everything is acknowledged. -/
structure Quiet (s : TCPSender) (n : Nat) (ended : Bool) : Prop extends Sent s n ended where
  acked : s.absAckno = s.nextSeqno
  outstanding : s.outstandingSegments = []
  timer : s.timer.active = false
  retransmissions : s.consecutiveRetransmissions = 0

/-- Everything but one sequence number, after so many attempts. -/
structure Flight (s : TCPSender) (n : Nat) (ended : Bool) (seg : TCPSegment) (tries : Nat) : Prop
    extends Sent s n ended where
  acked : s.absAckno + 1 = s.nextSeqno
  outstanding : s.outstandingSegments = [(s.absAckno, seg)]
  seqno : seg.header.seqno = wrap s.absAckno s.isn
  size : seg.lengthInSequenceSpace = 1
  timer : s.timer = .start s.retransmissionTimeout
  retransmissions : s.consecutiveRetransmissions ≤ tries

variable {n : Nat} {ended : Bool} {seg : TCPSegment} {tries : Nat}

theorem Sent.stopped (h : Sent s n ended) : Stopped s := by
  refine Or.inr (Bool.eq_false_iff.mpr fun hmore => ?_)
  have hnext := h.next
  rcases (segmentNeeded_iff s).mp hmore with hzero | hbuffer | ⟨hended, -, hless⟩
  · omega
  · exact hbuffer h.buffer
  · rw [h.ended] at hended
    rw [hended, h.written.symm] at hnext
    have hone : true.toNat = 1 := rfl
    omega

theorem Sent.window_set (h : Sent s n ended) (win : BitVec 16) :
    Sent { s with windowSize := win.toNat } n ended :=
  ⟨h.next, h.written, h.ended, h.buffer, h.error, h.room, h.queue, win.isLt⟩

/-- An acknowledgement that says nothing new sets the window. -/
theorem noteAck_again {ackno : WrappingInt32} (hnone : s.outstandingSegments = [])
    (hacked : s.absAckno = s.nextSeqno)
    (hsame : unwrap ackno s.isn (s.absAckno + 1) = s.nextSeqno) (win : BitVec 16) :
    s.noteAck ackno win = (true, { s with windowSize := win.toNat }) := by
  have hpop : { s with windowSize := win.toNat }.popAcked s.nextSeqno
      = { s with windowSize := win.toNat } := by
    refine popAcked_of_front fun front hfront => ?_
    rw [show TCPSender.outstandingSegments { s with windowSize := win.toNat } = [] from
      hnone] at hfront
    exact absurd hfront (Option.not_mem_none front)
  rw [noteAck, hsame]
  dsimp only
  rw [if_neg (Nat.lt_irrefl _), ← hpop, ← hacked]

theorem Quiet.ackReceived (h : Quiet s n ended) (hn : n < 2 ^ 63) (win : BitVec 16) :
    s.ackReceived (wrap s.nextSeqno s.isn) win = { s with windowSize := win.toNat } := by
  have hnext := h.next
  have hbit : ended.toNat ≤ 1 := ended.toNat_le
  have hsame : unwrap (wrap s.nextSeqno s.isn) s.isn (s.absAckno + 1) = s.nextSeqno := by
    rw [h.acked]
    exact unwrap_wrap_near (by omega) (by omega) (by omega) (by omega)
  rw [TCPSender.ackReceived, noteAck_again h.outstanding h.acked hsame win]
  exact fillWindow_of_stopped (h.window_set win).stopped

theorem Quiet.window_set (h : Quiet s n ended) (win : BitVec 16) :
    Quiet { s with windowSize := win.toNat } n ended :=
  ⟨h.toSent.window_set win, h.acked, h.outstanding, h.timer, h.retransmissions⟩

theorem popAcked_one {front : Nat × TCPSegment} {upTo : Nat}
    (hq : s.outstandingSegments = [front]) (hend : front.1 + front.2.lengthInSequenceSpace ≤ upTo) :
    s.popAcked upTo = popFront s front [] := by
  have hgo : popRound upTo s = (true, popFront s front []) := by
    rw [popRound, hq]
    exact if_pos hend
  have hstop : popRound upTo (popFront s front []) = (false, popFront s front []) := rfl
  rw [popAcked, hq]
  show whileTrue (popRound upTo) 2 s = _
  rw [whileTrue_go 1 (by rw [hgo]), hgo, whileTrue_stop 0 (by rw [hstop]), hstop]

/-- **THE ACKNOWLEDGEMENT** of what is in flight. -/
theorem Flight.ackReceived (h : Flight s n ended seg tries) (win : BitVec 16) :
    Quiet (s.ackReceived (wrap s.nextSeqno s.isn) win) n ended
      ∧ (s.ackReceived (wrap s.nextSeqno s.isn) win).isn = s.isn := by
  have hsame : unwrap (wrap s.nextSeqno s.isn) s.isn (s.absAckno + 1) = s.nextSeqno := by
    rw [h.acked]
    exact unwrap_wrap_self _ _
  have hend : s.absAckno + seg.lengthInSequenceSpace ≤ s.nextSeqno := by
    rw [h.size]
    exact Nat.le_of_eq h.acked
  have hpop : { s with windowSize := win.toNat, absAckno := s.nextSeqno }.popAcked s.nextSeqno
      = popFront { s with windowSize := win.toNat, absAckno := s.nextSeqno } (s.absAckno, seg) [] :=
    popAcked_one h.outstanding hend
  have hquiet : Quiet
      (popFront { s with windowSize := win.toNat, absAckno := s.nextSeqno } (s.absAckno, seg) [])
      n ended :=
    ⟨⟨h.next, h.written, h.ended, h.buffer, h.error, h.room, h.queue, win.isLt⟩, rfl, rfl, rfl, rfl⟩
  have hnoted : s.noteAck (wrap s.nextSeqno s.isn) win = (true,
      popFront { s with windowSize := win.toNat, absAckno := s.nextSeqno } (s.absAckno, seg) []) := by
    rw [noteAck, hsame]
    dsimp only
    rw [if_neg (Nat.lt_irrefl _), hpop]
  rw [TCPSender.ackReceived, hnoted]
  dsimp only
  rw [if_pos rfl, fillWindow_of_stopped hquiet.stopped]
  exact ⟨hquiet, rfl⟩

/-- **THE TIMER EXPIRES**, and the segment is sent again. -/
theorem Flight.tick (h : Flight s n ended seg tries) (htries : tries < 2 ^ 31) :
    (s.tick s.retransmissionTimeout).segmentsOut = [seg]
      ∧ (s.tick s.retransmissionTimeout).isn = s.isn
      ∧ Flight { s.tick s.retransmissionTimeout with segmentsOut := [] } n ended seg (tries + 1) := by
  have hexpired : (s.timer.update s.retransmissionTimeout).expired = true := by
    rw [h.timer, Timer.update, Timer.start, Timer.expired]
    dsimp only
    rw [Nat.zero_add, Nat.mod_mod]
    simp
  have hagain : s.resent (s.absAckno, seg) = seg := by
    rw [resent, ← h.seqno]
  rcases tick_cases s s.retransmissionTimeout with ⟨-, hno | hno⟩ | ⟨front, rest, hq, -, htick⟩
  · exact absurd (hno.symm.trans hexpired) Bool.false_ne_true
  · rw [h.outstanding] at hno
    cases hno
  · obtain ⟨rfl, rfl⟩ := List.cons.inj (h.outstanding.symm.trans hq)
    rw [htick, hagain, h.queue]
    refine ⟨rfl, rfl, ⟨h.next, h.written, h.ended, h.buffer, h.error, h.room, rfl, h.window⟩, h.acked,
      h.outstanding, h.seqno, h.size, rfl, ?_⟩
    show counted s ≤ tries + 1
    have hold := h.retransmissions
    rw [counted]
    split_ifs
    · rw [Nat.mod_eq_of_lt (by omega)]
      omega
    · omega

/-- Nothing is in flight, and there may be something to send. -/
structure Ready (s : TCPSender) : Prop where
  acked : s.absAckno = s.nextSeqno
  below : s.nextSeqno < 2 ^ 63
  outstanding : s.outstandingSegments = []
  queue : s.segmentsOut = []
  timer : s.timer.active = false
  retransmissions : s.consecutiveRetransmissions = 0
  window : s.windowSize < 2 ^ 16
  error : s.stream.error = false
  room : 0 < s.stream.capacity.toNat

/-- The one segment that `fill_window` sends when one sequence number is there to send. -/
structure Launched (s : TCPSender) (seg : TCPSegment) : Prop where
  queue : s.fillWindow.segmentsOut = [seg]
  isn : s.fillWindow.isn = s.isn
  flight : Flight { s.fillWindow with segmentsOut := [] } s.stream.bytesWritten s.stream.inputEnded
    seg 0
  syn : seg.header.syn = true ↔ s.nextSeqno = 0
  plain : seg.header.ack = false ∧ seg.header.rst = false
  fin : seg.header.fin = s.stream.inputEnded
  payload : seg.payload = s.stream.buffer
  seqno : seg.header.seqno = wrap s.nextSeqno s.isn

theorem Ready.launched (h : Ready s)
    (hunit : synSize s + s.stream.buffer.length + s.stream.inputEnded.toNat = 1)
    (hnext : s.nextSeqno = s.stream.bytesWritten + s.stream.inputEnded.toNat) :
    ∃ seg, Launched s seg := by
  have hspace : 0 < s.availableSpace := by
    have hwindow := h.window
    have hbelow := h.below
    rw [availableSpace_eq, h.acked, sub64_of_le (Nat.le_add_right _ _) (by omega)]
    omega
  have hlast : s.stream.inputEnded = true → s.nextSeqno = s.stream.bytesWritten + 1 := by
    intro hended
    rw [hended] at hnext
    exact hnext
  obtain ⟨seg, hem, hpayload, hrest, hfin, hsize⟩ := fillWindow_unit hspace hunit hlast
  have hqueue : s.fillWindow.segmentsOut = [seg] := by
    rw [hem.segmentsOut, h.queue, List.nil_append]
  refine ⟨seg, hqueue, hem.same.isn, ⟨⟨?_, hem.same.bytesWritten, hem.same.inputEnded, hrest,
    hem.same.error.trans h.error, ?_, rfl, ?_⟩, ?_, ?_, ?_, hsize, ?_, ?_⟩, hem.syn, hem.plain,
    hfin, hpayload, hem.seqno⟩
  · show s.fillWindow.nextSeqno = _
    rw [hem.nextSeqno, hsize, hnext]
    omega
  · show 0 < s.fillWindow.stream.capacity.toNat
    rw [fillWindow_capacity]
    exact h.room
  · show s.fillWindow.windowSize < 2 ^ 16
    rw [hem.same.windowSize]
    exact h.window
  · show s.fillWindow.absAckno + 1 = s.fillWindow.nextSeqno
    rw [hem.same.absAckno, hem.nextSeqno, hsize, h.acked]
  · show s.fillWindow.outstandingSegments = [(s.fillWindow.absAckno, seg)]
    rw [hem.outstanding, h.outstanding, hem.same.absAckno, h.acked, List.nil_append]
  · show seg.header.seqno = wrap s.fillWindow.absAckno s.fillWindow.isn
    rw [hem.same.absAckno, hem.same.isn, h.acked]
    exact hem.seqno
  · show s.fillWindow.timer = .start s.fillWindow.retransmissionTimeout
    rw [hem.timer, h.timer, if_neg Bool.false_ne_true, hem.timeout]
  · show s.fillWindow.consecutiveRetransmissions ≤ 0
    rw [hem.retransmissions, h.retransmissions]

theorem Quiet.ready (h : Quiet s n ended) (hn : n < 2 ^ 62) : Ready s := by
  have hnext := h.next
  have hbit := ended.toNat_le
  exact ⟨h.acked, by omega, h.outstanding, h.queue, h.timer, h.retransmissions, h.window, h.error,
    h.room⟩

end Sender

/-! ## A receiver that has got everything -/

/-- A byte, or the end of the stream. -/
inductive Saying
  | byte (b : Byte)
  | fin
deriving DecidableEq, Repr

namespace Saying

def bytes : Saying → List Byte
  | .byte b => [b]
  | .fin => []

def ends : Saying → Bool
  | .byte _ => false
  | .fin => true

/-- It occupies one sequence number. -/
theorem size (what : Saying) : what.bytes.length + what.ends.toNat = 1 := by
  cases what <;> rfl

end Saying

section Receiver

variable {r : TCPReceiver} {seg : TCPSegment} {isn : WrappingInt32} {n : Nat} {ended : Bool}
  {waiting : List Byte} {what : Saying}

/-- The receiver has `n` bytes, and the end if `ended`; nothing is parked, and `waiting` is
    not read yet. -/
structure Open (r : TCPReceiver) (isn : WrappingInt32) (n : Nat) (ended : Bool)
    (waiting : List Byte) : Prop where
  syn : r.syn = true
  isn : r.isn = isn
  fin : r.fin = ended
  first : r.reassembler.firstUnassembled = n
  parked : r.reassembler.unassembledSegments = []
  eofIndex : r.reassembler.eofIndex = 2 ^ 64 - 1
  buffer : r.streamOut.buffer = waiting
  ended : r.streamOut.inputEnded = ended
  error : r.streamOut.error = false
  room : 0 < r.capacity.toNat

/-- The segment says `what` after `n` bytes. -/
structure Says (seg : TCPSegment) (isn : WrappingInt32) (n : Nat) (what : Saying) : Prop where
  syn : seg.header.syn = false
  rst : seg.header.rst = false
  fin : seg.header.fin = what.ends
  payload : seg.payload = what.bytes
  seqno : seg.header.seqno = wrap (n + 1) isn

/-- The stamp leaves what the segment says as it is. -/
theorem stamp_frame (r : TCPReceiver) (seg : TCPSegment) :
    (TCPConnection.stamp r seg).header.syn = seg.header.syn
      ∧ (TCPConnection.stamp r seg).header.rst = seg.header.rst
      ∧ (TCPConnection.stamp r seg).header.fin = seg.header.fin
      ∧ (TCPConnection.stamp r seg).header.seqno = seg.header.seqno
      ∧ (TCPConnection.stamp r seg).payload = seg.payload := by
  rw [TCPConnection.stamp]
  dsimp only
  split <;> exact ⟨rfl, rfl, rfl, rfl, rfl⟩

theorem Says.stamped (h : Says seg isn n what) (r : TCPReceiver) :
    Says (TCPConnection.stamp r seg) isn n what := by
  obtain ⟨hsyn, hrst, hfin, hseqno, hpayload⟩ := stamp_frame r seg
  exact ⟨hsyn.trans h.syn, hrst.trans h.rst, hfin.trans h.fin, hpayload.trans h.payload,
    hseqno.trans h.seqno⟩

theorem Says.size (h : Says seg isn n what) : seg.lengthInSequenceSpace = 1 := by
  rw [TCPSegment.lengthInSequenceSpace, h.payload, h.syn, h.fin]
  cases what <;> rfl

theorem Open.ackPos_eq (h : Open r isn n ended waiting) : ackPos r = n + 1 + ended.toNat := by
  rw [ackPos, h.first, h.ended]
  cases ended <;> rfl

theorem Open.ackno (h : Open r isn n ended waiting) :
    r.ackno = some (wrap (n + 1 + ended.toNat) isn) := by
  rw [TCPReceiver.ackno, h.syn, if_pos rfl, h.ended, h.first, h.isn]
  cases ended <;> rfl

/-- Where the payload has landed, the receiver is open again. -/
theorem Open.received {k : Nat} {waiting' : List Byte} (h : Open r isn n ended waiting)
    (hfirst : (r.landed seg).firstUnassembled = k)
    (hparked : (r.landed seg).unassembledSegments = [])
    (heof : (r.landed seg).eofIndex = 2 ^ 64 - 1)
    (hbuffer : (r.landed seg).output.buffer = waiting')
    (hended : (r.landed seg).output.inputEnded = true → ended = true) :
    Open (r.segmentReceived seg) isn k (seg.header.fin || ended) waiting' := by
  have hr : TCPReceiver.Received r seg (r.segmentReceived seg) :=
    TCPReceiver.received (Or.inl h.syn)
  have hframe := TCPReceiver.frame_segment r seg
  have hsame := hr.same
  have hre := hr.reassembler
  rw [h.fin, hparked] at hre
  refine ⟨hr.syn, ?_, ?_, hsame.firstUnassembled.trans hfirst, hsame.segments.trans hparked, ?_,
    hsame.buffer.trans hbuffer, ?_, hframe.error.trans h.error, ?_⟩
  · rw [hr.isn, r.noteSyn_of_syn _ h.syn]
    exact h.isn
  · rw [hr.fin, h.fin]
  · rw [hre]
    split_ifs <;> exact heof
  · show (r.segmentReceived seg).reassembler.output.inputEnded = _
    rw [hre]
    cases hfin : (seg.header.fin || ended) with
    | true =>
        rw [if_pos ⟨rfl, rfl⟩]
        rfl
    | false =>
        rw [if_neg fun hno => Bool.false_ne_true hno.1]
        rw [Bool.eq_false_iff]
        intro hyes
        rw [hended hyes, Bool.or_true] at hfin
        exact Bool.false_ne_true hfin.symm
  · rw [← (r.segmentReceived seg).sameCapacity, hframe.capacity, r.sameCapacity]
    exact h.room

/-- No payload, nothing landed. -/
theorem landed_of_nil (hsyn : r.syn = true) (hnil : seg.payload = []) :
    r.landed seg = r.reassembler := by
  rw [TCPReceiver.landed, r.noteSyn_of_syn _ hsyn]
  rcases r.storePayload_cases seg with ⟨hkeep, -⟩ | ⟨hne, -⟩
  · rw [hkeep]
  · exact absurd hnil hne

theorem Open.of_nil (h : Open r isn n ended waiting) (hnil : seg.payload = []) :
    Open (r.segmentReceived seg) isn n (seg.header.fin || ended) waiting := by
  have hland := landed_of_nil h.syn hnil
  refine h.received ?_ ?_ ?_ ?_ ?_
  · rw [hland]; exact h.first
  · rw [hland]; exact h.parked
  · rw [hland]; exact h.eofIndex
  · rw [hland]; exact h.buffer
  · rw [hland]
    exact fun hyes => h.ended.symm.trans hyes

/-- A payload that is not at the initial number goes to the reassembler. -/
theorem landed_of_payload (hsyn : r.syn = true) (hne : seg.payload ≠ [])
    (hseq : seg.header.seqno ≠ r.isn) :
    r.landed seg = r.reassembler.pushSubstring seg.payload (r.payloadIndex seg.header)
      seg.header.fin := by
  rw [TCPReceiver.landed, r.noteSyn_of_syn _ hsyn]
  rcases r.storePayload_cases seg with ⟨-, hnil | ⟨-, hisn⟩⟩ | ⟨-, -, hpush⟩
  · exact absurd hnil hne
  · exact absurd hisn hseq
  · rw [hpush]
    rfl

variable {b : Byte} {index : Nat}

/-- The byte at the next index is written. -/
theorem Open.push_next (h : Open r isn n ended []) (hn : n + 1 < 2 ^ 32) (hended : ended = false) :
    let r' := r.reassembler.pushSubstring [b] n false
    r'.firstUnassembled = n + 1 ∧ r'.unassembledSegments = [] ∧ r'.eofIndex = 2 ^ 64 - 1
      ∧ r'.output.buffer = [b] ∧ r'.output.inputEnded = false := by
  obtain ⟨hp, -, hend⟩ := StreamReassembler.pushed r.wellFormed [b] n false
  have heof := hend.eofIndex
  rw [if_neg Bool.false_ne_true, h.eofIndex] at heof
  have hbuffer : r.reassembler.output.buffer = [] := h.buffer
  have hroom : 0 < r.reassembler.room := by
    have hcap : r.reassembler.capacity = r.capacity := r.sameCapacity
    have htotal : r.reassembler.unassembledBytes = 0 :=
      (r.unassembledBytes_eq_zero).mpr h.parked
    rw [StreamReassembler.room, hbuffer, htotal, hcap]
    exact h.room
  have hfirst := h.first
  cases hp with
  | stale hstale _ =>
      rcases hstale with hle | hnil
      · rw [List.length_singleton] at hle
        omega
      · cases hnil
  | covered _ hgt => omega
  | inserted _ _ _ _ hgt => omega
  | inOrder w _ _ hw hbuf hone hseg =>
      rw [List.length_singleton, h.first] at hw
      obtain rfl : w = 1 := by omega
      rw [h.parked, h.first] at hbuf hone hseg
      rw [hbuffer, Nat.sub_self] at hbuf
      refine ⟨hone, hseg, heof, hbuf, Bool.eq_false_iff.mpr fun hyes => ?_⟩
      rcases hend.ended_new hyes with hold | ⟨-, hle⟩
      · exact absurd (hold.symm.trans (h.ended.trans hended)) (Bool.noConfusion)
      · rw [heof, hone] at hle
        have hnone : (absorb (n + 1) (trimFront (n + 1) ([] : Blocks Byte))).1.length = 0 := rfl
        omega

/-- A byte that is there already is not written again. -/
theorem Open.push_old (h : Open r isn (n + 1) ended waiting) (hn : n + 1 < 2 ^ 32) :
    let r' := r.reassembler.pushSubstring [b] n false
    r'.firstUnassembled = n + 1 ∧ r'.unassembledSegments = [] ∧ r'.eofIndex = 2 ^ 64 - 1
      ∧ r'.output.buffer = waiting ∧ (r'.output.inputEnded = true → ended = true) := by
  obtain ⟨hp, -, hend⟩ := StreamReassembler.pushed r.wellFormed [b] n false
  have heof := hend.eofIndex
  rw [if_neg Bool.false_ne_true, h.eofIndex] at heof
  have hfirst := h.first
  cases hp with
  | stale _ hsame =>
      refine ⟨hsame.firstUnassembled.trans h.first, hsame.segments.trans h.parked, heof,
        hsame.buffer.trans h.buffer, fun hyes => ?_⟩
      rcases hend.ended_new hyes with hold | ⟨-, hle⟩
      · exact h.ended.symm.trans hold
      · rw [heof, hsame.firstUnassembled, h.first] at hle
        omega
  | covered _ hgt => omega
  | inserted _ _ _ _ hgt => omega
  | inOrder w _ hlt =>
      rw [List.length_singleton] at hlt
      omega

theorem wrap_succ_ne (isn : WrappingInt32) (hn : n + 1 < 2 ^ 32) : wrap (n + 1) isn ≠ isn := by
  intro heq
  nth_rewrite 2 [← wrap_zero isn] at heq
  rw [wrap_eq_iff] at heq
  omega

theorem payloadIndex_near (hsyn : seg.header.syn = false) (hisn : r.isn = isn)
    (hseq : seg.header.seqno = wrap (n + 1) isn) (hn : n + 1 < 2 ^ 32)
    (hnear : r.reassembler.firstUnassembled = n ∨ r.reassembler.firstUnassembled = n + 1) :
    r.payloadIndex seg.header = n := by
  rw [TCPReceiver.payloadIndex, hsyn, if_neg Bool.false_ne_true, hseq, wrap_succ_sub_one, hisn]
  exact unwrap_wrap_near (by omega) (by omega) (by omega) (by omega)

/-- A byte goes to the reassembler at its own index, if that is the next one or the last. -/
theorem Open.landed_byte {k : Nat} (h : Open r isn k ended waiting)
    (hs : Says seg isn n (.byte b)) (hn : n + 1 < 2 ^ 32) (hnear : k = n ∨ k = n + 1) :
    r.landed seg = r.reassembler.pushSubstring [b] n false := by
  have hne : seg.payload ≠ [] := by
    rw [hs.payload]
    exact List.cons_ne_nil b []
  have hseq : seg.header.seqno ≠ r.isn := by
    rw [hs.seqno, h.isn]
    exact wrap_succ_ne isn hn
  have hindex := payloadIndex_near hs.syn h.isn hs.seqno hn (by rw [h.first]; exact hnear)
  rw [landed_of_payload h.syn hne hseq, hindex, hs.payload, hs.fin]
  rfl

/-- **WHAT IS SAID IS TAKEN**. -/
theorem Open.takes (h : Open r isn n false []) (hs : Says seg isn n what) (hn : n + 1 < 2 ^ 32) :
    Open (r.segmentReceived seg) isn (n + what.bytes.length) what.ends what.bytes := by
  cases what with
  | fin =>
      have hopen := h.of_nil hs.payload
      rw [hs.fin] at hopen
      exact hopen
  | byte b =>
      have hland := h.landed_byte hs hn (Or.inl rfl)
      obtain ⟨hfirst, hparked, heof, hbuffer, hended⟩ := h.push_next (b := b) hn rfl
      rw [← hland] at hfirst hparked heof hbuffer hended
      have hopen := h.received hfirst hparked heof hbuffer fun hyes => hended.symm.trans hyes
      rw [hs.fin] at hopen
      exact hopen

/-- **WHAT IS SAID TWICE** is taken once. -/
theorem Open.again (h : Open r isn (n + what.bytes.length) what.ends waiting)
    (hs : Says seg isn n what) (hn : n + 1 < 2 ^ 32) :
    Open (r.segmentReceived seg) isn (n + what.bytes.length) what.ends waiting := by
  cases what with
  | fin =>
      have hopen := h.of_nil hs.payload
      rw [hs.fin] at hopen
      exact hopen
  | byte b =>
      have hland := h.landed_byte hs hn (Or.inr rfl)
      obtain ⟨hfirst, hparked, heof, hbuffer, hended⟩ := Open.push_old (b := b) h hn
      rw [← hland] at hfirst hparked heof hbuffer hended
      have hopen := h.received hfirst hparked heof hbuffer hended
      rw [hs.fin] at hopen
      exact hopen

/-- Reading leaves nothing waiting. -/
theorem Open.read (h : Open r isn n ended waiting) {len : Nat} (hlen : waiting.length ≤ len) :
    Open (r.readOut len) isn n ended [] ∧ (r.streamOut.read len).1 = waiting := by
  have hall : (r.streamOut.read len).1 = waiting := by
    rw [ByteStream.read_fst, h.buffer, List.take_of_length_le hlen]
  have hrest := r.streamOut.read_append len
  rw [hall, h.buffer] at hrest
  refine ⟨⟨h.syn, h.isn, h.fin, h.first, h.parked, h.eofIndex, ?_, h.ended, h.error, h.room⟩, hall⟩
  exact List.append_cancel_left (hrest.trans (List.append_nil waiting).symm)

/-- The first `SYN` opens a new receiver. -/
theorem open_new (capacity : UInt64) (hcap : 0 < capacity.toNat) (hsyn : seg.header.syn = true)
    (hfin : seg.header.fin = false) (hnil : seg.payload = []) :
    Open ((TCPReceiver.new capacity).segmentReceived seg) seg.header.seqno 0 false [] := by
  have hr := TCPReceiver.received (r := .new capacity) (Or.inr hsyn)
  have hland : (TCPReceiver.new capacity).landed seg = .new capacity := by
    rw [TCPReceiver.landed]
    rcases ((TCPReceiver.new capacity).noteSyn seg.header).storePayload_cases seg
      with ⟨hkeep, -⟩ | ⟨hne, -⟩
    · rw [hkeep, TCPReceiver.noteSyn_reassembler]
      rfl
    · exact absurd hnil hne
  have hre : ((TCPReceiver.new capacity).segmentReceived seg).reassembler = .new capacity := by
    rw [hr.reassembler, hland, hfin]
    exact if_neg fun hno => Bool.false_ne_true hno.1
  refine ⟨hr.syn, hr.isn, ?_, ?_, ?_, ?_, ?_, ?_, ?_, ?_⟩
  · rw [hr.fin, hfin]
    rfl
  · rw [hre]; rfl
  · rw [hre]; rfl
  · rw [hre]; rfl
  · rw [TCPReceiver.streamOut, hre]; rfl
  · rw [TCPReceiver.streamOut, hre]; rfl
  · rw [TCPReceiver.streamOut, hre]; rfl
  · rw [← TCPReceiver.sameCapacity, hre]
    exact hcap

end Receiver

namespace Saying

def op : Saying → Op
  | .byte b => .write [b]
  | .fin => .endInputStream

/-- What it does to the stream. -/
def onto (stream : ByteStream) : Saying → ByteStream
  | .byte b => (stream.write [b]).2
  | .fin => stream.endInput

end Saying

section Launch

variable {s : TCPSender} {n : Nat} {what : Saying}

/-- The stream of a quiet sender once something is said. -/
theorem Quiet.stream_onto (h : Quiet s n false) (what : Saying) :
    (what.onto s.stream).buffer = what.bytes
      ∧ (what.onto s.stream).bytesWritten = n + what.bytes.length
      ∧ (what.onto s.stream).inputEnded = what.ends ∧ (what.onto s.stream).error = false
      ∧ (what.onto s.stream).capacity = s.stream.capacity := by
  cases what with
  | byte b =>
      have hfits : s.stream.buffer.length + [b].length ≤ s.stream.capacity.toNat := by
        rw [h.buffer]
        exact h.room
      have hbuffer := ByteStream.write_buffer_of_fits s.stream hfits
      have hcount := ByteStream.write_count_of_fits s.stream hfits
      rw [h.buffer, List.nil_append] at hbuffer
      refine ⟨hbuffer, ?_, h.ended, h.error, rfl⟩
      show (s.stream.write [b]).2.bytesWritten = n + 1
      rw [ByteStream.write_bytesWritten, hcount, h.written]
      rfl
  | fin => exact ⟨h.buffer, h.written, rfl, h.error, rfl⟩

/-- **SOMETHING IS SAID**: it is one segment, and it is in flight. -/
theorem Quiet.says (h : Quiet s n false) (hn : n + 1 < 2 ^ 32) (what : Saying) :
    ∃ seg, Says seg s.isn n what
      ∧ { s with stream := what.onto s.stream }.fillWindow.segmentsOut = [seg]
      ∧ { s with stream := what.onto s.stream }.fillWindow.isn = s.isn
      ∧ Flight { { s with stream := what.onto s.stream }.fillWindow with segmentsOut := [] }
        (n + what.bytes.length) what.ends seg 0 := by
  obtain ⟨hbuffer, hwritten, hended, herror, hcapacity⟩ := h.stream_onto what
  have hready := h.ready (by omega)
  have hsize := what.size
  have hnext : s.nextSeqno = n + 1 := h.next
  have hne : s.nextSeqno ≠ 0 := by omega
  have hready' : Ready { s with stream := what.onto s.stream } :=
    ⟨h.acked, hready.below, h.outstanding, h.queue, h.timer, h.retransmissions, h.window, herror,
      by rw [hcapacity]; exact h.room⟩
  have hsyn : synSize { s with stream := what.onto s.stream } = 0 := if_neg hne
  obtain ⟨seg, hl⟩ := hready'.launched
    (by rw [hsyn]; dsimp only; rw [hbuffer, hended]; omega)
    (by dsimp only; rw [hwritten, hended]; omega)
  have hflight := hl.flight
  dsimp only at hflight
  rw [hwritten, hended] at hflight
  refine ⟨seg, ⟨?_, hl.plain.2, hl.fin.trans hended, hl.payload.trans hbuffer, ?_⟩, hl.queue, hl.isn,
    hflight⟩
  · exact Bool.eq_false_iff.mpr fun hyes => hne (hl.syn.mp hyes)
  · rw [hl.seqno]
    dsimp only
    rw [hnext]

end Launch

/-! ## The answers -/

section Answer

variable {c : TCPConnection} {q s : TCPSender} {r : TCPReceiver} {seg : TCPSegment} {n : Nat}
  {ended : Bool} {tries : Nat}

/-- The segment that answers without saying anything. -/
def bare (s : TCPSender) : TCPSegment := { header := { seqno := wrap s.nextSeqno s.isn } }

theorem Quiet.cleared (h : Quiet s n ended) : Quiet { s with segmentsOut := [] } n ended :=
  ⟨⟨h.next, h.written, h.ended, h.buffer, h.error, h.room, rfl, h.window⟩, h.acked, h.outstanding,
    h.timer, h.retransmissions⟩

/-- A quiet sender answers what occupies sequence numbers with a bare segment. -/
theorem Quiet.replyToData (h : Quiet s n ended) (hsize : seg.lengthInSequenceSpace = 1) :
    TCPConnection.replyToData s seg = s.sendEmptySegment := by
  rw [TCPConnection.replyToData, hsize, h.queue, fillWindow_of_stopped h.stopped, h.queue]
  rfl

/-- **AN ANSWER THAT SAYS NOTHING**: once it has heard the acknowledgement the sender is
    quiet, so it answers what occupies a sequence number with a bare segment. -/
theorem answer_of_quiet (hrst : seg.header.rst = false) (hack : seg.header.ack = true)
    (hq : c.sender.ackReceived seg.header.ackno seg.header.win = q) (hquiet : Quiet q n ended)
    (hsyn : (c.receiver.segmentReceived seg).syn = true)
    (hsize : seg.lengthInSequenceSpace = 1) :
    ∃ c', c.segmentReceived seg = some c' ∧ c'.receiver = c.receiver.segmentReceived seg
      ∧ Quiet c'.sender n ended ∧ c'.sender.isn = q.isn
      ∧ c'.segmentsOut = c.segmentsOut ++ [TCPConnection.stamp c'.receiver (bare q)]
      ∧ c'.active = c.active ∧ c'.timeLastRecv = 0 := by
  have hheard : c.heard seg = some seg.header.ackno := by
    rw [TCPConnection.heard, hack, if_pos rfl]
  obtain ⟨c', hc, htaken⟩ := TCPConnection.taken_of_heard hrst hheard
  have hackno := (advertises_stamp hsyn seg).ackno
  have hanswer : c.answer seg seg.header.ackno = q.sendEmptySegment := by
    rw [TCPConnection.answer, hq, hquiet.replyToData hsize,
      replyToKeepAlive_of_not hackno (Or.inl (by omega))]
  have hflushed := htaken.flushed
  rw [hanswer] at hflushed
  refine ⟨c', hc, htaken.receiver, ?_, ?_, ?_, htaken.active, htaken.time⟩
  · rw [hflushed.sender]
    exact hquiet.cleared
  · rw [hflushed.sender]
    rfl
  · rw [hflushed.segmentsOut, sendEmptySegment, hquiet.queue]
    rfl

/-- **NO ANSWER** to a bare segment that is no keep-alive. -/
theorem no_answer_of_quiet (hrst : seg.header.rst = false) (hack : seg.header.ack = true)
    (hq : c.sender.ackReceived seg.header.ackno seg.header.win = q) (hquiet : Quiet q n ended)
    {ackno : WrappingInt32} (hackno : (c.receiver.segmentReceived seg).ackno = some ackno)
    (hsize : seg.lengthInSequenceSpace = 0) (hseqno : seg.header.seqno ≠ ackno.sub 1) :
    ∃ c', c.segmentReceived seg = some c' ∧ c'.receiver = c.receiver.segmentReceived seg
      ∧ Quiet c'.sender n ended ∧ c'.sender.isn = q.isn ∧ c'.segmentsOut = c.segmentsOut
      ∧ c'.active = c.active ∧ c'.timeLastRecv = 0 := by
  have hheard : c.heard seg = some seg.header.ackno := by
    rw [TCPConnection.heard, hack, if_pos rfl]
  obtain ⟨c', hc, htaken⟩ := TCPConnection.taken_of_heard hrst hheard
  have hanswer : c.answer seg seg.header.ackno = q := by
    rw [TCPConnection.answer, hq, replyToData_of_bare _ hsize,
      replyToKeepAlive_of_not hackno (Or.inr hseqno)]
  have hflushed := htaken.flushed
  rw [hanswer] at hflushed
  refine ⟨c', hc, htaken.receiver, ?_, ?_, ?_, htaken.active, htaken.time⟩
  · rw [hflushed.sender]
    exact hquiet.cleared
  · rw [hflushed.sender]
  · rw [hflushed.segmentsOut, hquiet.queue, List.map_nil, List.append_nil]

/-- **ANOTHER ATTEMPT**: the timer expires before the attempts are used up. -/
theorem tick_of_flight (h : Flight c.sender n ended seg tries) (htries : tries < 8) :
    (c.tick c.sender.retransmissionTimeout).receiver = c.receiver
      ∧ Flight (c.tick c.sender.retransmissionTimeout).sender n ended seg (tries + 1)
      ∧ (c.tick c.sender.retransmissionTimeout).sender.isn = c.sender.isn
      ∧ (c.tick c.sender.retransmissionTimeout).segmentsOut
        = c.segmentsOut ++ [TCPConnection.stamp c.receiver seg]
      ∧ (c.tick c.sender.retransmissionTimeout).active = c.active := by
  obtain ⟨hqueue, hisn, hflight⟩ := h.tick (by omega)
  have hmax : ¬ c.sender.consecutiveRetransmissions ≥ TCPConfig.maxRetxAttempts := by
    have hle := h.retransmissions
    have height : TCPConfig.maxRetxAttempts = 8 := rfl
    omega
  -- something is in flight, so the connection is not done
  have hbusy : ({ c with
      timeLastRecv := (c.timeLastRecv + c.sender.retransmissionTimeout) % 2 ^ 64
      sender := c.sender.tick c.sender.retransmissionTimeout } : TCPConnection).killConditionCheck
      = false := by
    rw [Bool.eq_false_iff]
    intro hdone
    have hzero := ((SpongeShutdown.killConditionCheck_iff _).mp hdone).2.2.1
    have hone := hflight.outstanding
    dsimp only at hone hzero
    rw [bytesInFlight, hone, List.map_singleton, List.sum_singleton, h.size] at hzero
    exact Nat.one_ne_zero hzero
  rw [TCPConnection.tick]
  dsimp only
  rw [if_neg hmax, TCPConnection.closeIfDone, hbusy, if_neg Bool.false_ne_true]
  refine ⟨rfl, hflight, hisn, ?_, rfl⟩
  rw [TCPConnection.clearSenderBuffer]
  dsimp only
  rw [hqueue]
  rfl

end Answer

end SpongeTransfer
