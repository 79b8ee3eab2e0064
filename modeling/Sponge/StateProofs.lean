import Sponge.ShutdownProofs

/-! # The states of a connection — `tcp_state`

    `state_summary` reads a state off the counters and flags of the sender and of
    the receiver.  The states have an order, and the error comes last: nothing
    leaves it.

    * `state_never_regresses` — whatever arrives and whatever the owner does, short
      of a write after the end, neither summary ever goes back.  What carries it is
      that the queue of outstanding segments covers the numbers from the last
      removed one to the next one, and both ends only move up (`Advanced`).
    * `listening_inert_iff` — a connection that only listens stays where it is
      exactly as long as no segment is a reset, occupies a number, or acknowledges
      the initial sequence number; each of these wakes it or kills it
      (`listening_reset`). -/

namespace SpongeState

open SpongeByteStream SpongeWrapping SpongeSegment SpongeReceiver SpongeSender
open SpongeConnection SpongeLifecycle RunRule IntervalChain
open SpongeOldAck (ackedTo noteAck_ackedTo)
open SpongeShutdown (HearsNothing Passed answer_silent_iff)

inductive TCPSenderStateSummary where
  | closed
  | synSent
  | synAcked
  | finSent
  | finAcked
  | error
deriving DecidableEq, Repr

inductive TCPReceiverStateSummary where
  | listen
  | synRecv
  | finRecv
  | error
deriving DecidableEq, Repr

namespace TCPSenderStateSummary

/-- The source's text for the state. -/
def text : TCPSenderStateSummary → String
  | closed => "waiting for stream to begin (no SYN sent)"
  | synSent => "stream started but nothing acknowledged"
  | synAcked => "stream ongoing"
  | finSent => "stream finished (FIN sent) but not fully acknowledged"
  | finAcked => "stream finished and fully acknowledged"
  | error => "error (connection was reset)"

/-- The source compares the texts: they tell the states apart. -/
theorem text_inj {a b : TCPSenderStateSummary} (h : a.text = b.text) : a = b := by
  cases a <;> cases b <;> simp [text] at h ⊢

/-- How far along the state is; the error is last. -/
def rank : TCPSenderStateSummary → Nat
  | closed => 0
  | synSent => 1
  | synAcked => 2
  | finSent => 3
  | finAcked => 4
  | error => 5

end TCPSenderStateSummary

namespace TCPReceiverStateSummary

/-- The source's text for the state. -/
def text : TCPReceiverStateSummary → String
  | listen => "waiting for SYN: ackno is empty"
  | synRecv => "SYN received (ackno exists), and input to stream hasn't ended"
  | finRecv => "input to stream has ended"
  | error => "error (connection was reset)"

theorem text_inj {a b : TCPReceiverStateSummary} (h : a.text = b.text) : a = b := by
  cases a <;> cases b <;> simp [text] at h ⊢

/-- How far along the state is; the error is last. -/
def rank : TCPReceiverStateSummary → Nat
  | listen => 0
  | synRecv => 1
  | finRecv => 2
  | error => 3

end TCPReceiverStateSummary

/-- `TCPState::state_summary` of a receiver -/
def receiverSummary (r : TCPReceiver) : TCPReceiverStateSummary :=
  if r.streamOut.error then .error
  else if !r.ackno.isSome then .listen
  else if r.streamOut.inputEnded then .finRecv
  else .synRecv

/-- `TCPState::state_summary` of a sender -/
def senderSummary (s : TCPSender) : TCPSenderStateSummary :=
  if s.stream.error then .error
  else if s.nextSeqno = 0 then .closed
  else if s.nextSeqno = s.bytesInFlight then .synSent
  else if !s.stream.eof then .synAcked
  else if s.nextSeqno < s.stream.bytesWritten + 2 then .synAcked
  else if s.bytesInFlight ≠ 0 then .finSent
  else .finAcked

/-! ## The sender only moves on -/

/-- What moves one way from `s` to `t`: the error mark, the two ends of the queue, and
    the end of the stream with its `FIN`. -/
structure Advanced (s t : TCPSender) : Prop where
  error : s.stream.error = true → t.stream.error = true
  next : s.nextSeqno ≤ t.nextSeqno
  acked : s.nextSeqno + t.bytesInFlight ≤ t.nextSeqno + s.bytesInFlight
  finished : s.stream.eof = true →
    t.stream.eof = true ∧ t.stream.bytesWritten = s.stream.bytesWritten
  closed : s.stream.eof = true → s.stream.bytesWritten + 2 ≤ s.nextSeqno →
    t.nextSeqno = s.nextSeqno

section Advance

variable {s t u : TCPSender} {lo : Nat}

theorem Advanced.refl (s : TCPSender) : Advanced s s :=
  ⟨id, Nat.le_refl _, Nat.le_refl _, fun h => ⟨h, rfl⟩, fun _ _ => rfl⟩

theorem Advanced.trans (h : Advanced s t) (h' : Advanced t u) : Advanced s u := by
  refine ⟨fun he => h'.error (h.error he), Nat.le_trans h.next h'.next, ?_, ?_, ?_⟩
  · have h1 := h.acked
    have h2 := h'.acked
    omega
  · intro hf
    obtain ⟨ht, hw⟩ := h.finished hf
    obtain ⟨hu, hw'⟩ := h'.finished ht
    exact ⟨hu, hw'.trans hw⟩
  · intro hf hle
    obtain ⟨ht, hw⟩ := h.finished hf
    have hnext := h.closed hf hle
    rw [h'.closed ht (by omega), hnext]

/-- Nothing but the queue for sending changes. -/
theorem advanced_of_same (herr : t.stream = s.stream) (hnext : t.nextSeqno = s.nextSeqno)
    (hout : t.outstandingSegments = s.outstandingSegments) : Advanced s t := by
  have hflight : t.bytesInFlight = s.bytesInFlight := by
    rw [TCPSender.bytesInFlight, TCPSender.bytesInFlight, hout]
  refine ⟨fun h => ?_, Nat.le_of_eq hnext.symm, ?_, fun h => ?_, fun _ _ => hnext⟩
  · rw [herr]
    exact h
  · rw [hnext, hflight]
  · rw [herr]
    exact ⟨h, rfl⟩

/-- A stream at its end has an empty buffer. -/
theorem eof_iff (b : ByteStream) : b.eof = true ↔ b.inputEnded = true ∧ b.buffer = [] := by
  rw [ByteStream.eof, Bool.and_eq_true, ByteStream.bufferEmpty, List.isEmpty_iff]

theorem advanced_emit {seg : TCPSegment} (h : Tiled lo s) (hem : s.Emitted seg t) :
    Advanced s t := by
  have hsum := h.bytesInFlight
  have hsum' := (h.emit hem).bytesInFlight
  refine ⟨fun he => hem.same.error.trans he, ?_, by omega, fun hf => ?_, fun hf hle => ?_⟩
  · rw [hem.nextSeqno]
    exact Nat.le_add_right _ _
  · obtain ⟨hended, hnil⟩ := (eof_iff _).mp hf
    have hpay := hem.payload
    rw [hnil] at hpay
    exact ⟨(eof_iff _).mpr ⟨hem.same.inputEnded.trans hended,
      (List.append_eq_nil_iff.mp hpay).2⟩, hem.same.bytesWritten⟩
  · -- with the `FIN` sent there is nothing to emit
    obtain ⟨-, hnil⟩ := (eof_iff _).mp hf
    rcases (TCPSender.segmentNeeded_iff s).mp hem.needed with hz | hdata | ⟨-, -, hlt⟩
    · omega
    · exact absurd hnil hdata
    · omega

theorem advanced_fill (h : Tiled lo s) : Advanced s s.fillWindow := by
  obtain ⟨⟨l, hl⟩, -⟩ := TCPSender.fillWindow_fills s
  generalize s.fillWindow = t at hl
  induction hl with
  | done s => exact .refl s
  | emit head _ ih => exact (advanced_emit h head).trans (ih (h.emit head))

theorem advanced_acked {upTo : Nat} {window : BitVec 16} {popped : List (Nat × TCPSegment)}
    (h : Tiled lo s) (ha : s.Acked upTo window popped t) : Advanced s t := by
  obtain ⟨mid, hmid, hle, -⟩ := h.acked ha
  have hsum := h.bytesInFlight
  have hsum' := hmid.bytesInFlight
  have hnext := ha.same.nextSeqno
  refine ⟨fun he => ?_, Nat.le_of_eq hnext.symm, by omega, fun hf => ?_, fun _ _ => hnext⟩
  · rw [ha.same.stream]
    exact he
  · rw [ha.same.stream]
    exact ⟨hf, rfl⟩

theorem advanced_reset (h : Tiled lo s) :
    Advanced s (s.sendFlagsSegment false false true) := by
  have hsum := h.bytesInFlight
  have hsum' := h.reset.bytesInFlight
  exact ⟨id, Nat.le_refl _, by omega, fun hf => ⟨hf, rfl⟩, fun _ _ => rfl⟩

/-- **THE SENDER MOVES ON** in every step, if nothing is written after the end. -/
theorem advance_steps (s : TCPSender) :
    SenderSteps (fun t => t.stream.inputEnded = false) (fun _ _ => True)
      (fun t => Advanced s t ∧ ∃ lo, Tiled lo t) where
  queue := fun _ _ h => ⟨h.1.trans (advanced_of_same rfl rfl rfl), h.2⟩
  fill := by
    rintro t ⟨h, lo, ht⟩
    exact ⟨h.trans (advanced_fill ht), lo, ht.fillWindow⟩
  wrote := by
    rintro t data ⟨h, lo, ht⟩ hopen
    have ht' : Tiled lo { t with stream := (t.stream.write data).2 } := ht
    refine ⟨(h.trans ?_).trans (advanced_fill ht'), lo, ht'.fillWindow⟩
    -- an open stream is not at its end
    have hnot : ¬ t.stream.eof = true := by
      intro hf
      rw [((eof_iff _).mp hf).1] at hopen
      exact absurd hopen.symm Bool.false_ne_true
    exact ⟨id, Nat.le_refl _, Nat.le_refl _, fun hf => absurd hf hnot,
      fun hf => absurd hf hnot⟩
  ended := by
    rintro t ⟨h, lo, ht⟩
    have ht' : Tiled lo { t with stream := t.stream.endInput } := ht
    refine ⟨(h.trans ?_).trans (advanced_fill ht'), lo, ht'.fillWindow⟩
    refine ⟨id, Nat.le_refl _, Nat.le_refl _, fun hf => ⟨?_, rfl⟩, fun _ _ => rfl⟩
    exact (eof_iff _).mpr ⟨rfl, ((eof_iff _).mp hf).2⟩
  heard := by
    rintro t ackno window ⟨h, lo, ht⟩ _
    rcases noteAck_ackedTo t ackno window with ⟨-, hnote⟩ | ⟨hgo, popped, hacked⟩
    · rw [TCPSender.ackReceived_ignored (by rw [hnote]), hnote]
      exact ⟨h.trans (advanced_of_same rfl rfl rfl), lo, ht⟩
    · rw [TCPSender.ackReceived_noted hgo]
      generalize (t.noteAck ackno window).2 = u at hacked ⊢
      obtain ⟨mid, hmid, -, -⟩ := ht.acked hacked
      exact ⟨(h.trans (advanced_acked ht hacked)).trans (advanced_fill hmid), mid,
        hmid.fillWindow⟩
  tick := by
    rintro t ms ⟨h, lo, ht⟩
    have htick := t.ticked ms
    exact ⟨h.trans (advanced_of_same htick.stream htick.nextSeqno htick.outstanding), lo,
      ht.tick ms⟩
  reset := by
    rintro t ⟨h, lo, ht⟩
    exact ⟨h.trans (advanced_reset ht), lo, ht.reset⟩
  error := by
    rintro t ⟨h, lo, ht⟩
    exact ⟨h.trans ⟨fun _ => rfl, Nat.le_refl _, Nat.le_refl _, fun hf => ⟨hf, rfl⟩,
      fun _ _ => rfl⟩, lo, ht⟩

end Advance

/-! ## The order of the states -/

section Order

variable {s t : TCPSender} {lo : Nat}

theorem rank_of_error (h : s.stream.error = true) : (senderSummary s).rank = 5 := by
  rw [senderSummary, if_pos h]
  rfl

theorem one_le_rank (hnext : s.nextSeqno ≠ 0) : 1 ≤ (senderSummary s).rank := by
  rw [senderSummary, if_neg hnext]
  split_ifs <;> decide

theorem two_le_rank (hnext : s.nextSeqno ≠ 0) (hacked : s.nextSeqno ≠ s.bytesInFlight) :
    2 ≤ (senderSummary s).rank := by
  rw [senderSummary, if_neg hnext, if_neg hacked]
  split_ifs <;> decide

theorem three_le_rank (hacked : s.nextSeqno ≠ s.bytesInFlight) (heof : s.stream.eof = true)
    (hfin : s.stream.bytesWritten + 2 ≤ s.nextSeqno) : 3 ≤ (senderSummary s).rank := by
  rw [senderSummary, if_neg (by omega : ¬ s.nextSeqno = 0), if_neg hacked, heof,
    if_neg (show ¬ (!true) = true by decide), if_neg (Nat.not_lt.mpr hfin)]
  split_ifs <;> decide

theorem four_le_rank (hflight : s.bytesInFlight = 0) (heof : s.stream.eof = true)
    (hfin : s.stream.bytesWritten + 2 ≤ s.nextSeqno) : 4 ≤ (senderSummary s).rank := by
  rw [senderSummary, if_neg (by omega : ¬ s.nextSeqno = 0),
    if_neg (by omega : ¬ s.nextSeqno = s.bytesInFlight), heof,
    if_neg (show ¬ (!true) = true by decide), if_neg (Nat.not_lt.mpr hfin),
    if_neg (not_not.mpr hflight)]
  split_ifs <;> decide

/-- **THE SENDER'S STATE FOLLOWS**: an advance does not lower it. -/
theorem senderSummary_mono (h : Advanced s t) (hs : Tiled lo s) :
    (senderSummary s).rank ≤ (senderSummary t).rank := by
  have hsum := hs.bytesInFlight
  have hnext := h.next
  have hacked := h.acked
  conv_lhs => rw [senderSummary]
  split_ifs with herr hzero hsyn heof hfin hflight
  · exact Nat.le_of_eq (rank_of_error (h.error herr)).symm
  · exact Nat.zero_le _
  · exact one_le_rank (by omega)
  · exact two_le_rank (by omega) (by omega)
  · exact two_le_rank (by omega) (by omega)
  all_goals
    -- the `FIN` is sent, so the stream is at its end and stays there
    rw [Bool.not_eq_true, Bool.not_eq_false'] at heof
    obtain ⟨heof', hwritten⟩ := h.finished heof
    have hclosed := h.closed heof (Nat.le_of_not_lt hfin)
  · exact three_le_rank (by omega) heof' (by omega)
  · exact four_le_rank (by omega) heof' (by omega)

end Order

/-! ## The receiver's states -/

/-- There is an acknowledgement number once the `SYN` was received. -/
theorem ackno_isSome (r : TCPReceiver) : r.ackno.isSome = r.syn := by
  rw [TCPReceiver.ackno]
  cases r.syn <;> rfl

theorem receiverSummary_mono {r r' : TCPReceiver} (h : Onward r r') :
    (receiverSummary r).rank ≤ (receiverSummary r').rank := by
  rw [receiverSummary, receiverSummary, ackno_isSome, ackno_isSome]
  cases he : r.streamOut.error with
  | true => rw [h.error he]; exact Nat.le_refl _
  | false =>
      cases hs : r.syn with
      | false => exact Nat.zero_le _
      | true =>
          rw [(h.progress.syn hs).1]
          cases hi : r.streamOut.inputEnded with
          | false => cases r'.streamOut.error <;> cases r'.streamOut.inputEnded <;> decide
          | true =>
              rw [h.progress.ended hi]
              cases r'.streamOut.error <;> decide

/-- **NO STATE EVER REGRESSES**: from any state a run can reach, whatever follows,
    neither summary goes back, and an error stays. -/
theorem state_never_regresses (cfg : TCPConfig) (random : BitVec 32) (ops more : List Op)
    (x y : Life) (hrun : run step (start cfg random) ops = some x)
    (hops : Along step NoLateWrite (start cfg random) ops)
    (hmore : run step x more = some y) (hlate : Along step NoLateWrite x more) :
    (senderSummary x.conn.sender).rank ≤ (senderSummary y.conn.sender).rank
      ∧ (receiverSummary x.conn.receiver).rank ≤ (receiverSummary y.conn.receiver).rank := by
  have hadvance : ∀ (s : TCPSender) (x : Life) (op : Op) (y : Life),
      (Advanced s x.conn.sender ∧ ∃ lo, Tiled lo x.conn.sender) → NoLateWrite x op →
      step x op = some y → Advanced s y.conn.sender ∧ ∃ lo, Tiled lo y.conn.sender :=
    fun s _ _ _ h hop hstep => sender_rule (advance_steps s) h hop hstep
  have htiled : Tiled 0 (start cfg random).conn.sender := rfl
  obtain ⟨-, lo, htiled⟩ := run_invariant
    (I := fun x => Advanced (start cfg random).conn.sender x.conn.sender
      ∧ ∃ lo, Tiled lo x.conn.sender)
    (hadvance _) ops _ x ⟨.refl _, 0, htiled⟩ hops hrun
  obtain ⟨hadv, -⟩ := run_invariant
    (I := fun y => Advanced x.conn.sender y.conn.sender ∧ ∃ lo, Tiled lo y.conn.sender)
    (hadvance _) more _ y ⟨.refl _, lo, htiled⟩ hlate hmore
  have honward := run_invariant (P := NoLateWrite)
    (I := fun y => Onward x.conn.receiver y.conn.receiver)
    (fun _ _ _ h _ hstep => receiver_rule (onward_steps _) h hstep) more _ y
    (.refl _) hlate hmore
  exact ⟨senderSummary_mono hadv htiled, receiverSummary_mono honward⟩

/-- From the handshake to the acknowledged `FIN`. -/
theorem state_never_regresses_to_fin :
    ∃ x y, run step (start { fixedIsn := some ⟨0⟩ } 0) [.connect] = some x
      ∧ run step x [.segmentReceived SpongeShutdown.synAck, .endInputStream,
        .segmentReceived SpongeShutdown.finAck] = some y
      ∧ senderSummary x.conn.sender = .synSent ∧ senderSummary y.conn.sender = .finAcked
      ∧ receiverSummary y.conn.receiver = .finRecv
      ∧ (senderSummary x.conn.sender).rank ≤ (senderSummary y.conn.sender).rank := by
  have hreach : ∃ x, run step (start { fixedIsn := some ⟨0⟩ } 0) [.connect] = some x
      ∧ senderSummary x.conn.sender = .synSent
      ∧ (run step x [.segmentReceived SpongeShutdown.synAck, .endInputStream,
        .segmentReceived SpongeShutdown.finAck]).any (fun y => decide
          (senderSummary y.conn.sender = .finAcked
            ∧ receiverSummary y.conn.receiver = .finRecv)) = true
      ∧ Along step NoLateWrite x [.segmentReceived SpongeShutdown.synAck, .endInputStream,
        .segmentReceived SpongeShutdown.finAck] := run_reaches (by decide)
  obtain ⟨x, hrun, hsyn, hany, hlate⟩ := hreach
  obtain ⟨y, hmore, hfin, hrecv⟩ := run_reaches hany
  exact ⟨x, y, hrun, hmore, hsyn, hfin, hrecv,
    (state_never_regresses _ 0 [.connect] _ x y hrun (by decide) hmore hlate).1⟩

/-! ## Listening -/

/-- The owner has called nothing: time passes and segments without `SYN` arrive. -/
def OnlyHears (_ : Life) : Op → Prop
  | .tick _ => True
  | .segmentReceived seg => seg.header.syn = false
  | .connect => False
  | .write _ => False
  | .endInputStream => False
  | .read _ => False
  | .pop _ => False
  | .transmit => False

/-- Active, in LISTEN, and nothing in `segments_out()`. -/
def Listening (x : Life) : Prop :=
  x.conn.active = true ∧ x.conn.sender.nextSeqno = 0 ∧ x.conn.receiver.ackno = none
    ∧ x.conn.segmentsOut = []

/-- A segment that does not raise is no reset, occupies no number, and does not
    acknowledge the initial sequence number. -/
def Unprovoking (x : Life) : Op → Prop
  | .segmentReceived seg =>
      seg.header.rst = false
        ∧ (seg.header.ack = true →
          seg.lengthInSequenceSpace = 0 ∧ seg.header.ackno ≠ x.conn.sender.isn)
  | .connect => True
  | .write _ => True
  | .endInputStream => True
  | .tick _ => True
  | .read _ => True
  | .pop _ => True
  | .transmit => True

instance (x : Life) : ∀ op : Op, Decidable (OnlyHears x op)
  | .tick _ => isTrue trivial
  | .segmentReceived seg => inferInstanceAs (Decidable (seg.header.syn = false))
  | .connect => isFalse id
  | .write _ => isFalse id
  | .endInputStream => isFalse id
  | .read _ => isFalse id
  | .pop _ => isFalse id
  | .transmit => isFalse id

instance (x : Life) : ∀ op : Op, Decidable (Unprovoking x op)
  | .segmentReceived _ => inferInstanceAs (Decidable (_ ∧ _))
  | .connect => isTrue trivial
  | .write _ => isTrue trivial
  | .endInputStream => isTrue trivial
  | .tick _ => isTrue trivial
  | .read _ => isTrue trivial
  | .pop _ => isTrue trivial
  | .transmit => isTrue trivial

/-- As it was made, but for the window and the clock. -/
structure Untouched (cfg : TCPConfig) (random : BitVec 32) (c : TCPConnection) : Prop where
  receiver : c.receiver = .new cfg.recvCapacity
  sender : ∃ window, c.sender
    = { TCPSender.new cfg.sendCapacity cfg.rtTimeout cfg.fixedIsn random with
        windowSize := window }
  segmentsOut : c.segmentsOut = []
  active : c.active = true

namespace Untouched

variable {cfg : TCPConfig} {random : BitVec 32} {c c' : TCPConnection} {seg : TCPSegment}

theorem nextSeqno (h : Untouched cfg random c) : c.sender.nextSeqno = 0 := by
  obtain ⟨window, hs⟩ := h.sender
  rw [hs]
  rfl

theorem queue (h : Untouched cfg random c) : c.sender.segmentsOut = [] := by
  obtain ⟨window, hs⟩ := h.sender
  rw [hs]
  rfl

/-- The receiver takes nothing without `SYN`. -/
theorem segmentReceived (h : Untouched cfg random c) (hsyn : seg.header.syn = false) :
    c.receiver.segmentReceived seg = c.receiver := by
  refine TCPReceiver.segmentReceived_ignored ?_ hsyn
  rw [h.receiver]
  rfl

theorem ackno (h : Untouched cfg random c) : c.receiver.ackno = none := by
  rw [h.receiver]
  rfl

/-- Only the initial sequence number is read as zero. -/
theorem ackedTo_eq_zero (h : Untouched cfg random c) (ackno : WrappingInt32) :
    ackedTo c.sender ackno = 0 ↔ ackno = c.sender.isn := by
  obtain ⟨window, hs⟩ := h.sender
  have hone : ackedTo c.sender ackno = unwrap ackno c.sender.isn 1 := by
    rw [ackedTo, hs]
    rfl
  rw [hone, unwrap_one_eq_zero_iff]

/-- The `SYN` goes out at an acknowledgement of the initial sequence number. -/
theorem hearsNothing_iff (h : Untouched cfg random c) (ackno : WrappingInt32)
    (window : BitVec 16) : HearsNothing c.sender ackno window ↔ ackno ≠ c.sender.isn := by
  rw [ne_eq, ← h.ackedTo_eq_zero ackno, HearsNothing, h.nextSeqno]
  constructor
  · rintro (hlt | hstop) hzero
    · omega
    · rw [hzero] at hstop
      rcases hstop with hspace | hneeded
      · rw [TCPSender.availableSpace_eq] at hspace
        have hwin := window.isLt
        dsimp only at hspace
        rw [Word64.sub64_of_le (Nat.zero_le _) (by omega)] at hspace
        omega
      · refine absurd (hneeded.symm.trans ?_) Bool.false_ne_true
        exact (TCPSender.segmentNeeded_iff _).mpr (Or.inl rfl)
  · intro hne
    exact Or.inl (Nat.pos_of_ne_zero hne)

/-- Which segments are not answered. -/
theorem passed_iff (h : Untouched cfg random c) (hsyn : seg.header.syn = false)
    (ackno : WrappingInt32) :
    Passed c seg ackno ↔ seg.lengthInSequenceSpace = 0 ∧ ackno ≠ c.sender.isn := by
  rw [Passed, h.segmentReceived hsyn, h.ackno, h.hearsNothing_iff]
  exact and_congr_right fun _ => and_iff_right fun own hown =>
    absurd hown (Option.not_mem_none own)

/-- A segment that is taken brought an acknowledgement of its own. -/
theorem heard_ack (h : Untouched cfg random c) (hsyn : seg.header.syn = false)
    {ackno : WrappingInt32} (hheard : c.heard seg = some ackno) :
    seg.header.ack = true ∧ ackno = seg.header.ackno := by
  rw [TCPConnection.heard, h.segmentReceived hsyn, h.ackno] at hheard
  cases hack : seg.header.ack with
  | true =>
      rw [hack, if_pos rfl] at hheard
      exact ⟨rfl, (Option.some.inj hheard).symm⟩
  | false =>
      rw [hack, if_neg Bool.false_ne_true] at hheard
      exact absurd hheard.symm (Option.some_ne_none ackno)

theorem tick (h : Untouched cfg random c) (ms : Nat) : Untouched cfg random (c.tick ms) := by
  obtain ⟨cfg', receiver, sender, segmentsOut, linger, time, active⟩ := c
  obtain ⟨hr, ⟨window, hs⟩, hout, hactive⟩ := h
  dsimp only at hr hs hout hactive
  subst hr hs hout hactive
  exact ⟨rfl, ⟨window, rfl⟩, rfl, rfl⟩

/-- What passes by changes the window at most. -/
theorem taken (h : Untouched cfg random c) (hsyn : seg.header.syn = false)
    {ackno : WrappingInt32} (htaken : TCPConnection.Taken c seg ackno c')
    (hpassed : Passed c seg ackno) : Untouched cfg random c' := by
  have hsilent := (answer_silent_iff h.queue seg ackno).mpr hpassed
  obtain ⟨hzero, hne⟩ := (h.passed_iff hsyn ackno).mp hpassed
  have hanswer : c.answer seg ackno
      = { c.sender with windowSize := seg.header.win.toNat } := by
    rcases noteAck_ackedTo c.sender ackno seg.header.win with ⟨-, hnote⟩ | ⟨-, popped, hacked⟩
    · rw [TCPConnection.answer, h.segmentReceived hsyn,
        TCPSender.ackReceived_ignored (by rw [hnote]), hnote, TCPConnection.replyToKeepAlive,
        h.ackno, TCPConnection.replyToData, hzero]
      exact if_neg (by simp)
    · -- accepted, it would be at zero
      have hreached := hacked.reached
      rw [h.nextSeqno, Nat.le_zero, h.ackedTo_eq_zero] at hreached
      exact absurd hreached hne
  have hsender := htaken.flushed.sender
  have hout := htaken.flushed.segmentsOut
  rw [hsilent, h.segmentsOut] at hout
  refine ⟨?_, ?_, hout, htaken.active.trans h.active⟩
  · rw [htaken.receiver, h.segmentReceived hsyn, h.receiver]
  · obtain ⟨window, hs⟩ := h.sender
    rw [hanswer, hs] at hsender
    exact ⟨seg.header.win.toNat, hsender⟩

end Untouched

theorem Untouched.listening {cfg : TCPConfig} {random : BitVec 32} {x : Life}
    (h : Untouched cfg random x.conn) : Listening x :=
  ⟨h.active, h.nextSeqno, h.ackno, h.segmentsOut⟩

section Listen

variable {cfg : TCPConfig} {random : BitVec 32} {x y : Life} {op : Op}

/-- What provokes the connection does not raise. -/
theorem enabled_of_provoking (hop : ¬ Unprovoking x op) : ∃ y, step x op = some y := by
  cases op with
  | segmentReceived seg =>
      have hsome : ∃ c, x.conn.segmentReceived seg = some c := by
        cases hrst : seg.header.rst with
        | true => exact ⟨_, TCPConnection.segmentReceived_reset hrst⟩
        | false =>
            obtain ⟨hack, -⟩ := Classical.not_imp.mp fun h => hop ⟨hrst, h⟩
            obtain ⟨c, hc, -⟩ := TCPConnection.taken_of_heard hrst (if_pos hack)
            exact ⟨c, hc⟩
      obtain ⟨c, hc⟩ := hsome
      exact ⟨_, Option.map_eq_some_iff.mpr ⟨c, hc, rfl⟩⟩
  | connect => exact absurd trivial hop
  | write data => exact absurd trivial hop
  | endInputStream => exact absurd trivial hop
  | tick ms => exact absurd trivial hop
  | read len => exact absurd trivial hop
  | pop len => exact absurd trivial hop
  | transmit => exact absurd trivial hop

theorem untouched_step (hx : Untouched cfg random x.conn) (hop : OnlyHears x op)
    (hquiet : Unprovoking x op) (hstep : step x op = some y) :
    Untouched cfg random y.conn := by
  cases op with
  | tick ms =>
      obtain rfl := Option.some.inj hstep
      exact hx.tick ms
  | segmentReceived seg =>
      obtain ⟨c, hc, heq⟩ := Option.map_eq_some_iff.mp hstep
      rw [← heq]
      obtain ⟨hrst, hack⟩ := hquiet
      rcases TCPConnection.segmentReceived_cases hc with ⟨hreset, -⟩ | ⟨ackno, htaken⟩
      · rw [hrst] at hreset
        exact absurd hreset Bool.false_ne_true
      · obtain ⟨htrue, hackno⟩ := hx.heard_ack hop htaken.heard
        refine hx.taken hop htaken ((hx.passed_iff hop ackno).mpr ?_)
        rw [hackno]
        exact hack htrue
  | connect => exact hop.elim
  | write data => exact hop.elim
  | endInputStream => exact hop.elim
  | read len => exact hop.elim
  | pop len => exact hop.elim
  | transmit => exact hop.elim

/-- A segment after which the connection still listens did not provoke it. -/
theorem unprovoking_of_listening {seg : TCPSegment} (hx : Untouched cfg random x.conn)
    (hsyn : seg.header.syn = false) (hstep : step x (.segmentReceived seg) = some y)
    (hy : Listening y) : Unprovoking x (.segmentReceived seg) := by
  obtain ⟨c, hc, heq⟩ := Option.map_eq_some_iff.mp hstep
  rw [← heq] at hy
  obtain ⟨hactive, -, -, hnone⟩ := hy
  rcases TCPConnection.segmentReceived_cases hc with ⟨-, hkilled⟩ | ⟨ackno, htaken⟩
  · -- a reset kills
    have hdead : c.active = false := by
      rw [hkilled]
      rfl
    exact absurd (hdead.symm.trans hactive) Bool.false_ne_true
  · -- an answer would be in `segments_out()`
    have hout := htaken.flushed.segmentsOut
    rw [hx.segmentsOut, List.nil_append, show c.segmentsOut = [] from hnone] at hout
    have hpassed := (answer_silent_iff hx.queue _ _).mp (List.map_eq_nil_iff.mp hout.symm)
    obtain ⟨-, hackno⟩ := hx.heard_ack hsyn htaken.heard
    refine ⟨htaken.rst, fun _ => ?_⟩
    rw [← hackno]
    exact (hx.passed_iff hsyn ackno).mp hpassed

end Listen

/-- **LISTENING, EXACTLY**: while the owner calls nothing and no `SYN` arrives, the
    connection listens in every state of the run iff no segment provokes it. -/
theorem listening_inert_iff (cfg : TCPConfig) (random : BitVec 32) (ops : List Op)
    (hops : Along step OnlyHears (start cfg random) ops) :
    Throughout step Listening (start cfg random) ops
      ↔ Along step Unprovoking (start cfg random) ops := by
  have hstart : Untouched cfg random (start cfg random).conn :=
    ⟨rfl, ⟨_, rfl⟩, rfl, rfl⟩
  refine throughout_iff_along (I := fun x => Untouched cfg random x.conn)
    (fun _ h => h.listening) (fun _ _ _ _ => enabled_of_provoking)
    (fun _ _ _ => untouched_step) ?_ ops _ hstart hops
  intro x op y hx hop hprovoking hstep hy
  cases op with
  | segmentReceived seg => exact hprovoking (unprovoking_of_listening hx hop hstep hy)
  | tick ms => exact hprovoking trivial
  | connect => exact hop
  | write data => exact hop
  | endInputStream => exact hop
  | read len => exact hop
  | pop len => exact hop
  | transmit => exact hop

/-- An acknowledgement of something else, and time, change nothing. -/
theorem listening_inert_iff_stray_ack :
    Along step OnlyHears (start { fixedIsn := some ⟨0⟩ } 0)
        [.segmentReceived (SpongeShutdown.bareAck 5 10), .tick 60000]
      ∧ Throughout step Listening (start { fixedIsn := some ⟨0⟩ } 0)
        [.segmentReceived (SpongeShutdown.bareAck 5 10), .tick 60000] :=
  ⟨by decide, (listening_inert_iff _ 0 _ (by decide)).mpr (by decide)⟩

/-- **A RESET IN LISTEN**: it kills the connection. -/
theorem listening_reset :
    ¬ ∀ (cfg : TCPConfig) (random : BitVec 32) (ops : List Op),
      Along step OnlyHears (start cfg random) ops →
      Throughout step Listening (start cfg random) ops := by
  intro hall
  have hthr := hall {} 0 [.segmentReceived SpongeShutdown.bareRst] (by decide)
  obtain ⟨hactive, -⟩ := hthr.2 _ rfl
  exact absurd hactive (by decide)

/-! ## The official states -/

/-- `TCPState`; the source keeps the texts, which tell the summaries apart. -/
structure TCPState where
  sender : TCPSenderStateSummary
  receiver : TCPReceiverStateSummary
  active : Bool := true
  lingerAfterStreamsFinish : Bool := true
deriving DecidableEq, Repr

/-- `TCPState::State` -/
inductive State where
  | listen
  | synRcvd
  | synSent
  | established
  | closeWait
  | lastAck
  | finWait1
  | finWait2
  | closing
  | timeWait
  | closed
  | reset
deriving DecidableEq, Repr

namespace TCPState

/-- The state that an official name stands for. -/
def ofState : State → TCPState
  | .listen => { receiver := .listen, sender := .closed }
  | .synRcvd => { receiver := .synRecv, sender := .synSent }
  | .synSent => { receiver := .listen, sender := .synSent }
  | .established => { receiver := .synRecv, sender := .synAcked }
  | .closeWait =>
      { receiver := .finRecv, sender := .synAcked, lingerAfterStreamsFinish := false }
  | .lastAck => { receiver := .finRecv, sender := .finSent, lingerAfterStreamsFinish := false }
  | .closing => { receiver := .finRecv, sender := .finSent }
  | .finWait1 => { receiver := .synRecv, sender := .finSent }
  | .finWait2 => { receiver := .synRecv, sender := .finAcked }
  | .timeWait => { receiver := .finRecv, sender := .finAcked }
  | .reset =>
      { receiver := .error, sender := .error, lingerAfterStreamsFinish := false, active := false }
  | .closed =>
      { receiver := .finRecv, sender := .finAcked, lingerAfterStreamsFinish := false
        active := false }

/-- A connection that is not active does not linger. -/
def ofParts (sender : TCPSender) (receiver : TCPReceiver) (active linger : Bool) : TCPState where
  sender := senderSummary sender
  receiver := receiverSummary receiver
  active := active
  lingerAfterStreamsFinish := if active then linger else false

def name (t : TCPState) : String :=
  "sender=`" ++ t.sender.text ++ "`, receiver=`" ++ t.receiver.text ++ "`, active="
    ++ (if t.active then "1" else "0") ++ ", linger_after_streams_finish="
    ++ (if t.lingerAfterStreamsFinish then "1" else "0")

end TCPState

/-- `TCPConnection::state` -/
def state (c : TCPConnection) : TCPState :=
  .ofParts c.sender c.receiver c.active c.lingerAfterStreamsFinish

/-- The first window holds the `SYN` and nothing else. -/
theorem emitted_new (capacity : UInt64) (timeout : BitVec 16) (isn : Option WrappingInt32)
    (random : BitVec 32) :
    ∃ seg, TCPSender.Emitted (.new capacity timeout isn random) seg
      (TCPSender.new capacity timeout isn random).fillWindow := by
  have hspace : (TCPSender.new capacity timeout isn random).availableSpace = 1 := by
    rw [TCPSender.availableSpace_eq]
    show Word64.sub64 (0 + max 1 1) 0 = 1
    decide
  have hneeded : (TCPSender.new capacity timeout isn random).segmentNeeded = true :=
    (TCPSender.segmentNeeded_iff _).mpr (Or.inl rfl)
  obtain ⟨⟨l, hfills⟩, hstopped⟩ :=
    TCPSender.fillWindow_fills (.new capacity timeout isn random)
  generalize TCPSender.new capacity timeout isn random = s at hspace hneeded hfills hstopped
  generalize s.fillWindow = t at hfills hstopped
  cases hfills with
  | done =>
      rcases hstopped with hfull | hidle
      · exact absurd (hfull.symm.trans hspace) (by decide)
      · exact absurd (hidle.symm.trans hneeded) (by decide)
  | @emit _ s' _ seg _ hem hrest =>
      -- the window is full, so nothing follows
      have hfull : TCPSender.Stopped s' := by
        have hpos := hem.occupies
        refine Or.inl ?_
        rw [hem.availableSpace, hspace]
        omega
      cases hrest with
      | done => exact ⟨seg, hem⟩
      | emit hmore _ => exact absurd hmore hfull.not_emitted

/-- **AFTER `connect`**: a new connection is in `SYN_SENT`, whatever its configuration. -/
theorem state_connect (cfg : TCPConfig) (random : BitVec 32) :
    state (TCPConnection.new cfg random).connect = .ofState .synSent := by
  obtain ⟨seg, hem⟩ := emitted_new cfg.sendCapacity cfg.rtTimeout cfg.fixedIsn random
  have hsender : senderSummary (TCPConnection.new cfg random).connect.sender = .synSent := by
    show senderSummary { (TCPSender.new cfg.sendCapacity cfg.rtTimeout cfg.fixedIsn
      random).fillWindow with segmentsOut := [] } = .synSent
    have hnext := hem.nextSeqno
    have hqueue := hem.outstanding
    have herror := hem.same.error
    have hpos := hem.occupies
    generalize (TCPSender.new cfg.sendCapacity cfg.rtTimeout cfg.fixedIsn random).fillWindow = t
      at hnext hqueue herror
    have hflight : t.bytesInFlight = seg.lengthInSequenceSpace := by
      rw [TCPSender.bytesInFlight, hqueue]
      simp [TCPSender.new]
    have hnext : t.nextSeqno = seg.lengthInSequenceSpace := hnext.trans (Nat.zero_add _)
    have herror : ¬ t.stream.error = true := by
      rw [herror]
      exact Bool.false_ne_true
    have hstarted : ¬ t.nextSeqno = 0 := by omega
    rw [senderSummary, if_neg herror, if_neg hstarted, if_pos]
    exact hnext.trans hflight.symm
  rw [state, TCPState.ofParts, hsender]
  rfl

end SpongeState
