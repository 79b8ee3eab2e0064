import Sponge.AgreementProofs
import Sponge.LifecycleProofs

/-! # What a connection advertises

    Every segment that leaves after the peer's `SYN` tells the peer two numbers:
    the acknowledgement, and the right edge that the window adds to it.  Neither
    may be taken back.

    A segment is stamped when it enters `segments_out()`, also when it is a
    retransmission, so the log pairs it with the receiver at the end of that
    operation.  A receiver only goes onward (`Onward`): more is assembled, more is
    read, the capacity stays.  The edge of the window is the number of bytes read
    and the capacity after it, cut at 65535 after the acknowledgement, and both of
    these go up (`advertised_never_back`).

    What occupies sequence numbers is answered with the acknowledgement, and what
    occupies none is answered only by segments that do, keep-alives apart
    (`reply_discipline`): two connections do not answer each other's bare
    acknowledgements for ever. -/

namespace SpongeAdvertisement

open SpongeByteStream SpongeWrapping SpongeSegment SpongeReceiver SpongeSender
open SpongeConnection SpongeLifecycle RunRule
open SpongeAgreement (ackPos ackno_eq ackPos_mono)

/-! ## What a step appends -/

/-- What is left of `segments_out()` before the operation appends. -/
def kept (x : Life) : Op → List TCPSegment
  | .transmit => x.conn.segmentsOut.tail
  | _ => x.conn.segmentsOut

/-- The step appended the stamped `out`, noted with the receiver it ends with. -/
structure Appended (x : Life) (op : Op) (y : Life) (out : List TCPSegment) : Prop where
  segmentsOut : y.conn.segmentsOut
    = kept x op ++ out.map (TCPConnection.stamp y.conn.receiver)
  log : y.log = x.log
    ++ out.map fun seg => (TCPConnection.stamp y.conn.receiver seg, y.conn.receiver)

section Appending

variable {x y : Life} {op : Op}

theorem appended_of_flushed {t : TCPSender} {c : TCPConnection}
    (h : TCPConnection.Flushed x.conn t c) (hkept : kept x op = x.conn.segmentsOut)
    (hc : y.conn = c) (hlog : y.log = (x.become c).log) : Appended x op y t.segmentsOut := by
  rw [become_log h] at hlog
  refine ⟨?_, ?_⟩
  · rw [hkept, hc]
    exact h.segmentsOut
  · rw [hlog, hc]

theorem appended_nothing (hout : y.conn.segmentsOut = kept x op) (hlog : y.log = x.log) :
    Appended x op y [] :=
  ⟨hout.trans (List.append_nil _).symm, hlog.trans (List.append_nil _).symm⟩

/-- **WHAT A STEP APPENDS**: stamped segments, noted with the receiver the step ends
    with. -/
theorem appended (hstep : step x op = some y) : ∃ out, Appended x op y out := by
  cases op with
  | connect =>
      obtain rfl := Option.some.inj hstep
      obtain ⟨t, -, hflushed, -⟩ := x.conn.connect_spec
      exact ⟨_, appended_of_flushed hflushed rfl rfl rfl⟩
  | write data =>
      obtain rfl := Option.some.inj hstep
      obtain ⟨t, -, hflushed, -⟩ := x.conn.write_spec data
      exact ⟨_, appended_of_flushed hflushed rfl rfl rfl⟩
  | endInputStream =>
      obtain rfl := Option.some.inj hstep
      obtain ⟨t, -, hflushed, -⟩ := x.conn.endInputStream_spec
      exact ⟨_, appended_of_flushed hflushed rfl rfl rfl⟩
  | tick ms =>
      obtain rfl := Option.some.inj hstep
      cases x.conn.tick_spec ms with
      | gaveUp t _ flushed _ _ => exact ⟨_, appended_of_flushed flushed rfl rfl rfl⟩
      | closed t _ flushed _ _ _ _ => exact ⟨_, appended_of_flushed flushed rfl rfl rfl⟩
      | passed t _ flushed _ _ => exact ⟨_, appended_of_flushed flushed rfl rfl rfl⟩
  | segmentReceived seg =>
      obtain ⟨c, hc, rfl⟩ := Option.map_eq_some_iff.mp hstep
      rcases TCPConnection.segmentReceived_cases hc with ⟨-, hkilled⟩ | ⟨ackno, htaken⟩
      · have hsame : c.segmentsOut = x.conn.segmentsOut := by
          rw [hkilled]
          rfl
        exact ⟨[], appended_nothing hsame (become_log_same hsame)⟩
      · exact ⟨_, appended_of_flushed htaken.flushed rfl rfl rfl⟩
  | read len =>
      obtain rfl := Option.some.inj hstep
      exact ⟨[], appended_nothing rfl (become_log_same (c := x.conn.readInbound len) rfl)⟩
  | pop len =>
      obtain rfl := Option.some.inj hstep
      exact ⟨[], appended_nothing rfl (become_log_same (c := x.conn.popInbound len) rfl)⟩
  | transmit =>
      obtain rfl := Option.some.inj hstep
      exact ⟨[], appended_nothing rfl rfl⟩

end Appending

/-! ## The log -/

/-- What the log keeps: stamped segments, in the order of their receivers, none of
    which is ahead of the connection's own. -/
structure Ledger (x : Life) : Prop where
  queue : x.conn.sender.segmentsOut = []
  stamped : ∀ p ∈ x.log, ∃ seg, p.1 = TCPConnection.stamp p.2 seg
  ordered : x.log.Pairwise fun p q => Onward p.2 q.2
  behind : ∀ p ∈ x.log, Onward p.2 x.conn.receiver

theorem ledger_start (cfg : TCPConfig) (random : BitVec 32) : Ledger (start cfg random) :=
  ⟨rfl, (fun _ h => nomatch h), .nil, (fun _ h => nomatch h)⟩

theorem Ledger.step {x y : Life} {op : Op} (h : Ledger x) (hstep : step x op = some y) :
    Ledger y := by
  obtain ⟨out, hout⟩ := appended hstep
  have hold : ∀ p ∈ x.log, Onward p.2 y.conn.receiver := fun p hp =>
    receiver_rule (onward_steps p.2) (h.behind p hp) hstep
  have hnew : ∀ p ∈ out.map fun seg =>
      (TCPConnection.stamp y.conn.receiver seg, y.conn.receiver),
      p.2 = y.conn.receiver ∧ ∃ seg, p.1 = TCPConnection.stamp p.2 seg := by
    intro p hp
    obtain ⟨seg, -, rfl⟩ := List.mem_map.mp hp
    exact ⟨rfl, seg, rfl⟩
  refine ⟨queue_empty h.queue hstep, ?_, ?_, ?_⟩
  · rw [hout.log]
    rintro p hp
    rcases List.mem_append.mp hp with hp | hp
    · exact h.stamped p hp
    · exact (hnew p hp).2
  · rw [hout.log]
    refine List.pairwise_append.mpr ⟨h.ordered, ?_, ?_⟩
    · refine List.pairwise_of_forall_mem_list fun p hp q hq => ?_
      rw [(hnew p hp).1, (hnew q hq).1]
      exact .refl _
    · intro p hp q hq
      rw [(hnew q hq).1]
      exact hold p hp
  · rw [hout.log]
    intro p hp
    rcases List.mem_append.mp hp with hp | hp
    · exact hold p hp
    · rw [(hnew p hp).1]
      exact .refl _

/-! ## Acknowledgement and edge -/

/-- What a segment that leaves tells the peer is what the receiver says. -/
structure Advertises (seg : TCPSegment) (r : TCPReceiver) : Prop where
  ack : seg.header.ack = true
  ackno : r.ackno = some seg.header.ackno
  absolute : seg.header.ackno = wrap (ackPos r) r.isn
  win : seg.header.win.toNat = min r.windowSize 65535

theorem advertises_stamp {r : TCPReceiver} (hsyn : r.syn = true) (seg : TCPSegment) :
    Advertises (TCPConnection.stamp r seg) r := by
  obtain ⟨ackno, hackno⟩ : ∃ ackno, r.ackno = some ackno := by
    rw [TCPReceiver.ackno, hsyn, if_pos rfl]
    exact ⟨_, rfl⟩
  have hwin : (if r.windowSize > 65535 then 65535
      else BitVec.ofNat 16 r.windowSize).toNat = min r.windowSize 65535 := by
    split_ifs with hbig
    · exact (Nat.min_eq_right (Nat.le_of_lt hbig)).symm
    · rw [BitVec.toNat_ofNat, Nat.mod_eq_of_lt (by omega)]
      omega
  rw [TCPConnection.stamp, hackno]
  exact ⟨rfl, hackno, (ackno_eq hackno).2, hwin⟩

/-- The right edge of the window that a segment advertises, before it is wrapped. -/
def rightEdge (p : TCPSegment × TCPReceiver) : Nat := ackPos p.2 + p.1.header.win.toNat

/-- **THE EDGE GOES ONWARD** with the receiver: it is the lesser of what was read and
    the capacity after it, and of the acknowledgement and 65535 after it. -/
theorem rightEdge_mono {p q : TCPSegment × TCPReceiver} (h : Onward p.2 q.2)
    (hp : Advertises p.1 p.2) (hq : Advertises q.1 q.2) : rightEdge p ≤ rightEdge q := by
  have hread := h.bytesRead
  have hack := ackPos_mono h.progress
  have hedge := p.2.window_edge
  have hedge' := q.2.window_edge
  rw [h.capacity] at hedge'
  have hended : (if p.2.streamOut.inputEnded then 1 else 0)
      ≤ if q.2.streamOut.inputEnded then 1 else 0 := by
    cases he : p.2.streamOut.inputEnded with
    | false => exact Nat.zero_le _
    | true => rw [h.progress.ended he]
  rw [rightEdge, rightEdge, hp.win, hq.win]
  rw [ackPos, ackPos] at hack ⊢
  omega

/-- **NEVER TAKEN BACK**: after every operation the sender's queue is empty, what the
    operation appended carries the acknowledgement and the window of the receiver it
    ended with, and along all of it both the acknowledgement and the right edge only
    go up. -/
theorem advertised_never_back (cfg : TCPConfig) (random : BitVec 32) (ops : List Op)
    (x : Life) (hrun : run step (start cfg random) ops = some x) :
    x.conn.sender.segmentsOut = []
      ∧ (∀ op y, step x op = some y → ∃ out, Appended x op y out)
      ∧ (∀ p ∈ x.log, p.2.syn = true → Advertises p.1 p.2)
      ∧ (x.log.filter fun p => p.2.syn).Pairwise fun p q =>
        p.2.isn = q.2.isn ∧ ackPos p.2 ≤ ackPos q.2 ∧ rightEdge p ≤ rightEdge q := by
  have hledger : Ledger x :=
    run_keeps (fun _ _ _ h hstep => h.step hstep) (ledger_start cfg random) hrun
  have hadv : ∀ p ∈ x.log, p.2.syn = true → Advertises p.1 p.2 := by
    intro p hp hsyn
    obtain ⟨seg, hseg⟩ := hledger.stamped p hp
    rw [hseg]
    exact advertises_stamp hsyn seg
  refine ⟨hledger.queue, fun _ _ => appended, hadv, ?_⟩
  refine (hledger.ordered.filter _).imp_of_mem fun {p q} hp hq honward => ?_
  obtain ⟨hp, hsyn⟩ := List.mem_filter.mp hp
  obtain ⟨hq, hsyn'⟩ := List.mem_filter.mp hq
  exact ⟨(honward.progress.syn hsyn).2.symm, ackPos_mono honward.progress,
    rightEdge_mono honward (hadv p hp hsyn) (hadv q hq hsyn')⟩

/-- With room for two bytes: the window closes by a byte, and a read opens it again. -/
theorem advertised_never_back_after_read :
    ∃ x, run step (start { recvCapacity := 2, fixedIsn := some ⟨1000⟩ } 0)
        [.connect, .segmentReceived (bareSyn 5), .segmentReceived (oneByte 6), .read 1,
          .segmentReceived (oneByte 7)] = some x
      ∧ (x.log.filter fun p => p.2.syn).map rightEdge = [3, 3, 4]
      ∧ (x.log.filter fun p => p.2.syn).Pairwise fun p q =>
        p.2.isn = q.2.isn ∧ ackPos p.2 ≤ ackPos q.2 ∧ rightEdge p ≤ rightEdge q := by
  have hreach : ∃ x, run step (start { recvCapacity := 2, fixedIsn := some ⟨1000⟩ } 0)
        [.connect, .segmentReceived (bareSyn 5), .segmentReceived (oneByte 6), .read 1,
          .segmentReceived (oneByte 7)] = some x
      ∧ (x.log.filter fun p => p.2.syn).map rightEdge = [3, 3, 4] := run_reaches (by decide)
  obtain ⟨x, hrun, hedges⟩ := hreach
  exact ⟨x, hrun, hedges, (advertised_never_back _ 0 _ x hrun).2.2.2⟩

/-! ## The reply to a segment -/

section Reply

variable {s : TCPSender} {r : TCPReceiver} {c c' : TCPConnection} {seg : TCPSegment}
  {ackno : WrappingInt32}

/-- The stamp adds no sequence numbers. -/
theorem stamp_length (r : TCPReceiver) (seg : TCPSegment) :
    (TCPConnection.stamp r seg).lengthInSequenceSpace = seg.lengthInSequenceSpace := by
  rw [TCPConnection.stamp]
  dsimp only
  split <;> rfl

/-- What hearing an acknowledgement queues occupies sequence numbers. -/
theorem ackReceived_occupies (hqueue : s.segmentsOut = []) (ackno : WrappingInt32)
    (window : BitVec 16) :
    ∀ reply ∈ (s.ackReceived ackno window).segmentsOut, 0 < reply.lengthInSequenceSpace := by
  intro reply hreply
  rcases SpongeOldAck.noteAck_ackedTo s ackno window with ⟨hgt, -⟩ | ⟨hgo, popped, hacked⟩
  · rw [SpongeOldAck.ackReceived_of_beyond window hgt] at hreply
    dsimp only at hreply
    rw [hqueue] at hreply
    exact absurd hreply List.not_mem_nil
  · rw [TCPSender.ackReceived_noted hgo] at hreply
    obtain ⟨⟨l, hl⟩, -⟩ := TCPSender.fillWindow_fills (s.noteAck ackno window).2
    rw [hl.segmentsOut, hacked.same.segmentsOut, hqueue, List.nil_append] at hreply
    obtain ⟨p, hp, rfl⟩ := List.mem_map.mp hreply
    exact (fills_beyond hl p hp).2

/-- A segment that occupies sequence numbers leaves something in the queue. -/
theorem replyToData_replies (s : TCPSender) (hseg : 0 < seg.lengthInSequenceSpace) :
    (TCPConnection.replyToData s seg).segmentsOut ≠ [] := by
  rw [TCPConnection.replyToData, decide_eq_true hseg, Bool.and_true]
  split_ifs with hempty hfilled
  · exact List.append_ne_nil_of_right_ne_nil _ (List.cons_ne_nil _ _)
  · exact fun hnil => hfilled (by rw [hnil]; rfl)
  · exact fun hnil => hempty (by rw [hnil]; rfl)

theorem replyToData_of_bare (s : TCPSender) (hseg : seg.lengthInSequenceSpace = 0) :
    TCPConnection.replyToData s seg = s := by
  rw [TCPConnection.replyToData, hseg, decide_eq_false (Nat.lt_irrefl 0), Bool.and_false]
  exact if_neg Bool.false_ne_true

/-- Only a keep-alive is answered as one. -/
theorem replyToKeepAlive_of_not (hackno : r.ackno = some ackno)
    (hnot : 0 < seg.lengthInSequenceSpace ∨ seg.header.seqno ≠ ackno.sub 1) :
    TCPConnection.replyToKeepAlive r s seg = s := by
  rw [TCPConnection.replyToKeepAlive, hackno]
  refine if_neg fun h => ?_
  obtain ⟨hzero, hseqno⟩ := Bool.and_eq_true_iff.mp h
  rcases hnot with hseg | hother
  · exact Nat.ne_of_gt hseg (beq_iff_eq.mp hzero)
  · exact hother (beq_iff_eq.mp hseqno)

/-- **THE REPLY**: a segment that occupies sequence numbers is answered, and what answers
    one that occupies none occupies some itself, unless it is a keep-alive. -/
theorem answer_replies (hackno : (c.receiver.segmentReceived seg).ackno = some ackno)
    (hqueue : c.sender.segmentsOut = []) (own : WrappingInt32) :
    (0 < seg.lengthInSequenceSpace → (c.answer seg own).segmentsOut ≠ [])
      ∧ (seg.lengthInSequenceSpace = 0 → seg.header.seqno ≠ ackno.sub 1 →
        ∀ reply ∈ (c.answer seg own).segmentsOut, 0 < reply.lengthInSequenceSpace) := by
  rw [TCPConnection.answer]
  constructor
  · intro hseg
    rw [replyToKeepAlive_of_not hackno (Or.inl hseg)]
    exact replyToData_replies _ hseg
  · intro hseg hother
    rw [replyToKeepAlive_of_not hackno (Or.inr hother), replyToData_of_bare _ hseg]
    exact ackReceived_occupies hqueue own seg.header.win

end Reply

/-- **REPLY DISCIPLINE**: in every state of every run, whatever a segment without `RST`
    makes the connection append carries the receiver's acknowledgement, once there is one;
    a segment that occupies sequence numbers is answered; and one that occupies none is
    answered only by segments that do, unless it is a keep-alive.  Popped segments have to
    be found as they were. -/
theorem reply_discipline [popped : Popped] (hintact : Popped.Intact) (cfg : TCPConfig)
    (random : BitVec 32) (ops : List Op) (x : Life)
    (hrun : run step (start cfg random) ops = some x) (seg : TCPSegment)
    (hrst : seg.header.rst = false) (c : TCPConnection)
    (hc : x.conn.segmentReceived seg = some c) (ackno : WrappingInt32)
    (hackno : c.receiver.ackno = some ackno) :
    ∃ replies, c.segmentsOut = x.conn.segmentsOut ++ replies
      ∧ (∀ reply ∈ replies, reply.header.ack = true ∧ reply.header.ackno = ackno)
      ∧ (0 < seg.lengthInSequenceSpace → replies ≠ [])
      ∧ (seg.lengthInSequenceSpace = 0 → seg.header.seqno ≠ ackno.sub 1 →
        ∀ reply ∈ replies, 0 < reply.lengthInSequenceSpace) := by
  obtain rfl := hintact.eq_kept
  have hqueue := queue_empty_run hrun
  rcases TCPConnection.segmentReceived_cases hc with ⟨hreset, -⟩ | ⟨own, htaken⟩
  · rw [hrst] at hreset
    exact absurd hreset Bool.false_ne_true
  · have hnew := hackno
    rw [htaken.receiver] at hnew
    obtain ⟨hanswered, hoccupies⟩ := answer_replies hnew hqueue own
    refine ⟨_, htaken.flushed.segmentsOut, ?_, ?_, ?_⟩
    · intro reply hreply
      obtain ⟨out, -, rfl⟩ := List.mem_map.mp hreply
      have hadvertises := advertises_stamp (ackno_eq hackno).1 out
      have hsame := hadvertises.ackno
      rw [hackno] at hsame
      exact ⟨hadvertises.ack, (Option.some.inj hsame).symm⟩
    · intro hseg hnil
      exact hanswered hseg (List.map_eq_nil_iff.mp hnil)
    · intro hseg hother reply hreply
      obtain ⟨out, hout, rfl⟩ := List.mem_map.mp hreply
      rw [stamp_length]
      exact hoccupies hseg hother out hout

/-- The first byte after the peer's `SYN` is answered. -/
theorem reply_discipline_to_a_byte :
    ∃ x c, run step (start { fixedIsn := some ⟨1000⟩ } 0)
        [.connect, .segmentReceived (bareSyn 5)] = some x
      ∧ x.conn.segmentReceived (oneByte 6) = some c
      ∧ ∃ replies, c.segmentsOut = x.conn.segmentsOut ++ replies ∧ replies ≠ []
        ∧ ∀ reply ∈ replies, reply.header.ack = true ∧ reply.header.ackno = ⟨7⟩ := by
  have hreach : ∃ x, run step (start { fixedIsn := some ⟨1000⟩ } 0)
        [.connect, .segmentReceived (bareSyn 5)] = some x
      ∧ (x.conn.segmentReceived (oneByte 6)).any
        (fun c => c.receiver.ackno == some ⟨7⟩) = true := run_reaches (by decide)
  obtain ⟨x, hrun, hany⟩ := hreach
  cases hc : x.conn.segmentReceived (oneByte 6) with
  | none =>
      rw [hc] at hany
      exact Bool.noConfusion hany
  | some c =>
      rw [hc] at hany
      obtain ⟨replies, hout, hcarry, hanswered, -⟩ := reply_discipline Popped.intact_kept _ 0
        _ x hrun (oneByte 6) rfl c hc ⟨7⟩ (beq_iff_eq.mp hany)
      exact ⟨x, c, hrun, hc, replies, hout, hanswered (by decide), hcarry⟩

/-- Six bytes fill the window that the peer opened with its `SYN`, and 512 wait for more
    room. -/
def eightSegments : List Op :=
  [.connect,
    .segmentReceived { header := { syn := true, ack := true, ackno := ⟨1⟩, win := 6 } },
    .write [0], .write [0], .write [0], .write [0], .write [0], .write [0],
    .write (List.replicate 512 0)]

/-- The peer acknowledges the six bytes and opens its window. -/
def windowOpens : TCPSegment :=
  { header := { seqno := ⟨1⟩, ack := true, ackno := ⟨7⟩, win := 1000 } }

/-- **EMPTIED IN FREED MEMORY**: the 512 bytes leave in the ninth segment, the last of its
    block of the queue; after the pop it is found empty, so that a bare acknowledgement is
    answered by another one. -/
theorem bare_ack_answered_bare :
    ¬ ∀ (_ : Popped) (cfg : TCPConfig) (random : BitVec 32) (ops : List Op) (x : Life),
      run step (start cfg random) ops = some x → ∀ seg : TCPSegment,
      seg.header.rst = false → ∀ c : TCPConnection, x.conn.segmentReceived seg = some c →
      ∀ ackno, c.receiver.ackno = some ackno →
      ∃ replies, c.segmentsOut = x.conn.segmentsOut ++ replies
        ∧ (∀ reply ∈ replies, reply.header.ack = true ∧ reply.header.ackno = ackno)
        ∧ (0 < seg.lengthInSequenceSpace → replies ≠ [])
        ∧ (seg.lengthInSequenceSpace = 0 → seg.header.seqno ≠ ackno.sub 1 →
          ∀ reply ∈ replies, 0 < reply.lengthInSequenceSpace) := by
  intro hall
  have hreach : ∃ x, run (@step Popped.offsetOverwritten) (start { fixedIsn := some ⟨0⟩ } 0)
        eightSegments = some x
      ∧ (@TCPConnection.segmentReceived Popped.offsetOverwritten x.conn windowOpens).any
        (fun c => decide (c.receiver.ackno = some ⟨1⟩
          ∧ ∃ reply ∈ c.segmentsOut.drop x.conn.segmentsOut.length,
            reply.lengthInSequenceSpace = 0)) = true := run_reaches (by decide +kernel)
  obtain ⟨x, hrun, hany⟩ := hreach
  obtain ⟨c, hc, hfound⟩ := (Option.any_eq_true _ _).mp hany
  obtain ⟨hackno, reply, hreply, hbare⟩ := of_decide_eq_true hfound
  obtain ⟨replies, hout, -, -, hoccupies⟩ :=
    hall _ _ _ _ x hrun windowOpens rfl c hc _ hackno
  rw [hout, List.drop_left] at hreply
  exact Nat.ne_of_gt (hoccupies rfl (by decide) reply hreply) hbare

end SpongeAdvertisement
