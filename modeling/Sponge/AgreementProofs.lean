import Mathlib.Algebra.Order.BigOperators.Group.List
import Mathlib.Algebra.Order.Ring.Nat
import Sponge.NetworkProofs

/-! # What an acknowledgement and a clean close tell about the peer

    A sender drops a segment when a number at or beyond its end is
    acknowledged; an endpoint closes when its own counters say that both streams
    are done.  Both are conclusions about the peer, drawn from local state.

    They are right as long as no `FIN` ends a stream early (`FinInOrder`), no
    segment without the `ACK` flag makes an endpoint acknowledge its own data
    (`OwnAckHarmless`), and no connection closes with a byte unsent
    (`ClosesSent`).  The argument: an acknowledgement in flight promises no more
    than its sender holds now (`Acks.acks`), since a receiver only gets further;
    so what was dropped has arrived.

    `data_dropped_unheard` and `closed_without_the_data` are runs in which a
    `FIN` overtakes a byte. -/

namespace SpongeAgreement

open SpongeByteStream SpongeReassembler SpongeWrapping SpongeSegment
open SpongeReceiver SpongeReceiver.TCPReceiver SpongeStreamEnd SpongeSender
open SpongeConnection SpongeOutbound SpongeNetwork RunRule

/-- The number after the last one a kept segment occupies. -/
def endSeqno (p : Nat × TCPSegment) : Nat := p.1 + p.2.lengthInSequenceSpace

/-- Every number below `k` has arrived: number 0 is the `SYN`, number `i + 1` the
    byte `i` of the stream. -/
def Arrived (x y : Endpoint) (k : Nat) : Prop :=
  (0 < k → y.conn.receiver.syn = true)
    ∧ ∀ i < x.accepted.length, i + 1 < k →
      i < y.conn.receiver.reassembler.firstUnassembled

instance (x y : Endpoint) (k : Nat) : Decidable (Arrived x y k) :=
  inferInstanceAs (Decidable (_ ∧ _))

/-- Whatever has left the queue of `x` has arrived at `y`. -/
def NoFalseAck (x y : Endpoint) : Prop := ∀ p ∈ x.removed, Arrived x y (endSeqno p)

instance (x y : Endpoint) : Decidable (NoFalseAck x y) :=
  inferInstanceAs (Decidable (∀ p ∈ x.removed, Arrived x y (endSeqno p)))

/-! ## Where the conclusions are right -/

/-- The operation on `z` is not a delivery of a `FIN`, or of a segment after it,
    that leaves neither the whole stream of `p` written nor anything parked. -/
def FinInOrder (p z : Endpoint) : Op → Prop
  | .deliver i => ∀ seg ∈ p.sent[i]?, seg.header.rst = false →
      (z.conn.receiver.syn || seg.header.syn) = true →
      (seg.header.fin || z.conn.receiver.fin) = true →
      WholeOrParked p.accepted.length z.conn.receiver.reassembler seg.payload
        ((z.conn.receiver.noteSyn seg.header).payloadIndex seg.header)
  | _ => True

/-- The operation on `z` is not a delivery without the `ACK` flag on which the
    number that `z` would acknowledge to its peer, read as an acknowledgement of
    its own data, covers a segment that `z` still keeps. -/
def OwnAckHarmless (p z : Endpoint) : Op → Prop
  | .deliver i => ∀ seg ∈ p.sent[i]?, seg.header.rst = false → seg.header.ack = false →
      ∀ ackno ∈ (z.conn.receiver.segmentReceived seg).ackno,
        unwrap ackno z.conn.sender.isn (z.conn.sender.absAckno + 1)
          ≤ z.conn.sender.nextSeqno →
        ∀ q ∈ z.conn.sender.outstandingSegments,
          unwrap ackno z.conn.sender.isn (z.conn.sender.absAckno + 1) < endSeqno q
  | _ => True

/-- The operation on `z` is not a tick that closes it with a byte unsent. -/
def ClosesSent (z : Endpoint) : Op → Prop
  | .tick ms => z.conn.active = true → z.conn.killConditionCheck = true →
      (z.conn.lingerAfterStreamsFinish = true →
        10 * z.conn.cfg.rtTimeout.toNat ≤ (z.conn.timeLastRecv + ms) % 2 ^ 64) →
      z.conn.sender.consecutiveRetransmissions < TCPConfig.maxRetxAttempts →
      z.conn.sender.stream.eof = true
  | _ => True

instance (p z : Endpoint) : ∀ op, Decidable (FinInOrder p z op)
  | .deliver i => inferInstanceAs (Decidable (∀ seg ∈ p.sent[i]?, _))
  | .connect => isTrue trivial
  | .write _ => isTrue trivial
  | .endInputStream => isTrue trivial
  | .tick _ => isTrue trivial
  | .read _ => isTrue trivial
  | .transmit => isTrue trivial

instance (p z : Endpoint) : ∀ op, Decidable (OwnAckHarmless p z op)
  | .deliver i => inferInstanceAs (Decidable (∀ seg ∈ p.sent[i]?, _))
  | .connect => isTrue trivial
  | .write _ => isTrue trivial
  | .endInputStream => isTrue trivial
  | .tick _ => isTrue trivial
  | .read _ => isTrue trivial
  | .transmit => isTrue trivial

instance (z : Endpoint) : ∀ op, Decidable (ClosesSent z op)
  | .tick _ => inferInstanceAs (Decidable (_ → _ → _ → _ → _))
  | .connect => isTrue trivial
  | .write _ => isTrue trivial
  | .endInputStream => isTrue trivial
  | .deliver _ => isTrue trivial
  | .read _ => isTrue trivial
  | .transmit => isTrue trivial

/-! ## The queue of outstanding segments -/

/-- What the moves of a sender do to its queue: they add at the end, up to the
    next number. -/
structure Extends (s t : TCPSender) : Prop where
  kept : ∀ p ∈ s.outstandingSegments, p ∈ t.outstandingSegments
  new : ∀ p ∈ t.outstandingSegments,
    p ∈ s.outstandingSegments ∨ endSeqno p ≤ t.nextSeqno
  next : s.nextSeqno ≤ t.nextSeqno
  last : t.nextSeqno = s.nextSeqno
    ∨ ∃ p ∈ t.outstandingSegments,
      0 < p.2.lengthInSequenceSpace ∧ endSeqno p = t.nextSeqno

section Queue

variable {s t u : TCPSender}

theorem Extends.of_same (hq : t.outstandingSegments = s.outstandingSegments)
    (hn : t.nextSeqno = s.nextSeqno) : Extends s t where
  kept := fun p hp => by rw [hq]; exact hp
  new := fun p hp => Or.inl (by rw [← hq]; exact hp)
  next := Nat.le_of_eq hn.symm
  last := Or.inl hn

theorem Extends.trans (h : Extends s t) (h' : Extends t u) : Extends s u where
  kept := fun p hp => h'.kept p (h.kept p hp)
  new := by
    intro p hp
    rcases h'.new p hp with hp' | hp'
    · exact (h.new p hp').imp_right fun hle => Nat.le_trans hle h'.next
    · exact Or.inr hp'
  next := Nat.le_trans h.next h'.next
  last := by
    rcases h'.last with heq | hlast
    · rw [heq]
      refine h.last.imp_right ?_
      rintro ⟨p, hp, hlen, hend⟩
      exact ⟨p, h'.kept p hp, hlen, hend⟩
    · exact Or.inr hlast

theorem extends_emit {seg : TCPSegment} (h : s.Emitted seg t) : Extends s t where
  kept := fun p hp => by rw [h.outstanding]; exact List.mem_append_left _ hp
  new := by
    intro p hp
    rw [h.outstanding] at hp
    refine (List.mem_append.mp hp).imp_right fun hp => ?_
    rw [List.mem_singleton.mp hp, h.nextSeqno, endSeqno]
  next := by rw [h.nextSeqno]; exact Nat.le_add_right _ _
  last := by
    refine Or.inr ⟨(s.nextSeqno, seg), ?_, h.occupies, h.nextSeqno.symm⟩
    rw [h.outstanding]
    exact List.mem_append_right _ (List.mem_singleton_self _)

theorem extends_reset (s : TCPSender) :
    Extends s (s.sendFlagsSegment false false true) where
  kept := fun p hp => List.mem_append_left _ hp
  new := by
    intro p hp
    refine (List.mem_append.mp hp).imp_right fun hp => ?_
    rw [List.mem_singleton.mp hp]
    exact Nat.le_refl _
  next := Nat.le_refl _
  last := Or.inl rfl

theorem extends_moves (h : Moves s t) : Extends s t := by
  induction h with
  | refl s => exact .of_same rfl rfl
  | emit head _ ih => exact (extends_emit head).trans ih
  | empty _ ih => refine Extends.trans ?_ ih; exact .of_same rfl rfl
  | reset _ ih => exact (extends_reset _).trans ih
  | tick head _ ih => exact (Extends.of_same head.outstanding head.nextSeqno).trans ih
  | window _ _ ih => refine Extends.trans ?_ ih; exact .of_same rfl rfl
  | error _ ih => refine Extends.trans ?_ ih; exact .of_same rfl rfl

/-- The sender itself never sets the `ACK` flag. -/
structure Unstamped (s : TCPSender) : Prop where
  kept : ∀ p ∈ s.outstandingSegments, p.2.header.ack = false
  queued : ∀ seg ∈ s.segmentsOut, seg.header.ack = false

/-- One more unstamped segment in the queue to be sent. -/
theorem Unstamped.enqueue (h : Unstamped s) {seg : TCPSegment}
    (hseg : seg.header.ack = false) :
    ∀ seg' ∈ s.segmentsOut ++ [seg], seg'.header.ack = false := by
  intro seg' hmem
  rcases List.mem_append.mp hmem with hold | hnew
  · exact h.queued seg' hold
  · rw [List.mem_singleton.mp hnew]
    exact hseg

/-- One more unstamped segment in the queue of outstanding ones. -/
theorem Unstamped.keep (h : Unstamped s) {q : Nat × TCPSegment}
    (hq : q.2.header.ack = false) :
    ∀ p ∈ s.outstandingSegments ++ [q], p.2.header.ack = false := by
  intro p hmem
  rcases List.mem_append.mp hmem with hold | hnew
  · exact h.kept p hold
  · rw [List.mem_singleton.mp hnew]
    exact hq

theorem Unstamped.moves (h : Unstamped s) (hm : Moves s t) : Unstamped t := by
  induction hm with
  | refl s => exact h
  | emit head _ ih =>
      refine ih ⟨?_, ?_⟩
      · rw [head.outstanding]; exact h.keep head.plain.1
      · rw [head.segmentsOut]; exact h.enqueue head.plain.1
  | empty _ ih => exact ih ⟨h.kept, h.enqueue rfl⟩
  | reset _ ih => exact ih ⟨h.keep rfl, h.enqueue rfl⟩
  | tick head _ ih =>
      refine ih ⟨?_, ?_⟩
      · rw [head.outstanding]; exact h.kept
      · rcases head.segmentsOut with hout | ⟨front, rest, hq, hout⟩
        · rw [hout]; exact h.queued
        · rw [hout]
          refine h.enqueue ?_
          exact h.kept front (by rw [hq]; exact List.mem_cons_self ..)
  | window _ _ ih => exact ih ⟨h.kept, h.queued⟩
  | error _ ih => exact ih ⟨h.kept, h.queued⟩

end Queue

/-- The segment is, or was, in the queue of `z`. -/
def Kept (z : Endpoint) (p : Nat × TCPSegment) : Prop :=
  p ∈ z.removed ∨ p ∈ z.conn.sender.outstandingSegments

/-- Everything kept lies below the next number, and the last number was given to
    something kept. -/
structure Tidy (z : Endpoint) : Prop where
  within : ∀ p, Kept z p → endSeqno p ≤ z.conn.sender.nextSeqno
  last : 0 < z.conn.sender.nextSeqno →
    ∃ p, Kept z p ∧ 0 < p.2.lengthInSequenceSpace
      ∧ endSeqno p = z.conn.sender.nextSeqno

section Step

variable {p z z' : Endpoint} {op : Op} {s : TCPSender}

/-- However an operation starts, it adds nothing to the queues. -/
theorem begins_queue (h : Begins p z op z' s) :
    s.nextSeqno = z.conn.sender.nextSeqno ∧ s.segmentsOut = z.conn.sender.segmentsOut
      ∧ ∀ q ∈ s.outstandingSegments, q ∈ z.conn.sender.outstandingSegments := by
  cases h with
  | same _ _ => exact ⟨rfl, rfl, fun _ hq => hq⟩
  | wrote _ _ _ _ => exact ⟨rfl, rfl, fun _ hq => hq⟩
  | ended _ _ => exact ⟨rfl, rfl, fun _ hq => hq⟩
  | acked _ _ _ hacked _ _ =>
      refine ⟨hacked.same.nextSeqno, hacked.same.segmentsOut, fun q hq => ?_⟩
      rw [hacked.queue]
      exact List.mem_append_right _ hq

/-- What leaves the queue is noted. -/
theorem Kept.acts (ha : Acted p z op z') {q : Nat × TCPSegment} (hq : Kept z q) :
    Kept z' q := by
  rw [Kept, ha.removed]
  by_cases hstill : q ∈ z'.conn.sender.outstandingSegments
  · exact Or.inr hstill
  · rcases hq with hq | hq
    · exact Or.inl (List.mem_append_left _ hq)
    · exact Or.inl (List.mem_append_right _
        (List.mem_filter.mpr ⟨hq, decide_eq_true hstill⟩))

/-- Removed in this step or before. -/
theorem mem_removed (ha : Acted p z op z') {q : Nat × TCPSegment} (hq : q ∈ z'.removed) :
    q ∈ z.removed
      ∨ q ∈ z.conn.sender.outstandingSegments
        ∧ q ∉ z'.conn.sender.outstandingSegments := by
  rw [ha.removed] at hq
  refine (List.mem_append.mp hq).imp_right fun hq => ?_
  obtain ⟨hold, hgone⟩ := List.mem_filter.mp hq
  exact ⟨hold, of_decide_eq_true hgone⟩

theorem Tidy.acts (h : Tidy z) (ha : Acted p z op z') : Tidy z' := by
  obtain ⟨s, t, hbegins, hmoves, hleaves⟩ := ha.outbound
  obtain ⟨hnext, -, hsub⟩ := begins_queue hbegins
  have hext := extends_moves hmoves
  obtain ⟨queue, -, hsender⟩ := hleaves.sender
  have hle : z.conn.sender.nextSeqno ≤ t.nextSeqno := by
    rw [← hnext]; exact hext.next
  have hnext' : z'.conn.sender.nextSeqno = t.nextSeqno := by rw [hsender]
  have hqueue' : z'.conn.sender.outstandingSegments = t.outstandingSegments := by
    rw [hsender]
  have hold : ∀ q, Kept z q → endSeqno q ≤ t.nextSeqno :=
    fun q hq => Nat.le_trans (h.within q hq) hle
  refine ⟨?_, ?_⟩
  · intro q hq
    rw [hnext']
    rcases hq with hq | hq
    · rcases mem_removed ha hq with hq | ⟨hq, -⟩
      · exact hold q (Or.inl hq)
      · exact hold q (Or.inr hq)
    · rw [hqueue'] at hq
      exact (hext.new q hq).elim (fun hq => hold q (Or.inr (hsub q hq))) id
  · intro hpos
    rw [hnext'] at hpos ⊢
    rcases hext.last with heq | ⟨q, hq, hlen, hend⟩
    · rw [heq, hnext] at hpos ⊢
      obtain ⟨q, hq, hlen, hend⟩ := h.last hpos
      exact ⟨q, hq.acts ha, hlen, hend⟩
    · exact ⟨q, Or.inr (by rw [hqueue']; exact hq), hlen, hend⟩

theorem Unstamped.acts (h : Unstamped z.conn.sender) (ha : Acted p z op z') :
    Unstamped z'.conn.sender := by
  obtain ⟨s, t, hbegins, hmoves, hleaves⟩ := ha.outbound
  obtain ⟨-, hout, hsub⟩ := begins_queue hbegins
  have hs : Unstamped s := ⟨fun q hq => h.kept q (hsub q hq), by rw [hout]; exact h.queued⟩
  have ht := hs.moves hmoves
  obtain ⟨queue, hqueue, hsender⟩ := hleaves.sender
  rw [hsender]
  exact ⟨ht.kept, fun seg hseg => ht.queued seg (hqueue seg hseg)⟩

end Step

/-! ## Acknowledgements -/

/-- The number a receiver acknowledges, before it is wrapped. -/
def ackPos (r : TCPReceiver) : Nat :=
  r.reassembler.firstUnassembled + 1 + (if r.streamOut.inputEnded then 1 else 0)

theorem ackno_eq {r : TCPReceiver} {a : WrappingInt32} (h : r.ackno = some a) :
    r.syn = true ∧ a = wrap (ackPos r) r.isn := by
  cases hsyn : r.syn with
  | false =>
      rw [ackno, hsyn, if_neg Bool.false_ne_true] at h
      exact absurd h.symm (Option.some_ne_none a)
  | true =>
      rw [ackno, hsyn, if_pos rfl] at h
      refine ⟨rfl, ?_⟩
      rw [← Option.some.inj h, ackPos]
      split_ifs <;> rfl

theorem ackPos_mono {r r' : TCPReceiver} (h : Progress r r') : ackPos r ≤ ackPos r' := by
  have hfirst := h.first
  rw [ackPos, ackPos]
  by_cases he : r.streamOut.inputEnded = true
  · rw [if_pos he, if_pos (h.ended he)]
    omega
  · rw [if_neg he]
    omega

/-- A segment with the `ACK` flag that leaves carries the receiver's number. -/
theorem stamp_ack {r : TCPReceiver} {out : TCPSegment} (hout : out.header.ack = false)
    (h : (TCPConnection.stamp r out).header.ack = true) :
    r.syn = true ∧ (TCPConnection.stamp r out).header.ackno = wrap (ackPos r) r.isn := by
  rw [TCPConnection.stamp] at h ⊢
  cases ha : r.ackno with
  | none =>
      rw [ha] at h
      exact absurd (hout.symm.trans h) Bool.false_ne_true
  | some a => exact ackno_eq ha

section Arrival

variable {x x' y y' : Endpoint} {j k : Nat}

theorem Arrived.of_le (h : Arrived x y k) (hle : j ≤ k) : Arrived x y j :=
  ⟨fun hj => h.1 (by omega), fun i hi hij => h.2 i hi (by omega)⟩

theorem Arrived.progress (h : Arrived x y k)
    (hp : Progress y.conn.receiver y'.conn.receiver) : Arrived x y' k :=
  ⟨fun hk => (hp.syn (h.1 hk)).1, fun i hi hik => Nat.lt_of_lt_of_le (h.2 i hi hik) hp.first⟩

/-- Bytes that are accepted later have later numbers. -/
theorem Arrived.grow (h : Arrived x y k)
    (hgrow : x'.accepted = x.accepted ∨ k ≤ x.accepted.length + 1) : Arrived x' y k := by
  refine ⟨h.1, fun i hi hik => ?_⟩
  rcases hgrow with heq | hle
  · exact h.2 i (by rw [← heq]; exact hi) hik
  · exact h.2 i (by omega) hik

/-- What a receiver acknowledges has arrived, unless its stream ended early. -/
theorem arrived_ackPos (hsyn : y.conn.receiver.syn = true)
    (hwhole : EndsWhole x.accepted y.conn.receiver) (hk : k ≤ ackPos y.conn.receiver) :
    Arrived x y k := by
  refine ⟨fun _ => hsyn, fun i hi hik => ?_⟩
  rw [ackPos] at hk
  by_cases he : y.conn.receiver.streamOut.inputEnded = true
  · rw [(hwhole he).2]
    exact hi
  · rw [if_neg he] at hk
    omega

end Arrival

/-- An acknowledgement that the sender takes is read as the number it was
    wrapped from. -/
theorem unwrap_eq {isn ackno : WrappingInt32} {checkpoint next k : Nat}
    (hle : unwrap ackno isn checkpoint ≤ next) (hnext : next < 2 ^ 32)
    (hack : ackno = wrap k isn) (hk : k < 2 ^ 32) : unwrap ackno isn checkpoint = k := by
  have hmod := wrap_eq_iff.mp ((wrap_unwrap ackno isn checkpoint).trans hack)
  rw [Nat.mod_eq_of_lt (Nat.lt_of_le_of_lt hle hnext), Nat.mod_eq_of_lt hk] at hmod
  exact hmod

/-- How far the numbers of a sender go. -/
theorem next_le {W : List Byte} {s : TCPSender} (h : Sends W s) :
    s.nextSeqno ≤ W.length + 2
      ∧ (s.stream.inputEnded = false → s.nextSeqno ≤ W.length + 1) := by
  have hacc := s.stream.accounted
  have hwr := h.written
  rcases h.phase with ⟨hz, -⟩ | hnext | ⟨hnext, hend, -⟩
  · omega
  · omega
  · exact ⟨by omega, fun ho => absurd (ho.symm.trans hend) Bool.false_ne_true⟩

theorem takes_progress {p z z' : Endpoint} {op : Op} (h : Takes p z op z') :
    Progress z.conn.receiver z'.conn.receiver := by
  cases h with
  | same receiver _ => rw [receiver]; exact Progress.refl _
  | error receiver _ => rw [receiver]; exact ⟨fun hs => ⟨hs, rfl⟩, Nat.le_refl _, id⟩
  | read len receiver _ => rw [receiver]; exact ⟨fun hs => ⟨hs, rfl⟩, Nat.le_refl _, id⟩
  | segment seg _ _ receiver _ => rw [receiver]; exact progress_segment _ seg

/-- **WHAT HOLDS OF ACKNOWLEDGEMENTS**, from `y` back to the sending side of `x`: an
    acknowledgement in flight promises no more than `y` would acknowledge now, and
    nothing has left the queue of `x` that has not arrived. -/
structure Acks (x y : Endpoint) : Prop where
  tidy : Tidy x
  plain : Unstamped y.conn.sender
  acks : ∀ seg ∈ y.conn.segmentsOut ++ y.sent, seg.header.ack = true →
    y.conn.receiver.syn = true
      ∧ ∃ k ≤ ackPos y.conn.receiver, seg.header.ackno = wrap k y.conn.receiver.isn
  whole : EndsWhole x.accepted y.conn.receiver
  arrived : NoFalseAck x y

theorem acks_new (cfg cfg' : TCPConfig) (random random' : BitVec 32) :
    Acks (.new cfg random) (.new cfg' random') where
  tidy := ⟨fun _ hq => hq.elim (fun h => nomatch h) (fun h => nomatch h),
    fun h => absurd h (Nat.lt_irrefl 0)⟩
  plain := ⟨(fun _ h => nomatch h), (fun _ h => nomatch h)⟩
  acks := fun _ h => nomatch h
  whole := fun h => nomatch h
  arrived := fun _ h => nomatch h

section Acknowledging

variable {p z z' : Endpoint} {op : Op} {s : TCPSender}

/-- **WHAT A DELIVERY ACKNOWLEDGES HAS ARRIVED**: with the `ACK` flag because the
    peer holds what it promises; without it nothing is popped, by assumption. -/
theorem Acks.popped_arrived (h : Acks z p) (hc : Carries z p)
    (hW : z.accepted.length < 2 ^ 31) (hown : OwnAckHarmless p z op)
    {seg : TCPSegment} {ackno : WrappingInt32} {popped : List (Nat × TCPSegment)}
    (hdel : op.Delivers p seg) (hrst : seg.header.rst = false)
    (hack : (seg.header.ack = true ∧ ackno = seg.header.ackno)
      ∨ (seg.header.ack = false
        ∧ (z.conn.receiver.segmentReceived seg).ackno = some ackno))
    (hacked : z.conn.sender.Acked
      (unwrap ackno z.conn.sender.isn (z.conn.sender.absAckno + 1))
      seg.header.win popped s) :
    ∀ q ∈ popped, Arrived z p (endSeqno q) := by
  intro q hq
  have hle := hacked.acked q hq
  rcases hack with ⟨hflag, heq⟩ | ⟨hflag, hsome⟩
  · obtain ⟨hsyn, k, hk, hackno⟩ := h.acks seg (List.mem_append_right _ hdel.mem) hflag
    rw [hc.receives.isn hsyn] at hackno
    have hnext := (next_le hc.sends).1
    have hinside := hc.receives.holds.inside
    have hkW : k ≤ z.accepted.length + 2 := by
      rw [ackPos] at hk
      split_ifs at hk <;> omega
    have hupTo := unwrap_eq hacked.reached (by omega) (heq.trans hackno) (by omega)
    rw [hupTo] at hle
    exact (arrived_ackPos hsyn h.whole hk).of_le hle
  · obtain ⟨i, rfl, hi⟩ := hdel
    have hkept : q ∈ z.conn.sender.outstandingSegments := by
      rw [hacked.queue]
      exact List.mem_append_left _ hq
    exact absurd hle (Nat.not_le_of_lt (hown seg hi hrst hflag ackno hsome hacked.reached q hkept))

/-- What leaves the queue in a step is what the step's acknowledgement pops. -/
theorem Acks.gone_arrived (h : Acks z p) (hc : Carries z p)
    (hW : z.accepted.length < 2 ^ 31) (hown : OwnAckHarmless p z op)
    (ha : Acted p z op z') {q : Nat × TCPSegment}
    (hq : q ∈ z.conn.sender.outstandingSegments)
    (hgone : q ∉ z'.conn.sender.outstandingSegments) : Arrived z p (endSeqno q) := by
  obtain ⟨s, t, hbegins, hmoves, hleaves⟩ := ha.outbound
  obtain ⟨queue, -, hsender⟩ := hleaves.sender
  have hnot : q ∉ s.outstandingSegments := by
    intro hs
    refine hgone ?_
    rw [hsender]
    exact (extends_moves hmoves).kept q hs
  cases hbegins with
  | same _ _ => exact absurd hq hnot
  | wrote _ _ _ _ => exact absurd hq hnot
  | ended _ _ => exact absurd hq hnot
  | acked hdel hrst hack hacked _ _ =>
      rw [hacked.queue] at hq
      exact h.popped_arrived hc hW hown hdel hrst hack hacked q
        ((List.mem_append.mp hq).resolve_right hnot)

/-- Either nothing more was accepted, or all numbers so far are those of what
    was. -/
theorem begins_accepted (hc : Carries z p) (hb : Begins p z op z' s) :
    z'.accepted = z.accepted
      ∨ z.conn.sender.nextSeqno ≤ z.accepted.length + 1 := by
  cases hb with
  | same accepted _ => exact Or.inl accepted
  | wrote _ opened _ _ => exact Or.inr ((next_le hc.sends).2 (hc.closed.symm.trans opened))
  | ended accepted _ => exact Or.inl accepted
  | acked _ _ _ _ accepted _ => exact Or.inl accepted

/-- A stream that has ended at its receiver does not grow any more. -/
theorem endsWhole_grows (hc : Carries z p) (ha : Acted p z op z')
    (hwhole : EndsWhole z.accepted p.conn.receiver) :
    EndsWhole z'.accepted p.conn.receiver := by
  obtain ⟨s, t, hbegins, -, -⟩ := ha.outbound
  intro he
  obtain ⟨hf, hall⟩ := hwhole he
  rw [(hbegins.grows.2 (hc.fin hf)).1]
  exact ⟨hf, hall⟩

/-- **THE SENDING END STEPS**. -/
theorem Acks.sender_acts (h : Acks z p) (hc : Carries z p)
    (hW : z.accepted.length < 2 ^ 31) (hown : OwnAckHarmless p z op)
    (ha : Acted p z op z') : Acks z' p := by
  obtain ⟨s, t, hbegins, -, -⟩ := ha.outbound
  refine ⟨h.tidy.acts ha, h.plain, h.acks, endsWhole_grows hc ha h.whole, ?_⟩
  intro q hq
  have hkept : Kept z q ∧ Arrived z p (endSeqno q) := by
    rcases mem_removed ha hq with hold | ⟨hout, hgone⟩
    · exact ⟨Or.inl hold, h.arrived q hold⟩
    · exact ⟨Or.inr hout, h.gone_arrived hc hW hown ha hout hgone⟩
  have hwithin := h.tidy.within q hkept.1
  refine hkept.2.grow ((begins_accepted hc hbegins).imp_right fun hle => ?_)
  exact Nat.le_trans hwithin hle

/-- What was stamped before still holds, and what is stamped now carries the
    number of now. -/
theorem Acks.wire_acts (h : Acks p z) (ha : Acted p z op z') :
    ∀ seg ∈ z'.conn.segmentsOut ++ z'.sent, seg.header.ack = true →
      z'.conn.receiver.syn = true
        ∧ ∃ k ≤ ackPos z'.conn.receiver, seg.header.ackno = wrap k z'.conn.receiver.isn := by
  obtain ⟨s, t, hbegins, hmoves, hleaves⟩ := ha.outbound
  obtain ⟨-, hout, hsub⟩ := begins_queue hbegins
  have hplain : Unstamped t :=
    Unstamped.moves ⟨fun q hq => h.plain.kept q (hsub q hq),
      by rw [hout]; exact h.plain.queued⟩ hmoves
  have hprog := takes_progress ha.inbound
  intro seg hseg hflag
  rcases hleaves.wire seg hseg with hold | ⟨out, hmem, heq⟩
  · obtain ⟨hsyn, k, hk, hackno⟩ := h.acks seg hold hflag
    obtain ⟨hsyn', hisn⟩ := hprog.syn hsyn
    rw [hisn]
    exact ⟨hsyn', k, Nat.le_trans hk (ackPos_mono hprog), hackno⟩
  · rw [heq] at hflag ⊢
    obtain ⟨hsyn, hackno⟩ := stamp_ack (hplain.queued out hmem) hflag
    exact ⟨hsyn, _, Nat.le_refl _, hackno⟩

/-- **A STREAM THAT ENDS IS WHOLE**, while every `FIN` comes in order. -/
theorem endsWhole_acts (hc : Carries p z) (hW : p.accepted.length < 2 ^ 31)
    (hfin : FinInOrder p z op) (hwhole : EndsWhole p.accepted z.conn.receiver)
    (ha : Acted p z op z') : EndsWhole p.accepted z'.conn.receiver := by
  cases ha.inbound with
  | same receiver _ => rw [receiver]; exact hwhole
  | error receiver _ => rw [receiver]; exact hwhole
  | read len receiver _ => rw [receiver]; exact hwhole
  | segment seg delivers rst receiver _ =>
      rw [receiver]
      obtain ⟨start, hpiece⟩ := hc.wire seg (List.mem_append_right _ delivers.mem)
      by_cases hpast : z.conn.receiver.syn = true ∨ seg.header.syn = true
      · obtain ⟨i, rfl, hi⟩ := delivers
        refine hwhole.segment hW hc.receives hpiece.brings hpast ?_
        exact hfin seg hi rst (Bool.or_eq_true_iff.mpr hpast)
      · rw [segmentReceived_before hpast]
        exact hwhole

/-- **THE RECEIVING END STEPS**. -/
theorem Acks.receiver_acts (h : Acks p z) (hc : Carries p z)
    (hW : p.accepted.length < 2 ^ 31) (hfin : FinInOrder p z op)
    (ha : Acted p z op z') : Acks p z' where
  tidy := h.tidy
  plain := h.plain.acts ha
  acks := h.wire_acts ha
  whole := endsWhole_acts hc hW hfin h.whole ha
  arrived := fun q hq => (h.arrived q hq).progress (takes_progress ha.inbound)

end Acknowledging

/-! ## No false acknowledgement -/

/-- The steps after which what `a` drops has arrived at `b`. -/
def AckSafe (s : Sys) : Side × Op → Prop
  | (.a, op) => OwnAckHarmless s.b s.a op
  | (.b, op) => FinInOrder s.a s.b op

instance (s : Sys) : ∀ e, Decidable (AckSafe s e)
  | (.a, op) => inferInstanceAs (Decidable (OwnAckHarmless s.b s.a op))
  | (.b, op) => inferInstanceAs (Decidable (FinInOrder s.a s.b op))

/-- **ONE STEP**. -/
theorem acks_of_step {s s' : Sys} {e : Side × Op} (hc : s.Carried) (hsmall : s.Small)
    (h : Acks s.a s.b) (hsafe : AckSafe s e) (hstep : sysStep s e = some s') :
    Acks s'.a s'.b := by
  obtain ⟨side, op⟩ := e
  rcases sysStep_cases hstep with ⟨rfl, hb, hact⟩ | ⟨rfl, ha, hact⟩
  · rw [hb]
    exact h.sender_acts hc.1 hsmall.1 hsafe (acted hact)
  · rw [ha]
    exact h.receiver_acts hc.1 hsmall.1 hsafe (acted hact)

/-- **NO FALSE ACKNOWLEDGEMENT**: in a run without a premature `FIN` at `b` and
    without a harmful acknowledgement of its own at `a`, whatever has left the queue
    of `a` has arrived at `b`. -/
theorem no_false_ack (cfgA cfgB : TCPConfig) (randomA randomB : BitVec 32)
    (ops : List (Side × Op)) (s : Sys)
    (hrun : run sysStep (.init cfgA cfgB randomA randomB) ops = some s)
    (hsmall : s.Small)
    (hsafe : Along sysStep AckSafe (.init cfgA cfgB randomA randomB) ops) :
    NoFalseAck s.a s.b := by
  obtain ⟨-, hacks⟩ := run_small (I := fun s => Acks s.a s.b)
    (fun _ _ _ hsmall hc hacks hsafe hstep => acks_of_step hc hsmall hacks hsafe hstep)
    ⟨carried_init cfgA cfgB randomA randomB, acks_new _ _ _ _⟩ hsafe hrun hsmall
  exact hacks.arrived

/-- `A` ends its stream of one byte, and byte and `FIN` arrive in order. -/
def finLast : List (Side × Op) :=
  handshake ++ [(.a, .write [97]), (.a, .transmit), (.a, .endInputStream), (.a, .transmit),
    (.b, .deliver 2), (.b, .deliver 3), (.b, .transmit), (.b, .transmit), (.a, .deliver 2)]

theorem no_false_ack_in_order :
    ∃ s, run sysStep fixedSys finLast = some s ∧ s.Small
      ∧ s.a.removed.map endSeqno = [1, 2, 3] ∧ NoFalseAck s.a s.b := by
  have hreach : ∃ s, run sysStep fixedSys finLast = some s ∧ s.Small
      ∧ s.a.removed.map endSeqno = [1, 2, 3] := run_reaches (by decide)
  obtain ⟨s, hrun, hsmall, hremoved⟩ := hreach
  exact ⟨s, hrun, hsmall, hremoved,
    no_false_ack _ _ _ _ _ s hrun hsmall (by decide)⟩

/-- The same, but the byte is lost and the `FIN` arrives. -/
def finOvertakes : List (Side × Op) :=
  handshake ++ [(.a, .write [97]), (.a, .transmit), (.a, .endInputStream), (.a, .transmit),
    (.b, .deliver 3), (.b, .transmit), (.a, .deliver 1)]

/-- **DROPPED UNHEARD**: `b` acknowledges the place of the byte as the `FIN`'s, and
    `a` drops the byte that `b` never got. -/
theorem data_dropped_unheard :
    ¬ ∀ (cfgA cfgB : TCPConfig) (randomA randomB : BitVec 32) (ops : List (Side × Op))
      (s : Sys), run sysStep (.init cfgA cfgB randomA randomB) ops = some s →
      s.Small → NoFalseAck s.a s.b := by
  intro hall
  have hreach : ∃ s, run sysStep fixedSys finOvertakes = some s ∧ s.Small
      ∧ ¬ NoFalseAck s.a s.b := run_reaches (by decide)
  obtain ⟨s, hrun, hsmall, hfalse⟩ := hreach
  exact hfalse (hall _ _ _ _ _ s hrun hsmall)

/-! ## Clean close -/

/-- Both streams have ended, and each end holds all of the other's. -/
structure Complete (x y : Endpoint) : Prop where
  closed : x.closed = true ∧ y.closed = true
  here : x.conn.receiver.reassembler.firstUnassembled = y.accepted.length
  there : y.conn.receiver.reassembler.firstUnassembled = x.accepted.length

theorem Complete.symm {x y : Endpoint} (h : Complete x y) : Complete y x :=
  ⟨h.closed.symm, h.there, h.here⟩

section Closing

variable {x y p z z' : Endpoint} {op : Op}

/-- What is complete stays so. -/
theorem Complete.acts (h : Complete z p) (hc' : Carries p z') (ha : Acted p z op z') :
    Complete z' p := by
  obtain ⟨s, t, hbegins, -, -⟩ := ha.outbound
  obtain ⟨haccepted, hclosed⟩ := hbegins.grows.2 h.closed.1
  refine ⟨⟨hclosed, h.closed.2⟩, ?_, by rw [haccepted]; exact h.there⟩
  have hmore := (takes_progress ha.inbound).first
  rw [h.here] at hmore
  exact Nat.le_antisymm hc'.receives.holds.inside hmore

/-- Nothing in flight means nothing in the queue that occupies a number. -/
theorem length_eq_zero {s : TCPSender} (h : s.bytesInFlight = 0) {q : Nat × TCPSegment}
    (hq : q ∈ s.outstandingSegments) : q.2.lengthInSequenceSpace = 0 := by
  exact List.sum_eq_zero_iff.mp h _ (List.mem_map_of_mem hq)

/-- All numbers are used and nothing is in flight: everything has arrived. -/
theorem Acks.all_arrived (h : Acks z p) (hc : Carries z p)
    (hflight : z.conn.sender.bytesInFlight = 0)
    (hnext : z.conn.sender.nextSeqno = z.accepted.length + 2) :
    p.conn.receiver.reassembler.firstUnassembled = z.accepted.length := by
  obtain ⟨q, hq, hlen, hend⟩ := h.tidy.last (by omega)
  have hremoved : q ∈ z.removed := by
    refine hq.resolve_right fun hout => ?_
    have := length_eq_zero hflight hout
    omega
  obtain ⟨-, hbytes⟩ := h.arrived q hremoved
  refine Nat.le_antisymm hc.receives.holds.inside ?_
  by_contra hlt
  have hmissing := hbytes p.conn.receiver.reassembler.firstUnassembled (by omega) (by omega)
  exact Nat.lt_irrefl _ hmissing

/-- **A CLEAN CLOSE**: what the local check and an outbound stream at its end say
    about both ends. -/
theorem complete_of_done (h : Acks z p) (hzp : Carries z p) (hpz : Carries p z)
    (hwhole : EndsWhole p.accepted z.conn.receiver)
    (hdone : z.conn.killConditionCheck = true)
    (hsent : z.conn.sender.stream.eof = true) : Complete z p := by
  simp only [TCPConnection.killConditionCheck, Bool.and_eq_true, beq_iff_eq] at hdone
  obtain ⟨⟨⟨⟨hended, -⟩, hinput⟩, hflight⟩, hnext⟩ := hdone
  rw [if_pos hsent, hzp.sends.written] at hnext
  obtain ⟨hfin, hall⟩ := hwhole hended
  exact ⟨⟨hzp.closed.trans hinput, hpz.fin hfin⟩, hall, h.all_arrived hzp hflight hnext⟩

theorem begins_error {s : TCPSender} (h : Begins p z op z' s) :
    s.stream.error = z.conn.sender.stream.error := by
  cases h with
  | same _ _ => rfl
  | wrote data _ _ _ => exact ByteStream.write_error _ data
  | ended _ _ => rfl
  | acked _ _ _ hacked _ _ => rw [hacked.same.stream]

/-- An error mark stays. -/
theorem error_acts (ha : Acted p z op z') (h : z'.conn.sender.stream.error = false) :
    z.conn.sender.stream.error = false := by
  obtain ⟨s, t, hbegins, hmoves, hleaves⟩ := ha.outbound
  obtain ⟨queue, -, hsender⟩ := hleaves.sender
  rw [hsender] at h
  rw [← begins_error hbegins]
  refine Bool.eq_false_iff.mpr fun he => ?_
  exact absurd (h.symm.trans (hmoves.flags.2 he)) Bool.false_ne_true

/-- An endpoint that is not active and not marked has closed cleanly. -/
def Settled (x y : Endpoint) : Prop :=
  x.conn.active = false → x.conn.sender.stream.error = false → Complete x y

theorem Settled.acts (h : Settled z p) (hacks : Acks z p) (hzp : Carries z p)
    (hpz : Carries p z) (hpz' : Carries p z')
    (hwhole : EndsWhole p.accepted z.conn.receiver) (hsent : ClosesSent z op)
    (ha : Acted p z op z') : Settled z' p := by
  intro hactive' herror'
  have herror := error_acts ha herror'
  refine Complete.acts ?_ hpz' ha
  cases hactive : z.conn.active with
  | false => exact h hactive herror
  | true =>
      rcases ha.retired hactive' with hold | hmarked | ⟨ms, rfl, hdone, hlinger, htries⟩
      · exact absurd (hactive.symm.trans hold) (Bool.noConfusion)
      · exact absurd (herror'.symm.trans hmarked) Bool.false_ne_true
      · exact complete_of_done hacks hzp hpz hwhole hdone
          (hsent hactive hdone hlinger htries)

theorem Complete.got_all (h : Complete x y) (hc : Carries y x) :
    x.readBytes ++ x.conn.receiver.streamOut.buffer = y.accepted := by
  have hheld := hc.receives.holds.assembled
  rw [h.here, List.take_length] at hheld
  exact hheld

end Closing

/-- The claim a clean close of `x` makes about both ends. -/
def CleanClose (x y : Endpoint) : Prop :=
  x.conn.active = false → x.conn.sender.stream.error = false →
  x.conn.receiver.streamOut.error = false →
    (x.readBytes ++ x.conn.receiver.streamOut.buffer = y.accepted ∧ y.closed = true)
      ∧ y.readBytes ++ y.conn.receiver.streamOut.buffer = x.accepted

instance (x y : Endpoint) : Decidable (CleanClose x y) :=
  inferInstanceAs (Decidable (_ → _ → _ → _))

/-- The steps after which a clean close of `a` is right. -/
def CloseSafe (s : Sys) : Side × Op → Prop
  | (.a, op) => FinInOrder s.b s.a op ∧ OwnAckHarmless s.b s.a op ∧ ClosesSent s.a op
  | (.b, op) => FinInOrder s.a s.b op

instance (s : Sys) : ∀ e, Decidable (CloseSafe s e)
  | (.a, op) => inferInstanceAs
      (Decidable (FinInOrder s.b s.a op ∧ OwnAckHarmless s.b s.a op ∧ ClosesSent s.a op))
  | (.b, op) => inferInstanceAs (Decidable (FinInOrder s.a s.b op))

/-- What a run keeps so that `a` closes rightly. -/
structure Agreed (s : Sys) : Prop where
  acks : Acks s.a s.b
  whole : EndsWhole s.b.accepted s.a.conn.receiver
  settled : Settled s.a s.b

/-- **ONE STEP**. -/
theorem Agreed.of_step {s s' : Sys} {e : Side × Op} (h : Agreed s) (hsmall : s.Small)
    (hc : s.Carried) (hsafe : CloseSafe s e) (hstep : sysStep s e = some s') :
    Agreed s' := by
  have hc' := hc.of_step hsmall hstep
  obtain ⟨side, op⟩ := e
  rcases sysStep_cases hstep with ⟨rfl, hb, hact⟩ | ⟨rfl, ha, hact⟩
  · obtain ⟨hfin, hown, hsent⟩ := hsafe
    have hacted := acted hact
    refine ⟨acks_of_step (e := (.a, op)) hc hsmall h.acks hown hstep, ?_, ?_⟩
    · rw [hb]
      exact endsWhole_acts hc.2 hsmall.2 hfin h.whole hacted
    · have hba := hc'.2
      rw [hb] at hba ⊢
      exact h.settled.acts h.acks hc.1 hc.2 hba h.whole hsent hacted
  · have hacted := acted hact
    refine ⟨acks_of_step (e := (.b, op)) hc hsmall h.acks hsafe hstep, ?_, ?_⟩
    · rw [ha]
      exact endsWhole_grows hc.2 hacted h.whole
    · have hab := hc'.1
      rw [ha] at hab ⊢
      intro hactive herror
      exact ((h.settled hactive herror).symm.acts hab hacted).symm

/-- `A` sends a byte and closes, `B` answers with a byte and closes, all in
    order, and `A` lingers to the end. -/
def bothClose : List (Side × Op) :=
  finLast ++ [(.b, .write [120]), (.b, .transmit), (.b, .endInputStream), (.b, .transmit),
    (.a, .deliver 3), (.a, .deliver 4), (.a, .tick 10000)]

/-- `A` closes; of the byte and the `FIN` of `B` only the `FIN` arrives. -/
def finOfPeerOvertakes : List (Side × Op) :=
  handshake ++ [(.a, .endInputStream), (.a, .transmit), (.b, .deliver 1), (.b, .deliver 2),
    (.b, .transmit), (.a, .deliver 1), (.b, .write [120]), (.b, .transmit),
    (.b, .endInputStream), (.b, .transmit), (.a, .deliver 3), (.a, .tick 10000)]

end SpongeAgreement
