import Sponge.SenderRuleProofs

/-! # The queue of outstanding segments

    What is sent and not acknowledged waits in a queue, with the number each
    segment starts at, and next to the queue runs a count of the numbers in it.

    `outstanding_queue` says, for every state of every run, that the queue is one
    unbroken chain up to the next number, so `bytes_in_flight()` is the distance
    from its oldest number to the next one; that `ack_received` takes out exactly
    the segments that end by the number it accepts; and that the running count is
    that distance as well, and is never asked to go below zero.

    The count is the one thing that the overload of `send_empty_segment` with flags
    does not keep: it queues its segment without counting it.  With `RST` alone,
    which is how the connection calls it, the segment has no length. -/

namespace SpongeQueue

open SpongeByteStream SpongeWrapping SpongeSegment SpongeSender Word64 RunRule
open IntervalChain SpongeOldAck SpongeLifecycle SpongeSenderRule TCPSender

variable {s : TCPSender} {lo : Nat}

/-- The number the oldest outstanding segment starts at; the next number when nothing
    is outstanding. -/
def oldest (s : TCPSender) : Nat :=
  match s.outstandingSegments with
  | [] => s.nextSeqno
  | front :: _ => front.1

theorem oldest_of_tiled (h : Tiled lo s) : oldest s = lo := by
  rw [Tiled] at h
  rw [oldest]
  cases hq : s.outstandingSegments with
  | nil =>
      rw [hq] at h
      exact Eq.symm h
  | cons front rest =>
      rw [hq] at h
      exact h.1

/-- Without its front the queue starts where the front ended. -/
theorem Tiled.popFront {front : Nat × TCPSegment} {rest : List (Nat × TCPSegment)}
    (h : Tiled lo s) (hq : s.outstandingSegments = front :: rest) :
    Tiled (lo + front.2.lengthInSequenceSpace) (popFront s front rest) := by
  rw [Tiled, hq] at h
  exact h.2

/-- Whatever its flags, an empty segment is queued at the next number. -/
theorem Tiled.flags (h : Tiled lo s) (syn fin rst : Bool) :
    Tiled lo (s.sendFlagsSegment syn fin rst) := Chain.snoc h _

/-- **THE QUEUE STAYS A CHAIN** under every change. -/
theorem tiled_changes : Changes (fun _ => True) fun s => ∃ lo, Tiled lo s where
  emit := fun _ _ _ ⟨lo, h⟩ hem => ⟨lo, h.emit hem.toEmitted⟩
  window := fun _ _ h => h
  base := fun _ _ h _ => h
  pop := fun _ _ _ ⟨_, h⟩ hq _ => ⟨_, Tiled.popFront h hq⟩
  write := fun _ _ h _ => h
  ended := fun _ h => h
  error := fun _ h => h
  more := fun _ _ h => h

/-! ## The running count -/

/-- The running count is what is in flight, as long as the numbers are 64-bit
    numbers. -/
structure Counts (s : TCPSender) : Prop where
  tiled : ∃ lo, Tiled lo s
  counter : s.nextSeqno < 2 ^ 64 → s.bytesInFlightCounter = s.bytesInFlight

/-- What is in flight was numbered. -/
theorem bytesInFlight_le (h : ∃ lo, Tiled lo s) : s.bytesInFlight ≤ s.nextSeqno := by
  obtain ⟨lo, hlo⟩ := h
  have hsum := hlo.bytesInFlight
  omega

theorem bytesInFlight_front {front : Nat × TCPSegment} {rest : List (Nat × TCPSegment)}
    (hq : s.outstandingSegments = front :: rest) :
    s.bytesInFlight
      = front.2.lengthInSequenceSpace + (popFront s front rest).bytesInFlight := by
  rw [bytesInFlight, hq, List.map_cons, List.sum_cons]
  rfl

/-- One more segment in the queue is so much more in flight. -/
theorem bytesInFlight_snoc {s' : TCPSender} {seg : TCPSegment}
    (hq : s'.outstandingSegments = s.outstandingSegments ++ [(s.nextSeqno, seg)]) :
    s'.bytesInFlight = s.bytesInFlight + seg.lengthInSequenceSpace := by
  rw [bytesInFlight, bytesInFlight, hq, List.map_append, List.sum_append]
  rfl

theorem Counts.popFront {front : Nat × TCPSegment} {rest : List (Nat × TCPSegment)}
    (h : Counts s) (hq : s.outstandingSegments = front :: rest) :
    Counts (popFront s front rest) where
  tiled := h.tiled.elim fun _ hlo => ⟨_, Tiled.popFront hlo hq⟩
  counter := by
    intro h64
    have hcount := h.counter h64
    have hfront := bytesInFlight_front hq
    have hle := bytesInFlight_le h.tiled
    have hnext : s.nextSeqno < 2 ^ 64 := h64
    show sub64 s.bytesInFlightCounter front.2.lengthInSequenceSpace = _
    rw [sub64_of_le (by omega) (by omega)]
    omega

theorem counts_changes : Changes (fun _ => True) Counts where
  emit := by
    intro s seg s' h hem
    refine ⟨tiled_changes.emit s seg s' h.tiled hem, fun h64 => ?_⟩
    rw [hem.nextSeqno] at h64
    rw [hem.counter, h.counter (by omega), bytesInFlight_snoc hem.outstanding]
  window := fun _ _ h => ⟨h.tiled, h.counter⟩
  base := fun _ _ h _ => ⟨h.tiled, h.counter⟩
  pop := fun _ _ _ h hq _ => h.popFront hq
  write := fun _ _ h _ => ⟨h.tiled, h.counter⟩
  ended := fun _ h => ⟨h.tiled, h.counter⟩
  error := fun _ h => ⟨h.tiled, h.counter⟩
  more := fun _ _ h => ⟨h.tiled, h.counter⟩

/-- A reset has no length, so that it is not counted does not show. -/
theorem Counts.reset (h : Counts s) : Counts (s.sendFlagsSegment false false true) := by
  refine ⟨h.tiled.elim fun lo hlo => ⟨lo, hlo.reset⟩, fun h64 => ?_⟩
  rw [bytesInFlight_snoc rfl]
  exact h.counter h64

theorem Counts.tick (h : Counts s) (ms : Nat) : Counts (s.tick ms) := by
  rcases tick_cases s ms with ⟨htick, -⟩ | ⟨front, rest, -, -, htick⟩
  · rw [htick]
    exact ⟨h.tiled, h.counter⟩
  · rw [htick]
    exact ⟨h.tiled, h.counter⟩

/-- The sender while `ack_received` pops its queue, after some rounds of the loop. -/
def popping (s : TCPSender) (ackno : WrappingInt32) (window : BitVec 16) (rounds : Nat) :
    TCPSender :=
  whileTrue (popRound (ackedTo s ackno)) rounds
    { s with windowSize := window.toNat, absAckno := ackedTo s ackno }

/-- The running count is what is in flight, and no round of `ack_received` takes more
    from it than it holds. -/
structure Counted (s : TCPSender) : Prop where
  counter : s.bytesInFlightCounter = s.bytesInFlight
  covered : ∀ ackno window rounds front rest,
    (popping s ackno window rounds).outstandingSegments = front :: rest →
    front.2.lengthInSequenceSpace ≤ (popping s ackno window rounds).bytesInFlightCounter

theorem Counts.noted (h : Counts s) (windowSize absAckno : Nat) :
    Counts { s with windowSize := windowSize, absAckno := absAckno } := ⟨h.tiled, h.counter⟩

/-- The rounds of the loop keep the count, and the next number. -/
theorem Counts.popping (h : Counts s) (ackno : WrappingInt32) (window : BitVec 16)
    (rounds : Nat) :
    Counts (popping s ackno window rounds)
      ∧ (popping s ackno window rounds).nextSeqno = s.nextSeqno :=
  popRounds_keep (I := fun t => Counts t ∧ t.nextSeqno = s.nextSeqno)
    (fun _ _ _ ht hq _ => ⟨ht.1.popFront hq, ht.2⟩) rounds _ ⟨h.noted _ _, rfl⟩

theorem Counts.counted (h : Counts s) (h64 : s.nextSeqno < 2 ^ 64) : Counted s where
  counter := h.counter h64
  covered := by
    intro ackno window rounds front rest hq
    obtain ⟨hcounts, hnext⟩ := h.popping ackno window rounds
    rw [hcounts.counter (by rw [hnext]; exact h64), bytesInFlight_front hq]
    exact Nat.le_add_right _ _

/-! ## What an acknowledgement takes out -/

/-- `ack_received` takes nothing out where it rejects the number, and exactly the
    segments that end by it where it accepts the number; the segments it sends stand
    behind what stays. -/
structure CutsExactly (s : TCPSender) (ackno : WrappingInt32) (window : BitVec 16) : Prop where
  rejected : s.nextSeqno < ackedTo s ackno →
    (s.ackReceived ackno window).outstandingSegments = s.outstandingSegments
  accepted : ackedTo s ackno ≤ s.nextSeqno → ∃ new,
    (s.ackReceived ackno window).outstandingSegments
        = (s.outstandingSegments.filter fun p =>
            decide (ackedTo s ackno < p.1 + p.2.lengthInSequenceSpace)) ++ new
      ∧ (s.ackReceived ackno window).segmentsOut = s.segmentsOut ++ new.map Prod.snd
      ∧ ∀ p ∈ new, s.nextSeqno ≤ p.1

/-- What ends beyond the number is what is left of the queue. -/
theorem filter_of_acked {t : TCPSender} {upTo : Nat} {window : BitVec 16}
    {popped : List (Nat × TCPSegment)} (h : Tiled lo s) (ha : s.Acked upTo window popped t) :
    (s.outstandingSegments.filter fun p =>
      decide (upTo < p.1 + p.2.lengthInSequenceSpace)) = t.outstandingSegments := by
  rw [Tiled, ha.queue] at h
  obtain ⟨mid, -, hrest⟩ := chain_append.mp h
  have hbeyond := hrest.beyond (u := upTo) fun front hfront => by
    obtain ⟨tail, htail⟩ := List.head?_eq_some_iff.mp hfront
    exact ha.front front tail htail
  rw [ha.queue, List.filter_append, List.filter_eq_self.mpr fun p hp =>
    decide_eq_true (hbeyond p hp), List.filter_eq_nil_iff.mpr fun p hp => ?_, List.nil_append]
  rw [decide_eq_true_eq]
  exact Nat.not_lt.mpr (ha.acked p hp)

theorem cutsExactly (h : ∃ lo, Tiled lo s) (ackno : WrappingInt32) (window : BitVec 16) :
    CutsExactly s ackno window := by
  refine ⟨fun hbeyond => ?_, fun hreached => ?_⟩
  · rw [ackReceived_of_beyond window hbeyond]
  · obtain ⟨lo, hlo⟩ := h
    rcases noteAck_ackedTo s ackno window with ⟨hbeyond, -⟩ | ⟨hgo, popped, hacked⟩
    · exact absurd hreached (Nat.not_le.mpr hbeyond)
    · rw [ackReceived_noted hgo, filter_of_acked hlo hacked]
      obtain ⟨⟨l, hl⟩, -⟩ := fillWindow_fills (s.noteAck ackno window).2
      refine ⟨l, hl.outstanding, ?_, fun p hp => ?_⟩
      · rw [hl.segmentsOut, hacked.same.segmentsOut]
      · rw [← hacked.same.nextSeqno]
        exact (fills_beyond hl p hp).1

/-! ## Over whole runs -/

/-- The segments lie end to end, the last one ends at the next number, and what is in
    flight is the distance from the oldest number to it. -/
structure Contiguous (s : TCPSender) : Prop where
  chain : Chain TCPSegment.lengthInSequenceSpace (oldest s) s.outstandingSegments s.nextSeqno
  inFlight : s.bytesInFlight = s.nextSeqno - oldest s

theorem contiguous_of_tiled (h : Tiled lo s) : Contiguous s := by
  have hsum := h.bytesInFlight
  have hlo := oldest_of_tiled h
  rw [← hlo] at h hsum
  exact ⟨h, by omega⟩

/-- **THE OUTSTANDING QUEUE**: in every state of every run it is contiguous and every
    acknowledgement cuts it exactly; when the overload with flags is called with `RST`
    alone, the running count is what is in flight, and never underflows. -/
theorem outstanding_queue (capacity : UInt64) (retxTimeout : BitVec 16)
    (isn : WrappingInt32) (ops : List SpongeOldAck.Op) (x : Hearing)
    (hrun : run SpongeOldAck.step (SpongeOldAck.start capacity retxTimeout isn) ops
      = some x) :
    Contiguous x.sender
      ∧ (∀ ackno window, CutsExactly x.sender ackno window)
      ∧ ((∀ op ∈ ops, OnlyResets op) → x.sender.nextSeqno < 2 ^ 64 → Counted x.sender) := by
  have htiled : ∃ lo, Tiled lo x.sender := by
    refine tiled_changes.reached ?_ ?_ ⟨0, rfl⟩ hrun
    · rintro s ms ⟨lo, hlo⟩
      exact ⟨lo, hlo.tick ms⟩
    · rintro s syn fin rst ⟨lo, hlo⟩
      exact ⟨lo, Tiled.flags hlo syn fin rst⟩
  refine ⟨htiled.elim fun _ h => contiguous_of_tiled h, cutsExactly htiled, ?_⟩
  intro hops h64
  have hcounts : Counts x.sender := by
    refine run_invariant (I := fun x : Hearing => Counts x.sender)
      (P := fun _ op => OnlyResets op) ?_ ops (SpongeOldAck.start capacity retxTimeout isn) x
      ⟨⟨0, rfl⟩, fun _ => rfl⟩ (along_of_mem ops _ hops) hrun
    intro y op z hy hop hstep
    rw [step_sender hstep]
    refine counts_changes.call ?_ hy (fun _ _ => trivial) (hop.flags hy.reset)
    intro s ms hs
    exact hs.tick ms
  exact hcounts.counted h64

/-- Three bytes and a reset are outstanding; an acknowledgement of one byte cuts
    nothing. -/
theorem outstanding_queue_with_reset :
    ∃ x, run SpongeOldAck.step (SpongeOldAck.start 8 1000 ⟨0⟩)
        [.fillWindow, .ackReceived ⟨1⟩ 3, .write [97, 98, 99], .fillWindow,
          .sendFlagsSegment false false true] = some x
      ∧ x.sender.outstandingSegments.length = 2 ∧ oldest x.sender = 1
      ∧ x.sender.bytesInFlight = x.sender.nextSeqno - oldest x.sender
      ∧ CutsExactly x.sender ⟨2⟩ 3 ∧ Counted x.sender := by
  have hreach : ∃ x, run SpongeOldAck.step (SpongeOldAck.start 8 1000 ⟨0⟩)
      [.fillWindow, .ackReceived ⟨1⟩ 3, .write [97, 98, 99], .fillWindow,
        .sendFlagsSegment false false true] = some x
      ∧ x.sender.outstandingSegments.length = 2 ∧ oldest x.sender = 1
      ∧ x.sender.nextSeqno < 2 ^ 64 := run_reaches (by decide)
  obtain ⟨x, hrun, hlength, holdest, h64⟩ := hreach
  obtain ⟨hcont, hcuts, hcounted⟩ := outstanding_queue 8 1000 ⟨0⟩ _ x hrun
  exact ⟨x, hrun, hlength, holdest, hcont.inFlight, hcuts ⟨2⟩ 3, hcounted (by decide) h64⟩

-- with a `SYN` the overload queues a number that it does not count
example : ((TCPSender.new 8 1000 (some ⟨0⟩) 0).sendFlagsSegment true false false).bytesInFlight
    = 1 := by decide

example : ((TCPSender.new 8 1000 (some ⟨0⟩) 0).sendFlagsSegment true false
    false).bytesInFlightCounter = 0 := by decide

end SpongeQueue
