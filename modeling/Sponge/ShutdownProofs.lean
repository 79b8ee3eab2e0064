import Sponge.LifecycleProofs

/-! # How a connection ends

    Three promises about the end of a connection, over every run of one endpoint
    with any segments arriving.

    * A clean close means that the outbound stream was delivered.  The check in
      `tick` asks for the `FIN` only at the end of the stream, and elsewhere
      compares the next number with the bytes written; with a byte still waiting
      the two can be equal once an old acknowledgement has moved the window back
      (`closed_with_a_byte_waiting`).  `clean_close_delivered_iff`: the promise
      holds exactly where the closing tick finds the stream at its end, and that
      is so in every run whose acknowledgements never go back.
    * The side that closes first lingers.  A second `end_input_stream` clears the
      flag (`second_close_stops_lingering`); `active_closer_lingers_iff` says that
      nothing else does.
    * A connection that is not active is silent.  No operation looks at `active`
      (`dead_but_sending`); `dead_silent_iff` says exactly which operations are
      silent nevertheless. -/

namespace SpongeShutdown

open SpongeByteStream SpongeWrapping SpongeSegment SpongeReceiver SpongeSender
open SpongeConnection SpongeLifecycle Word64 RunRule IntervalChain
open SpongeOldAck (ackedTo noteAck_ackedTo)

/-! ## A clean close -/

/-- The tick makes the connection inactive and marks neither stream. -/
def ClosesCleanly (c : TCPConnection) (ms : Nat) : Prop :=
  c.active = true ∧ (c.tick ms).active = false
    ∧ (c.tick ms).sender.stream.error = false
    ∧ (c.tick ms).receiver.streamOut.error = false

instance (c : TCPConnection) (ms : Nat) : Decidable (ClosesCleanly c ms) :=
  inferInstanceAs (Decidable (_ ∧ _))

/-- Every byte of the stream and the `FIN` were sent, and none is outstanding. -/
def Delivered (c : TCPConnection) : Prop :=
  c.sender.stream.eof = true ∧ c.sender.nextSeqno = c.sender.stream.bytesWritten + 2
    ∧ c.sender.bytesInFlight = 0

/-- A clean close comes from the check, and the linger time has passed. -/
theorem ClosesCleanly.done {c : TCPConnection} {ms : Nat} (h : ClosesCleanly c ms) :
    (∃ t, c.sender.Ticked t ∧ (c.tick ms).sender = { t with segmentsOut := [] })
      ∧ c.killConditionCheck = true
      ∧ (c.lingerAfterStreamsFinish = true →
        10 * c.cfg.rtTimeout.toNat ≤ (c.timeLastRecv + ms) % 2 ^ 64) := by
  obtain ⟨hactive, hdead, herror, -⟩ := h
  cases c.tick_spec ms with
  | gaveUp t _ _ _ error =>
      rw [error] at herror
      exact absurd herror.symm Bool.false_ne_true
  | closed t head flushed _ done lingered _ =>
      exact ⟨⟨t, head, flushed.sender⟩, done, lingered⟩
  | passed t _ _ _ active =>
      rw [active, hactive] at hdead
      exact absurd hdead.symm Bool.false_ne_true

/-- What the check compares. -/
theorem killConditionCheck_iff (c : TCPConnection) :
    c.killConditionCheck = true
      ↔ (c.receiver.streamOut.inputEnded = true ∧ c.receiver.unassembledBytes = 0)
        ∧ c.sender.stream.inputEnded = true ∧ c.sender.bytesInFlight = 0
        ∧ c.sender.nextSeqno
          = c.sender.stream.bytesWritten + (if c.sender.stream.eof then 2 else 0) := by
  simp only [TCPConnection.killConditionCheck, Bool.and_eq_true, beq_iff_eq, and_assoc]

/-- At a clean close everything was delivered exactly if the stream is at its
    end. -/
theorem ClosesCleanly.delivered_iff {c : TCPConnection} {ms : Nat}
    (h : ClosesCleanly c ms) : Delivered (c.tick ms) ↔ c.sender.stream.eof = true := by
  obtain ⟨⟨t, ht, hsender⟩, hdone, -⟩ := h.done
  obtain ⟨-, -, hflight, hnext⟩ := (killConditionCheck_iff c).mp hdone
  have hsame : Delivered (c.tick ms) ↔ Delivered c := by
    rw [Delivered, Delivered, hsender, TCPSender.bytesInFlight, TCPSender.bytesInFlight]
    dsimp only
    rw [ht.stream, ht.nextSeqno, ht.outstanding]
  rw [hsame]
  refine ⟨fun hd => hd.1, fun heof => ⟨heof, ?_, hflight⟩⟩
  rw [heof] at hnext
  exact hnext

/-- The queue starts no later than the last acknowledgement, which is not beyond
    the next number; the window is a 16-bit number. -/
structure Current (s : TCPSender) : Prop where
  queue : ∃ lo, Tiled lo s ∧ lo ≤ s.absAckno
  reached : s.absAckno ≤ s.nextSeqno
  window : s.windowSize < 2 ^ 16

/-- With nothing in flight there is nothing left to send, once anything was. -/
def Drained (s : TCPSender) : Prop :=
  s.bytesInFlight = 0 → s.nextSeqno = 0 ∨ s.segmentNeeded = false

/-- The acknowledgement is not accepted, or it is not older than the last one. -/
def NotOlder (s : TCPSender) (ackno : WrappingInt32) : Prop :=
  s.nextSeqno < ackedTo s ackno ∨ s.absAckno ≤ ackedTo s ackno

instance (s : TCPSender) (ackno : WrappingInt32) : Decidable (NotOlder s ackno) :=
  inferInstanceAs (Decidable (_ ∨ _))

section Delivery

variable {s t : TCPSender}

theorem Current.fill (h : Current s) : Current s.fillWindow := by
  obtain ⟨⟨l, hl⟩, -⟩ := TCPSender.fillWindow_fills s
  obtain ⟨lo, htiled, hlo⟩ := h.queue
  refine ⟨⟨lo, htiled.fillWindow, ?_⟩, ?_, ?_⟩
  · rw [hl.same.absAckno]
    exact hlo
  · rw [hl.same.absAckno]
    exact Nat.le_trans h.reached hl.nextSeqno_le
  · rw [hl.same.windowSize]
    exact h.window

/-- **A FULL WINDOW IS IN FLIGHT**: filling leaves nothing to send, or leaves
    something in flight. -/
theorem Current.drained (h : Current s) : Drained s.fillWindow := by
  obtain ⟨⟨lo, htiled, hlo⟩, hreached, hwindow⟩ := h.fill
  obtain ⟨-, hstop⟩ := TCPSender.fillWindow_fills s
  generalize s.fillWindow = t at *
  intro hflight
  have hsum := htiled.bytesInFlight
  -- the window starts at the next number, so there is space
  have hspace : t.availableSpace ≠ 0 := by
    rw [TCPSender.availableSpace_eq, sub64_of_le (by omega) (by omega)]
    omega
  exact Or.inr (hstop.resolve_left hspace)

theorem current_acked {upTo : Nat} {window : BitVec 16} {popped : List (Nat × TCPSegment)}
    (h : Current s) (ha : s.Acked upTo window popped t) (hle : s.absAckno ≤ upTo) :
    Current t := by
  obtain ⟨lo, htiled, hlo⟩ := h.queue
  obtain ⟨mid, hmid, -, hup⟩ := htiled.acked ha
  refine ⟨⟨mid, hmid, ?_⟩, ?_, ?_⟩
  · rw [ha.absAckno]
    exact hup (Nat.le_trans hlo hle)
  · rw [ha.absAckno, ha.same.nextSeqno]
    exact ha.reached
  · rw [ha.windowSize]
    exact window.isLt

/-- **DELIVERY IS KEPT** by everything but an older acknowledgement. -/
theorem delivery_steps :
    SenderSteps (fun _ => True) NotOlder (fun s => Current s ∧ Drained s) where
  queue := fun _ _ h => ⟨⟨h.1.queue, h.1.reached, h.1.window⟩, h.2⟩
  fill := fun _ h => ⟨h.1.fill, h.1.drained⟩
  wrote := by
    intro s data h _
    have hc : Current { s with stream := (s.stream.write data).2 } :=
      ⟨h.1.queue, h.1.reached, h.1.window⟩
    exact ⟨hc.fill, hc.drained⟩
  ended := by
    intro s h
    have hc : Current { s with stream := s.stream.endInput } :=
      ⟨h.1.queue, h.1.reached, h.1.window⟩
    exact ⟨hc.fill, hc.drained⟩
  heard := by
    intro s ackno window h hnot
    rcases noteAck_ackedTo s ackno window with ⟨-, hnote⟩ | ⟨hgo, popped, hacked⟩
    · rw [TCPSender.ackReceived_ignored (by rw [hnote]), hnote]
      exact ⟨⟨h.1.queue, h.1.reached, window.isLt⟩, h.2⟩
    · rw [TCPSender.ackReceived_noted hgo]
      have hc := current_acked h.1 hacked
        (hnot.resolve_left (Nat.not_lt.mpr hacked.reached))
      exact ⟨hc.fill, hc.drained⟩
  tick := by
    intro s ms h
    obtain ⟨lo, htiled, hlo⟩ := h.1.queue
    have ht := s.ticked ms
    have hdrained := h.2
    rw [Drained, TCPSender.bytesInFlight, TCPSender.segmentNeeded] at hdrained
    refine ⟨⟨⟨lo, htiled.tick ms, ?_⟩, ?_, ?_⟩, ?_⟩
    · rw [ht.absAckno]
      exact hlo
    · rw [ht.absAckno, ht.nextSeqno]
      exact h.1.reached
    · rw [ht.windowSize]
      exact h.1.window
    · rw [Drained, TCPSender.bytesInFlight, TCPSender.segmentNeeded, ht.outstanding,
        ht.nextSeqno, ht.stream]
      exact hdrained
  reset := by
    intro s h
    obtain ⟨lo, htiled, hlo⟩ := h.1.queue
    refine ⟨⟨⟨lo, htiled.reset, hlo⟩, h.1.reached, h.1.window⟩, ?_⟩
    -- a reset is kept in the queue but occupies no number
    intro hflight
    have hsum := htiled.bytesInFlight
    have hsum' := htiled.reset.bytesInFlight
    have hnext : (s.sendFlagsSegment false false true).nextSeqno = s.nextSeqno := rfl
    exact h.2 (by omega)
  error := fun _ h => ⟨⟨h.1.queue, h.1.reached, h.1.window⟩, h.2⟩

end Delivery

/-- No segment makes the sender accept an older acknowledgement. -/
def AcksForward : Life → Op → Prop := Meets (fun _ => True) NotOlder

instance (x : Life) (op : Op) : Decidable (AcksForward x op) :=
  inferInstanceAs (Decidable (Meets _ _ x op))

/-- Drained and done, the stream is at its end. -/
theorem eof_of_done {c : TCPConnection} (h : Drained c.sender)
    (hdone : c.killConditionCheck = true) : c.sender.stream.eof = true := by
  obtain ⟨-, hended, hflight, hnext⟩ := (killConditionCheck_iff c).mp hdone
  rw [ByteStream.eof, hended, Bool.true_and, ByteStream.bufferEmpty, List.isEmpty_iff]
  by_contra hdata
  have heof : c.sender.stream.eof = false := by
    rw [ByteStream.eof, hended, Bool.true_and, ByteStream.bufferEmpty,
      List.isEmpty_eq_false_iff]
    exact hdata
  rw [heof, if_neg Bool.false_ne_true] at hnext
  have hpos := List.length_pos_iff.mpr hdata
  have hacc := c.sender.stream.accounted
  rcases h hflight with hzero | hidle
  · omega
  · rw [(TCPSender.segmentNeeded_iff _).mpr (Or.inr (Or.inl hdata))] at hidle
    exact absurd hidle.symm Bool.false_ne_true

/-- **A CLEAN CLOSE**: after every run whose acknowledgements never go back, the outbound
    stream was delivered; after any other it was exactly if the closing tick finds it at
    its end. -/
theorem clean_close_delivered_iff (cfg : TCPConfig) (random : BitVec 32) (ops : List Op)
    (x : Life) (ms : Nat) (hrun : run step (start cfg random) ops = some x)
    (hclose : ClosesCleanly x.conn ms) :
    (Along step AcksForward (start cfg random) ops → Delivered (x.conn.tick ms))
      ∧ (Delivered (x.conn.tick ms) ↔ x.conn.sender.stream.eof = true) := by
  refine ⟨fun hops => hclose.delivered_iff.mpr (eof_of_done ?_ hclose.done.2.1),
    hclose.delivered_iff⟩
  have hinv : Current x.conn.sender ∧ Drained x.conn.sender := by
    refine run_invariant (I := fun x : Life => Current x.conn.sender ∧ Drained x.conn.sender)
      ?_ ops _ x ?_ hops hrun
    · intro x op y hx hop hstep
      exact sender_rule delivery_steps hx hop hstep
    · exact ⟨⟨⟨0, rfl, Nat.le_refl 0⟩, Nat.le_refl 0, (by decide : 1 < 2 ^ 16)⟩,
        fun _ => Or.inl rfl⟩
  exact hinv.2

/-- The peer's `SYN` and `FIN` in one segment that acknowledges ours. -/
def synFinAck (win : BitVec 16) : TCPSegment :=
  { header := { syn := true, fin := true, ack := true, ackno := ⟨1⟩, win := win } }

/-- An acknowledgement and nothing else, numbered after the peer's `FIN`. -/
def bareAck (ackno : BitVec 32) (win : BitVec 16) : TCPSegment :=
  { header := { seqno := ⟨2⟩, ack := true, ackno := ⟨ackno⟩, win := win } }

/-- The peer is done at once; we send one byte, end the stream, and the peer
    acknowledges both. -/
def passiveClose : List Op :=
  [.connect, .segmentReceived (synFinAck 10), .write [97], .endInputStream,
    .segmentReceived (bareAck 3 10)]

theorem clean_close_delivered_iff_passive :
    ∃ x, run step (start { fixedIsn := some ⟨0⟩ } 0) passiveClose = some x
      ∧ ClosesCleanly x.conn 1 ∧ Delivered (x.conn.tick 1) := by
  have hreach : ∃ x, run step (start { fixedIsn := some ⟨0⟩ } 0) passiveClose = some x
      ∧ ClosesCleanly x.conn 1 := run_reaches (by decide)
  obtain ⟨x, hrun, hclose⟩ := hreach
  obtain ⟨hforward, -⟩ := clean_close_delivered_iff { fixedIsn := some ⟨0⟩ } 0
    passiveClose x 1 hrun hclose
  exact ⟨x, hrun, hclose, hforward (by decide)⟩

/-- One byte is sent and acknowledged, the acknowledgement of the `SYN` comes again
    with a window of one, and a second byte has to wait. -/
def byteWaiting : List Op :=
  [.connect, .segmentReceived (synFinAck 1), .write [97], .segmentReceived (bareAck 2 1),
    .segmentReceived (bareAck 1 1), .write [98], .endInputStream]

/-- **CLOSED WITH A BYTE WAITING**. -/
theorem closed_with_a_byte_waiting :
    ¬ ∀ (cfg : TCPConfig) (random : BitVec 32) (ops : List Op) (x : Life) (ms : Nat),
      run step (start cfg random) ops = some x →
      Along step NoLateWrite (start cfg random) ops →
      ClosesCleanly x.conn ms → Delivered (x.conn.tick ms) := by
  intro hall
  have hreach : ∃ x, run step (start { fixedIsn := some ⟨0⟩ } 0) byteWaiting = some x
      ∧ ClosesCleanly x.conn 1 ∧ (x.conn.tick 1).sender.stream.eof = false :=
    run_reaches (by decide)
  obtain ⟨x, hrun, hclose, heof⟩ := hreach
  have hd := hall _ 0 byteWaiting x 1 hrun (by decide) hclose
  rw [hd.1] at heof
  exact absurd heof.symm Bool.false_ne_true

/-! ## Lingering -/

/-- The side that closed first still lingers. -/
def Lingers (x : Life) : Prop :=
  x.closedFirst = true → x.conn.lingerAfterStreamsFinish = true

/-- The inbound stream has ended, and all that waits in the outbound one fits the
    window. -/
def ClosesLast (c : TCPConnection) : Prop :=
  c.receiver.streamOut.inputEnded = true ∧ TCPSender.AllFits c.sender

/-- A side that closed first does not close again once the inbound stream has ended
    and nothing waits. -/
def NoSecondClose (x : Life) : Op → Prop
  | .endInputStream => x.closedFirst = true → ¬ ClosesLast x.conn
  | .connect => True
  | .write _ => True
  | .tick _ => True
  | .segmentReceived _ => True
  | .read _ => True
  | .pop _ => True
  | .transmit => True

instance (c : TCPConnection) : Decidable (ClosesLast c) := inferInstanceAs (Decidable (_ ∧ _))

instance (x : Life) : ∀ op : Op, Decidable (NoSecondClose x op)
  | .endInputStream => inferInstanceAs (Decidable (x.closedFirst = true → ¬ ClosesLast x.conn))
  | .connect => isTrue trivial
  | .write _ => isTrue trivial
  | .tick _ => isTrue trivial
  | .segmentReceived _ => isTrue trivial
  | .read _ => isTrue trivial
  | .pop _ => isTrue trivial
  | .transmit => isTrue trivial

theorem endInputStream_linger (c : TCPConnection) :
    (ClosesLast c ∧ c.endInputStream.lingerAfterStreamsFinish = false)
      ∨ (¬ ClosesLast c
        ∧ c.endInputStream.lingerAfterStreamsFinish = c.lingerAfterStreamsFinish) := by
  have hiff : ClosesLast c ↔ (c.receiver.streamOut.inputEnded
      && { c.sender with stream := c.sender.stream.endInput }.fillWindow.stream.eof)
        = true := by
    have hfill := TCPSender.fillWindow_buffer_eq_nil_iff
      { c.sender with stream := c.sender.stream.endInput }
    obtain ⟨⟨l, hl⟩, -⟩ :=
      TCPSender.fillWindow_fills { c.sender with stream := c.sender.stream.endInput }
    rw [ClosesLast, Bool.and_eq_true, ByteStream.eof, hl.same.inputEnded,
      ByteStream.bufferEmpty]
    show _ ↔ _ ∧ List.isEmpty _ = true
    rw [List.isEmpty_iff, hfill]
    exact Iff.rfl
  rw [hiff, TCPConnection.endInputStream]
  dsimp only
  split_ifs with hclear
  · exact Or.inl ⟨hclear, rfl⟩
  · exact Or.inr ⟨hclear, rfl⟩

/-- Once ended, the outbound stream stays ended. -/
theorem ended_steps :
    SenderSteps (fun _ => True) (fun _ _ => True) (fun s => s.stream.inputEnded = true) where
  queue := fun _ _ h => h
  fill := by
    intro s h
    obtain ⟨⟨l, hl⟩, -⟩ := TCPSender.fillWindow_fills s
    exact hl.same.inputEnded.trans h
  wrote := by
    intro s data h _
    obtain ⟨⟨l, hl⟩, -⟩ :=
      TCPSender.fillWindow_fills { s with stream := (s.stream.write data).2 }
    exact hl.same.inputEnded.trans h
  ended := by
    intro s _
    obtain ⟨⟨l, hl⟩, -⟩ := TCPSender.fillWindow_fills { s with stream := s.stream.endInput }
    exact hl.same.inputEnded
  heard := by
    intro s ackno window h _
    rcases noteAck_ackedTo s ackno window with ⟨-, hnote⟩ | ⟨hgo, popped, hacked⟩
    · rw [TCPSender.ackReceived_ignored (by rw [hnote]), hnote]
      exact h
    · rw [TCPSender.ackReceived_noted hgo]
      obtain ⟨⟨l, hl⟩, -⟩ := TCPSender.fillWindow_fills (s.noteAck ackno window).2
      rw [hl.same.inputEnded, hacked.same.stream]
      exact h
  tick := by
    intro s ms h
    rw [(s.ticked ms).stream]
    exact h
  reset := fun _ h => h
  error := fun _ h => h

/-- Once ended, the inbound stream stays ended. -/
theorem inbound_steps : ReceiverSteps (fun r => r.streamOut.inputEnded = true) where
  segment := fun r seg h => (TCPReceiver.progress_segment r seg).ended h
  read := fun _ _ h => h
  pop := fun _ _ h => h
  error := fun _ h => h

/-- The side that closed first lingers and has ended its stream; who does not linger
    has seen the inbound stream end. -/
structure Closing (x : Life) : Prop where
  lingers : Lingers x
  ended : x.closedFirst = true → x.conn.sender.stream.inputEnded = true
  inbound : x.conn.lingerAfterStreamsFinish = false →
    x.conn.receiver.streamOut.inputEnded = true

/-- A step that clears no flag and closes nothing. -/
theorem Closing.keep {x y : Life} {op : Op} (h : Closing x) (hstep : step x op = some y)
    (hlinger : y.conn.lingerAfterStreamsFinish = x.conn.lingerAfterStreamsFinish)
    (hfirst : y.closedFirst = x.closedFirst) : Closing y := by
  refine ⟨?_, ?_, ?_⟩
  · rw [Lingers, hfirst, hlinger]
    exact h.lingers
  · rw [hfirst]
    intro hc
    exact sender_rule ended_steps (h.ended hc) (meets_of_always x op) hstep
  · rw [hlinger]
    intro hl
    exact receiver_rule inbound_steps (h.inbound hl) hstep

/-- **THE FLAG AFTER A SEGMENT**: a side that has not closed stops lingering when
    the inbound stream ends; every other flag stays. -/
theorem segment_linger {x y : Life} {seg : TCPSegment}
    (hstep : step x (.segmentReceived seg) = some y) :
    y.conn.lingerAfterStreamsFinish = x.conn.lingerAfterStreamsFinish
      ∨ (y.conn.lingerAfterStreamsFinish = false ∧ x.conn.sender.stream.inputEnded = false
        ∧ y.conn.receiver.streamOut.inputEnded = true) := by
  obtain ⟨c, hc, heq⟩ := Option.map_eq_some_iff.mp hstep
  rw [← heq]
  show c.lingerAfterStreamsFinish = _ ∨ (c.lingerAfterStreamsFinish = false ∧ _
    ∧ c.receiver.streamOut.inputEnded = true)
  rcases TCPConnection.segmentReceived_cases hc with ⟨-, hkilled⟩ | ⟨ackno, htaken⟩
  · rw [hkilled]
    exact Or.inl rfl
  · have hlinger := htaken.linger
    have hended := answer_inputEnded x.conn seg ackno
    rw [htaken.flushed.sender] at hlinger
    dsimp only at hlinger
    rw [hended] at hlinger
    split_ifs at hlinger with hclear
    · rw [Bool.and_eq_true, Bool.not_eq_true'] at hclear
      exact Or.inr ⟨hlinger, hclear.2, hclear.1⟩
    · exact Or.inl hlinger

/-- A segment clears the flag only on a side that has not closed. -/
theorem Closing.segment {x y : Life} {seg : TCPSegment} (h : Closing x)
    (hstep : step x (.segmentReceived seg) = some y) : Closing y := by
  have hfirst : y.closedFirst = x.closedFirst := by
    obtain ⟨c, -, heq⟩ := Option.map_eq_some_iff.mp hstep
    rw [← heq]
    rfl
  rcases segment_linger hstep with hsame | ⟨-, hopen, hinbound⟩
  · exact h.keep hstep hsame hfirst
  · have hnot : ¬ y.closedFirst = true := by
      intro hc
      rw [h.ended (hfirst.symm.trans hc)] at hopen
      exact absurd hopen.symm Bool.false_ne_true
    exact ⟨fun hc => absurd hc hnot, fun hc => absurd hc hnot, fun _ => hinbound⟩

/-- A close that is not a second one clears the flag only where the inbound stream
    ended first. -/
theorem Closing.close {x : Life} (h : Closing x) (hop : NoSecondClose x .endInputStream) :
    Closing { x.become x.conn.endInputStream with
      closedFirst := x.closedFirst || !x.conn.receiver.streamOut.inputEnded } := by
  obtain ⟨t, hmoves, hflushed, hreceiver, -⟩ := x.conn.endInputStream_spec
  have hended : x.conn.endInputStream.sender.stream.inputEnded = true := by
    rw [hflushed.sender]
    exact hmoves.flags.1
  rcases endInputStream_linger x.conn with ⟨hlast, -⟩ | ⟨-, hsame⟩
  · -- not closed first, and not now either: the inbound stream has ended
    have hnot : (x.closedFirst || !x.conn.receiver.streamOut.inputEnded) = false := by
      rw [hlast.1, Bool.not_true, Bool.or_false]
      exact Bool.eq_false_iff.mpr fun hc => hop hc hlast
    refine ⟨fun hc => ?_, fun _ => hended, fun _ => ?_⟩
    · exact absurd (hnot.symm.trans hc) Bool.false_ne_true
    · show x.conn.endInputStream.receiver.streamOut.inputEnded = true
      rw [hreceiver]
      exact hlast.1
  · refine ⟨fun hc => ?_, fun _ => hended, fun hl => ?_⟩
    · show x.conn.endInputStream.lingerAfterStreamsFinish = true
      rw [hsame]
      cases hlinger : x.conn.lingerAfterStreamsFinish with
      | true => rfl
      | false =>
          -- who does not linger saw the inbound stream end, and did not close first
          have hfirst : (x.closedFirst || !x.conn.receiver.streamOut.inputEnded) = true := hc
          rw [h.inbound hlinger, Bool.not_true, Bool.or_false] at hfirst
          rw [h.lingers hfirst] at hlinger
          exact absurd hlinger.symm Bool.false_ne_true
    · show x.conn.endInputStream.receiver.streamOut.inputEnded = true
      rw [hreceiver]
      exact h.inbound (hsame.symm.trans hl)

theorem Closing.step {x y : Life} {op : Op} (h : Closing x) (hop : NoSecondClose x op)
    (hstep : step x op = some y) : Closing y := by
  cases op with
  | connect =>
      obtain rfl := Option.some.inj hstep
      exact h.keep hstep rfl rfl
  | write data =>
      obtain rfl := Option.some.inj hstep
      exact h.keep hstep rfl rfl
  | tick ms =>
      obtain rfl := Option.some.inj hstep
      exact h.keep hstep (x.conn.tick_frame ms).2.1 rfl
  | read len =>
      obtain rfl := Option.some.inj hstep
      exact h.keep hstep rfl rfl
  | pop len =>
      obtain rfl := Option.some.inj hstep
      exact h.keep hstep rfl rfl
  | transmit =>
      obtain rfl := Option.some.inj hstep
      exact h.keep hstep rfl rfl
  | segmentReceived seg => exact h.segment hstep
  | endInputStream =>
      obtain rfl := Option.some.inj hstep
      exact h.close hop

/-- Only a close can be a second one. -/
theorem endInputStream_of_not {x : Life} {op : Op} (hop : ¬ NoSecondClose x op) :
    op = .endInputStream := by
  cases op with
  | endInputStream => rfl
  | connect => exact absurd trivial hop
  | write data => exact absurd trivial hop
  | tick ms => exact absurd trivial hop
  | segmentReceived seg => exact absurd trivial hop
  | read len => exact absurd trivial hop
  | pop len => exact absurd trivial hop
  | transmit => exact absurd trivial hop

/-- A second close clears the flag. -/
theorem not_lingers {x y : Life} {op : Op} (hop : ¬ NoSecondClose x op)
    (hstep : step x op = some y) : ¬ Lingers y := by
  obtain rfl := endInputStream_of_not hop
  obtain ⟨hfirst, hlast⟩ := Classical.not_imp.mp hop
  have hlast' : ClosesLast x.conn := not_not.mp hlast
  rcases endInputStream_linger x.conn with ⟨-, hoff⟩ | ⟨hno, -⟩
  · rw [← Option.some.inj hstep]
    intro hlingers
    have htrue : x.conn.endInputStream.lingerAfterStreamsFinish = true := by
      refine hlingers ?_
      show (x.closedFirst || _) = true
      rw [hfirst, Bool.true_or]
    rw [hoff] at htrue
    exact absurd htrue Bool.false_ne_true
  · exact absurd hlast' hno

/-- The connection keeps its configuration, and while it is active its clock is not
    ahead of the time since the last segment. -/
structure Clocked (cfg : TCPConfig) (x : Life) : Prop where
  cfg : x.conn.cfg = cfg
  clock : x.conn.active = true → x.conn.timeLastRecv ≤ x.sinceSegment

theorem tick_active {c : TCPConnection} {ms : Nat} (h : (c.tick ms).active = true) :
    c.active = true := by
  rw [TCPConnection.tick] at h
  dsimp only at h
  split_ifs at h with hmax
  · exact absurd h Bool.false_ne_true
  · rw [TCPConnection.closeIfDone] at h
    dsimp only at h
    split_ifs at h
    · exact absurd h Bool.false_ne_true
    · exact h
    · exact absurd h Bool.false_ne_true
    · exact h

theorem Clocked.step {cfg : TCPConfig} {x y : Life} {op : Op} (h : Clocked cfg x)
    (hstep : step x op = some y) : Clocked cfg y := by
  cases op with
  | connect => obtain rfl := Option.some.inj hstep; exact ⟨h.cfg, h.clock⟩
  | write data => obtain rfl := Option.some.inj hstep; exact ⟨h.cfg, h.clock⟩
  | read len => obtain rfl := Option.some.inj hstep; exact ⟨h.cfg, h.clock⟩
  | pop len => obtain rfl := Option.some.inj hstep; exact ⟨h.cfg, h.clock⟩
  | transmit => obtain rfl := Option.some.inj hstep; exact ⟨h.cfg, h.clock⟩
  | endInputStream =>
      obtain rfl := Option.some.inj hstep
      have hframe : x.conn.endInputStream.cfg = x.conn.cfg
          ∧ x.conn.endInputStream.timeLastRecv = x.conn.timeLastRecv
          ∧ x.conn.endInputStream.active = x.conn.active := by
        rw [TCPConnection.endInputStream]
        dsimp only
        split_ifs <;> exact ⟨rfl, rfl, rfl⟩
      refine ⟨hframe.1.trans h.cfg, fun hactive => ?_⟩
      show x.conn.endInputStream.timeLastRecv ≤ x.sinceSegment
      rw [hframe.2.1]
      exact h.clock (hframe.2.2.symm.trans hactive)
  | tick ms =>
      obtain rfl := Option.some.inj hstep
      obtain ⟨hcfg, -, htime⟩ := x.conn.tick_frame ms
      refine ⟨hcfg.trans h.cfg, fun hactive => ?_⟩
      have hclock := h.clock (tick_active hactive)
      show (x.conn.tick ms).timeLastRecv ≤ x.sinceSegment + ms
      rw [htime]
      exact Nat.le_trans (Nat.mod_le _ _) (Nat.add_le_add_right hclock ms)
  | segmentReceived seg =>
      obtain ⟨c, hc, heq⟩ := Option.map_eq_some_iff.mp hstep
      rw [← heq]
      rcases TCPConnection.segmentReceived_cases hc with ⟨-, hkilled⟩ | ⟨ackno, htaken⟩
      · -- a reset leaves the clock running, but the connection is dead
        rw [hkilled]
        exact ⟨h.cfg, fun hactive => absurd hactive Bool.false_ne_true⟩
      · exact ⟨htaken.cfg.trans h.cfg, fun _ => Nat.le_of_eq htaken.time⟩

/-- The flag stays set exactly as long as there is no second close. -/
theorem lingers_iff (cfg : TCPConfig) (random : BitVec 32) (ops : List Op) :
    Throughout step Lingers (start cfg random) ops
      ↔ Along step NoSecondClose (start cfg random) ops := by
  refine throughout_iff_along (I := Closing) (G := fun _ _ => True)
    (fun _ h => h.lingers) ?_ ?_ ?_ ops _ ?_ (along_of_forall (fun _ _ => trivial) ops _)
  · intro x op _ _ hop
    obtain rfl := endInputStream_of_not hop
    exact ⟨_, rfl⟩
  · intro x op y h _ hop hstep
    exact h.step hop hstep
  · intro x op y _ _ hop hstep
    exact not_lingers hop hstep
  · exact ⟨fun _ => rfl, fun h => absurd h Bool.false_ne_true,
      fun h => absurd h.symm Bool.false_ne_true⟩

/-- **THE ACTIVE CLOSER LINGERS, EXACTLY**: the flag of a side that closed first stays
    set throughout a run iff that side does not close again after the inbound
    stream has ended; while it is set a clean close comes ten timeouts after the
    last segment at the earliest; and where the inbound stream ends first, the
    segment that ends it clears the flag. -/
theorem active_closer_lingers_iff (cfg : TCPConfig) (random : BitVec 32) (ops : List Op) :
    (Throughout step Lingers (start cfg random) ops
      ↔ Along step NoSecondClose (start cfg random) ops)
    ∧ ∀ x, run step (start cfg random) ops = some x →
      (∀ ms, Lingers x → x.closedFirst = true → ClosesCleanly x.conn ms →
        10 * cfg.rtTimeout.toNat ≤ x.sinceSegment + ms)
      ∧ ∀ seg y, step x (.segmentReceived seg) = some y →
        x.conn.sender.stream.inputEnded = false →
        x.conn.receiver.streamOut.inputEnded = false →
        y.conn.receiver.streamOut.inputEnded = true →
        y.conn.lingerAfterStreamsFinish = false := by
  refine ⟨lingers_iff cfg random ops, fun x hrun => ⟨fun ms hlingers hfirst hclose => ?_, ?_⟩⟩
  · have hclocked : Clocked cfg x := by
      refine run_keeps (I := Clocked cfg) ?_ ⟨rfl, fun _ => Nat.le_refl 0⟩ hrun
      intro x op y h hstep
      exact h.step hstep
    have hlinger := hclose.done.2.2 (hlingers hfirst)
    have hclock := hclocked.clock hclose.1
    rw [hclocked.cfg] at hlinger
    have hmod := Nat.mod_le (x.conn.timeLastRecv + ms) (2 ^ 64)
    omega
  · intro seg y hstep hopen hbefore hafter
    obtain ⟨c, hc, heq⟩ := Option.map_eq_some_iff.mp hstep
    subst heq
    rcases TCPConnection.segmentReceived_cases hc with ⟨-, hkilled⟩ | ⟨ackno, htaken⟩
    · -- a reset ends no stream
      rw [hkilled] at hafter
      exact absurd (hbefore.symm.trans hafter) Bool.false_ne_true
    · have hended : c.sender.stream.inputEnded = false := by
        rw [htaken.flushed.sender]
        exact (answer_inputEnded x.conn seg ackno).trans hopen
      refine htaken.linger.trans (if_pos ?_)
      rw [hended, show c.receiver.streamOut.inputEnded = true from hafter]
      rfl

/-- The peer's `SYN`, acknowledging ours. -/
def synAck : TCPSegment :=
  { header := { syn := true, ack := true, ackno := ⟨1⟩, win := 10 } }

/-- The peer's `FIN`, acknowledging our `SYN` and our `FIN`. -/
def finAck : TCPSegment :=
  { header := { seqno := ⟨1⟩, fin := true, ack := true, ackno := ⟨2⟩, win := 10 } }

/-- We end our stream first, then the peer ends its own. -/
def activeClose : List Op :=
  [.connect, .segmentReceived synAck, .endInputStream, .segmentReceived finAck]

theorem active_closer_lingers_iff_active_close :
    Throughout step Lingers (start { fixedIsn := some ⟨0⟩ } 0) activeClose
      ∧ ∃ x, run step (start { fixedIsn := some ⟨0⟩ } 0) activeClose = some x
        ∧ ClosesCleanly x.conn 10000 ∧ 10 * 1000 ≤ x.sinceSegment + 10000 := by
  obtain ⟨hiff, hend⟩ := active_closer_lingers_iff { fixedIsn := some ⟨0⟩ } 0 activeClose
  have hreach : ∃ x, run step (start { fixedIsn := some ⟨0⟩ } 0) activeClose = some x
      ∧ x.closedFirst = true ∧ x.conn.lingerAfterStreamsFinish = true
      ∧ ClosesCleanly x.conn 10000 := run_reaches (by decide)
  obtain ⟨x, hrun, hfirst, hlinger, hclose⟩ := hreach
  exact ⟨hiff.mpr (by decide), x, hrun, hclose,
    (hend x hrun).1 10000 (fun _ => hlinger) hfirst hclose⟩

/-- **A SECOND CLOSE STOPS THE LINGERING**: the same end, and the owner calls
    `end_input_stream` once more. -/
theorem second_close_stops_lingering :
    ¬ ∀ (cfg : TCPConfig) (random : BitVec 32) (ops : List Op),
      Throughout step Lingers (start cfg random) ops := by
  intro hall
  have hthr := hall { fixedIsn := some ⟨0⟩ } 0 (activeClose ++ [.endInputStream])
  have halong := (lingers_iff { fixedIsn := some ⟨0⟩ } 0
    (activeClose ++ [.endInputStream])).mp hthr
  exact absurd halong (by decide)

/-! ## A dead connection -/

/-- Since `x` nothing was appended to `segments_out()` and no byte was written to the
    inbound stream. -/
def Silent (x y : Life) : Prop :=
  y.log = x.log
    ∧ y.conn.receiver.streamOut.bytesWritten = x.conn.receiver.streamOut.bytesWritten

/-- Hearing this acknowledgement, with this window, the sender finds nothing to
    send. -/
def HearsNothing (s : TCPSender) (ackno : WrappingInt32) (window : BitVec 16) : Prop :=
  s.nextSeqno < ackedTo s ackno
    ∨ TCPSender.Stopped { s with absAckno := ackedTo s ackno, windowSize := window.toNat }

/-- The segment occupies no number, is no keep-alive, and gives the sender nothing to
    send. -/
def Passed (c : TCPConnection) (seg : TCPSegment) (ackno : WrappingInt32) : Prop :=
  seg.lengthInSequenceSpace = 0
    ∧ (∀ own ∈ (c.receiver.segmentReceived seg).ackno, seg.header.seqno ≠ own.sub 1)
    ∧ HearsNothing c.sender ackno seg.header.win

/-- The operation is a silent one: it finds nothing to send; as a tick it neither
    gives up nor retransmits; as a segment it is a reset or passes by. -/
def Mute (x : Life) : Op → Prop
  | .connect => TCPSender.Stopped x.conn.sender
  | .write data =>
      TCPSender.Stopped
        { x.conn.sender with stream := (x.conn.sender.stream.write data).2 }
  | .endInputStream =>
      TCPSender.Stopped { x.conn.sender with stream := x.conn.sender.stream.endInput }
  | .tick ms =>
      x.conn.sender.consecutiveRetransmissions < TCPConfig.maxRetxAttempts
        ∧ ¬ ((x.conn.sender.timer.update ms).expired = true
          ∧ x.conn.sender.outstandingSegments ≠ [])
  | .segmentReceived seg =>
      seg.header.rst = true ∨ ∀ ackno ∈ x.conn.heard seg, Passed x.conn seg ackno
  | .read _ => True
  | .pop _ => True
  | .transmit => True

instance (s : TCPSender) (ackno : WrappingInt32) (window : BitVec 16) :
    Decidable (HearsNothing s ackno window) := inferInstanceAs (Decidable (_ ∨ _))

instance (c : TCPConnection) (seg : TCPSegment) (ackno : WrappingInt32) :
    Decidable (Passed c seg ackno) := inferInstanceAs (Decidable (_ ∧ _))

instance (x : Life) : ∀ op : Op, Decidable (Mute x op)
  | .connect => inferInstanceAs (Decidable (TCPSender.Stopped _))
  | .write _ => inferInstanceAs (Decidable (TCPSender.Stopped _))
  | .endInputStream => inferInstanceAs (Decidable (TCPSender.Stopped _))
  | .tick _ => inferInstanceAs (Decidable (_ ∧ ¬ _))
  | .segmentReceived _ => inferInstanceAs (Decidable (_ ∨ _))
  | .read _ => isTrue trivial
  | .pop _ => isTrue trivial
  | .transmit => isTrue trivial

section Silence

/-- A tick of the sender sends exactly when its timer has expired over a queue that
    is not empty. -/
theorem tick_silent_iff (s : TCPSender) (ms : Nat) :
    (s.tick ms).segmentsOut = s.segmentsOut
      ↔ ¬ ((s.timer.update ms).expired = true ∧ s.outstandingSegments ≠ []) := by
  rw [TCPSender.tick]
  by_cases hactive : s.timer.active = true
  · rw [if_pos hactive]
    dsimp only
    cases hq : s.outstandingSegments with
    | nil => simp
    | cons front rest =>
        dsimp only
        by_cases hexp : (s.timer.update ms).expired = true
        · rw [if_pos hexp]
          rw [TCPSender.retransmit_segmentsOut]
          simp [hexp]
        · rw [if_neg hexp]
          simp [hexp]
  · rw [if_neg hactive]
    have hidle : (s.timer.update ms).expired = false := by
      rw [Timer.update, Bool.eq_false_iff.mpr hactive]
      exact Bool.and_eq_false_imp.mpr fun h => absurd h hactive
    simp [hidle]

/-- Hearing an acknowledgement is silent exactly where it finds nothing to send. -/
theorem ackReceived_silent_iff (s : TCPSender) (ackno : WrappingInt32)
    (window : BitVec 16) :
    (s.ackReceived ackno window).segmentsOut = s.segmentsOut
      ↔ HearsNothing s ackno window := by
  rcases noteAck_ackedTo s ackno window with ⟨hgt, hnote⟩ | ⟨hgo, popped, hacked⟩
  · rw [TCPSender.ackReceived_ignored (by rw [hnote]), hnote]
    exact ⟨fun _ => Or.inl hgt, fun _ => rfl⟩
  · rw [TCPSender.ackReceived_noted hgo, HearsNothing,
      or_iff_right (Nat.not_lt.mpr hacked.reached)]
    have hstopped : TCPSender.Stopped (s.noteAck ackno window).2
        ↔ TCPSender.Stopped
          { s with absAckno := ackedTo s ackno, windowSize := window.toNat } := by
      rw [TCPSender.Stopped, TCPSender.Stopped, TCPSender.availableSpace_eq,
        TCPSender.availableSpace_eq, TCPSender.segmentNeeded, TCPSender.segmentNeeded,
        hacked.absAckno, hacked.windowSize, hacked.same.nextSeqno, hacked.same.stream]
    rw [← hstopped, ← TCPSender.fillWindow_silent_iff, hacked.same.segmentsOut]

/-- Data is answered: that is silent only if there is none, and nothing waited. -/
theorem replyToData_silent_iff (s : TCPSender) (seg : TCPSegment) :
    (TCPConnection.replyToData s seg).segmentsOut = []
      ↔ s.segmentsOut = [] ∧ seg.lengthInSequenceSpace = 0 := by
  rw [TCPConnection.replyToData]
  split_ifs with hreply hempty
  · rw [Bool.and_eq_true, decide_eq_true_eq] at hreply
    constructor
    · intro hnil
      exact absurd hnil (List.append_ne_nil_of_right_ne_nil _ (List.cons_ne_nil _ _))
    · rintro ⟨-, hzero⟩
      omega
  · rw [Bool.and_eq_true, decide_eq_true_eq] at hreply
    constructor
    · intro hnil
      exact absurd (List.isEmpty_iff.mpr hnil) hempty
    · rintro ⟨-, hzero⟩
      omega
  · rw [Bool.and_eq_true, decide_eq_true_eq, List.isEmpty_iff, not_and] at hreply
    constructor
    · intro hnil
      have := hreply hnil
      exact ⟨hnil, by omega⟩
    · exact fun h => h.1

/-- A keep-alive is answered. -/
theorem replyToKeepAlive_silent_iff (r : TCPReceiver) (s : TCPSender) (seg : TCPSegment) :
    (TCPConnection.replyToKeepAlive r s seg).segmentsOut = []
      ↔ s.segmentsOut = [] ∧ (seg.lengthInSequenceSpace = 0 →
        ∀ own ∈ r.ackno, seg.header.seqno ≠ own.sub 1) := by
  rw [TCPConnection.replyToKeepAlive]
  cases r.ackno with
  | none => simp
  | some own =>
      dsimp only
      split_ifs with hkeep
      · rw [Bool.and_eq_true, beq_iff_eq, beq_iff_eq] at hkeep
        constructor
        · intro hnil
          exact absurd hnil (List.append_ne_nil_of_right_ne_nil _ (List.cons_ne_nil _ _))
        · rintro ⟨-, hno⟩
          exact absurd hkeep.2 (hno hkeep.1 own rfl)
      · rw [Bool.and_eq_true, beq_iff_eq, beq_iff_eq, not_and] at hkeep
        refine ⟨fun hnil => ⟨hnil, fun hzero own' hown => ?_⟩, fun h => h.1⟩
        rw [← Option.some.inj hown]
        exact hkeep hzero

/-- Answering a segment is silent exactly where it passes by. -/
theorem answer_silent_iff {c : TCPConnection} (h : c.sender.segmentsOut = [])
    (seg : TCPSegment) (ackno : WrappingInt32) :
    (c.answer seg ackno).segmentsOut = [] ↔ Passed c seg ackno := by
  have hheard := ackReceived_silent_iff c.sender ackno seg.header.win
  rw [h] at hheard
  rw [TCPConnection.answer, replyToKeepAlive_silent_iff, replyToData_silent_iff, hheard, Passed]
  constructor
  · rintro ⟨⟨hhears, hzero⟩, hkeep⟩
    exact ⟨hzero, hkeep hzero, hhears⟩
  · rintro ⟨hzero, hkeep, hhears⟩
    exact ⟨⟨hhears, hzero⟩, fun _ => hkeep⟩

/-- A segment that occupies no number brings no byte. -/
theorem bytesWritten_of_empty (r : TCPReceiver) {seg : TCPSegment}
    (h : seg.lengthInSequenceSpace = 0) :
    (r.segmentReceived seg).streamOut.bytesWritten = r.streamOut.bytesWritten := by
  have hpayload : seg.payload = [] := by
    have hle := seg.lengthInSequenceSpace_ge
    exact List.eq_nil_of_length_eq_zero (by omega)
  by_cases hpast : r.syn = true ∨ seg.header.syn = true
  · have hlanded : (r.landed seg).output = r.reassembler.output := by
      rw [TCPReceiver.landed]
      rcases (r.noteSyn seg.header).storePayload_cases seg with ⟨hkeep, -⟩ | ⟨hne, -, -⟩
      · rw [hkeep, TCPReceiver.noteSyn_reassembler]
      · exact absurd hpayload hne
    have hstore : (r.segmentReceived seg).streamOut.bytesWritten
        = (r.landed seg).output.bytesWritten := by
      rw [TCPReceiver.streamOut, (TCPReceiver.received hpast).reassembler]
      split_ifs <;> rfl
    rw [hstore, hlanded]
    rfl
  · rw [TCPReceiver.segmentReceived_before hpast]

/-- What a tick appends: a reset when it gives up, else what the sender sends. -/
theorem tick_segmentsOut (c : TCPConnection) (ms : Nat) :
    (c.tick ms).segmentsOut = c.segmentsOut
      ++ (if c.sender.consecutiveRetransmissions ≥ TCPConfig.maxRetxAttempts then
          (c.sender.sendFlagsSegment false false true).segmentsOut
        else (c.sender.tick ms).segmentsOut).map (TCPConnection.stamp c.receiver) := by
  rw [TCPConnection.tick]
  dsimp only
  split_ifs with hmax
  · rfl
  · rw [TCPConnection.closeIfDone]
    dsimp only
    split_ifs <;> rfl

/-- A tick is silent exactly where it neither gives up nor retransmits. -/
theorem tick_log_iff {x : Life} (h : x.conn.sender.segmentsOut = []) (ms : Nat) :
    (x.become (x.conn.tick ms)).log = x.log ↔ Mute x (.tick ms) := by
  rw [become_log_iff _ (tick_segmentsOut x.conn ms), Mute]
  split_ifs with hmax
  · constructor
    · intro hnil
      exact absurd hnil (List.append_ne_nil_of_right_ne_nil _ (List.cons_ne_nil _ _))
    · rintro ⟨hlt, -⟩
      exact absurd hlt (Nat.not_lt.mpr hmax)
  · have hsilent := tick_silent_iff x.conn.sender ms
    rw [h] at hsilent
    rw [hsilent, and_iff_right (Nat.lt_of_not_le hmax)]

/-- Filling the window is silent exactly where nothing can be sent. -/
theorem fill_log_iff {x : Life} {s : TCPSender} {c : TCPConnection}
    (h : s.segmentsOut = [])
    (hout : c.segmentsOut = x.conn.segmentsOut
      ++ s.fillWindow.segmentsOut.map (TCPConnection.stamp c.receiver)) :
    (x.become c).log = x.log ↔ TCPSender.Stopped s := by
  rw [become_log_iff _ hout, ← TCPSender.fillWindow_silent_iff, h]

end Silence

/-- A segment is silent exactly if it is a reset or passes: then it brings no byte
    either. -/
theorem segment_silent_iff {x : Life} {seg : TCPSegment} {c : TCPConnection}
    (h : x.conn.sender.segmentsOut = []) (hc : x.conn.segmentReceived seg = some c) :
    Silent x { x.become c with sinceSegment := 0 } ↔ Mute x (.segmentReceived seg) := by
  rcases TCPConnection.segmentReceived_cases hc with ⟨hrst, hkilled⟩ | ⟨ackno, htaken⟩
  · subst hkilled
    exact iff_of_true ⟨become_log_same (c := x.conn.killConnection false) rfl, rfl⟩
      (Or.inl hrst)
  · have hmute : Mute x (.segmentReceived seg) ↔ Passed x.conn seg ackno := by
      rw [Mute, htaken.rst, htaken.heard]
      constructor
      · intro hm
        exact (hm.resolve_left Bool.false_ne_true) ackno rfl
      · intro hp
        refine Or.inr fun ackno' hackno' => ?_
        rw [← Option.some.inj hackno']
        exact hp
    have hsilent : (x.become c).log = x.log ↔ Passed x.conn seg ackno := by
      rw [become_log_iff _ htaken.flushed.segmentsOut, answer_silent_iff h]
    rw [hmute]
    refine ⟨fun hs => hsilent.mp hs.1, fun hp => ⟨hsilent.mpr hp, ?_⟩⟩
    show c.receiver.streamOut.bytesWritten = _
    rw [htaken.receiver]
    exact bytesWritten_of_empty _ hp.1

/-- **ONE SILENT STEP**: with an empty queue of its own, the sender's connection
    appends nothing and takes no byte exactly if the operation is mute. -/
theorem silent_iff_mute {x y : Life} {op : Op} (h : x.conn.sender.segmentsOut = [])
    (hstep : step x op = some y) : Silent x y ↔ Mute x op := by
  -- only a segment can bring bytes
  have hlog : y.conn.receiver.streamOut.bytesWritten
      = x.conn.receiver.streamOut.bytesWritten → (Silent x y ↔ y.log = x.log) :=
    fun hsame => and_iff_left hsame
  cases op with
  | connect =>
      obtain rfl := Option.some.inj hstep
      rw [hlog rfl]
      exact fill_log_iff h rfl
  | write data =>
      obtain rfl := Option.some.inj hstep
      rw [hlog rfl]
      exact fill_log_iff (s := { x.conn.sender with
        stream := (x.conn.sender.stream.write data).2 }) h rfl
  | endInputStream =>
      obtain rfl := Option.some.inj hstep
      have hframe : x.conn.endInputStream.receiver = x.conn.receiver
          ∧ x.conn.endInputStream.segmentsOut = x.conn.segmentsOut
            ++ ({ x.conn.sender with
                stream := x.conn.sender.stream.endInput }.fillWindow.segmentsOut).map
              (TCPConnection.stamp x.conn.endInputStream.receiver) := by
        rw [TCPConnection.endInputStream]
        dsimp only
        split_ifs <;> exact ⟨rfl, rfl⟩
      rw [hlog (congrArg (fun r => r.streamOut.bytesWritten) hframe.1)]
      exact fill_log_iff (s := { x.conn.sender with
        stream := x.conn.sender.stream.endInput }) h hframe.2
  | tick ms =>
      obtain rfl := Option.some.inj hstep
      rw [hlog ?_]
      · exact tick_log_iff h ms
      · show (x.conn.tick ms).receiver.streamOut.bytesWritten = _
        rcases tick_receiver x.conn ms with hr | hr
        · rw [hr]
        · rw [hr]
          rfl
  | segmentReceived seg =>
      obtain ⟨c, hc, heq⟩ := Option.map_eq_some_iff.mp hstep
      subst heq
      exact segment_silent_iff h hc
  | read len =>
      obtain rfl := Option.some.inj hstep
      exact iff_of_true ⟨become_log_same (c := x.conn.readInbound len) rfl, rfl⟩ trivial
  | pop len =>
      obtain rfl := Option.some.inj hstep
      exact iff_of_true ⟨become_log_same (c := x.conn.popInbound len) rfl, rfl⟩ trivial
  | transmit =>
      obtain rfl := Option.some.inj hstep
      exact iff_of_true ⟨rfl, rfl⟩ trivial

/-- A step that is not mute is possible. -/
theorem enabled_of_not_mute {x : Life} {op : Op} (h : ¬ Mute x op) :
    ∃ y, step x op = some y := by
  cases op with
  | segmentReceived seg =>
      obtain ⟨hrst, hsome⟩ := not_or.mp h
      obtain ⟨ackno, hackno⟩ := not_forall.mp hsome
      obtain ⟨hheard, -⟩ := Classical.not_imp.mp hackno
      obtain ⟨c, hc, -⟩ :=
        TCPConnection.taken_of_heard (Bool.eq_false_iff.mpr hrst) hheard
      exact ⟨_, Option.map_eq_some_iff.mpr ⟨c, hc, rfl⟩⟩
  | connect => exact ⟨_, rfl⟩
  | write data => exact ⟨_, rfl⟩
  | endInputStream => exact ⟨_, rfl⟩
  | tick ms => exact ⟨_, rfl⟩
  | read len => exact ⟨_, rfl⟩
  | pop len => exact ⟨_, rfl⟩
  | transmit => exact ⟨_, rfl⟩

theorem silent_iff_along {x : Life} (h : x.conn.sender.segmentsOut = []) (ops : List Op) :
    Throughout step (Silent x) x ops ↔ Along step Mute x ops := by
  refine throughout_iff_along
    (I := fun y => Silent x y ∧ y.conn.sender.segmentsOut = []) (G := fun _ _ => True)
    (fun _ hy => hy.1) (fun _ _ _ _ => enabled_of_not_mute) ?_ ?_ ops x ⟨⟨rfl, rfl⟩, h⟩
    (along_of_forall (fun _ _ => trivial) ops _)
  · rintro y op z ⟨hsilent, hqueue⟩ _ hmute hstep
    obtain ⟨hlog, hbytes⟩ := (silent_iff_mute hqueue hstep).mpr hmute
    exact ⟨⟨hlog.trans hsilent.1, hbytes.trans hsilent.2⟩, queue_empty hqueue hstep⟩
  · rintro y op z ⟨hsilent, hqueue⟩ _ hloud hstep hz
    refine hloud ((silent_iff_mute hqueue hstep).mp ⟨?_, ?_⟩)
    · exact hz.1.trans hsilent.1.symm
    · exact hz.2.trans hsilent.2.symm

/-- **DEAD, AND SILENT, EXACTLY**: from a connection that is not active a run appends
    nothing and takes no byte iff every operation of it is a mute one. -/
theorem dead_silent_iff (cfg : TCPConfig) (random : BitVec 32) (ops : List Op) (x : Life)
    (hrun : run step (start cfg random) ops = some x) (_ : x.conn.active = false)
    (more : List Op) :
    Throughout step (Silent x) x more ↔ Along step Mute x more :=
  silent_iff_along (queue_empty_run hrun) more

/-- A reset, with nothing else in it. -/
def bareRst : TCPSegment := { header := { rst := true } }

/-- Reset after the handshake: an acknowledgement and a tick find nothing to do. -/
theorem dead_silent_iff_after_reset :
    ∃ x, run step (start { fixedIsn := some ⟨0⟩ } 0)
        [.connect, .segmentReceived synAck, .segmentReceived bareRst] = some x
      ∧ x.conn.active = false
      ∧ Throughout step (Silent x) x [.segmentReceived (bareAck 1 10), .tick 5000] := by
  have hreach : ∃ x, run step (start { fixedIsn := some ⟨0⟩ } 0)
        [.connect, .segmentReceived synAck, .segmentReceived bareRst] = some x
      ∧ x.conn.active = false
      ∧ Along step Mute x [.segmentReceived (bareAck 1 10), .tick 5000] :=
    run_reaches (by decide)
  obtain ⟨x, hrun, hdead, halong⟩ := hreach
  exact ⟨x, hrun, hdead, (dead_silent_iff _ 0 _ x hrun hdead _).mpr halong⟩

/-- **DEAD BUT SENDING**: `connect` after a reset sends the `SYN`. -/
theorem dead_but_sending :
    ¬ ∀ (cfg : TCPConfig) (random : BitVec 32) (ops more : List Op) (x : Life),
      run step (start cfg random) ops = some x → x.conn.active = false →
      Throughout step (Silent x) x more := by
  intro hall
  have hreach : ∃ x, run step (start {} 0) [.segmentReceived bareRst] = some x
      ∧ x.conn.active = false ∧ x.conn.sender.segmentsOut = []
      ∧ ¬ Along step Mute x [.connect] := run_reaches (by decide)
  obtain ⟨x, hrun, hdead, hqueue, hloud⟩ := hreach
  exact hloud ((silent_iff_along hqueue [.connect]).mp
    (hall {} 0 [.segmentReceived bareRst] [.connect] x hrun hdead))

end SpongeShutdown
