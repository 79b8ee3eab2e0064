import Sponge.BlockMapProofs
import Sponge.ConnectionProofs
import Sponge.OldAckProofs

/-! # The life of one connection

    One endpoint on its own, with no assumption about its peer: any segment may
    arrive at any time, the owner calls the public operations in any order,
    reads the inbound stream and takes segments out of `segments_out()`.

    `sender_rule` and `receiver_rule` say once what an operation can do to the
    two halves: what is closed under the few things that happen to a sender
    (to a receiver) holds after every step.  `quiet_rule` is the first of them for
    what holds between the ticks.

    Two laws of `segment_received`, for any connection at all:

    * `raises_iff` — it raises exactly when a segment without `SYN`, `ACK` and
      `RST` comes before the peer's `SYN` (`raises_in_listen`);
    * `unflagged_acks_nothing_iff` — without the `ACK` flag the connection's own
      acknowledgement number goes to its own sender.  It acknowledges nothing
      exactly when the sender reads it as beyond the next number or as the last
      acknowledgement again; with equal initial sequence numbers it takes the
      `SYN` out of the queue (`own_ackno_acknowledges`). -/

namespace SpongeLifecycle

open SpongeByteStream SpongeWrapping SpongeSegment SpongeReceiver SpongeSender
open SpongeConnection SpongeOldAck RunRule IntervalChain

/-- A public operation of the connection, a read of its inbound stream, or the
    owner taking a segment out of `segments_out()`. -/
inductive Op where
  | connect
  | write (data : List Byte)
  | endInputStream
  | tick (ms : Nat)
  | segmentReceived (seg : TCPSegment)
  | read (len : Nat)
  | pop (len : Nat)
  | transmit
deriving DecidableEq, Repr

/-- A connection and its history. -/
structure Life where
  conn : TCPConnection
  /-- every segment that was appended to `segments_out()`, with the receiver at the
      end of the operation that appended it -/
  log : List (TCPSegment × TCPReceiver)
  /-- `end_input_stream` was called before the inbound stream ended -/
  closedFirst : Bool
  /-- the time since the last segment -/
  sinceSegment : Nat
deriving DecidableEq, Repr

def start (cfg : TCPConfig) (random : BitVec 32) : Life :=
  ⟨.new cfg random, [], false, 0⟩

/-- The connection changes, and what it appended is noted. -/
def Life.become (x : Life) (c : TCPConnection) : Life :=
  { x with
    conn := c
    log := x.log ++ (c.segmentsOut.drop x.conn.segmentsOut.length).map (·, c.receiver) }

/-- One step.  It is not enabled where the code raises. -/
def step [Popped] (x : Life) : Op → Option Life
  | .connect => some (x.become x.conn.connect)
  | .write data => some (x.become (x.conn.write data).2)
  | .endInputStream => some
      { x.become x.conn.endInputStream with
        closedFirst := x.closedFirst || !x.conn.receiver.streamOut.inputEnded }
  | .tick ms => some
      { x.become (x.conn.tick ms) with sinceSegment := x.sinceSegment + ms }
  | .segmentReceived seg =>
      (x.conn.segmentReceived seg).map fun c => { x.become c with sinceSegment := 0 }
  | .read len => some (x.become (x.conn.readInbound len))
  | .pop len => some (x.become (x.conn.popInbound len))
  | .transmit => some
      { x with conn := { x.conn with segmentsOut := x.conn.segmentsOut.tail } }

/-! ## What a step can do to the sender -/

/-- `I` survives whatever happens to a sender in an operation, where `W` allows a
    write and `H` allows an acknowledgement to be heard. -/
structure SenderSteps (W : TCPSender → Prop) (H : TCPSender → WrappingInt32 → Prop)
    (I : TCPSender → Prop) : Prop where
  queue : ∀ s queue, I s → I { s with segmentsOut := queue }
  fill : ∀ s, I s → I s.fillWindow
  wrote : ∀ s data, I s → W s → I { s with stream := (s.stream.write data).2 }.fillWindow
  ended : ∀ s, I s → I { s with stream := s.stream.endInput }.fillWindow
  heard : ∀ s ackno (window : BitVec 16), I s → H s ackno → I (s.ackReceived ackno window)
  tick : ∀ s ms, I s → I (s.tick ms)
  reset : ∀ s, I s → I (s.sendFlagsSegment false false true)
  error : ∀ s, I s → I { s with stream := s.stream.setError }

/-- The operation writes only where `W` allows it, and what it lets the sender
    hear is allowed by `H`. -/
def Meets (W : TCPSender → Prop) (H : TCPSender → WrappingInt32 → Prop) (x : Life) :
    Op → Prop
  | .write _ => W x.conn.sender
  | .segmentReceived seg =>
      seg.header.rst = false → ∀ ackno ∈ x.conn.heard seg, H x.conn.sender ackno
  | .connect => True
  | .endInputStream => True
  | .tick _ => True
  | .read _ => True
  | .pop _ => True
  | .transmit => True

instance {W : TCPSender → Prop} {H : TCPSender → WrappingInt32 → Prop} [DecidablePred W]
    [∀ s ackno, Decidable (H s ackno)] (x : Life) : ∀ op : Op, Decidable (Meets W H x op)
  | .write _ => inferInstanceAs (Decidable (W x.conn.sender))
  | .segmentReceived seg => inferInstanceAs (Decidable (seg.header.rst = false → _))
  | .connect => isTrue trivial
  | .endInputStream => isTrue trivial
  | .tick _ => isTrue trivial
  | .read _ => isTrue trivial
  | .pop _ => isTrue trivial
  | .transmit => isTrue trivial

/-- Where everything is allowed, every operation is. -/
theorem meets_of_always (x : Life) (op : Op) : Meets (fun _ => True) (fun _ _ => True) x op := by
  cases op <;> first | exact trivial | exact fun _ _ _ => trivial

/-- No write after `end_input_stream`. -/
def NoLateWrite : Life → Op → Prop :=
  Meets (fun s => s.stream.inputEnded = false) fun _ _ => True

instance (x : Life) (op : Op) : Decidable (NoLateWrite x op) :=
  inferInstanceAs (Decidable (Meets _ _ x op))

section SenderRule

variable {W : TCPSender → Prop} {H : TCPSender → WrappingInt32 → Prop}
  {I : TCPSender → Prop} {x y : Life} {op : Op}

/-- `I` survives what happens to a sender between the ticks. -/
structure QuietSteps (W : TCPSender → Prop) (H : TCPSender → WrappingInt32 → Prop)
    (I : TCPSender → Prop) : Prop where
  queue : ∀ s queue, I s → I { s with segmentsOut := queue }
  fill : ∀ s, I s → I s.fillWindow
  wrote : ∀ s data, I s → W s → I { s with stream := (s.stream.write data).2 }.fillWindow
  ended : ∀ s, I s → I { s with stream := s.stream.endInput }.fillWindow
  heard : ∀ s ackno (window : BitVec 16), I s → H s ackno → I (s.ackReceived ackno window)
  error : ∀ s, I s → I { s with stream := s.stream.setError }

theorem SenderSteps.quiet (h : SenderSteps W H I) : QuietSteps W H I :=
  ⟨h.queue, h.fill, h.wrote, h.ended, h.heard, h.error⟩

/-- The replies fill the window at most, and queue empty segments. -/
theorem QuietSteps.replies (h : QuietSteps W H I) {s : TCPSender} (hs : I s)
    (r : TCPReceiver) (seg : TCPSegment) :
    I (TCPConnection.replyToKeepAlive r (TCPConnection.replyToData s seg) seg) := by
  have hdata : I (TCPConnection.replyToData s seg) := by
    rw [TCPConnection.replyToData]
    split_ifs
    · exact h.queue _ _ (h.fill s hs)
    · exact h.fill s hs
    · exact hs
  rw [TCPConnection.replyToKeepAlive]
  split
  · split_ifs
    · exact h.queue _ _ hdata
    · exact hdata
  · exact hdata

/-- **BETWEEN THE TICKS**: what survives the few things that can happen to a sender there
    survives every step, if it survives the step's tick. -/
theorem quiet_rule (h : QuietSteps W H I) (hx : I x.conn.sender) (hop : Meets W H x op)
    (htick : ∀ ms, op = .tick ms → I (x.conn.tick ms).sender)
    (hstep : step x op = some y) : I y.conn.sender := by
  cases op with
  | connect =>
      rw [← Option.some.inj hstep]
      exact h.queue _ _ (h.fill _ hx)
  | write data =>
      rw [← Option.some.inj hstep]
      exact h.queue _ _ (h.wrote _ data hx hop)
  | endInputStream =>
      rw [← Option.some.inj hstep]
      show I x.conn.endInputStream.sender
      rw [TCPConnection.endInputStream]
      dsimp only
      split_ifs <;> exact h.queue _ _ (h.ended _ hx)
  | tick ms =>
      rw [← Option.some.inj hstep]
      exact htick ms rfl
  | segmentReceived seg =>
      obtain ⟨c, hc, heq⟩ := Option.map_eq_some_iff.mp hstep
      rw [← heq]
      show I c.sender
      rcases TCPConnection.segmentReceived_cases hc with ⟨-, hkilled⟩ | ⟨ackno, htaken⟩
      · rw [hkilled]
        exact h.error _ hx
      · rw [htaken.flushed.sender]
        refine h.queue _ _ (h.replies ?_ _ seg)
        exact h.heard _ _ _ hx (hop htaken.rst ackno htaken.heard)
  | read len =>
      rw [← Option.some.inj hstep]
      exact hx
  | pop len =>
      rw [← Option.some.inj hstep]
      exact hx
  | transmit =>
      rw [← Option.some.inj hstep]
      exact hx

/-- What a tick of the connection makes of its sender: a reset with an error mark once the
    retransmissions are used up, else a tick of the sender. -/
theorem tick_sender (c : TCPConnection) (ms : Nat) :
    (c.sender.consecutiveRetransmissions ≥ TCPConfig.maxRetxAttempts
      ∧ (c.tick ms).sender
        = { c.sender.sendFlagsSegment false false true with
            segmentsOut := []
            stream := (c.sender.sendFlagsSegment false false true).stream.setError })
    ∨ (c.sender.consecutiveRetransmissions < TCPConfig.maxRetxAttempts
      ∧ (c.tick ms).sender = { c.sender.tick ms with segmentsOut := [] }) := by
  rw [TCPConnection.tick]
  dsimp only
  split_ifs with hmax
  · exact Or.inl ⟨hmax, rfl⟩
  · rw [TCPConnection.closeIfDone]
    dsimp only
    split_ifs <;> exact Or.inr ⟨Nat.lt_of_not_le hmax, rfl⟩

/-- **THE SENDER RULE**: what survives the few things that can happen to a sender
    survives every step. -/
theorem sender_rule (h : SenderSteps W H I) (hx : I x.conn.sender) (hop : Meets W H x op)
    (hstep : step x op = some y) : I y.conn.sender := by
  refine quiet_rule h.quiet hx hop (fun ms _ => ?_) hstep
  rcases tick_sender x.conn ms with ⟨-, hsender⟩ | ⟨-, hsender⟩
  · have hreset := h.queue _ [] (h.reset _ hx)
    rw [hsender]
    exact h.error _ hreset
  · rw [hsender]
    exact h.queue _ _ (h.tick _ ms hx)

end SenderRule

/-! ## What a step can do to the receiver -/

/-- `I` survives whatever happens to a receiver in an operation. -/
structure ReceiverSteps (I : TCPReceiver → Prop) : Prop where
  segment : ∀ r seg, I r → I (r.segmentReceived seg)
  read : ∀ r len, I r → I (r.readOut len)
  pop : ∀ r len, I r → I (r.popOut len)
  error : ∀ r, I r → I r.setError

theorem tick_receiver (c : TCPConnection) (ms : Nat) :
    (c.tick ms).receiver = c.receiver ∨ (c.tick ms).receiver = c.receiver.setError := by
  cases c.tick_spec ms with
  | gaveUp _ _ _ receiver _ => exact Or.inr receiver
  | closed _ _ _ receiver _ _ _ => exact Or.inl receiver
  | passed _ _ _ receiver _ => exact Or.inl receiver

/-- **THE RECEIVER RULE**. -/
theorem receiver_rule {I : TCPReceiver → Prop} (h : ReceiverSteps I) {x y : Life} {op : Op}
    (hx : I x.conn.receiver) (hstep : step x op = some y) : I y.conn.receiver := by
  cases op with
  | connect =>
      rw [← Option.some.inj hstep]
      exact hx
  | write data =>
      rw [← Option.some.inj hstep]
      exact hx
  | endInputStream =>
      rw [← Option.some.inj hstep]
      show I x.conn.endInputStream.receiver
      obtain ⟨t, -, -, hreceiver, -⟩ := x.conn.endInputStream_spec
      rw [hreceiver]
      exact hx
  | tick ms =>
      rw [← Option.some.inj hstep]
      show I (x.conn.tick ms).receiver
      rcases tick_receiver x.conn ms with hr | hr
      · rw [hr]; exact hx
      · rw [hr]; exact h.error _ hx
  | segmentReceived seg =>
      obtain ⟨c, hc, heq⟩ := Option.map_eq_some_iff.mp hstep
      rw [← heq]
      show I c.receiver
      rcases TCPConnection.segmentReceived_cases hc with ⟨-, hkilled⟩ | ⟨ackno, htaken⟩
      · rw [hkilled]
        exact h.error _ hx
      · rw [htaken.receiver]
        exact h.segment _ seg hx
  | read len =>
      rw [← Option.some.inj hstep]
      exact h.read _ len hx
  | pop len =>
      rw [← Option.some.inj hstep]
      exact h.pop _ len hx
  | transmit =>
      rw [← Option.some.inj hstep]
      exact hx

/-- What moves one way from `r` to `r'`: the receiver gets further, more of its stream
    is read, the capacity and an error mark stay. -/
structure Onward (r r' : TCPReceiver) : Prop where
  progress : TCPReceiver.Progress r r'
  bytesRead : r.streamOut.bytesRead ≤ r'.streamOut.bytesRead
  capacity : r'.capacity = r.capacity
  error : r.streamOut.error = true → r'.streamOut.error = true

theorem Onward.refl (r : TCPReceiver) : Onward r r := ⟨.refl r, Nat.le_refl _, rfl, id⟩

/-- **THE RECEIVER GOES ONWARD** in every step. -/
theorem onward_steps (r : TCPReceiver) : ReceiverSteps (Onward r) where
  segment := by
    intro r' seg h
    have hframe := TCPReceiver.frame_segment r' seg
    refine ⟨h.progress.trans (TCPReceiver.progress_segment r' seg), ?_, ?_, fun he => ?_⟩
    · exact Nat.le_trans h.bytesRead (Nat.le_of_eq hframe.bytesRead.symm)
    · rw [← (r'.segmentReceived seg).sameCapacity, hframe.capacity, r'.sameCapacity]
      exact h.capacity
    · exact hframe.error.trans (h.error he)
  read := by
    intro r' len h
    have hp : TCPReceiver.Progress r' (r'.readOut len) :=
      ⟨fun hs => ⟨hs, rfl⟩, Nat.le_refl _, id⟩
    exact ⟨h.progress.trans hp, Nat.le_trans h.bytesRead (Nat.le_add_right _ _), h.capacity,
      h.error⟩
  pop := by
    intro r' len h
    have hp : TCPReceiver.Progress r' (r'.popOut len) :=
      ⟨fun hs => ⟨hs, rfl⟩, Nat.le_refl _, id⟩
    exact ⟨h.progress.trans hp, Nat.le_trans h.bytesRead (Nat.le_add_right _ _), h.capacity,
      h.error⟩
  error := by
    intro r' h
    have hp : TCPReceiver.Progress r' r'.setError := ⟨fun hs => ⟨hs, rfl⟩, Nat.le_refl _, id⟩
    exact ⟨h.progress.trans hp, h.bytesRead, h.capacity, fun _ => rfl⟩

/-! ## The sender's own queue -/

/-- After an operation nothing is left in the sender's own queue. -/
theorem queue_empty {x y : Life} {op : Op} (h : x.conn.sender.segmentsOut = [])
    (hstep : step x op = some y) : y.conn.sender.segmentsOut = [] := by
  cases op with
  | connect => rw [← Option.some.inj hstep]; rfl
  | write data => rw [← Option.some.inj hstep]; rfl
  | endInputStream =>
      rw [← Option.some.inj hstep]
      show x.conn.endInputStream.sender.segmentsOut = []
      obtain ⟨t, -, hflushed, -⟩ := x.conn.endInputStream_spec
      rw [hflushed.sender]
  | tick ms =>
      rw [← Option.some.inj hstep]
      show (x.conn.tick ms).sender.segmentsOut = []
      cases x.conn.tick_spec ms with
      | gaveUp t _ flushed _ _ => rw [flushed.sender]
      | closed t _ flushed _ _ _ _ => rw [flushed.sender]
      | passed t _ flushed _ _ => rw [flushed.sender]
  | segmentReceived seg =>
      obtain ⟨c, hc, heq⟩ := Option.map_eq_some_iff.mp hstep
      rw [← heq]
      show c.sender.segmentsOut = []
      rcases TCPConnection.segmentReceived_cases hc with ⟨-, hkilled⟩ | ⟨ackno, htaken⟩
      · rw [hkilled]
        exact h
      · rw [htaken.flushed.sender]
  | read len => rw [← Option.some.inj hstep]; exact h
  | pop len => rw [← Option.some.inj hstep]; exact h
  | transmit => rw [← Option.some.inj hstep]; exact h

theorem queue_empty_run {cfg : TCPConfig} {random : BitVec 32} {ops : List Op} {x : Life}
    (hrun : run step (start cfg random) ops = some x) : x.conn.sender.segmentsOut = [] :=
  run_keeps (I := fun x : Life => x.conn.sender.segmentsOut = [])
    (fun _ _ _ h hstep => queue_empty h hstep) rfl hrun

/-- The log grows by what was flushed. -/
theorem become_log {x : Life} {t : TCPSender} {c : TCPConnection}
    (h : TCPConnection.Flushed x.conn t c) :
    (x.become c).log
      = x.log ++ t.segmentsOut.map fun seg =>
        (TCPConnection.stamp c.receiver seg, c.receiver) := by
  show x.log ++ (c.segmentsOut.drop x.conn.segmentsOut.length).map (·, c.receiver) = _
  rw [h.segmentsOut, List.drop_left, List.map_map]
  rfl

/-- The log stays as it is exactly if nothing was appended. -/
theorem become_log_iff {x : Life} {c : TCPConnection} (out : List TCPSegment)
    {f : TCPSegment → TCPSegment} (h : c.segmentsOut = x.conn.segmentsOut ++ out.map f) :
    (x.become c).log = x.log ↔ out = [] := by
  show x.log ++ (c.segmentsOut.drop x.conn.segmentsOut.length).map (·, c.receiver) = _ ↔ _
  rw [h, List.drop_left, List.append_right_eq_self, List.map_eq_nil_iff, List.map_eq_nil_iff]

theorem become_log_same {x : Life} {c : TCPConnection}
    (h : c.segmentsOut = x.conn.segmentsOut) : (x.become c).log = x.log :=
  (become_log_iff [] (f := id) (h.trans (List.append_nil _).symm)).mpr rfl

/-! ## Which segments raise -/

/-- The receiver has an acknowledgement number once a `SYN` has come. -/
theorem ackno_eq_none_iff (r : TCPReceiver) (seg : TCPSegment) :
    (r.segmentReceived seg).ackno = none ↔ r.syn = false ∧ seg.header.syn = false := by
  constructor
  · intro hnone
    by_contra hpast
    have hsyn : r.syn = true ∨ seg.header.syn = true := by
      rcases not_and_or.mp hpast with h | h
      · exact Or.inl (Bool.eq_true_of_not_eq_false h)
      · exact Or.inr (Bool.eq_true_of_not_eq_false h)
    rw [TCPReceiver.ackno, (TCPReceiver.received hsyn).syn, if_pos rfl] at hnone
    exact absurd hnone (Option.some_ne_none _)
  · rintro ⟨hr, hs⟩
    rw [TCPReceiver.segmentReceived_ignored hr hs, TCPReceiver.ackno, hr]
    exact if_neg Bool.false_ne_true

/-- **WHICH SEGMENTS RAISE**: exactly those without `SYN`, `ACK` and `RST` before
    the peer's `SYN`. -/
theorem raises_iff (c : TCPConnection) (seg : TCPSegment) :
    c.segmentReceived seg = none
      ↔ seg.header.rst = false ∧ seg.header.ack = false
        ∧ c.receiver.syn = false ∧ seg.header.syn = false := by
  cases hrst : seg.header.rst with
  | true =>
      rw [TCPConnection.segmentReceived_reset hrst]
      exact ⟨fun h => absurd h (Option.some_ne_none _),
        fun h => absurd h.1.symm Bool.false_ne_true⟩
  | false =>
      rw [TCPConnection.segmentReceived_eq hrst, Option.map_eq_none_iff, TCPConnection.heard]
      cases hack : seg.header.ack with
      | true =>
          rw [if_pos rfl]
          exact ⟨fun h => absurd h (Option.some_ne_none _),
            fun h => absurd h.2.1.symm Bool.false_ne_true⟩
      | false =>
          rw [if_neg Bool.false_ne_true, ackno_eq_none_iff]
          exact ⟨fun h => ⟨rfl, rfl, h⟩, fun h => h.2.2⟩

/-- **RAISES IN LISTEN**: one byte without any flag. -/
theorem raises_in_listen :
    ¬ ∀ (cfg : TCPConfig) (random : BitVec 32) (ops : List Op) (x : Life)
      (seg : TCPSegment), run step (start cfg random) ops = some x →
      x.conn.segmentReceived seg ≠ none := by
  intro hall
  exact hall {} 0 [] _ (oneByte 0) rfl rfl

/-! ## What a segment without the `ACK` flag acknowledges -/

/-- Nothing has left the queue of outstanding segments, and the base is where it
    was. -/
def Unacknowledged (s s' : TCPSender) : Prop :=
  s'.absAckno = s.absAckno ∧ s.outstandingSegments <+: s'.outstandingSegments

/-- What filling adds to the queue lies at or beyond the next number and is not
    empty. -/
theorem fills_beyond {s t : TCPSender} {l : List (Nat × TCPSegment)}
    (h : TCPSender.Fills s l t) :
    ∀ p ∈ l, s.nextSeqno ≤ p.1 ∧ 0 < p.2.lengthInSequenceSpace := by
  induction h with
  | done s => exact fun p hp => nomatch hp
  | @emit s s' t seg l head rest ih =>
      intro p hp
      rcases List.mem_cons.mp hp with heq | hmem
      · rw [heq]
        exact ⟨Nat.le_refl _, head.occupies⟩
      · have hnext := head.nextSeqno
        obtain ⟨hle, hpos⟩ := ih p hmem
        exact ⟨by omega, hpos⟩

/-- Once filled, a window that is filled again stays as it is: hearing and
    replying adds one sequence of new segments. -/
theorem answer_fills (c : TCPConnection) (seg : TCPSegment) (ackno : WrappingInt32) :
    ∃ l t queue, TCPSender.Fills (c.sender.noteAck ackno seg.header.win).2 l t
      ∧ c.answer seg ackno = { t with segmentsOut := queue } := by
  have hkeep : ∀ (r : TCPReceiver) (s : TCPSender), ∃ queue,
      TCPConnection.replyToKeepAlive r s seg = { s with segmentsOut := queue } := by
    intro r s
    rw [TCPConnection.replyToKeepAlive]
    split
    · split_ifs
      · exact ⟨_, rfl⟩
      · exact ⟨s.segmentsOut, rfl⟩
    · exact ⟨s.segmentsOut, rfl⟩
  have hdata : ∀ s : TCPSender, ∃ l t queue, TCPSender.Fills s l t
      ∧ TCPConnection.replyToData s seg = { t with segmentsOut := queue } := by
    intro s
    obtain ⟨⟨l, hl⟩, -⟩ := TCPSender.fillWindow_fills s
    rw [TCPConnection.replyToData]
    split_ifs
    · exact ⟨l, _, _, hl, rfl⟩
    · exact ⟨l, _, s.fillWindow.segmentsOut, hl, rfl⟩
    · exact ⟨[], s, s.segmentsOut, .done s, rfl⟩
  rw [TCPConnection.answer]
  obtain ⟨queue, hqueue⟩ := hkeep (c.receiver.segmentReceived seg)
    (TCPConnection.replyToData (c.sender.ackReceived ackno seg.header.win) seg)
  rw [hqueue]
  generalize hn : c.sender.noteAck ackno seg.header.win = n
  obtain ⟨go, s⟩ := n
  cases go with
  | false =>
      rw [TCPSender.ackReceived_ignored (by rw [hn]), hn]
      obtain ⟨l, t, queue', hl, ht⟩ := hdata s
      exact ⟨l, t, queue, hl, by rw [ht]⟩
  | true =>
      rw [TCPSender.ackReceived_noted (by rw [hn]), hn]
      obtain ⟨⟨l, hl⟩, hstop⟩ := TCPSender.fillWindow_fills s
      obtain ⟨l', t, queue', hl', ht⟩ := hdata s.fillWindow
      cases hl' with
      | done => exact ⟨l, _, queue, hl, by rw [ht]⟩
      | emit head _ => exact absurd head hstop.not_emitted

/-- A queue whose acknowledged front is cut off and which then grows beyond `next`
    is a prefix of what it becomes iff nothing was cut off. -/
theorem kept_iff {out popped rest new : List (Nat × TCPSegment)} {upTo next : Nat}
    (hqueue : out = popped ++ rest) (hreached : upTo ≤ next)
    (hacks : ∀ p ∈ popped, p.1 + p.2.lengthInSequenceSpace ≤ upTo)
    (hfront : ∀ front tail, rest = front :: tail →
      upTo < front.1 + front.2.lengthInSequenceSpace)
    (hnew : ∀ p ∈ new, next ≤ p.1 ∧ 0 < p.2.lengthInSequenceSpace) :
    out <+: rest ++ new
      ↔ ∀ front ∈ out.head?, upTo < front.1 + front.2.lengthInSequenceSpace := by
  cases popped with
  | nil =>
      rw [hqueue]
      refine ⟨fun _ front hhead => ?_, fun _ => List.prefix_append _ _⟩
      obtain ⟨tail, htail⟩ := List.head?_eq_some_iff.mp hhead
      exact hfront front tail htail
  | cons p ps =>
      have hend := hacks p (List.mem_cons_self ..)
      rw [hqueue]
      constructor
      · -- the acknowledged front would have to be the new front as well
        rintro ⟨more, hmore⟩
        cases rest with
        | nil =>
            have hmem : p ∈ new := by
              rw [← show _ = new from hmore]
              exact List.mem_cons_self ..
            obtain ⟨hle, hpos⟩ := hnew p hmem
            omega
        | cons q qs =>
            have hpq : p = q := (List.cons.inj hmore).1
            have hlt := hfront q qs rfl
            rw [← hpq] at hlt
            omega
      · intro hhead
        have hlt := hhead p rfl
        omega

/-- Hearing an accepted acknowledgement and replying takes nothing out of the queue iff
    the oldest segment is not covered. -/
theorem answer_keeps_iff (c : TCPConnection) (seg : TCPSegment) (ackno : WrappingInt32)
    (hreached : ackedTo c.sender ackno ≤ c.sender.nextSeqno) :
    c.sender.outstandingSegments <+: (c.answer seg ackno).outstandingSegments
      ↔ ∀ front ∈ c.sender.outstandingSegments.head?,
        ackedTo c.sender ackno < front.1 + front.2.lengthInSequenceSpace := by
  obtain ⟨l, t, queue, hfills, hanswer⟩ := answer_fills c seg ackno
  rcases noteAck_ackedTo c.sender ackno seg.header.win with ⟨hgt, -⟩ | ⟨-, popped, hacked⟩
  · exact absurd hgt (Nat.not_lt.mpr hreached)
  · have hnew := fills_beyond hfills
    rw [hacked.same.nextSeqno] at hnew
    rw [hanswer]
    dsimp only
    rw [hfills.outstanding]
    exact kept_iff hacked.queue hacked.reached hacked.acked hacked.front hnew

/-- Hearing an acknowledgement and replying takes nothing out of the queue, and
    leaves the base, exactly when it is beyond the next number or the last one
    again. -/
theorem unacknowledged_iff (c : TCPConnection) (seg : TCPSegment) (ackno : WrappingInt32) :
    Unacknowledged c.sender (c.answer seg ackno) ↔ Unmoved c.sender ackno := by
  obtain ⟨l, t, queue, hfills, hanswer⟩ := answer_fills c seg ackno
  rw [Unacknowledged, Unmoved]
  rcases noteAck_ackedTo c.sender ackno seg.header.win
    with ⟨hgt, hnote⟩ | ⟨-, popped, hacked⟩
  · rw [hanswer]
    dsimp only
    rw [hfills.same.absAckno, hfills.outstanding, hnote]
    exact ⟨fun _ => Or.inl hgt, fun _ => ⟨rfl, List.prefix_append _ _⟩⟩
  · have hbase : (c.answer seg ackno).absAckno = ackedTo c.sender ackno := by
      rw [hanswer]
      exact hfills.same.absAckno.trans hacked.absAckno
    rw [hbase, answer_keeps_iff c seg ackno hacked.reached,
      or_iff_right (Nat.not_lt.mpr hacked.reached)]
    refine and_congr_right fun hsame => ?_
    rw [hsame]

/-- **WITHOUT THE FLAG**: a segment without `ACK` and `RST` that does not raise
    makes the sender hear the connection's own acknowledgement number.  It
    acknowledges nothing exactly when that number leaves the sender unmoved. -/
theorem unflagged_acks_nothing_iff (c c' : TCPConnection) (seg : TCPSegment)
    (hack : seg.header.ack = false) (hrst : seg.header.rst = false)
    (hc : c.segmentReceived seg = some c') :
    ∃ own, (c.receiver.segmentReceived seg).ackno = some own
      ∧ (Unacknowledged c.sender c'.sender ↔ Unmoved c.sender own) := by
  rcases TCPConnection.segmentReceived_cases hc with ⟨hreset, -⟩ | ⟨own, htaken⟩
  · rw [hrst] at hreset
    exact absurd hreset Bool.false_ne_true
  · have hheard := htaken.heard
    rw [TCPConnection.heard, hack, if_neg Bool.false_ne_true] at hheard
    refine ⟨own, hheard, ?_⟩
    rw [htaken.flushed.sender]
    exact unacknowledged_iff c seg own

/-- A `SYN` with the given sequence number, and nothing else. -/
def bareSyn (seqno : BitVec 32) : TCPSegment := { header := { seqno := ⟨seqno⟩, syn := true } }

/-- **ITS OWN NUMBER ACKNOWLEDGES**: both ends open at once, with the same initial
    sequence number; the peer's `SYN` takes our own out of the queue. -/
theorem own_ackno_acknowledges :
    ¬ ∀ (cfg : TCPConfig) (random : BitVec 32) (ops : List Op) (x : Life)
      (seg : TCPSegment) (c : TCPConnection),
      run step (start cfg random) ops = some x → seg.header.ack = false →
      seg.header.rst = false → x.conn.segmentReceived seg = some c →
      Unacknowledged x.conn.sender c.sender := by
  intro hall
  have hreach : ∃ x, run step (start { fixedIsn := some ⟨7⟩ } 0) [.connect] = some x
      ∧ x.conn.sender.absAckno = 0
      ∧ (x.conn.segmentReceived (bareSyn 7)).any
        (fun c => c.sender.absAckno == 1) = true :=
    run_reaches (by decide)
  obtain ⟨x, hrun, habs, hany⟩ := hreach
  cases hc : x.conn.segmentReceived (bareSyn 7) with
  | none => rw [hc] at hany; exact Bool.noConfusion hany
  | some c =>
      rw [hc] at hany
      have hone : c.sender.absAckno = 1 := beq_iff_eq.mp hany
      have hsame := (hall _ 0 [.connect] x (bareSyn 7) c hrun rfl rfl hc).1
      omega

/-- With initial sequence numbers far apart the number is beyond the next one. -/
theorem unflagged_acks_nothing_iff_apart :
    ∃ x c, run step (start { fixedIsn := some ⟨7⟩ } 0) [.connect] = some x
      ∧ x.conn.segmentReceived (bareSyn 1000) = some c
      ∧ Unacknowledged x.conn.sender c.sender := by
  have hreach : ∃ x, run step (start { fixedIsn := some ⟨7⟩ } 0) [.connect] = some x
      ∧ (x.conn.segmentReceived (bareSyn 1000)).isSome = true
      ∧ ∀ own ∈ (x.conn.receiver.segmentReceived (bareSyn 1000)).ackno,
        Unmoved x.conn.sender own :=
    run_reaches (by decide)
  obtain ⟨x, hrun, hsome, hown⟩ := hreach
  obtain ⟨c, hc⟩ := Option.isSome_iff_exists.mp hsome
  obtain ⟨own, hackno, hiff⟩ := unflagged_acks_nothing_iff x.conn c (bareSyn 1000) rfl rfl hc
  exact ⟨x, c, hrun, hc, hiff.mpr (hown own hackno)⟩

/-- No segment ends the outbound stream. -/
theorem answer_inputEnded (c : TCPConnection) (seg : TCPSegment) (ackno : WrappingInt32) :
    (c.answer seg ackno).stream.inputEnded = c.sender.stream.inputEnded := by
  obtain ⟨l, t, queue, hfills, hanswer⟩ := answer_fills c seg ackno
  rw [hanswer]
  refine hfills.same.inputEnded.trans ?_
  rcases noteAck_ackedTo c.sender ackno seg.header.win with ⟨-, hnote⟩ | ⟨-, popped, hacked⟩
  · rw [hnote]
  · rw [hacked.same.stream]

/-! ## The queue of outstanding segments -/

/-- The queue covers the numbers from `lo` up to the next one. -/
def Tiled (lo : Nat) (s : TCPSender) : Prop :=
  Chain TCPSegment.lengthInSequenceSpace lo s.outstandingSegments s.nextSeqno

section Queue

variable {s t : TCPSender} {lo : Nat}

/-- The bytes in flight are the numbers the queue covers. -/
theorem Tiled.bytesInFlight (h : Tiled lo s) : lo + s.bytesInFlight = s.nextSeqno := h.sum

theorem Tiled.emit {seg : TCPSegment} (h : Tiled lo s) (hem : s.Emitted seg t) :
    Tiled lo t := by
  rw [Tiled, hem.outstanding, hem.nextSeqno]
  exact Chain.snoc h seg

theorem Tiled.fillWindow (h : Tiled lo s) : Tiled lo s.fillWindow := by
  obtain ⟨⟨l, hl⟩, -⟩ := TCPSender.fillWindow_fills s
  generalize s.fillWindow = t at hl
  induction hl with
  | done s => exact h
  | emit head _ ih => exact ih (h.emit head)

theorem Tiled.tick (h : Tiled lo s) (ms : Nat) : Tiled lo (s.tick ms) := by
  have ht := s.ticked ms
  rw [Tiled, ht.outstanding, ht.nextSeqno]
  exact h

theorem Tiled.reset (h : Tiled lo s) : Tiled lo (s.sendFlagsSegment false false true) :=
  Chain.snoc h _

/-- An acknowledgement cuts the queue; what is left starts no later than the
    acknowledgement, if it did before. -/
theorem Tiled.acked {upTo : Nat} {window : BitVec 16} {popped : List (Nat × TCPSegment)}
    (h : Tiled lo s) (ha : s.Acked upTo window popped t) :
    ∃ mid, Tiled mid t ∧ lo ≤ mid ∧ (lo ≤ upTo → mid ≤ upTo) := by
  rw [Tiled, ha.queue] at h
  obtain ⟨mid, hpopped, hrest⟩ := chain_append.mp h
  refine ⟨mid, ?_, hpopped.le, fun hlo => hpopped.end_le hlo ha.acked⟩
  rw [Tiled, ha.same.nextSeqno]
  exact hrest

end Queue

end SpongeLifecycle
