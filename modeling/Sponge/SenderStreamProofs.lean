import Sponge.BlockMapProofs
import Sponge.SenderProofs

/-! # What the sender puts on the wire

    A run writes, ends the input, fills the window, acknowledges with any
    number and any window, lets time pass and sends empty segments, in any
    order.  Two laws:

    * `within_window_iff` — every new segment ends inside the window exactly
      as long as the window is not filled while its right edge lies to the left
      of the next number: there the free space wraps (`sent_past_the_edge`);
    * `stream_integrity` — the new segments tile the sequence space, carry the
      accepted bytes in order and are all sent, and a tick sends nothing but the
      oldest of them. -/

namespace SpongeSenderStream

open SpongeByteStream SpongeWrapping SpongeSegment SpongeSender Word64 RunRule
open IntervalChain TCPSender

/-- A call on the sender or on its stream. -/
inductive Op where
  | write (data : List Byte)
  | endInput
  | fillWindow
  | ackReceived (ackno : WrappingInt32) (windowSize : BitVec 16)
  | tick (ms : Nat)
  | sendEmptySegment
deriving DecidableEq, Repr

/-- A segment at the moment it was created: the number it starts at, and the
    right edge of the window. -/
structure Created where
  start : Nat
  segment : TCPSegment
  rightEdge : Nat
deriving DecidableEq, Repr

/-- A sender with the history of its run: the bytes its stream accepted and
    the segments `fill_window` created. -/
structure History where
  sender : TCPSender
  accepted : List Byte
  created : List Created
deriving DecidableEq, Repr

/-- The right edge of the window. -/
def edge (s : TCPSender) : Nat := s.absAckno + max s.windowSize 1

/-- What `fill_window` adds to the queue when it is called on `s`. -/
def newSegments (s : TCPSender) : List Created :=
  (s.fillWindow.outstandingSegments.drop s.outstandingSegments.length).map
    fun p => ⟨p.1, p.2, edge s⟩

def start (capacity : UInt64) (retxTimeout : BitVec 16) (isn : WrappingInt32) : History :=
  ⟨.new capacity retxTimeout (some isn) 0, [], []⟩

/-- One call.  Every call is possible in every state. -/
def step (x : History) : Op → Option History
  | .write data => some
      { x with
        sender := { x.sender with stream := (x.sender.stream.write data).2 }
        accepted := x.accepted ++ data.take (x.sender.stream.write data).1 }
  | .endInput => some
      { x with sender := { x.sender with stream := x.sender.stream.endInput } }
  | .fillWindow => some
      { x with
        sender := x.sender.fillWindow
        created := x.created ++ newSegments x.sender }
  | .ackReceived ackno windowSize => some
      { x with
        sender := x.sender.ackReceived ackno windowSize
        created := x.created ++
          if (x.sender.noteAck ackno windowSize).1 then
            newSegments (x.sender.noteAck ackno windowSize).2
          else [] }
  | .tick ms => some { x with sender := x.sender.tick ms }
  | .sendEmptySegment => some { x with sender := x.sender.sendEmptySegment }

theorem step_enabled (x : History) (op : Op) : ∃ y, step x op = some y := by
  cases op <;> exact ⟨_, rfl⟩

/-- The new segments are the emissions, and they go on until nothing can be
    sent. -/
theorem newSegments_fills (s : TCPSender) :
    ∃ l, Fills s l s.fillWindow ∧ Stopped s.fillWindow
      ∧ newSegments s = l.map fun p => ⟨p.1, p.2, edge s⟩ := by
  obtain ⟨⟨l, hl⟩, hstop⟩ := fillWindow_fills s
  refine ⟨l, hl, hstop, ?_⟩
  rw [newSegments, hl.outstanding, List.drop_left]

/-- A run's state after `fill_window`. -/
def filled (x : History) : History :=
  { x with sender := x.sender.fillWindow, created := x.created ++ newSegments x.sender }

theorem filled_eq (x : History) (s : TCPSender) :
    filled { x with sender := s } = ⟨s.fillWindow, x.accepted, x.created ++ newSegments s⟩ :=
  rfl

/-- A run's state after one emission. -/
def emitted (x : History) (seg : TCPSegment) (s : TCPSender) : History :=
  { x with
    sender := s
    created := x.created ++ [⟨x.sender.nextSeqno, seg, edge x.sender⟩] }

theorem edge_congr {s s' : TCPSender} (h : SameControl s s') : edge s' = edge s := by
  rw [edge, edge, h.absAckno, h.windowSize]

/-- **THE FILL RULE**: what every emission keeps, filling keeps. -/
theorem filled_invariant {I : History → Prop}
    (hem : ∀ x seg s, I x → Emitted x.sender seg s → I (emitted x seg s))
    {x : History} (hx : I x) : I (filled x) := by
  obtain ⟨l, hl, -, hnew⟩ := newSegments_fills x.sender
  rw [filled, hnew]
  clear hnew
  obtain ⟨s, accepted, created⟩ := x
  dsimp only at hl ⊢
  generalize s.fillWindow = t at hl
  -- on the emissions; the edge is the same in front of each of them
  induction hl generalizing created with
  | done s =>
      rw [List.map_nil, List.append_nil]
      exact hx
  | emit head rest ih =>
      have hnext := ih _ (hem _ _ _ hx head)
      rw [edge_congr head.same] at hnext
      rw [List.map_cons, ← List.singleton_append, ← List.append_assoc]
      exact hnext

/-- An acknowledgement is ignored but for its window, or it pops the queue and
    fills the window. -/
theorem step_ack {x y : History} {ackno : WrappingInt32} {window : BitVec 16}
    (hstep : step x (.ackReceived ackno window) = some y) :
    (x.sender.nextSeqno < unwrap ackno x.sender.isn (x.sender.absAckno + 1)
      ∧ y = { x with sender := { x.sender with windowSize := window.toNat } })
    ∨ ∃ popped s, Acked x.sender (unwrap ackno x.sender.isn (x.sender.absAckno + 1))
        window popped s ∧ y = filled { x with sender := s } := by
  have hy : History.mk (x.sender.ackReceived ackno window) x.accepted (x.created ++
      if (x.sender.noteAck ackno window).1 = true then
        newSegments (x.sender.noteAck ackno window).2
      else []) = y := Option.some.inj hstep
  rw [← hy]
  rcases noteAck_cases x.sender ackno window with ⟨hgt, heq⟩ | ⟨hgo, popped, hacked⟩
  · refine Or.inl ⟨hgt, ?_⟩
    rw [ackReceived_ignored (congrArg Prod.fst heq), heq, if_neg Bool.false_ne_true,
      List.append_nil]
  · refine Or.inr ⟨popped, _, hacked, ?_⟩
    rw [ackReceived_noted hgo, if_pos hgo, filled_eq]

/-! ## Flow control -/

/-- Every segment was created inside the window. -/
def WithinWindow (x : History) : Prop :=
  ∀ c ∈ x.created, c.start + c.segment.lengthInSequenceSpace ≤ c.rightEdge

/-- The absolute numbers are 64-bit numbers. -/
def Fits64 (x : History) (_ : Op) : Prop := x.sender.nextSeqno < 2 ^ 64

/-- The window is filled only when its edge is not to the left of the next
    number, or when there is nothing to send. -/
def FitsWindow (x : History) : Op → Prop
  | .fillWindow =>
      x.sender.nextSeqno ≤ x.sender.absAckno + max x.sender.windowSize 1
        ∨ x.sender.segmentNeeded = false
  | .ackReceived ackno windowSize =>
      x.sender.nextSeqno < unwrap ackno x.sender.isn (x.sender.absAckno + 1)
        ∨ x.sender.nextSeqno
          ≤ unwrap ackno x.sender.isn (x.sender.absAckno + 1) + max windowSize.toNat 1
        ∨ x.sender.segmentNeeded = false
  | .write _ => True
  | .endInput => True
  | .tick _ => True
  | .sendEmptySegment => True

instance (x : History) (op : Op) : Decidable (Fits64 x op) :=
  inferInstanceAs (Decidable (x.sender.nextSeqno < 2 ^ 64))

instance (x : History) : ∀ op : Op, Decidable (FitsWindow x op)
  | .fillWindow => inferInstanceAs (Decidable (_ ∨ _))
  | .ackReceived _ _ => inferInstanceAs (Decidable (_ ∨ _ ∨ _))
  | .write _ => isTrue trivial
  | .endInput => isTrue trivial
  | .tick _ => isTrue trivial
  | .sendEmptySegment => isTrue trivial

/-- The acknowledged number is not beyond the next one, the window is a 16-bit
    number, and every segment was created inside the window. -/
structure Controlled (x : History) : Prop where
  acked : x.sender.absAckno ≤ x.sender.nextSeqno
  window : x.sender.windowSize < 2 ^ 16
  within : WithinWindow x

/-- Up to the edge the free space does not wrap. -/
theorem availableSpace_of_le {s : TCPSender} (hw : s.windowSize < 2 ^ 16)
    (ha : s.absAckno ≤ s.nextSeqno) (hle : s.nextSeqno ≤ edge s) :
    s.availableSpace = edge s - s.nextSeqno := by
  rw [availableSpace_eq]
  refine sub64_of_le hle ?_
  omega

/-- An emission inside the window ends inside it. -/
theorem Controlled.emit {x : History} {seg : TCPSegment} {s : TCPSender}
    (h : Controlled x ∧ x.sender.nextSeqno ≤ edge x.sender)
    (hem : Emitted x.sender seg s) :
    Controlled (emitted x seg s)
      ∧ (emitted x seg s).sender.nextSeqno ≤ edge (emitted x seg s).sender := by
  obtain ⟨hc, hle⟩ := h
  have hspace := availableSpace_of_le hc.window hc.acked hle
  have hfits := hem.fits
  have hnext := hem.nextSeqno
  have hacked := hc.acked
  refine ⟨⟨?_, ?_, ?_⟩, ?_⟩
  · show s.absAckno ≤ s.nextSeqno
    rw [hem.same.absAckno, hnext]
    omega
  · show s.windowSize < 2 ^ 16
    rw [hem.same.windowSize]
    exact hc.window
  · intro c hmem
    rcases List.mem_append.mp hmem with hold | hnew
    · exact hc.within c hold
    · rw [List.mem_singleton.mp hnew]
      dsimp only
      omega
  · show s.nextSeqno ≤ edge s
    rw [edge_congr hem.same, hnext]
    omega

/-- Filling from inside the window stays inside it. -/
theorem Controlled.fill {x : History} (h : Controlled x)
    (hfit : x.sender.nextSeqno ≤ edge x.sender ∨ x.sender.segmentNeeded = false) :
    Controlled (filled x) := by
  rcases hfit with hle | hidle
  · exact (filled_invariant
      (I := fun x => Controlled x ∧ x.sender.nextSeqno ≤ edge x.sender)
      (fun _ _ _ h hem => Controlled.emit h hem) ⟨h, hle⟩).1
  · -- with nothing to send there is no emission
    obtain ⟨l, hl, -, hnew⟩ := newSegments_fills x.sender
    rw [filled, hnew]
    generalize x.sender.fillWindow = t at hl
    cases hl with
    | done =>
        rw [List.map_nil, List.append_nil]
        exact h
    | emit head _ =>
        rw [head.needed] at hidle
        exact absurd hidle Bool.noConfusion

/-- Filling from beyond the window creates a segment beyond it. -/
theorem filled_past_edge {x : History} (h64 : x.sender.nextSeqno < 2 ^ 64)
    (hgt : edge x.sender < x.sender.nextSeqno)
    (hneed : x.sender.segmentNeeded = true) : ¬ WithinWindow (filled x) := by
  obtain ⟨l, hl, hstop, hnew⟩ := newSegments_fills x.sender
  intro hwithin
  rw [filled, hnew] at hwithin
  generalize x.sender.fillWindow = t at hl hstop hwithin
  cases hl with
  | done =>
      -- the space has wrapped, so the loop does not stop here
      have hspace : x.sender.availableSpace ≠ 0 := by
        rw [availableSpace_eq]
        show sub64 (edge x.sender) x.sender.nextSeqno ≠ 0
        rw [sub64_of_lt hgt (by omega)]
        omega
      rcases hstop with h0 | h0
      · exact hspace h0
      · rw [hneed] at h0
        exact absurd h0 Bool.noConfusion
  | emit head rest =>
      have hin := hwithin _ (List.mem_append.mpr (Or.inr (List.mem_cons_self ..)))
      dsimp only at hin
      omega

/-- A step that fits keeps every segment inside the window. -/
theorem Controlled.fits {x y : History} {op : Op} (h : Controlled x)
    (hfit : FitsWindow x op) (hstep : step x op = some y) : Controlled y := by
  cases op with
  | write data => rw [← Option.some.inj hstep]; exact ⟨h.acked, h.window, h.within⟩
  | endInput => rw [← Option.some.inj hstep]; exact ⟨h.acked, h.window, h.within⟩
  | sendEmptySegment =>
      rw [← Option.some.inj hstep]; exact ⟨h.acked, h.window, h.within⟩
  | tick ms =>
      rw [← Option.some.inj hstep]
      have ht := ticked x.sender ms
      refine ⟨?_, ?_, h.within⟩
      · show (x.sender.tick ms).absAckno ≤ (x.sender.tick ms).nextSeqno
        rw [ht.absAckno, ht.nextSeqno]
        exact h.acked
      · show (x.sender.tick ms).windowSize < 2 ^ 16
        rw [ht.windowSize]
        exact h.window
  | fillWindow =>
      rw [← Option.some.inj hstep]
      exact h.fill hfit
  | ackReceived ackno window =>
      rcases step_ack hstep with ⟨-, hy⟩ | ⟨popped, s, hacked, hy⟩
      · rw [hy]
        exact ⟨h.acked, window.isLt, h.within⟩
      · have hs : Controlled { x with sender := s } := by
          refine ⟨?_, ?_, h.within⟩
          · show s.absAckno ≤ s.nextSeqno
            rw [hacked.absAckno, hacked.same.nextSeqno]
            exact hacked.reached
          · show s.windowSize < 2 ^ 16
            rw [hacked.windowSize]
            exact window.isLt
        rw [hy]
        refine hs.fill ?_
        have hreached := hacked.reached
        have hneed : s.segmentNeeded = x.sender.segmentNeeded := by
          rw [segmentNeeded, segmentNeeded, hacked.same.nextSeqno, hacked.same.stream]
        show s.nextSeqno ≤ edge s ∨ s.segmentNeeded = false
        rw [edge, hneed, hacked.same.nextSeqno, hacked.absAckno, hacked.windowSize]
        exact hfit.resolve_left (by omega)

/-- A step that does not fit creates a segment outside the window. -/
theorem not_within {x y : History} {op : Op} (h64 : Fits64 x op)
    (hfit : ¬ FitsWindow x op) (hstep : step x op = some y) : ¬ WithinWindow y := by
  cases op with
  | write data => exact absurd trivial hfit
  | endInput => exact absurd trivial hfit
  | tick ms => exact absurd trivial hfit
  | sendEmptySegment => exact absurd trivial hfit
  | fillWindow =>
      obtain ⟨hgt, hneed⟩ := not_or.mp hfit
      rw [← Option.some.inj hstep]
      exact filled_past_edge h64 (Nat.lt_of_not_le hgt) ((Bool.not_eq_false _).mp hneed)
  | ackReceived ackno window =>
      obtain ⟨hle, hfit⟩ := not_or.mp hfit
      obtain ⟨hgt, hneed⟩ := not_or.mp hfit
      rcases step_ack hstep with ⟨hbeyond, -⟩ | ⟨popped, s, hacked, hy⟩
      · omega
      · have hneed' : s.segmentNeeded = x.sender.segmentNeeded := by
          rw [segmentNeeded, segmentNeeded, hacked.same.nextSeqno, hacked.same.stream]
        rw [hy]
        refine filled_past_edge ?_ ?_ ?_
        · show s.nextSeqno < 2 ^ 64
          rw [hacked.same.nextSeqno]
          exact h64
        · show edge s < s.nextSeqno
          rw [edge, hacked.same.nextSeqno, hacked.absAckno, hacked.windowSize]
          exact Nat.lt_of_not_le hgt
        · rw [hneed']
          exact (Bool.not_eq_false _).mp hneed

/-- **FLOW CONTROL, EXACTLY**: every segment of a run is created inside the
    window iff the window is never filled past its edge. -/
theorem within_window_iff (capacity : UInt64) (retxTimeout : BitVec 16)
    (isn : WrappingInt32) (ops : List Op)
    (hops : Along step Fits64 (start capacity retxTimeout isn) ops) :
    Throughout step WithinWindow (start capacity retxTimeout isn) ops
      ↔ Along step FitsWindow (start capacity retxTimeout isn) ops := by
  refine throughout_iff_along (I := Controlled) (fun _ h => h.within)
    (fun x op _ _ _ => step_enabled x op) ?_ ?_ ops _ ?_ hops
  · intro x op y h _ hfit hstep
    exact h.fits hfit hstep
  · intro x op y _ h64 hfit hstep
    exact not_within h64 hfit hstep
  · exact ⟨Nat.le_refl 0, (by decide : 1 < 2 ^ 16), fun _ hc => nomatch hc⟩

/-- A `SYN`, its acknowledgement with a window of two, and three bytes. -/
theorem within_window_iff_small_window :
    Throughout step WithinWindow (start 8 1000 ⟨0⟩)
      [.fillWindow, .ackReceived ⟨1⟩ 2, .write [97, 98, 99], .fillWindow] :=
  (within_window_iff 8 1000 ⟨0⟩
    [.fillWindow, .ackReceived ⟨1⟩ 2, .write [97, 98, 99], .fillWindow]
    (by decide)).mpr (by decide)

/-- **SENT PAST THE EDGE**: three bytes are in flight when the window shrinks
    to one; the free space wraps and a fourth byte is sent beyond the edge. -/
theorem sent_past_the_edge :
    ¬ ∀ (capacity : UInt64) (retxTimeout : BitVec 16) (isn : WrappingInt32)
      (ops : List Op), Along step Fits64 (start capacity retxTimeout isn) ops →
      Throughout step WithinWindow (start capacity retxTimeout isn) ops := by
  intro hall
  have hthr := hall 8 1000 ⟨0⟩
    [.fillWindow, .ackReceived ⟨1⟩ 3, .write [97, 98, 99, 100], .fillWindow,
      .ackReceived ⟨1⟩ 1] (by decide)
  have hlast : WithinWindow _ :=
    ((((hthr.2 _ rfl).2 _ rfl).2 _ rfl).2 _ rfl).2 _ rfl
  revert hlast
  rw [WithinWindow]
  decide

/-! ## Stream integrity -/

/-- The created segments, each with the number it starts at. -/
def History.sent (x : History) : List (Nat × TCPSegment) :=
  x.created.map fun c => (c.start, c.segment)

/-- The created segments tile the numbers below the next one; they are
    numbered by their start, the first one alone is a `SYN`, none is too long;
    their payloads, and then the bytes that wait, are the accepted bytes; and
    a `FIN` is the last number of all, after the last byte. -/
structure Integrity (x : History) : Prop where
  tiles : Chain TCPSegment.lengthInSequenceSpace 0 x.sent x.sender.nextSeqno
  occupies : ∀ c ∈ x.created, 0 < c.segment.lengthInSequenceSpace
  seqno : ∀ c ∈ x.created, c.segment.header.seqno = wrap c.start x.sender.isn
  short : ∀ c ∈ x.created, c.segment.payload.length ≤ TCPConfig.maxPayloadSize
  syn : ∀ c ∈ x.created, c.segment.header.syn = true ↔ c.start = 0
  payloads : (x.created.map fun c => c.segment.payload).flatten
    ++ x.sender.stream.buffer = x.accepted
  finAtEnd : ∀ c ∈ x.created, c.segment.header.fin = true →
    x.sender.stream.inputEnded = true ∧ x.sender.stream.buffer = []
      ∧ c.start + c.segment.lengthInSequenceSpace = x.sender.stream.bytesWritten + 2
  finOnce : (x.created.filter fun c => c.segment.header.fin).length ≤ 1

/-- What the run keeps true: integrity, the phase, and a queue that is the end
    of what was created. -/
structure Sound (x : History) : Prop extends Integrity x where
  phase : Phase x.sender
  kept : x.sender.outstandingSegments <:+ x.sent

/-- While something is left to send, no `FIN` has been created. -/
theorem Sound.no_fin {x : History} (h : Sound x) (hn : x.sender.segmentNeeded = true) :
    ∀ c ∈ x.created, c.segment.header.fin = false := by
  intro c hc
  cases hf : c.segment.header.fin with
  | false => rfl
  | true =>
      have hend := (h.finAtEnd c hc hf).2.2
      have hmem : (c.start, c.segment) ∈ x.sent := List.mem_map.mpr ⟨c, hc, rfl⟩
      have hle := (h.tiles.mem hmem).2
      have hopen := (h.phase.open_of_needed hn).2
      have hacc := x.sender.stream.accounted
      dsimp only at hle
      omega

/-- One emission keeps the run sound. -/
theorem Sound.emit {x : History} {seg : TCPSegment} {s : TCPSender} (h : Sound x)
    (hem : Emitted x.sender seg s) : Sound (emitted x seg s) := by
  have hnofin := h.no_fin hem.needed
  obtain ⟨hphase, hfin⟩ := hem.phase h.phase
  -- a fact about every created segment: about the old ones, and about `seg`
  have hall : ∀ {P : Created → Prop}, (∀ c ∈ x.created, P c) →
      P ⟨x.sender.nextSeqno, seg, edge x.sender⟩ →
      ∀ c ∈ (emitted x seg s).created, P c := by
    intro P hold hnew c hc
    rcases List.mem_append.mp hc with hc | hc
    · exact hold c hc
    · rw [List.mem_singleton.mp hc]; exact hnew
  have hsent : (emitted x seg s).sent = x.sent ++ [(x.sender.nextSeqno, seg)] :=
    List.map_append
  refine ⟨⟨?_, hall h.occupies hem.occupies, ?_, hall h.short hem.short,
    hall h.syn hem.syn, ?_, hall ?_ ?_, ?_⟩, hphase, ?_⟩
  · rw [hsent]
    show Chain _ 0 _ s.nextSeqno
    rw [hem.nextSeqno]
    exact h.tiles.snoc seg
  · show ∀ c ∈ (emitted x seg s).created, c.segment.header.seqno = wrap c.start s.isn
    rw [hem.same.isn]
    exact hall h.seqno hem.seqno
  · show (List.map _ (x.created ++ _)).flatten ++ s.stream.buffer = x.accepted
    rw [List.map_append, List.flatten_append, List.append_assoc, List.map_singleton,
      List.flatten_singleton, hem.payload]
    exact h.payloads
  · intro c hc hf
    rw [hnofin c hc] at hf
    exact absurd hf Bool.false_ne_true
  · intro hf
    refine ⟨hem.same.inputEnded.trans (hem.fin hf).1, (hem.fin hf).2, ?_⟩
    show _ = s.stream.bytesWritten + 2
    rw [hem.same.bytesWritten]
    exact hfin hf
  · show (List.filter _ (x.created ++ _)).length ≤ 1
    have hnone : x.created.filter (fun c => c.segment.header.fin) = [] :=
      List.filter_eq_nil_iff.mpr fun c hc => by
        rw [hnofin c hc]; exact Bool.false_ne_true
    rw [List.filter_append, hnone, List.nil_append]
    exact List.length_filter_le _ _
  · rw [hsent]
    show s.outstandingSegments <:+ _
    rw [hem.outstanding]
    obtain ⟨acked, hacked⟩ := h.kept
    exact ⟨acked, by rw [← hacked, List.append_assoc]⟩

/-- A change that leaves the stream and the numbers alone, and only shortens
    the queue from the front. -/
theorem Sound.congr {x : History} {s : TCPSender} (h : Sound x)
    (hisn : s.isn = x.sender.isn) (hnext : s.nextSeqno = x.sender.nextSeqno)
    (hstream : s.stream = x.sender.stream)
    (hqueue : s.outstandingSegments <:+ x.sender.outstandingSegments) :
    Sound { x with sender := s } := by
  refine ⟨⟨?_, h.occupies, ?_, h.short, h.syn, ?_, ?_, h.finOnce⟩, ?_, ?_⟩
  · show Chain _ 0 x.sent s.nextSeqno
    rw [hnext]; exact h.tiles
  · show ∀ c ∈ x.created, c.segment.header.seqno = wrap c.start s.isn
    rw [hisn]; exact h.seqno
  · show _ ++ s.stream.buffer = x.accepted
    rw [hstream]; exact h.payloads
  · show ∀ c ∈ x.created, c.segment.header.fin = true → s.stream.inputEnded = true
      ∧ s.stream.buffer = [] ∧ _ = s.stream.bytesWritten + 2
    rw [hstream]; exact h.finAtEnd
  · show Phase s
    rw [Phase, hnext, hstream]; exact h.phase
  · exact hqueue.trans h.kept

/-- The calls allowed in a run: no write after the input has ended. -/
def NoLateWrite (x : History) : Op → Prop
  | .write _ => x.sender.stream.inputEnded = false
  | .endInput => True
  | .fillWindow => True
  | .ackReceived _ _ => True
  | .tick _ => True
  | .sendEmptySegment => True

instance (x : History) : ∀ op : Op, Decidable (NoLateWrite x op)
  | .write _ => inferInstanceAs (Decidable (x.sender.stream.inputEnded = false))
  | .endInput => isTrue trivial
  | .fillWindow => isTrue trivial
  | .ackReceived _ _ => isTrue trivial
  | .tick _ => isTrue trivial
  | .sendEmptySegment => isTrue trivial

/-- Every allowed call keeps the run sound. -/
theorem Sound.step {x y : History} {op : Op} (h : Sound x) (hop : NoLateWrite x op)
    (hstep : step x op = some y) : Sound y := by
  cases op with
  | write data =>
      have hopen : x.sender.stream.inputEnded = false := hop
      rw [← Option.some.inj hstep]
      refine ⟨⟨h.tiles, h.occupies, h.seqno, h.short, h.syn, ?_, ?_, h.finOnce⟩, ?_, h.kept⟩
      · show _ ++ (x.sender.stream.write data).2.buffer = x.accepted ++ _
        rw [ByteStream.write_buffer_count, ← List.append_assoc, h.payloads]
      · intro c hc hf
        rw [(h.finAtEnd c hc hf).1] at hopen
        exact Bool.noConfusion hopen
      · rcases h.phase with hp | hp | ⟨-, hp, -⟩
        · exact Or.inl hp
        · exact Or.inr (Or.inl hp)
        · rw [hp] at hopen
          exact Bool.noConfusion hopen
  | endInput =>
      rw [← Option.some.inj hstep]
      refine ⟨⟨h.tiles, h.occupies, h.seqno, h.short, h.syn, h.payloads, ?_, h.finOnce⟩,
        ?_, h.kept⟩
      · intro c hc hf
        exact ⟨rfl, (h.finAtEnd c hc hf).2⟩
      · rcases h.phase with hp | hp | ⟨hp, -, hp'⟩
        · exact Or.inl hp
        · exact Or.inr (Or.inl hp)
        · exact Or.inr (Or.inr ⟨hp, rfl, hp'⟩)
  | fillWindow =>
      rw [← Option.some.inj hstep]
      exact filled_invariant (fun _ _ _ hx hem => hx.emit hem) h
  | ackReceived ackno window =>
      rcases step_ack hstep with ⟨-, hy⟩ | ⟨popped, s, hacked, hy⟩
      · rw [hy]
        exact h.congr rfl rfl rfl (List.suffix_refl _)
      · rw [hy]
        refine filled_invariant (fun _ _ _ hx hem => hx.emit hem) ?_
        exact h.congr hacked.same.isn hacked.same.nextSeqno hacked.same.stream
          ⟨popped, hacked.queue.symm⟩
  | tick ms =>
      rw [← Option.some.inj hstep]
      have ht := ticked x.sender ms
      exact h.congr ht.isn ht.nextSeqno ht.stream ⟨[], ht.outstanding⟩
  | sendEmptySegment =>
      rw [← Option.some.inj hstep]
      exact h.congr rfl rfl rfl (List.suffix_refl _)

/-- A tick sends nothing, or the oldest segment of the queue as it is. -/
def ResendsOldest (x : History) (ms : Nat) : Prop :=
  (x.sender.tick ms).segmentsOut = x.sender.segmentsOut
    ∨ ∃ front rest, x.sender.outstandingSegments = front :: rest
      ∧ (x.sender.tick ms).outstandingSegments = front :: rest
      ∧ (x.sender.tick ms).segmentsOut = x.sender.segmentsOut ++ [front.2]

theorem Sound.resends {x : History} (h : Sound x) (ms : Nat) : ResendsOldest x ms := by
  have ht := ticked x.sender ms
  refine ht.segmentsOut.imp_right ?_
  rintro ⟨front, rest, hq, hout⟩
  -- the oldest segment was created with its own number
  have hmem : front ∈ x.sent := by
    refine h.kept.subset ?_
    rw [hq]
    exact List.mem_cons_self ..
  obtain ⟨c, hc, hfront⟩ := List.mem_map.mp hmem
  have hsame : x.sender.resent front = front.2 := by
    have hseq := h.seqno c hc
    rw [← hfront, resent]
    dsimp only
    rw [← hseq]
  exact ⟨front, rest, hq, ht.outstanding.trans hq, by rw [hout, hsame]⟩

/-- A call queued for sending the segments it created, and no others. -/
def SendsNew (x y : History) : Prop :=
  ∃ new, y.created = x.created ++ new
    ∧ y.sender.segmentsOut = x.sender.segmentsOut ++ new.map Created.segment

/-- What a call queues for sending: what it created; but a tick creates nothing and sends
    as `ResendsOldest` says, and an empty segment is sent without being created. -/
def Sends (x y : History) : Op → Prop
  | .tick ms => y.created = x.created ∧ y.sender = x.sender.tick ms
  | .sendEmptySegment => y.created = x.created ∧ ∃ seg : TCPSegment,
      seg.lengthInSequenceSpace = 0 ∧ y.sender.segmentsOut = x.sender.segmentsOut ++ [seg]
  | _ => SendsNew x y

theorem sendsNew_nothing {x y : History} (hcreated : y.created = x.created)
    (hout : y.sender.segmentsOut = x.sender.segmentsOut) : SendsNew x y :=
  ⟨[], hcreated.trans (List.append_nil _).symm, hout.trans (List.append_nil _).symm⟩

theorem sendsNew_filled (x : History) : SendsNew x (filled x) := by
  obtain ⟨l, hl, -, hnew⟩ := newSegments_fills x.sender
  refine ⟨_, rfl, ?_⟩
  rw [hnew, List.map_map]
  exact hl.segmentsOut

/-- **NOTHING IS CREATED UNSENT**: every call queues what it created. -/
theorem step_sends {x y : History} {op : Op} (hstep : step x op = some y) : Sends x y op := by
  cases op with
  | write data =>
      obtain rfl := Option.some.inj hstep
      exact sendsNew_nothing rfl rfl
  | endInput =>
      obtain rfl := Option.some.inj hstep
      exact sendsNew_nothing rfl rfl
  | fillWindow =>
      obtain rfl := Option.some.inj hstep
      exact sendsNew_filled x
  | ackReceived ackno window =>
      rcases step_ack hstep with ⟨-, rfl⟩ | ⟨popped, s, hacked, rfl⟩
      · exact sendsNew_nothing rfl rfl
      · obtain ⟨new, hcreated, hout⟩ := sendsNew_filled { x with sender := s }
        exact ⟨new, hcreated, hout.trans (congrArg (· ++ _) hacked.same.segmentsOut)⟩
  | tick ms =>
      obtain rfl := Option.some.inj hstep
      exact ⟨rfl, rfl⟩
  | sendEmptySegment =>
      obtain rfl := Option.some.inj hstep
      exact ⟨rfl, _, rfl, rfl⟩

/-- **STREAM INTEGRITY**: after any run without a late write the created
    segments tile the sequence space and carry the accepted bytes, every tick sends
    nothing but the oldest of them, and every call sends what it creates. -/
theorem stream_integrity (capacity : UInt64) (retxTimeout : BitVec 16)
    (isn : WrappingInt32) (ops : List Op)
    (hops : Along step NoLateWrite (start capacity retxTimeout isn) ops)
    (x : History) (hrun : run step (start capacity retxTimeout isn) ops = some x) :
    Integrity x ∧ (∀ ms, ResendsOldest x ms)
      ∧ ∀ op y, step x op = some y → Sends x y op := by
  have h : Sound x := by
    refine run_invariant (I := Sound) (P := NoLateWrite) ?_ ops _ x ?_ hops hrun
    · intro s op t hs hop hstep
      exact hs.step hop hstep
    · refine ⟨⟨rfl, ?_, ?_, ?_, ?_, rfl, ?_, Nat.zero_le 1⟩, Or.inl ⟨rfl, rfl⟩,
        List.suffix_refl _⟩ <;> intro c hc <;> exact nomatch hc
  exact ⟨h.toIntegrity, h.resends, fun _ _ hstep => step_sends hstep⟩

/-- `SYN`, three bytes and the `FIN` under a window of two. -/
theorem stream_integrity_abc :
    ∃ x, run step (start 8 1000 ⟨0⟩)
        [.fillWindow, .write [97, 98, 99], .endInput, .ackReceived ⟨1⟩ 2,
          .ackReceived ⟨3⟩ 2, .tick 1000] = some x
      ∧ x.created.length = 3 ∧ Integrity x :=
  ⟨_, rfl, rfl, (stream_integrity 8 1000 ⟨0⟩
    [.fillWindow, .write [97, 98, 99], .endInput, .ackReceived ⟨1⟩ 2,
      .ackReceived ⟨3⟩ 2, .tick 1000] (by decide) _ rfl).1⟩

end SpongeSenderStream
