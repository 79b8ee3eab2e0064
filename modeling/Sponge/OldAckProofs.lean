import Sponge.SenderProofs

/-! # Old acknowledgements

    A network that reorders hands the sender acknowledgements that are older
    than one it has already had.  They should change nothing.  `ack_received`
    compares an acknowledgement with the next number only, not with the largest
    one accepted: an old one is taken like any other, moves the window and its
    base back, and fills the window from there (`old_ack_moves_back`).

    `old_acks_ignored_iff` says exactly which acknowledgements leave the sender
    alone, that the base goes back exactly at the others, and that those which
    leave it alone may be put into a run anywhere.

    The other end of the range are acknowledgements of numbers that were never
    sent.  The source rejects them, but notes their window first
    (`impossible_ack_sets_the_window`); `impossible_ack_ignored_iff` says that
    the window is all they change. -/

namespace SpongeOldAck

open SpongeByteStream SpongeWrapping SpongeSegment SpongeSender Word64 RunRule
open TCPSender

/-- The absolute number `ack_received` reads an acknowledgement as. -/
def ackedTo (s : TCPSender) (ackno : WrappingInt32) : Nat :=
  unwrap ackno s.isn (s.absAckno + 1)

/-- The acknowledgement is beyond the next number and so not accepted, or it is
    the last one again and takes nothing out of the queue. -/
def Unmoved (s : TCPSender) (ackno : WrappingInt32) : Prop :=
  s.nextSeqno < ackedTo s ackno
    ∨ (ackedTo s ackno = s.absAckno
      ∧ ∀ front ∈ s.outstandingSegments.head?,
        s.absAckno < front.1 + front.2.lengthInSequenceSpace)

/-- An acknowledgement is not accepted, or it is accepted as `ackedTo` says. -/
theorem noteAck_ackedTo (s : TCPSender) (ackno : WrappingInt32) (window : BitVec 16) :
    (s.nextSeqno < ackedTo s ackno
      ∧ s.noteAck ackno window = (false, { s with windowSize := window.toNat }))
    ∨ ((s.noteAck ackno window).1 = true ∧ ∃ popped,
        Acked s (ackedTo s ackno) window popped (s.noteAck ackno window).2) :=
  noteAck_cases s ackno window

/-- What an acknowledgement that is ignored leaves as it was: the output, the
    base, the effective window, the queue, the timer and the backoff. -/
structure Ignored (s : TCPSender) (ackno : WrappingInt32) (window : BitVec 16) : Prop where
  segmentsOut : (s.ackReceived ackno window).segmentsOut = s.segmentsOut
  absAckno : (s.ackReceived ackno window).absAckno = s.absAckno
  effectiveWindowSize :
    (s.ackReceived ackno window).effectiveWindowSize = s.effectiveWindowSize
  outstanding : (s.ackReceived ackno window).outstandingSegments = s.outstandingSegments
  timer : (s.ackReceived ackno window).timer = s.timer
  retransmissionTimeout :
    (s.ackReceived ackno window).retransmissionTimeout = s.retransmissionTimeout
  consecutiveRetransmissions :
    (s.ackReceived ackno window).consecutiveRetransmissions = s.consecutiveRetransmissions

/-- It brings the window there is already, moves nothing, and if it is accepted
    there is nothing that could be sent. -/
def Harmless (s : TCPSender) (ackno : WrappingInt32) (window : BitVec 16) : Prop :=
  max window.toNat 1 = max s.windowSize 1 ∧ Unmoved s ackno
    ∧ (s.nextSeqno < ackedTo s ackno ∨ Stopped s)

instance (s : TCPSender) (ackno : WrappingInt32) : Decidable (Unmoved s ackno) :=
  inferInstanceAs (Decidable (_ ∨ _))

instance (s : TCPSender) (ackno : WrappingInt32) (window : BitVec 16) :
    Decidable (Harmless s ackno window) := inferInstanceAs (Decidable (_ ∧ _))

section OneCall

variable {s : TCPSender} {ackno : WrappingInt32} {window : BitVec 16}

/-- Whether something can be sent depends on the effective window only. -/
theorem stopped_window (hw : max window.toNat 1 = max s.windowSize 1) :
    Stopped { s with windowSize := window.toNat } ↔ Stopped s := by
  rw [Stopped, Stopped, availableSpace_eq, availableSpace_eq]
  show sub64 (s.absAckno + max window.toNat 1) s.nextSeqno = 0 ∨ s.segmentNeeded = false ↔ _
  rw [hw]

/-- A harmless acknowledgement sets the window and does nothing else. -/
theorem ackReceived_of_harmless (h : Harmless s ackno window) :
    s.ackReceived ackno window = { s with windowSize := window.toNat } := by
  obtain ⟨hw, hunmoved, hstop⟩ := h
  rcases noteAck_ackedTo s ackno window with ⟨-, hnote⟩ | ⟨hgo, popped, hacked⟩
  · rw [ackReceived_ignored (by rw [hnote]), hnote]
  · have hreached : ackedTo s ackno ≤ s.nextSeqno := hacked.reached
    obtain ⟨hsame, hfront⟩ := hunmoved.resolve_left (Nat.not_lt.mpr hreached)
    have hstop' := hstop.resolve_left (Nat.not_lt.mpr hreached)
    have hnote : (s.noteAck ackno window).2 = { s with windowSize := window.toNat } := by
      have heq : unwrap ackno s.isn (s.absAckno + 1) = s.absAckno := hsame
      rw [noteAck]
      dsimp only
      rw [heq, if_neg (by omega)]
      exact popAcked_of_front hfront
    rw [ackReceived_noted hgo, hnote]
    exact fillWindow_of_stopped ((stopped_window hw).mpr hstop')

/-- Only a harmless acknowledgement is ignored. -/
theorem Ignored.harmless (h : Ignored s ackno window) : Harmless s ackno window := by
  have hw := h.effectiveWindowSize
  rw [effectiveWindowSize_eq, effectiveWindowSize_eq] at hw
  rcases noteAck_ackedTo s ackno window with ⟨hgt, hnote⟩ | ⟨hgo, popped, hacked⟩
  · rw [ackReceived_ignored (by rw [hnote]), hnote] at hw
    exact ⟨hw, Or.inl hgt, Or.inl hgt⟩
  · obtain ⟨hout, habs, -, hqueue, -, -, -⟩ := h
    rw [ackReceived_noted hgo] at hout habs hqueue hw
    generalize (s.noteAck ackno window).2 = n at hacked hout habs hqueue hw
    -- silent, so the fill found nothing to send and left the sender alone
    have hstop : Stopped n :=
      (fillWindow_silent_iff n).mp (hout.trans hacked.same.segmentsOut.symm)
    rw [fillWindow_of_stopped hstop] at habs hqueue hw
    rw [hacked.windowSize] at hw
    have hsame : ackedTo s ackno = s.absAckno := hacked.absAckno.symm.trans habs
    refine ⟨hw, Or.inr ⟨hsame, ?_⟩, Or.inr ?_⟩
    · intro front hfront
      obtain ⟨rest, hrest⟩ := List.head?_eq_some_iff.mp hfront
      have hlt := hacked.front front rest (hqueue.trans hrest)
      rw [← hsame]
      exact hlt
    · rw [Stopped, availableSpace_eq, segmentNeeded, hacked.absAckno, hacked.windowSize,
        hacked.same.nextSeqno, hacked.same.stream, hw] at hstop
      rw [Stopped, availableSpace_eq, segmentNeeded, ← hsame]
      exact hstop

theorem ignored_iff_harmless : Ignored s ackno window ↔ Harmless s ackno window := by
  refine ⟨Ignored.harmless, fun h => ?_⟩
  have heq := ackReceived_of_harmless h
  refine ⟨?_, ?_, ?_, ?_, ?_, ?_, ?_⟩ <;> rw [heq]
  rw [effectiveWindowSize_eq, effectiveWindowSize_eq]
  exact h.1

end OneCall

/-! ## Runs of the sender -/

/-- Every public operation of the sender and of its stream's write side. -/
inductive Op where
  | write (data : List Byte)
  | endInput
  | setError
  | fillWindow
  | ackReceived (ackno : WrappingInt32) (windowSize : BitVec 16)
  | tick (ms : Nat)
  | sendEmptySegment
  | sendFlagsSegment (syn fin rst : Bool)
deriving DecidableEq, Repr

/-- A sender and the largest absolute number it has accepted. -/
structure Hearing where
  sender : TCPSender
  largest : Nat
deriving DecidableEq, Repr

def start (capacity : UInt64) (retxTimeout : BitVec 16) (isn : WrappingInt32) : Hearing :=
  ⟨.new capacity retxTimeout (some isn) 0, 0⟩

/-- One call.  Every call is possible in every state. -/
def step (x : Hearing) : Op → Option Hearing
  | .write data => some
      { x with sender := { x.sender with stream := (x.sender.stream.write data).2 } }
  | .endInput => some
      { x with sender := { x.sender with stream := x.sender.stream.endInput } }
  | .setError => some
      { x with sender := { x.sender with stream := x.sender.stream.setError } }
  | .fillWindow => some { x with sender := x.sender.fillWindow }
  | .ackReceived ackno windowSize => some
      { sender := x.sender.ackReceived ackno windowSize
        largest :=
          if ackedTo x.sender ackno > x.sender.nextSeqno then x.largest
          else max x.largest (ackedTo x.sender ackno) }
  | .tick ms => some { x with sender := x.sender.tick ms }
  | .sendEmptySegment => some { x with sender := x.sender.sendEmptySegment }
  | .sendFlagsSegment syn fin rst => some
      { x with sender := x.sender.sendFlagsSegment syn fin rst }

/-- The number within `2 ^ 31` of the largest accepted one that wraps to the
    acknowledgement is smaller than the largest accepted one. -/
def Old (x : Hearing) (ackno : WrappingInt32) : Prop :=
  ∃ v, wrap v x.sender.isn = ackno ∧ v < x.largest ∧ x.largest < v + 2 ^ 31

/-- The base does not go back at this call. -/
def NeverBack (x : Hearing) (op : Op) : Prop :=
  ∀ y, step x op = some y → x.sender.absAckno ≤ y.sender.absAckno

/-- No acknowledgement below the base is accepted at this call. -/
def NotBehind (x : Hearing) : Op → Prop
  | .ackReceived ackno _ =>
      x.sender.nextSeqno < ackedTo x.sender ackno
        ∨ x.sender.absAckno ≤ ackedTo x.sender ackno
  | .write _ => True
  | .endInput => True
  | .setError => True
  | .fillWindow => True
  | .tick _ => True
  | .sendEmptySegment => True
  | .sendFlagsSegment _ _ _ => True

/-- Where the base is after an acknowledgement. -/
theorem absAckno_ackReceived (s : TCPSender) (ackno : WrappingInt32) (window : BitVec 16) :
    (s.ackReceived ackno window).absAckno
      = if s.nextSeqno < ackedTo s ackno then s.absAckno else ackedTo s ackno := by
  rcases noteAck_ackedTo s ackno window with ⟨hgt, hnote⟩ | ⟨hgo, popped, hacked⟩
  · rw [ackReceived_ignored (by rw [hnote]), hnote]
    exact (if_pos hgt).symm
  · rw [ackReceived_noted hgo]
    obtain ⟨⟨l, hl⟩, -⟩ := fillWindow_fills (s.noteAck ackno window).2
    rw [hl.same.absAckno, hacked.absAckno]
    exact (if_neg (Nat.not_lt.mpr hacked.reached)).symm

/-- Every call but an acknowledgement leaves the base alone. -/
theorem step_cases (x : Hearing) (op : Op) :
    (∃ ackno window, op = .ackReceived ackno window)
      ∨ (NotBehind x op ∧ ∃ s, step x op = some { x with sender := s }
        ∧ s.absAckno = x.sender.absAckno) := by
  cases op with
  | write data => exact Or.inr ⟨trivial, _, rfl, rfl⟩
  | endInput => exact Or.inr ⟨trivial, _, rfl, rfl⟩
  | setError => exact Or.inr ⟨trivial, _, rfl, rfl⟩
  | fillWindow =>
      obtain ⟨⟨l, hl⟩, -⟩ := fillWindow_fills x.sender
      exact Or.inr ⟨trivial, _, rfl, hl.same.absAckno⟩
  | ackReceived ackno window => exact Or.inl ⟨ackno, window, rfl⟩
  | tick ms => exact Or.inr ⟨trivial, _, rfl, (ticked x.sender ms).absAckno⟩
  | sendEmptySegment => exact Or.inr ⟨trivial, _, rfl, rfl⟩
  | sendFlagsSegment syn fin rst => exact Or.inr ⟨trivial, _, rfl, rfl⟩

theorem neverBack_iff (x : Hearing) (op : Op) : NeverBack x op ↔ NotBehind x op := by
  rcases step_cases x op with ⟨ackno, window, hop⟩ | ⟨hnot, s, hstep, hs⟩
  · subst hop
    have hbase := absAckno_ackReceived x.sender ackno window
    constructor
    · intro hback
      have hle : x.sender.absAckno ≤ (x.sender.ackReceived ackno window).absAckno :=
        hback _ rfl
      rw [hbase] at hle
      by_cases hgt : x.sender.nextSeqno < ackedTo x.sender ackno
      · exact Or.inl hgt
      · rw [if_neg hgt] at hle
        exact Or.inr hle
    · intro hnot y hy
      rw [← Option.some.inj hy]
      show x.sender.absAckno ≤ (x.sender.ackReceived ackno window).absAckno
      rw [hbase]
      split_ifs with hgt
      · exact Nat.le_refl _
      · exact hnot.resolve_left hgt
  · refine ⟨fun _ => hnot, fun _ y hy => ?_⟩
    rw [← Option.some.inj (hstep.symm.trans hy)]
    exact Nat.le_of_eq hs.symm

/-- The base is a number that was accepted. -/
theorem absAckno_le_largest {x y : Hearing} {op : Op} (h : x.sender.absAckno ≤ x.largest)
    (hstep : step x op = some y) : y.sender.absAckno ≤ y.largest := by
  rcases step_cases x op with ⟨ackno, window, hop⟩ | ⟨-, s, hs, heq⟩
  · subst hop
    rw [← Option.some.inj hstep]
    dsimp only
    rw [absAckno_ackReceived]
    split_ifs with hgt
    · exact h
    · exact Nat.le_max_right _ _
  · rw [← Option.some.inj (hs.symm.trans hstep)]
    exact Nat.le_trans (Nat.le_of_eq heq) h

/-- An acknowledgement is harmless and brings exactly the window there is. -/
def Unnoticed (s : TCPSender) (ackno : WrappingInt32) (window : BitVec 16) : Prop :=
  window.toNat = s.windowSize ∧ Harmless s ackno window

instance (s : TCPSender) (ackno : WrappingInt32) (window : BitVec 16) :
    Decidable (Unnoticed s ackno window) := inferInstanceAs (Decidable (_ ∧ _))

/-- The second list of calls is the first one with unnoticed acknowledgements
    put in. -/
inductive WithAcks : Hearing → List Op → List Op → Prop
  | nil (x : Hearing) : WithAcks x [] []
  | keep {x y : Hearing} {op : Op} {ops ops' : List Op} (hstep : step x op = some y)
      (rest : WithAcks y ops ops') : WithAcks x (op :: ops) (op :: ops')
  | insert {x : Hearing} {ackno : WrappingInt32} {window : BitVec 16} {ops ops' : List Op}
      (unnoticed : Unnoticed x.sender ackno window) (rest : WithAcks x ops ops') :
      WithAcks x ops (.ackReceived ackno window :: ops')

/-- An unnoticed acknowledgement changes nothing at all. -/
theorem step_unnoticed {x : Hearing} {ackno : WrappingInt32} {window : BitVec 16}
    (hx : x.sender.absAckno ≤ x.largest) (h : Unnoticed x.sender ackno window) :
    step x (.ackReceived ackno window) = some x := by
  obtain ⟨hwindow, hharmless⟩ := h
  have hsender := ackReceived_of_harmless hharmless
  rw [hwindow] at hsender
  have hlargest : (if ackedTo x.sender ackno > x.sender.nextSeqno then x.largest
      else max x.largest (ackedTo x.sender ackno)) = x.largest := by
    split_ifs with hgt
    · rfl
    · obtain ⟨hsame, -⟩ := hharmless.2.1.resolve_left hgt
      rw [hsame]
      exact Nat.max_eq_left hx
  show some (Hearing.mk (x.sender.ackReceived ackno window) _) = some x
  rw [hsender, hlargest]

/-- **PUTTING THEM IN** changes nothing of a run. -/
theorem run_withAcks {x : Hearing} {ops ops' : List Op} (h : WithAcks x ops ops')
    (hx : x.sender.absAckno ≤ x.largest) : run step x ops' = run step x ops := by
  induction h with
  | nil x => rfl
  | keep hstep _ ih =>
      rw [run, run, hstep]
      exact ih (absAckno_le_largest hx hstep)
  | insert unnoticed _ ih =>
      rw [run, step_unnoticed hx unnoticed]
      exact ih hx

/-- **OLD ACKNOWLEDGEMENTS, EXACTLY**: any acknowledgement, an old one or not, is
    ignored iff it is harmless; the base never goes back in a run iff no
    acknowledgement below it is accepted; and unnoticed ones can be put in
    anywhere without a change to the run. -/
theorem old_acks_ignored_iff (capacity : UInt64) (retxTimeout : BitVec 16)
    (isn : WrappingInt32) :
    (∀ (ops : List Op) (x : Hearing) (ackno : WrappingInt32) (window : BitVec 16),
      run step (start capacity retxTimeout isn) ops = some x →
      (Ignored x.sender ackno window ↔ Harmless x.sender ackno window))
    ∧ (∀ ops : List Op, Along step NeverBack (start capacity retxTimeout isn) ops
      ↔ Along step NotBehind (start capacity retxTimeout isn) ops)
    ∧ ∀ ops ops' : List Op, WithAcks (start capacity retxTimeout isn) ops ops' →
      run step (start capacity retxTimeout isn) ops'
        = run step (start capacity retxTimeout isn) ops := by
  refine ⟨fun _ _ _ _ _ => ignored_iff_harmless, fun ops => ?_, fun ops ops' h => ?_⟩
  · exact along_congr neverBack_iff ops _
  · exact run_withAcks h (Nat.le_refl 0)

/-- A `SYN`, a window of one, three bytes of which two are sent, and then the
    acknowledgement of the `SYN` again, which is now an old one. -/
def wentBack : List Op :=
  [.fillWindow, .ackReceived ⟨1⟩ 1, .write [97, 98, 99], .fillWindow, .ackReceived ⟨2⟩ 0]

/-- **AN OLD ONE MOVES BACK**: with a larger window it also sends a byte that the
    peer has no room for. -/
theorem old_ack_moves_back :
    ¬ ∀ (capacity : UInt64) (retxTimeout : BitVec 16) (isn : WrappingInt32)
      (ops : List Op) (x : Hearing) (ackno : WrappingInt32) (window : BitVec 16),
      run step (start capacity retxTimeout isn) ops = some x → Old x ackno →
      Ignored x.sender ackno window := by
  intro hall
  have hreach : ∃ x, run step (start 8 1000 ⟨0⟩) wentBack = some x
      ∧ x.largest = 2 ∧ x.sender.isn = ⟨0⟩ ∧ ¬ Harmless x.sender ⟨1⟩ 10 :=
    run_reaches (by decide)
  obtain ⟨x, hrun, hlargest, hisn, hharm⟩ := hreach
  have hold : Old x ⟨1⟩ :=
    ⟨1, by rw [hisn]; decide, by rw [hlargest]; decide, by rw [hlargest]; decide⟩
  exact hharm (hall 8 1000 ⟨0⟩ wentBack x ⟨1⟩ 10 hrun hold).harmless

/-- The same old acknowledgement a second time is ignored, and putting it in
    changes nothing. -/
theorem old_acks_ignored_iff_again :
    ∃ x, run step (start 8 1000 ⟨0⟩) (wentBack ++ [.ackReceived ⟨1⟩ 2]) = some x
      ∧ Old x ⟨1⟩ ∧ Ignored x.sender ⟨1⟩ 2
      ∧ run step (start 8 1000 ⟨0⟩)
          (wentBack ++ [.ackReceived ⟨1⟩ 2, .ackReceived ⟨1⟩ 2]) = some x := by
  have hreach : ∃ x, run step (start 8 1000 ⟨0⟩) (wentBack ++ [.ackReceived ⟨1⟩ 2]) = some x
      ∧ x.largest = 2 ∧ x.sender.isn = ⟨0⟩ ∧ Harmless x.sender ⟨1⟩ 2 :=
    run_reaches (by decide)
  obtain ⟨x, hrun, hlargest, hisn, hharm⟩ := hreach
  obtain ⟨hcall, -, hput⟩ := old_acks_ignored_iff 8 1000 ⟨0⟩
  refine ⟨x, hrun, ⟨1, by rw [hisn]; decide, by rw [hlargest]; decide,
    by rw [hlargest]; decide⟩, (hcall _ x ⟨1⟩ 2 hrun).mpr hharm, ?_⟩
  rw [← hrun]
  refine hput _ _ ?_
  exact .keep rfl (.keep rfl (.keep rfl (.keep rfl (.keep rfl (.keep rfl
    (.insert (by decide) (.nil _)))))))

/-! ## Impossible acknowledgements -/

/-- An acknowledgement beyond the next number sets the window and does nothing
    else. -/
theorem ackReceived_of_beyond {s : TCPSender} {ackno : WrappingInt32}
    (window : BitVec 16) (h : s.nextSeqno < ackedTo s ackno) :
    s.ackReceived ackno window = { s with windowSize := window.toNat } := by
  rcases noteAck_ackedTo s ackno window with ⟨-, hnote⟩ | ⟨-, popped, hacked⟩
  · rw [ackReceived_ignored (congrArg Prod.fst hnote), hnote]
  · exact absurd h (Nat.not_lt.mpr hacked.reached)

/-- **IMPOSSIBLE ACKNOWLEDGEMENTS, EXACTLY**: in any state of a run, one that is
    read as a number beyond the next one changes the window alone, and so changes
    nothing iff it brings the window there is. -/
theorem impossible_ack_ignored_iff (capacity : UInt64) (retxTimeout : BitVec 16)
    (isn : WrappingInt32) (ops : List Op) (x : Hearing)
    (_ : run step (start capacity retxTimeout isn) ops = some x)
    (ackno : WrappingInt32) (window : BitVec 16)
    (hbeyond : x.sender.nextSeqno < ackedTo x.sender ackno) :
    x.sender.ackReceived ackno window = { x.sender with windowSize := window.toNat }
      ∧ (x.sender.ackReceived ackno window = x.sender
        ↔ window.toNat = x.sender.windowSize) := by
  have heq := ackReceived_of_beyond window hbeyond
  refine ⟨heq, fun hsame => ?_, fun hwindow => ?_⟩
  · rw [heq] at hsame
    exact congrArg TCPSender.windowSize hsame
  · rw [heq, hwindow]

/-- **AN IMPOSSIBLE ONE SETS THE WINDOW**: the `SYN` is out, and an
    acknowledgement of two numbers closes the window. -/
theorem impossible_ack_sets_the_window :
    ¬ ∀ (capacity : UInt64) (retxTimeout : BitVec 16) (isn : WrappingInt32)
      (ops : List Op) (x : Hearing) (ackno : WrappingInt32) (window : BitVec 16),
      run step (start capacity retxTimeout isn) ops = some x →
      x.sender.nextSeqno < ackedTo x.sender ackno →
      x.sender.ackReceived ackno window = x.sender := by
  intro hall
  have hreach : ∃ x, run step (start 8 1000 ⟨0⟩) [.fillWindow] = some x
      ∧ x.sender.nextSeqno < ackedTo x.sender ⟨2⟩
      ∧ (x.sender.ackReceived ⟨2⟩ 0).windowSize = 0 ∧ x.sender.windowSize = 1 :=
    run_reaches (by decide)
  obtain ⟨x, hrun, hbeyond, hzero, hone⟩ := hreach
  rw [hall 8 1000 ⟨0⟩ [.fillWindow] x ⟨2⟩ 0 hrun hbeyond, hone] at hzero
  exact absurd hzero (by decide)

/-- With the window of one that a fresh sender assumes it goes unnoticed. -/
theorem impossible_ack_ignored_iff_same_window :
    ∃ x, run step (start 8 1000 ⟨0⟩) [.fillWindow] = some x
      ∧ x.sender.nextSeqno < ackedTo x.sender ⟨2⟩
      ∧ x.sender.ackReceived ⟨2⟩ 1 = x.sender := by
  have hreach : ∃ x, run step (start 8 1000 ⟨0⟩) [.fillWindow] = some x
      ∧ x.sender.nextSeqno < ackedTo x.sender ⟨2⟩ ∧ x.sender.windowSize = 1 :=
    run_reaches (by decide)
  obtain ⟨x, hrun, hbeyond, hone⟩ := hreach
  refine ⟨x, hrun, hbeyond, ?_⟩
  exact (impossible_ack_ignored_iff 8 1000 ⟨0⟩ [.fillWindow] x hrun ⟨2⟩ 1 hbeyond).2.mpr
    hone.symm

end SpongeOldAck
