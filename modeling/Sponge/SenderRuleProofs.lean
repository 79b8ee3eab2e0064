import Sponge.LifecycleProofs

/-! # What can happen to a sender

    `fill_window` and `ack_received` are loops.  A round of the first is an
    `Emission`, which says everything about a new segment: how much it carries,
    when it closes the stream, and what it does to the timer and to the running
    count.  A round of the second is a `popFront`.

    An invariant of the sender is closed under the few elementary changes listed
    in `Changes`: `Changes.fillWindow` and `Changes.ackReceived` carry it through
    the loops, `Changes.call` through every public operation, `Changes.reached`
    through a run of them, and `Changes.quietSteps` through what a connection does between its ticks.
    `fillWindow_induction` is for what speaks about the new segments one by one. -/

namespace SpongeSenderRule

open SpongeByteStream SpongeWrapping SpongeSegment SpongeSender RunRule
open SpongeOldAck SpongeLifecycle TCPSender

/-! ## A round of `fill_window` -/

/-- What the first segment spends on its `SYN`. -/
def synSize (s : TCPSender) : Nat := if s.nextSeqno = 0 then 1 else 0

/-- **AN EMISSION, IN FULL**: the payload is as long as the segment, the window and
    the buffer allow; the `FIN` is on it iff it takes the last byte of an ended
    stream and a number is left; the numbers are counted, and a timer that was
    stopped is started. -/
structure Emission (s : TCPSender) (seg : TCPSegment) (s' : TCPSender) : Prop
    extends Emitted s seg s' where
  length : seg.payload.length = min
    (min TCPConfig.maxPayloadSize (s.availableSpace - synSize s)) s.stream.buffer.length
  fin_iff : seg.header.fin = true ↔ s.stream.inputEnded = true ∧ s'.stream.buffer = []
    ∧ synSize s + seg.payload.length < s.availableSpace
  counter : s'.bytesInFlightCounter = s.bytesInFlightCounter + seg.lengthInSequenceSpace
  timer : s'.timer = if s.timer.active then s.timer else .start s.retransmissionTimeout
  initial : s'.initialRetransmissionTimeout = s.initialRetransmissionTimeout
  timeout : s'.retransmissionTimeout = s.retransmissionTimeout
  retransmissions : s'.consecutiveRetransmissions = s.consecutiveRetransmissions

variable {s s' : TCPSender} {seg : TCPSegment}

theorem synSize_eq (s : TCPSender) :
    (if (s.nextSeqno == 0) = true then 1 else 0) = synSize s :=
  if_congr beq_iff_eq rfl rfl

/-- A round that goes on sends the segment it built. -/
theorem fillRound_go (h : s.fillRound.1 = true) :
    s.fillRound.2 = (s.buildSegment s.availableSpace).2.sendSegment
      (s.buildSegment s.availableSpace).1 := by
  rw [fillRound] at h ⊢
  split_ifs at h ⊢
  dsimp only at h ⊢
  split_ifs at h ⊢
  rfl

/-- **A ROUND, IN FULL**. -/
theorem fillRound_emission (h : s.fillRound.1 = true) :
    ∃ seg, Emission s seg s.fillRound.2 := by
  rcases fillRound_cases s with ⟨hstop, -⟩ | ⟨-, seg, hem⟩
  · rw [hstop] at h
    exact absurd h Bool.false_ne_true
  · -- the segment that was appended is the one that was built
    obtain ⟨len, hread⟩ := s.buildSegment_snd s.availableSpace
    have hgo := fillRound_go h
    have hseg : seg = (s.buildSegment s.availableSpace).1 := by
      have hout := hem.segmentsOut
      rw [hgo, hread] at hout
      exact (List.singleton_inj.mp (List.append_cancel_left hout)).symm
    have hlength := s.buildSegment_length s.availableSpace
    have hfin := s.buildSegment_fin s.availableSpace
    have hbuffer : (s.buildSegment s.availableSpace).2.stream = s.fillRound.2.stream := by
      rw [hgo]
      rfl
    rw [synSize_eq] at hlength hfin
    rw [hbuffer] at hfin
    refine ⟨seg, { hem with
      length := ?_, fin_iff := ?_, counter := ?_, timer := ?_, initial := ?_,
      timeout := ?_, retransmissions := ?_ }⟩
    · rw [hseg]
      exact hlength
    · rw [hseg, hfin]
      refine and_congr_right fun _ => and_congr_right fun _ => ?_
      omega
    · rw [hgo, hread, hseg]
      rfl
    · rw [hgo, hread]
      show (if !s.timer.active then Timer.start s.retransmissionTimeout else s.timer) = _
      cases s.timer.active with
      | true => rfl
      | false => rfl
    · rw [hgo, hread]
      rfl
    · rw [hgo, hread]
      rfl
    · rw [hgo, hread]
      rfl

/-- **THE FILL INDUCTION**: what holds where nothing can be sent, and passes back over
    every emission, holds of `fill_window` and of the segments it adds. -/
theorem fillWindow_induction {C : TCPSender → List (Nat × TCPSegment) → TCPSender → Prop}
    (done : ∀ s, Stopped s → C s [] s)
    (emit : ∀ s seg s' l t, Emission s seg s' → Fills s' l t → Stopped t → C s' l t →
      C s ((s.nextSeqno, seg) :: l) t)
    (s : TCPSender) : ∃ l, Fills s l s.fillWindow ∧ C s l s.fillWindow := by
  have hfuel : ∀ (fuel : Nat) (s : TCPSender), s.unsent < fuel →
      ∃ l, Fills s l (whileTrue fillRound fuel s) ∧ Stopped (whileTrue fillRound fuel s)
        ∧ C s l (whileTrue fillRound fuel s) := by
    intro fuel
    induction fuel with
    | zero => intro s hlt; exact absurd hlt (Nat.not_lt_zero _)
    | succ fuel ih =>
        intro s hlt
        cases hgo : s.fillRound.1 with
        | true =>
            obtain ⟨seg, hem⟩ := fillRound_emission hgo
            have hless := hem.toEmitted.unsent_lt
            obtain ⟨l, hl, hstop, hC⟩ := ih s.fillRound.2 (by omega)
            rw [whileTrue_go fuel hgo]
            exact ⟨_, .emit hem.toEmitted hl, hstop, emit _ _ _ _ _ hem hl hstop hC⟩
        | false =>
            rw [whileTrue_stop fuel hgo]
            rcases fillRound_cases s with ⟨hsame, hstop⟩ | ⟨hgo', -⟩
            · rw [hsame]
              exact ⟨[], .done s, hstop, done s hstop⟩
            · exact absurd (hgo.symm.trans hgo') Bool.false_ne_true
  obtain ⟨l, hl, -, hC⟩ := hfuel _ s (Nat.lt_succ_self _)
  exact ⟨l, hl, hC⟩

/-- What every emission keeps, filling keeps. -/
theorem fillWindow_keeps {I : TCPSender → Prop}
    (hem : ∀ s seg s', I s → Emission s seg s' → I s') {s : TCPSender} (hs : I s) :
    I s.fillWindow := by
  obtain ⟨l, -, hkeeps⟩ := fillWindow_induction (C := fun s _ t => I s → I t)
    (fun _ _ h => h) (fun s seg s' _ _ he _ _ ih h => ih (hem s seg s' h he)) s
  exact hkeeps hs

/-! ## A round of `ack_received` -/

/-- What the loop of `ack_received` does with an acknowledged front. -/
def popFront (s : TCPSender) (front : Nat × TCPSegment) (rest : List (Nat × TCPSegment)) :
    TCPSender :=
  { s with
    bytesInFlightCounter :=
      Word64.sub64 s.bytesInFlightCounter front.2.lengthInSequenceSpace
    outstandingSegments := rest
    consecutiveRetransmissions := 0
    retransmissionTimeout := s.initialRetransmissionTimeout
    timer :=
      if !rest.isEmpty then .start s.initialRetransmissionTimeout
      else .reset }

/-- A round pops an acknowledged front, or stops. -/
theorem popRound_eq (absAckno : Nat) (s : TCPSender) :
    (∃ front rest, s.outstandingSegments = front :: rest
      ∧ front.1 + front.2.lengthInSequenceSpace ≤ absAckno
      ∧ popRound absAckno s = (true, popFront s front rest))
    ∨ popRound absAckno s = (false, s) := by
  rw [popRound]
  cases hq : s.outstandingSegments with
  | nil => exact Or.inr rfl
  | cons front rest =>
      dsimp only
      by_cases hend : front.1 + front.2.lengthInSequenceSpace ≤ absAckno
      · rw [if_pos hend]
        exact Or.inl ⟨front, rest, rfl, hend, rfl⟩
      · rw [if_neg hend]
        exact Or.inr rfl

/-- What every pop keeps is kept after any number of rounds. -/
theorem popRounds_keep {absAckno : Nat} {I : TCPSender → Prop}
    (hpop : ∀ s front rest, I s → s.outstandingSegments = front :: rest →
      front.1 + front.2.lengthInSequenceSpace ≤ absAckno → I (popFront s front rest)) :
    ∀ (rounds : Nat) (s : TCPSender), I s → I (whileTrue (popRound absAckno) rounds s) := by
  intro rounds
  induction rounds with
  | zero => intro s hs; exact hs
  | succ rounds ih =>
      intro s hs
      rcases popRound_eq absAckno s with ⟨front, rest, hq, hend, heq⟩ | heq
      · rw [whileTrue_go rounds (by rw [heq]), heq]
        exact ih _ (hpop s front rest hs hq hend)
      · rw [whileTrue_stop rounds (by rw [heq]), heq]
        exact hs

/-! ## A tick -/

/-- The timeout after a retransmission: doubled, unless the window is zero. -/
def backedOff (s : TCPSender) : Nat :=
  if s.windowSize > 0 then s.retransmissionTimeout * 2 % 2 ^ 64 else s.retransmissionTimeout

/-- The retransmissions counted after another one. -/
def counted (s : TCPSender) : Nat :=
  if s.windowSize > 0 then (s.consecutiveRetransmissions + 1) % 2 ^ 32
  else s.consecutiveRetransmissions

/-- A retransmission, field by field. -/
theorem retransmit_eq (s : TCPSender) (front : Nat × TCPSegment) :
    s.retransmit front
      = { s with
          segmentsOut := s.segmentsOut ++ [s.resent front]
          consecutiveRetransmissions := counted s
          retransmissionTimeout := backedOff s
          timer := .start (backedOff s) } := by
  rw [retransmit, counted, backedOff]
  dsimp only
  split_ifs <;> rfl

/-- **A TICK, IN FULL**: the timer goes on, and where that makes it expire the front of
    the queue is sent again. -/
theorem tick_cases (s : TCPSender) (ms : Nat) :
    (s.tick ms = { s with timer := s.timer.update ms }
      ∧ ((s.timer.update ms).expired = false ∨ s.outstandingSegments = []))
    ∨ ∃ front rest, s.outstandingSegments = front :: rest
      ∧ (s.timer.update ms).expired = true
      ∧ s.tick ms
        = { s with
            segmentsOut := s.segmentsOut ++ [s.resent front]
            consecutiveRetransmissions := counted s
            retransmissionTimeout := backedOff s
            timer := .start (backedOff s) } := by
  rw [tick]
  cases hactive : s.timer.active with
  | false =>
      have hsame : s.timer.update ms = s.timer := by
        rw [Timer.update, hactive]
        rfl
      rw [if_neg Bool.false_ne_true, hsame, Timer.expired, hactive]
      exact Or.inl ⟨rfl, Or.inl rfl⟩
  | true =>
      rw [if_pos rfl]
      dsimp only
      cases hq : s.outstandingSegments with
      | nil => exact Or.inl ⟨rfl, Or.inr rfl⟩
      | cons front rest =>
          dsimp only
          cases hexp : (s.timer.update ms).expired with
          | false =>
              rw [if_neg Bool.false_ne_true]
              exact Or.inl ⟨rfl, Or.inl rfl⟩
          | true =>
              rw [if_pos rfl, retransmit_eq]
              exact Or.inr ⟨front, rest, rfl, rfl, rfl⟩

/-! ## The elementary changes -/

/-- `I` survives every elementary change of a sender but the passing of time and the
    overload of `send_empty_segment` with flags; a write is asked for only where `W`
    allows it. -/
structure Changes (W : TCPSender → Prop) (I : TCPSender → Prop) : Prop where
  emit : ∀ s seg s', I s → Emission s seg s' → I s'
  window : ∀ s windowSize, I s → I { s with windowSize := windowSize }
  base : ∀ s absAckno, I s → absAckno ≤ s.nextSeqno → I { s with absAckno := absAckno }
  pop : ∀ s front rest, I s → s.outstandingSegments = front :: rest →
    front.1 + front.2.lengthInSequenceSpace ≤ s.absAckno → I (popFront s front rest)
  write : ∀ s data, I s → W s → I { s with stream := (s.stream.write data).2 }
  ended : ∀ s, I s → I { s with stream := s.stream.endInput }
  error : ∀ s, I s → I { s with stream := s.stream.setError }
  more : ∀ s out, I s → I { s with segmentsOut := s.segmentsOut ++ out }

variable {W I : TCPSender → Prop}

theorem Changes.fillWindow (h : Changes W I) (hs : I s) : I s.fillWindow :=
  fillWindow_keeps h.emit hs

/-- An acknowledgement notes the window, moves the base, pops the queue and fills the
    window. -/
theorem Changes.ackReceived (h : Changes W I) (hs : I s) (ackno : WrappingInt32)
    (window : BitVec 16) : I (s.ackReceived ackno window) := by
  have hwindow := h.window s window.toNat hs
  by_cases hbeyond : s.nextSeqno < ackedTo s ackno
  · rw [ackReceived_of_beyond window hbeyond]
    exact hwindow
  · have hnote : s.noteAck ackno window
        = (true, { s with windowSize := window.toNat, absAckno := ackedTo s ackno }.popAcked
          (ackedTo s ackno)) := if_neg hbeyond
    rw [ackReceived_noted (congrArg Prod.fst hnote), hnote]
    refine h.fillWindow ?_
    -- the base stays where the acknowledgement put it while the queue is popped
    refine (popRounds_keep (I := fun t => I t ∧ t.absAckno = ackedTo s ackno) ?_ _ _
      ⟨?_, rfl⟩).1
    · rintro t front rest ⟨ht, hbase⟩ hq hend
      rw [← hbase] at hend
      exact ⟨h.pop t front rest ht hq hend, hbase⟩
    · exact h.base _ _ hwindow (Nat.le_of_not_lt hbeyond)

/-- What survives the elementary changes survives what a connection does between the
    ticks, if it does not speak about the output queue. -/
theorem Changes.quietSteps (h : Changes W I)
    (hqueue : ∀ s queue, I s → I { s with segmentsOut := queue }) :
    QuietSteps W (fun _ _ => True) I where
  queue := hqueue
  fill := fun _ hs => h.fillWindow hs
  wrote := fun s data hs hW => h.fillWindow (h.write s data hs hW)
  ended := fun s hs => h.fillWindow (h.ended s hs)
  heard := fun _ ackno window hs _ => h.ackReceived hs ackno window
  error := h.error

/-! ## The public operations -/

/-- What an operation does to the sender. -/
def call (s : TCPSender) : SpongeOldAck.Op → TCPSender
  | .write data => { s with stream := (s.stream.write data).2 }
  | .endInput => { s with stream := s.stream.endInput }
  | .setError => { s with stream := s.stream.setError }
  | .fillWindow => s.fillWindow
  | .ackReceived ackno windowSize => s.ackReceived ackno windowSize
  | .tick ms => s.tick ms
  | .sendEmptySegment => s.sendEmptySegment
  | .sendFlagsSegment syn fin rst => s.sendFlagsSegment syn fin rst

theorem step_sender {x y : Hearing} {op : SpongeOldAck.Op}
    (h : SpongeOldAck.step x op = some y) : y.sender = call x.sender op := by
  cases op <;> rw [← Option.some.inj h] <;> rfl

/-- **THE CALL RULE**: what survives the elementary changes and the passing of time
    survives every operation, where it survives the overload with flags. -/
theorem Changes.call (h : Changes W I) (htick : ∀ s ms, I s → I (s.tick ms)) (hs : I s)
    {op : SpongeOldAck.Op} (hW : ∀ data, op = .write data → W s)
    (hflags : ∀ syn fin rst, op = .sendFlagsSegment syn fin rst →
      I (s.sendFlagsSegment syn fin rst)) : I (SpongeSenderRule.call s op) := by
  cases op with
  | write data => exact h.write s data hs (hW data rfl)
  | endInput => exact h.ended s hs
  | setError => exact h.error s hs
  | fillWindow => exact h.fillWindow hs
  | ackReceived ackno window => exact h.ackReceived hs ackno window
  | tick ms => exact htick s ms hs
  | sendEmptySegment => exact h.more s _ hs
  | sendFlagsSegment syn fin rst => exact hflags syn fin rst rfl

/-- **THE RUN RULE**: what a fresh sender has and every change, the passing of time and
    any empty segment keep, a sender has after every run. -/
theorem Changes.reached (h : Changes (fun _ => True) I) (htick : ∀ s ms, I s → I (s.tick ms))
    (hflags : ∀ s syn fin rst, I s → I (s.sendFlagsSegment syn fin rst))
    {capacity : UInt64} {retxTimeout : BitVec 16} {isn : WrappingInt32}
    {ops : List SpongeOldAck.Op} {x : Hearing}
    (hstart : I (SpongeOldAck.start capacity retxTimeout isn).sender)
    (hrun : run SpongeOldAck.step (SpongeOldAck.start capacity retxTimeout isn) ops
      = some x) : I x.sender := by
  refine run_keeps (I := fun x : Hearing => I x.sender) ?_ hstart hrun
  intro y op z hy hstep
  rw [step_sender hstep]
  exact h.call htick hy (fun _ _ => trivial) fun syn fin rst _ => hflags _ syn fin rst hy

/-- The overload with flags is called as the connection calls it. -/
def OnlyResets : SpongeOldAck.Op → Prop
  | .sendFlagsSegment syn fin rst => syn = false ∧ fin = false ∧ rst = true
  | .write _ => True
  | .endInput => True
  | .setError => True
  | .fillWindow => True
  | .ackReceived _ _ => True
  | .tick _ => True
  | .sendEmptySegment => True

instance : DecidablePred OnlyResets
  | .sendFlagsSegment _ _ _ => inferInstanceAs (Decidable (_ ∧ _ ∧ _))
  | .write _ => isTrue trivial
  | .endInput => isTrue trivial
  | .setError => isTrue trivial
  | .fillWindow => isTrue trivial
  | .ackReceived _ _ => isTrue trivial
  | .tick _ => isTrue trivial
  | .sendEmptySegment => isTrue trivial

theorem OnlyResets.flags {op : SpongeOldAck.Op} (hop : OnlyResets op)
    (hreset : I (s.sendFlagsSegment false false true)) :
    ∀ syn fin rst, op = .sendFlagsSegment syn fin rst →
      I (s.sendFlagsSegment syn fin rst) := by
  rintro syn fin rst rfl
  obtain ⟨rfl, rfl, rfl⟩ := hop
  exact hreset

end SpongeSenderRule
