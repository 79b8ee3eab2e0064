import Sponge.SenderRuleProofs

/-! # When a connection gives up

    After `MAX_RETX_ATTEMPTS` consecutive retransmissions the next `tick` sends a reset
    and kills the connection.  A `Trial` is a connection with the history that such a
    decision is about: how often the oldest segment was sent again, and how long ago.

    Between the ticks the counter stays, or an acknowledged segment clears it (`Calm`); a
    tick adds one to it together with a retransmission (`Resent`).  So the oldest segment
    was always sent again often enough, and the timeout has been doubled each time.  Two
    things can be missing when the connection gives up (`gives_up_iff`):

    * `tick` reads the counter before it lets the time pass, so that the last
      retransmission is not waited for (`gives_up_at_once`);
    * an acknowledgement of a part of the oldest segment is new, and does not clear the
      counter. -/

namespace SpongePatience

open SpongeByteStream SpongeWrapping SpongeSegment SpongeReceiver SpongeSender
open SpongeConnection SpongeLifecycle SpongeSenderRule RunRule
open SpongeOldAck (ackedTo)

/-- A connection with the history of its retransmissions. -/
structure Trial where
  life : Life
  /-- how often the oldest outstanding segment was sent again -/
  tries : Nat
  /-- how often it was, since the last new acknowledgement -/
  resent : Nat
  /-- the time since a segment was last sent again -/
  sinceResent : Nat
  /-- the largest acknowledgement accepted so far -/
  largest : Nat
deriving DecidableEq, Repr

def start (cfg : TCPConfig) (random : BitVec 32) : Trial :=
  ⟨SpongeLifecycle.start cfg random, 0, 0, 0, 0⟩

/-- The tick sends the reset for a retransmission failure. -/
def GivesUp (c : TCPConnection) (ms : Nat) : Prop :=
  c.tick ms = ({ c with
    timeLastRecv := (c.timeLastRecv + ms) % 2 ^ 64 }.sendRstEmptySegment).killConnection false

instance (c : TCPConnection) (ms : Nat) : Decidable (GivesUp c ms) :=
  inferInstanceAs (Decidable (_ = _))

/-- How many segments the operation sends again. -/
def resends (c : TCPConnection) : Op → Nat
  | .tick ms =>
      if GivesUp c ms then 0
      else (c.sender.tick ms).segmentsOut.length - c.sender.segmentsOut.length
  | _ => 0

/-- How much time passes. -/
def passes : Op → Nat
  | .tick ms => ms
  | _ => 0

/-- The acknowledgement that reaches the sender and is not beyond its next number; zero
    without one. -/
def accepted (c : TCPConnection) : Op → Nat
  | .segmentReceived seg =>
      if seg.header.rst then 0
      else (c.heard seg).elim 0 fun ackno =>
        if ackedTo c.sender ackno ≤ c.sender.nextSeqno then ackedTo c.sender ackno else 0
  | _ => 0

/-- An acknowledgement beyond every earlier one. -/
def Fresh (x : Trial) (op : Op) : Prop := x.largest < accepted x.life.conn op

instance (x : Trial) (op : Op) : Decidable (Fresh x op) := inferInstanceAs (Decidable (_ < _))

/-- Nothing has left the queue of outstanding segments. -/
def Keeps (s s' : TCPSender) : Prop := s.outstandingSegments <+: s'.outstandingSegments

instance (s s' : TCPSender) : Decidable (Keeps s s') := inferInstanceAs (Decidable (_ <+: _))

/-- One step of the connection, and what it adds to the history. -/
def step (x : Trial) (op : Op) : Option Trial :=
  (SpongeLifecycle.step x.life op).map fun life =>
    { life := life
      tries :=
        if Keeps x.life.conn.sender life.conn.sender
        then x.tries + resends x.life.conn op else 0
      resent :=
        if Keeps x.life.conn.sender life.conn.sender ∧ ¬ Fresh x op
        then x.resent + resends x.life.conn op else 0
      sinceResent :=
        if resends x.life.conn op = 0 then x.sinceResent + passes op else 0
      largest := max x.largest (accepted x.life.conn op) }

/-! ## Where a tick gives up -/

theorem givesUp_iff (c : TCPConnection) (ms : Nat) :
    GivesUp c ms ↔ TCPConfig.maxRetxAttempts ≤ c.sender.consecutiveRetransmissions := by
  constructor
  · intro h
    rcases tick_sender c ms with ⟨hmax, -⟩ | ⟨-, hsender⟩
    · exact hmax
    · -- the reset is queued, and a tick of the sender queues nothing
      rw [GivesUp] at h
      rw [h] at hsender
      have hqueue := congrArg TCPSender.outstandingSegments hsender
      have hsame := (TCPSender.ticked c.sender ms).outstanding
      exact absurd (hqueue.trans hsame) (by simp [TCPConnection.killConnection,
        TCPConnection.sendRstEmptySegment, TCPConnection.clearSenderBuffer,
        TCPSender.sendFlagsSegment])
  · intro hmax
    exact if_pos hmax

/-! ## What an operation does to the counter -/

/-- The counter and the timeout stay and so does the queue, or both are back at their
    first values. -/
structure Calm (s s' : TCPSender) : Prop where
  initial : s'.initialRetransmissionTimeout = s.initialRetransmissionTimeout
  counter : (Keeps s s' ∧ s'.consecutiveRetransmissions = s.consecutiveRetransmissions
      ∧ s'.retransmissionTimeout = s.retransmissionTimeout)
    ∨ (s'.consecutiveRetransmissions = 0
      ∧ s'.retransmissionTimeout = s'.initialRetransmissionTimeout)

/-- The oldest segment was sent again. -/
structure Resent (s s' : TCPSender) : Prop where
  few : s.consecutiveRetransmissions < TCPConfig.maxRetxAttempts
  waiting : s.outstandingSegments ≠ []
  queue : s'.outstandingSegments = s.outstandingSegments
  initial : s'.initialRetransmissionTimeout = s.initialRetransmissionTimeout
  counter : s'.consecutiveRetransmissions = counted s
  timeout : s'.retransmissionTimeout = backedOff s

variable {s s' t : TCPSender} {x y : Trial} {op : Op}

theorem Calm.refl (s : TCPSender) : Calm s s := ⟨rfl, Or.inl ⟨List.prefix_refl _, rfl, rfl⟩⟩

/-- Growing at its end, the queue is kept. -/
theorem Calm.grow {out : List (Nat × TCPSegment)} (h : Calm s s')
    (hqueue : t.outstandingSegments = s'.outstandingSegments ++ out)
    (hinitial : t.initialRetransmissionTimeout = s'.initialRetransmissionTimeout)
    (hcounter : t.consecutiveRetransmissions = s'.consecutiveRetransmissions)
    (htimeout : t.retransmissionTimeout = s'.retransmissionTimeout) : Calm s t := by
  refine ⟨hinitial.trans h.initial, ?_⟩
  rw [hcounter, htimeout, hinitial]
  refine h.counter.imp_left ?_
  rintro ⟨hkeeps, hrest⟩
  refine ⟨?_, hrest⟩
  rw [Keeps, hqueue]
  exact hkeeps.trans (List.prefix_append _ _)

/-- A change of the other fields. -/
theorem Calm.other (h : Calm s s') (hqueue : t.outstandingSegments = s'.outstandingSegments)
    (hinitial : t.initialRetransmissionTimeout = s'.initialRetransmissionTimeout)
    (hcounter : t.consecutiveRetransmissions = s'.consecutiveRetransmissions)
    (htimeout : t.retransmissionTimeout = s'.retransmissionTimeout) : Calm s t :=
  h.grow (hqueue.trans (List.append_nil _).symm) hinitial hcounter htimeout

theorem calm_changes (s : TCPSender) : Changes (fun _ => True) (Calm s) where
  emit := fun _ _ _ h hem =>
    h.grow hem.outstanding hem.initial hem.retransmissions hem.timeout
  window := fun _ _ h => h.other rfl rfl rfl rfl
  base := fun _ _ h _ => h.other rfl rfl rfl rfl
  pop := fun _ _ _ h _ _ => ⟨h.initial, Or.inr ⟨rfl, rfl⟩⟩
  write := fun _ _ h _ => h.other rfl rfl rfl rfl
  ended := fun _ h => h.other rfl rfl rfl rfl
  error := fun _ h => h.other rfl rfl rfl rfl
  more := fun _ _ h => h.other rfl rfl rfl rfl

/-- A tick of the connection gives up, or is a tick of the sender. -/
theorem tick_calm_or_resent (c : TCPConnection) (ms : Nat) :
    (resends c (.tick ms) = 0 ∧ Calm c.sender (c.tick ms).sender)
    ∨ (resends c (.tick ms) = 1 ∧ Resent c.sender (c.tick ms).sender) := by
  rcases tick_sender c ms with ⟨hmax, hsender⟩ | ⟨hless, hsender⟩
  · rw [hsender]
    exact Or.inl ⟨if_pos ((givesUp_iff c ms).mpr hmax), (Calm.refl _).grow rfl rfl rfl rfl⟩
  · have hresends : resends c (.tick ms)
        = (c.sender.tick ms).segmentsOut.length - c.sender.segmentsOut.length :=
      if_neg fun h => Nat.not_le.mpr hless ((givesUp_iff c ms).mp h)
    rw [hsender, hresends]
    rcases tick_cases c.sender ms with ⟨htick, -⟩ | ⟨front, rest, hq, -, htick⟩
    · rw [htick]
      exact Or.inl ⟨Nat.sub_self _, (Calm.refl _).other rfl rfl rfl rfl⟩
    · rw [htick]
      refine Or.inr ⟨?_, hless, ?_, rfl, rfl, rfl, rfl⟩
      · rw [List.length_append]
        exact Nat.add_sub_cancel_left _ _
      · rw [hq]
        exact List.cons_ne_nil _ _

/-- **AN OPERATION AND THE COUNTER**: nothing is sent again and the counter is calm, or
    the oldest segment is sent again. -/
theorem calm_or_resent {l l' : Life} (hstep : SpongeLifecycle.step l op = some l') :
    (resends l.conn op = 0 ∧ Calm l.conn.sender l'.conn.sender)
    ∨ (resends l.conn op = 1 ∧ Resent l.conn.sender l'.conn.sender) := by
  have hquiet : (∀ ms, op ≠ .tick ms) → Calm l.conn.sender l'.conn.sender := by
    intro hnot
    refine quiet_rule ((calm_changes l.conn.sender).quietSteps
      fun _ _ h => h.other rfl rfl rfl rfl) (Calm.refl _) (meets_of_always l op) ?_ hstep
    exact fun ms h => absurd h (hnot ms)
  cases op with
  | tick ms =>
      rw [← Option.some.inj hstep]
      exact tick_calm_or_resent l.conn ms
  | _ => exact Or.inl ⟨rfl, hquiet fun _ h => Op.noConfusion h⟩

/-- The counter goes up by no more than what was sent again, and only where nothing has
    left the queue is it not zero. -/
theorem counter_le {l l' : Life} {n : Nat} (hstep : SpongeLifecycle.step l op = some l')
    (hn : l.conn.sender.consecutiveRetransmissions ≤ n) :
    l'.conn.sender.consecutiveRetransmissions
      ≤ if Keeps l.conn.sender l'.conn.sender then n + resends l.conn op else 0 := by
  rcases calm_or_resent hstep with ⟨hnone, hcalm⟩ | ⟨hone, hresent⟩
  · rw [hnone]
    rcases hcalm.counter with ⟨hkeeps, hsame, -⟩ | ⟨hzero, -⟩
    · rw [if_pos hkeeps, hsame]
      exact hn
    · rw [hzero]
      exact Nat.zero_le _
  · have hkeeps : Keeps l.conn.sender l'.conn.sender := by
      rw [Keeps, hresent.queue]
    have hcounted : counted l.conn.sender ≤ l.conn.sender.consecutiveRetransmissions + 1 := by
      rw [counted]
      split_ifs
      · exact Nat.mod_le _ _
      · exact Nat.le_succ _
    rw [if_pos hkeeps, hone, hresent.counter]
    omega

/-! ## What every run keeps -/

/-- The timeout is the initial one doubled for every counted retransmission, of which
    there are never too many, and none while nothing is outstanding. -/
structure Backed (initial : Nat) (s : TCPSender) : Prop where
  same : s.initialRetransmissionTimeout = initial
  few : s.consecutiveRetransmissions ≤ TCPConfig.maxRetxAttempts
  doubled : s.retransmissionTimeout = initial * 2 ^ s.consecutiveRetransmissions
  waiting : s.outstandingSegments = [] → s.consecutiveRetransmissions = 0

variable {initial : Nat}

theorem Backed.calm (h : Backed initial s) (hcalm : Calm s s') : Backed initial s' := by
  have hsame := hcalm.initial.trans h.same
  rcases hcalm.counter with ⟨hkeeps, hcounter, htimeout⟩ | ⟨hzero, htimeout⟩
  · refine ⟨hsame, ?_, ?_, ?_⟩
    · rw [hcounter]
      exact h.few
    · rw [htimeout, hcounter]
      exact h.doubled
    · intro hempty
      rw [Keeps, hempty] at hkeeps
      rw [hcounter]
      exact h.waiting (List.prefix_nil.mp hkeeps)
  · refine ⟨hsame, ?_, ?_, fun _ => hzero⟩
    · rw [hzero]
      exact Nat.zero_le _
    · rw [htimeout, hsame, hzero, Nat.pow_zero, Nat.mul_one]

/-- A timeout of sixteen bits can be doubled as often without leaving 64 bits. -/
theorem doubled_small {k : Nat} (hsmall : initial < 2 ^ 16)
    (hk : k < TCPConfig.maxRetxAttempts) : initial * 2 ^ k * 2 < 2 ^ 64 := by
  have hpow : 2 ^ k ≤ 2 ^ 8 := Nat.pow_le_pow_right (by decide) (Nat.le_of_lt hk)
  have hmul := Nat.mul_le_mul (Nat.le_of_lt hsmall) hpow
  have hbound : 2 ^ 16 * 2 ^ 8 * 2 < 2 ^ 64 := by decide
  omega

theorem Backed.resent (h : Backed initial s) (hsmall : initial < 2 ^ 16)
    (hresent : Resent s s') : Backed initial s' := by
  have hless := hresent.few
  have hmax : TCPConfig.maxRetxAttempts < 2 ^ 32 := by decide
  have hcount : (s.consecutiveRetransmissions + 1) % 2 ^ 32
      = s.consecutiveRetransmissions + 1 := Nat.mod_eq_of_lt (by omega)
  refine ⟨hresent.initial.trans h.same, ?_, ?_, ?_⟩
  · rw [hresent.counter, counted]
    split_ifs
    · omega
    · exact h.few
  · rw [hresent.counter, hresent.timeout, counted, backedOff]
    split_ifs
    · rw [hcount, h.doubled, Nat.mod_eq_of_lt (doubled_small hsmall hless), Nat.mul_assoc,
        ← Nat.pow_succ]
    · exact h.doubled
  · intro hempty
    rw [hresent.queue] at hempty
    exact absurd hempty hresent.waiting

/-- What every operation keeps of a trial. -/
structure Patient (initial : Nat) (x : Trial) : Prop where
  backed : Backed initial x.life.conn.sender
  tried : x.life.conn.sender.consecutiveRetransmissions ≤ x.tries

theorem Patient.step (hsmall : initial < 2 ^ 16) (h : Patient initial x)
    (hstep : step x op = some y) : Patient initial y := by
  obtain ⟨life, hlife, rfl⟩ := Option.map_eq_some_iff.mp hstep
  refine ⟨?_, counter_le hlife h.tried⟩
  rcases calm_or_resent hlife with ⟨-, hcalm⟩ | ⟨-, hresent⟩
  · exact h.backed.calm hcalm
  · exact h.backed.resent hsmall hresent

theorem patient_start (cfg : TCPConfig) (random : BitVec 32) :
    Patient cfg.rtTimeout.toNat (start cfg random) := by
  refine ⟨⟨rfl, Nat.zero_le _, ?_, fun _ => rfl⟩, Nat.le_refl 0⟩
  show cfg.rtTimeout.toNat = cfg.rtTimeout.toNat * 2 ^ 0
  rw [Nat.pow_zero, Nat.mul_one]

/-! ## New acknowledgements -/

/-- An acknowledgement that is new covers the whole oldest segment. -/
def CoversOldest (x : Trial) (op : Op) : Prop :=
  Fresh x op → ∀ front ∈ x.life.conn.sender.outstandingSegments.head?,
    front.1 + front.2.lengthInSequenceSpace ≤ accepted x.life.conn op

instance (x : Trial) (op : Op) : Decidable (CoversOldest x op) :=
  inferInstanceAs (Decidable (_ → _))

/-- A new acknowledgement is one that was accepted. -/
theorem Fresh.heard (h : Fresh x op) :
    ∃ seg ackno, op = .segmentReceived seg ∧ seg.header.rst = false
      ∧ x.life.conn.heard seg = some ackno
      ∧ ackedTo x.life.conn.sender ackno ≤ x.life.conn.sender.nextSeqno
      ∧ accepted x.life.conn op = ackedTo x.life.conn.sender ackno := by
  have hpos : 0 < accepted x.life.conn op := Nat.lt_of_le_of_lt (Nat.zero_le _) h
  cases op with
  | segmentReceived seg =>
      rw [accepted] at hpos ⊢
      cases hrst : seg.header.rst with
      | true =>
          rw [hrst, if_pos rfl] at hpos
          exact absurd hpos (Nat.lt_irrefl 0)
      | false =>
          rw [hrst, if_neg Bool.false_ne_true] at hpos
          rw [if_neg Bool.false_ne_true]
          cases hheard : x.life.conn.heard seg with
          | none =>
              rw [hheard] at hpos
              exact absurd hpos (Nat.lt_irrefl 0)
          | some ackno =>
              rw [hheard, Option.elim_some] at hpos
              rw [Option.elim_some]
              split_ifs at hpos ⊢ with hle
              · exact ⟨seg, ackno, rfl, hrst, hheard, hle, rfl⟩
              · exact absurd hpos (Nat.lt_irrefl 0)
  | _ => exact absurd hpos (Nat.lt_irrefl 0)

/-- A new acknowledgement that covers the oldest segment clears the counter. -/
theorem Fresh.clears {life : Life} (hfresh : Fresh x op) (hcovers : CoversOldest x op)
    (hbacked : Backed initial x.life.conn.sender)
    (hlife : SpongeLifecycle.step x.life op = some life) :
    life.conn.sender.consecutiveRetransmissions = 0 := by
  have hfront := hcovers hfresh
  obtain ⟨seg, ackno, rfl, hrst, hheard, hreached, hacc⟩ := hfresh.heard
  rw [hacc] at hfront
  have hle := counter_le hlife (Nat.le_refl _)
  cases hq : x.life.conn.sender.outstandingSegments with
  | nil =>
      rw [hbacked.waiting hq] at hle
      split_ifs at hle
      · exact Nat.le_zero.mp hle
      · exact Nat.le_zero.mp hle
  | cons front rest =>
      have hleft : ¬ Keeps x.life.conn.sender life.conn.sender := by
        obtain ⟨c, hc, htaken⟩ := TCPConnection.taken_of_heard hrst hheard
        obtain ⟨c', hc', rfl⟩ := Option.map_eq_some_iff.mp hlife
        rw [hc] at hc'
        obtain rfl := Option.some.inj hc'
        show ¬ x.life.conn.sender.outstandingSegments <+: c.sender.outstandingSegments
        rw [htaken.flushed.sender]
        intro hkept
        have hlt := (answer_keeps_iff x.life.conn seg ackno hreached).mp hkept front
          (by rw [hq]; rfl)
        have hend := hfront front (by rw [hq]; rfl)
        omega
      rw [if_neg hleft] at hle
      exact Nat.le_zero.mp hle

/-- **ONLY WHOLE SEGMENTS**: as long as every new acknowledgement covers the oldest
    segment, the counter is the number of retransmissions since the last one, at most. -/
theorem resent_step (hcovers : CoversOldest x op)
    (hbacked : Backed initial x.life.conn.sender)
    (h : x.life.conn.sender.consecutiveRetransmissions ≤ x.resent)
    (hstep : step x op = some y) :
    y.life.conn.sender.consecutiveRetransmissions ≤ y.resent := by
  obtain ⟨life, hlife, rfl⟩ := Option.map_eq_some_iff.mp hstep
  dsimp only
  by_cases hfresh : Fresh x op
  · rw [hfresh.clears hcovers hbacked hlife]
    exact Nat.zero_le _
  · have hle := counter_le hlife h
    by_cases hkeeps : Keeps x.life.conn.sender life.conn.sender
    · rw [if_pos hkeeps] at hle
      rw [if_pos ⟨hkeeps, hfresh⟩]
      exact hle
    · rw [if_neg hkeeps] at hle
      exact Nat.le_trans hle (Nat.zero_le _)

/-! ## The time since the last retransmission -/

/-- The operation is not a tick that gives up. -/
def Persists (x : Trial) : Op → Prop
  | .tick ms => ¬ GivesUp x.life.conn ms
  | .connect => True
  | .write _ => True
  | .endInputStream => True
  | .segmentReceived _ => True
  | .read _ => True
  | .pop _ => True
  | .transmit => True

instance (x : Trial) : ∀ op : Op, Decidable (Persists x op)
  | .tick ms => inferInstanceAs (Decidable (¬ GivesUp x.life.conn ms))
  | .connect => isTrue trivial
  | .write _ => isTrue trivial
  | .endInputStream => isTrue trivial
  | .segmentReceived _ => isTrue trivial
  | .read _ => isTrue trivial
  | .pop _ => isTrue trivial
  | .transmit => isTrue trivial

/-- With the retransmissions used up, no time passes but in a tick that gives up. -/
theorem passes_of_persists (hop : Persists x op)
    (hmax : x.life.conn.sender.consecutiveRetransmissions = TCPConfig.maxRetxAttempts) :
    passes op = 0 := by
  cases op with
  | tick ms => exact absurd ((givesUp_iff _ _).mpr (Nat.le_of_eq hmax.symm)) hop
  | _ => rfl

/-- The last retransmission is recent: the next tick gives up. -/
theorem sinceResent_step (hop : Persists x op)
    (h : x.life.conn.sender.consecutiveRetransmissions = TCPConfig.maxRetxAttempts →
      x.sinceResent = 0)
    (hstep : step x op = some y)
    (hmax : y.life.conn.sender.consecutiveRetransmissions = TCPConfig.maxRetxAttempts) :
    y.sinceResent = 0 := by
  obtain ⟨life, hlife, rfl⟩ := Option.map_eq_some_iff.mp hstep
  dsimp only at hmax ⊢
  rcases calm_or_resent hlife with ⟨hnone, hcalm⟩ | ⟨hone, -⟩
  · rcases hcalm.counter with ⟨-, hsame, -⟩ | ⟨hzero, -⟩
    · rw [hsame] at hmax
      rw [if_pos hnone, h hmax, passes_of_persists hop hmax]
    · rw [hzero] at hmax
      exact absurd hmax (by decide)
  · rw [hone]
    exact if_neg Nat.one_ne_zero

/-! ## Giving up -/

/-- What giving up should wait for: the oldest segment was sent again as often as allowed
    since the last new acknowledgement, and the last of these has timed out. -/
def Exhausted (x : Trial) (ms : Nat) : Prop :=
  TCPConfig.maxRetxAttempts ≤ x.resent
    ∧ x.life.conn.sender.retransmissionTimeout ≤ x.sinceResent + ms

instance (x : Trial) (ms : Nat) : Decidable (Exhausted x ms) :=
  inferInstanceAs (Decidable (_ ∧ _))

/-- **GIVING UP**: whenever a tick of a run gives up, a segment is outstanding and the
    oldest was sent again as often as allowed, and the timeout is the initial one doubled
    as often.  With whole segments acknowledged only, the first tick that gives up does so
    in order iff it alone is as long as that timeout, since the last retransmission was in
    the tick before; a later one iff the time since then and it are. -/
theorem gives_up_iff (cfg : TCPConfig) (random : BitVec 32) (ops : List Op) (x : Trial)
    (hrun : run step (start cfg random) ops = some x) (ms : Nat)
    (hup : GivesUp x.life.conn ms) :
    x.life.conn.sender.outstandingSegments ≠ []
      ∧ TCPConfig.maxRetxAttempts ≤ x.tries
      ∧ x.life.conn.sender.retransmissionTimeout
        = cfg.rtTimeout.toNat * 2 ^ TCPConfig.maxRetxAttempts
      ∧ (Along step CoversOldest (start cfg random) ops →
        Along step Persists (start cfg random) ops →
        (Exhausted x ms ↔ cfg.rtTimeout.toNat * 2 ^ TCPConfig.maxRetxAttempts ≤ ms))
      ∧ (Along step CoversOldest (start cfg random) ops →
        (Exhausted x ms
          ↔ cfg.rtTimeout.toNat * 2 ^ TCPConfig.maxRetxAttempts ≤ x.sinceResent + ms))
      ∧ (Along step Persists (start cfg random) ops → x.sinceResent = 0) := by
  have hpatient : ∀ x op y, Patient cfg.rtTimeout.toNat x → step x op = some y →
      Patient cfg.rtTimeout.toNat y :=
    fun _ _ _ h hstep => h.step cfg.rtTimeout.isLt hstep
  have h : Patient cfg.rtTimeout.toNat x :=
    run_keeps hpatient (patient_start cfg random) hrun
  have hmax := Nat.le_antisymm h.backed.few ((givesUp_iff _ _).mp hup)
  have htimeout := h.backed.doubled
  have htried := h.tried
  rw [hmax] at htimeout htried
  have hexhausted : Along step CoversOldest (start cfg random) ops → (Exhausted x ms
      ↔ cfg.rtTimeout.toNat * 2 ^ TCPConfig.maxRetxAttempts ≤ x.sinceResent + ms) := by
    intro hcovers
    have hresent := (run_invariant
      (I := fun x : Trial => Patient cfg.rtTimeout.toNat x
        ∧ x.life.conn.sender.consecutiveRetransmissions ≤ x.resent)
      (fun x op y hx hop hstep => ⟨hpatient x op y hx.1 hstep,
        resent_step hop hx.1.backed hx.2 hstep⟩)
      ops _ x ⟨patient_start cfg random, Nat.le_refl 0⟩ hcovers hrun).2
    rw [hmax] at hresent
    rw [Exhausted, htimeout]
    exact and_iff_right hresent
  have hrecent : Along step Persists (start cfg random) ops → x.sinceResent = 0 := by
    intro hpersists
    exact run_invariant
      (I := fun x : Trial => x.life.conn.sender.consecutiveRetransmissions
        = TCPConfig.maxRetxAttempts → x.sinceResent = 0)
      (fun x op y hx hop hstep => sinceResent_step hop hx hstep)
      ops _ x (fun _ => rfl) hpersists hrun hmax
  refine ⟨fun hempty => ?_, htried, htimeout, fun hcovers hpersists => ?_, hexhausted, hrecent⟩
  · rw [h.backed.waiting hempty] at hmax
    exact absurd hmax (by decide)
  · rw [hexhausted hcovers, hrecent hpersists, Nat.zero_add]

/-- An unanswered `SYN`, sent again eight times. -/
def unanswered : List Op :=
  [.connect, .tick 1000, .tick 2000, .tick 4000, .tick 8000, .tick 16000, .tick 32000,
    .tick 64000, .tick 128000]

/-- A tick as long as the last timeout gives up in order. -/
theorem gives_up_iff_waited :
    ∃ x, run step (start { fixedIsn := some ⟨0⟩ } 0) unanswered = some x
      ∧ GivesUp x.life.conn 256000 ∧ Exhausted x 256000 := by
  have hreach : ∃ x, run step (start { fixedIsn := some ⟨0⟩ } 0) unanswered = some x
      ∧ GivesUp x.life.conn 256000 := run_reaches (by decide)
  obtain ⟨x, hrun, hup⟩ := hreach
  obtain ⟨-, -, -, hiff, -⟩ := gives_up_iff { fixedIsn := some ⟨0⟩ } 0 unanswered x hrun _ hup
  exact ⟨x, hrun, hup, (hiff (by decide) (by decide)).mpr (by decide)⟩

/-- **AT ONCE**: a tick of no time gives up, right after the last retransmission. -/
theorem gives_up_at_once :
    ¬ ∀ (cfg : TCPConfig) (random : BitVec 32) (ops : List Op) (x : Trial) (ms : Nat),
      run step (start cfg random) ops = some x → GivesUp x.life.conn ms →
      Exhausted x ms := by
  intro hall
  have hreach : ∃ x, run step (start { fixedIsn := some ⟨0⟩ } 0) unanswered = some x
      ∧ GivesUp x.life.conn 0 ∧ ¬ Exhausted x 0 := run_reaches (by decide)
  obtain ⟨x, hrun, hup, hnot⟩ := hreach
  exact hnot (hall _ 0 unanswered x 0 hrun hup)

/-- The peer acknowledges the number. -/
def acknowledges (ackno : BitVec 32) (syn : Bool) : Op :=
  .segmentReceived
    { header :=
        { seqno := ⟨if syn then 0 else 1⟩, syn, ack := true, ackno := ⟨ackno⟩, win := 9 } }

/-- Two bytes are sent again eight times; half way the first of them is acknowledged. -/
example :
    ∃ x, run step (start { fixedIsn := some ⟨0⟩ } 0)
        [.connect, acknowledges 1 true, .write [0, 0], .tick 1000, .tick 2000, .tick 4000,
          .tick 8000, acknowledges 2 false, .tick 16000, .tick 32000, .tick 64000,
          .tick 128000] = some x
      ∧ GivesUp x.life.conn 256000 ∧ x.tries = 8 ∧ x.resent = 4 := run_reaches (by decide)

end SpongePatience
