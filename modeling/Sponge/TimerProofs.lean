import Sponge.SenderRuleProofs

/-! # The retransmission timer

    The timer counts milliseconds since it was started; when they reach its timeout the
    oldest segment is sent again, the timeout is doubled unless the window is zero, and
    the timer starts over.  `Armed` is what every operation keeps: a running timer has
    a queue to watch and runs with the timeout in force, and no expiry is left behind.

    * `timer_and_backoff` — the timer runs exactly while something is outstanding, and
      the timeout is the initial one doubled once for every counted retransmission;
    * `resends_on_time_iff` — the retransmission comes at the first tick at which the
      milliseconds reach the timeout exactly as long as the timer's clock agrees: it
      counts modulo `2 ^ 32`, and both the ticks and the timeout are cut to 32 bits
      (`tick_of_no_time`). -/

namespace SpongeTimer

open SpongeByteStream SpongeWrapping SpongeSegment SpongeSender RunRule
open SpongeOldAck SpongeSenderRule TCPSender

/-! ## The timer alone -/

section Clock

variable (t : Timer) (ms : Nat)

@[simp] theorem update_active : (t.update ms).active = t.active := by
  rw [Timer.update]
  split_ifs <;> rfl

@[simp] theorem update_timeout : (t.update ms).timeout = t.timeout := by
  rw [Timer.update]
  split_ifs <;> rfl

variable {t}

theorem update_of_inactive (h : t.active = false) : t.update ms = t := by
  rw [Timer.update, h]
  rfl

theorem update_currentTime (h : t.active = true) :
    (t.update ms).currentTime = (t.currentTime + ms) % 2 ^ 32 := by
  rw [Timer.update, h, Bool.not_true, if_neg Bool.false_ne_true]
  exact Nat.add_mod_mod _ _ _

/-- A running timer that has not expired expires when its clock reaches the timeout. -/
theorem update_expired (h : t.active = true) (hrun : t.hasExpired = false) :
    (t.update ms).expired = true ↔ t.timeout ≤ (t.currentTime + ms) % 2 ^ 32 := by
  rw [← update_currentTime ms h, Timer.expired, update_active, h, Bool.true_and]
  rw [Timer.update, h, Bool.not_true, if_neg Bool.false_ne_true]
  dsimp only
  split_ifs with hreached
  · exact iff_of_true rfl hreached
  · rw [hrun]
    exact iff_of_false Bool.false_ne_true hreached

end Clock

/-! ## What every operation keeps -/

/-- A running timer has a queue to watch and runs with the timeout in force; no expiry is
    left behind; and the queue's segments are numbered by where they start. -/
structure Armed (s : TCPSender) : Prop where
  queue : s.timer.active = true → s.outstandingSegments ≠ []
  inForce : s.timer.active = true → s.timer.timeout = s.retransmissionTimeout % 2 ^ 32
  unexpired : s.timer.hasExpired = false
  numbered : ∀ p ∈ s.outstandingSegments, p.2.header.seqno = wrap p.1 s.isn

variable {s s' : TCPSender} {seg : TCPSegment} {ms : Nat}

/-- A sender with nothing outstanding and its timer stopped is armed. -/
theorem armed_of_idle (hidle : s.timer = .reset) (hq : s.outstandingSegments = []) :
    Armed s where
  queue := by
    rw [hidle]
    exact fun hactive => absurd hactive Bool.false_ne_true
  inForce := by
    rw [hidle]
    exact fun hactive => absurd hactive Bool.false_ne_true
  unexpired := by
    rw [hidle]
    rfl
  numbered := by
    rw [hq]
    exact fun p hp => absurd hp List.not_mem_nil

theorem Armed.emit (h : Armed s) (hem : Emission s seg s') : Armed s' where
  queue := by
    intro _
    rw [hem.outstanding]
    exact List.append_ne_nil_of_right_ne_nil _ (List.cons_ne_nil _ _)
  inForce := by
    rw [hem.timer, hem.timeout]
    split_ifs with hactive
    · exact h.inForce
    · intro _
      rfl
  unexpired := by
    rw [hem.timer]
    split_ifs with hactive
    · exact h.unexpired
    · rfl
  numbered := by
    intro p hp
    rw [hem.outstanding] at hp
    rw [hem.same.isn]
    rcases List.mem_append.mp hp with hold | hnew
    · exact h.numbered p hold
    · rw [List.mem_singleton.mp hnew]
      exact hem.seqno

theorem Armed.popFront {front : Nat × TCPSegment} {rest : List (Nat × TCPSegment)}
    (h : Armed s) (hq : s.outstandingSegments = front :: rest) :
    Armed (popFront s front rest) := by
  have hnumbered : ∀ p ∈ rest, p.2.header.seqno = wrap p.1 s.isn := by
    intro p hp
    refine h.numbered p ?_
    rw [hq]
    exact List.mem_cons_of_mem _ hp
  cases rest with
  | nil => exact ⟨fun hactive => absurd hactive Bool.false_ne_true,
      fun hactive => absurd hactive Bool.false_ne_true, rfl, hnumbered⟩
  | cons next rest => exact ⟨fun _ => List.cons_ne_nil _ _, fun _ => rfl, rfl, hnumbered⟩

/-- Whatever its flags, an empty segment is queued with its own number. -/
theorem Armed.flags (h : Armed s) (syn fin rst : Bool) :
    Armed (s.sendFlagsSegment syn fin rst) where
  queue := fun _ => List.append_ne_nil_of_right_ne_nil _ (List.cons_ne_nil _ _)
  inForce := h.inForce
  unexpired := h.unexpired
  numbered := by
    intro p hp
    rcases List.mem_append.mp hp with hold | hnew
    · exact h.numbered p hold
    · rw [List.mem_singleton.mp hnew]
      rfl

theorem armed_changes : Changes (fun _ => True) Armed where
  emit := fun _ _ _ h hem => h.emit hem
  window := fun _ _ h => ⟨h.queue, h.inForce, h.unexpired, h.numbered⟩
  base := fun _ _ h _ => ⟨h.queue, h.inForce, h.unexpired, h.numbered⟩
  pop := fun _ _ _ h hq _ => h.popFront hq
  write := fun _ _ h _ => ⟨h.queue, h.inForce, h.unexpired, h.numbered⟩
  ended := fun _ h => ⟨h.queue, h.inForce, h.unexpired, h.numbered⟩
  error := fun _ h => ⟨h.queue, h.inForce, h.unexpired, h.numbered⟩
  more := fun _ _ h => ⟨h.queue, h.inForce, h.unexpired, h.numbered⟩

/-- A retransmission sends the kept segment as it is. -/
theorem Armed.resent_eq {front : Nat × TCPSegment} {rest : List (Nat × TCPSegment)}
    (h : Armed s) (hq : s.outstandingSegments = front :: rest) :
    s.resent front = front.2 := by
  have hseq := h.numbered front (by rw [hq]; exact List.mem_cons_self ..)
  rw [resent, ← hseq]

/-- The clock has reached the timeout with this tick. -/
def Due (s : TCPSender) (ms : Nat) : Prop :=
  s.timer.active = true ∧ s.timer.timeout ≤ (s.timer.currentTime + ms) % 2 ^ 32

instance (s : TCPSender) (ms : Nat) : Decidable (Due s ms) :=
  inferInstanceAs (Decidable (_ ∧ _))

theorem Armed.expired_iff (h : Armed s) (ms : Nat) :
    (s.timer.update ms).expired = true ↔ Due s ms := by
  rw [Due]
  cases hactive : s.timer.active with
  | true => rw [update_expired ms hactive h.unexpired, eq_self, true_and]
  | false =>
      rw [Timer.expired, update_active, hactive]
      exact iff_of_false Bool.false_ne_true fun hd => Bool.false_ne_true hd.1

/-- **A TICK OF AN ARMED TIMER**: where it is due the front is sent again, and the timer
    starts over with the timeout backed off; where it is not, only the clock goes on. -/
theorem Armed.tick_cases (h : Armed s) (ms : Nat) :
    (¬ Due s ms ∧ s.tick ms = { s with timer := s.timer.update ms })
    ∨ (Due s ms ∧ ∃ front rest, s.outstandingSegments = front :: rest
      ∧ s.tick ms
        = { s with
            segmentsOut := s.segmentsOut ++ [front.2]
            consecutiveRetransmissions := counted s
            retransmissionTimeout := backedOff s
            timer := .start (backedOff s) }) := by
  rcases SpongeSenderRule.tick_cases s ms with ⟨htick, hwhy⟩ | ⟨front, rest, hq, hexp, htick⟩
  · refine Or.inl ⟨fun hdue => ?_, htick⟩
    rcases hwhy with hquiet | hempty
    · rw [(h.expired_iff ms).mpr hdue] at hquiet
      exact absurd hquiet.symm Bool.false_ne_true
    · exact h.queue hdue.1 hempty
  · refine Or.inr ⟨(h.expired_iff ms).mp hexp, front, rest, hq, ?_⟩
    rw [htick, h.resent_eq hq]

theorem Armed.tick (h : Armed s) (ms : Nat) : Armed (s.tick ms) := by
  rcases h.tick_cases ms with ⟨hnot, htick⟩ | ⟨-, front, rest, hq, htick⟩
  · rw [htick]
    refine ⟨?_, ?_, ?_, h.numbered⟩
    · intro hactive
      exact h.queue (by rw [← update_active s.timer ms]; exact hactive)
    · intro hactive
      rw [update_timeout]
      exact h.inForce (by rw [← update_active s.timer ms]; exact hactive)
    · -- it would have expired otherwise
      cases hactive : s.timer.active with
      | false =>
          rw [update_of_inactive ms hactive]
          exact h.unexpired
      | true =>
          have hexp := Bool.eq_false_iff.mpr fun he => hnot ((h.expired_iff ms).mp he)
          rw [Timer.expired, update_active, hactive, Bool.true_and] at hexp
          exact hexp
  · rw [htick]
    exact ⟨fun _ => by rw [hq]; exact List.cons_ne_nil _ _, fun _ => rfl, rfl, h.numbered⟩

theorem armed_run {capacity : UInt64} {retxTimeout : BitVec 16} {isn : WrappingInt32}
    {ops : List SpongeOldAck.Op} {x : Hearing}
    (hrun : run SpongeOldAck.step (SpongeOldAck.start capacity retxTimeout isn) ops
      = some x) : Armed x.sender :=
  armed_changes.reached (fun _ ms h => h.tick ms) (fun _ syn fin rst h => h.flags syn fin rst)
    (armed_of_idle rfl rfl) hrun

/-! ## When the retransmission comes -/

/-- The tick sends the oldest outstanding segment again. -/
def Resends (s : TCPSender) (ms : Nat) : Prop :=
  ∃ front rest, s.outstandingSegments = front :: rest
    ∧ (s.tick ms).segmentsOut = s.segmentsOut ++ [front.2]

/-- The timer runs and has counted no time yet. -/
def JustStarted (s : TCPSender) : Prop :=
  s.timer.active = true ∧ s.timer.currentTime = 0

instance (s : TCPSender) : Decidable (JustStarted s) := inferInstanceAs (Decidable (_ ∧ _))

/-- From a sender whose timer has run for `elapsed` milliseconds: of the ticks up to the
    one with which the milliseconds reach `timeout`, that one sends the oldest segment
    again and no other does. -/
def OnTime (timeout : Nat) : Nat → TCPSender → List Nat → Prop
  | _, _, [] => True
  | elapsed, s, ms :: mss =>
      (Resends s ms ↔ timeout ≤ elapsed + ms)
        ∧ (elapsed + ms < timeout → OnTime timeout (elapsed + ms) (s.tick ms) mss)

/-- Of the sums of the ticks up to the one that reaches `timeout`, that one reaches it
    modulo `2 ^ 32` as well, and no other does. -/
def ClockAgrees (timeout : Nat) : Nat → List Nat → Prop
  | _, [] => True
  | elapsed, ms :: mss =>
      (timeout % 2 ^ 32 ≤ (elapsed + ms) % 2 ^ 32 ↔ timeout ≤ elapsed + ms)
        ∧ (elapsed + ms < timeout → ClockAgrees timeout (elapsed + ms) mss)

/-- An armed sender sends again exactly where its timer is due. -/
theorem Armed.resends_iff (h : Armed s) (ms : Nat) : Resends s ms ↔ Due s ms := by
  rcases h.tick_cases ms with ⟨hnot, htick⟩ | ⟨hdue, front, rest, hq, htick⟩
  · refine iff_of_false ?_ hnot
    rintro ⟨front, rest, -, hout⟩
    rw [htick] at hout
    exact absurd hout.symm (by simp)
  · refine iff_of_true ⟨front, rest, hq, ?_⟩ hdue
    rw [htick]

/-- The timer has run for `elapsed` milliseconds, modulo `2 ^ 32`, with the timeout in
    force. -/
structure Ran (elapsed : Nat) (s : TCPSender) : Prop where
  armed : Armed s
  active : s.timer.active = true
  clock : s.timer.currentTime = elapsed % 2 ^ 32

variable {elapsed : Nat}

theorem Ran.resends_iff (h : Ran elapsed s) (ms : Nat) :
    Resends s ms ↔ s.retransmissionTimeout % 2 ^ 32 ≤ (elapsed + ms) % 2 ^ 32 := by
  rw [h.armed.resends_iff ms, Due, h.armed.inForce h.active, h.clock, Nat.mod_add_mod]
  exact and_iff_right h.active

/-- A tick that sends nothing lets the clock run on, under the same timeout. -/
theorem Ran.tick (h : Ran elapsed s) (hquiet : ¬ Resends s ms) :
    Ran (elapsed + ms) (s.tick ms)
      ∧ (s.tick ms).retransmissionTimeout = s.retransmissionTimeout := by
  have harmed := h.armed.tick ms
  rcases h.armed.tick_cases ms with ⟨-, htick⟩ | ⟨hdue, -⟩
  · rw [htick] at harmed ⊢
    refine ⟨⟨harmed, (update_active _ _).trans h.active, ?_⟩, rfl⟩
    rw [update_currentTime ms h.active, h.clock, Nat.mod_add_mod]
  · exact absurd ((h.armed.resends_iff ms).mpr hdue) hquiet

theorem Ran.onTime_iff (mss : List Nat) : ∀ {elapsed : Nat} {s : TCPSender}, Ran elapsed s →
    (OnTime s.retransmissionTimeout elapsed s mss
      ↔ ClockAgrees s.retransmissionTimeout elapsed mss) := by
  induction mss with
  | nil => intro elapsed s _; exact Iff.rfl
  | cons ms mss ih =>
      intro elapsed s h
      have hresends := h.resends_iff ms
      rw [OnTime, ClockAgrees, ← hresends]
      -- the rest matters only where this tick is too early, and then nothing was sent
      refine and_congr_right fun htick => forall_congr' fun hearly => ?_
      obtain ⟨hran, hsame⟩ := h.tick fun hr => absurd (htick.mp hr) (Nat.not_le.mpr hearly)
      rw [← hsame]
      exact ih hran

/-- **ON TIME, EXACTLY**: in every state of every run whose timer was just started, and
    for any ticks that follow, the oldest segment is sent again at the first tick at
    which the milliseconds reach the timeout and at no earlier one, iff the 32-bit clock
    agrees with the sums. -/
theorem resends_on_time_iff (capacity : UInt64) (retxTimeout : BitVec 16)
    (isn : WrappingInt32) (ops : List SpongeOldAck.Op) (x : Hearing)
    (hrun : run SpongeOldAck.step (SpongeOldAck.start capacity retxTimeout isn) ops
      = some x)
    (hstarted : JustStarted x.sender) (mss : List Nat) :
    OnTime x.sender.retransmissionTimeout 0 x.sender mss
      ↔ ClockAgrees x.sender.retransmissionTimeout 0 mss :=
  Ran.onTime_iff mss ⟨armed_run hrun, hstarted.1, hstarted.2⟩

/-- Ticks that cannot carry the clock past `2 ^ 32` before it is read keep it right. -/
theorem clockAgrees_of_short {timeout : Nat} (hsmall : timeout < 2 ^ 32) (mss : List Nat) :
    ∀ elapsed, elapsed ≤ timeout → (∀ ms ∈ mss, timeout + ms < 2 ^ 32) →
      ClockAgrees timeout elapsed mss := by
  induction mss with
  | nil => intro elapsed _ _; exact trivial
  | cons ms mss ih =>
      intro elapsed hle hshort
      have hms := hshort ms (List.mem_cons_self ..)
      refine ⟨?_, fun hearly => ?_⟩
      · rw [Nat.mod_eq_of_lt hsmall, Nat.mod_eq_of_lt (by omega)]
      · exact ih _ (by omega) fun n hn => hshort n (List.mem_cons_of_mem _ hn)

/-- Ten ticks of a tenth of the timeout: the `SYN` is sent again at the last. -/
theorem resends_on_time_iff_tenths :
    ∃ x, run SpongeOldAck.step (SpongeOldAck.start 8 1000 ⟨0⟩) [.fillWindow] = some x
      ∧ OnTime x.sender.retransmissionTimeout 0 x.sender (List.replicate 10 100) := by
  have hreach : ∃ x, run SpongeOldAck.step (SpongeOldAck.start 8 1000 ⟨0⟩) [.fillWindow]
      = some x ∧ JustStarted x.sender ∧ x.sender.retransmissionTimeout = 1000 :=
    run_reaches (by decide)
  obtain ⟨x, hrun, hstarted, htimeout⟩ := hreach
  refine ⟨x, hrun, (resends_on_time_iff 8 1000 ⟨0⟩ _ x hrun hstarted _).mpr ?_⟩
  rw [htimeout]
  refine clockAgrees_of_short (by decide) _ 0 (Nat.zero_le _) fun ms hms => ?_
  rw [List.eq_of_mem_replicate hms]
  decide

/-- **A TICK OF NO TIME**: a tick of `2 ^ 32` milliseconds counts as none, and the `SYN` is
    not sent again. -/
theorem tick_of_no_time :
    ¬ ∀ (capacity : UInt64) (retxTimeout : BitVec 16) (isn : WrappingInt32)
      (ops : List SpongeOldAck.Op) (x : Hearing) (mss : List Nat),
      run SpongeOldAck.step (SpongeOldAck.start capacity retxTimeout isn) ops = some x →
      JustStarted x.sender → (∀ ms ∈ mss, ms < 2 ^ 64) →
      OnTime x.sender.retransmissionTimeout 0 x.sender mss := by
  intro hall
  have hreach : ∃ x, run SpongeOldAck.step (SpongeOldAck.start 8 1000 ⟨0⟩) [.fillWindow]
      = some x ∧ JustStarted x.sender ∧ x.sender.retransmissionTimeout = 1000
      ∧ ¬ Due x.sender (2 ^ 32) := run_reaches (by decide)
  obtain ⟨x, hrun, hstarted, htimeout, hnot⟩ := hreach
  have htime := (hall 8 1000 ⟨0⟩ _ x [2 ^ 32] hrun hstarted (by decide)).1
  rw [htimeout] at htime
  have hresends := htime.mpr (by decide)
  exact hnot (((armed_run hrun).resends_iff _).mp hresends)

/-! ## The backoff -/

/-- A sender with the history of its run: how many segments its ticks have sent again,
    and the window of the last acknowledgement (one before any). -/
structure Record where
  sender : TCPSender
  resends : Nat
  window : Nat
deriving DecidableEq, Repr

def start (capacity : UInt64) (retxTimeout : BitVec 16) (isn : WrappingInt32) : Record :=
  ⟨.new capacity retxTimeout (some isn) 0, 0, 1⟩

/-- One call.  Every call is possible in every state. -/
def step (x : Record) (op : SpongeOldAck.Op) : Option Record :=
  some
    { sender := call x.sender op
      resends :=
        match op with
        | .tick ms => x.resends
          + ((x.sender.tick ms).segmentsOut.length - x.sender.segmentsOut.length)
        | _ => x.resends
      window :=
        match op with
        | .ackReceived _ windowSize => windowSize.toNat
        | _ => x.window }

/-- Every operation but the overload of `send_empty_segment` with flags. -/
def Unflagged : SpongeOldAck.Op → Prop
  | .sendFlagsSegment _ _ _ => False
  | .write _ => True
  | .endInput => True
  | .setError => True
  | .fillWindow => True
  | .ackReceived _ _ => True
  | .tick _ => True
  | .sendEmptySegment => True

instance : DecidablePred Unflagged
  | .sendFlagsSegment _ _ _ => isFalse id
  | .write _ => isTrue trivial
  | .endInput => isTrue trivial
  | .setError => isTrue trivial
  | .fillWindow => isTrue trivial
  | .ackReceived _ _ => isTrue trivial
  | .tick _ => isTrue trivial
  | .sendEmptySegment => isTrue trivial

/-- After `n` retransmissions in all: the timer runs while something is outstanding, at
    most `n` retransmissions are counted, and below `2 ^ 32` the timeout is the initial
    one doubled for each of them. -/
structure Backoff (initial n : Nat) (s : TCPSender) : Prop extends Armed s where
  running : s.outstandingSegments ≠ [] → s.timer.active = true
  same : s.initialRetransmissionTimeout = initial
  few : s.consecutiveRetransmissions ≤ n
  doubled : n < 2 ^ 32 →
    s.retransmissionTimeout = initial * 2 ^ s.consecutiveRetransmissions % 2 ^ 64

variable {initial n : Nat}

theorem Backoff.emit (h : Backoff initial n s) (hem : Emission s seg s') :
    Backoff initial n s' where
  toArmed := h.toArmed.emit hem
  running := by
    intro _
    rw [hem.timer]
    split_ifs with hactive
    · exact hactive
    · rfl
  same := hem.initial.trans h.same
  few := by
    rw [hem.retransmissions]
    exact h.few
  doubled := by
    rw [hem.timeout, hem.retransmissions]
    exact h.doubled

theorem Backoff.popFront {front : Nat × TCPSegment} {rest : List (Nat × TCPSegment)}
    (h : Backoff initial n s) (hsmall : initial < 2 ^ 64)
    (hq : s.outstandingSegments = front :: rest) :
    Backoff initial n (popFront s front rest) where
  toArmed := h.toArmed.popFront hq
  running := by
    intro hrest
    cases rest with
    | nil => exact absurd rfl hrest
    | cons next rest => rfl
  same := h.same
  few := Nat.zero_le n
  doubled := by
    intro _
    show s.initialRetransmissionTimeout = initial * 2 ^ 0 % 2 ^ 64
    rw [h.same, Nat.pow_zero, Nat.mul_one, Nat.mod_eq_of_lt hsmall]

theorem backoff_changes (hsmall : initial < 2 ^ 64) :
    Changes (fun _ => True) (Backoff initial n) where
  emit := fun _ _ _ h hem => h.emit hem
  window := fun s w h =>
    { h with toArmed := armed_changes.window s w h.toArmed }
  base := fun s a h hle => { h with toArmed := armed_changes.base s a h.toArmed hle }
  pop := fun _ _ _ h hq _ => h.popFront hsmall hq
  write := fun s data h hW => { h with toArmed := armed_changes.write s data h.toArmed hW }
  ended := fun s h => { h with toArmed := armed_changes.ended s h.toArmed }
  error := fun s h => { h with toArmed := armed_changes.error s h.toArmed }
  more := fun s out h => { h with toArmed := armed_changes.more s out h.toArmed }

/-- Without a retransmission only the clock goes on. -/
theorem Backoff.waits (h : Backoff initial n s) (hnot : ¬ Due s ms) :
    Backoff initial n (s.tick ms) := by
  have harmed := h.toArmed.tick ms
  rcases h.tick_cases ms with ⟨-, htick⟩ | ⟨hdue, -⟩
  · rw [htick] at harmed ⊢
    exact ⟨harmed, fun hq => (update_active _ _).trans (h.running hq), h.same, h.few,
      h.doubled⟩
  · exact absurd hdue hnot

/-- The timeout is doubled, and the retransmission counted, together. -/
theorem Backoff.resends (h : Backoff initial n s) (hdue : Due s ms) :
    Backoff initial (n + 1) (s.tick ms) := by
  have harmed := h.toArmed.tick ms
  have hfew := h.few
  rcases h.tick_cases ms with ⟨hnot, -⟩ | ⟨-, front, rest, hq, htick⟩
  · exact absurd hdue hnot
  · rw [htick] at harmed ⊢
    refine ⟨harmed, fun _ => rfl, h.same, ?_, fun hn => ?_⟩
    · dsimp only
      rw [counted]
      split_ifs
      · exact Nat.le_trans (Nat.mod_le _ _) (by omega)
      · omega
    · have hdoubled := h.doubled (by omega)
      have hcount : (s.consecutiveRetransmissions + 1) % 2 ^ 32
          = s.consecutiveRetransmissions + 1 := Nat.mod_eq_of_lt (by omega)
      dsimp only
      rw [counted, backedOff]
      split_ifs with hwindow
      · rw [hcount, hdoubled, Nat.mod_mul_mod, Nat.mul_assoc, ← Nat.pow_succ]
      · exact hdoubled

/-- What a tick may send: nothing, and then the backoff stays; or the oldest outstanding
    segment once, and then the timeout is doubled and the count goes up iff the last
    window was not zero. -/
inductive TickSends (x y : Record) : Prop
  | nothing (segmentsOut : y.sender.segmentsOut = x.sender.segmentsOut)
      (timeout : y.sender.retransmissionTimeout = x.sender.retransmissionTimeout)
      (retransmissions : y.sender.consecutiveRetransmissions
        = x.sender.consecutiveRetransmissions)
  | oldest (front : Nat × TCPSegment) (rest : List (Nat × TCPSegment))
      (queue : x.sender.outstandingSegments = front :: rest)
      (segmentsOut : y.sender.segmentsOut = x.sender.segmentsOut ++ [front.2])
      (timeout : y.sender.retransmissionTimeout
        = if x.window ≠ 0 then x.sender.retransmissionTimeout * 2 % 2 ^ 64
          else x.sender.retransmissionTimeout)
      (retransmissions : y.sender.consecutiveRetransmissions
        = if x.window ≠ 0 then x.sender.consecutiveRetransmissions + 1
          else x.sender.consecutiveRetransmissions)

/-- What a run of unflagged calls keeps. -/
structure Kept (initial : Nat) (x : Record) : Prop where
  backoff : Backoff initial x.resends x.sender
  window : x.sender.windowSize = x.window

theorem ackReceived_windowSize (s : TCPSender) (ackno : WrappingInt32) (window : BitVec 16) :
    (s.ackReceived ackno window).windowSize = window.toNat := by
  rcases noteAck_ackedTo s ackno window with ⟨hbeyond, -⟩ | ⟨hgo, popped, hacked⟩
  · rw [ackReceived_of_beyond window hbeyond]
  · rw [ackReceived_noted hgo]
    obtain ⟨⟨l, hl⟩, -⟩ := fillWindow_fills (s.noteAck ackno window).2
    rw [hl.same.windowSize, hacked.windowSize]

/-- A tick that is due adds one retransmission, and no other does. -/
theorem Kept.tick {x : Record} (h : Kept initial x) (ms : Nat) :
    Kept initial ⟨x.sender.tick ms, x.resends
      + ((x.sender.tick ms).segmentsOut.length - x.sender.segmentsOut.length), x.window⟩ := by
  refine ⟨?_, (ticked x.sender ms).windowSize.trans h.window⟩
  rcases h.backoff.tick_cases ms with ⟨hnot, htick⟩ | ⟨hdue, front, rest, -, htick⟩
  · have hsame : (x.sender.tick ms).segmentsOut.length - x.sender.segmentsOut.length = 0 := by
      rw [htick]
      exact Nat.sub_self _
    rw [hsame]
    exact h.backoff.waits hnot
  · have hone : (x.sender.tick ms).segmentsOut.length - x.sender.segmentsOut.length = 1 := by
      rw [htick, List.length_append]
      exact Nat.add_sub_cancel_left _ _
    rw [hone]
    exact h.backoff.resends hdue

theorem Kept.step {x y : Record} {op : SpongeOldAck.Op} (hsmall : initial < 2 ^ 64)
    (h : Kept initial x) (hop : Unflagged op) (hstep : step x op = some y) :
    Kept initial y := by
  have hchanges := backoff_changes (n := x.resends) hsmall
  rw [← Option.some.inj hstep]
  cases op with
  | write data => exact ⟨hchanges.write _ data h.backoff trivial, h.window⟩
  | endInput => exact ⟨hchanges.ended _ h.backoff, h.window⟩
  | setError => exact ⟨hchanges.error _ h.backoff, h.window⟩
  | fillWindow =>
      obtain ⟨⟨l, hl⟩, -⟩ := fillWindow_fills x.sender
      exact ⟨hchanges.fillWindow h.backoff, hl.same.windowSize.trans h.window⟩
  | ackReceived ackno window =>
      exact ⟨hchanges.ackReceived h.backoff ackno window,
        ackReceived_windowSize x.sender ackno window⟩
  | tick ms => exact h.tick ms
  | sendEmptySegment => exact ⟨hchanges.more _ _ h.backoff, h.window⟩
  | sendFlagsSegment syn fin rst => exact absurd hop id

/-- What a tick sends, where its retransmission is still one of fewer than `2 ^ 32`. -/
theorem Kept.tickSends {x y : Record} (h : Kept initial x)
    (hstep : SpongeTimer.step x (.tick ms) = some y) (hfew : y.resends < 2 ^ 32) :
    TickSends x y := by
  rw [← Option.some.inj hstep] at hfew ⊢
  rcases h.backoff.tick_cases ms with ⟨-, htick⟩ | ⟨-, front, rest, hq, htick⟩
  · refine .nothing ?_ ?_ ?_ <;> show _ = _ <;> dsimp only [call] <;> rw [htick]
  · have hcount : x.sender.consecutiveRetransmissions + 1 < 2 ^ 32 := by
      have hle := h.backoff.few
      have hone : (x.sender.tick ms).segmentsOut.length
          = x.sender.segmentsOut.length + 1 := by
        rw [htick, List.length_append]
        rfl
      dsimp only at hfew
      omega
    refine .oldest front rest hq ?_ ?_ ?_
    · dsimp only [call]
      rw [htick]
    · dsimp only [call]
      rw [htick, ← h.window]
      exact if_congr Nat.pos_iff_ne_zero rfl rfl
    · dsimp only [call]
      rw [htick, ← h.window]
      dsimp only
      rw [counted, Nat.mod_eq_of_lt hcount]
      exact if_congr Nat.pos_iff_ne_zero rfl rfl

/-- **TIMER AND BACKOFF**: after any run of calls other than the overload with flags,
    with fewer than `2 ^ 32` retransmissions in it, the timer runs exactly while something
    is outstanding, the timeout is the initial one doubled for every counted
    retransmission, a running timer has that timeout and has not expired, and a tick
    sends at most the oldest segment. -/
theorem timer_and_backoff (capacity : UInt64) (retxTimeout : BitVec 16)
    (isn : WrappingInt32) (ops : List SpongeOldAck.Op) (hops : ∀ op ∈ ops, Unflagged op)
    (x : Record) (hrun : run step (start capacity retxTimeout isn) ops = some x)
    (hfew : x.resends < 2 ^ 32) :
    (x.sender.timer.active = true ↔ x.sender.outstandingSegments ≠ [])
      ∧ x.sender.retransmissionTimeout
        = retxTimeout.toNat * 2 ^ x.sender.consecutiveRetransmissions % 2 ^ 64
      ∧ (x.sender.timer.active = true →
        x.sender.timer.timeout = x.sender.retransmissionTimeout % 2 ^ 32)
      ∧ x.sender.timer.expired = false
      ∧ ∀ ms y, step x (.tick ms) = some y → y.resends < 2 ^ 32 → TickSends x y := by
  have hsmall : retxTimeout.toNat < 2 ^ 64 :=
    Nat.lt_of_lt_of_le retxTimeout.isLt (by decide)
  have h : Kept retxTimeout.toNat x := by
    refine run_invariant (I := Kept retxTimeout.toNat) (P := fun _ op => Unflagged op) ?_ ops
      (start capacity retxTimeout isn) x ?_ (along_of_mem ops _ hops) hrun
    · intro y op z hy hop hstep
      exact hy.step hsmall hop hstep
    · refine ⟨⟨armed_of_idle rfl rfl, fun hq => absurd rfl hq, rfl, Nat.le_refl 0,
        fun _ => ?_⟩, rfl⟩
      show retxTimeout.toNat = retxTimeout.toNat * 2 ^ 0 % 2 ^ 64
      rw [Nat.pow_zero, Nat.mul_one, Nat.mod_eq_of_lt hsmall]
  refine ⟨⟨h.backoff.queue, h.backoff.running⟩, h.backoff.doubled hfew, h.backoff.inForce, ?_,
    fun ms y hstep hy => h.tickSends hstep hy⟩
  rw [Timer.expired, h.backoff.unexpired, Bool.and_false]

/-- Two retransmissions of the `SYN` with the window of one: the timeout is four times the
    initial one. -/
theorem timer_and_backoff_twice :
    ∃ x, run step (start 8 1000 ⟨0⟩) [.fillWindow, .tick 1000, .tick 2000] = some x
      ∧ x.sender.timer.active = true
      ∧ x.sender.retransmissionTimeout = 1000 * 2 ^ 2 % 2 ^ 64 := by
  have hreach : ∃ x, run step (start 8 1000 ⟨0⟩) [.fillWindow, .tick 1000, .tick 2000]
      = some x ∧ x.sender.consecutiveRetransmissions = 2
      ∧ x.sender.outstandingSegments ≠ [] ∧ x.resends < 2 ^ 32 := run_reaches (by decide)
  obtain ⟨x, hrun, hcount, hq, hfew⟩ := hreach
  obtain ⟨hactive, htimeout, -⟩ := timer_and_backoff 8 1000 ⟨0⟩ _ (by decide) x hrun hfew
  rw [hcount] at htimeout
  exact ⟨x, hrun, hactive.mpr hq, htimeout⟩

end SpongeTimer
