import Mathlib.Tactic.Common

/-! # Loops and runs — the induction rules the rest of the development uses

    Two shapes of repetition are packaged once here, over arbitrary states:

    * `whileTrue` is a `while (true)` loop whose body may `break`; its rules
      are a total-correctness rule (a measure that drops at every round, so the
      fuel is never what stops the loop) and a termination rule (`Leaves` is the
      loop without fuel);
    * `run` drives a partial step function through a list of actions; a step
      that is not enabled, or that raises, ends the run.  `Along` speaks about
      every step of a run, `Throughout` about every state it visits, and
      `throughout_iff_along` is the exactness rule: a state property holds
      throughout a run iff every step of it meets the step condition.

    A run of total steps is a fold; actions that do nothing can be left out of it
    (`foldl_filter_of_idle`).  `AtEach` speaks about every entry of a log together
    with what was logged before it. -/

namespace RunRule

variable {σ α : Type}

/-- `while (true)` with `break`: the body answers whether to go round again,
    and the state it leaves behind. -/
def whileTrue (body : σ → Bool × σ) : Nat → σ → σ
  | 0, s => s
  | fuel + 1, s =>
      match body s with
      | (true, s') => whileTrue body fuel s'
      | (false, s') => s'

/-- A round that goes on. -/
theorem whileTrue_go {body : σ → Bool × σ} {s : σ} (fuel : Nat)
    (h : (body s).1 = true) :
    whileTrue body (fuel + 1) s = whileTrue body fuel (body s).2 := by
  have hb : body s = (true, (body s).2) := by rw [← h]
  rw [whileTrue, hb]

/-- The round that breaks. -/
theorem whileTrue_stop {body : σ → Bool × σ} {s : σ} (fuel : Nat)
    (h : (body s).1 = false) :
    whileTrue body (fuel + 1) s = (body s).2 := by
  have hb : body s = (false, (body s).2) := by rw [← h]
  rw [whileTrue, hb]

/-- **TOTAL CORRECTNESS**: with a measure that drops at every round and fuel
    above it, the loop leaves through `break`, so what the breaking round
    establishes holds of the result. -/
theorem whileTrue_post {body : σ → Bool × σ} {I Q : σ → Prop} {μ : σ → Nat}
    (hgo : ∀ s, I s → (body s).1 = true → I (body s).2 ∧ μ (body s).2 < μ s)
    (hstop : ∀ s, I s → (body s).1 = false → Q (body s).2) :
    ∀ (fuel : Nat) (s : σ), μ s < fuel → I s → Q (whileTrue body fuel s) := by
  intro fuel
  induction fuel with
  | zero => intro s hlt _; exact absurd hlt (Nat.not_lt_zero _)
  | succ fuel ih =>
      intro s hlt hs
      cases hb : (body s).1 with
      | true =>
          rw [whileTrue_go fuel hb]
          obtain ⟨hI, hμ⟩ := hgo s hs hb
          exact ih _ (by omega) hI
      | false => rw [whileTrue_stop fuel hb]; exact hstop s hs hb

/-- What every round keeps, the loop keeps. -/
theorem whileTrue_keeps {body : σ → Bool × σ} {I : σ → Prop} (h : ∀ s, I s → I (body s).2) :
    ∀ (fuel : Nat) (s : σ), I s → I (whileTrue body fuel s) := by
  intro fuel
  induction fuel with
  | zero => intro s hs; exact hs
  | succ fuel ih =>
      intro s hs
      cases hb : (body s).1 with
      | true => rw [whileTrue_go fuel hb]; exact ih _ (h s hs)
      | false => rw [whileTrue_stop fuel hb]; exact h s hs

/-- The loop, entered in `s`, leaves through `break` in `t` after finitely many
    rounds. -/
inductive Leaves (body : σ → Bool × σ) : σ → σ → Prop
  | stop {s : σ} (h : (body s).1 = false) : Leaves body s (body s).2
  | go {s t : σ} (h : (body s).1 = true) (rest : Leaves body (body s).2 t) : Leaves body s t

/-- **TERMINATION**: with a measure that drops at every round and fuel above it, the loop
    leaves through `break`, in the state that the fuel gives. -/
theorem whileTrue_leaves {body : σ → Bool × σ} {μ : σ → Nat}
    (hgo : ∀ s, (body s).1 = true → μ (body s).2 < μ s) :
    ∀ (fuel : Nat) (s : σ), μ s < fuel → Leaves body s (whileTrue body fuel s) := by
  intro fuel
  induction fuel with
  | zero => intro s hlt; exact absurd hlt (Nat.not_lt_zero _)
  | succ fuel ih =>
      intro s hlt
      cases hb : (body s).1 with
      | true =>
          have hless := hgo s hb
          rw [whileTrue_go fuel hb]
          exact .go hb (ih _ (by omega))
      | false =>
          rw [whileTrue_stop fuel hb]
          exact .stop hb

/-! ## Runs of a partial step function -/

variable (step : σ → α → Option σ)

/-- Drive the step function through a list of actions. -/
def run : σ → List α → Option σ
  | s, [] => some s
  | s, a :: as => (step s a).bind fun s' => run s' as

/-- The step condition `P` holds at every step of the run. -/
def Along (P : σ → α → Prop) : σ → List α → Prop
  | _, [] => True
  | s, a :: as => P s a ∧ ∀ s', step s a = some s' → Along P s' as

/-- The state property `Q` holds in every state the run visits. -/
def Throughout (Q : σ → Prop) : σ → List α → Prop
  | s, [] => Q s
  | s, a :: as => Q s ∧ ∀ s', step s a = some s' → Throughout Q s' as

variable {step}

/-- A decidable step condition can be checked along a run. -/
instance decidableAlong {P : σ → α → Prop} [∀ s a, Decidable (P s a)] :
    ∀ (s : σ) (as : List α), Decidable (Along step P s as)
  | _, [] => isTrue trivial
  | s, a :: as =>
      match h : step s a with
      | none => decidable_of_iff (P s a)
          ⟨fun hP => ⟨hP, fun _ hs' => nomatch h.symm.trans hs'⟩, fun hA => hA.1⟩
      | some s' =>
          have : Decidable (Along step P s' as) := decidableAlong s' as
          decidable_of_iff (P s a ∧ Along step P s' as)
            ⟨fun hA => ⟨hA.1, fun _ ht =>
                Option.some.inj (h.symm.trans ht) ▸ hA.2⟩,
              fun hA => ⟨hA.1, hA.2 s' h⟩⟩

/-- **THE INVARIANT RULE**: what holds at the start and is kept by every step
    that meets its condition holds where the run ends. -/
theorem run_invariant {I : σ → Prop} {P : σ → α → Prop}
    (hstep : ∀ s a s', I s → P s a → step s a = some s' → I s') :
    ∀ (as : List α) (s t : σ), I s → Along step P s as →
      run step s as = some t → I t := by
  intro as
  induction as with
  | nil =>
      intro s t hs _ hrun
      have hst : s = t := Option.some.inj hrun
      rw [← hst]
      exact hs
  | cons a as ih =>
      intro s t hs halong hrun
      obtain ⟨s', hs', hrest⟩ := Option.bind_eq_some_iff.mp hrun
      exact ih s' t (hstep s a s' hs halong.1 hs') (halong.2 s' hs') hrest

/-- **THE TOTAL RUN RULE**: when every admitted action is possible and keeps the
    invariant, a list of admitted actions runs to its end. -/
theorem run_total {I : σ → Prop} {G : α → Prop}
    (hstep : ∀ s a, I s → G a → ∃ s', step s a = some s' ∧ I s') :
    ∀ (as : List α) (s : σ), I s → (∀ a ∈ as, G a) → ∃ t, run step s as = some t ∧ I t := by
  intro as
  induction as with
  | nil => intro s hs _; exact ⟨s, rfl, hs⟩
  | cons a as ih =>
      intro s hs hall
      obtain ⟨s', hs', hI⟩ := hstep s a hs (hall a (List.mem_cons_self ..))
      obtain ⟨t, ht, hIt⟩ := ih s' hI fun b hb => hall b (List.mem_cons_of_mem a hb)
      refine ⟨t, ?_, hIt⟩
      rw [run, hs']
      exact ht

theorem run_cons {s s' t : σ} {a : α} {as : List α} (h : step s a = some s')
    (hrest : run step s' as = some t) : run step s (a :: as) = some t := by
  rw [run, h]
  exact hrest

/-- A run goes on where another one ended. -/
theorem run_append (as bs : List α) (s : σ) :
    run step s (as ++ bs) = (run step s as).bind fun t => run step t bs := by
  induction as generalizing s with
  | nil => rfl
  | cons a as ih =>
      rw [List.cons_append, run, run, Option.bind_assoc]
      exact congrArg _ (funext ih)

theorem run_onto {s t u : σ} {as bs : List α} (h : run step s as = some t)
    (hrest : run step t bs = some u) : run step s (as ++ bs) = some u := by
  rw [run_append, h]
  exact hrest

/-- A concrete run, evaluated: it gets through, and its last state has `Q`. -/
theorem run_reaches {Q : σ → Prop} [DecidablePred Q] {s : σ} {as : List α}
    (h : (run step s as).any (fun t => decide (Q t)) = true) :
    ∃ t, run step s as = some t ∧ Q t := by
  cases hrun : run step s as with
  | none => rw [hrun] at h; exact nomatch h
  | some t =>
      rw [hrun] at h
      exact ⟨t, rfl, of_decide_eq_true h⟩

/-- A step condition that always holds holds along every run. -/
theorem along_of_forall {P : σ → α → Prop} (h : ∀ s a, P s a) :
    ∀ (as : List α) (s : σ), Along step P s as := by
  intro as
  induction as with
  | nil => intro s; exact trivial
  | cons a as ih => intro s; exact ⟨h s a, fun s' _ => ih s'⟩

/-- What every step keeps, a run keeps. -/
theorem run_keeps {I : σ → Prop} (hstep : ∀ s a s', I s → step s a = some s' → I s')
    {as : List α} {s t : σ} (hs : I s) (hrun : run step s as = some t) : I t :=
  run_invariant (P := fun _ _ => True) (fun s a s' hI _ => hstep s a s' hI) as s t hs
    (along_of_forall (fun _ _ => trivial) as s) hrun

theorem Along.mono {P P' : σ → α → Prop} (hP : ∀ s a, P s a → P' s a) :
    ∀ (as : List α) (s : σ), Along step P s as → Along step P' s as := by
  intro as
  induction as with
  | nil => intro s _; exact trivial
  | cons a as ih =>
      intro s h
      exact ⟨hP s a h.1, fun s' hs' => ih s' (h.2 s' hs')⟩

theorem throughout_head {Q : σ → Prop} {as : List α} {s : σ} (h : Throughout step Q s as) : Q s := by
  cases as with
  | nil => exact h
  | cons a as => exact h.1

theorem Throughout.mono {Q Q' : σ → Prop} (hQ : ∀ s, Q s → Q' s) :
    ∀ (as : List α) (s : σ), Throughout step Q s as → Throughout step Q' s as := by
  intro as
  induction as with
  | nil => intro s h; exact hQ s h
  | cons a as ih => intro s h; exact ⟨hQ s h.1, fun s' hs' => ih s' (h.2 s' hs')⟩

/-- A decidable state property can be checked throughout a run. -/
instance decidableThroughout {Q : σ → Prop} [DecidablePred Q] :
    ∀ (s : σ) (as : List α), Decidable (Throughout step Q s as)
  | s, [] => inferInstanceAs (Decidable (Q s))
  | s, a :: as =>
      match h : step s a with
      | none => decidable_of_iff (Q s)
          ⟨fun hQ => ⟨hQ, fun _ hs' => nomatch h.symm.trans hs'⟩, fun hA => hA.1⟩
      | some s' =>
          have : Decidable (Throughout step Q s' as) := decidableThroughout s' as
          decidable_of_iff (Q s ∧ Throughout step Q s' as)
            ⟨fun hA => ⟨hA.1, fun _ ht =>
                Option.some.inj (h.symm.trans ht) ▸ hA.2⟩,
              fun hA => ⟨hA.1, hA.2 s' h⟩⟩

/-- **THE INVARIANT RULE, WITH A CONDITION ON THE STATES**: a step need only keep the
    invariant where it leads to a state with `Q`. -/
theorem run_throughout {I Q : σ → Prop} (hstep : ∀ s a s', I s → Q s' → step s a = some s' → I s') :
    ∀ (as : List α) (s t : σ), I s → Throughout step Q s as → run step s as = some t → I t := by
  intro as
  induction as with
  | nil =>
      intro s t hs _ hrun
      rw [← Option.some.inj hrun]
      exact hs
  | cons a as ih =>
      intro s t hs hall hrun
      obtain ⟨s', hs', hrest⟩ := Option.bind_eq_some_iff.mp hrun
      have hafter := hall.2 s' hs'
      exact ih s' t (hstep s a s' hs (throughout_head hafter) hs') hafter hrest

/-- A condition on the actions alone holds along a run of actions that meet it. -/
theorem along_of_mem {G : α → Prop} :
    ∀ (as : List α) (s : σ), (∀ a ∈ as, G a) → Along step (fun _ a => G a) s as := by
  intro as
  induction as with
  | nil => intro s _; exact trivial
  | cons a as ih =>
      intro s hall
      exact ⟨hall a (List.mem_cons_self ..),
        fun s' _ => ih s' fun b hb => hall b (List.mem_cons_of_mem a hb)⟩

/-- Equivalent step conditions hold along the same runs. -/
theorem along_congr {P Q : σ → α → Prop} (h : ∀ s a, P s a ↔ Q s a) :
    ∀ (as : List α) (s : σ), Along step P s as ↔ Along step Q s as := by
  intro as
  induction as with
  | nil => intro s; exact Iff.rfl
  | cons a as ih =>
      intro s
      exact and_congr (h s a) (forall₂_congr fun s' _ => ih s')

/-- **WHERE A RUN GETS THROUGH**: when an admitted action is possible iff it meets `C`, a
    list of admitted actions runs to its end iff `C` holds along it. -/
theorem run_total_iff_along {G : α → Prop} {C : σ → α → Prop}
    (hstep : ∀ s a, G a → ((∃ s', step s a = some s') ↔ C s a)) :
    ∀ (as : List α) (s : σ), (∀ a ∈ as, G a) →
      ((∃ t, run step s as = some t) ↔ Along step C s as) := by
  intro as
  induction as with
  | nil => intro s _; exact ⟨fun _ => trivial, fun _ => ⟨s, rfl⟩⟩
  | cons a as ih =>
      intro s hall
      have hone := hstep s a (hall a (List.mem_cons_self ..))
      have hrest := fun s' => ih s' fun b hb => hall b (List.mem_cons_of_mem a hb)
      constructor
      · rintro ⟨t, hrun⟩
        obtain ⟨s', hs', ht⟩ := Option.bind_eq_some_iff.mp hrun
        refine ⟨hone.mp ⟨s', hs'⟩, fun s'' hs'' => ?_⟩
        obtain rfl := Option.some.inj (hs'.symm.trans hs'')
        exact (hrest s').mp ⟨t, ht⟩
      · rintro ⟨hC, hafter⟩
        obtain ⟨s', hs'⟩ := hone.mpr hC
        obtain ⟨t, ht⟩ := (hrest s').mpr (hafter s' hs')
        exact ⟨t, Option.bind_eq_some_iff.mpr ⟨s', hs', ht⟩⟩

/-- **EXACTNESS**: when a step that meets `C` keeps the invariant and a step
    that misses `C` leaves a state without `Q`, then `Q` holds throughout a
    run iff `C` holds along it. -/
theorem throughout_iff_along {I Q : σ → Prop} {G C : σ → α → Prop}
    (hQ : ∀ s, I s → Q s)
    (hen : ∀ s a, I s → G s a → ¬ C s a → ∃ s', step s a = some s')
    (hgood : ∀ s a s', I s → G s a → C s a → step s a = some s' → I s')
    (hbad : ∀ s a s', I s → G s a → ¬ C s a → step s a = some s' → ¬ Q s') :
    ∀ (as : List α) (s : σ), I s → Along step G s as →
      (Throughout step Q s as ↔ Along step C s as) := by
  intro as
  induction as with
  | nil => intro s hs _; exact ⟨fun _ => trivial, fun _ => hQ s hs⟩
  | cons a as ih =>
      intro s hs hG
      constructor
      · intro hthr
        have hQ' : ∀ s', step s a = some s' → Q s' := by
          intro s' hs'
          have hrest := hthr.2 s' hs'
          cases as with
          | nil => exact hrest
          | cons b bs => exact hrest.1
        have hC : C s a := by
          by_contra hno
          obtain ⟨s', hs'⟩ := hen s a hs hG.1 hno
          exact hbad s a s' hs hG.1 hno hs' (hQ' s' hs')
        refine ⟨hC, fun s' hs' => ?_⟩
        have hI := hgood s a s' hs hG.1 hC hs'
        exact (ih s' hI (hG.2 s' hs')).mp (hthr.2 s' hs')
      · intro halong
        refine ⟨hQ s hs, fun s' hs' => ?_⟩
        have hI := hgood s a s' hs hG.1 halong.1 hs'
        exact (ih s' hI (hG.2 s' hs')).mpr (halong.2 s' hs')

/-! ## Total steps, and logs -/

/-- **IDLE ACTIONS CAN BE LEFT OUT** of a run of total steps. -/
theorem foldl_filter_of_idle {f : σ → α → σ} {keep : α → Bool} {I : σ → Prop}
    (hkeeps : ∀ s a, I s → I (f s a)) (hidle : ∀ s a, I s → keep a = false → f s a = s) :
    ∀ (as : List α) (s : σ), I s → (as.filter keep).foldl f s = as.foldl f s := by
  intro as
  induction as with
  | nil => intro s _; rfl
  | cons a as ih =>
      intro s hs
      cases ha : keep a with
      | true =>
          rw [List.filter_cons_of_pos ha]
          exact ih (f s a) (hkeeps s a hs)
      | false =>
          rw [List.filter_cons_of_neg (by rw [ha]; exact Bool.false_ne_true), List.foldl_cons,
            hidle s a hs ha]
          exact ih s hs

/-- `P` holds of every entry of a log and what stands before it. -/
def AtEach (P : List α → α → Prop) (l : List α) : Prop :=
  ∀ pre a post, l = pre ++ a :: post → P pre a

theorem atEach_nil (P : List α → α → Prop) : AtEach P [] := by
  intro pre a post h
  exact absurd h.symm (List.append_ne_nil_of_right_ne_nil pre (List.cons_ne_nil a post))

/-- More is logged. -/
theorem AtEach.append {P : List α → α → Prop} {l m : List α} (hl : AtEach P l)
    (hm : AtEach (fun pre a => P (l ++ pre) a) m) : AtEach P (l ++ m) := by
  intro pre a post h
  rcases List.append_eq_append_iff.mp h with ⟨mid, rfl, hmid⟩ | ⟨mid, rfl, hmid⟩
  · exact hm mid a post hmid
  · -- the split falls into the old log, or right behind it
    cases mid with
    | nil =>
        have hfirst := hm [] a post hmid.symm
        rwa [List.append_nil, List.append_nil] at hfirst
    | cons b mid =>
        obtain ⟨rfl, -⟩ := List.cons.inj hmid
        exact hl pre a mid rfl

theorem AtEach.concat {P : List α → α → Prop} {l : List α} {a : α} (hl : AtEach P l)
    (ha : P l a) : AtEach P (l ++ [a]) := by
  refine hl.append fun pre b post h => ?_
  obtain ⟨rfl, hb⟩ : pre = [] ∧ b = a := by
    cases pre with
    | nil => exact ⟨rfl, (List.cons.inj h).1.symm⟩
    | cons c pre => exact absurd (List.cons.inj h).2.symm (by simp)
  rw [List.append_nil, hb]
  exact ha

end RunRule
