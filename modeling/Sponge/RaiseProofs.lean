import Mathlib.Tactic.Common

/-! # Computations that may raise — the rules for their loops

    A computation that may raise is a value of `Except`.  `bind_eq_ok` takes a
    sequence of them apart.  Two shapes of loop are packaged here:

    * `doWhile` is a `do … while` loop; its body answers whether to go round
      again.  With a measure that drops at every such round the fuel is never
      what stops it (`doWhile_post`), and it returns if no round raises
      (`doWhile_total`);
    * `List.foldlM` is a loop over a list (`foldlM_keeps`). -/

namespace RaiseRule

variable {ε α β σ : Type}

theorem bind_eq_ok {x : Except ε α} {f : α → Except ε β} {b : β} :
    x >>= f = .ok b ↔ ∃ a, x = .ok a ∧ f a = .ok b := by
  cases x with
  | error e =>
      constructor
      · intro h
        cases h
      · rintro ⟨a, ha, -⟩
        cases ha
  | ok a =>
      constructor
      · intro h
        exact ⟨a, rfl, h⟩
      · rintro ⟨a', ha, hf⟩
        obtain rfl := Except.ok.inj ha
        exact hf

/-- An exception comes from one of the two parts. -/
theorem bind_eq_error {x : Except ε α} {f : α → Except ε β} {e : ε} :
    x >>= f = .error e ↔ x = .error e ∨ ∃ a, x = .ok a ∧ f a = .error e := by
  cases x with
  | error e' =>
      constructor
      · intro h
        exact Or.inl (congrArg Except.error (Except.error.inj h))
      · rintro (h | ⟨a, ha, -⟩)
        · exact congrArg Except.error (Except.error.inj h)
        · cases ha
  | ok a =>
      constructor
      · intro h
        exact Or.inr ⟨a, rfl, h⟩
      · rintro (h | ⟨a', ha, hf⟩)
        · cases h
        · obtain rfl := Except.ok.inj ha
          exact hf

theorem toOption_eq_some {x : Except ε α} {a : α} (h : x.toOption = some a) : x = .ok a := by
  cases x with
  | error e => cases h
  | ok a' => exact congrArg Except.ok (Option.some.inj h)

theorem map_eq_ok {x : Except ε α} {f : α → β} {b : β} :
    x.map f = .ok b ↔ ∃ a, x = .ok a ∧ f a = b := by
  cases x with
  | error e =>
      constructor
      · intro h
        cases h
      · rintro ⟨a, ha, -⟩
        cases ha
  | ok a =>
      constructor
      · intro h
        exact ⟨a, rfl, Except.ok.inj h⟩
      · rintro ⟨a', ha, hf⟩
        obtain rfl := Except.ok.inj ha
        exact congrArg Except.ok hf

theorem mapError_eq_ok {ε' : Type} {x : Except ε α} {f : ε → ε'} {a : α} :
    x.mapError f = .ok a ↔ x = .ok a := by
  cases x <;> simp [Except.mapError]

theorem mapError_eq_error {ε' : Type} {x : Except ε α} {f : ε → ε'} {e : ε'} :
    x.mapError f = .error e ↔ ∃ e', x = .error e' ∧ f e' = e := by
  cases x <;> simp [Except.mapError]

/-- `do body while (…)`: the body answers whether to go round again. -/
def doWhile (body : σ → Except ε (Bool × σ)) : Nat → σ → Except ε σ
  | 0, s => .ok s
  | fuel + 1, s => do
      let (again, s) ← body s
      if again then doWhile body fuel s else .ok s

/-- **PARTIAL CORRECTNESS**, with a measure that drops at every round that goes on: what
    the last round establishes holds of the result. -/
theorem doWhile_post {body : σ → Except ε (Bool × σ)} {I Q : σ → Prop} {μ : σ → Nat}
    (hgo : ∀ s s', I s → body s = .ok (true, s') → I s' ∧ μ s' < μ s)
    (hstop : ∀ s s', I s → body s = .ok (false, s') → Q s') :
    ∀ (fuel : Nat) (s t : σ), μ s < fuel → I s → doWhile body fuel s = .ok t → Q t := by
  intro fuel
  induction fuel with
  | zero => intro s t hlt _ _; exact absurd hlt (Nat.not_lt_zero _)
  | succ fuel ih =>
      intro s t hlt hs h
      obtain ⟨⟨again, s'⟩, hbody, hrest⟩ := bind_eq_ok.mp h
      cases again with
      | true =>
          obtain ⟨hI, hμ⟩ := hgo s s' hs hbody
          exact ih s' t (by omega) hI hrest
      | false =>
          obtain rfl := Except.ok.inj hrest
          exact hstop s s' hs hbody

/-- **IT RETURNS**, if no round raises. -/
theorem doWhile_total {body : σ → Except ε (Bool × σ)} {I : σ → Prop} {μ : σ → Nat}
    (hbody : ∀ s, I s → ∃ r, body s = .ok r)
    (hgo : ∀ s s', I s → body s = .ok (true, s') → I s' ∧ μ s' < μ s) :
    ∀ (fuel : Nat) (s : σ), μ s < fuel → I s → ∃ t, doWhile body fuel s = .ok t := by
  intro fuel
  induction fuel with
  | zero => intro s hlt _; exact absurd hlt (Nat.not_lt_zero _)
  | succ fuel ih =>
      intro s hlt hs
      obtain ⟨⟨again, s'⟩, hr⟩ := hbody s hs
      rw [doWhile, hr]
      cases again with
      | true =>
          obtain ⟨hI, hμ⟩ := hgo s s' hs hr
          exact ih s' (by omega) hI
      | false => exact ⟨s', rfl⟩

/-- What every round keeps, a loop over a list keeps; the rounds may count what is done. -/
theorem foldlM_keeps {f : σ → α → Except ε σ} {I : List α → σ → Prop}
    (h : ∀ done s a s', I done s → f s a = .ok s' → I (done ++ [a]) s') :
    ∀ (l done : List α) (s t : σ), I done s → l.foldlM f s = .ok t → I (done ++ l) t := by
  intro l
  induction l with
  | nil =>
      intro done s t hs hrun
      obtain rfl := Except.ok.inj hrun
      rw [List.append_nil]
      exact hs
  | cons a l ih =>
      intro done s t hs hrun
      rw [List.foldlM_cons] at hrun
      obtain ⟨s', hs', hrest⟩ := bind_eq_ok.mp hrun
      have := ih (done ++ [a]) s' t (h done s a s' hs hs') hrest
      rwa [List.append_assoc] at this

end RaiseRule
