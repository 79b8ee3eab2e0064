import Mathlib.Algebra.BigOperators.Group.Finset.Basic
import Mathlib.Algebra.Order.Group.Nat
import Mathlib.Algebra.Ring.Nat
import Mathlib.Logic.Relation

/-! # Bags whose members age

    A bag of things that are put in, lost, copied, or replaced by an older version of
    themselves.  What is in the bag after any run comes by ageing from something that was
    put in (`Run.descends`).  If ageing uses something up, and nothing is copied, then what
    was put in bounds how often anything ages (`Run.budget`).

    `Run.frame` makes the runs local: what is not touched can stand beside. -/

namespace Aging

variable {α : Type}

/-- What happens to a bag. -/
inductive Event (α : Type) where
  | send (a : α)
  | lose (a : α)
  | age (a b : α)
  | copy (a : α)

inductive Step : Multiset α → Event α → Multiset α → Prop
  | send (s : Multiset α) (a : α) : Step s (.send a) (s + {a})
  | lose (s : Multiset α) (a : α) : Step (s + {a}) (.lose a) s
  | age (s : Multiset α) (a b : α) : Step (s + {a}) (.age a b) (s + {b})
  | copy (s : Multiset α) (a : α) : Step (s + {a}) (.copy a) (s + {a} + {a})

inductive Run : Multiset α → List (Event α) → Multiset α → Prop
  | nil (s : Multiset α) : Run s [] s
  | cons {s t u : Multiset α} {e : Event α} {es : List (Event α)} (first : Step s e t)
      (rest : Run t es u) : Run s (e :: es) u

section Sums

variable {ι β : Type} [Fintype ι] [DecidableEq ι]

/-- One of many bags may change, beside the rest. -/
theorem sum_split (bag : β → Multiset α) (f : ι → β) (i : ι) :
    ∃ rest, ∑ j, bag (f j) = bag (f i) + rest
      ∧ ∀ b, ∑ j, bag (Function.update f i b j) = bag b + rest := by
  refine ⟨∑ j ∈ Finset.univ.erase i, bag (f j), ?_, fun b => ?_⟩
  · exact (Finset.add_sum_erase Finset.univ (fun j => bag (f j)) (Finset.mem_univ i)).symm
  · rw [← Finset.add_sum_erase Finset.univ (fun j => bag (Function.update f i b j))
      (Finset.mem_univ i), Function.update_self]
    refine congrArg (bag b + ·) (Finset.sum_congr rfl fun j hj => ?_)
    rw [Function.update_of_ne (Finset.ne_of_mem_erase hj)]

theorem sum_update {bag : β → Multiset α} {f : ι → β} {i : ι} {b : β} {x y : Multiset α}
    (h : bag b + y = bag (f i) + x) :
    (∑ j, bag (Function.update f i b j)) + y = (∑ j, bag (f j)) + x := by
  obtain ⟨rest, hbefore, hafter⟩ := sum_split bag f i
  rw [hbefore, hafter, add_right_comm, h, add_right_comm]

end Sums

section Rules

variable {s t u : Multiset α} {e : Event α} {es es' : List (Event α)}

theorem Step.run (h : Step s e t) : Run s [e] t := .cons h (.nil t)

theorem Run.trans (h : Run s es t) (h' : Run t es' u) : Run s (es ++ es') u := by
  induction h with
  | nil s => exact h'
  | cons first _ ih => exact .cons first (ih h')

/-- What stands beside stays. -/
theorem Step.frame (h : Step s e t) (u : Multiset α) : Step (s + u) e (t + u) := by
  cases h with
  | send s a =>
      rw [add_right_comm]
      exact .send (s + u) a
  | lose s a =>
      rw [add_right_comm]
      exact .lose (t + u) a
  | age s a b =>
      rw [add_right_comm, add_right_comm s {b}]
      exact .age (s + u) a b
  | copy s a =>
      rw [add_right_comm (s + {a}) {a} u, add_right_comm s {a} u]
      exact .copy (s + u) a

theorem Run.frame (h : Run s es t) (u : Multiset α) : Run (s + u) es (t + u) := by
  induction h with
  | nil s => exact .nil (s + u)
  | cons first _ ih => exact .cons (first.frame u) ih

/-- A list of members is lost. -/
theorem run_lose (s : Multiset α) (l : List α) :
    Run (s + (l : Multiset α)) (l.map .lose) s := by
  induction l with
  | nil =>
      rw [Multiset.coe_nil, add_zero]
      exact .nil s
  | cons a l ih =>
      rw [← Multiset.cons_coe, ← Multiset.singleton_add, add_comm ({a} : Multiset α), ← add_assoc]
      exact .cons (.lose (s + (l : Multiset α)) a) ih

/-- **PROVENANCE**: whatever is in the bag came in at some time, and aged. -/
theorem Run.descends {older : α → α → Prop} (h : Run s es t)
    (hages : ∀ a b, .age a b ∈ es → older a b) {b : α} (hb : b ∈ t) :
    ∃ a, (a ∈ s ∨ .send a ∈ es) ∧ Relation.ReflTransGen older a b := by
  induction h with
  | nil s => exact ⟨b, Or.inl hb, .refl⟩
  | @cons s t u e es first rest ih =>
      obtain ⟨a, ha, hab⟩ := ih (fun a b hab => hages a b (List.mem_cons_of_mem e hab)) hb
      have hsend : ∀ {a}, .send a ∈ es → .send a ∈ e :: es := fun hmem =>
        List.mem_cons_of_mem e hmem
      rcases ha with ha | ha
      · -- what is there after the first event was there before it, came in, or aged
        cases first with
        | send r c =>
            rcases Multiset.mem_add.mp ha with ha | ha
            · exact ⟨a, Or.inl ha, hab⟩
            · rw [Multiset.mem_singleton.mp ha] at hab
              exact ⟨c, Or.inr (List.mem_cons_self ..), hab⟩
        | lose r c => exact ⟨a, Or.inl (Multiset.mem_add.mpr (Or.inl ha)), hab⟩
        | age r c d =>
            rcases Multiset.mem_add.mp ha with ha | ha
            · exact ⟨a, Or.inl (Multiset.mem_add.mpr (Or.inl ha)), hab⟩
            · rw [Multiset.mem_singleton.mp ha] at hab
              refine ⟨c, Or.inl (Multiset.mem_add.mpr (Or.inr (Multiset.mem_singleton_self c))), ?_⟩
              exact .head (hages c d (List.mem_cons_self ..)) hab
        | copy r c =>
            rcases Multiset.mem_add.mp ha with ha | ha
            · exact ⟨a, Or.inl ha, hab⟩
            · exact ⟨a, Or.inl (Multiset.mem_add.mpr (Or.inr ha)), hab⟩
      · exact ⟨a, Or.inr (hsend ha), hab⟩

/-- **A PROPERTY OF ALL MEMBERS** lasts if what is put in has it and ageing keeps it. -/
theorem Run.all {P : α → Prop} (h : Run s es t) (hs : ∀ a ∈ s, P a)
    (hsends : ∀ a, .send a ∈ es → P a) (hages : ∀ a b, .age a b ∈ es → P a → P b) :
    ∀ b ∈ t, P b := by
  intro b hb
  obtain ⟨a, ha, hab⟩ := h.descends hages hb
  have hstart : P a := ha.elim (hs a) (hsends a)
  clear hb
  induction hab with
  | refl => exact hstart
  | tail _ last ih => exact last ih

def Event.sent : Event α → Option α
  | .send a => some a
  | _ => none

def Event.aged : Event α → Option (α × α)
  | .age a b => some (a, b)
  | _ => none

/-- What is put in. -/
def sends (es : List (Event α)) : List α := es.filterMap Event.sent

/-- How often something ages. -/
def agings (es : List (Event α)) : Nat := (es.filterMap Event.aged).length

theorem sends_append (es es' : List (Event α)) : sends (es ++ es') = sends es ++ sends es' :=
  List.filterMap_append ..

theorem agings_append (es es' : List (Event α)) : agings (es ++ es') = agings es + agings es' := by
  rw [agings, List.filterMap_append, List.length_append]
  rfl

/-- What all the members of a bag weigh. -/
def weight (μ : α → Nat) (s : Multiset α) : Nat := (s.map μ).sum

theorem weight_add (μ : α → Nat) (s t : Multiset α) :
    weight μ (s + t) = weight μ s + weight μ t := by
  rw [weight, Multiset.map_add, Multiset.sum_add]
  rfl

theorem weight_singleton (μ : α → Nat) (a : α) : weight μ {a} = μ a := by
  rw [weight, Multiset.map_singleton, Multiset.sum_singleton]

/-- **THE BUDGET**: where ageing makes lighter and nothing is copied, there are no more
    agings than the weight of what was there and of what was put in. -/
theorem Run.budget {μ : α → Nat} (h : Run s es t) (hages : ∀ a b, .age a b ∈ es → μ b < μ a)
    (hcopies : ∀ a, .copy a ∉ es) :
    agings es + weight μ t ≤ weight μ s + ((sends es).map μ).sum := by
  induction h with
  | nil s => exact Nat.le_of_eq (Nat.zero_add _)
  | @cons s t u e es first rest ih =>
      have hrest := ih (fun a b hab => hages a b (List.mem_cons_of_mem e hab))
        (fun a hmem => hcopies a (List.mem_cons_of_mem e hmem))
      cases first with
      | send r c =>
          have hsends : ((sends (.send c :: es)).map μ).sum = μ c + ((sends es).map μ).sum := rfl
          have hagings : agings (.send c :: es) = agings es := rfl
          rw [weight_add, weight_singleton] at hrest
          omega
      | lose r c =>
          have hsends : sends (.lose c :: es) = sends es := rfl
          have hagings : agings (.lose c :: es) = agings es := rfl
          rw [weight_add, weight_singleton, hsends]
          omega
      | age r c d =>
          have hless := hages c d (List.mem_cons_self ..)
          have hsends : sends (.age c d :: es) = sends es := rfl
          have hagings : agings (.age c d :: es) = agings es + 1 := rfl
          rw [weight_add, weight_singleton] at hrest
          rw [weight_add, weight_singleton, hsends]
          omega
      | copy r c => exact absurd (List.mem_cons_self ..) (hcopies c)

end Rules

end Aging
