import Mathlib.Data.List.AList
import Mathlib.Data.List.Induction
import Mathlib.Tactic.Common

/-! # Tables

    Queues and maps by key, and the choice of the best entry of a list. -/

/-! ## Queues and maps by key

    A single list may hold the values of many keys.  `of k` is the queue of one
    key in it; what is said about each key is said about `of k`.

    `Held` is a queue that holds messages back: each message that comes in has a
    key; it may pass at once, or wait until its key is released.  The law is that
    of every key the messages leave once and in the order they came
    (`InOrder`).  It is kept by a pass only if nothing waits for the key, which
    is the obligation of whoever drives the queue.

    `retain` drops the entries of a map that do not pass a test. -/

namespace Keyed

variable {κ α β : Type} [DecidableEq κ]

/-- The values for the key `k`, in order. -/
def of (k : κ) (l : List (κ × α)) : List α := (l.filter fun p => p.1 = k).map Prod.snd

section Of

variable {k j : κ} {a : α} {l m : List (κ × α)}

@[simp] theorem of_nil : of k ([] : List (κ × α)) = [] := rfl

@[simp] theorem of_append : of k (l ++ m) = of k l ++ of k m := by
  rw [of, List.filter_append, List.map_append]
  rfl

theorem of_cons_self : of k ((k, a) :: l) = a :: of k l := by
  simp [of]

theorem of_cons_ne (h : j ≠ k) : of k ((j, a) :: l) = of k l := by
  simp [of, h]

/-- A value comes last. -/
theorem of_concat_self : of k (l ++ [(k, a)]) = of k l ++ [a] := by
  rw [of_append, of_cons_self, of_nil]

theorem of_concat_ne (h : j ≠ k) : of k (l ++ [(j, a)]) = of k l := by
  rw [of_append, of_cons_ne h, of_nil, List.append_nil]

theorem mem_of_iff : a ∈ of k l ↔ (k, a) ∈ l := by
  simp [of]

/-- What is picked from the entries of one key only is picked from its values. -/
theorem filterMap_of {f : κ × α → Option β} (h : ∀ p ∈ l, p.1 ≠ k → f p = none) :
    (of k l).filterMap (fun a => f (k, a)) = l.filterMap f := by
  induction l with
  | nil => rfl
  | cons p l ih =>
      obtain ⟨j, a⟩ := p
      have hrest := ih fun q hq => h q (List.mem_cons_of_mem _ hq)
      by_cases hj : j = k
      · subst hj
        rw [of_cons_self, List.filterMap_cons, List.filterMap_cons, hrest]
      · have hnone : f (j, a) = none := h (j, a) (List.mem_cons_self ..) hj
        rw [of_cons_ne hj, hrest, List.filterMap_cons, hnone]

/-- Nothing is held for `k` iff no entry has that key. -/
theorem of_eq_nil_iff : of k l = [] ↔ ∀ p ∈ l, p.1 ≠ k := by
  simp [of]

/-- What stays when the entries of `j` are taken out. -/
def without (j : κ) (l : List (κ × α)) : List (κ × α) := l.filter fun p => p.1 ≠ j

theorem without_cons_self : without k ((k, a) :: l) = without k l := by
  simp [without]

theorem without_cons_ne (h : j ≠ k) : without k ((j, a) :: l) = (j, a) :: without k l := by
  simp [without, h]

theorem of_without_self : of k (without k l) = [] := by
  rw [of_eq_nil_iff]
  intro p hp
  exact of_decide_eq_true (List.mem_filter.mp hp).2

theorem of_without_ne (h : j ≠ k) : of k (without j l) = of k l := by
  rw [of, without, List.filter_filter]
  congr 2
  funext p
  by_cases hp : p.1 = k
  · simp [hp, h.symm]
  · simp [hp]

end Of

/-- A relation between values that carries over to what two lists hold for a key. -/
theorem forall₂_of {R : α → β → Prop} {l : List (κ × α)} {m : List (κ × β)}
    (h : List.Forall₂ (fun p q => p.1 = q.1 ∧ R p.2 q.2) l m) (k : κ) :
    List.Forall₂ R (of k l) (of k m) := by
  induction h with
  | nil => exact .nil
  | @cons p q l m hpq _ ih =>
      obtain ⟨j, a⟩ := p
      obtain ⟨j', b⟩ := q
      obtain ⟨hkey, hR⟩ := hpq
      dsimp only at hkey hR
      subst hkey
      by_cases hj : j = k
      · subst hj
        rw [of_cons_self, of_cons_self]
        exact .cons hR ih
      · rw [of_cons_ne hj, of_cons_ne hj]
        exact ih

/-! ## Holding back -/

/-- What came in, what has left, and what waits. -/
structure Held (κ α : Type) where
  came : List (κ × α)
  gone : List (κ × α)
  waiting : List (κ × α)

namespace Held

def empty : Held κ α := ⟨[], [], []⟩

/-- The message leaves at once. -/
def pass (q : Held κ α) (k : κ) (a : α) : Held κ α :=
  { q with came := q.came ++ [(k, a)], gone := q.gone ++ [(k, a)] }

/-- The message waits. -/
def hold (q : Held κ α) (k : κ) (a : α) : Held κ α :=
  { q with came := q.came ++ [(k, a)], waiting := q.waiting ++ [(k, a)] }

/-- Everything that waits for the key leaves, in order. -/
def release (q : Held κ α) (k : κ) : Held κ α :=
  { q with
    gone := q.gone ++ (of k q.waiting).map fun a => (k, a)
    waiting := without k q.waiting }

/-- **THE LAW**: of every key, what has left and then what waits is what came. -/
def InOrder (q : Held κ α) : Prop := ∀ k, of k q.gone ++ of k q.waiting = of k q.came

variable {q : Held κ α}

theorem inOrder_empty : InOrder (empty : Held κ α) := fun _ => rfl

/-- A message may pass if nothing waits for its key. -/
theorem InOrder.pass (h : InOrder q) {k : κ} (hfree : of k q.waiting = []) (a : α) :
    InOrder (q.pass k a) := by
  intro j
  have hj := h j
  show of j (q.gone ++ [(k, a)]) ++ of j q.waiting = of j (q.came ++ [(k, a)])
  by_cases hkj : k = j
  · subst hkj
    rw [hfree, List.append_nil] at hj
    rw [of_concat_self, of_concat_self, hfree, List.append_nil, hj]
  · rw [of_concat_ne hkj, of_concat_ne hkj, hj]

theorem InOrder.hold (h : InOrder q) (k : κ) (a : α) : InOrder (q.hold k a) := by
  intro j
  show of j q.gone ++ of j (q.waiting ++ [(k, a)]) = of j (q.came ++ [(k, a)])
  rw [of_append, of_append, ← List.append_assoc, h j]

theorem of_release_self (k : κ) (l : List α) : of k (l.map fun a => (k, a)) = l := by
  induction l with
  | nil => rfl
  | cons a l ih => rw [List.map_cons, of_cons_self, ih]

theorem of_release_ne {k j : κ} (h : k ≠ j) (l : List α) :
    of j (l.map fun a => (k, a)) = [] := by
  induction l with
  | nil => rfl
  | cons a l ih => rw [List.map_cons, of_cons_ne h, ih]

theorem InOrder.release (h : InOrder q) (k : κ) : InOrder (q.release k) := by
  intro j
  have hj := h j
  show of j (q.gone ++ (of k q.waiting).map fun a => (k, a)) ++ of j (without k q.waiting)
    = of j q.came
  by_cases hkj : k = j
  · subst hkj
    rw [of_append, of_release_self, of_without_self, List.append_nil, hj]
  · rw [of_append, of_release_ne hkj, of_without_ne hkj, List.append_nil, hj]

end Held

/-! ## Maps -/

/-- The entries of a map that pass the test. -/
def retain (test : κ → α → Bool) (m : AList fun _ : κ => α) : AList fun _ : κ => α where
  entries := m.entries.filter fun e => test e.1 e.2
  nodupKeys := m.nodupKeys.sublist List.filter_sublist

theorem mem_lookup_retain {test : κ → α → Bool} {m : AList fun _ : κ => α} {k : κ} {a : α} :
    a ∈ (retain test m).lookup k ↔ a ∈ m.lookup k ∧ test k a = true := by
  rw [AList.mem_lookup_iff, AList.mem_lookup_iff]
  exact List.mem_filter

/-- What holds of every value of a map, and of a new one, holds with the new one in it. -/
theorem forall_lookup_insert {P : α → Prop} {m : AList fun _ : κ => α} {k : κ} {a : α}
    (h : ∀ j, ∀ b ∈ m.lookup j, P b) (ha : P a) : ∀ j, ∀ b ∈ (m.insert k a).lookup j, P b := by
  intro j b hb
  by_cases hj : j = k
  · rw [hj, AList.lookup_insert, Option.mem_some_iff] at hb
    rw [← hb]
    exact ha
  · rw [AList.lookup_insert_ne hj] at hb
    exact h j b hb

theorem forall_lookup_erase {P : α → Prop} {m : AList fun _ : κ => α} (k : κ)
    (h : ∀ j, ∀ b ∈ m.lookup j, P b) : ∀ j, ∀ b ∈ (m.erase k).lookup j, P b := by
  intro j b hb
  by_cases hj : j = k
  · rw [hj, AList.lookup_erase] at hb
    exact absurd hb (Option.not_mem_none b)
  · rw [AList.lookup_erase_ne hj] at hb
    exact h j b hb

theorem mem_of_mem_retain {test : κ → α → Bool} {m : AList fun _ : κ => α} {k : κ}
    (h : k ∈ retain test m) : k ∈ m := by
  obtain ⟨a, ha⟩ := Option.isSome_iff_exists.mp (AList.lookup_isSome.mpr h)
  exact AList.lookup_isSome.mp (Option.isSome_iff_exists.mpr ⟨a, (mem_lookup_retain.mp ha).1⟩)

end Keyed

/-! ## The best so far

    A scan that keeps the best element it has seen, and replaces it only by a strictly
    better one, ends with the first of the best (`foldl_keepBest`). -/

namespace BestSoFar

variable {α : Type} (test : α → Bool) (rank : α → Nat)

/-- One round: an element that passes the test replaces a worse one. -/
def keepBest (best : Option α) (a : α) : Option α :=
  if test a then
    match best with
    | none => some a
    | some b => if rank a > rank b then some a else some b
  else best

/-- Of the elements that pass the test, the first of highest rank. -/
def FirstBest (l : List α) (a : α) : Prop :=
  ∃ pre post, l = pre ++ a :: post ∧ test a = true
    ∧ (∀ b ∈ pre, test b = true → rank b < rank a)
    ∧ (∀ b ∈ post, test b = true → rank b ≤ rank a)

/-- What the scan has, at any point: nothing, if nothing passes, or the first best. -/
def Scanned (l : List α) : Option α → Prop
  | none => ∀ b ∈ l, test b = false
  | some a => FirstBest test rank l a

variable {test rank}

/-- One more element. -/
theorem Scanned.step {l : List α} {best : Option α} (h : Scanned test rank l best) (a : α) :
    Scanned test rank (l ++ [a]) (keepBest test rank best a) := by
  unfold keepBest
  cases ha : test a with
  | false =>
      rw [if_neg Bool.false_ne_true]
      cases best with
      | none =>
          intro b hb
          rcases List.mem_append.mp hb with hb | hb
          · exact h b hb
          · rw [List.mem_singleton.mp hb, ha]
      | some b =>
          obtain ⟨pre, post, rfl, hb, hpre, hpost⟩ := h
          refine ⟨pre, post ++ [a], by simp, hb, hpre, ?_⟩
          intro c hc hpass
          rcases List.mem_append.mp hc with hc | hc
          · exact hpost c hc hpass
          · rw [List.mem_singleton.mp hc, ha] at hpass
            exact absurd hpass Bool.false_ne_true
  | true =>
      rw [if_pos rfl]
      cases best with
      | none =>
          refine ⟨l, [], rfl, ha, ?_, (fun _ hb => nomatch hb)⟩
          intro b hb hpass
          rw [h b hb] at hpass
          exact absurd hpass Bool.false_ne_true
      | some b =>
          obtain ⟨pre, post, rfl, hb, hpre, hpost⟩ := h
          dsimp only
          split_ifs with hbetter
          · -- better than the best, so better than all
            refine ⟨pre ++ b :: post, [], rfl, ha, ?_, (fun _ hc => nomatch hc)⟩
            intro c hc hpass
            rcases List.mem_append.mp hc with hc | hc
            · exact Nat.lt_trans (hpre c hc hpass) hbetter
            · rcases List.mem_cons.mp hc with rfl | hc
              · exact hbetter
              · exact Nat.lt_of_le_of_lt (hpost c hc hpass) hbetter
          · refine ⟨pre, post ++ [a], by simp, hb, hpre, ?_⟩
            intro c hc hpass
            rcases List.mem_append.mp hc with hc | hc
            · exact hpost c hc hpass
            · rw [List.mem_singleton.mp hc]
              exact Nat.le_of_not_lt hbetter

theorem scanned_foldl (test : α → Bool) (rank : α → Nat) (l : List α) :
    Scanned test rank l (l.foldl (keepBest test rank) none) := by
  induction l using List.reverseRecOn with
  | nil => exact fun _ hb => nomatch hb
  | append_singleton l a ih =>
      rw [List.foldl_append]
      exact ih.step a

/-- **THE SCAN FINDS THE FIRST OF THE BEST**. -/
theorem foldl_keepBest (l : List α) :
    l.foldl (keepBest test rank) none
      = l.find? fun a => test a && l.all fun b => !test b || decide (rank b ≤ rank a) := by
  have hscan := scanned_foldl test rank l
  cases hbest : l.foldl (keepBest test rank) none with
  | none =>
      rw [hbest] at hscan
      refine (List.find?_eq_none.mpr fun a ha => ?_).symm
      simp [hscan a ha]
  | some a =>
      rw [hbest] at hscan
      obtain ⟨pre, post, hl, ha, hpre, hpost⟩ := hscan
      -- nothing before it passes, since it is better
      have hbefore : ∀ b ∈ pre,
          ¬ (test b && l.all fun c => !test c || decide (rank c ≤ rank b)) = true := by
        intro b hb hpass
        obtain ⟨htest, hall⟩ := Bool.and_eq_true_iff.mp hpass
        have hle := List.all_eq_true.mp hall a (by rw [hl]; simp)
        rw [ha] at hle
        have hlt := hpre b hb htest
        exact absurd (of_decide_eq_true hle) (Nat.not_le.mpr hlt)
      have hself : (test a && l.all fun c => !test c || decide (rank c ≤ rank a)) = true := by
        refine Bool.and_eq_true_iff.mpr ⟨ha, List.all_eq_true.mpr fun c hc => ?_⟩
        cases hpass : test c with
        | false => rfl
        | true =>
            rw [hl] at hc
            refine decide_eq_true ?_
            rcases List.mem_append.mp hc with hc | hc
            · exact Nat.le_of_lt (hpre c hc hpass)
            · rcases List.mem_cons.mp hc with rfl | hc
              · exact Nat.le_refl _
              · exact hpost c hc hpass
      symm
      rw [List.find?_eq_some_iff_append]
      refine ⟨hself, pre, post, hl, fun b hb => ?_⟩
      rw [Bool.not_eq_true', Bool.eq_false_iff]
      exact hbefore b hb

end BestSoFar
