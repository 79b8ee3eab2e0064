import Mathlib.Algebra.Ring.Nat
import Mathlib.Data.List.Infix
import Mathlib.Data.Set.Card
import Mathlib.Order.Interval.Finset.Nat
import Mathlib.Tactic.Common

/-! # Pieces of a sequence and where they stand

    Three ways to say that bytes stand at positions: slices of one list, pieces laid end to
    end, and maps from positions to blocks. -/

/-! ## Slices of a list

    `SliceAt S k d` says that `d` is what `S` shows from position `k` on.  It
    is stated through `<+:`, so it survives every extension of `S`; the lemmas
    are how slices are cut, glued where they meet, and glued where they
    overlap. -/

namespace ListSlice

variable {α : Type} {S T d e : List α} {k j n : Nat}

/-- `d` is the slice of `S` that starts at position `k`. -/
def SliceAt (S : List α) (k : Nat) (d : List α) : Prop :=
  d <+: S.drop k

instance [DecidableEq α] (S : List α) (k : Nat) (d : List α) :
    Decidable (SliceAt S k d) :=
  inferInstanceAs (Decidable (d <+: S.drop k))

theorem sliceAt_nil (S : List α) (k : Nat) : SliceAt S k [] :=
  List.nil_prefix

/-- A slice ends inside the list. -/
theorem SliceAt.end_le (h : SliceAt S k d) (hd : d ≠ []) :
    k + d.length ≤ S.length := by
  have hlen := h.length_le
  rw [List.length_drop] at hlen
  have hpos : 0 < d.length := List.length_pos_iff.mpr hd
  omega

/-- So does one that starts inside it, even when it is empty. -/
theorem SliceAt.end_le_of_le (h : SliceAt S k d) (hk : k ≤ S.length) :
    k + d.length ≤ S.length := by
  have hlen := h.length_le
  rw [List.length_drop] at hlen
  omega

/-- Slices survive when the list grows at its end. -/
theorem SliceAt.mono (h : SliceAt S k d) (hST : S <+: T) : SliceAt T k d :=
  h.trans (hST.drop k)

theorem SliceAt.take (h : SliceAt S k d) (n : Nat) : SliceAt S k (d.take n) :=
  (List.take_prefix n d).trans h

/-- Cutting bytes off the front moves the slice to the right. -/
theorem SliceAt.drop (h : SliceAt S k d) (n : Nat) :
    SliceAt S (k + n) (d.drop n) := by
  have hcut := List.IsPrefix.drop h n
  rw [List.drop_drop] at hcut
  exact hcut

/-- Two slices that meet glue into one. -/
theorem SliceAt.append (h : SliceAt S k d) (h' : SliceAt S (k + d.length) e) :
    SliceAt S k (d ++ e) := by
  obtain ⟨t, ht⟩ := h
  obtain ⟨u, hu⟩ := h'
  refine ⟨u, ?_⟩
  have htail : S.drop (k + d.length) = t := by
    rw [← List.drop_drop, ← ht, List.drop_left]
  rw [htail] at hu
  rw [List.append_assoc, hu, ht]

/-- Glue on the left: keep of `d` what lies before `e`. -/
theorem SliceAt.glueLeft (h : SliceAt S k d) (h' : SliceAt S j e)
    (hkj : k ≤ j) (hjd : j ≤ k + d.length) :
    SliceAt S k (d.take (j - k) ++ e) := by
  refine (h.take (j - k)).append ?_
  have hlen : (d.take (j - k)).length = j - k := by
    rw [List.length_take]; omega
  rw [hlen, show k + (j - k) = j by omega]
  exact h'

/-- Glue on the right: keep of `e` what lies after `d`. -/
theorem SliceAt.glueRight (h : SliceAt S k d) (h' : SliceAt S j e)
    (hj : j ≤ k + d.length) :
    SliceAt S k (d ++ e.drop (k + d.length - j)) := by
  refine h.append ?_
  have hcut := h'.drop (k + d.length - j)
  rw [show j + (k + d.length - j) = k + d.length by omega] at hcut
  exact hcut

/-- A slice that starts where a taken front ends extends the front. -/
theorem SliceAt.take_append (h : SliceAt S k d) (hk : k ≤ S.length) :
    S.take k ++ d = S.take (k + d.length) := by
  obtain ⟨t, ht⟩ := h
  calc S.take k ++ d = (S.take k ++ d ++ t).take (k + d.length) := by
        rw [List.take_left']
        rw [List.length_append, List.length_take]
        omega
    _ = S.take (k + d.length) := by
        rw [List.append_assoc, ht, List.take_append_drop]

/-- A slice of the whole: the bytes from `k` up to `n` positions on. -/
theorem sliceAt_take_drop (S : List α) (k n : Nat) :
    SliceAt S k ((S.drop k).take n) :=
  List.take_prefix n (S.drop k)

/-- Two slices of the same length at the same place are the same. -/
theorem SliceAt.eq_take_drop (h : SliceAt S k d) :
    d = (S.drop k).take d.length :=
  List.prefix_iff_eq_take.mp h

end ListSlice

/-! ## Pieces laid end to end

    A queue of pieces, each with the number it starts at and a length.
    `Chain lo l hi` says that the pieces of `l` cover the range from `lo` to
    `hi` in order, without a gap and without an overlap.  Pieces of length
    zero are allowed; they sit at their number and cover nothing. -/

namespace IntervalChain

variable {α : Type} (len : α → Nat)

/-- The pieces cover `[lo, hi)` end to end. -/
def Chain : Nat → List (Nat × α) → Nat → Prop
  | lo, [], hi => lo = hi
  | lo, p :: l, hi => p.1 = lo ∧ Chain (lo + len p.2) l hi

variable {len} {lo hi : Nat} {x y l : List (Nat × α)}

theorem chain_append :
    Chain len lo (x ++ y) hi ↔ ∃ mid, Chain len lo x mid ∧ Chain len mid y hi := by
  induction x generalizing lo with
  | nil =>
      constructor
      · intro h; exact ⟨lo, rfl, h⟩
      · rintro ⟨mid, hmid, h⟩
        rw [show lo = mid from hmid]
        exact h
  | cons p x ih =>
      constructor
      · rintro ⟨hp, h⟩
        obtain ⟨mid, h1, h2⟩ := ih.mp h
        exact ⟨mid, ⟨hp, h1⟩, h2⟩
      · rintro ⟨mid, ⟨hp, h1⟩, h2⟩
        exact ⟨hp, ih.mpr ⟨mid, h1, h2⟩⟩

/-- One more piece at the end. -/
theorem Chain.snoc (h : Chain len lo l hi) (a : α) :
    Chain len lo (l ++ [(hi, a)]) (hi + len a) :=
  chain_append.mpr ⟨hi, h, rfl, rfl⟩

theorem Chain.le (h : Chain len lo l hi) : lo ≤ hi := by
  induction l generalizing lo with
  | nil => exact Nat.le_of_eq h
  | cons p l ih => exact Nat.le_trans (Nat.le_add_right _ _) (ih h.2)

/-- Every piece lies inside the range. -/
theorem Chain.mem (h : Chain len lo l hi) {p : Nat × α} (hp : p ∈ l) :
    lo ≤ p.1 ∧ p.1 + len p.2 ≤ hi := by
  induction l generalizing lo with
  | nil => exact nomatch hp
  | cons q l ih =>
      obtain ⟨hq, h⟩ := h
      rcases List.mem_cons.mp hp with heq | hmem
      · have hle := h.le
        rw [heq, hq]
        exact ⟨Nat.le_refl _, hle⟩
      · obtain ⟨h1, h2⟩ := ih h hmem
        exact ⟨Nat.le_trans (Nat.le_add_right _ _) h1, h2⟩

/-- The lengths add up to the range. -/
theorem Chain.sum (h : Chain len lo l hi) :
    lo + (l.map fun p => len p.2).sum = hi := by
  induction l generalizing lo with
  | nil => exact h
  | cons p l ih => rw [List.map_cons, List.sum_cons, ← Nat.add_assoc, ih h.2]

/-- A chain whose pieces end by `u` ends by `u`. -/
theorem Chain.end_le {u : Nat} (h : Chain len lo l hi) (hlo : lo ≤ u)
    (hl : ∀ p ∈ l, p.1 + len p.2 ≤ u) : hi ≤ u := by
  induction l generalizing lo with
  | nil =>
      rw [← show lo = hi from h]
      exact hlo
  | cons p l ih =>
      have hp := hl p (List.mem_cons_self ..)
      rw [h.1] at hp
      exact ih h.2 hp fun q hq => hl q (List.mem_cons_of_mem _ hq)

/-- In a chain whose first piece ends beyond `u` every piece does. -/
theorem Chain.beyond {u : Nat} (h : Chain len lo l hi)
    (hhead : ∀ p ∈ l.head?, u < p.1 + len p.2) : ∀ p ∈ l, u < p.1 + len p.2 := by
  cases l with
  | nil => exact fun p hp => absurd hp (List.not_mem_nil)
  | cons q l =>
      intro p hp
      have hq := hhead q rfl
      rcases List.mem_cons.mp hp with rfl | hmem
      · exact hq
      · have hle := (h.2.mem hmem).1
        rw [h.1] at hq
        omega

end IntervalChain

/-! ## Block maps — ordered maps from positions to non-empty blocks

    A block map is an ordered map whose entry `(k, d)` stands for the positions
    `k, …, k + |d| - 1`.  It is kept as the list of its entries in key order,
    the way an iterator walks an ordered map.

    * `Packed lo m` is the representation invariant: every block is non-empty
      and starts at or after the end of the one before it, the first one at or
      after `lo`.  It gives order, disjointness and, through
      `Packed.total_le`, the counting bound.
    * `Covers m k` is the set of positions the map holds.
    * `trimFront f m` forgets the positions below `f`; `absorb f m` splits off
      the blocks that follow on from `f` without a hole. -/

namespace BlockMap

open ListSlice

variable {α : Type}

/-- Blocks in key order. -/
abbrev Blocks (α : Type) := List (Nat × List α)

/-- The number of positions held. -/
def total : Blocks α → Nat
  | [] => 0
  | (_, d) :: m => d.length + total m

/-- Non-empty blocks, each at or after the end of the one before, the first
    at or after `lo`. -/
def Packed : Nat → Blocks α → Prop
  | _, [] => True
  | lo, (k, d) :: m => lo ≤ k ∧ d ≠ [] ∧ Packed (k + d.length) m

/-- Position `k` lies in some block. -/
def Covers (m : Blocks α) (k : Nat) : Prop :=
  ∃ b ∈ m, b.1 ≤ k ∧ k < b.1 + b.2.length

instance (m : Blocks α) (k : Nat) : Decidable (Covers m k) :=
  inferInstanceAs (Decidable (∃ b ∈ m, b.1 ≤ k ∧ k < b.1 + b.2.length))

/-- Where the last block ends; `lo` when there is none. -/
def endOf : Nat → Blocks α → Nat
  | lo, [] => lo
  | _, (k, d) :: m => endOf (k + d.length) m

/-- Insertion into an ordered map: an existing key keeps its value. -/
def insertNew (k : Nat) (d : List α) : Blocks α → Blocks α
  | [] => [(k, d)]
  | (k', d') :: m =>
      if k < k' then (k, d) :: (k', d') :: m
      else if k = k' then (k', d') :: m
      else (k', d') :: insertNew k d m

/-- Removal of a key. -/
def eraseKey (k : Nat) (m : Blocks α) : Blocks α :=
  m.filter fun b => b.1 != k

/-- One block, or none when it would be empty. -/
def keep (k : Nat) : List α → Blocks α
  | [] => []
  | x :: xs => [(k, x :: xs)]

theorem keep_of_ne {k : Nat} {d : List α} (h : d ≠ []) :
    keep k d = [(k, d)] := by
  cases d with
  | nil => exact absurd rfl h
  | cons x xs => rfl

theorem keep_eq_nil_iff {k : Nat} {d : List α} : keep k d = [] ↔ d = [] := by
  cases d <;> simp [keep]

/-! ## Totals and coverage -/

theorem total_append (x y : Blocks α) : total (x ++ y) = total x + total y := by
  induction x with
  | nil => simp [total]
  | cons b x ih =>
      obtain ⟨k, d⟩ := b
      simp only [List.cons_append, total, ih]
      omega

theorem total_sublist {x y : Blocks α} (h : x.Sublist y) : total x ≤ total y := by
  induction h with
  | slnil => exact Nat.le_refl _
  | cons b _ ih => simp only [total]; omega
  | cons_cons b _ ih => simp only [total]; omega

theorem total_keep (k : Nat) (d : List α) : total (keep k d) = d.length := by
  cases d <;> simp [keep, total]

/-- Insertion adds the block, or nothing. -/
theorem total_insertNew_le (k : Nat) (d : List α) (m : Blocks α) :
    total (insertNew k d m) ≤ total m + d.length := by
  induction m with
  | nil => simp [insertNew, total]
  | cons b m ih =>
      obtain ⟨j, e⟩ := b
      rw [insertNew]
      split_ifs
      · simp only [total]; omega
      · exact Nat.le_add_right _ _
      · simp only [total]; omega

/-- An entry that is found and removed takes its bytes with it. -/
theorem total_eraseKey_le {k : Nat} {d : List α} {m : Blocks α} (h : m.lookup k = some d) :
    d.length + total (eraseKey k m) ≤ total m := by
  induction m with
  | nil => exact absurd h.symm (Option.some_ne_none d)
  | cons b m ih =>
      obtain ⟨j, e⟩ := b
      by_cases hj : j = k
      · subst hj
        rw [List.lookup_cons_self] at h
        rw [Option.some.inj h.symm, eraseKey, List.filter_cons_of_neg (by simp), total]
        exact Nat.add_le_add_left (total_sublist List.filter_sublist) _
      · have hne : (k == j) = false := beq_false_of_ne (Ne.symm hj)
        have hrest := ih (by rw [List.lookup_cons, hne] at h; exact h)
        rw [eraseKey, List.filter_cons_of_pos (by simpa using hj), total, total]
        rw [eraseKey] at hrest
        omega

theorem covers_nil (k : Nat) : ¬ Covers ([] : Blocks α) k := by
  rintro ⟨b, hb, -⟩
  exact nomatch hb

theorem covers_cons {b : Nat × List α} {m : Blocks α} {k : Nat} :
    Covers (b :: m) k ↔ (b.1 ≤ k ∧ k < b.1 + b.2.length) ∨ Covers m k := by
  constructor
  · rintro ⟨c, hc, hk⟩
    rcases List.mem_cons.mp hc with heq | hmem
    · rw [heq] at hk; exact Or.inl hk
    · exact Or.inr ⟨c, hmem, hk⟩
  · rintro (hk | ⟨c, hc, hk⟩)
    · exact ⟨b, List.mem_cons_self .., hk⟩
    · exact ⟨c, List.mem_cons_of_mem _ hc, hk⟩

theorem covers_append {x y : Blocks α} {k : Nat} :
    Covers (x ++ y) k ↔ Covers x k ∨ Covers y k := by
  induction x with
  | nil => simp [covers_nil]
  | cons b x ih => rw [List.cons_append, covers_cons, covers_cons, ih, or_assoc]

theorem covers_keep {j : Nat} {d : List α} {k : Nat} :
    Covers (keep j d) k ↔ j ≤ k ∧ k < j + d.length := by
  cases d with
  | nil =>
      refine ⟨fun h => absurd h (covers_nil k), fun h => ?_⟩
      have := h.2
      simp only [List.length_nil] at this
      omega
  | cons x xs =>
      rw [keep, covers_cons]
      exact ⟨fun h => h.resolve_right (covers_nil k), Or.inl⟩

theorem Covers.of_subset {m m' : Blocks α} {k : Nat} (h : Covers m k)
    (hsub : ∀ b ∈ m, b ∈ m') : Covers m' k := by
  obtain ⟨b, hb, hk⟩ := h
  exact ⟨b, hsub b hb, hk⟩

/-! ## The representation invariant -/

theorem Packed.weaken {lo lo' : Nat} {m : Blocks α} (h : Packed lo m)
    (hle : lo' ≤ lo) : Packed lo' m := by
  cases m with
  | nil => exact trivial
  | cons b m =>
      obtain ⟨k, d⟩ := b
      exact ⟨Nat.le_trans hle h.1, h.2.1, h.2.2⟩

theorem packed_append {x y : Blocks α} {lo : Nat} :
    Packed lo (x ++ y) ↔ Packed lo x ∧ Packed (endOf lo x) y := by
  induction x generalizing lo with
  | nil => simp [Packed, endOf]
  | cons b x ih =>
      obtain ⟨k, d⟩ := b
      simp only [List.cons_append, Packed, endOf, ih, and_assoc]

theorem Packed.le_endOf {x : Blocks α} {lo : Nat} (h : Packed lo x) :
    lo ≤ endOf lo x := by
  induction x generalizing lo with
  | nil => exact Nat.le_refl lo
  | cons b x ih =>
      obtain ⟨k, d⟩ := b
      have := ih h.2.2
      have := h.1
      simp only [endOf]
      omega

/-- Every block of a packed map starts at or after the bound and is not
    empty. -/
theorem Packed.mem {m : Blocks α} {lo : Nat} (h : Packed lo m)
    {b : Nat × List α} (hb : b ∈ m) : lo ≤ b.1 ∧ b.2 ≠ [] := by
  induction m generalizing lo with
  | nil => exact nomatch hb
  | cons c m ih =>
      obtain ⟨k, d⟩ := c
      rcases List.mem_cons.mp hb with heq | hmem
      · rw [heq]; exact ⟨h.1, h.2.1⟩
      · obtain ⟨h1, h2⟩ := ih h.2.2 hmem
        have := h.1
        exact ⟨by omega, h2⟩

theorem Packed.length_pos {m : Blocks α} {lo : Nat} (h : Packed lo m)
    {b : Nat × List α} (hb : b ∈ m) : 0 < b.2.length :=
  List.length_pos_iff.mpr (h.mem hb).2

/-- What a packed map covers lies at or after its bound. -/
theorem Packed.le_of_covers {m : Blocks α} {lo k : Nat} (h : Packed lo m)
    (hk : Covers m k) : lo ≤ k := by
  obtain ⟨b, hb, h1, -⟩ := hk
  have := (h.mem hb).1
  omega

/-- No position lies in two blocks. -/
theorem Packed.eq_of_covers {m : Blocks α} {lo k : Nat} (h : Packed lo m)
    {b c : Nat × List α} (hb : b ∈ m) (hc : c ∈ m) (hbk : b.1 ≤ k)
    (hkb : k < b.1 + b.2.length) (hck : c.1 ≤ k) (hkc : k < c.1 + c.2.length) :
    b = c := by
  induction m generalizing lo with
  | nil => exact nomatch hb
  | cons a m ih =>
      obtain ⟨j, d⟩ := a
      obtain ⟨-, -, hrest⟩ := h
      rcases List.mem_cons.mp hb with hb' | hb' <;>
        rcases List.mem_cons.mp hc with hc' | hc'
      · rw [hb', hc']
      · have := (hrest.mem hc').1
        rw [hb'] at hkb
        dsimp only at hkb
        omega
      · have := (hrest.mem hb').1
        rw [hc'] at hkc
        dsimp only at hkc
        omega
      · exact ih hrest hb' hc'

/-- Every block ends before a later one starts. -/
theorem Packed.pairwise {m : Blocks α} {lo : Nat} (h : Packed lo m) :
    m.Pairwise fun b c => b.1 + b.2.length ≤ c.1 := by
  induction m generalizing lo with
  | nil => exact .nil
  | cons b m ih =>
      obtain ⟨k, d⟩ := b
      exact .cons (fun c hc => (h.2.2.mem hc).1) (ih h.2.2)

/-- **EVERY POSITION ONCE**: the total is the number of positions covered. -/
theorem Packed.total_eq_ncard {m : Blocks α} {lo : Nat} (h : Packed lo m) :
    total m = {k | Covers m k}.ncard := by
  have hcard : {k | Covers m k}.encard = (total m : ENat) := by
    induction m generalizing lo with
    | nil => simp [covers_nil, total]
    | cons b m ih =>
        obtain ⟨k, d⟩ := b
        have hsplit : {j | Covers ((k, d) :: m) j}
            = Set.Ico k (k + d.length) ∪ {j | Covers m j} := by
          ext j
          exact covers_cons
        have hapart : Disjoint (Set.Ico k (k + d.length)) {j | Covers m j} := by
          rw [Set.disjoint_left]
          intro j hj hcov
          exact absurd (h.2.2.le_of_covers hcov) (Nat.not_le.mpr hj.2)
        rw [hsplit, Set.encard_union_eq hapart, ih h.2.2, total, Nat.cast_add,
          ← Finset.coe_Ico, Set.encard_coe_eq_coe_finsetCard, Nat.card_Ico,
          Nat.add_sub_cancel_left]
  rw [Set.ncard_def, hcard, ENat.toNat_natCast]

/-- **COUNTING**: disjoint blocks between `lo` and `hi` hold at most `hi - lo`
    positions. -/
theorem Packed.total_le {m : Blocks α} {lo hi : Nat} (h : Packed lo m)
    (hlo : lo ≤ hi) (hhi : ∀ b ∈ m, b.1 + b.2.length ≤ hi) :
    lo + total m ≤ hi := by
  induction m generalizing lo with
  | nil => simpa [total] using hlo
  | cons b m ih =>
      obtain ⟨k, d⟩ := b
      have hkd : k + d.length ≤ hi := hhi (k, d) (List.mem_cons_self ..)
      have := ih h.2.2 hkd fun c hc => hhi c (List.mem_cons_of_mem _ hc)
      have := h.1
      simp only [total]
      omega

theorem Packed.total_eq_zero {m : Blocks α} {lo : Nat} (h : Packed lo m) :
    total m = 0 ↔ m = [] := by
  cases m with
  | nil => simp [total]
  | cons b m =>
      obtain ⟨k, d⟩ := b
      have hpos : 0 < d.length := List.length_pos_iff.mpr h.2.1
      constructor
      · intro h0
        simp only [total] at h0
        omega
      · intro hnil
        exact nomatch hnil

/-- A block may be cut short, or dropped, in place. -/
theorem Packed.cut {x y : Blocks α} {lo a : Nat} {d : List α}
    (h : Packed lo (x ++ (a, d) :: y)) {d' : List α}
    (hlen : d'.length ≤ d.length) : Packed lo (x ++ keep a d' ++ y) := by
  rw [packed_append] at h
  obtain ⟨hx, ha, -, hy⟩ := h
  rw [List.append_assoc, packed_append]
  refine ⟨hx, ?_⟩
  cases hd : d' with
  | nil =>
      exact hy.weaken (by omega)
  | cons z zs =>
      rw [keep, ← hd]
      refine ⟨ha, ?_, hy.weaken (by omega)⟩
      rw [hd]
      exact List.cons_ne_nil z zs

/-- Inserting at the gap a packed map leaves puts the block into the gap. -/
theorem insertNew_gap {x y : Blocks α} {lo a : Nat} {d : List α}
    (h : Packed lo (x ++ (a, d) :: y)) (d' : List α) :
    insertNew a d' (x ++ y) = x ++ (a, d') :: y := by
  induction x generalizing lo with
  | nil =>
      cases y with
      | nil => rfl
      | cons c y =>
          obtain ⟨k, e⟩ := c
          obtain ⟨-, hd, hk, -⟩ := h
          have hpos : 0 < d.length := List.length_pos_iff.mpr hd
          rw [List.nil_append, insertNew, if_pos (by omega)]
          rfl
  | cons c x ih =>
      obtain ⟨k, e⟩ := c
      obtain ⟨-, he, hrest⟩ := h
      have hpos : 0 < e.length := List.length_pos_iff.mpr he
      have hka : k + e.length ≤ a := by
        have hx := (packed_append.mp hrest).1.le_endOf
        have ha := (packed_append.mp hrest).2.1
        omega
      rw [List.cons_append, insertNew, if_neg (by omega), if_neg (by omega),
        ih hrest]
      rfl

/-- In a packed map the first block is the only one under its key. -/
theorem eraseKey_head {k lo : Nat} {d : List α} {m : Blocks α}
    (h : Packed lo ((k, d) :: m)) : eraseKey k ((k, d) :: m) = m := by
  have hpos : 0 < d.length := List.length_pos_iff.mpr h.2.1
  rw [eraseKey, List.filter_cons_of_neg (by simp)]
  refine List.filter_eq_self.mpr fun b hb => ?_
  have := (h.2.2.mem hb).1
  simp only [bne_iff_ne, ne_eq]
  omega

/-- A packed map has no entry below its bound. -/
theorem lookup_of_lt {f lo : Nat} {m : Blocks α} (h : Packed lo m)
    (hf : f < lo) : m.lookup f = none := by
  rw [List.lookup_eq_none_iff]
  intro b hb
  have := (h.mem hb).1
  simp only [bne_iff_ne, ne_eq]
  omega

/-! ## Forgetting the front -/

/-- The blocks without the positions below `f`. -/
def trimFront (f : Nat) : Blocks α → Blocks α
  | [] => []
  | (k, d) :: m =>
      if f ≤ k then (k, d) :: m
      else if k + d.length ≤ f then trimFront f m
      else (f, d.drop (f - k)) :: m

section TrimFront

variable {f k : Nat} {d : List α} {m : Blocks α}

theorem trimFront_cons_above (hk : f ≤ k) : trimFront f ((k, d) :: m) = (k, d) :: m :=
  if_pos hk

theorem trimFront_cons_below (hk : ¬ f ≤ k) (hend : k + d.length ≤ f) :
    trimFront f ((k, d) :: m) = trimFront f m :=
  (if_neg hk).trans (if_pos hend)

theorem trimFront_cons_across (hk : ¬ f ≤ k) (hend : ¬ k + d.length ≤ f) :
    trimFront f ((k, d) :: m) = (f, d.drop (f - k)) :: m :=
  (if_neg hk).trans (if_neg hend)

end TrimFront

theorem trimFront_of_packed {f : Nat} {m : Blocks α} (h : Packed f m) :
    trimFront f m = m := by
  cases m with
  | nil => rfl
  | cons b m => exact trimFront_cons_above h.1

theorem packed_trimFront {f lo : Nat} {m : Blocks α} (h : Packed lo m) :
    Packed f (trimFront f m) := by
  induction m generalizing lo with
  | nil => exact trivial
  | cons b m ih =>
      obtain ⟨k, d⟩ := b
      by_cases hfk : f ≤ k
      · rw [trimFront_cons_above hfk]; exact ⟨hfk, h.2⟩
      by_cases hend : k + d.length ≤ f
      · rw [trimFront_cons_below hfk hend]; exact ih h.2.2
      rw [trimFront_cons_across hfk hend]
      refine ⟨Nat.le_refl f, ?_, h.2.2.weaken ?_⟩
      · apply List.ne_nil_of_length_pos
        rw [List.length_drop]; omega
      · rw [List.length_drop]; omega

theorem total_trimFront_le (f : Nat) (m : Blocks α) :
    total (trimFront f m) ≤ total m := by
  induction m with
  | nil => exact Nat.le_refl _
  | cons b m ih =>
      obtain ⟨k, d⟩ := b
      by_cases hfk : f ≤ k
      · rw [trimFront_cons_above hfk]
      by_cases hend : k + d.length ≤ f
      · rw [trimFront_cons_below hfk hend]; simp only [total]; omega
      · rw [trimFront_cons_across hfk hend]; simp only [total, List.length_drop]; omega

theorem length_trimFront_le (f : Nat) (m : Blocks α) :
    (trimFront f m).length ≤ m.length := by
  induction m with
  | nil => exact Nat.le_refl _
  | cons b m ih =>
      obtain ⟨k, d⟩ := b
      by_cases hfk : f ≤ k
      · rw [trimFront_cons_above hfk]
      by_cases hend : k + d.length ≤ f
      · rw [trimFront_cons_below hfk hend, List.length_cons]; omega
      · rw [trimFront_cons_across hfk hend, List.length_cons, List.length_cons]

theorem covers_trimFront {f lo k : Nat} {m : Blocks α} (h : Packed lo m)
    (hk : f ≤ k) : Covers (trimFront f m) k ↔ Covers m k := by
  induction m generalizing lo with
  | nil => exact Iff.rfl
  | cons b m ih =>
      obtain ⟨j, d⟩ := b
      by_cases hfj : f ≤ j
      · rw [trimFront_cons_above hfj]
      by_cases hend : j + d.length ≤ f
      · rw [trimFront_cons_below hfj hend, ih h.2.2, covers_cons]
        refine ⟨Or.inr, fun hc => hc.resolve_left ?_⟩
        intro hin
        have h2 : k < j + d.length := hin.2
        omega
      · rw [trimFront_cons_across hfj hend, covers_cons, covers_cons]
        refine or_congr_left ?_
        simp only [List.length_drop]
        omega

theorem trimFront_slices {S : List α} {f : Nat} {m : Blocks α}
    (h : ∀ b ∈ m, SliceAt S b.1 b.2) :
    ∀ b ∈ trimFront f m, SliceAt S b.1 b.2 := by
  induction m with
  | nil => exact h
  | cons c m ih =>
      obtain ⟨k, d⟩ := c
      have hrest : ∀ b ∈ m, SliceAt S b.1 b.2 :=
        fun b hb => h b (List.mem_cons_of_mem _ hb)
      by_cases hfk : f ≤ k
      · rw [trimFront_cons_above hfk]; exact h
      by_cases hend : k + d.length ≤ f
      · rw [trimFront_cons_below hfk hend]; exact ih hrest
      · rw [trimFront_cons_across hfk hend]
        intro b hb
        rcases List.mem_cons.mp hb with heq | hmem
        · rw [heq]
          have hcut := (h (k, d) (List.mem_cons_self ..)).drop (f - k)
          rw [show (k, d).1 + (f - k) = f by show k + (f - k) = f; omega] at hcut
          exact hcut
        · exact hrest b hmem

/-! ## Following on from a position -/

/-- Split off the blocks that follow on from `f` without a hole: their bytes,
    and the blocks that stay. -/
def absorb : Nat → Blocks α → List α × Blocks α
  | _, [] => ([], [])
  | f, (k, d) :: m =>
      if k = f then (d ++ (absorb (f + d.length) m).1, (absorb (f + d.length) m).2)
      else ([], (k, d) :: m)

theorem absorb_cons_next (f : Nat) (d : List α) (m : Blocks α) :
    absorb f ((f, d) :: m)
      = (d ++ (absorb (f + d.length) m).1, (absorb (f + d.length) m).2) :=
  if_pos rfl

theorem absorb_cons_hole {f k : Nat} {d : List α} {m : Blocks α} (hk : k ≠ f) :
    absorb f ((k, d) :: m) = ([], (k, d) :: m) :=
  if_neg hk

theorem absorb_packed {f : Nat} {m : Blocks α} (h : Packed f m) :
    Packed (f + (absorb f m).1.length + 1) (absorb f m).2 := by
  induction m generalizing f with
  | nil => exact trivial
  | cons b m ih =>
      obtain ⟨k, d⟩ := b
      by_cases hk : k = f
      · subst hk
        rw [absorb_cons_next]
        have := ih h.2.2
        simp only [List.length_append]
        rw [show k + (d.length + (absorb (k + d.length) m).1.length) + 1
          = k + d.length + (absorb (k + d.length) m).1.length + 1 by omega]
        exact this
      · rw [absorb_cons_hole hk]
        have := h.1
        exact ⟨by simp only [List.length_nil]; omega, h.2⟩

theorem absorb_total (f : Nat) (m : Blocks α) :
    (absorb f m).1.length + total (absorb f m).2 = total m := by
  induction m generalizing f with
  | nil => rfl
  | cons b m ih =>
      obtain ⟨k, d⟩ := b
      by_cases hk : k = f
      · subst hk
        rw [absorb_cons_next]
        have := ih (k + d.length)
        simp only [List.length_append, total]
        omega
      · rw [absorb_cons_hole hk, List.length_nil, Nat.zero_add]

theorem absorb_covers {f k : Nat} {m : Blocks α} (h : Packed f m)
    (hfk : f ≤ k) :
    Covers m k ↔ k < f + (absorb f m).1.length ∨ Covers (absorb f m).2 k := by
  induction m generalizing f with
  | nil => exact ⟨Or.inr, fun hc => hc.resolve_left (Nat.not_lt.mpr hfk)⟩
  | cons b m ih =>
      obtain ⟨j, d⟩ := b
      by_cases hj : j = f
      · subst hj
        rw [absorb_cons_next]
        simp only [List.length_append]
        rw [covers_cons]
        by_cases hin : k < j + d.length
        · exact ⟨fun _ => Or.inl (by omega), fun _ => Or.inl ⟨hfk, hin⟩⟩
        · have := ih h.2.2 (by omega)
          constructor
          · intro hc
            have hc' := hc.resolve_left (fun h' => hin h'.2)
            rcases this.mp hc' with hlt | hpost
            · exact Or.inl (by omega)
            · exact Or.inr hpost
          · intro hc
            refine Or.inr (this.mpr ?_)
            rcases hc with hlt | hpost
            · exact Or.inl (by omega)
            · exact Or.inr hpost
      · rw [absorb_cons_hole hj, List.length_nil]
        exact ⟨Or.inr, fun hc => hc.resolve_left (by omega)⟩

theorem absorb_mem {f : Nat} {m : Blocks α} :
    ∀ b ∈ (absorb f m).2, b ∈ m := by
  induction m generalizing f with
  | nil => intro b hb; exact hb
  | cons c m ih =>
      obtain ⟨k, d⟩ := c
      intro b hb
      by_cases hk : k = f
      · subst hk
        rw [absorb_cons_next] at hb
        exact List.mem_cons_of_mem _ (ih b hb)
      · rw [absorb_cons_hole hk] at hb; exact hb

theorem absorb_slice {S : List α} {f : Nat} {m : Blocks α}
    (h : ∀ b ∈ m, SliceAt S b.1 b.2) : SliceAt S f (absorb f m).1 := by
  induction m generalizing f with
  | nil => exact sliceAt_nil S f
  | cons c m ih =>
      obtain ⟨k, d⟩ := c
      by_cases hk : k = f
      · subst hk
        rw [absorb_cons_next]
        refine SliceAt.append (h (k, d) (List.mem_cons_self ..)) ?_
        exact ih fun b hb => h b (List.mem_cons_of_mem _ hb)
      · rw [absorb_cons_hole hk]; exact sliceAt_nil S f

end BlockMap
