import Mathlib.Algebra.Ring.Nat
import Mathlib.Tactic.Common
import Mathlib.Tactic.SplitIfs

/-! # Words of a fixed width over the naturals

    What programs do with unsigned words, told about natural numbers: differences that
    wrap, and checksums. -/

/-! ## Unsigned 64-bit subtraction over the naturals

    Counters are natural numbers; where a program subtracts two unsigned
    64-bit numbers the difference is `sub64`, which wraps instead of going
    below zero. -/

namespace Word64

variable {a b : Nat}

/-- `a - b` in unsigned 64-bit arithmetic. -/
def sub64 (a b : Nat) : Nat :=
  (a + (2 ^ 64 - b % 2 ^ 64)) % 2 ^ 64

/-- No wrap when the subtrahend is the smaller number. -/
theorem sub64_of_le (h : b ≤ a) (hlt : a - b < 2 ^ 64) : sub64 a b = a - b := by
  rw [sub64]
  omega

/-- Below zero the difference wraps to the top of the range. -/
theorem sub64_of_lt (h : a < b) (hlt : b - a < 2 ^ 64) :
    sub64 a b = 2 ^ 64 - (b - a) := by
  rw [sub64]
  omega

/-- Only the minuend's residue matters. -/
theorem sub64_mod (a b : Nat) : sub64 (a % 2 ^ 64) b = sub64 a b := by
  unfold sub64
  omega

/-- A larger subtrahend takes more off, as long as there is enough. -/
theorem sub64_add {k : Nat} (h : k ≤ sub64 a b) : sub64 a (b + k) = sub64 a b - k := by
  rw [sub64] at h ⊢
  rw [sub64]
  omega

end Word64

/-! ## Sums with end-around carry

    A checksum adds words and carries what overflows back in at the low end.  With
    words up to `M` that is arithmetic modulo `M` with two zeros: `0`, which only
    the empty sum gives, and `M`.  `residue M n` is what is left of the sum `n`.

    One round of carrying (`residue_carry`) does not change it, and a sum to which its
    own complement is added is left with `M` (`residue_complement`): that is why a
    receiver can check a sum without knowing where the checksum is.

    `pairSum` is the sum of a byte string in big-endian pairs, taken byte by byte; it is
    the sum of the `words`, and no single byte can change without changing it
    (`pairSum_byte_ne`). -/

namespace OnesComplement

/-- What the carrying leaves of a sum: `0` of nothing, else between `1` and `M`. -/
def residue (M n : Nat) : Nat := if n = 0 then 0 else (n - 1) % M + 1

variable {M n : Nat}

theorem residue_le (hM : 0 < M) (n : Nat) : residue M n ≤ M := by
  rw [residue]
  split_ifs
  · exact Nat.zero_le M
  · exact Nat.mod_lt _ hM

theorem residue_of_le (h : n ≤ M) : residue M n = n := by
  rw [residue]
  split_ifs with h0
  · exact h0.symm
  · rw [Nat.mod_eq_of_lt (by omega)]
    omega

/-- Multiples of `M` do not count, next to something. -/
theorem residue_add_mul (h : 0 < n) (q : Nat) : residue M (n + M * q) = residue M n := by
  rw [residue, residue, if_neg (by omega), if_neg (by omega),
    show n + M * q - 1 = n - 1 + M * q by omega, Nat.add_mul_mod_self_left]

/-- **ONE ROUND OF CARRYING** leaves the residue alone. -/
theorem residue_carry (M n : Nat) :
    residue M (n / (M + 1) + n % (M + 1)) = residue M n := by
  have hdiv := Nat.div_add_mod n (M + 1)
  generalize n / (M + 1) = q at hdiv ⊢
  generalize n % (M + 1) = r at hdiv ⊢
  have hsplit : n = q + r + M * q := by
    rw [← hdiv, Nat.add_mul, Nat.one_mul]
    omega
  rcases Nat.eq_zero_or_pos (q + r) with hzero | hpos
  · obtain ⟨rfl, rfl⟩ := Nat.add_eq_zero_iff.mp hzero
    rw [hsplit]
    rfl
  · rw [hsplit, residue_add_mul hpos]

/-- **THE COMPLEMENT** of what is left fills the sum up. -/
theorem residue_complement (hM : 0 < M) (n : Nat) :
    residue M (n + (M - residue M n)) = M := by
  by_cases hn : n = 0
  · rw [hn, residue_of_le (Nat.zero_le M), Nat.sub_zero, Nat.zero_add,
      residue_of_le (Nat.le_refl M)]
  · have hdiv := Nat.div_add_mod (n - 1) M
    have hlt := Nat.mod_lt (n - 1) hM
    have hres : residue M n = (n - 1) % M + 1 := if_neg hn
    rw [hres, show n + (M - ((n - 1) % M + 1)) = M + M * ((n - 1) / M) by omega,
      residue_add_mul hM, residue_of_le (Nat.le_refl M)]

/-- **WHAT IS LEFT**: nothing of nothing, else the number between `1` and `M` that is
    congruent to the sum. -/
theorem residue_spec (hM : 0 < M) (n : Nat) :
    (n = 0 → residue M n = 0)
      ∧ (n ≠ 0 → 1 ≤ residue M n ∧ residue M n ≤ M ∧ residue M n % M = n % M) := by
  constructor
  · intro hn
    exact if_pos hn
  · intro hn
    have hres : residue M n = (n - 1) % M + 1 := if_neg hn
    refine ⟨?_, residue_le hM n, ?_⟩
    · rw [hres]
      exact Nat.le_add_left 1 _
    · rw [hres, Nat.mod_add_mod, Nat.sub_add_cancel (Nat.pos_of_ne_zero hn)]

/-- The carrying leaves all ones of a sum that is a multiple of them, and not empty. -/
theorem residue_eq_iff (hM : 0 < M) : residue M n = M ↔ 0 < n ∧ n % M = 0 := by
  obtain ⟨hzero, hpos⟩ := residue_spec hM n
  constructor
  · intro hres
    have hn : n ≠ 0 := by
      intro hn
      rw [hzero hn] at hres
      omega
    refine ⟨Nat.pos_of_ne_zero hn, ?_⟩
    rw [← (hpos hn).2.2, hres, Nat.mod_self]
  · rintro ⟨hn, hmod⟩
    obtain ⟨hone, hle, hsame⟩ := hpos (Nat.ne_of_gt hn)
    rw [hmod] at hsame
    exact Nat.le_antisymm hle (Nat.le_of_dvd hone (Nat.dvd_of_mod_eq_zero hsame))

/-! ## Bytes in pairs -/

/-- The sum of the bytes in pairs, the first of a pair being the high one; `odd` says
    that the string begins inside a pair. -/
def pairSum : Bool → List UInt8 → Nat
  | _, [] => 0
  | odd, b :: bs => (if odd then b.toNat else b.toNat * 2 ^ 8) + pairSum (!odd) bs

/-- The parity flips with every byte. -/
theorem odd_succ (n : Nat) : ((n + 1) % 2 == 1) = !(n % 2 == 1) := by
  rcases Nat.mod_two_eq_zero_or_one n with h | h
  · simp [Nat.add_mod, h]
  · simp [Nat.add_mod, h]

theorem pairSum_append (odd : Bool) (x y : List UInt8) :
    pairSum odd (x ++ y) = pairSum odd x + pairSum (odd ^^ (x.length % 2 == 1)) y := by
  induction x generalizing odd with
  | nil => simp [pairSum]
  | cons b x ih =>
      rw [List.cons_append, pairSum, pairSum, ih, Nat.add_assoc, List.length_cons, odd_succ]
      cases odd <;> simp

/-- Behind an even number of bytes a pair begins. -/
theorem pairSum_append_even {x : List UInt8} (h : x.length % 2 = 0) (y : List UInt8) :
    pairSum false (x ++ y) = pairSum false x + pairSum false y := by
  rw [pairSum_append, h]
  rfl

/-- No byte counts for more than a high one. -/
theorem pairSum_le (odd : Bool) (x : List UInt8) : pairSum odd x ≤ x.length * 65280 := by
  induction x generalizing odd with
  | nil => exact Nat.zero_le _
  | cons b x ih =>
      have hb := b.toNat_lt
      have hx := ih (!odd)
      rw [pairSum, List.length_cons]
      split_ifs <;> omega

/-- **ONE BYTE COUNTS**: strings that differ in one byte have different sums, also modulo
    all ones. -/
theorem pairSum_byte_ne {x y : UInt8} (hxy : x ≠ y) (c : Nat) (odd : Bool)
    (pre post : List UInt8) :
    (c + pairSum odd (pre ++ x :: post)) % 65535
      ≠ (c + pairSum odd (pre ++ y :: post)) % 65535 := by
  have hx := x.toNat_lt
  have hy := y.toNat_lt
  have hne : x.toNat ≠ y.toNat := mt UInt8.toNat_inj.mp hxy
  rw [pairSum_append, pairSum_append, pairSum, pairSum]
  -- a low byte weighs 1 and a high one 256, too little to come around
  split_ifs <;> omega

/-- The big-endian words of a byte string; an odd byte at the end is a high one. -/
def words : List UInt8 → List Nat
  | [] => []
  | [high] => [high.toNat * 2 ^ 8]
  | high :: low :: bs => (high.toNat * 2 ^ 8 + low.toNat) :: words bs

/-- Byte by byte or word by word, the sum is the same. -/
theorem pairSum_eq_words (bs : List UInt8) : pairSum false bs = (words bs).sum := by
  induction bs using words.induct with
  | case1 => rfl
  | case2 high => rfl
  | case3 high low bs ih =>
      rw [pairSum, pairSum, words, List.sum_cons, ← ih, ← Nat.add_assoc]
      rfl

end OnesComplement
