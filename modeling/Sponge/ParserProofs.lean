import Mathlib.Data.List.Induction
import Sponge.BufferProofs
import Sponge.WordProofs

/-! # Reading and writing integers — `parser`

    A `NetParser` takes integers in network byte order off a buffer.  Its error
    sticks: once a read finds too little, every later read answers zero and takes
    nothing.  So all that matters of a parser is what it has `left`, or that it has
    failed; reads are cuts of that, and a sequence of reads is one cut (`cut_cut`).
    A `NetUnparser` appends the bytes of an integer to a string, and a read gives
    back what was written (`parseInt_unparseInt`).  Every string is what some integer
    is written as (`exists_unparseInt`), so what a parser does to any string can be told
    from what it does to one that was written. -/

namespace SpongeParser

open SpongeByteStream SpongeBuffer

inductive ParseResult where
  | noError
  | badChecksum
  | packetTooShort
  | wrongIPVersion
  | headerTooShort
  | truncatedPacket
  | unsupported
deriving DecidableEq, Repr

structure NetParser where
  buffer : Buffer
  error : ParseResult := .noError
deriving DecidableEq, Repr

namespace NetParser

/-- `_check_size` -/
def checkSize (p : NetParser) (size : Nat) : NetParser :=
  if size > p.buffer.size then { p with error := .packetTooShort } else p

/-- Without an error after the check there are enough bytes. -/
theorem le_size_of_checkSize {p : NetParser} {size : Nat}
    (h : (p.checkSize size).error = .noError) : size ≤ (p.checkSize size).buffer.size := by
  rw [checkSize] at h ⊢
  split_ifs at h ⊢ with hshort
  · exact Nat.le_of_not_lt hshort

/-- One round of the loop: what was read moves up, and the byte comes below it. -/
def appendByte {w : Nat} (ret : BitVec w) (byte : Byte) : BitVec w :=
  (ret <<< 8) + byte.toBitVec.setWidth w

/-- `_parse_int`, for an integer of `len` bytes. -/
def parseInt (len : Nat) (p : NetParser) : BitVec (8 * len) × NetParser :=
  let p := p.checkSize len
  if h : p.error = .noError then
    ((p.buffer.str.take len).foldl appendByte 0,
      { p with buffer := p.buffer.advance len (le_size_of_checkSize h) })
  else (0, p)

def u32 (p : NetParser) : BitVec 32 × NetParser := p.parseInt 4

def u16 (p : NetParser) : BitVec 16 × NetParser := p.parseInt 2

def u8 (p : NetParser) : BitVec 8 × NetParser := p.parseInt 1

def removePrefix (p : NetParser) (n : Nat) : NetParser :=
  let p := p.checkSize n
  if h : p.error = .noError then
    { p with buffer := p.buffer.advance n (le_size_of_checkSize h) }
  else p

/-- **A READ** takes its bytes, if they are there and nothing went wrong before. -/
theorem parseInt_eq {len : Nat} {p : NetParser} (herror : p.error = .noError)
    (hsize : len ≤ p.buffer.size) :
    (p.parseInt len).1 = (p.buffer.str.take len).foldl appendByte 0
      ∧ (p.parseInt len).2.error = .noError
      ∧ (p.parseInt len).2.buffer.str = p.buffer.str.drop len := by
  have hcheck : p.checkSize len = p := if_neg (Nat.not_lt.mpr hsize)
  have hok : (p.checkSize len).error = .noError := by
    rw [hcheck]
    exact herror
  rw [parseInt, dif_pos hok]
  refine ⟨?_, hok, ?_⟩
  · show ((p.checkSize len).buffer.str.take len).foldl appendByte 0 = _
    rw [hcheck]
  · rw [Buffer.str_advance, hcheck]

/-- What is left to read, unless something went wrong. -/
def left (p : NetParser) : Option (List Byte) :=
  if p.error = .noError then some p.buffer.str else none

/-- The string without its first `n` bytes, if it has as many. -/
def cut (n : Nat) (s : List Byte) : Option (List Byte) :=
  if n ≤ s.length then some (s.drop n) else none

/-- **TWO READS ARE ONE**: failing early and failing late are the same. -/
@[simp] theorem cut_cut (o : Option (List Byte)) (m n : Nat) :
    (o.bind (cut m)).bind (cut n) = o.bind (cut (m + n)) := by
  cases o with
  | none => rfl
  | some s =>
      by_cases hm : m ≤ s.length
      · simp [cut, hm, Nat.add_comm m n, Nat.le_sub_iff_add_le hm]
      · have hn : ¬ m + n ≤ s.length := by omega
        simp [cut, hm, hn]

theorem left_eq_some_iff {p : NetParser} {s : List Byte} :
    p.left = some s ↔ p.error = .noError ∧ p.buffer.str = s := by
  rw [left]
  by_cases h : p.error = .noError
  · simp [h]
  · simp [h]

theorem left_eq_none_iff {p : NetParser} : p.left = none ↔ p.error ≠ .noError := by
  rw [left]
  by_cases h : p.error = .noError
  · simp [h]
  · simp [h]

@[simp] theorem removePrefix_left (p : NetParser) (n : Nat) :
    (p.removePrefix n).left = p.left.bind (cut n) := by
  rw [removePrefix]
  by_cases herror : p.error = .noError
  · rw [left_eq_some_iff.mpr ⟨herror, rfl⟩, Option.bind_some, cut]
    by_cases hsize : n ≤ p.buffer.str.length
    · have hcheck : p.checkSize n = p := if_neg (Nat.not_lt.mpr hsize)
      have hok : (p.checkSize n).error = .noError := by
        rw [hcheck]
        exact herror
      rw [if_pos hsize, dif_pos hok]
      refine left_eq_some_iff.mpr ⟨hok, ?_⟩
      rw [Buffer.str_advance, hcheck]
    · have hcheck : p.checkSize n = { p with error := .packetTooShort } :=
        if_pos (Nat.lt_of_not_le hsize)
      have hbad : (p.checkSize n).error ≠ .noError := by
        rw [hcheck]
        exact ParseResult.noConfusion
      rw [if_neg hsize, dif_neg hbad]
      exact left_eq_none_iff.mpr hbad
  · -- the check never takes an error back
    have hbad : (p.checkSize n).error ≠ .noError := by
      rw [checkSize]
      split_ifs
      · exact ParseResult.noConfusion
      · exact herror
    rw [dif_neg hbad, left_eq_none_iff.mpr herror]
    exact left_eq_none_iff.mpr hbad

/-- A read moves the parser as a skip does. -/
theorem parseInt_snd (len : Nat) (p : NetParser) : (p.parseInt len).2 = p.removePrefix len := by
  rw [parseInt, removePrefix]
  split_ifs <;> rfl

@[simp] theorem parseInt_left (len : Nat) (p : NetParser) :
    (p.parseInt len).2.left = p.left.bind (cut len) := by
  rw [parseInt_snd, removePrefix_left]

@[simp] theorem u8_left (p : NetParser) : p.u8.2.left = p.left.bind (cut 1) := parseInt_left 1 p

@[simp] theorem u16_left (p : NetParser) : p.u16.2.left = p.left.bind (cut 2) := parseInt_left 2 p

@[simp] theorem u32_left (p : NetParser) : p.u32.2.left = p.left.bind (cut 4) := parseInt_left 4 p

/-- What a read answers. -/
theorem parseInt_value {len : Nat} {p : NetParser} {s : List Byte} (hleft : p.left = some s)
    (hsize : len ≤ s.length) : (p.parseInt len).1 = (s.take len).foldl appendByte 0 := by
  obtain ⟨herror, rfl⟩ := left_eq_some_iff.mp hleft
  exact (parseInt_eq herror hsize).1

theorem cut_of_le {n : Nat} {s : List Byte} (h : n ≤ s.length) : cut n s = some (s.drop n) :=
  if_pos h

/-- A read that fails answers zero. -/
theorem parseInt_eq_zero {len : Nat} {p : NetParser} (h : p.left.bind (cut len) = none) :
    (p.parseInt len).1 = 0 := by
  rw [← parseInt_left] at h
  rw [parseInt] at h ⊢
  split_ifs at h ⊢ with hok
  · have hbad := left_eq_none_iff.mp h
    exact absurd hok hbad
  · rfl

/-- Nothing but what is left matters to a read. -/
theorem parseInt_congr {p q : NetParser} (h : p.left = q.left) (len : Nat) :
    (p.parseInt len).1 = (q.parseInt len).1 ∧ (p.parseInt len).2.left = (q.parseInt len).2.left := by
  refine ⟨?_, by rw [parseInt_left, parseInt_left, h]⟩
  cases hcut : p.left.bind (cut len) with
  | none => rw [parseInt_eq_zero hcut, parseInt_eq_zero (h ▸ hcut)]
  | some rest =>
      obtain ⟨s, hs, hrest⟩ := Option.bind_eq_some_iff.mp hcut
      rw [cut] at hrest
      split_ifs at hrest with hsize
      rw [parseInt_value hs hsize, parseInt_value (h ▸ hs) hsize]

theorem u8_congr {p q : NetParser} (h : p.left = q.left) :
    p.u8.1 = q.u8.1 ∧ p.u8.2.left = q.u8.2.left := parseInt_congr h 1

theorem u16_congr {p q : NetParser} (h : p.left = q.left) :
    p.u16.1 = q.u16.1 ∧ p.u16.2.left = q.u16.2.left := parseInt_congr h 2

theorem u32_congr {p q : NetParser} (h : p.left = q.left) :
    p.u32.1 = q.u32.1 ∧ p.u32.2.left = q.u32.2.left := parseInt_congr h 4

theorem u8_toNat {p : NetParser} {s : List Byte} (hleft : p.left = some s)
    (hsize : 1 ≤ s.length) : p.u8.1.toNat = (s.getD 0 0).toNat := by
  have hval : p.u8.1 = _ := parseInt_value hleft hsize
  rw [hval]
  obtain ⟨a, s, rfl⟩ := List.exists_cons_of_length_pos hsize
  simp [appendByte]

theorem u16_toNat {p : NetParser} {s : List Byte} (hleft : p.left = some s)
    (hsize : 2 ≤ s.length) :
    p.u16.1.toNat = (s.getD 0 0).toNat * 2 ^ 8 + (s.getD 1 0).toNat := by
  have hval : p.u16.1 = _ := parseInt_value hleft hsize
  rw [hval]
  match s, hsize with
  | a :: b :: s, _ =>
      have ha := a.toNat_lt
      have hb := b.toNat_lt
      simp [appendByte, Nat.shiftLeft_eq]
      omega

end NetParser

/-- The byte that the loop of `_unparse_int` writes in its round `i`. -/
def NetUnparser.theByte {w : Nat} (len : Nat) (val : BitVec w) (i : Nat) : Byte :=
  ⟨(val >>> ((len - i - 1) * 8)).setWidth 8⟩

/-- `_unparse_int`: the bytes of an integer of `len` bytes, the highest first. -/
def NetUnparser.unparseInt (len : Nat) (s : List Byte) (val : BitVec (8 * len)) : List Byte :=
  s ++ (List.range len).map (theByte len val)

def NetUnparser.u32 (s : List Byte) (val : BitVec 32) : List Byte := unparseInt 4 s val

def NetUnparser.u16 (s : List Byte) (val : BitVec 16) : List Byte := unparseInt 2 s val

def NetUnparser.u8 (s : List Byte) (val : BitVec 8) : List Byte := unparseInt 1 s val

/-! ## Written and read back -/

/-- The low byte below what is above it. -/
theorem appendByte_low {w : Nat} (m : BitVec w) :
    NetParser.appendByte (m >>> 8) ⟨m.setWidth 8⟩ = m := by
  have hm := m.isLt
  apply BitVec.eq_of_toNat_eq
  rw [NetParser.appendByte, BitVec.toNat_add, BitVec.toNat_shiftLeft,
    BitVec.toNat_ushiftRight, BitVec.toNat_setWidth, BitVec.toNat_setWidth,
    Nat.shiftRight_eq_div_pow, Nat.shiftLeft_eq]
  have hhigh : m.toNat / 2 ^ 8 * 2 ^ 8 % 2 ^ w = m.toNat / 2 ^ 8 * 2 ^ 8 :=
    Nat.mod_eq_of_lt (by omega)
  have hlow : m.toNat % 2 ^ 8 % 2 ^ w = m.toNat % 2 ^ 8 := Nat.mod_eq_of_lt (by omega)
  rw [hhigh, hlow, Nat.mod_eq_of_lt (by omega)]
  omega

/-- The first `k` bytes written, read back, are the number without the bytes below
    them. -/
theorem foldl_theByte (len : Nat) (val : BitVec (8 * len)) :
    ∀ k ≤ len, ((List.range k).map (NetUnparser.theByte len val)).foldl NetParser.appendByte 0
      = val >>> ((len - k) * 8) := by
  intro k
  induction k with
  | zero =>
      intro _
      apply BitVec.eq_of_toNat_eq
      rw [BitVec.toNat_ushiftRight, Nat.shiftRight_eq_div_pow, Nat.sub_zero,
        Nat.mul_comm len 8, Nat.div_eq_of_lt val.isLt]
      rfl
  | succ k ih =>
      intro hk
      have hsplit : (len - k) * 8 = (len - k - 1) * 8 + 8 := by omega
      rw [List.range_succ, List.map_append, List.foldl_append, ih (by omega), hsplit,
        BitVec.shiftRight_add]
      exact appendByte_low _

theorem foldl_unparseInt {len : Nat} (val : BitVec (8 * len)) :
    (NetUnparser.unparseInt len [] val).foldl NetParser.appendByte 0 = val := by
  rw [NetUnparser.unparseInt, List.nil_append, foldl_theByte len val len (Nat.le_refl _),
    Nat.sub_self, Nat.zero_mul]
  exact BitVec.ushiftRight_zero _

/-- **WHAT IS WRITTEN IS READ BACK**, and what follows it is left. -/
theorem parseInt_unparseInt {len : Nat} {val : BitVec (8 * len)} {p : NetParser}
    {rest : List Byte} (herror : p.error = .noError)
    (hstr : p.buffer.str = NetUnparser.unparseInt len [] val ++ rest) :
    (p.parseInt len).1 = val ∧ (p.parseInt len).2.error = .noError
      ∧ (p.parseInt len).2.buffer.str = rest := by
  have hlen : (NetUnparser.unparseInt len [] val).length = len := by
    rw [NetUnparser.unparseInt, List.nil_append, List.length_map, List.length_range]
  have hsize : len ≤ p.buffer.size := by
    rw [Buffer.size, hstr, List.length_append, hlen]
    exact Nat.le_add_right _ _
  obtain ⟨hval, herr, hrest⟩ := NetParser.parseInt_eq herror hsize
  rw [hstr] at hval hrest
  refine ⟨?_, herr, ?_⟩
  · rw [hval, List.take_left' hlen, foldl_unparseInt]
  · rw [hrest, List.drop_left' hlen]

@[simp] theorem length_unparseInt (len : Nat) (s : List Byte) (val : BitVec (8 * len)) :
    (NetUnparser.unparseInt len s val).length = s.length + len := by
  simp [NetUnparser.unparseInt]

@[simp] theorem length_u8 (s : List Byte) (val : BitVec 8) :
    (NetUnparser.u8 s val).length = s.length + 1 := length_unparseInt 1 s val

@[simp] theorem length_u16 (s : List Byte) (val : BitVec 16) :
    (NetUnparser.u16 s val).length = s.length + 2 := length_unparseInt 2 s val

@[simp] theorem length_u32 (s : List Byte) (val : BitVec 32) :
    (NetUnparser.u32 s val).length = s.length + 4 := length_unparseInt 4 s val

/-- A read of what was written, in terms of what is left. -/
theorem parseInt_written {len : Nat} {val : BitVec (8 * len)} {p : NetParser}
    {rest : List Byte} (hleft : p.left = some (NetUnparser.unparseInt len [] val ++ rest)) :
    ∃ q, p.parseInt len = (val, q) ∧ q.left = some rest := by
  obtain ⟨herror, hstr⟩ := NetParser.left_eq_some_iff.mp hleft
  obtain ⟨hval, herror', hrest⟩ := parseInt_unparseInt herror hstr
  exact ⟨_, Prod.ext hval rfl, NetParser.left_eq_some_iff.mpr ⟨herror', hrest⟩⟩

section Written

variable {p : NetParser} {rest : List Byte}

theorem u8_written {val : BitVec 8} (hleft : p.left = some (NetUnparser.u8 [] val ++ rest)) :
    ∃ q, p.u8 = (val, q) ∧ q.left = some rest := parseInt_written hleft

theorem u16_written {val : BitVec 16} (hleft : p.left = some (NetUnparser.u16 [] val ++ rest)) :
    ∃ q, p.u16 = (val, q) ∧ q.left = some rest := parseInt_written hleft

theorem u32_written {val : BitVec 32} (hleft : p.left = some (NetUnparser.u32 [] val ++ rest)) :
    ∃ q, p.u32 = (val, q) ∧ q.left = some rest := parseInt_written hleft

end Written

/-! ## Read and written back -/

/-- Above what was read from `n` bytes there is room for one more. -/
theorem room_above {m n w : Nat} (hm : m < 2 ^ (8 * n)) (hw : 8 * (n + 1) ≤ w) :
    (m + 1) * 2 ^ 8 ≤ 2 ^ w :=
  calc (m + 1) * 2 ^ 8 ≤ 2 ^ (8 * n) * 2 ^ 8 := Nat.mul_le_mul_right _ hm
    _ = 2 ^ (8 * (n + 1)) := (Nat.pow_add 2 (8 * n) 8).symm
    _ ≤ 2 ^ w := Nat.pow_le_pow_right (by decide) hw

/-- A byte comes below what was read before it, as long as there is room above. -/
theorem toNat_appendByte {w : Nat} {m : BitVec w} (byte : Byte)
    (hroom : (m.toNat + 1) * 2 ^ 8 ≤ 2 ^ w) :
    (NetParser.appendByte m byte).toNat = m.toNat * 2 ^ 8 + byte.toNat := by
  have hbyte := byte.toNat_lt
  have hlow : (byte.toBitVec.setWidth w).toNat = byte.toNat := by
    rw [BitVec.toNat_setWidth]
    exact Nat.mod_eq_of_lt (show byte.toNat < 2 ^ w by omega)
  rw [NetParser.appendByte, BitVec.toNat_add, BitVec.toNat_shiftLeft, Nat.shiftLeft_eq, hlow,
    Nat.mod_add_mod]
  exact Nat.mod_eq_of_lt (by omega)

/-- What is read from `n` bytes is below `2 ^ (8 * n)`. -/
theorem toNat_foldl_lt {w : Nat} (s : List Byte) (hw : 8 * s.length ≤ w) :
    (s.foldl NetParser.appendByte (0 : BitVec w)).toNat < 2 ^ (8 * s.length) := by
  induction s using List.reverseRecOn with
  | nil => exact Nat.one_pos
  | append_singleton s byte ih =>
      rw [List.length_append, List.length_singleton] at hw ⊢
      have hlt := ih (by omega)
      have hbyte := byte.toNat_lt
      rw [List.foldl_append, List.foldl_cons, List.foldl_nil,
        toNat_appendByte byte (room_above hlt hw)]
      exact Nat.lt_of_lt_of_le (by omega) (room_above hlt (Nat.le_refl _))

/-- **WHAT IS READ IS WRITTEN BACK**: the bytes of an integer that was read are the bytes it
    was read from. -/
theorem map_theByte_foldl {w : Nat} (s : List Byte) (hw : 8 * s.length ≤ w) :
    (List.range s.length).map
        (NetUnparser.theByte s.length (s.foldl NetParser.appendByte (0 : BitVec w))) = s := by
  -- along the bytes from behind: the last one is the lowest
  induction s using List.reverseRecOn with
  | nil => rfl
  | append_singleton s byte ih =>
      rw [List.length_append, List.length_singleton] at hw ⊢
      have hbyte := byte.toNat_lt
      have hs := ih (by omega)
      have hroom := room_above (toNat_foldl_lt s (show 8 * s.length ≤ w by omega)) hw
      rw [List.foldl_append, List.foldl_cons, List.foldl_nil]
      generalize s.foldl NetParser.appendByte (0 : BitVec w) = m at hs hroom ⊢
      have hval := toNat_appendByte byte hroom
      have hhigh : NetParser.appendByte m byte >>> 8 = m := by
        apply BitVec.eq_of_toNat_eq
        rw [BitVec.toNat_ushiftRight, Nat.shiftRight_eq_div_pow, hval]
        omega
      have hlow : (NetParser.appendByte m byte).setWidth 8 = byte.toBitVec := by
        apply BitVec.eq_of_toNat_eq
        rw [BitVec.toNat_setWidth, hval]
        show _ = byte.toNat
        omega
      rw [List.range_succ, List.map_append]
      congr 1
      · refine Eq.trans (List.map_congr_left fun i hi => ?_) hs
        have hlt := List.mem_range.mp hi
        rw [NetUnparser.theByte, NetUnparser.theByte,
          show (s.length + 1 - i - 1) * 8 = 8 + (s.length - i - 1) * 8 by omega,
          BitVec.shiftRight_add, hhigh]
      · rw [List.map_singleton, NetUnparser.theByte,
          show (s.length + 1 - s.length - 1) * 8 = 0 by omega, BitVec.ushiftRight_zero, hlow]

/-- **EVERY STRING IS WRITTEN**: one that is long enough begins with an integer. -/
theorem exists_unparseInt {len n : Nat} {s : List Byte} (hlen : n + len ≤ s.length) :
    ∃ val rest, s = NetUnparser.unparseInt len [] val ++ rest ∧ n ≤ rest.length := by
  have htake : (s.take len).length = len := List.length_take_of_le (by omega)
  have hbytes := map_theByte_foldl (w := 8 * len) (s.take len)
    (Nat.le_of_eq (congrArg (8 * ·) htake))
  rw [htake] at hbytes
  refine ⟨(s.take len).foldl NetParser.appendByte 0, s.drop len, ?_, ?_⟩
  · rw [NetUnparser.unparseInt, List.nil_append, hbytes, List.take_append_drop]
  · rw [List.length_drop]
    omega

/-- Different integers are written differently. -/
theorem unparseInt_inj {len : Nat} {val val' : BitVec (8 * len)} :
    NetUnparser.unparseInt len [] val = NetUnparser.unparseInt len [] val' ↔ val = val' := by
  constructor
  · intro h
    rw [← foldl_unparseInt val, h, foldl_unparseInt]
  · intro h
    rw [h]

section Read

variable {s : List Byte} {n : Nat}

theorem exists_u8 (h : n + 1 ≤ s.length) :
    ∃ val rest, s = NetUnparser.u8 [] val ++ rest ∧ n ≤ rest.length := exists_unparseInt h

theorem exists_u16 (h : n + 2 ≤ s.length) :
    ∃ val rest, s = NetUnparser.u16 [] val ++ rest ∧ n ≤ rest.length := exists_unparseInt h

theorem exists_u32 (h : n + 4 ≤ s.length) :
    ∃ val rest, s = NetUnparser.u32 [] val ++ rest ∧ n ≤ rest.length := exists_unparseInt h

end Read

end SpongeParser
