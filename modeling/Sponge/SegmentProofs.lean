import Sponge.ByteStreamProofs
import Sponge.WordProofs

/-! # Sequence numbers and segments

    The numbers that two endpoints count with, and what travels between them. -/

/-! ## Wrapping sequence numbers — `wrapping_integers`

    A sequence number on the wire is the low 32 bits of an absolute one,
    counted from the initial sequence number.  `wrap` drops to 32 bits,
    `unwrap` goes back to the absolute number closest to a checkpoint by
    comparing three candidates in unsigned 64-bit arithmetic.

    Absolute numbers are naturals.  Of the three candidates only `next` can
    overflow 64 bits, so only there is the remainder written out. -/

namespace SpongeWrapping

/-- A 32-bit integer, expressed relative to an initial sequence number. -/
structure WrappingInt32 where
  rawValue : BitVec 32
deriving DecidableEq, Repr

/-- `operator+`: the point `b` steps past `a`. -/
def WrappingInt32.add (a : WrappingInt32) (b : BitVec 32) : WrappingInt32 :=
  ⟨a.rawValue + b⟩

/-- `operator-`: the point `b` steps before `a`, written `a + -b`. -/
def WrappingInt32.sub (a : WrappingInt32) (b : BitVec 32) : WrappingInt32 :=
  a.add (-b)

/-- Absolute to relative sequence number. -/
def wrap (n : Nat) (isn : WrappingInt32) : WrappingInt32 :=
  isn.add (BitVec.ofNat 32 n)

/-- Relative to absolute sequence number: the candidate closest to the
    checkpoint. -/
def unwrap (n isn : WrappingInt32) (checkpoint : Nat) : Nat :=
  let offset := (n.rawValue - isn.rawValue).toNat
  let checkpointWraps := checkpoint / 2 ^ 32
  let base := checkpointWraps * 2 ^ 32 + offset
  let prev :=
    if checkpointWraps > 0 then (checkpointWraps - 1) * 2 ^ 32 + offset
    else offset
  let next := ((checkpointWraps + 1) * 2 ^ 32 + offset) % 2 ^ 64
  let distance (x : Nat) := if x > checkpoint then x - checkpoint else checkpoint - x
  if distance base ≤ distance prev ∧ distance base ≤ distance next then base
  else if distance prev ≤ distance next then prev
  else next

variable {isn : WrappingInt32} {a b c : Nat}

/-- `wrap` forgets exactly the multiples of `2 ^ 32`. -/
theorem wrap_eq_iff : wrap a isn = wrap b isn ↔ a % 2 ^ 32 = b % 2 ^ 32 := by
  rw [wrap, wrap, WrappingInt32.add, WrappingInt32.add, WrappingInt32.mk.injEq,
    BitVec.add_right_inj]
  rw [← BitVec.toNat_inj, BitVec.toNat_ofNat, BitVec.toNat_ofNat]

@[simp] theorem wrap_zero (isn : WrappingInt32) : wrap 0 isn = isn := by
  rw [wrap, WrappingInt32.add, BitVec.add_zero]

/-- One step back undoes one step forward. -/
theorem wrap_succ_sub_one (a : Nat) (isn : WrappingInt32) :
    (wrap (a + 1) isn).sub 1 = wrap a isn := by
  rw [wrap, wrap, WrappingInt32.sub, WrappingInt32.add, WrappingInt32.add, BitVec.ofNat_add,
    WrappingInt32.mk.injEq]
  show isn.rawValue + (BitVec.ofNat 32 a + 1#32) + -1 = isn.rawValue + BitVec.ofNat 32 a
  rw [← BitVec.add_assoc, BitVec.add_assoc _ 1#32,
    show (1#32 + -1 : BitVec 32) = 0#32 by decide, BitVec.add_zero]

theorem sub_zero (n : WrappingInt32) : n.sub 0 = n := by
  show WrappingInt32.mk (n.rawValue + -0#32) = n
  rw [BitVec.neg_zero, BitVec.add_zero]

/-- The offset `unwrap` computes for a wrapped number. -/
theorem offset_wrap (a : Nat) (isn : WrappingInt32) :
    ((wrap a isn).rawValue - isn.rawValue).toNat = a % 2 ^ 32 := by
  rw [wrap, WrappingInt32.add, BitVec.add_comm, BitVec.add_sub_cancel, BitVec.toNat_ofNat]

/-- Every relative number is the wrap of its offset. -/
theorem wrap_offset (n isn : WrappingInt32) :
    wrap (n.rawValue - isn.rawValue).toNat isn = n := by
  rw [wrap, WrappingInt32.add, BitVec.ofNat_toNat, BitVec.setWidth_eq, BitVec.add_comm,
    BitVec.sub_add_cancel]

/-- What all three candidates have, the closest one has. -/
theorem closest_of {P : Nat → Prop} (distance : Nat → Nat) {x y z : Nat} (hx : P x) (hy : P y)
    (hz : P z) :
    P (if distance x ≤ distance y ∧ distance x ≤ distance z then x
      else if distance y ≤ distance z then y else z) := by
  split_ifs
  · exact hx
  · exact hy
  · exact hz

/-- Whichever candidate is closest, it has the offset's residue. -/
theorem unwrap_mod (n isn : WrappingInt32) (c : Nat) :
    unwrap n isn c % 2 ^ 32 = (n.rawValue - isn.rawValue).toNat % 2 ^ 32 := by
  rw [unwrap]
  generalize (n.rawValue - isn.rawValue).toNat = offset
  refine closest_of (P := fun x => x % 2 ^ 32 = offset % 2 ^ 32)
    (fun x => if x > c then x - c else c - x) ?_ ?_ ?_
  · omega
  · split_ifs <;> omega
  · omega

/-- **UNWRAP IS A PREIMAGE**: the result always wraps back to the number it
    came from. -/
theorem wrap_unwrap (n isn : WrappingInt32) (c : Nat) :
    wrap (unwrap n isn c) isn = n := by
  rw [wrap_eq_iff.mpr (unwrap_mod n isn c), wrap_offset]

/-- The closest of three candidates is `a`, when one of them is `a` and every other is
    at least `r` away, which `a` is not. -/
theorem closest_eq (distance : Nat → Nat) {x y z r : Nat} (hx : x = a ∨ r ≤ distance x)
    (hy : y = a ∨ r ≤ distance y) (hz : z = a ∨ r ≤ distance z)
    (hsome : x = a ∨ y = a ∨ z = a) (ha : distance a < r) :
    (if distance x ≤ distance y ∧ distance x ≤ distance z then x
      else if distance y ≤ distance z then y else z) = a := by
  split_ifs with hxyz hyz
  · rcases hx with hx | hx
    · exact hx
    · rcases hsome with rfl | rfl | rfl <;> omega
  · rcases hy with hy | hy
    · exact hy
    · rcases hsome with rfl | rfl | rfl <;> omega
  · rcases hz with hz | hz
    · exact hz
    · rcases hsome with rfl | rfl | rfl <;> omega

/-- **UNWRAP IS NEAREST**: an absolute number within `2 ^ 31` of the
    checkpoint is recovered exactly. -/
theorem unwrap_wrap_near (ha : a < 2 ^ 64) (hc : c < 2 ^ 64)
    (hlo : c < a + 2 ^ 31) (hhi : a < c + 2 ^ 31) :
    unwrap (wrap a isn) isn c = a := by
  -- a candidate has the offset of `a`, so it is `a` or at least `2 ^ 31` away
  have hfar : ∀ x, x = a ∨ x + 2 ^ 31 ≤ c ∨ c + 2 ^ 31 ≤ x →
      x = a ∨ 2 ^ 31 ≤ if x > c then x - c else c - x := by
    intro x hx
    split_ifs <;> omega
  rw [unwrap, offset_wrap]
  refine closest_eq (fun x => if x > c then x - c else c - x) (hfar _ ?_) (hfar _ ?_)
    (hfar _ ?_) ?_ ?_
  · omega
  · split_ifs <;> omega
  · omega
  · split_ifs <;> omega
  · split_ifs <;> omega

/-- The closest of three candidates is no further away than any of them. -/
theorem closest_le (distance : Nat → Nat) (x y z : Nat) :
    ∀ w, w = x ∨ w = y ∨ w = z →
      distance (if distance x ≤ distance y ∧ distance x ≤ distance z then x
        else if distance y ≤ distance z then y else z) ≤ distance w := by
  intro w hw
  split_ifs with hxyz hyz
  · rcases hw with rfl | rfl | rfl <;> omega
  · rcases hw with rfl | rfl | rfl <;> omega
  · rcases hw with rfl | rfl | rfl <;> omega

theorem unwrap_lt (n isn : WrappingInt32) (hc : c < 2 ^ 64) : unwrap n isn c < 2 ^ 64 := by
  have hlt := (n.rawValue - isn.rawValue).isLt
  rw [unwrap]
  generalize (n.rawValue - isn.rawValue).toNat = offset at hlt ⊢
  refine closest_of (P := fun x => x < 2 ^ 64)
    (fun x => if x > c then x - c else c - x) ?_ ?_ ?_
  · omega
  · split_ifs <;> omega
  · exact Nat.mod_lt _ (by decide)

/-- A 64-bit number with the offset of `n` is no closer to the checkpoint than the
    candidate on its side of it. -/
theorem unwrap_distance_le (n isn : WrappingInt32) (hc : c < 2 ^ 64) {x : Nat}
    (hx : x < 2 ^ 64) (hwrap : wrap x isn = n) :
    (if unwrap n isn c > c then unwrap n isn c - c else c - unwrap n isn c)
      ≤ if x > c then x - c else c - x := by
  have hoffset : (n.rawValue - isn.rawValue).toNat = x % 2 ^ 32 := by
    rw [← hwrap, offset_wrap]
  rw [unwrap, hoffset]
  -- as many full turns as the checkpoint, fewer, or more
  rcases Nat.lt_trichotomy (x / 2 ^ 32) (c / 2 ^ 32) with hlt | heq | hgt
  · refine Nat.le_trans (closest_le (fun y => if y > c then y - c else c - y) _ _ _ _
      (Or.inr (Or.inl rfl))) ?_
    rw [if_pos (show c / 2 ^ 32 > 0 by omega)]
    split_ifs <;> omega
  · refine Nat.le_trans (closest_le (fun y => if y > c then y - c else c - y) _ _ _ _
      (Or.inl rfl)) ?_
    have hsame : c / 2 ^ 32 * 2 ^ 32 + x % 2 ^ 32 = x := by omega
    exact Nat.le_of_eq (congrArg (fun y => if y > c then y - c else c - y) hsame)
  · refine Nat.le_trans (closest_le (fun y => if y > c then y - c else c - y) _ _ _ _
      (Or.inr (Or.inr rfl))) ?_
    -- there is room for one more turn, so `next` does not overflow
    rw [Nat.mod_eq_of_lt (show (c / 2 ^ 32 + 1) * 2 ^ 32 + x % 2 ^ 32 < 2 ^ 64 by omega)]
    split_ifs <;> omega

/-- **THE CLOSEST PREIMAGE**: `unwrap` gives a 64-bit number that wraps to `n`, none is
    closer to the checkpoint, and a number less than `2 ^ 31` away is recovered. -/
theorem unwrap_closest (n isn : WrappingInt32) (c : Nat) (hc : c < 2 ^ 64) :
    unwrap n isn c < 2 ^ 64 ∧ wrap (unwrap n isn c) isn = n
      ∧ (∀ x : Nat, x < 2 ^ 64 → wrap x isn = n →
        ((unwrap n isn c : Int) - c).natAbs ≤ ((x : Int) - c).natAbs)
      ∧ ∀ a : Nat, a < 2 ^ 64 → ((a : Int) - c).natAbs < 2 ^ 31 →
        unwrap (wrap a isn) isn c = a := by
  refine ⟨unwrap_lt n isn hc, wrap_unwrap n isn c, ?_, ?_⟩
  · intro x hx hwrap
    have hle := unwrap_distance_le n isn hc hx hwrap
    split_ifs at hle <;> omega
  · intro a ha hnear
    exact unwrap_wrap_near ha hc (by omega) (by omega)

/-- Both ends of the range: a number just below `2 ^ 64` from a checkpoint just below it,
    and a small one from a small checkpoint. -/
theorem unwrap_closest_at_the_ends :
    unwrap (wrap (2 ^ 64 - 1) ⟨7⟩) ⟨7⟩ (2 ^ 64 - 5) = 2 ^ 64 - 1
      ∧ unwrap (wrap 3 ⟨7⟩) ⟨7⟩ 0 = 3 :=
  ⟨(unwrap_closest ⟨7⟩ ⟨7⟩ (2 ^ 64 - 5) (by decide)).2.2.2 (2 ^ 64 - 1) (by decide)
      (by decide),
    (unwrap_closest ⟨7⟩ ⟨7⟩ 0 (by decide)).2.2.2 3 (by decide) (by decide)⟩

/-- The checkpoint itself is always recovered. -/
theorem unwrap_wrap_self (c : Nat) (isn : WrappingInt32) :
    unwrap (wrap c isn) isn c = c := by
  have hbase : c / 2 ^ 32 * 2 ^ 32 + c % 2 ^ 32 = c := Nat.div_add_mod' c (2 ^ 32)
  rw [unwrap, offset_wrap]
  dsimp only
  rw [hbase, if_pos]
  have h0 : (if c > c then c - c else c - c) = 0 := by simp
  rw [h0]
  exact ⟨Nat.zero_le _, Nat.zero_le _⟩

/-- Near the beginning the offset itself is the closest. -/
theorem unwrap_one (n isn : WrappingInt32) :
    unwrap n isn 1 = (n.rawValue - isn.rawValue).toNat := by
  have hlt := (n.rawValue - isn.rawValue).isLt
  rw [unwrap]
  dsimp only
  rw [if_pos]
  · omega
  · split_ifs <;> omega

/-- Only the initial sequence number is read as zero there. -/
theorem unwrap_one_eq_zero_iff (n isn : WrappingInt32) : unwrap n isn 1 = 0 ↔ n = isn := by
  rw [unwrap_one]
  constructor
  · intro h
    have hwrap := wrap_offset n isn
    rw [h, wrap_zero] at hwrap
    exact hwrap.symm
  · intro h
    rw [h, BitVec.sub_self]
    rfl

end SpongeWrapping

/-! ## Segments — `tcp_header`, `tcp_segment`, `tcp_config`

    What travels between two endpoints, and the numbers an endpoint is
    configured with. -/

namespace SpongeSegment

open SpongeWrapping SpongeByteStream

/-- The header, with the source's defaults. -/
structure TCPHeader where
  sport : BitVec 16 := 0
  dport : BitVec 16 := 0
  seqno : WrappingInt32 := ⟨0⟩
  ackno : WrappingInt32 := ⟨0⟩
  doff : BitVec 8 := 5
  urg : Bool := false
  ack : Bool := false
  psh : Bool := false
  rst : Bool := false
  syn : Bool := false
  fin : Bool := false
  win : BitVec 16 := 0
  cksum : BitVec 16 := 0
  uptr : BitVec 16 := 0
deriving DecidableEq, Repr

structure TCPSegment where
  header : TCPHeader := {}
  payload : List Byte := []
deriving DecidableEq, Repr

namespace TCPSegment

/-- The payload, one more for `SYN` and one more for `FIN`. -/
def lengthInSequenceSpace (seg : TCPSegment) : Nat :=
  seg.payload.length + (if seg.header.syn then 1 else 0)
    + (if seg.header.fin then 1 else 0)

theorem lengthInSequenceSpace_ge (seg : TCPSegment) :
    seg.payload.length ≤ seg.lengthInSequenceSpace := by
  rw [lengthInSequenceSpace]
  omega

end TCPSegment

/-- What `tcp_config` fixes and what it leaves to the owner. -/
structure TCPConfig where
  rtTimeout : BitVec 16 := 1000
  recvCapacity : UInt64 := 64000
  sendCapacity : UInt64 := 64000
  fixedIsn : Option WrappingInt32 := none
deriving DecidableEq, Repr

namespace TCPConfig

/-- `MAX_PAYLOAD_SIZE` -/
def maxPayloadSize : Nat := 1000

/-- `MAX_RETX_ATTEMPTS` -/
def maxRetxAttempts : Nat := 8

end TCPConfig

end SpongeSegment
