import Sponge.WordProofs
import Sponge.ParserProofs
import Sponge.RunProofs

/-! # Datagrams — `InternetChecksum`, `ipv4_header`, `ipv4_datagram`

    A datagram is a header and a payload.  `serialize` recomputes the checksum of
    the header and refuses, with an exception, what it cannot write down;
    `serialize_ok_iff` says what that is.

    `parse` reads the header, and does not look at what the checks of the header
    answer: `parse_noError_iff` says which byte strings it takes, and
    `datagram_acceptance_iff` where those are the right ones; the header's own parser
    takes the good ones (`header_parse_noError_iff`).  What is written is a good datagram
    (`wire_valid`) and is read back (`parse_serialize`, `datagram_round_trip`). -/

namespace SpongeIPv4

open SpongeByteStream SpongeBuffer SpongeParser RunRule OnesComplement

/-! ## The checksum -/

structure InternetChecksum where
  sum : BitVec 32 := 0
  parity : Bool := false
deriving DecidableEq, Repr

namespace InternetChecksum

/-- One byte of `add`: the first of a pair is the high one. -/
def addByte (c : InternetChecksum) (byte : Byte) : InternetChecksum :=
  let val : BitVec 16 := byte.toBitVec.setWidth 16
  let val := if !c.parity then val <<< 8 else val
  { sum := c.sum + val.setWidth 32, parity := !c.parity }

def add (c : InternetChecksum) (data : List Byte) : InternetChecksum :=
  data.foldl addByte c

/-- One round of the loop of `value`: what is above 16 bits is added to the rest. -/
def foldRound (ret : BitVec 32) : Bool × BitVec 32 :=
  if ret > 0xffff then (true, (ret >>> 16) + (ret &&& 0xffff)) else (false, ret)

/-- The loop needs two rounds at most, and one to stop. -/
def folded (c : InternetChecksum) : BitVec 32 := whileTrue foldRound 3 c.sum

def value (c : InternetChecksum) : BitVec 16 := (~~~ c.folded).setWidth 16

/-- How many rounds are left. -/
def roundsLeft (ret : BitVec 32) : Nat :=
  if ret.toNat ≤ 0xffff then 0 else if ret.toNat ≤ 0x1fffe then 1 else 2

theorem toNat_fold (ret : BitVec 32) :
    ((ret >>> 16) + (ret &&& 0xffff)).toNat = ret.toNat / 2 ^ 16 + ret.toNat % 2 ^ 16 := by
  have hlt := ret.isLt
  have hmask : (ret &&& 0xffff).toNat = ret.toNat % 2 ^ 16 := by
    rw [BitVec.toNat_and]
    exact Nat.and_two_pow_sub_one_eq_mod _ 16
  rw [BitVec.toNat_add, BitVec.toNat_ushiftRight, hmask, Nat.shiftRight_eq_div_pow]
  exact Nat.mod_eq_of_lt (by omega)

theorem roundsLeft_lt {ret : BitVec 32} (hbig : ret > 0xffff) :
    roundsLeft ((ret >>> 16) + (ret &&& 0xffff)) < roundsLeft ret := by
  have hbig' : 0xffff < ret.toNat := hbig
  have hlt := ret.isLt
  rw [roundsLeft, roundsLeft, toNat_fold]
  split_ifs <;> omega

/-- **THE LOOP STOPS** by its own condition: the result fits 16 bits. -/
theorem folded_le (c : InternetChecksum) : c.folded.toNat ≤ 0xffff := by
  refine whileTrue_post (I := fun _ => True) (Q := fun ret => ret.toNat ≤ 0xffff)
    (μ := roundsLeft) ?_ ?_ 3 c.sum ?_ trivial
  · intro ret _ hgo
    rw [foldRound] at hgo ⊢
    split_ifs at hgo ⊢ with hbig
    exact ⟨trivial, roundsLeft_lt hbig⟩
  · intro ret _ hstop
    rw [foldRound] at hstop ⊢
    split_ifs at hstop ⊢ with hbig
    exact Nat.le_of_not_lt hbig
  · rw [roundsLeft]
    split_ifs <;> omega

/-- **THE SUM** of what is added, in pairs, as long as it does not overflow. -/
theorem add_sum (data : List Byte) : ∀ c : InternetChecksum,
    c.sum.toNat + pairSum c.parity data < 2 ^ 32 →
    (c.add data).sum.toNat = c.sum.toNat + pairSum c.parity data
      ∧ (c.add data).parity = (c.parity ^^ (data.length % 2 == 1)) := by
  -- along the data; the parity says which byte of a pair comes next
  induction data with
  | nil => exact fun c _ => ⟨rfl, (Bool.xor_false c.parity).symm⟩
  | cons b data ih =>
      intro c hlt
      have hb := b.toNat_lt
      rw [pairSum] at hlt
      have hone : (c.addByte b).sum.toNat
          = c.sum.toNat + if c.parity then b.toNat else b.toNat * 2 ^ 8 := by
        rw [addByte]
        cases hparity : c.parity with
        | false =>
            rw [hparity, if_neg Bool.false_ne_true] at hlt
            simp [BitVec.toNat_add, Nat.shiftLeft_eq]
            omega
        | true =>
            rw [hparity, if_pos rfl] at hlt
            simp [BitVec.toNat_add]
            omega
      have hparity : (c.addByte b).parity = !c.parity := rfl
      obtain ⟨hsum, hodd⟩ := ih (c.addByte b) (by rw [hone, hparity]; omega)
      have hadd : c.add (b :: data) = (c.addByte b).add data := rfl
      rw [hadd, hsum, hodd, hone, hparity, pairSum, List.length_cons, odd_succ]
      refine ⟨by omega, ?_⟩
      cases c.parity <;> simp

/-- What the loop of `value` leaves is the residue of the sum. -/
theorem toNat_folded (c : InternetChecksum) : c.folded.toNat = residue 65535 c.sum.toNat := by
  have hkept : residue 65535 c.folded.toNat = residue 65535 c.sum.toNat := by
    refine whileTrue_post (I := fun ret => residue 65535 ret.toNat = residue 65535 c.sum.toNat)
      (Q := fun ret => residue 65535 ret.toNat = residue 65535 c.sum.toNat)
      (μ := roundsLeft) ?_ ?_ 3 c.sum ?_ rfl
    · intro ret hret hgo
      rw [foldRound] at hgo ⊢
      split_ifs at hgo ⊢ with hbig
      refine ⟨?_, roundsLeft_lt hbig⟩
      rw [toNat_fold]
      exact (residue_carry 65535 ret.toNat).trans hret
    · intro ret hret hstop
      rw [foldRound] at hstop ⊢
      split_ifs at hstop ⊢ with hbig
      exact hret
    · rw [roundsLeft]
      split_ifs <;> omega
  rw [← hkept, residue_of_le c.folded_le]

/-- **THE CHECKSUM** is the complement of the residue. -/
theorem toNat_value (c : InternetChecksum) :
    c.value.toNat = 65535 - residue 65535 c.sum.toNat := by
  have hle := c.folded_le
  rw [value, BitVec.toNat_setWidth, BitVec.toNat_not, ← toNat_folded]
  omega

theorem value_eq_zero_iff (c : InternetChecksum) :
    c.value = 0 ↔ residue 65535 c.sum.toNat = 65535 := by
  have hle := residue_le (show 0 < 65535 by decide) c.sum.toNat
  have hzero : (0 : BitVec 16).toNat = 0 := rfl
  rw [← BitVec.toNat_inj, toNat_value, hzero]
  omega

theorem add_append (c : InternetChecksum) (x y : List Byte) :
    c.add (x ++ y) = (c.add x).add y := List.foldl_append

/-- A number in network byte order counts as itself. -/
theorem pairSum_u16 (v : BitVec 16) : pairSum false (NetUnparser.u16 [] v) = v.toNat := by
  have hv := v.isLt
  simp [NetUnparser.u16, NetUnparser.unparseInt, NetUnparser.theByte, List.range_succ, pairSum,
    Nat.shiftRight_eq_div_pow]
  omega

/-- **THE CHECKSUM IN ITS PLACE** makes the sum zero: it is taken with zero there. -/
theorem value_filled {c : BitVec 32} {pre post : List Byte} {v : BitVec 16}
    (heven : pre.length % 2 = 0)
    (hfits : c.toNat + (pre.length + (2 + post.length)) * 65280 < 2 ^ 32)
    (hv : v = (add { sum := c } (pre ++ (NetUnparser.u16 [] 0 ++ post))).value) :
    (add { sum := c } (pre ++ (NetUnparser.u16 [] v ++ post))).value = 0 := by
  -- what is summed with `w` in the place
  have hsum : ∀ w : BitVec 16,
      (add { sum := c } (pre ++ (NetUnparser.u16 [] w ++ post))).sum.toNat
        = c.toNat + (pairSum false pre + pairSum false post) + w.toNat := by
    intro w
    have hsplit : pairSum false (pre ++ (NetUnparser.u16 [] w ++ post))
        = pairSum false pre + (w.toNat + pairSum false post) := by
      rw [pairSum_append_even heven, pairSum_append_even (by simp), pairSum_u16]
    have hle := pairSum_le false (pre ++ (NetUnparser.u16 [] w ++ post))
    have hlen : (pre ++ (NetUnparser.u16 [] w ++ post)).length
        = pre.length + (2 + post.length) := by
      simp
    rw [hlen] at hle
    rw [(add_sum _ { sum := c } (Nat.lt_of_le_of_lt (Nat.add_le_add_left hle _) hfits)).1, hsplit]
    dsimp only
    omega
  have hzero : (0 : BitVec 16).toNat = 0 := rfl
  rw [value_eq_zero_iff, hsum, hv, toNat_value, hsum, hzero, Nat.add_zero]
  exact residue_complement (by decide) _

/-! ### Over any chunks -/

/-- Within these sizes the sum does not overflow. -/
theorem sum_fits {c : BitVec 32} {data : List Byte} (hc : c.toNat < 2 ^ 20)
    (hlen : data.length ≤ 65535) : c.toNat + pairSum false data < 2 ^ 32 := by
  have hle := pairSum_le false data
  omega

/-- The sum of the words, on top of what it started with. -/
theorem add_words {c : BitVec 32} {data : List Byte} (hc : c.toNat < 2 ^ 20)
    (hlen : data.length ≤ 65535) :
    (add { sum := c } data).sum.toNat = c.toNat + (words data).sum := by
  rw [← pairSum_eq_words]
  exact (add_sum data { sum := c } (sum_fits hc hlen)).1

/-- Where the chunks end does not matter: the parity goes on from one to the next. -/
theorem foldl_add (chunks : List (List Byte)) (check : InternetChecksum) :
    chunks.foldl add check = check.add chunks.flatten := by
  induction chunks generalizing check with
  | nil => rfl
  | cons chunk chunks ih => rw [List.foldl_cons, ih, List.flatten_cons, add_append]

/-- The folding loop, without a bound on its rounds. -/
theorem folded_leaves (check : InternetChecksum) :
    Leaves foldRound check.sum check.folded := by
  refine whileTrue_leaves (μ := roundsLeft) ?_ 3 check.sum ?_
  · intro ret hgo
    rw [foldRound] at hgo ⊢
    split_ifs at hgo ⊢ with hbig
    exact roundsLeft_lt hbig
  · rw [roundsLeft]
    split_ifs <;> omega

/-- The complement, as a number of 16 bits. -/
theorem value_eq (check : InternetChecksum) :
    check.value = ~~~ BitVec.ofNat 16 (residue 65535 check.sum.toNat) := by
  have hle := residue_le (show 0 < 65535 by decide) check.sum.toNat
  apply BitVec.eq_of_toNat_eq
  rw [toNat_value, BitVec.toNat_not, BitVec.toNat_ofNat]
  omega

/-- **THE INTERNET CHECKSUM**: in whatever chunks the data comes, the accumulator holds
    the sum of its words at every point, the folding ends, and the value is the complement
    of the sum with its carries brought around. -/
theorem checksum_of_chunks (c : BitVec 32) (chunks : List (List Byte))
    (hc : c.toNat < 2 ^ 20) (hlen : chunks.flatten.length ≤ 65535) :
    chunks.foldl add { sum := c } = add { sum := c } chunks.flatten
      ∧ (∀ data, data <+: chunks.flatten →
        (add { sum := c } data).sum.toNat = c.toNat + (words data).sum)
      ∧ Leaves foldRound (add { sum := c } chunks.flatten).sum
        (add { sum := c } chunks.flatten).folded
      ∧ ∃ r, (add { sum := c } chunks.flatten).value = ~~~ BitVec.ofNat 16 r
        ∧ (c.toNat + (words chunks.flatten).sum = 0 → r = 0)
        ∧ (c.toNat + (words chunks.flatten).sum ≠ 0 → 1 ≤ r ∧ r ≤ 65535
          ∧ r % 65535 = (c.toNat + (words chunks.flatten).sum) % 65535) := by
  refine ⟨foldl_add chunks _, ?_, folded_leaves _, _, value_eq _, ?_⟩
  · intro data hpart
    exact add_words hc (Nat.le_trans hpart.length_le hlen)
  · rw [add_words hc hlen]
    exact residue_spec (by decide) _

theorem checksum_of_chunks_odd :
    (([[1], [], [2, 3, 4], [5]] : List (List Byte)).foldl add { sum := 7 }).value
        = (add { sum := 7 } [1, 2, 3, 4, 5]).value
      ∧ (add { sum := 7 } [1, 2, 3, 4, 5]).value = ~~~ 0x090d := by
  have h := checksum_of_chunks 7 [[1], [], [2, 3, 4], [5]] (by decide) (by decide)
  exact ⟨congrArg value h.1, by decide⟩

end InternetChecksum

/-! ## The header -/

/-- The header, with the source's defaults. -/
structure IPv4Header where
  ver : BitVec 8 := 4
  hlen : BitVec 8 := 5
  tos : BitVec 8 := 0
  len : BitVec 16 := 0
  id : BitVec 16 := 0
  df : Bool := true
  mf : Bool := false
  offset : BitVec 16 := 0
  ttl : BitVec 8 := 128
  proto : BitVec 8 := 6
  cksum : BitVec 16 := 0
  src : BitVec 32 := 0
  dst : BitVec 32 := 0
deriving DecidableEq, Repr

namespace IPv4Header

/-- `LENGTH`, without options -/
def length : Nat := 20

/-- `PROTO_TCP` -/
def protoTCP : BitVec 8 := 6

/-- The fields are read into the header even where a check then fails. -/
def parse (h : IPv4Header) (p : NetParser) : ParseResult × IPv4Header × NetParser :=
  let original := p.buffer
  let dataSize := p.buffer.size
  if dataSize < length then (.packetTooShort, h, p)
  else
    let (firstByte, p) := p.u8
    let (tos, p) := p.u8
    let (len, p) := p.u16
    let (id, p) := p.u16
    let (foVal, p) := p.u16
    let (ttl, p) := p.u8
    let (proto, p) := p.u8
    let (cksum, p) := p.u16
    let (src, p) := p.u32
    let (dst, p) := p.u32
    let h : IPv4Header :=
      { ver := firstByte >>> 4
        hlen := firstByte &&& 0x0f
        tos := tos
        len := len
        id := id
        df := foVal &&& 0x4000 != 0
        mf := foVal &&& 0x2000 != 0
        offset := foVal &&& 0x1fff
        ttl := ttl
        proto := proto
        cksum := cksum
        src := src
        dst := dst }
    if dataSize < 4 * h.hlen.toNat then (.packetTooShort, h, p)
    else if h.ver ≠ 4 then (.wrongIPVersion, h, p)
    else if h.hlen < 5 then (.headerTooShort, h, p)
    else if dataSize ≠ h.len.toNat then (.truncatedPacket, h, p)
    else
      let p := p.removePrefix (h.hlen.toNat * 4 - length)
      if p.error ≠ .noError then (p.error, h, p)
      else
        let check := InternetChecksum.add {} (original.str.take (4 * h.hlen.toNat))
        if check.value ≠ 0 then (.badChecksum, h, p) else (.noError, h, p)

/-- The part of `parse` that reads the fields. -/
def readFields (p : NetParser) : IPv4Header × NetParser :=
  let firstByte := p.u8
  let tos := firstByte.2.u8
  let len := tos.2.u16
  let id := len.2.u16
  let foVal := id.2.u16
  let ttl := foVal.2.u8
  let proto := ttl.2.u8
  let cksum := proto.2.u16
  let src := cksum.2.u32
  let dst := src.2.u32
  ({ ver := firstByte.1 >>> 4
     hlen := firstByte.1 &&& 0x0f
     tos := tos.1
     len := len.1
     id := id.1
     df := foVal.1 &&& 0x4000 != 0
     mf := foVal.1 &&& 0x2000 != 0
     offset := foVal.1 &&& 0x1fff
     ttl := ttl.1
     proto := proto.1
     cksum := cksum.1
     src := src.1
     dst := dst.1 }, dst.2)

/-- The part of `parse` that checks them. -/
def validate (original : Buffer) (h : IPv4Header) (p : NetParser) :
    ParseResult × IPv4Header × NetParser :=
  if original.size < 4 * h.hlen.toNat then (.packetTooShort, h, p)
  else if h.ver ≠ 4 then (.wrongIPVersion, h, p)
  else if h.hlen < 5 then (.headerTooShort, h, p)
  else if original.size ≠ h.len.toNat then (.truncatedPacket, h, p)
  else
    let p := p.removePrefix (h.hlen.toNat * 4 - length)
    if p.error ≠ .noError then (p.error, h, p)
    else
      let check := InternetChecksum.add {} (original.str.take (4 * h.hlen.toNat))
      if check.value ≠ 0 then (.badChecksum, h, p) else (.noError, h, p)

theorem parse_eq (h : IPv4Header) (p : NetParser) :
    h.parse p
      = if p.buffer.size < length then (.packetTooShort, h, p)
        else validate p.buffer (readFields p).1 (readFields p).2 := by
  rw [parse, validate, readFields]

/-- `std::string::resize`: cut off, or filled up with zeros. -/
def resize (s : List Byte) (n : Nat) : List Byte := s.take n ++ List.replicate (n - s.length) 0

/-- The bytes, without a new checksum.  It raises on another version than 4, and on a
    header shorter than the least. -/
def serialize (h : IPv4Header) : Except String (List Byte) :=
  if h.ver ≠ 4 then .error "wrong IP version"
  else if 4 * h.hlen.toNat < length then .error "IP header too short"
  else
    let ret := NetUnparser.u8 [] ((h.ver <<< 4) ||| (h.hlen &&& 0xf))
    let ret := NetUnparser.u8 ret h.tos
    let ret := NetUnparser.u16 ret h.len
    let ret := NetUnparser.u16 ret h.id
    let foVal : BitVec 16 :=
      (if h.df then 0x4000 else 0) ||| (if h.mf then 0x2000 else 0) ||| (h.offset &&& 0x1fff)
    let ret := NetUnparser.u16 ret foVal
    let ret := NetUnparser.u8 ret h.ttl
    let ret := NetUnparser.u8 ret h.proto
    let ret := NetUnparser.u16 ret h.cksum
    let ret := NetUnparser.u32 ret h.src
    let ret := NetUnparser.u32 ret h.dst
    .ok (resize ret (4 * h.hlen.toNat))

def payloadLength (h : IPv4Header) : BitVec 16 := h.len - BitVec.ofNat 16 (4 * h.hlen.toNat)

/-- `pseudo_cksum`: what the header adds to the checksum of the segment in the payload. -/
def pseudoCksum (h : IPv4Header) : BitVec 32 :=
  let pcksum := (h.src >>> 16) + (h.src &&& 0xffff)
  let pcksum := pcksum + ((h.dst >>> 16) + (h.dst &&& 0xffff))
  let pcksum := pcksum + h.proto.setWidth 32
  pcksum + h.payloadLength.setWidth 32

theorem pseudoCksum_cksum (h : IPv4Header) (cksum : BitVec 16) :
    { h with cksum := cksum }.pseudoCksum = h.pseudoCksum := rfl

/-- Far from overflowing. -/
theorem pseudoCksum_le (h : IPv4Header) : h.pseudoCksum.toNat ≤ 327930 := by
  have hsrc := InternetChecksum.toNat_fold h.src
  have hdst := InternetChecksum.toNat_fold h.dst
  have hproto : (h.proto.setWidth 32).toNat ≤ 255 := by
    rw [BitVec.toNat_setWidth]
    omega
  have hlen : (h.payloadLength.setWidth 32).toNat ≤ 65535 := by
    rw [BitVec.toNat_setWidth]
    omega
  rw [pseudoCksum, BitVec.toNat_add, BitVec.toNat_add, BitVec.toNat_add, hsrc, hdst]
  omega

/-- **WHICH HEADERS CAN BE WRITTEN**; the checksum has no part in it. -/
theorem serialize_ok_iff (h : IPv4Header) :
    (∃ out, h.serialize = .ok out) ↔ h.ver = 4 ∧ 5 ≤ h.hlen.toNat := by
  rw [serialize]
  by_cases hver : h.ver = 4
  · rw [if_neg (not_not.mpr hver)]
    by_cases hlen : 4 * h.hlen.toNat < length
    · rw [if_pos hlen]
      rw [length] at hlen
      refine ⟨fun ⟨_, hout⟩ => (nomatch hout), fun ⟨_, hle⟩ => ?_⟩
      omega
    · rw [if_neg hlen]
      rw [length] at hlen
      exact ⟨fun _ => ⟨hver, by omega⟩, fun _ => ⟨_, rfl⟩⟩
  · rw [if_pos hver]
    exact ⟨fun ⟨_, hout⟩ => (nomatch hout), fun hok => absurd hok.1 hver⟩

end IPv4Header

/-! ## The datagram -/

structure IPv4Datagram where
  header : IPv4Header := {}
  payload : BufferList := {}
deriving DecidableEq, Repr

namespace IPv4Datagram

/-- What the header's parser answers is not looked at, only the parser's error. -/
def parse (d : IPv4Datagram) (buffer : Buffer) : ParseResult × IPv4Datagram :=
  let (_, header, p) := d.header.parse { buffer := buffer }
  let d : IPv4Datagram := { header := header, payload := .ofBuffer p.buffer }
  if d.payload.size ≠ d.header.payloadLength.toNat then (.packetTooShort, d)
  else (p.error, d)

/-- What is taken has the size that its header says. -/
theorem parse_size {d d' : IPv4Datagram} {buffer : Buffer}
    (h : d.parse buffer = (.noError, d')) : d'.payload.size = d'.header.payloadLength.toNat := by
  rw [parse] at h
  dsimp only at h
  split_ifs at h with hsize
  · exact absurd (congrArg Prod.fst h) ParseResult.noConfusion
  · obtain rfl := congrArg Prod.snd h
    exact not_not.mp hsize

/-- The header with its checksum, and the payload. -/
def serialize (d : IPv4Datagram) : Except String BufferList :=
  if d.payload.size ≠ d.header.payloadLength.toNat then
    .error "IPv4Datagram::serialize: payload is wrong size"
  else do
    let headerZeroChecksum ← { d.header with cksum := 0 }.serialize
    let check := InternetChecksum.add {} headerZeroChecksum
    let headerOut ← { d.header with cksum := check.value }.serialize
    return (BufferList.ofString headerOut).append d.payload

/-- What `serialize` asks for, and a header length that fits its four bits. -/
def WellFormed (d : IPv4Datagram) : Prop :=
  d.header.ver = 4 ∧ 5 ≤ d.header.hlen.toNat ∧ d.header.hlen.toNat ≤ 15
    ∧ d.payload.size = d.header.payloadLength.toNat

instance (d : IPv4Datagram) : Decidable d.WellFormed := inferInstanceAs (Decidable (_ ∧ _))

/-- **WHICH DATAGRAMS CAN BE WRITTEN**. -/
theorem serialize_ok_iff (d : IPv4Datagram) :
    (∃ out, d.serialize = .ok out)
      ↔ d.payload.size = d.header.payloadLength.toNat ∧ d.header.ver = 4
        ∧ 5 ≤ d.header.hlen.toNat := by
  rw [serialize]
  by_cases hsize : d.payload.size = d.header.payloadLength.toNat
  · rw [if_neg (not_not.mpr hsize), and_iff_right hsize]
    constructor
    · rintro ⟨out, hout⟩
      cases hzero : { d.header with cksum := 0 }.serialize with
      | error text => rw [hzero] at hout; exact nomatch hout
      | ok bytes =>
          exact (IPv4Header.serialize_ok_iff { d.header with cksum := 0 }).mp ⟨bytes, hzero⟩
    · intro hok
      obtain ⟨bytes, hzero⟩ :=
        (IPv4Header.serialize_ok_iff { d.header with cksum := 0 }).mpr hok
      rw [hzero]
      obtain ⟨out, hout⟩ := (IPv4Header.serialize_ok_iff
        { d.header with cksum := (InternetChecksum.add {} bytes).value }).mpr hok
      refine ⟨(BufferList.ofString out).append d.payload, ?_⟩
      show ({ d.header with
        cksum := (InternetChecksum.add {} bytes).value }.serialize >>= _) = _
      rw [hout]
      rfl
  · rw [if_pos hsize]
    exact ⟨fun ⟨_, hout⟩ => (nomatch hout), fun hok => absurd hok.1 hsize⟩

theorem WellFormed.serialize_ok {d : IPv4Datagram} (h : d.WellFormed) :
    ∃ out, d.serialize = .ok out :=
  d.serialize_ok_iff.mpr ⟨h.2.2.2, h.1, h.2.1⟩

end IPv4Datagram

/-! ## Which byte strings are taken -/

/-- The first four bits of a byte string. -/
def versionNibble (b : List Byte) : Nat := (b.getD 0 0).toNat / 2 ^ 4

/-- The next four: the length of the header in words. -/
def lengthNibble (b : List Byte) : Nat := (b.getD 0 0).toNat % 2 ^ 4

/-- Bytes 2 and 3: the length of the whole. -/
def totalLength (b : List Byte) : Nat := (b.getD 2 0).toNat * 2 ^ 8 + (b.getD 3 0).toNat

/-- Version 4, a header of at least five words that is there, and the length it says. -/
def Sized (b : List Byte) : Prop :=
  versionNibble b = 4 ∧ 5 ≤ lengthNibble b ∧ 4 * lengthNibble b ≤ b.length
    ∧ totalLength b = b.length

/-- The checksum over the header that the length says is zero. -/
def HeaderSum (b : List Byte) : Prop :=
  (InternetChecksum.add {} (b.take (4 * lengthNibble b))).value = 0

/-- **A GOOD DATAGRAM**, written down. -/
def Valid (b : List Byte) : Prop := 20 ≤ b.length ∧ Sized b ∧ HeaderSum b

/-- The length says that the payload is what follows the first 20 bytes. -/
def Coincides (b : List Byte) : Prop :=
  b.length - 20 = (totalLength b + 2 ^ 16 - 4 * lengthNibble b) % 2 ^ 16

/-- **A BAD DATAGRAM THAT IS TAKEN**: its sizes are right and its checksum is not, or its
    sizes are wrong and its length fits the 20 bytes that were read. -/
def Misread (b : List Byte) : Prop :=
  20 ≤ b.length ∧ ((Sized b ∧ ¬ HeaderSum b) ∨ (¬ Sized b ∧ Coincides b))

instance (b : List Byte) : Decidable (Sized b) := inferInstanceAs (Decidable (_ ∧ _))

instance (b : List Byte) : Decidable (HeaderSum b) := inferInstanceAs (Decidable (_ = _))

instance (b : List Byte) : Decidable (Valid b) := inferInstanceAs (Decidable (_ ∧ _))

instance (b : List Byte) : Decidable (Coincides b) := inferInstanceAs (Decidable (_ = _))

instance (b : List Byte) : Decidable (Misread b) := inferInstanceAs (Decidable (_ ∧ _))

section Reading

variable {p : NetParser} {s : List Byte}

/-- Twenty bytes are read. -/
theorem readFields_congr {p q : NetParser} (h : p.left = q.left) :
    (IPv4Header.readFields p).1 = (IPv4Header.readFields q).1 := by
  obtain ⟨hfirstByte, h⟩ := NetParser.u8_congr h
  obtain ⟨htos, h⟩ := NetParser.u8_congr h
  obtain ⟨hlen, h⟩ := NetParser.u16_congr h
  obtain ⟨hid, h⟩ := NetParser.u16_congr h
  obtain ⟨hfoVal, h⟩ := NetParser.u16_congr h
  obtain ⟨httl, h⟩ := NetParser.u8_congr h
  obtain ⟨hproto, h⟩ := NetParser.u8_congr h
  obtain ⟨hcksum, h⟩ := NetParser.u16_congr h
  obtain ⟨hsrc, h⟩ := NetParser.u32_congr h
  obtain ⟨hdst, -⟩ := NetParser.u32_congr h
  simp only [IPv4Header.readFields, hfirstByte, htos, hlen, hid, hfoVal, httl, hproto, hcksum, hsrc,
    hdst]

theorem readFields_left (p : NetParser) :
    (IPv4Header.readFields p).2.left = p.left.bind (NetParser.cut 20) := by
  simp only [IPv4Header.readFields, NetParser.u8_left, NetParser.u16_left,
    NetParser.u32_left, NetParser.cut_cut, Nat.reduceAdd]

theorem shiftRight_four_toNat (x : BitVec 8) : (x >>> 4).toNat = x.toNat / 2 ^ 4 := by
  rw [BitVec.toNat_ushiftRight, Nat.shiftRight_eq_div_pow]

theorem low_four_toNat (x : BitVec 8) : (x &&& 0x0f).toNat = x.toNat % 2 ^ 4 := by
  rw [BitVec.toNat_and]
  exact Nat.and_two_pow_sub_one_eq_mod _ 4

theorem readFields_sizes (hleft : p.left = some s) (hs : 20 ≤ s.length) :
    (IPv4Header.readFields p).1.ver.toNat = versionNibble s
      ∧ (IPv4Header.readFields p).1.hlen.toNat = lengthNibble s
      ∧ (IPv4Header.readFields p).1.len.toNat = totalLength s := by
  have hfirst := NetParser.u8_toNat hleft (by omega)
  have hlen : p.u8.2.u8.2.left = some (s.drop 2) := by
    rw [NetParser.u8_left, NetParser.u8_left, NetParser.cut_cut, hleft, Option.bind_some,
      NetParser.cut_of_le (by omega)]
  simp only [IPv4Header.readFields]
  refine ⟨?_, ?_, ?_⟩
  · rw [shiftRight_four_toNat, hfirst, versionNibble]
  · rw [low_four_toNat, hfirst, lengthNibble]
  · rw [NetParser.u16_toNat hlen (by rw [List.length_drop]; omega), totalLength]
    simp

/-- Reading a whole buffer. -/
theorem start_left (buffer : Buffer) :
    NetParser.left { buffer := buffer } = some buffer.str :=
  NetParser.left_eq_some_iff.mpr ⟨rfl, rfl⟩

theorem ver_eq_iff (h : IPv4Header) : h.ver = 4 ↔ h.ver.toNat = 4 :=
  BitVec.toNat_inj.symm

/-- With the right sizes the options are skipped, and the checksum decides. -/
theorem validate_of_sized {original : Buffer} {h : IPv4Header} {q : NetParser}
    (hleft : q.left = some (original.str.drop 20)) (hver : h.ver.toNat = 4)
    (hmin : 5 ≤ h.hlen.toNat) (hfits : 4 * h.hlen.toNat ≤ original.str.length)
    (hlen : h.len.toNat = original.str.length) :
    ((IPv4Header.validate original h q).1 = .noError
        ↔ (InternetChecksum.add {} (original.str.take (4 * h.hlen.toNat))).value = 0)
      ∧ (IPv4Header.validate original h q).2.1 = h
      ∧ (IPv4Header.validate original h q).2.2.left
        = some (original.str.drop (4 * h.hlen.toNat)) := by
  have hfive : h.hlen < 5 ↔ h.hlen.toNat < 5 := Iff.rfl
  have hskip : (q.removePrefix (h.hlen.toNat * 4 - IPv4Header.length)).left
      = some (original.str.drop (4 * h.hlen.toNat)) := by
    rw [NetParser.removePrefix_left, hleft, Option.bind_some, IPv4Header.length,
      NetParser.cut_of_le (by rw [List.length_drop]; omega), List.drop_drop]
    congr 2
    omega
  have hok := (NetParser.left_eq_some_iff.mp hskip).1
  rw [IPv4Header.validate, Buffer.size, if_neg (Nat.not_lt.mpr hfits),
    if_neg (not_not.mpr ((ver_eq_iff h).mpr hver)), if_neg (mt hfive.mp (Nat.not_lt.mpr hmin)),
    if_neg (not_not.mpr hlen.symm)]
  dsimp only
  rw [if_neg (not_not.mpr hok)]
  by_cases hsum : (InternetChecksum.add {} (original.str.take (4 * h.hlen.toNat))).value = 0
  · rw [if_neg (not_not.mpr hsum)]
    exact ⟨iff_of_true rfl hsum, rfl, hskip⟩
  · rw [if_pos hsum]
    exact ⟨iff_of_false ParseResult.noConfusion hsum, rfl, hskip⟩

/-- With wrong sizes the parser stays where it is. -/
theorem validate_of_not_sized {original : Buffer} {h : IPv4Header} {q : NetParser}
    (hbad : ¬ (h.ver.toNat = 4 ∧ 5 ≤ h.hlen.toNat ∧ 4 * h.hlen.toNat ≤ original.str.length
      ∧ h.len.toNat = original.str.length)) :
    (IPv4Header.validate original h q).1 ≠ .noError
      ∧ (IPv4Header.validate original h q).2 = (h, q) := by
  have hfive : h.hlen < 5 ↔ h.hlen.toNat < 5 := Iff.rfl
  rw [IPv4Header.validate, Buffer.size]
  by_cases hshort : original.str.length < 4 * h.hlen.toNat
  · rw [if_pos hshort]
    exact ⟨ParseResult.noConfusion, rfl⟩
  rw [if_neg hshort]
  by_cases hver : h.ver = 4
  swap
  · rw [if_pos hver]
    exact ⟨ParseResult.noConfusion, rfl⟩
  rw [if_neg (not_not.mpr hver)]
  by_cases hmin : h.hlen < 5
  · rw [if_pos hmin]
    exact ⟨ParseResult.noConfusion, rfl⟩
  rw [if_neg hmin]
  by_cases hlen : original.str.length = h.len.toNat
  swap
  · rw [if_pos hlen]
    exact ⟨ParseResult.noConfusion, rfl⟩
  rw [hfive] at hmin
  exact absurd ⟨(ver_eq_iff h).mp hver, Nat.le_of_not_lt hmin, Nat.le_of_not_lt hshort,
    hlen.symm⟩ hbad

/-- The checks give back the header as it was read; the parser goes on behind the
    options if the sizes are right, and stays where it is otherwise. -/
theorem validate_snd {original : Buffer} {h : IPv4Header} {q : NetParser}
    (hleft : q.left = some (original.str.drop 20)) :
    (IPv4Header.validate original h q).2.1 = h
      ∧ (IPv4Header.validate original h q).2.2.left
        = some (original.str.drop
            (if h.ver.toNat = 4 ∧ 5 ≤ h.hlen.toNat ∧ 4 * h.hlen.toNat ≤ original.str.length
                ∧ h.len.toNat = original.str.length
              then 4 * h.hlen.toNat else 20)) := by
  by_cases hsized : h.ver.toNat = 4 ∧ 5 ≤ h.hlen.toNat
      ∧ 4 * h.hlen.toNat ≤ original.str.length ∧ h.len.toNat = original.str.length
  · obtain ⟨hver, hmin, hfits, hlen⟩ := hsized
    rw [if_pos ⟨hver, hmin, hfits, hlen⟩]
    exact (validate_of_sized hleft hver hmin hfits hlen).2
  · rw [if_neg hsized, (validate_of_not_sized hsized).2]
    exact ⟨rfl, hleft⟩

theorem toNat_payloadLength (h : IPv4Header) :
    h.payloadLength.toNat = (h.len.toNat + 2 ^ 16 - 4 * h.hlen.toNat) % 2 ^ 16 := by
  have hlt := h.hlen.isLt
  have hlen := h.len.isLt
  rw [IPv4Header.payloadLength, BitVec.toNat_sub, BitVec.toNat_ofNat,
    Nat.mod_eq_of_lt (show 4 * h.hlen.toNat < 2 ^ 16 by omega)]
  congr 1
  omega

/-- What stood in the header before has no part in it, once there are 20 bytes. -/
theorem header_parse_of_long (h : IPv4Header) {buffer : Buffer}
    (hsize : 20 ≤ buffer.str.length) :
    h.parse { buffer := buffer }
      = IPv4Header.validate buffer (IPv4Header.readFields { buffer := buffer }).1
        (IPv4Header.readFields { buffer := buffer }).2 := by
  rw [IPv4Header.parse_eq]
  exact if_neg (show ¬ buffer.size < IPv4Header.length from Nat.not_lt.mpr hsize)

theorem readFields_left_of_long {buffer : Buffer} (hsize : 20 ≤ buffer.str.length) :
    (IPv4Header.readFields { buffer := buffer }).2.left = some (buffer.str.drop 20) := by
  rw [readFields_left, start_left, Option.bind_some, NetParser.cut_of_le hsize]

/-- **THE HEADER'S PARSER** answers without an error for the good datagrams. -/
theorem header_parse_noError_iff (h : IPv4Header) (buffer : Buffer) :
    (h.parse { buffer := buffer }).1 = .noError ↔ Valid buffer.str := by
  by_cases hsize : 20 ≤ buffer.str.length
  swap
  · rw [IPv4Header.parse_eq, if_pos (show buffer.size < IPv4Header.length from
      Nat.lt_of_not_le hsize)]
    exact iff_of_false ParseResult.noConfusion fun hvalid => hsize hvalid.1
  obtain ⟨hver, hlen, htotal⟩ := readFields_sizes (start_left buffer) hsize
  have hleft := readFields_left_of_long hsize
  rw [header_parse_of_long h hsize]
  generalize IPv4Header.readFields { buffer := buffer } = read at hver hlen htotal hleft ⊢
  by_cases hsized : Sized buffer.str
  · obtain ⟨hfour, hmin, hfits, hwhole⟩ := hsized
    have hsum := (validate_of_sized hleft (hver.trans hfour) (by rw [hlen]; exact hmin)
      (by rw [hlen]; exact hfits) (htotal.trans hwhole)).1
    rw [hlen] at hsum
    exact hsum.trans ⟨fun hzero => ⟨hsize, ⟨hfour, hmin, hfits, hwhole⟩, hzero⟩,
      fun hvalid => hvalid.2.2⟩
  · have hbad := (@validate_of_not_sized buffer read.1 read.2
      (by rw [hver, hlen, htotal]; exact hsized)).1
    exact iff_of_false hbad fun hvalid => hsized hvalid.2.1

/-- **WHAT A LONG ENOUGH STRING GIVES**: the fields that were read, and as payload what
    follows them. -/
theorem parse_spec (buffer : Buffer) (hsize : 20 ≤ buffer.str.length) :
    ∃ rest : Buffer,
      rest.str = buffer.str.drop (if Sized buffer.str then 4 * lengthNibble buffer.str else 20)
      ∧ IPv4Datagram.parse {} buffer
        = (if rest.size ≠ (IPv4Header.readFields { buffer := buffer }).1.payloadLength.toNat
            then .packetTooShort else .noError,
          { header := (IPv4Header.readFields { buffer := buffer }).1
            payload := .ofBuffer rest }) := by
  obtain ⟨hver, hlen, htotal⟩ := readFields_sizes (start_left buffer) hsize
  have hparse := header_parse_of_long {} hsize
  obtain ⟨hheader, hrest⟩ := validate_snd
    (h := (IPv4Header.readFields { buffer := buffer }).1) (readFields_left_of_long hsize)
  rw [hver, hlen, htotal] at hrest
  generalize IPv4Header.validate buffer (IPv4Header.readFields { buffer := buffer }).1
    (IPv4Header.readFields { buffer := buffer }).2 = out at hheader hrest hparse
  obtain ⟨result, header, q⟩ := out
  dsimp only at hheader hrest
  obtain ⟨herror, hstr⟩ := NetParser.left_eq_some_iff.mp hrest
  refine ⟨q.buffer, hstr, ?_⟩
  have hone : (BufferList.ofBuffer q.buffer).size = q.buffer.size := Nat.zero_add _
  rw [IPv4Datagram.parse, hparse]
  dsimp only
  rw [hheader, hone, herror]
  split_ifs <;> rfl

/-- Only the string matters, not where it is stored. -/
theorem parse_congr {buffer buffer' : Buffer} (hstr : buffer.str = buffer'.str)
    (hsize : 20 ≤ buffer.str.length) :
    (IPv4Datagram.parse {} buffer').1 = (IPv4Datagram.parse {} buffer).1
      ∧ (IPv4Datagram.parse {} buffer').2.header = (IPv4Datagram.parse {} buffer).2.header
      ∧ (IPv4Datagram.parse {} buffer').2.payload.concatenate
        = (IPv4Datagram.parse {} buffer).2.payload.concatenate := by
  obtain ⟨rest, hrest, hparse⟩ := parse_spec buffer hsize
  obtain ⟨rest', hrest', hparse'⟩ := parse_spec buffer' (hstr ▸ hsize)
  rw [← hstr] at hrest'
  have hread : (IPv4Header.readFields { buffer := buffer' }).1
      = (IPv4Header.readFields { buffer := buffer }).1 :=
    readFields_congr (by rw [start_left, start_left, hstr])
  have hsame : rest'.str = rest.str := hrest'.trans hrest.symm
  rw [hparse, hparse', hread, Buffer.size, Buffer.size, hsame]
  refine ⟨rfl, rfl, ?_⟩
  rw [BufferList.concatenate_eq, BufferList.concatenate_eq]
  exact congrArg (· ++ []) hsame

/-- A string shorter than the least header is not taken: the default length field says
    another size. -/
theorem parse_short {buffer : Buffer} (hsize : buffer.str.length < 20) :
    (IPv4Datagram.parse {} buffer).1 = .packetTooShort := by
  have hparse : IPv4Header.parse {} { buffer := buffer }
      = (.packetTooShort, {}, { buffer := buffer }) := by
    rw [IPv4Header.parse_eq]
    exact if_pos hsize
  have hone : (BufferList.ofBuffer buffer).size = buffer.str.length := Nat.zero_add _
  have hdefault : IPv4Header.payloadLength {} = 65516 := rfl
  rw [IPv4Datagram.parse, hparse]
  dsimp only
  rw [hone, hdefault, if_pos]
  have htoo : (65516 : BitVec 16).toNat = 65516 := rfl
  omega

/-- **WHICH STRINGS ARE TAKEN**: the checksum has no part in it, and of the sizes only
    that the length field fits what was read. -/
theorem parse_noError_iff (buffer : Buffer) :
    (IPv4Datagram.parse {} buffer).1 = .noError
      ↔ 20 ≤ buffer.str.length ∧ (Sized buffer.str ∨ Coincides buffer.str) := by
  by_cases hsize : 20 ≤ buffer.str.length
  · obtain ⟨rest, hrest, hparse⟩ := parse_spec buffer hsize
    obtain ⟨-, hlen, htotal⟩ := readFields_sizes (start_left buffer) hsize
    have hpayload := toNat_payloadLength (IPv4Header.readFields { buffer := buffer }).1
    rw [hlen, htotal] at hpayload
    have hnibble : lengthNibble buffer.str < 2 ^ 4 := Nat.mod_lt _ (by decide)
    rw [hparse, and_iff_right hsize]
    dsimp only
    rw [hpayload, Buffer.size, hrest, List.length_drop]
    by_cases hsized : Sized buffer.str
    · have hfits := hsized.2.2.1
      have hwhole := hsized.2.2.2
      have htlt : totalLength buffer.str < 2 ^ 16 := by
        rw [← htotal]
        exact BitVec.isLt _
      rw [if_pos hsized, if_neg (by omega)]
      exact iff_of_true rfl (Or.inl hsized)
    · rw [if_neg hsized, or_iff_right hsized, Coincides]
      by_cases hsame : buffer.str.length - 20
          = (totalLength buffer.str + 2 ^ 16 - 4 * lengthNibble buffer.str) % 2 ^ 16
      · rw [if_neg (not_not.mpr hsame)]
        exact iff_of_true rfl hsame
      · rw [if_pos hsame]
        exact iff_of_false ParseResult.noConfusion hsame
  · rw [parse_short (Nat.lt_of_not_le hsize)]
    exact iff_of_false ParseResult.noConfusion fun hok => hsize hok.1

/-- **WHAT IS TAKEN CAN BE WRITTEN AGAIN** exactly if its version is 4 and its header is
    not too short. -/
theorem parsed_serialize_ok_iff {buffer : Buffer}
    (h : (IPv4Datagram.parse {} buffer).1 = .noError) :
    (∃ out, (IPv4Datagram.parse {} buffer).2.serialize = .ok out)
      ↔ versionNibble buffer.str = 4 ∧ 5 ≤ lengthNibble buffer.str := by
  have hsize := ((parse_noError_iff buffer).mp h).1
  obtain ⟨rest, -, hparse⟩ := parse_spec buffer hsize
  obtain ⟨hver, hlen, -⟩ := readFields_sizes (start_left buffer) hsize
  have hone : (BufferList.ofBuffer rest).size = rest.size := Nat.zero_add _
  rw [hparse] at h ⊢
  dsimp only at h
  rw [IPv4Datagram.serialize_ok_iff, ver_eq_iff, hver, hlen, hone]
  refine and_iff_right ?_
  by_contra hne
  rw [if_pos hne] at h
  exact ParseResult.noConfusion h

end Reading

/-- **ACCEPTANCE, EXACTLY**: a byte string is taken iff it is a good datagram, and what
    is taken can be written again, iff it is none of the bad datagrams that are taken. -/
theorem datagram_acceptance_iff (buffer : Buffer) :
    (((IPv4Datagram.parse {} buffer).1 = .noError ↔ Valid buffer.str)
        ∧ ((IPv4Datagram.parse {} buffer).1 = .noError →
          ∃ out, (IPv4Datagram.parse {} buffer).2.serialize = .ok out))
      ↔ ¬ Misread buffer.str := by
  have htaken := parse_noError_iff buffer
  constructor
  · rintro ⟨hvalid, -⟩ ⟨hsize, hbad⟩
    rcases hbad with ⟨hsized, hsum⟩ | ⟨hsized, hsame⟩
    · exact hsum (hvalid.mp (htaken.mpr ⟨hsize, Or.inl hsized⟩)).2.2
    · exact hsized (hvalid.mp (htaken.mpr ⟨hsize, Or.inr hsame⟩)).2.1
  · intro hread
    have hgood : (IPv4Datagram.parse {} buffer).1 = .noError → Valid buffer.str := by
      intro hok
      obtain ⟨hsize, hshape⟩ := htaken.mp hok
      have hsized : Sized buffer.str := by
        by_contra hno
        exact hread ⟨hsize, Or.inr ⟨hno, hshape.resolve_left hno⟩⟩
      have hsum : HeaderSum buffer.str := by
        by_contra hno
        exact hread ⟨hsize, Or.inl ⟨hsized, hno⟩⟩
      exact ⟨hsize, hsized, hsum⟩
    refine ⟨⟨hgood, fun hvalid => htaken.mpr ⟨hvalid.1, Or.inl hvalid.2.1⟩⟩, fun hok => ?_⟩
    obtain ⟨-, ⟨hver, hlen, -⟩, -⟩ := hgood hok
    exact (parsed_serialize_ok_iff hok).mpr ⟨hver, hlen⟩

/-- **THE CHECKSUM IS NOT LOOKED AT**: a header with the right sizes and no checksum is
    taken. -/
theorem wrong_checksum_taken :
    ¬ ∀ b : List Byte, b.length ≤ 65535 →
      (((IPv4Datagram.parse {} (.ofString b)).1 = .noError ↔ Valid b)
        ∧ ((IPv4Datagram.parse {} (.ofString b)).1 = .noError →
          ∃ out, (IPv4Datagram.parse {} (.ofString b)).2.serialize = .ok out)) := by
  intro hall
  have hbad := hall [69, 0, 0, 20, 0, 0, 0, 0, 64, 6, 0, 0, 0, 0, 0, 1, 0, 0, 0, 2] (by decide)
  exact absurd hbad.1 (by decide)

/-! ## Written and read back -/

namespace IPv4Header

/-- The flags and the offset, as they are written. -/
def foVal (h : IPv4Header) : BitVec 16 :=
  (if h.df then 0x4000 else 0) ||| (if h.mf then 0x2000 else 0) ||| (h.offset &&& 0x1fff)

/-- The fields in their order. -/
def fieldBytes (h : IPv4Header) : List Byte :=
  NetUnparser.u8 [] ((h.ver <<< 4) ||| (h.hlen &&& 0xf)) ++ (NetUnparser.u8 [] h.tos
    ++ (NetUnparser.u16 [] h.len ++ (NetUnparser.u16 [] h.id ++ (NetUnparser.u16 [] h.foVal
    ++ (NetUnparser.u8 [] h.ttl ++ (NetUnparser.u8 [] h.proto ++ (NetUnparser.u16 [] h.cksum
    ++ (NetUnparser.u32 [] h.src ++ NetUnparser.u32 [] h.dst))))))))

@[simp] theorem length_fieldBytes (h : IPv4Header) : h.fieldBytes.length = 20 := by
  simp [fieldBytes]

/-- The fields, and zeros up to where the header length says. -/
theorem serialize_eq {h : IPv4Header} (hver : h.ver = 4) (hmin : 5 ≤ h.hlen.toNat) :
    h.serialize = .ok (h.fieldBytes ++ List.replicate (4 * h.hlen.toNat - 20) 0) := by
  rw [serialize, if_neg (not_not.mpr hver), if_neg (by rw [length]; omega)]
  have hfields : NetUnparser.u32 (NetUnparser.u32 (NetUnparser.u16 (NetUnparser.u8
      (NetUnparser.u8 (NetUnparser.u16 (NetUnparser.u16 (NetUnparser.u16 (NetUnparser.u8
      (NetUnparser.u8 [] ((h.ver <<< 4) ||| (h.hlen &&& 0xf))) h.tos) h.len) h.id) h.foVal)
      h.ttl) h.proto) h.cksum) h.src) h.dst = h.fieldBytes := by
    simp only [fieldBytes, NetUnparser.u8, NetUnparser.u16, NetUnparser.u32,
      NetUnparser.unparseInt, List.nil_append, List.append_assoc]
  rw [foVal] at hfields
  dsimp only
  rw [hfields, resize, length_fieldBytes, List.take_of_length_le]
  rw [length_fieldBytes]
  omega

/-- The first byte is read back in halves. -/
theorem halves_written {h : IPv4Header} (hver : h.ver = 4) (hmax : h.hlen.toNat ≤ 15) :
    ((h.ver <<< 4) ||| (h.hlen &&& 0xf)) >>> 4 = h.ver
      ∧ ((h.ver <<< 4) ||| (h.hlen &&& 0xf)) &&& 0x0f = h.hlen := by
  have hlow : h.hlen &&& 0xf = h.hlen := by
    apply BitVec.eq_of_toNat_eq
    rw [low_four_toNat]
    omega
  have hhigh : h.hlen >>> 4 = 0 := by
    apply BitVec.eq_of_toNat_eq
    rw [shiftRight_four_toNat]
    exact Nat.div_eq_of_lt (Nat.lt_succ_of_le hmax)
  rw [hver, hlow]
  constructor
  · rw [BitVec.ushiftRight_or_distrib, hhigh]
    exact BitVec.or_zero
  · rw [BitVec.and_or_distrib_right, hlow]
    exact BitVec.zero_or

/-- The flags are bits above the offset. -/
theorem foVal_bits {h : IPv4Header} (hoffset : h.offset.toNat < 2 ^ 13) :
    (h.foVal &&& 0x4000 != 0) = h.df ∧ (h.foVal &&& 0x2000 != 0) = h.mf
      ∧ h.foVal &&& 0x1fff = h.offset := by
  have hlow : h.offset &&& 0x1fff = h.offset := by
    apply BitVec.eq_of_toNat_eq
    rw [BitVec.toNat_and]
    exact (Nat.and_two_pow_sub_one_eq_mod _ 13).trans (Nat.mod_eq_of_lt hoffset)
  have hdf : h.offset &&& 0x4000 = 0 := by
    rw [← hlow, BitVec.and_assoc]
    exact BitVec.and_zero
  have hmf : h.offset &&& 0x2000 = 0 := by
    rw [← hlow, BitVec.and_assoc]
    exact BitVec.and_zero
  have hmask : ∀ mask : BitVec 16, h.foVal &&& mask
      = ((if h.df then 0x4000 else 0) &&& mask) ||| ((if h.mf then 0x2000 else 0) &&& mask)
        ||| (h.offset &&& mask) := by
    intro mask
    rw [foVal, hlow, BitVec.and_or_distrib_right, BitVec.and_or_distrib_right]
  rw [hmask, hmask, hmask, hdf, hmf, hlow]
  refine ⟨?_, ?_, ?_⟩
  · cases h.df <;> cases h.mf <;> rfl
  · cases h.df <;> cases h.mf <;> rfl
  · cases h.df <;> cases h.mf <;> exact BitVec.zero_or

/-- **THE FIELDS ARE READ BACK**. -/
theorem readFields_written {h : IPv4Header} {p : NetParser} {rest : List Byte}
    (hver : h.ver = 4) (hmax : h.hlen.toNat ≤ 15) (hoffset : h.offset.toNat < 2 ^ 13)
    (hleft : p.left = some (h.fieldBytes ++ rest)) : (readFields p).1 = h := by
  simp only [fieldBytes, List.append_assoc] at hleft
  obtain ⟨p₁, hfirst, hleft⟩ := u8_written hleft
  obtain ⟨p₂, htos, hleft⟩ := u8_written hleft
  obtain ⟨p₃, hlen, hleft⟩ := u16_written hleft
  obtain ⟨p₄, hid, hleft⟩ := u16_written hleft
  obtain ⟨p₅, hfo, hleft⟩ := u16_written hleft
  obtain ⟨p₆, httl, hleft⟩ := u8_written hleft
  obtain ⟨p₇, hproto, hleft⟩ := u8_written hleft
  obtain ⟨p₈, hcksum, hleft⟩ := u16_written hleft
  obtain ⟨p₉, hsrc, hleft⟩ := u32_written hleft
  obtain ⟨p₁₀, hdst, -⟩ := u32_written hleft
  obtain ⟨hdf, hmf, hoff⟩ := foVal_bits hoffset
  obtain ⟨hhigh, hlow⟩ := halves_written hver hmax
  simp only [readFields, hfirst, htos, hlen, hid, hfo, httl, hproto, hcksum, hsrc, hdst,
    hdf, hmf, hoff, hhigh, hlow]

end IPv4Header

namespace IPv4Datagram

/-- The header with a checksum in its place. -/
def headerWith (d : IPv4Datagram) (cksum : BitVec 16) : IPv4Header :=
  { d.header with cksum := cksum }

/-- The header's string with a checksum in its place. -/
def headerWire (d : IPv4Datagram) (cksum : BitVec 16) : List Byte :=
  (d.headerWith cksum).fieldBytes ++ List.replicate (4 * d.header.hlen.toNat - 20) 0

/-- The checksum that `serialize` computes. -/
def computedCksum (d : IPv4Datagram) : BitVec 16 :=
  (InternetChecksum.add {} (d.headerWire 0)).value

/-- The string that `serialize` gives, in one piece. -/
def wire (d : IPv4Datagram) : List Byte := d.headerWire d.computedCksum ++ d.payload.concatenate

variable {d : IPv4Datagram}

theorem length_headerWire (hwf : d.WellFormed) (cksum : BitVec 16) :
    (d.headerWire cksum).length = 4 * d.header.hlen.toNat := by
  have hmin := hwf.2.1
  simp only [headerWire, List.length_append, IPv4Header.length_fieldBytes, List.length_replicate]
  omega

/-- **WHAT IS WRITTEN**. -/
theorem serialize_eq (hwf : d.WellFormed) :
    ∃ out, d.serialize = .ok out ∧ out.concatenate = d.wire := by
  obtain ⟨hver, hmin, -, hsize⟩ := hwf
  have hzero := IPv4Header.serialize_eq (h := d.headerWith 0) hver hmin
  have hout := IPv4Header.serialize_eq (h := d.headerWith d.computedCksum) hver hmin
  refine ⟨(BufferList.ofString (d.headerWire d.computedCksum)).append d.payload, ?_, ?_⟩
  · rw [serialize, if_neg (not_not.mpr hsize)]
    show ((d.headerWith 0).serialize >>= _) = _
    rw [hzero]
    show ((d.headerWith d.computedCksum).serialize >>= _) = _
    rw [hout]
    rfl
  · rw [BufferList.concatenate_append, BufferList.concatenate_ofString, wire]

/-- The length field says what there is, if it does not wrap. -/
theorem length_wire (hwf : d.WellFormed) (hlen : 4 * d.header.hlen.toNat ≤ d.header.len.toNat) :
    d.wire.length = d.header.len.toNat := by
  have hsize := hwf.2.2.2
  have hlt := d.header.len.isLt
  rw [BufferList.size_eq_length, toNat_payloadLength] at hsize
  rw [wire, List.length_append, length_headerWire hwf, hsize]
  omega

/-- The sum over the header that is written is zero. -/
theorem headerSum_wire (hwf : d.WellFormed) :
    (InternetChecksum.add {} (d.headerWire d.computedCksum)).value = 0 := by
  -- the checksum stands behind 10 bytes
  obtain ⟨pre, post, hpre, hwire⟩ : ∃ pre post, pre.length = 10
      ∧ ∀ cksum, d.headerWire cksum = pre ++ (NetUnparser.u16 [] cksum ++ post) := by
    refine ⟨NetUnparser.u8 [] ((d.header.ver <<< 4) ||| (d.header.hlen &&& 0xf))
      ++ (NetUnparser.u8 [] d.header.tos ++ (NetUnparser.u16 [] d.header.len
      ++ (NetUnparser.u16 [] d.header.id ++ (NetUnparser.u16 [] d.header.foVal
      ++ (NetUnparser.u8 [] d.header.ttl ++ NetUnparser.u8 [] d.header.proto))))),
      NetUnparser.u32 [] d.header.src ++ (NetUnparser.u32 [] d.header.dst
        ++ List.replicate (4 * d.header.hlen.toNat - 20) 0), by simp, ?_⟩
    intro cksum
    simp only [headerWire, IPv4Header.fieldBytes, List.append_assoc]
    rfl
  have hlen := length_headerWire hwf 0
  have hmax := hwf.2.2.1
  rw [hwire, List.length_append, List.length_append, length_u16, List.length_nil,
    Nat.zero_add] at hlen
  rw [hwire]
  refine InternetChecksum.value_filled (by rw [hpre]) ?_ (by rw [computedCksum, hwire])
  rw [hlen, show (0 : BitVec 32).toNat = 0 from rfl]
  omega

variable (hwf : d.WellFormed) (hlen : 4 * d.header.hlen.toNat ≤ d.header.len.toNat)
  (hoffset : d.header.offset.toNat < 2 ^ 13)

include hwf hoffset in
theorem readFields_wire {p : NetParser} (hleft : p.left = some d.wire) :
    (IPv4Header.readFields p).1 = d.headerWith d.computedCksum := by
  rw [wire, headerWire, List.append_assoc] at hleft
  exact IPv4Header.readFields_written (h := d.headerWith d.computedCksum) hwf.1 hwf.2.2.1 hoffset
    hleft

include hwf hlen hoffset

theorem wire_sizes :
    20 ≤ d.wire.length ∧ versionNibble d.wire = 4 ∧ lengthNibble d.wire = d.header.hlen.toNat
      ∧ totalLength d.wire = d.header.len.toNat := by
  have hmin := hwf.2.1
  have hsize : 20 ≤ d.wire.length := by
    rw [length_wire hwf hlen]
    omega
  obtain ⟨hver, hhlen, htotal⟩ := readFields_sizes (start_left (.ofString d.wire)) hsize
  rw [readFields_wire hwf hoffset (start_left _)] at hver hhlen htotal
  exact ⟨hsize, hver.symm.trans ((ver_eq_iff d.header).mp hwf.1), hhlen.symm, htotal.symm⟩

/-- **WHAT IS WRITTEN IS A GOOD DATAGRAM**. -/
theorem wire_valid : Valid d.wire := by
  obtain ⟨hsize, hver, hnibble, htotal⟩ := wire_sizes hwf hlen hoffset
  have hwhole := length_wire hwf hlen
  refine ⟨hsize, ⟨hver, ?_, ?_, ?_⟩, ?_⟩
  · rw [hnibble]
    exact hwf.2.1
  · rw [hnibble, hwhole]
    exact hlen
  · rw [htotal, hwhole]
  · have hheader : d.wire.take (4 * lengthNibble d.wire) = d.headerWire d.computedCksum := by
      rw [hnibble, ← length_headerWire hwf d.computedCksum, wire, List.take_left]
    rw [HeaderSum, hheader]
    exact headerSum_wire hwf

/-- **A DATAGRAM IS READ BACK** as it was written, with the checksum that was computed. -/
theorem parse_serialize {buffer : Buffer} (hbuffer : buffer.str = d.wire) :
    ∃ rest : Buffer, rest.str = d.payload.concatenate
      ∧ parse {} buffer
        = (.noError, { header := d.headerWith d.computedCksum, payload := .ofBuffer rest }) := by
  obtain ⟨hsize, hsized, -⟩ := wire_valid hwf hlen hoffset
  obtain ⟨-, -, hnibble, -⟩ := wire_sizes hwf hlen hoffset
  have hread := readFields_wire hwf hoffset (hbuffer ▸ start_left buffer)
  have hok : (parse {} buffer).1 = .noError := by
    rw [parse_noError_iff, hbuffer]
    exact ⟨hsize, Or.inl hsized⟩
  obtain ⟨rest, hrest, hparse⟩ := parse_spec buffer (by rw [hbuffer]; exact hsize)
  rw [hbuffer, if_pos hsized, hnibble, ← length_headerWire hwf d.computedCksum, wire,
    List.drop_left] at hrest
  refine ⟨rest, hrest, ?_⟩
  rw [hparse] at hok
  rw [hparse, ← hread]
  exact Prod.ext hok rfl

omit hwf hlen hoffset

/-- The checksum that a header carries is not part of what is written. -/
theorem wire_congr {d' : IPv4Datagram} {cksum : BitVec 16}
    (hheader : d'.header = d.headerWith cksum)
    (hpayload : d'.payload.concatenate = d.payload.concatenate) : d'.wire = d.wire := by
  have hwire : d'.headerWire = d.headerWire := by
    funext v
    rw [headerWire, headerWire, headerWith, hheader]
    rfl
  rw [wire, wire, computedCksum, computedCksum, hwire, hpayload]

/-- What stood in the datagram before has no part in it, once there are 20 bytes. -/
theorem parse_of_long (d₀ : IPv4Datagram) {buffer : Buffer} (hsize : 20 ≤ buffer.str.length) :
    d₀.parse buffer = parse {} buffer := by
  rw [parse, parse, header_parse_of_long _ hsize, header_parse_of_long _ hsize]

/-- **THERE AND BACK**: a datagram of version 4, whose length field says what there is, is
    written; what is written is taken by both parsers and gives the datagram with the
    checksum that was computed, and that one is written as the same bytes. -/
theorem datagram_round_trip (d : IPv4Datagram) (hver : d.header.ver = 4)
    (hmin : 5 ≤ d.header.hlen.toNat) (hmax : d.header.hlen.toNat ≤ 15)
    (hoffset : d.header.offset.toNat < 2 ^ 13)
    (hlen : d.header.len.toNat = 4 * d.header.hlen.toNat + d.payload.size) :
    ∃ headerZero out, { d.header with cksum := 0 }.serialize = .ok headerZero
      ∧ d.serialize = .ok out
      ∧ ∀ buffer : Buffer, buffer.str = out.concatenate →
        (∀ h₀ : IPv4Header, (h₀.parse { buffer := buffer }).1 = .noError)
        ∧ ∀ d₀ : IPv4Datagram, ∃ back again, d₀.parse buffer = (.noError, back)
          ∧ back.header
            = { d.header with cksum := (InternetChecksum.add {} headerZero).value }
          ∧ back.payload.concatenate = d.payload.concatenate
          ∧ back.serialize = .ok again ∧ again.concatenate = out.concatenate := by
  have hwf : d.WellFormed := by
    refine ⟨hver, hmin, hmax, ?_⟩
    have hlt := d.header.len.isLt
    rw [toNat_payloadLength]
    omega
  have hfits : 4 * d.header.hlen.toNat ≤ d.header.len.toNat := by omega
  obtain ⟨out, hout, hwire⟩ := serialize_eq hwf
  refine ⟨d.headerWire 0, out, IPv4Header.serialize_eq (h := d.headerWith 0) hver hmin, hout, ?_⟩
  intro buffer hbuffer
  rw [hwire] at hbuffer
  have hvalid := wire_valid hwf hfits hoffset
  constructor
  · intro h₀
    rw [header_parse_noError_iff, hbuffer]
    exact hvalid
  · intro d₀
    obtain ⟨rest, hrest, hparse⟩ := parse_serialize hwf hfits hoffset hbuffer
    have hone : (BufferList.ofBuffer rest).concatenate = d.payload.concatenate := by
      rw [← hrest]
      rfl
    -- the datagram that was read is as good as the one that was written
    have hback : WellFormed { header := d.headerWith d.computedCksum
                              payload := .ofBuffer rest } := by
      refine ⟨hver, hmin, hmax, ?_⟩
      rw [BufferList.size_eq_length, hone, ← BufferList.size_eq_length]
      exact hwf.2.2.2
    obtain ⟨again, hagain, hsame⟩ := serialize_eq hback
    refine ⟨_, again, (parse_of_long d₀ ?_).trans hparse, rfl, hone, hagain, ?_⟩
    · rw [hbuffer]
      exact hvalid.1
    · rw [hsame, hwire]
      exact wire_congr rfl hone

/-- A header of six words in front of three bytes in two pieces. -/
theorem datagram_round_trip_options :
    ∃ headerZero out, IPv4Header.serialize { hlen := 6, len := 27, mf := true } = .ok headerZero
      ∧ serialize { header := { hlen := 6, len := 27, mf := true }
                    payload := ⟨[.ofString [1], .ofString [2, 3]]⟩ } = .ok out
      ∧ (IPv4Datagram.parse {} (.ofString out.concatenate)).1 = .noError := by
  obtain ⟨headerZero, out, hzero, hout, hback⟩ := datagram_round_trip
    { header := { hlen := 6, len := 27, mf := true }
      payload := ⟨[.ofString [1], .ofString [2, 3]]⟩ }
    (by decide) (by decide) (by decide) (by decide) (by decide)
  obtain ⟨back, again, hparse, -⟩ := (hback (.ofString out.concatenate) rfl).2 {}
  exact ⟨headerZero, out, hzero, hout, congrArg Prod.fst hparse⟩

end IPv4Datagram

end SpongeIPv4
