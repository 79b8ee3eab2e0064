import Sponge.SegmentProofs
import Sponge.IPv4Proofs

/-! # Segments on the wire — `tcp_header`, `tcp_segment`

    A segment travels as a header, which says with its data offset how long it is, and
    the payload behind it.  The checksum runs over both, and over a sum that the layer
    below gives.

    `TCPSegment::parse` checks the sum, reads the header, and answers with the error of
    the parser; what the header's own check of the data offset answers is not looked at.
    `parse_noError_iff` says which byte strings are taken, `segment_acceptance_iff`
    where those are the right ones.  What `serialize` writes is taken and read back
    (`parse_serialize`, `segment_round_trip`), and with one byte changed it is not taken
    (`corruption_detected`). -/

namespace SpongeSegment

open SpongeByteStream SpongeWrapping SpongeBuffer SpongeParser SpongeIPv4 OnesComplement

namespace TCPHeader

/-- `LENGTH`, without options -/
def length : Nat := 20

/-- The part of `parse` that reads the fields; every field is assigned. -/
def readFields (p : NetParser) : TCPHeader × NetParser :=
  let sport := p.u16
  let dport := sport.2.u16
  let seqno := dport.2.u32
  let ackno := seqno.2.u32
  let doff := ackno.2.u8
  let flB := doff.2.u8
  let win := flB.2.u16
  let cksum := win.2.u16
  let uptr := cksum.2.u16
  ({ sport := sport.1
     dport := dport.1
     seqno := ⟨seqno.1⟩
     ackno := ⟨ackno.1⟩
     doff := doff.1 >>> 4
     urg := flB.1 &&& 0b00100000 != 0
     ack := flB.1 &&& 0b00010000 != 0
     psh := flB.1 &&& 0b00001000 != 0
     rst := flB.1 &&& 0b00000100 != 0
     syn := flB.1 &&& 0b00000010 != 0
     fin := flB.1 &&& 0b00000001 != 0
     win := win.1
     cksum := cksum.1
     uptr := uptr.1 }, uptr.2)

/-- A data offset below the least ends the parsing; the parser has no error then. -/
def parse (p : NetParser) : ParseResult × TCPHeader × NetParser :=
  let (h, p) := readFields p
  if h.doff < 5 then (.headerTooShort, h, p)
  else
    -- options are skipped
    let p := p.removePrefix (h.doff.toNat * 4 - length)
    if p.error ≠ .noError then (p.error, h, p) else (.noError, h, p)

/-- The byte of the flags. -/
def flags (h : TCPHeader) : BitVec 8 :=
  (if h.urg then 0b00100000 else 0) ||| (if h.ack then 0b00010000 else 0)
    ||| (if h.psh then 0b00001000 else 0) ||| (if h.rst then 0b00000100 else 0)
    ||| (if h.syn then 0b00000010 else 0) ||| (if h.fin then 0b00000001 else 0)

/-- The bytes, without a new checksum.  It raises on a header shorter than the least. -/
def serialize (h : TCPHeader) : Except String (List Byte) :=
  if h.doff < 5 then .error "TCP header too short"
  else
    let ret := NetUnparser.u16 [] h.sport
    let ret := NetUnparser.u16 ret h.dport
    let ret := NetUnparser.u32 ret h.seqno.rawValue
    let ret := NetUnparser.u32 ret h.ackno.rawValue
    let ret := NetUnparser.u8 ret (h.doff <<< 4)
    let ret := NetUnparser.u8 ret h.flags
    let ret := NetUnparser.u16 ret h.win
    let ret := NetUnparser.u16 ret h.cksum
    let ret := NetUnparser.u16 ret h.uptr
    .ok (IPv4Header.resize ret (4 * h.doff.toNat))

end TCPHeader

namespace TCPSegment

def parse (seg : TCPSegment) (buffer : Buffer) (datagramLayerChecksum : BitVec 32) :
    ParseResult × TCPSegment :=
  let check := InternetChecksum.add { sum := datagramLayerChecksum } buffer.str
  if check.value ≠ 0 then (.badChecksum, seg)
  else
    let (_, header, p) := TCPHeader.parse { buffer := buffer }
    (p.error, { header := header, payload := p.buffer.str })

/-- The header with its checksum, taken over the entire segment, and the payload. -/
def serialize (seg : TCPSegment) (datagramLayerChecksum : BitVec 32) :
    Except String BufferList := do
  let headerZero ← { seg.header with cksum := 0 }.serialize
  let check := (InternetChecksum.add { sum := datagramLayerChecksum } headerZero).add seg.payload
  let headerOut ← { seg.header with cksum := check.value }.serialize
  return (BufferList.ofString headerOut).append (.ofString seg.payload)

end TCPSegment

/-! ## Which byte strings are taken -/

/-- The first four bits of byte 12: the length of the header in words. -/
def offsetNibble (b : List Byte) : Nat := (b.getD 12 0).toNat / 2 ^ 4

/-- The checksum of the string, on top of the sum `c`, is zero. -/
def SumZero (c : BitVec 32) (b : List Byte) : Prop :=
  (InternetChecksum.add { sum := c } b).value = 0

/-- **A GOOD SEGMENT**, written down. -/
def Whole (c : BitVec 32) (b : List Byte) : Prop :=
  SumZero c b ∧ 20 ≤ b.length ∧ 5 ≤ offsetNibble b ∧ 4 * offsetNibble b ≤ b.length

/-- **A BAD SEGMENT THAT IS TAKEN**: its data offset points into the fields. -/
def ShortOffset (c : BitVec 32) (b : List Byte) : Prop :=
  SumZero c b ∧ 20 ≤ b.length ∧ offsetNibble b < 5

/-- Where the payload is taken to start. -/
def bodyAt (b : List Byte) : Nat := if offsetNibble b < 5 then 20 else 4 * offsetNibble b

theorem twenty_le_bodyAt (b : List Byte) : 20 ≤ bodyAt b := by
  rw [bodyAt]
  split_ifs <;> omega

instance (c : BitVec 32) (b : List Byte) : Decidable (SumZero c b) :=
  inferInstanceAs (Decidable (_ = _))

instance (c : BitVec 32) (b : List Byte) : Decidable (Whole c b) :=
  inferInstanceAs (Decidable (_ ∧ _))

instance (c : BitVec 32) (b : List Byte) : Decidable (ShortOffset c b) :=
  inferInstanceAs (Decidable (_ ∧ _))

namespace TCPHeader

theorem readFields_congr {p q : NetParser} (h : p.left = q.left) :
    (readFields p).1 = (readFields q).1 := by
  obtain ⟨hsport, h⟩ := NetParser.u16_congr h
  obtain ⟨hdport, h⟩ := NetParser.u16_congr h
  obtain ⟨hseqno, h⟩ := NetParser.u32_congr h
  obtain ⟨hackno, h⟩ := NetParser.u32_congr h
  obtain ⟨hdoff, h⟩ := NetParser.u8_congr h
  obtain ⟨hflB, h⟩ := NetParser.u8_congr h
  obtain ⟨hwin, h⟩ := NetParser.u16_congr h
  obtain ⟨hcksum, h⟩ := NetParser.u16_congr h
  obtain ⟨huptr, -⟩ := NetParser.u16_congr h
  simp only [readFields, hsport, hdport, hseqno, hackno, hdoff, hflB, hwin, hcksum, huptr]

theorem readFields_left (p : NetParser) :
    (readFields p).2.left = p.left.bind (NetParser.cut 20) := by
  simp only [readFields, NetParser.u8_left, NetParser.u16_left, NetParser.u32_left,
    NetParser.cut_cut, Nat.reduceAdd]

theorem readFields_doff {p : NetParser} {s : List Byte} (hleft : p.left = some s)
    (hs : 20 ≤ s.length) : (readFields p).1.doff.toNat = offsetNibble s := by
  have htwelve : p.u16.2.u16.2.u32.2.u32.2.left = some (s.drop 12) := by
    simp only [NetParser.u16_left, NetParser.u32_left, NetParser.cut_cut, Nat.reduceAdd]
    rw [hleft, Option.bind_some, NetParser.cut_of_le (by omega)]
  simp only [readFields]
  rw [shiftRight_four_toNat, NetParser.u8_toNat htwelve (by rw [List.length_drop]; omega),
    offsetNibble]
  simp

theorem doff_lt_five_iff (h : TCPHeader) : h.doff < 5 ↔ h.doff.toNat < 5 := Iff.rfl

/-- **WHERE THE PARSER ENDS UP**: behind the fields if the offset is too short, else
    behind as many words as it says, if they are there. -/
theorem parse_left (p : NetParser) :
    (parse p).2.1 = (readFields p).1
      ∧ (parse p).2.2.left
        = p.left.bind (NetParser.cut
          (if (readFields p).1.doff.toNat < 5 then 20 else 4 * (readFields p).1.doff.toNat)) := by
  have hleft := readFields_left p
  rw [parse]
  generalize readFields p = r at hleft ⊢
  obtain ⟨h, q⟩ := r
  dsimp only at hleft ⊢
  by_cases hmin : h.doff.toNat < 5
  · rw [if_pos ((doff_lt_five_iff h).mpr hmin), if_pos hmin]
    exact ⟨rfl, hleft⟩
  · rw [if_neg (mt (doff_lt_five_iff h).mp hmin), if_neg hmin]
    have hskip : (q.removePrefix (h.doff.toNat * 4 - length)).left
        = p.left.bind (NetParser.cut (4 * h.doff.toNat)) := by
      rw [NetParser.removePrefix_left, hleft, NetParser.cut_cut, length,
        show 20 + (h.doff.toNat * 4 - 20) = 4 * h.doff.toNat by omega]
    split_ifs
    · exact ⟨rfl, hskip⟩
    · exact ⟨rfl, hskip⟩

theorem serialize_ok_iff (h : TCPHeader) :
    (∃ out, h.serialize = .ok out) ↔ 5 ≤ h.doff.toNat := by
  rw [serialize]
  by_cases hmin : h.doff < 5
  · rw [if_pos hmin]
    exact iff_of_false (fun ⟨_, hout⟩ => nomatch hout)
      (Nat.not_le.mpr ((doff_lt_five_iff h).mp hmin))
  · rw [if_neg hmin]
    exact iff_of_true ⟨_, rfl⟩ (Nat.le_of_not_lt (mt (doff_lt_five_iff h).mpr hmin))

end TCPHeader

namespace TCPSegment

/-- **WHICH SEGMENTS CAN BE WRITTEN**. -/
theorem serialize_ok_iff (seg : TCPSegment) (c : BitVec 32) :
    (∃ out, seg.serialize c = .ok out) ↔ 5 ≤ seg.header.doff.toNat := by
  constructor
  · rintro ⟨out, hout⟩
    rw [serialize] at hout
    cases hzero : { seg.header with cksum := 0 }.serialize with
    | error text =>
        rw [hzero] at hout
        exact nomatch hout
    | ok bytes =>
        exact (TCPHeader.serialize_ok_iff { seg.header with cksum := 0 }).mp ⟨bytes, hzero⟩
  · intro hmin
    obtain ⟨bytes, hzero⟩ :=
      (TCPHeader.serialize_ok_iff { seg.header with cksum := 0 }).mpr hmin
    obtain ⟨out, hout⟩ := (TCPHeader.serialize_ok_iff { seg.header with
      cksum := ((InternetChecksum.add { sum := c } bytes).add seg.payload).value }).mpr hmin
    refine ⟨(BufferList.ofString out).append (.ofString seg.payload), ?_⟩
    simp only [serialize, hzero, hout, bind, Except.bind, pure, Except.pure]

/-- A string with a wrong sum is not looked at. -/
theorem parse_of_not_sumZero {seg : TCPSegment} {buffer : Buffer} {c : BitVec 32}
    (hsum : ¬ SumZero c buffer.str) : seg.parse buffer c = (.badChecksum, seg) := by
  rw [parse]
  exact if_pos hsum

theorem parse_of_sumZero {buffer : Buffer} {c : BitVec 32} (hsum : SumZero c buffer.str) :
    parse {} buffer c
      = ((TCPHeader.parse { buffer := buffer }).2.2.error,
        { header := (TCPHeader.parse { buffer := buffer }).2.1
          payload := (TCPHeader.parse { buffer := buffer }).2.2.buffer.str }) := by
  rw [parse]
  exact if_neg (not_not.mpr hsum)

/-- The header's parser goes to where the payload starts, or fails. -/
theorem header_parse_left (buffer : Buffer) :
    (TCPHeader.parse { buffer := buffer }).2.2.left
      = NetParser.cut (bodyAt buffer.str) buffer.str := by
  rw [(TCPHeader.parse_left { buffer := buffer }).2, start_left, Option.bind_some]
  by_cases hsize : 20 ≤ buffer.str.length
  · rw [TCPHeader.readFields_doff (start_left buffer) hsize]
    rfl
  · -- at least the fields are read, whatever the offset
    have hbody := twenty_le_bodyAt buffer.str
    rw [NetParser.cut, NetParser.cut, if_neg (by split_ifs <;> omega), if_neg (by omega)]

/-- **WHICH STRINGS ARE TAKEN**: of a data offset below five nothing is asked. -/
theorem parse_noError_iff (buffer : Buffer) (c : BitVec 32) :
    (parse {} buffer c).1 = .noError
      ↔ SumZero c buffer.str ∧ bodyAt buffer.str ≤ buffer.str.length := by
  by_cases hsum : SumZero c buffer.str
  · have hleft := header_parse_left buffer
    rw [parse_of_sumZero hsum, and_iff_right hsum]
    rw [NetParser.cut] at hleft
    by_cases hfits : bodyAt buffer.str ≤ buffer.str.length
    · rw [if_pos hfits] at hleft
      exact iff_of_true (NetParser.left_eq_some_iff.mp hleft).1 hfits
    · rw [if_neg hfits] at hleft
      exact iff_of_false (NetParser.left_eq_none_iff.mp hleft) hfits
  · rw [parse_of_not_sumZero hsum]
    exact iff_of_false ParseResult.noConfusion fun hok => hsum hok.1

/-- **WHAT IS READ** from a string that is taken. -/
theorem parse_spec {buffer : Buffer} {c : BitVec 32}
    (h : (parse {} buffer c).1 = .noError) :
    (parse {} buffer c).2.header = (TCPHeader.readFields { buffer := buffer }).1
      ∧ (parse {} buffer c).2.payload = buffer.str.drop (bodyAt buffer.str) := by
  obtain ⟨hsum, hfits⟩ := (parse_noError_iff buffer c).mp h
  have hleft := header_parse_left buffer
  rw [NetParser.cut_of_le hfits] at hleft
  rw [parse_of_sumZero hsum]
  exact ⟨(TCPHeader.parse_left { buffer := buffer }).1, (NetParser.left_eq_some_iff.mp hleft).2⟩

/-- Only the string matters, not where it is stored. -/
theorem parse_congr {buffer buffer' : Buffer} {c : BitVec 32} {seg : TCPSegment}
    (hstr : buffer.str = buffer'.str) (h : parse {} buffer c = (.noError, seg)) :
    parse {} buffer' c = (.noError, seg) := by
  have hok : (parse {} buffer c).1 = .noError := by rw [h]
  have hok' : (parse {} buffer' c).1 = .noError := by
    rw [parse_noError_iff, ← hstr]
    exact (parse_noError_iff buffer c).mp hok
  obtain ⟨hheader, hpayload⟩ := parse_spec hok
  obtain ⟨hheader', hpayload'⟩ := parse_spec hok'
  have hread : (TCPHeader.readFields { buffer := buffer }).1
      = (TCPHeader.readFields { buffer := buffer' }).1 :=
    TCPHeader.readFields_congr (by rw [start_left, start_left, hstr])
  rw [h] at hheader hpayload
  refine Prod.ext hok' ?_
  rw [TCPSegment.mk.injEq, hheader', hpayload', hheader, hpayload, hread, hstr]
  exact ⟨rfl, rfl⟩

/-- **WHAT IS TAKEN CAN BE WRITTEN AGAIN** exactly if its data offset is not too short. -/
theorem parsed_serialize_ok_iff {buffer : Buffer} {c : BitVec 32}
    (h : (parse {} buffer c).1 = .noError) (c' : BitVec 32) :
    (∃ out, (parse {} buffer c).2.serialize c' = .ok out) ↔ 5 ≤ offsetNibble buffer.str := by
  have hsize := Nat.le_trans (twenty_le_bodyAt _) ((parse_noError_iff buffer c).mp h).2
  rw [serialize_ok_iff, (parse_spec h).1, TCPHeader.readFields_doff (start_left buffer) hsize]

end TCPSegment

/-- **ACCEPTANCE, EXACTLY**: a byte string is taken iff it is a good segment, with the
    payload it says and such that it can be written again, iff it is none of the bad
    segments that are taken. -/
theorem segment_acceptance_iff (buffer : Buffer) (c : BitVec 32) :
    (((TCPSegment.parse {} buffer c).1 = .noError ↔ Whole c buffer.str)
        ∧ ((TCPSegment.parse {} buffer c).1 = .noError →
          (TCPSegment.parse {} buffer c).2.payload
              = buffer.str.drop (4 * offsetNibble buffer.str)
            ∧ ∀ c', ∃ out, (TCPSegment.parse {} buffer c).2.serialize c' = .ok out))
      ↔ ¬ ShortOffset c buffer.str := by
  have htaken := TCPSegment.parse_noError_iff buffer c
  constructor
  · rintro ⟨hwhole, -⟩ ⟨hsum, hsize, hshort⟩
    have hbody : bodyAt buffer.str ≤ buffer.str.length := by
      rw [bodyAt, if_pos hshort]
      exact hsize
    exact Nat.not_le.mpr hshort (hwhole.mp (htaken.mpr ⟨hsum, hbody⟩)).2.2.1
  · intro hlong
    by_cases hshort : offsetNibble buffer.str < 5
    · -- with a short offset nothing is taken, and nothing is good
      have hnot : (TCPSegment.parse {} buffer c).1 ≠ .noError := by
        intro hok
        obtain ⟨hsum, hbody⟩ := htaken.mp hok
        exact hlong ⟨hsum, Nat.le_trans (twenty_le_bodyAt _) hbody, hshort⟩
      refine ⟨iff_of_false hnot fun hwhole => ?_, fun hok => absurd hok hnot⟩
      exact Nat.not_le.mpr hshort hwhole.2.2.1
    · have hfive := Nat.le_of_not_lt hshort
      have hbody : bodyAt buffer.str = 4 * offsetNibble buffer.str := if_neg hshort
      rw [hbody] at htaken
      refine ⟨?_, fun hok => ⟨?_, fun c' => ?_⟩⟩
      · rw [htaken, Whole, and_iff_right hfive]
        exact and_congr_right fun _ => ⟨fun hfits => ⟨by omega, hfits⟩, fun hfits => hfits.2⟩
      · rw [(TCPSegment.parse_spec hok).2, hbody]
      · exact (TCPSegment.parsed_serialize_ok_iff hok c').mpr hfive

/-- **THE DATA OFFSET IS NOT CHECKED**: twenty bytes with the right sum and a data offset
    of zero are taken. -/
theorem short_offset_taken :
    ¬ ∀ b : List Byte, b.length ≤ 65535 → ∀ c : BitVec 32, c.toNat < 2 ^ 20 →
      (((TCPSegment.parse {} (.ofString b) c).1 = .noError ↔ Whole c b)
        ∧ ((TCPSegment.parse {} (.ofString b) c).1 = .noError →
          (TCPSegment.parse {} (.ofString b) c).2.payload = b.drop (4 * offsetNibble b)
            ∧ ∀ c', ∃ out, (TCPSegment.parse {} (.ofString b) c).2.serialize c' = .ok out)) := by
  intro hall
  have hbad := hall [255, 255, 0, 0, 0, 0, 0, 0, 0, 0, 0, 0, 0, 0, 0, 0, 0, 0, 0, 0] (by decide)
    0 (by decide)
  exact absurd hbad.1 (by decide)

/-! ## Written and read back -/

namespace TCPHeader

/-- The fields in their order. -/
def fieldBytes (h : TCPHeader) : List Byte :=
  NetUnparser.u16 [] h.sport ++ (NetUnparser.u16 [] h.dport
    ++ (NetUnparser.u32 [] h.seqno.rawValue ++ (NetUnparser.u32 [] h.ackno.rawValue
    ++ (NetUnparser.u8 [] (h.doff <<< 4) ++ (NetUnparser.u8 [] h.flags
    ++ (NetUnparser.u16 [] h.win ++ (NetUnparser.u16 [] h.cksum
    ++ NetUnparser.u16 [] h.uptr)))))))

@[simp] theorem length_fieldBytes (h : TCPHeader) : h.fieldBytes.length = 20 := by
  simp [fieldBytes]

/-- The fields, and zeros up to where the data offset says. -/
theorem serialize_eq {h : TCPHeader} (hmin : 5 ≤ h.doff.toNat) :
    h.serialize = .ok (h.fieldBytes ++ List.replicate (4 * h.doff.toNat - 20) 0) := by
  rw [serialize, if_neg (mt (doff_lt_five_iff h).mp (Nat.not_lt.mpr hmin))]
  have hfields : NetUnparser.u16 (NetUnparser.u16 (NetUnparser.u16 (NetUnparser.u8
      (NetUnparser.u8 (NetUnparser.u32 (NetUnparser.u32 (NetUnparser.u16 (NetUnparser.u16 []
      h.sport) h.dport) h.seqno.rawValue) h.ackno.rawValue) (h.doff <<< 4)) h.flags) h.win)
      h.cksum) h.uptr = h.fieldBytes := by
    simp only [fieldBytes, NetUnparser.u8, NetUnparser.u16, NetUnparser.u32,
      NetUnparser.unparseInt, List.nil_append, List.append_assoc]
  dsimp only
  rw [hfields, IPv4Header.resize, length_fieldBytes, List.take_of_length_le]
  rw [length_fieldBytes]
  omega

/-- Each flag is its bit. -/
theorem flags_bits (h : TCPHeader) :
    (h.flags &&& 0b00100000 != 0) = h.urg ∧ (h.flags &&& 0b00010000 != 0) = h.ack
      ∧ (h.flags &&& 0b00001000 != 0) = h.psh ∧ (h.flags &&& 0b00000100 != 0) = h.rst
      ∧ (h.flags &&& 0b00000010 != 0) = h.syn ∧ (h.flags &&& 0b00000001 != 0) = h.fin := by
  rw [flags]
  generalize h.urg = urg
  generalize h.ack = ack
  generalize h.psh = psh
  generalize h.rst = rst
  generalize h.syn = syn
  generalize h.fin = fin
  revert urg ack psh rst syn fin
  decide

theorem doff_shifted {doff : BitVec 8} (hmax : doff.toNat ≤ 15) : doff <<< 4 >>> 4 = doff := by
  apply BitVec.eq_of_toNat_eq
  rw [shiftRight_four_toNat, BitVec.toNat_shiftLeft, Nat.shiftLeft_eq]
  omega

/-- **THE FIELDS ARE READ BACK**. -/
theorem readFields_written {h : TCPHeader} {p : NetParser} {rest : List Byte}
    (hmax : h.doff.toNat ≤ 15) (hleft : p.left = some (h.fieldBytes ++ rest)) :
    (readFields p).1 = h := by
  simp only [fieldBytes, List.append_assoc] at hleft
  obtain ⟨p₁, hsport, hleft⟩ := u16_written hleft
  obtain ⟨p₂, hdport, hleft⟩ := u16_written hleft
  obtain ⟨p₃, hseqno, hleft⟩ := u32_written hleft
  obtain ⟨p₄, hackno, hleft⟩ := u32_written hleft
  obtain ⟨p₅, hdoff, hleft⟩ := u8_written hleft
  obtain ⟨p₆, hflags, hleft⟩ := u8_written hleft
  obtain ⟨p₇, hwin, hleft⟩ := u16_written hleft
  obtain ⟨p₈, hcksum, hleft⟩ := u16_written hleft
  obtain ⟨p₉, huptr, -⟩ := u16_written hleft
  obtain ⟨hurg, hack, hpsh, hrst, hsyn, hfin⟩ := h.flags_bits
  simp only [readFields, hsport, hdport, hseqno, hackno, hdoff, hflags, hwin, hcksum, huptr,
    hurg, hack, hpsh, hrst, hsyn, hfin, doff_shifted hmax]

end TCPHeader

namespace TCPSegment

/-- The header with a checksum in its place. -/
def headerWith (seg : TCPSegment) (cksum : BitVec 16) : TCPHeader :=
  { seg.header with cksum := cksum }

/-- The header's string with a checksum in its place. -/
def headerWire (seg : TCPSegment) (cksum : BitVec 16) : List Byte :=
  (seg.headerWith cksum).fieldBytes ++ List.replicate (4 * seg.header.doff.toNat - 20) 0

/-- The string with a checksum in its place. -/
def wire (seg : TCPSegment) (cksum : BitVec 16) : List Byte := seg.headerWire cksum ++ seg.payload

/-- The checksum that `serialize` computes. -/
def computedCksum (seg : TCPSegment) (c : BitVec 32) : BitVec 16 :=
  ((InternetChecksum.add { sum := c } (seg.headerWire 0)).add seg.payload).value

variable {seg : TCPSegment} {c : BitVec 32}

theorem length_headerWire (hmin : 5 ≤ seg.header.doff.toNat) (cksum : BitVec 16) :
    (seg.headerWire cksum).length = 4 * seg.header.doff.toNat := by
  simp only [headerWire, List.length_append, TCPHeader.length_fieldBytes, List.length_replicate]
  omega

theorem length_wire (hmin : 5 ≤ seg.header.doff.toNat) (cksum : BitVec 16) :
    (seg.wire cksum).length = 4 * seg.header.doff.toNat + seg.payload.length := by
  rw [wire, List.length_append, length_headerWire hmin]

theorem serialize_headerWith (hmin : 5 ≤ seg.header.doff.toNat) (cksum : BitVec 16) :
    (seg.headerWith cksum).serialize = .ok (seg.headerWire cksum) :=
  TCPHeader.serialize_eq (h := seg.headerWith cksum) hmin

/-- **WHAT IS WRITTEN**. -/
theorem serialize_eq (hmin : 5 ≤ seg.header.doff.toNat) (c : BitVec 32) :
    ∃ out, seg.serialize c = .ok out ∧ out.concatenate = seg.wire (seg.computedCksum c) := by
  refine ⟨(BufferList.ofString (seg.headerWire (seg.computedCksum c))).append
    (.ofString seg.payload), ?_, ?_⟩
  · rw [serialize]
    show ((seg.headerWith 0).serialize >>= _) = _
    rw [serialize_headerWith hmin]
    show ((seg.headerWith (seg.computedCksum c)).serialize >>= _) = _
    rw [serialize_headerWith hmin]
    rfl
  · rw [BufferList.concatenate_append, BufferList.concatenate_ofString,
      BufferList.concatenate_ofString, wire]

/-- The sum over what is written is zero, if it does not overflow. -/
theorem sumZero_wire (hmin : 5 ≤ seg.header.doff.toNat)
    (hfits : c.toNat + (4 * seg.header.doff.toNat + seg.payload.length) * 65280 < 2 ^ 32) :
    SumZero c (seg.wire (seg.computedCksum c)) := by
  -- the checksum stands behind 16 bytes
  obtain ⟨pre, post, hpre, hwire⟩ : ∃ pre post, pre.length = 16
      ∧ ∀ cksum, seg.wire cksum = pre ++ (NetUnparser.u16 [] cksum ++ post) := by
    refine ⟨NetUnparser.u16 [] seg.header.sport ++ (NetUnparser.u16 [] seg.header.dport
      ++ (NetUnparser.u32 [] seg.header.seqno.rawValue
      ++ (NetUnparser.u32 [] seg.header.ackno.rawValue
      ++ (NetUnparser.u8 [] (seg.header.doff <<< 4) ++ (NetUnparser.u8 [] seg.header.flags
      ++ NetUnparser.u16 [] seg.header.win))))),
      NetUnparser.u16 [] seg.header.uptr
        ++ (List.replicate (4 * seg.header.doff.toNat - 20) 0 ++ seg.payload), by simp, ?_⟩
    intro cksum
    simp only [wire, headerWire, TCPHeader.fieldBytes, List.append_assoc]
    rfl
  have hcksum : seg.computedCksum c = (InternetChecksum.add { sum := c } (seg.wire 0)).value := by
    rw [computedCksum, wire, InternetChecksum.add_append]
  have hlen := length_wire hmin 0
  rw [hwire, List.length_append, List.length_append, length_u16, List.length_nil,
    Nat.zero_add] at hlen
  rw [SumZero, hwire]
  refine InternetChecksum.value_filled (by rw [hpre]) ?_ (by rw [hcksum, hwire])
  rw [hlen]
  exact hfits

theorem readFields_wire (hmax : seg.header.doff.toNat ≤ 15) {p : NetParser} {cksum : BitVec 16}
    (hleft : p.left = some (seg.wire cksum)) :
    (TCPHeader.readFields p).1 = seg.headerWith cksum := by
  rw [wire, headerWire, List.append_assoc] at hleft
  exact TCPHeader.readFields_written (h := seg.headerWith cksum) hmax hleft

theorem offsetNibble_wire (hmin : 5 ≤ seg.header.doff.toNat) (hmax : seg.header.doff.toNat ≤ 15)
    (cksum : BitVec 16) : offsetNibble (seg.wire cksum) = seg.header.doff.toNat := by
  have hleft := start_left (.ofString (seg.wire cksum))
  have hsize : 20 ≤ (seg.wire cksum).length := by
    rw [length_wire hmin]
    omega
  have hdoff := TCPHeader.readFields_doff hleft hsize
  rw [readFields_wire hmax hleft] at hdoff
  exact hdoff.symm

/-- **A SEGMENT IS READ BACK** as it was written, with the checksum that was computed. -/
theorem parse_serialize (hmin : 5 ≤ seg.header.doff.toNat) (hmax : seg.header.doff.toNat ≤ 15)
    (hfits : c.toNat + (4 * seg.header.doff.toNat + seg.payload.length) * 65280 < 2 ^ 32)
    {buffer : Buffer} (hbuffer : buffer.str = seg.wire (seg.computedCksum c)) :
    parse {} buffer c
      = (.noError, { header := seg.headerWith (seg.computedCksum c), payload := seg.payload }) := by
  have hdoff := offsetNibble_wire hmin hmax (seg.computedCksum c)
  have hbody : bodyAt buffer.str = 4 * seg.header.doff.toNat := by
    rw [bodyAt, hbuffer, hdoff, if_neg (Nat.not_lt.mpr hmin)]
  have hok : (parse {} buffer c).1 = .noError := by
    rw [parse_noError_iff, hbody, hbuffer, length_wire hmin]
    exact ⟨sumZero_wire hmin hfits, Nat.le_add_right _ _⟩
  obtain ⟨hheader, hpayload⟩ := parse_spec hok
  have hfields : (parse {} buffer c).2.header = seg.headerWith (seg.computedCksum c) := by
    rw [hheader]
    exact readFields_wire hmax (by rw [start_left, hbuffer])
  have hbytes : (parse {} buffer c).2.payload = seg.payload := by
    rw [hpayload, hbody, hbuffer, wire, List.drop_left' (length_headerWire hmin _)]
  rw [← hfields, ← hbytes, ← hok]

/-- The checksum that a header carries is not part of what is written. -/
theorem wire_congr {seg' : TCPSegment} {cksum : BitVec 16}
    (hheader : seg'.header = seg.headerWith cksum) (hpayload : seg'.payload = seg.payload)
    (c : BitVec 32) : seg'.wire (seg'.computedCksum c) = seg.wire (seg.computedCksum c) := by
  have hwire : seg'.headerWire = seg.headerWire := by
    funext v
    rw [headerWire, headerWire, headerWith, hheader]
    rfl
  rw [wire, wire, computedCksum, computedCksum, hwire, hpayload]

/-- **THERE AND BACK**: a segment with a data offset of 5 to 15 is written; what is written
    is taken and gives the segment with the checksum that was computed, and that one is
    written as the same bytes. -/
theorem segment_round_trip (seg : TCPSegment) (c : BitVec 32)
    (hmin : 5 ≤ seg.header.doff.toNat) (hmax : seg.header.doff.toNat ≤ 15)
    (hlen : 4 * seg.header.doff.toNat + seg.payload.length ≤ 65535) (hc : c.toNat < 2 ^ 20) :
    ∃ headerZero out, { seg.header with cksum := 0 }.serialize = .ok headerZero
      ∧ seg.serialize c = .ok out
      ∧ ∀ buffer : Buffer, buffer.str = out.concatenate →
        ∃ back again, parse {} buffer c = (.noError, back)
          ∧ back.header = { seg.header with
            cksum := ((InternetChecksum.add { sum := c } headerZero).add seg.payload).value }
          ∧ back.payload = seg.payload
          ∧ back.serialize c = .ok again ∧ again.concatenate = out.concatenate := by
  have hfits : c.toNat + (4 * seg.header.doff.toNat + seg.payload.length) * 65280 < 2 ^ 32 := by
    omega
  obtain ⟨out, hout, hwire⟩ := serialize_eq hmin c
  refine ⟨seg.headerWire 0, out, serialize_headerWith hmin 0, hout, ?_⟩
  intro buffer hbuffer
  rw [hwire] at hbuffer
  obtain ⟨again, hagain, hsame⟩ :=
    @serialize_eq ⟨seg.headerWith (seg.computedCksum c), seg.payload⟩ hmin c
  refine ⟨_, again, parse_serialize hmin hmax hfits hbuffer, rfl, rfl, hagain, ?_⟩
  rw [hsame, hwire]
  exact wire_congr rfl rfl c

/-- A data offset of six words, three bytes of payload. -/
theorem segment_round_trip_options :
    ∃ headerZero out, TCPHeader.serialize { doff := 6, psh := true } = .ok headerZero
      ∧ serialize { header := { doff := 6, psh := true }, payload := [1, 2, 3] } 77 = .ok out
      ∧ (parse {} (.ofString out.concatenate) 77).2.payload = [1, 2, 3] := by
  obtain ⟨headerZero, out, hzero, hout, hback⟩ := segment_round_trip
    { header := { doff := 6, psh := true }, payload := [1, 2, 3] } 77
    (by decide) (by decide) (by decide) (by decide)
  obtain ⟨back, again, hparse, -, hpayload, -⟩ := hback (.ofString out.concatenate) rfl
  refine ⟨headerZero, out, hzero, hout, ?_⟩
  rw [hparse]
  exact hpayload

/-! ## One wrong byte -/

/-- The checksum asks for a sum that is a multiple of all ones, and not empty. -/
theorem sumZero_iff {b : List Byte} (hc : c.toNat < 2 ^ 20) (hlen : b.length ≤ 65535) :
    SumZero c b ↔ 0 < c.toNat + pairSum false b ∧ (c.toNat + pairSum false b) % 65535 = 0 := by
  have hsum := (InternetChecksum.add_sum b { sum := c } (InternetChecksum.sum_fits hc hlen)).1
  rw [SumZero, InternetChecksum.value_eq_zero_iff, hsum]
  exact residue_eq_iff (by decide)

/-- **ONE WRONG BYTE IS FOUND**: of a string whose sum is right, no byte can be replaced by
    another such that it stays right. -/
theorem not_sumZero_of_replaced {pre post : List Byte} {x y : Byte} (hxy : x ≠ y)
    (hc : c.toNat < 2 ^ 20) (hlen : (pre ++ x :: post).length ≤ 65535)
    (hsum : SumZero c (pre ++ x :: post)) : ¬ SumZero c (pre ++ y :: post) := by
  intro hsum'
  have hlen' : (pre ++ y :: post).length ≤ 65535 := by
    rw [List.length_append, List.length_cons] at hlen ⊢
    exact hlen
  have hx := ((sumZero_iff hc hlen).mp hsum).2
  have hy := ((sumZero_iff hc hlen').mp hsum').2
  exact pairSum_byte_ne hxy c.toNat false pre post (hx.trans hy.symm)

/-- **A CORRUPTED SEGMENT IS REFUSED**, wherever the one wrong byte is and whatever stands
    in the segment that it is read into. -/
theorem corruption_detected (seg seg' : TCPSegment) (buffer buffer' : Buffer) (c : BitVec 32)
    (hlen : buffer.str.length ≤ 65535) (hc : c.toNat < 2 ^ 20)
    (hok : (seg.parse buffer c).1 = .noError) (i : Nat) (hi : i < buffer.str.length) (v : Byte)
    (hv : v ≠ buffer.str[i]) (hbuffer : buffer'.str = buffer.str.set i v) :
    (seg'.parse buffer' c).1 = .badChecksum := by
  have hsum : SumZero c buffer.str := by
    by_contra hno
    rw [parse_of_not_sumZero hno] at hok
    exact ParseResult.noConfusion hok
  -- the byte and what stands before and behind it
  have hsplit : buffer.str = buffer.str.take i ++ buffer.str[i] :: buffer.str.drop (i + 1) := by
    rw [List.getElem_cons_drop, List.take_append_drop]
  rw [hsplit] at hsum
  have hbad : ¬ SumZero c buffer'.str := by
    rw [hbuffer, List.set_eq_take_append_cons_drop, if_pos hi]
    exact not_sumZero_of_replaced (Ne.symm hv) hc (hsplit ▸ hlen) hsum
  rw [parse_of_not_sumZero hbad]

theorem corruption_detected_in_port :
    (parse {} (.ofString [0, 0, 0, 0, 0, 0, 0, 0, 0, 0, 0, 0, 80, 0, 0, 0, 175, 255, 0, 0]) 0).1
        = .noError
      ∧ (parse {} (.ofString [0, 0, 0, 1, 0, 0, 0, 0, 0, 0, 0, 0, 80, 0, 0, 0, 175, 255, 0, 0])
        0).1 = .badChecksum := by
  have hok : (parse {} (.ofString
      [0, 0, 0, 0, 0, 0, 0, 0, 0, 0, 0, 0, 80, 0, 0, 0, 175, 255, 0, 0]) 0).1 = .noError := by
    decide
  exact ⟨hok, corruption_detected {} {} _ _ 0 (by decide) (by decide) hok 3 (by decide) 1
    (by decide) rfl⟩

end TCPSegment

end SpongeSegment
