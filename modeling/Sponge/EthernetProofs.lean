import Mathlib.Data.Vector.Defs
import Sponge.IPv4Proofs

/-! # Frames and address resolution — `ethernet_header`, `ethernet_frame`, `arp_message`

    What travels on a link: frames that carry a datagram, or an ARP message, which
    asks for the Ethernet address of an IP address or answers.  Other combinations
    of the fields of an ARP message are not supported: they are not parsed, and
    writing one raises (`serialize_ok_iff`).

    Every string that is long enough is what some message, or some header, is written as;
    so it is enough to say what is read from one that was written (`parse_written`).  For
    ARP messages that settles which strings are taken (`message_acceptance`).  A frame is
    taken from any string: `EthernetFrame::parse` answers with the parser's error, and of
    a string shorter than a header the parser knows nothing (`frame_acceptance_iff`). -/

namespace SpongeEthernet

open SpongeByteStream SpongeBuffer SpongeParser SpongeIPv4

/-- Six bytes. -/
abbrev EthernetAddress := List.Vector Byte 6

/-- `ETHERNET_BROADCAST` -/
def ethernetBroadcast : EthernetAddress := .replicate 6 0xff

structure EthernetHeader where
  dst : EthernetAddress := .replicate 6 0
  src : EthernetAddress := .replicate 6 0
  type : BitVec 16 := 0
deriving DecidableEq

namespace EthernetHeader

/-- `TYPE_IPv4` -/
def typeIPv4 : BitVec 16 := 0x800

/-- `TYPE_ARP` -/
def typeARP : BitVec 16 := 0x806

theorem typeARP_ne_typeIPv4 : typeARP ≠ typeIPv4 := by decide

end EthernetHeader

structure EthernetFrame where
  header : EthernetHeader := {}
  payload : BufferList := {}
deriving DecidableEq

/-- The message, with the source's defaults. -/
structure ARPMessage where
  hardwareType : BitVec 16 := 1
  protocolType : BitVec 16 := EthernetHeader.typeIPv4
  hardwareAddressSize : BitVec 8 := 6
  protocolAddressSize : BitVec 8 := 4
  opcode : BitVec 16 := 0
  senderEthernetAddress : EthernetAddress := .replicate 6 0
  senderIpAddress : BitVec 32 := 0
  targetEthernetAddress : EthernetAddress := .replicate 6 0
  targetIpAddress : BitVec 32 := 0
deriving DecidableEq

namespace ARPMessage

/-- `LENGTH` -/
def length : Nat := 28

/-- `TYPE_ETHERNET` -/
def typeEthernet : BitVec 16 := 1

/-- `OPCODE_REQUEST` -/
def opcodeRequest : BitVec 16 := 1

/-- `OPCODE_REPLY` -/
def opcodeReply : BitVec 16 := 2

def supported (m : ARPMessage) : Bool :=
  m.hardwareType == typeEthernet && m.protocolType == EthernetHeader.typeIPv4
    && m.hardwareAddressSize == 6 && m.protocolAddressSize == 4
    && (m.opcode == opcodeRequest || m.opcode == opcodeReply)

/-- The loop that reads the bytes of an address. -/
def readBytes : (n : Nat) → NetParser → List.Vector Byte n × NetParser
  | 0, p => (.nil, p)
  | n + 1, p =>
      let (byte, p) := p.u8
      let (rest, p) := readBytes n p
      (.cons ⟨byte⟩ rest, p)

/-- The fields are read into the message up to the check that fails. -/
def parse (m : ARPMessage) (buffer : Buffer) : ParseResult × ARPMessage :=
  let p : NetParser := { buffer := buffer }
  if p.buffer.size < length then (.packetTooShort, m)
  else
    let (hardwareType, p) := p.u16
    let (protocolType, p) := p.u16
    let (hardwareAddressSize, p) := p.u8
    let (protocolAddressSize, p) := p.u8
    let (opcode, p) := p.u16
    let m :=
      { m with
        hardwareType := hardwareType
        protocolType := protocolType
        hardwareAddressSize := hardwareAddressSize
        protocolAddressSize := protocolAddressSize
        opcode := opcode }
    if !m.supported then (.unsupported, m)
    else
      let (senderEthernetAddress, p) := readBytes 6 p
      let (senderIpAddress, p) := p.u32
      let (targetEthernetAddress, p) := readBytes 6 p
      let (targetIpAddress, p) := p.u32
      (p.error,
        { m with
          senderEthernetAddress := senderEthernetAddress
          senderIpAddress := senderIpAddress
          targetEthernetAddress := targetEthernetAddress
          targetIpAddress := targetIpAddress })

/-- The loop that writes the bytes of an address. -/
def writeBytes (s : List Byte) (address : EthernetAddress) : List Byte :=
  address.toList.foldl (fun s byte => NetUnparser.u8 s byte.toBitVec) s

def serialize (m : ARPMessage) : Except String (List Byte) :=
  if !m.supported then
    .error ("ARPMessage::serialize(): unsupported field combination "
      ++ "(must be Ethernet/IP, and request or reply)")
  else
    let ret := NetUnparser.u16 [] m.hardwareType
    let ret := NetUnparser.u16 ret m.protocolType
    let ret := NetUnparser.u8 ret m.hardwareAddressSize
    let ret := NetUnparser.u8 ret m.protocolAddressSize
    let ret := NetUnparser.u16 ret m.opcode
    let ret := writeBytes ret m.senderEthernetAddress
    let ret := NetUnparser.u32 ret m.senderIpAddress
    let ret := writeBytes ret m.targetEthernetAddress
    let ret := NetUnparser.u32 ret m.targetIpAddress
    .ok ret

/-- **WHICH MESSAGES CAN BE WRITTEN**. -/
theorem serialize_ok_iff (m : ARPMessage) :
    (∃ out, m.serialize = .ok out) ↔ m.supported = true := by
  rw [serialize]
  cases m.supported with
  | false => exact ⟨fun ⟨_, hout⟩ => (nomatch hout), fun h => (nomatch h)⟩
  | true => exact ⟨fun _ => rfl, fun _ => ⟨_, rfl⟩⟩

/-! ## Written and read back -/

theorem u8_byte (s : List Byte) (byte : Byte) :
    NetUnparser.u8 s byte.toBitVec = s ++ [byte] := by
  simp [NetUnparser.u8, NetUnparser.unparseInt, NetUnparser.theByte]

/-- An address is written as its bytes. -/
theorem writeBytes_eq (s : List Byte) (address : EthernetAddress) :
    writeBytes s address = s ++ address.toList := by
  have hgo : ∀ (l : List Byte) (s : List Byte),
      l.foldl (fun s byte => NetUnparser.u8 s byte.toBitVec) s = s ++ l := by
    intro l
    induction l with
    | nil => simp
    | cons byte l ih =>
        intro s
        rw [List.foldl_cons, ih, u8_byte, List.append_assoc, List.singleton_append]
  exact hgo address.toList s

/-- The bytes of an address are read back. -/
theorem readBytes_written : ∀ (n : Nat) {p : NetParser} {address : List.Vector Byte n}
    {rest : List Byte}, p.left = some (address.toList ++ rest) →
    ∃ q, readBytes n p = (address, q) ∧ q.left = some rest := by
  intro n
  induction n with
  | zero =>
      intro p address rest hleft
      rw [address.eq_nil] at hleft ⊢
      exact ⟨p, rfl, hleft⟩
  | succ n ih =>
      intro p address rest hleft
      rw [← address.cons_head_tail, List.Vector.toList_cons, List.cons_append,
        ← List.singleton_append, ← List.nil_append [address.head], ← u8_byte] at hleft
      obtain ⟨p', hbyte, hleft⟩ := u8_written hleft
      obtain ⟨q, htail, hleft⟩ := ih hleft
      refine ⟨q, ?_, hleft⟩
      rw [readBytes, hbyte]
      dsimp only
      rw [htail]
      exact congrArg (·, q) address.cons_head_tail

/-- The fields in their order. -/
def fieldBytes (m : ARPMessage) : List Byte :=
  NetUnparser.u16 [] m.hardwareType ++ (NetUnparser.u16 [] m.protocolType
    ++ (NetUnparser.u8 [] m.hardwareAddressSize ++ (NetUnparser.u8 [] m.protocolAddressSize
    ++ (NetUnparser.u16 [] m.opcode ++ (m.senderEthernetAddress.toList
    ++ (NetUnparser.u32 [] m.senderIpAddress ++ (m.targetEthernetAddress.toList
    ++ NetUnparser.u32 [] m.targetIpAddress)))))))

theorem length_fieldBytes (m : ARPMessage) : m.fieldBytes.length = 28 := by
  simp [fieldBytes]

theorem serialize_eq {m : ARPMessage} (h : m.supported = true) :
    m.serialize = .ok m.fieldBytes := by
  rw [serialize, h]
  simp only [Bool.not_true, Bool.false_eq_true, if_false, writeBytes_eq, fieldBytes,
    NetUnparser.u8, NetUnparser.u16, NetUnparser.u32, NetUnparser.unparseInt, List.nil_append,
    List.append_assoc]

/-- **WHAT IS READ** from the fields of a message and anything behind them: the message,
    if it is supported, else the five fields before the check. -/
theorem parse_written (m m₀ : ARPMessage) {buffer : Buffer} {rest : List Byte}
    (hbuffer : buffer.str = m.fieldBytes ++ rest) :
    m₀.parse buffer
      = if m.supported then (.noError, m)
        else (.unsupported,
          { m₀ with
            hardwareType := m.hardwareType
            protocolType := m.protocolType
            hardwareAddressSize := m.hardwareAddressSize
            protocolAddressSize := m.protocolAddressSize
            opcode := m.opcode }) := by
  have hsize : ¬ buffer.size < length := by
    rw [Buffer.size, hbuffer, List.length_append, length_fieldBytes, length]
    omega
  have hleft := start_left buffer
  rw [hbuffer] at hleft
  simp only [fieldBytes, List.append_assoc] at hleft
  obtain ⟨p₁, htype, hleft⟩ := u16_written hleft
  obtain ⟨p₂, hprotocol, hleft⟩ := u16_written hleft
  obtain ⟨p₃, hhsize, hleft⟩ := u8_written hleft
  obtain ⟨p₄, hpsize, hleft⟩ := u8_written hleft
  obtain ⟨p₅, hopcode, hleft⟩ := u16_written hleft
  obtain ⟨p₆, hsender, hleft⟩ := readBytes_written 6 hleft
  obtain ⟨p₇, hsenderIp, hleft⟩ := u32_written hleft
  obtain ⟨p₈, htarget, hleft⟩ := readBytes_written 6 hleft
  obtain ⟨p₉, htargetIp, hleft⟩ := u32_written hleft
  have herror := (NetParser.left_eq_some_iff.mp hleft).1
  -- the check looks at the five fields that are read before it
  have hsupported : supported
      { m₀ with
        hardwareType := m.hardwareType
        protocolType := m.protocolType
        hardwareAddressSize := m.hardwareAddressSize
        protocolAddressSize := m.protocolAddressSize
        opcode := m.opcode } = m.supported := rfl
  rw [parse, if_neg hsize]
  simp only [htype, hprotocol, hhsize, hpsize, hopcode, hsupported]
  cases m.supported with
  | false => simp only [Bool.not_false, if_true, Bool.false_eq_true, if_false]
  | true =>
      simp only [Bool.not_true, Bool.false_eq_true, if_false, if_true, hsender, hsenderIp,
        htarget, htargetIp, herror]

/-- **A MESSAGE IS READ BACK**, whatever stood in the one it is read into. -/
theorem parse_serialize {m : ARPMessage} (h : m.supported = true) (m₀ : ARPMessage)
    {buffer : Buffer} (hbuffer : buffer.str = m.fieldBytes) :
    m₀.parse buffer = (.noError, m) := by
  rw [parse_written m m₀ (hbuffer.trans (List.append_nil _).symm), if_pos h]

/-! ## Which byte strings are taken -/

/-- A string that is long enough begins with an address. -/
theorem exists_address {s : List Byte} {n : Nat} (h : n + 6 ≤ s.length) :
    ∃ (address : EthernetAddress) (rest : List Byte),
      s = address.toList ++ rest ∧ n ≤ rest.length := by
  refine ⟨⟨s.take 6, List.length_take_of_le (by omega)⟩, s.drop 6,
    (List.take_append_drop 6 s).symm, ?_⟩
  rw [List.length_drop]
  omega

/-- Every string of 28 bytes is the fields of some message. -/
theorem exists_fieldBytes {s : List Byte} (h : 28 ≤ s.length) :
    ∃ (m : ARPMessage) (rest : List Byte), s = m.fieldBytes ++ rest := by
  obtain ⟨hardwareType, s, rfl, h₂⟩ := exists_u16 (n := 26) h
  obtain ⟨protocolType, s, rfl, h₄⟩ := exists_u16 (n := 24) h₂
  obtain ⟨hardwareAddressSize, s, rfl, h₅⟩ := exists_u8 (n := 23) h₄
  obtain ⟨protocolAddressSize, s, rfl, h₆⟩ := exists_u8 (n := 22) h₅
  obtain ⟨opcode, s, rfl, h₈⟩ := exists_u16 (n := 20) h₆
  obtain ⟨senderEthernetAddress, s, rfl, h₁₄⟩ := exists_address (n := 14) h₈
  obtain ⟨senderIpAddress, s, rfl, h₁₈⟩ := exists_u32 (n := 10) h₁₄
  obtain ⟨targetEthernetAddress, s, rfl, h₂₄⟩ := exists_address (n := 4) h₁₈
  obtain ⟨targetIpAddress, s, rfl, -⟩ := exists_u32 (n := 0) h₂₄
  refine ⟨⟨hardwareType, protocolType, hardwareAddressSize, protocolAddressSize, opcode,
    senderEthernetAddress, senderIpAddress, targetEthernetAddress, targetIpAddress⟩, s, ?_⟩
  simp only [fieldBytes, List.append_assoc]

/-- The first eight bytes: which kind of message it is. -/
def kindBytes (hardwareType protocolType : BitVec 16)
    (hardwareAddressSize protocolAddressSize : BitVec 8) (opcode : BitVec 16) : List Byte :=
  NetUnparser.u16 [] hardwareType ++ (NetUnparser.u16 [] protocolType
    ++ (NetUnparser.u8 [] hardwareAddressSize ++ (NetUnparser.u8 [] protocolAddressSize
    ++ NetUnparser.u16 [] opcode)))

theorem kindBytes_inj {a a' b b' : BitVec 16} {c c' d d' : BitVec 8} {e e' : BitVec 16} :
    kindBytes a b c d e = kindBytes a' b' c' d' e'
      ↔ a = a' ∧ b = b' ∧ c = c' ∧ d = d' ∧ e = e' := by
  constructor
  · intro h
    obtain ⟨ha, h⟩ := List.append_inj h (by simp)
    obtain ⟨hb, h⟩ := List.append_inj h (by simp)
    obtain ⟨hc, h⟩ := List.append_inj h (by simp)
    obtain ⟨hd, he⟩ := List.append_inj h (by simp)
    exact ⟨unparseInt_inj.mp ha, unparseInt_inj.mp hb, unparseInt_inj.mp hc,
      unparseInt_inj.mp hd, unparseInt_inj.mp he⟩
  · rintro ⟨rfl, rfl, rfl, rfl, rfl⟩
    rfl

theorem take_fieldBytes (m : ARPMessage) (rest : List Byte) :
    (m.fieldBytes ++ rest).take 8
      = kindBytes m.hardwareType m.protocolType m.hardwareAddressSize m.protocolAddressSize
        m.opcode := by
  have hlen : (kindBytes m.hardwareType m.protocolType m.hardwareAddressSize
      m.protocolAddressSize m.opcode).length = 8 := by
    simp [kindBytes]
  have hsplit : m.fieldBytes ++ rest
      = kindBytes m.hardwareType m.protocolType m.hardwareAddressSize m.protocolAddressSize
          m.opcode
        ++ (m.senderEthernetAddress.toList ++ (NetUnparser.u32 [] m.senderIpAddress
          ++ (m.targetEthernetAddress.toList ++ (NetUnparser.u32 [] m.targetIpAddress
          ++ rest)))) := by
    simp only [fieldBytes, kindBytes, List.append_assoc]
  rw [hsplit, List.take_left' hlen]

/-- Ethernet and IPv4, addresses of six and four bytes, a request or a reply. -/
def KnownKind (b : List Byte) : Prop :=
  b.take 8 = [0, 1, 8, 0, 6, 4, 0, 1] ∨ b.take 8 = [0, 1, 8, 0, 6, 4, 0, 2]

instance (b : List Byte) : Decidable (KnownKind b) := inferInstanceAs (Decidable (_ ∨ _))

/-- What is supported can be told from the first eight bytes. -/
theorem knownKind_iff (m : ARPMessage) (rest : List Byte) :
    KnownKind (m.fieldBytes ++ rest) ↔ m.supported = true := by
  have hrequest : ([0, 1, 8, 0, 6, 4, 0, 1] : List Byte) = kindBytes 1 0x800 6 4 1 := by decide
  have hreply : ([0, 1, 8, 0, 6, 4, 0, 2] : List Byte) = kindBytes 1 0x800 6 4 2 := by decide
  have hsupported : m.supported = true ↔ m.hardwareType = 1 ∧ m.protocolType = 0x800
      ∧ m.hardwareAddressSize = 6 ∧ m.protocolAddressSize = 4
      ∧ (m.opcode = 1 ∨ m.opcode = 2) := by
    simp [supported, typeEthernet, EthernetHeader.typeIPv4, opcodeRequest, opcodeReply,
      and_assoc]
  rw [KnownKind, take_fieldBytes, hrequest, hreply, kindBytes_inj, kindBytes_inj, hsupported]
  constructor
  · rintro (⟨ha, hb, hc, hd, he⟩ | ⟨ha, hb, hc, hd, he⟩)
    · exact ⟨ha, hb, hc, hd, Or.inl he⟩
    · exact ⟨ha, hb, hc, hd, Or.inr he⟩
  · rintro ⟨ha, hb, hc, hd, he | he⟩
    · exact Or.inl ⟨ha, hb, hc, hd, he⟩
    · exact Or.inr ⟨ha, hb, hc, hd, he⟩

theorem parse_short {buffer : Buffer} (hsize : ¬ 28 ≤ buffer.str.length) (m₀ : ARPMessage) :
    m₀.parse buffer = (.packetTooShort, m₀) := by
  rw [parse]
  exact if_pos (Nat.lt_of_not_le hsize)

/-- **ARP MESSAGES ON THE WIRE**: a string is taken iff it has 28 bytes and is of a known
    kind; the message that is read can be written, as the first 28 bytes; and a supported
    message is read back, whatever follows it and whatever stood there before. -/
theorem message_acceptance (m₀ : ARPMessage) (buffer : Buffer) :
    ((m₀.parse buffer).1 = .noError ↔ 28 ≤ buffer.str.length ∧ KnownKind buffer.str)
      ∧ ((m₀.parse buffer).1 = .noError →
        (m₀.parse buffer).2.serialize = .ok (buffer.str.take 28))
      ∧ ∀ m : ARPMessage, m.supported = true → ∃ out, m.serialize = .ok out
        ∧ ∀ pad, buffer.str = out ++ pad → m₀.parse buffer = (.noError, m) := by
  refine ⟨?_, ?_, ?_⟩
  · by_cases hsize : 28 ≤ buffer.str.length
    · obtain ⟨m, rest, hbytes⟩ := exists_fieldBytes hsize
      rw [parse_written m m₀ hbytes, and_iff_right hsize, hbytes, knownKind_iff]
      cases m.supported with
      | false => exact iff_of_false ParseResult.noConfusion Bool.false_ne_true
      | true => exact iff_of_true rfl rfl
    · rw [parse_short hsize]
      exact iff_of_false ParseResult.noConfusion fun hok => hsize hok.1
  · intro hok
    by_cases hsize : 28 ≤ buffer.str.length
    · obtain ⟨m, rest, hbytes⟩ := exists_fieldBytes hsize
      rw [parse_written m m₀ hbytes] at hok ⊢
      by_cases hsupported : m.supported = true
      · rw [if_pos hsupported, serialize_eq hsupported, hbytes,
          List.take_left' m.length_fieldBytes]
      · rw [if_neg hsupported] at hok
        exact ParseResult.noConfusion hok
    · rw [parse_short hsize] at hok
      exact ParseResult.noConfusion hok
  · intro m hm
    refine ⟨m.fieldBytes, serialize_eq hm, fun pad hbuffer => ?_⟩
    rw [parse_written m m₀ hbuffer, if_pos hm]

end ARPMessage

/-! ## Frames -/

namespace EthernetHeader

/-- `LENGTH` -/
def length : Nat := 14

/-- A short string is refused by the answer alone: the parser has no error then. -/
def parse (h : EthernetHeader) (p : NetParser) : ParseResult × EthernetHeader × NetParser :=
  if p.buffer.size < length then (.packetTooShort, h, p)
  else
    let (dst, p) := ARPMessage.readBytes 6 p
    let (src, p) := ARPMessage.readBytes 6 p
    let (type, p) := p.u16
    (p.error, { dst := dst, src := src, type := type }, p)

def serialize (h : EthernetHeader) : List Byte :=
  let ret := ARPMessage.writeBytes [] h.dst
  let ret := ARPMessage.writeBytes ret h.src
  NetUnparser.u16 ret h.type

theorem serialize_eq (h : EthernetHeader) :
    h.serialize = h.dst.toList ++ (h.src.toList ++ NetUnparser.u16 [] h.type) := by
  simp only [serialize, ARPMessage.writeBytes_eq, NetUnparser.u16, NetUnparser.unparseInt,
    List.nil_append, List.append_assoc]

theorem length_serialize (h : EthernetHeader) : h.serialize.length = 14 := by
  simp [serialize_eq]

/-- **A HEADER IS READ BACK**, whatever stood in the one it is read into. -/
theorem parse_written (h h₀ : EthernetHeader) {p : NetParser} {rest : List Byte}
    (hleft : p.left = some (h.serialize ++ rest)) :
    ∃ q, h₀.parse p = (.noError, h, q) ∧ q.left = some rest := by
  have hsize : ¬ p.buffer.size < length := by
    rw [Buffer.size, (NetParser.left_eq_some_iff.mp hleft).2, List.length_append,
      length_serialize, length]
    omega
  rw [serialize_eq, List.append_assoc, List.append_assoc] at hleft
  obtain ⟨p₁, hdst, hleft⟩ := ARPMessage.readBytes_written 6 hleft
  obtain ⟨p₂, hsrc, hleft⟩ := ARPMessage.readBytes_written 6 hleft
  obtain ⟨q, htype, hleft⟩ := u16_written hleft
  refine ⟨q, ?_, hleft⟩
  rw [parse, if_neg hsize]
  simp only [hdst, hsrc, htype, (NetParser.left_eq_some_iff.mp hleft).1]

/-- Every string of 14 bytes is some header. -/
theorem exists_serialize {s : List Byte} (h : 14 ≤ s.length) :
    ∃ (header : EthernetHeader) (rest : List Byte), s = header.serialize ++ rest := by
  obtain ⟨dst, s, rfl, h₆⟩ := ARPMessage.exists_address (n := 8) h
  obtain ⟨src, s, rfl, h₁₂⟩ := ARPMessage.exists_address (n := 2) h₆
  obtain ⟨type, s, rfl, -⟩ := exists_u16 (n := 0) h₁₂
  refine ⟨⟨dst, src, type⟩, s, ?_⟩
  rw [serialize_eq, List.append_assoc, List.append_assoc]

end EthernetHeader

namespace EthernetFrame

/-- What the header's parser answers is not looked at, only the parser's error. -/
def parse (f : EthernetFrame) (buffer : Buffer) : ParseResult × EthernetFrame :=
  let (_, header, p) := f.header.parse { buffer := buffer }
  (p.error, { header := header, payload := .ofBuffer p.buffer })

def serialize (f : EthernetFrame) : BufferList :=
  (BufferList.ofString f.header.serialize).append f.payload

theorem concatenate_serialize (f : EthernetFrame) :
    f.serialize.concatenate = f.header.serialize ++ f.payload.concatenate := by
  rw [serialize, BufferList.concatenate_append, BufferList.concatenate_ofString]

/-- **A FRAME IS READ BACK**: the header that was written, and what follows it. -/
theorem parse_written (h : EthernetHeader) (f₀ : EthernetFrame) {buffer : Buffer}
    {rest : List Byte} (hbuffer : buffer.str = h.serialize ++ rest) :
    ∃ f : EthernetFrame, f₀.parse buffer = (.noError, f) ∧ f.header = h
      ∧ f.payload.concatenate = rest := by
  obtain ⟨q, hparse, hleft⟩ := EthernetHeader.parse_written h f₀.header
    (hbuffer ▸ start_left buffer)
  obtain ⟨herror, hrest⟩ := NetParser.left_eq_some_iff.mp hleft
  refine ⟨{ header := h, payload := .ofBuffer q.buffer }, ?_, rfl, hrest⟩
  rw [parse, hparse]
  dsimp only
  rw [herror]

/-- **A SHORT STRING IS TAKEN**, as a payload behind the header that stood there before. -/
theorem parse_short {buffer : Buffer} (hsize : buffer.str.length < 14) (f₀ : EthernetFrame) :
    f₀.parse buffer = (.noError, { header := f₀.header, payload := .ofBuffer buffer }) := by
  have hparse : f₀.header.parse { buffer := buffer }
      = (.packetTooShort, f₀.header, { buffer := buffer }) := by
    rw [EthernetHeader.parse]
    exact if_pos hsize
  rw [parse, hparse]

/-- **ACCEPTANCE, EXACTLY**: a byte string is taken iff it is long enough for a header, and
    is written again as it was, iff it is long enough; a frame that was written is always
    read back. -/
theorem frame_acceptance_iff (buffer : Buffer) :
    ((((parse {} buffer).1 = .noError ↔ 14 ≤ buffer.str.length)
        ∧ ((parse {} buffer).1 = .noError →
          (parse {} buffer).2.serialize.concatenate = buffer.str))
      ↔ 14 ≤ buffer.str.length)
    ∧ ∀ f : EthernetFrame, buffer.str = f.serialize.concatenate →
      ∃ back, parse {} buffer = (.noError, back) ∧ back.header = f.header
        ∧ back.payload.concatenate = f.payload.concatenate := by
  constructor
  · by_cases hsize : 14 ≤ buffer.str.length
    · obtain ⟨h, rest, hbytes⟩ := EthernetHeader.exists_serialize hsize
      obtain ⟨f, hparse, hheader, hpayload⟩ := parse_written h {} hbytes
      refine iff_of_true ⟨?_, fun _ => ?_⟩ hsize
      · rw [hparse]
        exact iff_of_true rfl hsize
      · rw [hparse, concatenate_serialize, hheader, hpayload, hbytes]
    · refine iff_of_false (fun hclaim => hsize (hclaim.1.mp ?_)) hsize
      rw [parse_short (Nat.lt_of_not_le hsize)]
  · intro f hbuffer
    exact parse_written f.header {} (hbuffer.trans f.concatenate_serialize)

/-- **THE EMPTY STRING IS TAKEN** for a frame. -/
theorem empty_frame_taken :
    ¬ ∀ b : List Byte,
      ((parse {} (.ofString b)).1 = .noError ↔ 14 ≤ b.length)
        ∧ ((parse {} (.ofString b)).1 = .noError →
          (parse {} (.ofString b)).2.serialize.concatenate = b) := by
  intro hall
  exact absurd (hall []).1 (by decide)

end EthernetFrame

end SpongeEthernet
