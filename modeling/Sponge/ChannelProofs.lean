import Sponge.AdapterProofs
import Sponge.DescriptorProofs
import Sponge.InterfaceProofs

/-! # Channels for segments — `fd_adapter`, `tuntap_adapter`, `lossy_fd_adapter`

    An adapter turns segments into datagrams on a descriptor and back.  There are three:
    in UDP payloads, in IPv4 datagrams on a TUN device, and in IPv4 datagrams in Ethernet
    frames on a TAP device, where a datagram may wait until its next hop is known.  Around
    each of them another one may drop what is read or written.

    `Lawful` is what a program on top of an adapter may rely on: a call reads at most one
    datagram, and every datagram that is ever written is read, if at all, as one of the
    segments that were given to `write`, up to its ports and its checksum.  All the
    adapters are lawful, and `frames_faithful` says it for whole runs of the last one. -/

namespace SpongeChannel

open SpongeByteStream SpongeBuffer SpongeParser SpongeIPv4 SpongeSegment SpongeEthernet
open SpongeInterface SpongeAdapter SpongeDescriptor RaiseRule RunRule Keyed

/-! ## Datagram sockets -/

/-- The system calls of a datagram socket, for any kernel. -/
structure DatagramKernel (κ φ : Type) where
  recvfrom : κ → φ → Nat → Except String ((Address × List Byte) × κ)
  sendmsg : κ → φ → Address → List (List Byte × Nat) → Except String (Nat × κ)

/-- The kernel, with a record of the calls that it has answered. -/
def DatagramKernel.recording {κ φ : Type} (D : DatagramKernel κ φ) :
    DatagramKernel (κ × List (Call φ)) φ where
  recvfrom k fd mtu :=
    (D.recvfrom k.1 fd mtu).map fun r => (r.1, r.2, k.2 ++ [.read fd r.1.2])
  sendmsg k fd destination iovecs :=
    (D.sendmsg k.1 fd destination iovecs).map fun r =>
      (r.1, r.2, k.2 ++ [.write fd ((iovecs.flatMap Prod.fst).take r.1)])

namespace UDPSocket

variable {κ φ : Type} [DecidableEq φ] (D : DatagramKernel κ φ)

def mtu : Nat := 65536

/-- `UDPSocket::recv`: the source address and the payload. -/
def recv (w : World κ φ) (fd : φ) : Except String ((Address × List Byte) × World κ φ) := do
  let (datagram, kernel) ← D.recvfrom w.kernel fd mtu
  if datagram.2.length > mtu then .error "recvfrom (oversized datagram)"
  else .ok (datagram, { w with kernel := kernel }.registerRead fd)

/-- `UDPSocket::sendto` -/
def sendto (w : World κ φ) (fd : φ) (destination : Address) (payload : BufferViewList) :
    Except String (World κ φ) := do
  let (bytesSent, kernel) ← D.sendmsg w.kernel fd destination payload.asIovecs
  if bytesSent ≠ payload.size then .error "datagram payload too big for sendmsg()"
  else .ok ({ w with kernel := kernel }.registerWrite fd)

end UDPSocket

/-! ## The adapters -/

/-- What `TCPSpongeSocket` asks of its adapter. -/
structure Adapter (κ φ A : Type) where
  read : World κ φ → A → Except String (Option TCPSegment × A × World κ φ)
  write : World κ φ → A → TCPSegment → Except String (A × World κ φ)
  tick : World κ φ → A → Nat → Except String (A × World κ φ)
  setConfig : A → FdAdapterConfig → A
  setListening : A → Bool → A

/-- The state of `FdAdapterBase`, which all the adapters have. -/
abbrev FdAdapterBase := TCPOverIPv4Adapter

/-- The limit of a read when none is given. -/
def sizeMax : Nat := 2 ^ 64 - 1

/-- An answer together with the state that the call leaves. -/
def withState {α β : Type} (r : Except String α × β) : Except String (α × β) :=
  r.1.map fun x => (x, r.2)

section Adapters

variable {κ φ : Type} [DecidableEq φ]

/-- `TCPOverUDPSocketAdapter` -/
def overUDP (D : DatagramKernel κ φ) (fd : φ) : Adapter κ φ FdAdapterBase where
  read w a := do
    let ((source, payload), w) ← UDPSocket.recv D w fd
    if !a.listening && source != a.config.destination then .ok (none, a, w)
    else
      let parsed := TCPSegment.parse {} (.ofString payload) 0
      if parsed.1 ≠ .noError then .ok (none, a, w)
      else if a.listening then
        if parsed.2.header.syn && !parsed.2.header.rst then
          .ok (some parsed.2,
            { config := { a.config with destination := source }, listening := false }, w)
        else .ok (none, a, w)
      else .ok (some parsed.2, a, w)
  write w a seg := do
    let payload ← (a.withPorts seg).serialize 0
    let w ← UDPSocket.sendto D w fd a.config.destination (.ofBufferList payload)
    .ok (a, w)
  tick w a _ := .ok (a, w)
  setConfig a config := { a with config := config }
  setListening a l := { a with listening := l }

variable (K : Kernel κ φ) (fd : φ)

/-- `TCPOverIPv4OverTunFdAdapter` -/
def overTun : Adapter κ φ FdAdapterBase where
  read w a := do
    let (bytes, w) ← FileDescriptor.read K w fd sizeMax
    let parsed := IPv4Datagram.parse {} (.ofString bytes)
    if parsed.1 ≠ .noError then .ok (none, a, w)
    else do
      let (seg, a) ← withState (a.unwrapTcpInIp parsed.2)
      .ok (seg, a, w)
  write w a seg := do
    let datagram ← (a.wrapTcpInIp seg).1
    let bytes ← datagram.serialize
    let (_, w) ← FileDescriptor.write K w fd (.ofBufferList bytes) true
    .ok (a, w)
  tick w a _ := .ok (a, w)
  setConfig a config := { a with config := config }
  setListening a l := { a with listening := l }

/-- The state of `TCPOverIPv4OverEthernetAdapter`. -/
structure EthernetAdapter where
  base : FdAdapterBase := {}
  interface : NetworkInterface
  nextHop : Address

/-- One frame is written. -/
def writeFrame (w : World κ φ) (frame : EthernetFrame) : Except String (World κ φ) :=
  (FileDescriptor.write K w fd (.ofBufferList frame.serialize) true).map Prod.snd

/-- `send_pending` -/
def sendPending (w : World κ φ) (n : NetworkInterface) :
    Except String (NetworkInterface × World κ φ) := do
  let w ← n.framesOut.foldlM (writeFrame K fd) w
  .ok ({ n with framesOut := [] }, w)

/-- The constructor sends a frame that nobody reads. -/
def EthernetAdapter.new (w : World κ φ) (ethernetAddress : EthernetAddress) (ipAddress : Address)
    (nextHop : Address) : Except String (EthernetAdapter × World κ φ) := do
  let w ← writeFrame K fd w {}
  .ok ({ interface :=
          { ethernetAddress := ethernetAddress, ipAddress := ipAddress.ipv4Numeric }
         nextHop := nextHop }, w)

/-- `TCPOverIPv4OverEthernetAdapter` -/
def overEthernet : Adapter κ φ EthernetAdapter where
  read w a := do
    let (bytes, w) ← FileDescriptor.read K w fd sizeMax
    let parsed := EthernetFrame.parse {} (.ofString bytes)
    if parsed.1 ≠ .noError then .ok (none, a, w)
    else do
      let (ipDgram, interface) ← withState (a.interface.recvFrame parsed.2)
      let (interface, w) ← sendPending K fd w interface
      match ipDgram with
      | some ipDgram => do
          let (seg, base) ← withState (a.base.unwrapTcpInIp ipDgram)
          .ok (seg, { a with base := base, interface := interface }, w)
      | none => .ok (none, { a with interface := interface }, w)
  write w a seg := do
    let datagram ← (a.base.wrapTcpInIp seg).1
    let (_, interface) ← withState (a.interface.sendDatagram datagram a.nextHop.ipv4Numeric)
    let (interface, w) ← sendPending K fd w interface
    .ok ({ a with interface := interface }, w)
  tick w a ms := do
    let (interface, w) ← sendPending K fd w (a.interface.tick ms)
    .ok ({ a with interface := interface }, w)
  setConfig a config := { a with base := { a.base with config := config } }
  setListening a l := { a with base := { a.base with listening := l } }

/-- `LossyFdAdapter` around an adapter, with any random generator.  The loss rates are part
    of the configuration. -/
structure Lossy (A ρ : Type) where
  adapter : A
  rand : ρ
  lossRateUp : BitVec 16 := 0
  lossRateDn : BitVec 16 := 0

/-- `_should_drop`: no number is drawn for a rate of zero. -/
def shouldDrop {ρ : Type} (next : ρ → BitVec 32 × ρ) (loss : BitVec 16) (rand : ρ) : Bool × ρ :=
  if loss = 0 then (false, rand)
  else
    let (x, rand) := next rand
    (decide (x.setWidth 16 < loss), rand)

/-- `LossyFdAdapter` -/
def lossy {A ρ : Type} (next : ρ → BitVec 32 × ρ) (ad : Adapter κ φ A) :
    Adapter κ φ (Lossy A ρ) where
  read w a := do
    let (ret, adapter, w) ← ad.read w a.adapter
    let (drop, rand) := shouldDrop next a.lossRateDn a.rand
    .ok (if drop then none else ret, { a with adapter := adapter, rand := rand }, w)
  write w a seg :=
    let (drop, rand) := shouldDrop next a.lossRateUp a.rand
    if drop then .ok ({ a with rand := rand }, w)
    else do
      let (adapter, w) ← ad.write w a.adapter seg
      .ok ({ a with adapter := adapter, rand := rand }, w)
  tick w a ms := do
    let (adapter, w) ← ad.tick w a.adapter ms
    .ok ({ a with adapter := adapter }, w)
  setConfig a config := { a with adapter := ad.setConfig a.adapter config }
  setListening a l := { a with adapter := ad.setListening a.adapter l }

end Adapters

/-! ## Segments that look alike, and what is read from a datagram -/

/-- The same segment up to what an adapter writes into it. -/
def Alike (seg seg' : TCPSegment) : Prop :=
  ∃ sport dport cksum,
    seg' = { seg with
      header := { seg.header with sport := sport, dport := dport, cksum := cksum } }

/-- The segments of a connection: no options, and a short payload. -/
def Standard (seg : TCPSegment) : Prop :=
  seg.header.doff = 5 ∧ seg.payload.length ≤ TCPConfig.maxPayloadSize

/-- The segment can be read from the payload of a UDP datagram. -/
def ReadsUDP (bytes : List Byte) (seg : TCPSegment) : Prop :=
  TCPSegment.parse {} (.ofString bytes) 0 = (.noError, seg)

/-- The segment can be read from an IPv4 datagram. -/
def ReadsIPv4 (d : IPv4Datagram) (seg : TCPSegment) : Prop :=
  ∃ buffer, d.payload.toBuffer = .ok buffer
    ∧ TCPSegment.parse {} buffer d.header.pseudoCksum = (.noError, seg)

/-- The segment can be read from the bytes of an IPv4 datagram. -/
def ReadsTun (bytes : List Byte) (seg : TCPSegment) : Prop :=
  ∃ d, IPv4Datagram.parse {} (.ofString bytes) = (.noError, d) ∧ ReadsIPv4 d seg

/-- The segment can be read from the bytes of an Ethernet frame. -/
def ReadsEthernet (bytes : List Byte) (seg : TCPSegment) : Prop :=
  ∃ frame d, EthernetFrame.parse {} (.ofString bytes) = (.noError, frame)
    ∧ NetworkInterface.carriedDatagram frame = some d ∧ ReadsIPv4 d seg

/-- What can be read from the datagram was given. -/
def Faithful (Reads : List Byte → TCPSegment → Prop) (given : List TCPSegment)
    (bytes : List Byte) : Prop :=
  ∀ seg', Reads bytes seg' → ∃ seg ∈ given, Alike seg seg'

theorem Faithful.mono {Reads : List Byte → TCPSegment → Prop} {given given' : List TCPSegment}
    {bytes : List Byte} (h : Faithful Reads given bytes) (hsub : given ⊆ given') :
    Faithful Reads given' bytes := by
  intro seg' hreads
  obtain ⟨seg, hseg, halike⟩ := h seg' hreads
  exact ⟨seg, hsub hseg, halike⟩

section Wire

variable {seg : TCPSegment} {a : FdAdapterBase}

theorem Standard.doff (h : Standard seg) : seg.header.doff.toNat = 5 := by
  rw [h.1]
  rfl

theorem Standard.length (h : Standard seg) : seg.payload.length ≤ 1000 := h.2

/-- A segment that was written is read with its own ports, and the checksum. -/
theorem alike_of_parse (h : Standard seg) {c : BitVec 32} (hc : c.toNat ≤ 327930)
    {buffer : Buffer} {seg' : TCPSegment}
    (hbuffer : buffer.str = (a.withPorts seg).wire ((a.withPorts seg).computedCksum c))
    (hparse : TCPSegment.parse {} buffer c = (.noError, seg')) : Alike seg seg' := by
  have hdoff : (a.withPorts seg).header.doff.toNat = 5 := h.doff
  have hlength : (a.withPorts seg).payload.length ≤ 1000 := h.length
  rw [TCPSegment.parse_serialize (by omega) (by omega) (by omega) hbuffer] at hparse
  exact ⟨_, _, _, (Prod.mk.inj hparse).2.symm⟩

theorem faithful_udp (h : Standard seg) {out : BufferList}
    (hout : (a.withPorts seg).serialize 0 = .ok out) :
    Faithful ReadsUDP [seg] out.concatenate := by
  intro seg' hreads
  have hmin : 5 ≤ (a.withPorts seg).header.doff.toNat := Nat.le_of_eq h.doff.symm
  obtain ⟨out', hout', hwire⟩ := TCPSegment.serialize_eq hmin 0
  obtain rfl := Except.ok.inj (hout.symm.trans hout')
  have hbuffer : (Buffer.ofString out.concatenate).str = _ := hwire
  exact ⟨seg, List.mem_singleton_self seg, alike_of_parse h (by decide) hbuffer hreads⟩

/-- A datagram that carries a segment can be written, and carries nothing else. -/
theorem wrapped {d : IPv4Datagram} (h : Standard seg) (hwrap : (a.wrapTcpInIp seg).1 = .ok d) :
    ∃ out, d.serialize = .ok out
      ∧ ∀ buffer : Buffer, buffer.str = out.concatenate → ∀ d' seg',
        IPv4Datagram.parse {} buffer = (.noError, d') → ReadsIPv4 d' seg' → Alike seg seg' := by
  have hdoff : (a.withPorts seg).header.doff.toNat = 5 := h.doff
  have hlength : (a.withPorts seg).payload.length ≤ 1000 := h.length
  -- what is wrapped is well formed
  obtain ⟨payload, hpayload, hwire⟩ := TCPSegment.serialize_eq (Nat.le_of_eq hdoff.symm)
    (a.datagramHeader (a.withPorts seg)).pseudoCksum
  have hd : d = { header := a.datagramHeader (a.withPorts seg), payload := payload } := by
    rw [TCPOverIPv4Adapter.wrapTcpInIp, hpayload] at hwrap
    exact (Except.ok.inj hwrap).symm
  have hsize : 20 + 4 * (a.withPorts seg).header.doff.toNat + (a.withPorts seg).payload.length
      ≤ 65535 := by omega
  have hwf : d.WellFormed := by
    rw [hd]
    refine datagramHeader_wellFormed hsize ?_
    rw [BufferList.size_eq_length, hwire, TCPSegment.length_wire (by omega)]
  have hfits : 4 * d.header.hlen.toNat ≤ d.header.len.toNat := by
    have hhlen : (a.datagramHeader (a.withPorts seg)).hlen.toNat = 5 := rfl
    rw [hd]
    show 4 * (a.datagramHeader (a.withPorts seg)).hlen.toNat
      ≤ (a.datagramHeader (a.withPorts seg)).len.toNat
    rw [toNat_datagramHeader_len hsize, hhlen]
    omega
  have hoffset : d.header.offset.toNat < 2 ^ 13 := by
    rw [hd]
    exact Nat.two_pow_pos 13
  obtain ⟨out, hout, hconcat⟩ := IPv4Datagram.serialize_eq hwf
  refine ⟨out, hout, fun buffer hbuffer d' seg' hparse hreads => ?_⟩
  -- and so it is read back, and the segment in it
  obtain ⟨rest, hrest, hparse'⟩ :=
    IPv4Datagram.parse_serialize hwf hfits hoffset (hbuffer.trans hconcat)
  obtain rfl := (Prod.mk.inj (hparse'.symm.trans hparse)).2
  obtain ⟨buffer', hbuffer', hseg⟩ := hreads
  obtain rfl := Except.ok.inj hbuffer'
  have hpseudo : (d.headerWith d.computedCksum).pseudoCksum
      = (a.datagramHeader (a.withPorts seg)).pseudoCksum := by
    rw [hd]
    exact IPv4Header.pseudoCksum_cksum _ _
  rw [hpseudo] at hseg
  have hbody : rest.str = _ := hrest.trans ((congrArg (·.payload.concatenate) hd).trans hwire)
  exact alike_of_parse h (IPv4Header.pseudoCksum_le _) hbody hseg

theorem faithful_tun {d : IPv4Datagram} {out : BufferList} (h : Standard seg)
    (hwrap : (a.wrapTcpInIp seg).1 = .ok d) (hout : d.serialize = .ok out) :
    Faithful ReadsTun [seg] out.concatenate := by
  rintro seg' ⟨d', hparse, hreads⟩
  obtain ⟨out', hout', hread⟩ := wrapped h hwrap
  obtain rfl := Except.ok.inj (hout.symm.trans hout')
  exact ⟨seg, List.mem_singleton_self seg, hread _ rfl d' seg' hparse hreads⟩

/-- The buffer of a list has its bytes. -/
theorem concatenate_of_toBuffer {l : BufferList} {buffer : Buffer} (h : l.toBuffer = .ok buffer) :
    l.concatenate = buffer.str := by
  obtain ⟨buffers⟩ := l
  rcases buffers with _ | ⟨b, _ | ⟨b', rest⟩⟩
  · obtain rfl := Except.ok.inj h
    rfl
  · obtain rfl := Except.ok.inj h
    exact BufferList.concatenate_eq _ |>.trans (List.append_nil _)
  · cases h

/-- Only a frame of the IPv4 type is read as a datagram. -/
theorem faithful_other {frame : EthernetFrame} (htype : frame.header.type ≠ EthernetHeader.typeIPv4)
    (given : List TCPSegment) : Faithful ReadsEthernet given frame.serialize.concatenate := by
  rintro seg' ⟨frame', d, hparse, hcarried, -⟩
  obtain ⟨back, hback, hheader, -⟩ := EthernetFrame.parse_written frame.header {}
    (show (Buffer.ofString frame.serialize.concatenate).str = _ from frame.concatenate_serialize)
  obtain rfl := (Prod.mk.inj (hback.symm.trans hparse)).2
  exact absurd (hheader ▸ (NetworkInterface.carriedDatagram_eq_some_iff.mp hcarried).1) htype

/-- A frame around a datagram that carries a segment. -/
theorem faithful_frame {d : IPv4Datagram} {frame : EthernetFrame} {out : BufferList}
    (h : Standard seg) (hwrap : (a.wrapTcpInIp seg).1 = .ok d) (hout : d.serialize = .ok out)
    (hpayload : frame.payload = out) :
    Faithful ReadsEthernet [seg] frame.serialize.concatenate := by
  rintro seg' ⟨frame', d', hparse, hcarried, hreads⟩
  obtain ⟨back, hback, -, hrest⟩ := EthernetFrame.parse_written frame.header {}
    (show (Buffer.ofString frame.serialize.concatenate).str = _ from frame.concatenate_serialize)
  obtain rfl := (Prod.mk.inj (hback.symm.trans hparse)).2
  obtain ⟨-, buffer, hbuffer, hparse'⟩ :=
    NetworkInterface.carriedDatagram_eq_some_iff.mp hcarried
  obtain ⟨out', hout', hread⟩ := wrapped h hwrap
  obtain rfl := Except.ok.inj (hout.symm.trans hout')
  refine ⟨seg, List.mem_singleton_self seg, hread buffer ?_ d' seg' hparse' hreads⟩
  rw [← concatenate_of_toBuffer hbuffer, hrest, hpayload]

end Wire

/-! ## What a call does to the descriptor -/

section Effects

variable {κ φ : Type} [DecidableEq φ] {fd : φ}

/-- Datagrams were written to the descriptor, and nothing else was done. -/
structure Emits (fd : φ) (out : List (List Byte)) (w w' : World (κ × List (Call φ)) φ) :
    Prop where
  calls : w'.kernel.2 = w.kernel.2 ++ out.map (.write fd)
  eof : (w'.fds fd).eof = (w.fds fd).eof
  closed : (w'.fds fd).closed = (w.fds fd).closed
  count : (w'.fds fd).readCount = (w.fds fd).readCount
  others : ∀ fd', fd' ≠ fd → w'.fds fd' = w.fds fd'

omit [DecidableEq φ] in
theorem Emits.refl (fd : φ) (w : World (κ × List (Call φ)) φ) : Emits fd [] w w :=
  ⟨(List.append_nil _).symm, rfl, rfl, rfl, fun _ _ => rfl⟩

omit [DecidableEq φ] in
theorem Emits.trans {out out' : List (List Byte)} {w w₁ w₂ : World (κ × List (Call φ)) φ}
    (h : Emits fd out w w₁) (h' : Emits fd out' w₁ w₂) : Emits fd (out ++ out') w w₂ where
  calls := by rw [h'.calls, h.calls, List.map_append, List.append_assoc]
  eof := h'.eof.trans h.eof
  closed := h'.closed.trans h.closed
  count := h'.count.trans h.count
  others fd' hne := (h'.others fd' hne).trans (h.others fd' hne)

theorem Emits.received {out : List (List Byte)} {w w' : World (κ × List (Call φ)) φ}
    (h : Emits fd out w w') (fd' : φ) :
    received fd' w'.kernel.2 = received fd' w.kernel.2 := by
  rw [h.calls, received_append, List.append_right_eq_self, SpongeDescriptor.received,
    List.flatMap_map]
  exact List.flatMap_eq_nil_iff.mpr fun _ _ => rfl

theorem Emits.sent {out : List (List Byte)} {w w' : World (κ × List (Call φ)) φ}
    (h : Emits fd out w w') {fd' : φ} (hne : fd' ≠ fd) :
    sent fd' w'.kernel.2 = sent fd' w.kernel.2 := by
  rw [h.calls, sent_append, List.append_right_eq_self, SpongeDescriptor.sent, List.flatMap_map]
  exact List.flatMap_eq_nil_iff.mpr fun _ _ => if_neg hne.symm

/-- No descriptor was closed, and none that was at its end is so no longer. -/
structure Steady (w w' : World (κ × List (Call φ)) φ) : Prop where
  closed : ∀ fd, (w'.fds fd).closed = (w.fds fd).closed
  eof : ∀ fd, (w.fds fd).eof = true → (w'.fds fd).eof = true

omit [DecidableEq φ] in
theorem Steady.refl (w : World (κ × List (Call φ)) φ) : Steady w w := ⟨fun _ => rfl, fun _ => id⟩

omit [DecidableEq φ] in
theorem Steady.trans {w w₁ w₂ : World (κ × List (Call φ)) φ} (h : Steady w w₁) (h' : Steady w₁ w₂) :
    Steady w w₂ :=
  ⟨fun fd => (h'.closed fd).trans (h.closed fd), fun fd heof => h'.eof fd (h.eof fd heof)⟩

omit [DecidableEq φ] in
theorem Steady.congr {w v w' : World (κ × List (Call φ)) φ} (h : Steady w v)
    (hfds : w'.fds = v.fds) : Steady w w' := by
  refine ⟨fun fd => ?_, fun fd => ?_⟩
  · rw [hfds]
    exact h.closed fd
  · rw [hfds]
    exact h.eof fd

/-- It is enough to look at the descriptor that was used. -/
theorem steady_of_others {w w' : World (κ × List (Call φ)) φ}
    (hclosed : (w'.fds fd).closed = (w.fds fd).closed)
    (heof : (w.fds fd).eof = true → (w'.fds fd).eof = true)
    (hothers : ∀ fd', fd' ≠ fd → w'.fds fd' = w.fds fd') : Steady w w' := by
  refine ⟨fun fd' => ?_, fun fd' => ?_⟩
  · by_cases hfd : fd' = fd
    · rw [hfd]
      exact hclosed
    · rw [hothers fd' hfd]
  · by_cases hfd : fd' = fd
    · rw [hfd]
      exact heof
    · rw [hothers fd' hfd]
      exact id

theorem Emits.steady {out : List (List Byte)} {w w' : World (κ × List (Call φ)) φ}
    (h : Emits fd out w w') : Steady w w' :=
  steady_of_others h.closed (fun heof => h.eof.trans heof) h.others

/-- A write is counted and leaves the flags. -/
theorem emits_write {w w' : World (κ × List (Call φ)) φ} {bytes : List Byte}
    (hcalls : w'.kernel.2 = w.kernel.2 ++ [.write fd bytes])
    (hfds : w'.fds = (w.registerWrite fd).fds) : Emits fd [bytes] w w' := by
  refine ⟨hcalls, ?_, ?_, ?_, fun fd' hne => ?_⟩
  · rw [hfds, World.registerWrite, World.fds_update_self]
  · rw [hfds, World.registerWrite, World.fds_update_self]
  · rw [hfds, World.registerWrite, World.fds_update_self]
  · rw [hfds, World.registerWrite, World.fds_update_ne _ _ hne]

/-- One datagram was read from the descriptor. -/
structure Arrives (fd : φ) (bytes : List Byte) (w w' : World (κ × List (Call φ)) φ) : Prop where
  calls : w'.kernel.2 = w.kernel.2 ++ [.read fd bytes]
  count : (w'.fds fd).readCount = (w.fds fd).readCount + 1
  eof : (w.fds fd).eof = true → (w'.fds fd).eof = true
  closed : (w'.fds fd).closed = (w.fds fd).closed
  others : ∀ fd', fd' ≠ fd → w'.fds fd' = w.fds fd'

theorem Arrives.received {bytes : List Byte} {w w' : World (κ × List (Call φ)) φ}
    (h : Arrives fd bytes w w') {fd' : φ} (hne : fd' ≠ fd) :
    received fd' w'.kernel.2 = received fd' w.kernel.2 := by
  rw [h.calls, received_append, received_read, if_neg hne.symm, List.append_nil]

theorem Arrives.sent {bytes : List Byte} {w w' : World (κ × List (Call φ)) φ}
    (h : Arrives fd bytes w w') (fd' : φ) : sent fd' w'.kernel.2 = sent fd' w.kernel.2 := by
  rw [h.calls, sent_append, sent_read, List.append_nil]

theorem Arrives.steady {bytes : List Byte} {w w' : World (κ × List (Call φ)) φ}
    (h : Arrives fd bytes w w') : Steady w w' := steady_of_others h.closed h.eof h.others

theorem arrives_read {K : Kernel κ φ} {w w' : World (κ × List (Call φ)) φ} {limit : Nat}
    {bytes : List Byte} (h : FileDescriptor.read K.recording w fd limit = .ok (bytes, w')) :
    Arrives fd bytes w w' := by
  have hdone := read_done h
  refine ⟨hdone.calls, hdone.count, fun heof => ?_, hdone.closed, hdone.others⟩
  rw [hdone.eof, heof, Bool.true_or]

theorem arrives_recv {D : DatagramKernel κ φ} {w w' : World (κ × List (Call φ)) φ}
    {datagram : Address × List Byte} (h : UDPSocket.recv D.recording w fd = .ok (datagram, w')) :
    Arrives fd datagram.2 w w' := by
  obtain ⟨⟨got, kernel⟩, hrecv, hrest⟩ := bind_eq_ok.mp h
  obtain ⟨⟨got', kernel'⟩, -, heq⟩ := map_eq_ok.mp hrecv
  obtain ⟨rfl, rfl⟩ := Prod.mk.inj heq
  dsimp only at hrest
  split_ifs at hrest
  obtain ⟨rfl, rfl⟩ := Prod.mk.inj (Except.ok.inj hrest)
  refine ⟨rfl, ?_, fun heof => ?_, ?_, fun fd' hne => ?_⟩
  · rw [World.registerRead, World.fds_update_self]
  · rw [World.registerRead, World.fds_update_self]
    exact heof
  · rw [World.registerRead, World.fds_update_self]
  · rw [World.registerRead, World.fds_update_ne _ _ hne]

/-- The kernel takes every datagram for the descriptor whole, as devices and datagram
    sockets do. -/
def WholeWrites (K : Kernel κ φ) (fd : φ) : Prop :=
  ∀ k iovecs n k', K.writev k fd iovecs = .ok (n, k') → n = (iovecs.flatMap Prod.fst).length

theorem emits_whole {K : Kernel κ φ} (hK : WholeWrites K fd) {w w' : World (κ × List (Call φ)) φ}
    {buffer : BufferViewList} {n : Nat}
    (h : FileDescriptor.write K.recording w fd buffer true = .ok (n, w')) :
    Emits fd [buffer.views.flatten] w w' := by
  obtain ⟨s, hloop, heq⟩ := map_eq_ok.mp h
  obtain ⟨⟨again, s'⟩, hround, hrest⟩ := bind_eq_ok.mp hloop
  obtain ⟨hagain, n', ⟨k, hk⟩, hdone⟩ := writeRound_done hround
  have htaken : n' = buffer.views.flatten.length := by
    rw [← flatMap_asIovecs]
    exact hK _ _ _ _ hk
  -- everything is taken in the first round, so it is the last
  have hleft : s'.buffer.views.flatten = [] := by
    rw [hdone.buffer, htaken]
    exact List.drop_length
  have hstop : again = false := by
    rw [hagain, BufferViewList.size_eq_length, hleft]
    rfl
  rw [hstop] at hrest
  obtain rfl := Except.ok.inj hrest
  obtain ⟨-, rfl⟩ := Prod.mk.inj heq
  have hcalls := hdone.calls
  rw [htaken] at hcalls
  refine emits_write (hcalls.trans ?_) hdone.fds
  exact congrArg (fun bytes => w.kernel.2 ++ [Call.write fd bytes]) List.take_length

theorem emits_sendto {D : DatagramKernel κ φ} {w w' : World (κ × List (Call φ)) φ}
    {destination : Address} {payload : BufferViewList}
    (h : UDPSocket.sendto D.recording w fd destination payload = .ok w') :
    Emits fd [payload.views.flatten] w w' := by
  obtain ⟨⟨n, kernel⟩, hsend, hrest⟩ := bind_eq_ok.mp h
  obtain ⟨⟨n', kernel'⟩, -, heq⟩ := map_eq_ok.mp hsend
  obtain ⟨rfl, rfl⟩ := Prod.mk.inj heq
  dsimp only at hrest
  split_ifs at hrest with hsize
  obtain rfl := Except.ok.inj hrest
  refine emits_write ?_ rfl
  show w.kernel.2 ++ [Call.write fd ((payload.asIovecs.flatMap Prod.fst).take n')] = _
  rw [flatMap_asIovecs, not_not.mp hsize, BufferViewList.size_eq_length, List.take_length]

/-- The frames are written one by one. -/
theorem emits_frames {K : Kernel κ φ} (hK : WholeWrites K fd) (frames : List EthernetFrame)
    {w w' : World (κ × List (Call φ)) φ}
    (h : frames.foldlM (writeFrame K.recording fd) w = .ok w') :
    Emits fd (frames.map fun frame => frame.serialize.concatenate) w w' := by
  refine foldlM_keeps
    (I := fun done w₁ => Emits fd (done.map fun frame => frame.serialize.concatenate) w w₁)
    (fun done w₁ frame w₂ hdone hwrite => ?_) frames [] w w' (.refl fd w) h
  obtain ⟨⟨n, w₂'⟩, hok, rfl⟩ := map_eq_ok.mp hwrite
  have hone := emits_whole hK hok
  rw [BufferViewList.flatten_ofBufferList] at hone
  rw [List.map_append]
  exact hdone.trans hone

end Effects

/-! ## The law of an adapter -/

section Law

variable {κ φ A : Type} [DecidableEq φ]

/-- **THE LAW**.  `Holds given a`: what the adapter still holds back comes from the segments
    that it was given. -/
structure Lawful (ad : Adapter (κ × List (Call φ)) φ A) (fd : φ)
    (Reads : List Byte → TCPSegment → Prop) (Holds : List TCPSegment → A → Prop) : Prop where
  mono : ∀ given given' a, Holds given a → given ⊆ given' → Holds given' a
  config : ∀ given a config, Holds given a → Holds given (ad.setConfig a config)
  listening : ∀ given a l, Holds given a → Holds given (ad.setListening a l)
  counts : ∀ w a result a' w', ad.read w a = .ok (result, a', w') →
    (w'.fds fd).readCount = (w.fds fd).readCount + 1
  read : ∀ given w a result a' w', Holds given a → ad.read w a = .ok (result, a', w') →
    ∃ bytes w₁ out, Arrives fd bytes w w₁ ∧ Emits fd out w₁ w' ∧ Holds given a'
      ∧ (∀ o ∈ out, Faithful Reads given o) ∧ ∀ seg, result = some seg → Reads bytes seg
  write : ∀ given w a seg a' w', Holds given a → Standard seg → ad.write w a seg = .ok (a', w') →
    ∃ out, Emits fd out w w' ∧ Holds (given ++ [seg]) a'
      ∧ ∀ o ∈ out, Faithful Reads (given ++ [seg]) o
  tick : ∀ given w a ms a' w', Holds given a → ad.tick w a ms = .ok (a', w') →
    ∃ out, Emits fd out w w' ∧ Holds given a' ∧ ∀ o ∈ out, Faithful Reads given o

theorem faithful_last {Reads : List Byte → TCPSegment → Prop} {seg : TCPSegment}
    {bytes : List Byte} (h : Faithful Reads [seg] bytes) (given : List TCPSegment) :
    Faithful Reads (given ++ [seg]) bytes :=
  h.mono (List.subset_append_right given [seg])

/-- A read over UDP, inverted. -/
theorem udp_read {D : DatagramKernel κ φ} {fd : φ} {w w' : World (κ × List (Call φ)) φ}
    {a a' : FdAdapterBase} {result : Option TCPSegment}
    (h : (overUDP D.recording fd).read w a = .ok (result, a', w')) :
    ∃ payload, Arrives fd payload w w' ∧ ∀ seg, result = some seg → ReadsUDP payload seg := by
  obtain ⟨⟨⟨source, payload⟩, w₁⟩, hrecv, hrest⟩ := bind_eq_ok.mp h
  have hreads : ∀ parsed : ParseResult × TCPSegment,
      TCPSegment.parse {} (.ofString payload) 0 = parsed → ¬ parsed.1 ≠ .noError →
      ReadsUDP payload parsed.2 := by
    intro parsed hparse hok
    rw [ReadsUDP, hparse]
    exact Prod.ext (not_not.mp hok) rfl
  have hdone : w' = w₁ ∧ (result = none
      ∨ ReadsUDP payload (TCPSegment.parse {} (.ofString payload) 0).2
        ∧ result = some (TCPSegment.parse {} (.ofString payload) 0).2) := by
    dsimp only at hrest
    split_ifs at hrest with hfor hparse hlisten hsyn
    all_goals
      simp only [Except.ok.injEq, Prod.mk.injEq] at hrest
      obtain ⟨rfl, -, rfl⟩ := hrest
    · exact ⟨rfl, Or.inl rfl⟩
    · exact ⟨rfl, Or.inl rfl⟩
    · exact ⟨rfl, Or.inr ⟨hreads _ rfl hparse, rfl⟩⟩
    · exact ⟨rfl, Or.inl rfl⟩
    · exact ⟨rfl, Or.inr ⟨hreads _ rfl hparse, rfl⟩⟩
  obtain ⟨rfl, hresult⟩ := hdone
  refine ⟨payload, arrives_recv hrecv, fun seg hseg => ?_⟩
  rcases hresult with hnone | ⟨hread, hsome⟩
  · rw [hnone] at hseg
    cases hseg
  · rw [hsome] at hseg
    rw [← Option.some.inj hseg]
    exact hread

theorem lawful_udp (D : DatagramKernel κ φ) (fd : φ) :
    Lawful (overUDP D.recording fd) fd ReadsUDP fun _ _ => True where
  mono _ _ _ _ _ := trivial
  config _ _ _ _ := trivial
  listening _ _ _ _ := trivial
  counts w a result a' w' h := by
    obtain ⟨payload, harrives, -⟩ := udp_read h
    exact harrives.count
  read given w a result a' w' _ h := by
    obtain ⟨payload, harrives, hreads⟩ := udp_read h
    exact ⟨payload, w', [], harrives, .refl fd w', trivial,
      fun _ ho => absurd ho List.not_mem_nil, hreads⟩
  write given w a seg a' w' _ hseg h := by
    obtain ⟨payload, hpayload, hrest⟩ := bind_eq_ok.mp h
    obtain ⟨w₁, hsend, heq⟩ := bind_eq_ok.mp hrest
    obtain ⟨rfl, rfl⟩ := Prod.mk.inj (Except.ok.inj heq)
    have hemits := emits_sendto hsend
    rw [BufferViewList.flatten_ofBufferList] at hemits
    refine ⟨_, hemits, trivial, fun o ho => ?_⟩
    rw [List.mem_singleton.mp ho]
    exact faithful_last (faithful_udp hseg hpayload) given
  tick given w a ms a' w' _ h := by
    obtain ⟨rfl, rfl⟩ := Prod.mk.inj (Except.ok.inj h)
    exact ⟨[], .refl fd _, trivial, fun _ ho => absurd ho List.not_mem_nil⟩

/-- What is unwrapped can be read from the datagram. -/
theorem unwrap_reads {a a' : FdAdapterBase} {d : IPv4Datagram} {seg : TCPSegment}
    (h : a.unwrapTcpInIp d = (.ok (some seg), a')) : ReadsIPv4 d seg := by
  rw [TCPOverIPv4Adapter.unwrapTcpInIp] at h
  split_ifs at h
  · cases Except.ok.inj (Prod.mk.inj h).1
  · cases Except.ok.inj (Prod.mk.inj h).1
  · cases Except.ok.inj (Prod.mk.inj h).1
  cases hbuffer : d.payload.toBuffer with
  | error text =>
      rw [hbuffer] at h
      cases (Prod.mk.inj h).1
  | ok buffer =>
      rw [hbuffer] at h
      dsimp only at h
      split_ifs at h with hparse
      · cases Except.ok.inj (Prod.mk.inj h).1
      have hseg : (TCPSegment.parse {} buffer d.header.pseudoCksum).2 = seg := by
        rcases TCPOverIPv4Adapter.forUs_cases (a := a) (d := d)
          (TCPSegment.parse {} buffer d.header.pseudoCksum).2 with hnone | ⟨hsome, -⟩ | ⟨hsome, -⟩
        · rw [hnone] at h
          cases Except.ok.inj (Prod.mk.inj h).1
        · rw [hsome] at h
          exact Option.some.inj (Except.ok.inj (Prod.mk.inj h).1)
        · rw [hsome] at h
          exact Option.some.inj (Except.ok.inj (Prod.mk.inj h).1)
      exact ⟨buffer, hbuffer, Prod.ext (not_not.mp hparse) hseg⟩

theorem withState_eq_ok {α β : Type} {r : Except String α × β} {x : α} {y : β}
    (h : withState r = .ok (x, y)) : r = (.ok x, y) := by
  obtain ⟨x', hx', heq⟩ := map_eq_ok.mp h
  obtain ⟨rfl, rfl⟩ := Prod.mk.inj heq
  exact Prod.ext hx' rfl

/-- A read from a TUN device, inverted. -/
theorem tun_read {K : Kernel κ φ} {fd : φ} {w w' : World (κ × List (Call φ)) φ}
    {a a' : FdAdapterBase} {result : Option TCPSegment}
    (h : (overTun K.recording fd).read w a = .ok (result, a', w')) :
    ∃ bytes, Arrives fd bytes w w' ∧ ∀ seg, result = some seg → ReadsTun bytes seg := by
  obtain ⟨⟨bytes, w₁⟩, hread, hrest⟩ := bind_eq_ok.mp h
  dsimp only at hrest
  split_ifs at hrest with hparse
  · simp only [Except.ok.injEq, Prod.mk.injEq] at hrest
    obtain ⟨rfl, -, rfl⟩ := hrest
    exact ⟨bytes, arrives_read hread, fun seg hseg => absurd hseg (by simp)⟩
  · obtain ⟨⟨result', a₁⟩, hunwrap, heq⟩ := bind_eq_ok.mp hrest
    simp only [Except.ok.injEq, Prod.mk.injEq] at heq
    obtain ⟨rfl, rfl, rfl⟩ := heq
    refine ⟨bytes, arrives_read hread, fun seg hseg => ?_⟩
    rw [hseg] at hunwrap
    exact ⟨_, Prod.ext (not_not.mp hparse) rfl, unwrap_reads (withState_eq_ok hunwrap)⟩

theorem lawful_tun {K : Kernel κ φ} {fd : φ} (hK : WholeWrites K fd) :
    Lawful (overTun K.recording fd) fd ReadsTun fun _ _ => True where
  mono _ _ _ _ _ := trivial
  config _ _ _ _ := trivial
  listening _ _ _ _ := trivial
  counts w a result a' w' h := by
    obtain ⟨bytes, harrives, -⟩ := tun_read h
    exact harrives.count
  read given w a result a' w' _ h := by
    obtain ⟨bytes, harrives, hreads⟩ := tun_read h
    exact ⟨bytes, w', [], harrives, .refl fd w', trivial,
      fun _ ho => absurd ho List.not_mem_nil, hreads⟩
  write given w a seg a' w' _ hseg h := by
    obtain ⟨datagram, hwrap, hrest⟩ := bind_eq_ok.mp h
    obtain ⟨bytes, hbytes, hrest⟩ := bind_eq_ok.mp hrest
    obtain ⟨⟨n, w₁⟩, hwrite, heq⟩ := bind_eq_ok.mp hrest
    obtain ⟨rfl, rfl⟩ := Prod.mk.inj (Except.ok.inj heq)
    have hemits := emits_whole hK hwrite
    rw [BufferViewList.flatten_ofBufferList] at hemits
    refine ⟨_, hemits, trivial, fun o ho => ?_⟩
    rw [List.mem_singleton.mp ho]
    exact faithful_last (faithful_tun hseg hwrap hbytes) given
  tick given w a ms a' w' _ h := by
    obtain ⟨rfl, rfl⟩ := Prod.mk.inj (Except.ok.inj h)
    exact ⟨[], .refl fd _, trivial, fun _ ho => absurd ho List.not_mem_nil⟩

/-- The datagram was made from a segment that was given. -/
def Wraps (given : List TCPSegment) (d : IPv4Datagram) : Prop :=
  ∃ (base : FdAdapterBase) (seg : TCPSegment),
    seg ∈ given ∧ Standard seg ∧ (base.wrapTcpInIp seg).1 = .ok d

theorem Wraps.mono {given given' : List TCPSegment} {d : IPv4Datagram} (h : Wraps given d)
    (hsub : given ⊆ given') : Wraps given' d := by
  obtain ⟨base, seg, hseg, hstandard, hwrap⟩ := h
  exact ⟨base, seg, hsub hseg, hstandard, hwrap⟩

theorem Wraps.serialize_ok {given : List TCPSegment} {d : IPv4Datagram} (h : Wraps given d) :
    ∃ payload, d.serialize = .ok payload := by
  obtain ⟨base, seg, -, hstandard, hwrap⟩ := h
  obtain ⟨out, hout, -⟩ := wrapped hstandard hwrap
  exact ⟨out, hout⟩

theorem Wraps.frame {given : List TCPSegment} {d : IPv4Datagram} (h : Wraps given d)
    (n : NetworkInterface) (dst : EthernetAddress) :
    Faithful ReadsEthernet given (n.datagramFrame dst d).serialize.concatenate := by
  obtain ⟨base, seg, hseg, hstandard, hwrap⟩ := h
  obtain ⟨out, hout, -⟩ := wrapped hstandard hwrap
  have hpayload : (n.datagramFrame dst d).payload = out := by
    show NetworkInterface.written d = out
    rw [NetworkInterface.written, hout]
  exact (faithful_frame hstandard hwrap hout hpayload).mono
    (List.cons_subset.mpr ⟨hseg, List.nil_subset _⟩)

/-- Between two calls no frame is left, and what waits was given. -/
structure Waits (given : List TCPSegment) (a : EthernetAdapter) : Prop where
  frames : a.interface.framesOut = []
  pending : ∀ p ∈ a.interface.pendingDatagrams, Wraps given p.2

/-- The interface after a call: what waits was given, and so was what is in its frames. -/
structure Sound (given : List TCPSegment) (n : NetworkInterface) : Prop where
  frames : ∀ frame ∈ n.framesOut, Faithful ReadsEthernet given frame.serialize.concatenate
  pending : ∀ p ∈ n.pendingDatagrams, Wraps given p.2

theorem sound_of_nil {given : List TCPSegment} {n : NetworkInterface} (hframes : n.framesOut = [])
    (hpending : ∀ p ∈ n.pendingDatagrams, Wraps given p.2) : Sound given n := by
  refine ⟨fun frame hframe => ?_, hpending⟩
  rw [hframes] at hframe
  exact absurd hframe List.not_mem_nil

/-- Whatever comes out of a frame is what it carries. -/
theorem recvFrame_carried {n n' : NetworkInterface} {frame : EthernetFrame} {d : IPv4Datagram}
    (hsingle : frame.payload.buffers.length ≤ 1)
    (h : n.recvFrame frame = (.ok (some d), n')) :
    NetworkInterface.carriedDatagram frame = some d := by
  cases hmessage : n.arpMessage frame with
  | none =>
      rw [NetworkInterface.recvFrame_quiet hsingle hmessage] at h
      have hbrought := Except.ok.inj (Prod.mk.inj h).1
      rw [NetworkInterface.broughtDatagram] at hbrought
      split_ifs at hbrought
      exact hbrought
  | some m =>
      rw [NetworkInterface.recvFrame_message hmessage, NetworkInterface.recvArp] at h
      split at h
      · cases (Prod.mk.inj h).1
      · rw [NetworkInterface.replyTo] at h
        split_ifs at h
        · cases Except.ok.inj (Prod.mk.inj h).1
        · cases Except.ok.inj (Prod.mk.inj h).1

theorem sound_recvFrame {given : List TCPSegment} {n n' : NetworkInterface}
    {frame : EthernetFrame} {result : Option IPv4Datagram} (hframes : n.framesOut = [])
    (hpending : ∀ p ∈ n.pendingDatagrams, Wraps given p.2)
    (hsingle : frame.payload.buffers.length ≤ 1)
    (h : n.recvFrame frame = (.ok result, n')) : Sound given n' := by
  cases hmessage : n.arpMessage frame with
  | none =>
      rw [NetworkInterface.recvFrame_quiet hsingle hmessage] at h
      obtain ⟨-, rfl⟩ := Prod.mk.inj h
      exact sound_of_nil hframes hpending
  | some m =>
      have hok : ∀ dgram ∈ Keyed.of m.senderIpAddress n.pendingDatagrams,
          ∃ payload, dgram.serialize = .ok payload := fun dgram hdgram =>
        (hpending _ (mem_of_iff.mp hdgram)).serialize_ok
      rw [NetworkInterface.recvFrame_message hmessage, NetworkInterface.recvArp_eq m hok] at h
      obtain ⟨-, rfl⟩ := Prod.mk.inj h
      refine ⟨fun frame hframe => ?_, fun p hp => hpending p (List.mem_of_mem_filter hp)⟩
      -- what waited for the sender of the message leaves, and the answer
      rw [show _ ++ _ = _ from congrArg (· ++ _) hframes, List.nil_append, List.mem_append] at hframe
      rcases hframe with hsent | hreply
      · obtain ⟨dgram, hdgram, rfl⟩ := List.mem_map.mp hsent
        exact (hpending _ (mem_of_iff.mp hdgram)).frame n _
      · refine faithful_other ?_ given
        rw [NetworkInterface.replies_type hreply]
        exact EthernetHeader.typeARP_ne_typeIPv4

theorem sound_sendDatagram {given : List TCPSegment} {n n' : NetworkInterface}
    {d : IPv4Datagram} {ip : BitVec 32} (hframes : n.framesOut = [])
    (hpending : ∀ p ∈ n.pendingDatagrams, Wraps given p.2) (hd : Wraps given d)
    (h : n.sendDatagram d ip = (.ok (), n')) : Sound given n' := by
  have hwaits : ∀ p ∈ n.pendingDatagrams ++ [(ip, d)], Wraps given p.2 := by
    intro p hp
    rcases List.mem_append.mp hp with hold | hnew
    · exact hpending p hold
    · rw [List.mem_singleton.mp hnew]
      exact hd
  have hone : ∀ frame : EthernetFrame, Faithful ReadsEthernet given frame.serialize.concatenate →
      ∀ frame' ∈ n.framesOut ++ [frame],
        Faithful ReadsEthernet given frame'.serialize.concatenate := by
    intro frame hframe frame' hframe'
    rw [hframes, List.nil_append] at hframe'
    rw [List.mem_singleton.mp hframe']
    exact hframe
  cases hcache : n.arpCache.lookup ip with
  | some entry =>
      rw [NetworkInterface.sendDatagram_known hcache hd.serialize_ok] at h
      obtain rfl := (Prod.mk.inj h).2
      exact ⟨hone _ (hd.frame n entry.1), hpending⟩
  | none =>
      cases hdue : n.requestDue ip with
      | true =>
          rw [NetworkInterface.sendDatagram_due hcache hdue] at h
          obtain rfl := (Prod.mk.inj h).2
          have hother : (n.requestFrame ip).header.type ≠ EthernetHeader.typeIPv4 :=
            EthernetHeader.typeARP_ne_typeIPv4
          exact ⟨hone _ (faithful_other hother given), hwaits⟩
      | false =>
          rw [NetworkInterface.sendDatagram_early hcache hdue] at h
          obtain rfl := (Prod.mk.inj h).2
          exact sound_of_nil hframes hwaits

/-- What is sent was given. -/
theorem Sound.sent {given : List TCPSegment} {n : NetworkInterface} (h : Sound given n) :
    ∀ o ∈ n.framesOut.map fun frame => frame.serialize.concatenate,
      Faithful ReadsEthernet given o := by
  intro o ho
  obtain ⟨frame, hframe, rfl⟩ := List.mem_map.mp ho
  exact h.frames frame hframe

theorem Sound.waits {given : List TCPSegment} {n : NetworkInterface} {a : EthernetAdapter}
    (h : Sound given n) (ha : a.interface = { n with framesOut := [] }) : Waits given a := by
  refine ⟨?_, ?_⟩
  · rw [ha]
  · rw [ha]
    exact h.pending

theorem length_parsed_payload (bytes : List Byte) :
    (EthernetFrame.parse {} (.ofString bytes)).2.payload.buffers.length ≤ 1 :=
  Nat.le_refl 1

/-- The segment that is read was in the frame. -/
theorem ethernet_reads {K : Kernel κ φ} {fd : φ} {w w₁ w' : World κ φ} {a a' : EthernetAdapter}
    {bytes : List Byte} {seg : TCPSegment}
    (hbytes : FileDescriptor.read K w fd sizeMax = .ok (bytes, w₁))
    (h : (overEthernet K fd).read w a = .ok (some seg, a', w')) : ReadsEthernet bytes seg := by
  obtain ⟨⟨bytes', w₁'⟩, hread, hrest⟩ := bind_eq_ok.mp h
  obtain ⟨rfl, rfl⟩ := Prod.mk.inj (Except.ok.inj (hbytes.symm.trans hread))
  dsimp only at hrest
  split_ifs at hrest with hparse
  · simp only [Except.ok.injEq, Prod.mk.injEq, reduceCtorEq, false_and] at hrest
  · obtain ⟨⟨ipDgram, n⟩, hrecv, hrest⟩ := bind_eq_ok.mp hrest
    obtain ⟨⟨n', w₂⟩, -, hrest⟩ := bind_eq_ok.mp hrest
    cases ipDgram with
    | none => simp only [Except.ok.injEq, Prod.mk.injEq, reduceCtorEq, false_and] at hrest
    | some d =>
        obtain ⟨⟨result, base⟩, hunwrap, heq⟩ := bind_eq_ok.mp hrest
        simp only [Except.ok.injEq, Prod.mk.injEq] at heq
        rw [heq.1] at hunwrap
        exact ⟨_, d, Prod.ext (not_not.mp hparse) rfl,
          recvFrame_carried (length_parsed_payload bytes) (withState_eq_ok hrecv),
          unwrap_reads (withState_eq_ok hunwrap)⟩

/-- Sending what is pending writes frames, and does nothing else. -/
theorem emits_sendPending {K : Kernel κ φ} {fd : φ} (hK : WholeWrites K fd)
    {n n' : NetworkInterface} {w w' : World (κ × List (Call φ)) φ}
    (h : sendPending K.recording fd w n = .ok (n', w')) :
    n' = { n with framesOut := [] }
      ∧ Emits fd (n.framesOut.map fun frame => frame.serialize.concatenate) w w' := by
  obtain ⟨w₁, hfold, heq⟩ := bind_eq_ok.mp h
  obtain ⟨rfl, rfl⟩ := Prod.mk.inj (Except.ok.inj heq)
  exact ⟨rfl, emits_frames hK _ hfold⟩

/-- A read from a TAP device, inverted: the frame is not one, or the interface takes it and
    then sends what it has. -/
theorem ethernet_read {K : Kernel κ φ} {fd : φ} (hK : WholeWrites K fd)
    {w w' : World (κ × List (Call φ)) φ} {a a' : EthernetAdapter} {result : Option TCPSegment}
    (h : (overEthernet K.recording fd).read w a = .ok (result, a', w')) :
    ∃ bytes w₁, FileDescriptor.read K.recording w fd sizeMax = .ok (bytes, w₁)
      ∧ ((a' = a ∧ w' = w₁)
        ∨ ∃ ipDgram n, a.interface.recvFrame (EthernetFrame.parse {} (.ofString bytes)).2
            = (.ok ipDgram, n)
          ∧ a'.interface = { n with framesOut := [] }
          ∧ Emits fd (n.framesOut.map fun frame => frame.serialize.concatenate) w₁ w') := by
  obtain ⟨⟨bytes, w₁⟩, hread, hrest⟩ := bind_eq_ok.mp h
  refine ⟨bytes, w₁, hread, ?_⟩
  dsimp only at hrest
  split_ifs at hrest with hparse
  · simp only [Except.ok.injEq, Prod.mk.injEq] at hrest
    exact Or.inl ⟨hrest.2.1.symm, hrest.2.2.symm⟩
  · obtain ⟨⟨ipDgram, n⟩, hrecv, hrest⟩ := bind_eq_ok.mp hrest
    obtain ⟨⟨n', w₂⟩, hsend, hrest⟩ := bind_eq_ok.mp hrest
    obtain ⟨rfl, hemits⟩ := emits_sendPending hK hsend
    refine Or.inr ⟨ipDgram, n, withState_eq_ok hrecv, ?_⟩
    cases ipDgram with
    | none =>
        simp only [Except.ok.injEq, Prod.mk.injEq] at hrest
        obtain ⟨-, rfl, rfl⟩ := hrest
        exact ⟨rfl, hemits⟩
    | some d =>
        obtain ⟨⟨result', base⟩, -, heq⟩ := bind_eq_ok.mp hrest
        simp only [Except.ok.injEq, Prod.mk.injEq] at heq
        obtain ⟨-, rfl, rfl⟩ := heq
        exact ⟨rfl, hemits⟩

theorem lawful_ethernet {K : Kernel κ φ} {fd : φ} (hK : WholeWrites K fd) :
    Lawful (overEthernet K.recording fd) fd ReadsEthernet Waits where
  mono given given' a h hsub := ⟨h.frames, fun p hp => (h.pending p hp).mono hsub⟩
  config _ _ _ h := ⟨h.frames, h.pending⟩
  listening _ _ _ h := ⟨h.frames, h.pending⟩
  counts w a result a' w' h := by
    obtain ⟨bytes, w₁, hread, ⟨-, rfl⟩ | ⟨_, n, -, -, hemits⟩⟩ := ethernet_read hK h
    · exact (arrives_read hread).count
    · rw [hemits.count]
      exact (arrives_read hread).count
  read given w a result a' w' hwaits h := by
    obtain ⟨bytes, w₁, hread, hrest⟩ := ethernet_read hK h
    have hreads : ∀ seg, result = some seg → ReadsEthernet bytes seg := fun seg hseg =>
      ethernet_reads hread (hseg ▸ h)
    rcases hrest with ⟨rfl, rfl⟩ | ⟨ipDgram, n, hrecv, hinterface, hemits⟩
    · exact ⟨bytes, w', [], arrives_read hread, .refl fd w', hwaits,
        fun _ ho => absurd ho List.not_mem_nil, hreads⟩
    · have hsound := sound_recvFrame hwaits.frames hwaits.pending (length_parsed_payload bytes) hrecv
      refine ⟨bytes, w₁, _, arrives_read hread, hemits, ?_, hsound.sent, hreads⟩
      exact hsound.waits hinterface
  write given w a seg a' w' hwaits hseg h := by
    obtain ⟨datagram, hwrap, hrest⟩ := bind_eq_ok.mp h
    obtain ⟨⟨done, n⟩, hsent, hrest⟩ := bind_eq_ok.mp hrest
    obtain ⟨⟨n', w₁⟩, hsend, heq⟩ := bind_eq_ok.mp hrest
    obtain ⟨rfl, rfl⟩ := Prod.mk.inj (Except.ok.inj heq)
    have hpending : ∀ p ∈ a.interface.pendingDatagrams, Wraps (given ++ [seg]) p.2 := fun p hp =>
      (hwaits.pending p hp).mono (List.subset_append_left given [seg])
    have hsound := sound_sendDatagram hwaits.frames hpending
      ⟨a.base, seg, by simp, hseg, hwrap⟩ (withState_eq_ok hsent)
    obtain ⟨rfl, hemits⟩ := emits_sendPending hK hsend
    exact ⟨_, hemits, hsound.waits rfl, hsound.sent⟩
  tick given w a ms a' w' hwaits h := by
    obtain ⟨⟨n', w₁⟩, hsend, heq⟩ := bind_eq_ok.mp h
    obtain ⟨rfl, rfl⟩ := Prod.mk.inj (Except.ok.inj heq)
    have hsound : Sound given (a.interface.tick ms) := sound_of_nil hwaits.frames hwaits.pending
    obtain ⟨rfl, hemits⟩ := emits_sendPending hK hsend
    exact ⟨_, hemits, hsound.waits rfl, hsound.sent⟩

omit [DecidableEq φ] in
/-- **LOSSES ARE LAWFUL**: an adapter that drops keeps the law of the adapter in it. -/
theorem lawful_lossy {ρ : Type} (next : ρ → BitVec 32 × ρ)
    {ad : Adapter (κ × List (Call φ)) φ A} {fd : φ} {Reads : List Byte → TCPSegment → Prop}
    {Holds : List TCPSegment → A → Prop} (hlaw : Lawful ad fd Reads Holds) :
    Lawful (lossy next ad) fd Reads fun given a => Holds given a.adapter where
  mono given given' a h hsub := hlaw.mono given given' a.adapter h hsub
  config given a config h := hlaw.config given a.adapter config h
  listening given a l h := hlaw.listening given a.adapter l h
  counts w a result a' w' h := by
    obtain ⟨⟨ret, adapter, w₁⟩, hread, heq⟩ := bind_eq_ok.mp h
    simp only [Except.ok.injEq, Prod.mk.injEq] at heq
    obtain ⟨-, -, rfl⟩ := heq
    exact hlaw.counts w a.adapter ret adapter w₁ hread
  read given w a result a' w' hholds h := by
    obtain ⟨⟨ret, adapter, w₁⟩, hread, heq⟩ := bind_eq_ok.mp h
    simp only [Except.ok.injEq, Prod.mk.injEq] at heq
    obtain ⟨hresult, rfl, rfl⟩ := heq
    obtain ⟨bytes, w₂, out, harrives, hemits, hholds', hfaithful, hreads⟩ :=
      hlaw.read given w a.adapter ret adapter w₁ hholds hread
    refine ⟨bytes, w₂, out, harrives, hemits, hholds', hfaithful, fun seg hseg => hreads seg ?_⟩
    rw [hseg] at hresult
    split_ifs at hresult
    exact hresult
  write given w a seg a' w' hholds hseg h := by
    have h : (if (shouldDrop next a.lossRateUp a.rand).1 = true then
        .ok ({ a with rand := (shouldDrop next a.lossRateUp a.rand).2 }, w)
      else ad.write w a.adapter seg >>= fun r =>
        .ok ({ a with adapter := r.1, rand := (shouldDrop next a.lossRateUp a.rand).2 }, r.2))
        = Except.ok (a', w') := h
    split_ifs at h
    · obtain ⟨rfl, rfl⟩ := Prod.mk.inj (Except.ok.inj h)
      exact ⟨[], .refl fd w, hlaw.mono _ _ _ hholds (List.subset_append_left given [seg]),
        fun _ ho => absurd ho List.not_mem_nil⟩
    · obtain ⟨⟨adapter, w₁⟩, hwrite, heq⟩ := bind_eq_ok.mp h
      obtain ⟨rfl, rfl⟩ := Prod.mk.inj (Except.ok.inj heq)
      exact hlaw.write given w a.adapter seg adapter w₁ hholds hseg hwrite
  tick given w a ms a' w' hholds h := by
    obtain ⟨⟨adapter, w₁⟩, htick, heq⟩ := bind_eq_ok.mp h
    obtain ⟨rfl, rfl⟩ := Prod.mk.inj (Except.ok.inj heq)
    exact hlaw.tick given w a.adapter ms adapter w₁ hholds htick

end Law

/-! ## Whole runs of an adapter -/

section Runs

variable {κ φ A : Type} [DecidableEq φ]

inductive Op where
  | read
  | write (seg : TCPSegment)
  | tick (ms : Nat)
deriving DecidableEq, Repr

/-- One call of an adapter.  It is not enabled where the call raises. -/
def step (ad : Adapter κ φ A) (x : A × World κ φ) : Op → Option (A × World κ φ)
  | .read => (ad.read x.2 x.1).toOption.map Prod.snd
  | .write seg => (ad.write x.2 x.1 seg).toOption
  | .tick ms => (ad.tick x.2 x.1 ms).toOption

/-- The segments that are given to an adapter. -/
def givenBy (ops : List Op) : List TCPSegment :=
  ops.filterMap fun
    | .write seg => some seg
    | _ => none

/-- All that was written is faithful to what was given. -/
def WrittenFrom (Reads : List Byte → TCPSegment → Prop) (fd : φ) (given : List TCPSegment)
    (calls : List (Call φ)) : Prop :=
  ∀ bytes, .write fd bytes ∈ calls → Faithful Reads given bytes

omit [DecidableEq φ] in
theorem WrittenFrom.emits {Reads : List Byte → TCPSegment → Prop} {fd : φ}
    {given given' : List TCPSegment} {out : List (List Byte)}
    {w w' : World (κ × List (Call φ)) φ} (h : WrittenFrom Reads fd given w.kernel.2)
    (hsub : given ⊆ given') (hemits : Emits fd out w w')
    (hout : ∀ o ∈ out, Faithful Reads given' o) : WrittenFrom Reads fd given' w'.kernel.2 := by
  intro bytes hbytes
  rw [hemits.calls] at hbytes
  rcases List.mem_append.mp hbytes with hold | hnew
  · exact (h bytes hold).mono hsub
  · obtain ⟨o, ho, heq⟩ := List.mem_map.mp hnew
    obtain ⟨-, rfl⟩ := Call.write.inj heq
    exact hout o ho

omit [DecidableEq φ] in
theorem WrittenFrom.arrives {Reads : List Byte → TCPSegment → Prop} {fd : φ}
    {given : List TCPSegment} {bytes : List Byte} {w w' : World (κ × List (Call φ)) φ}
    (h : WrittenFrom Reads fd given w.kernel.2) (harrives : Arrives fd bytes w w') :
    WrittenFrom Reads fd given w'.kernel.2 := by
  intro bytes' hbytes'
  rw [harrives.calls] at hbytes'
  rcases List.mem_append.mp hbytes' with hold | hnew
  · exact h bytes' hold
  · cases List.mem_singleton.mp hnew

omit [DecidableEq φ] in
/-- **ONE CALL** keeps the law. -/
theorem Lawful.call {ad : Adapter (κ × List (Call φ)) φ A} {fd : φ}
    {Reads : List Byte → TCPSegment → Prop} {Holds : List TCPSegment → A → Prop}
    (hlaw : Lawful ad fd Reads Holds) {given : List TCPSegment} {op : Op}
    {x y : A × World (κ × List (Call φ)) φ} (hop : ∀ seg, op = .write seg → Standard seg)
    (hholds : Holds given x.1) (hwritten : WrittenFrom Reads fd given x.2.kernel.2)
    (h : step ad x op = some y) :
    Holds (given ++ givenBy [op]) y.1
      ∧ WrittenFrom Reads fd (given ++ givenBy [op]) y.2.kernel.2 := by
  cases op with
  | read =>
      obtain ⟨⟨result, y⟩, hread, rfl⟩ := Option.map_eq_some_iff.mp h
      obtain ⟨bytes, w₁, out, harrives, hemits, hholds', hout, -⟩ :=
        hlaw.read given x.2 x.1 result _ _ hholds (toOption_eq_some hread)
      rw [show givenBy [.read] = [] from rfl, List.append_nil]
      exact ⟨hholds', (hwritten.arrives harrives).emits (List.Subset.refl _) hemits hout⟩
  | write seg =>
      obtain ⟨out, hemits, hholds', hout⟩ :=
        hlaw.write given x.2 x.1 seg _ _ hholds (hop seg rfl) (toOption_eq_some h)
      exact ⟨hholds', hwritten.emits (List.subset_append_left given [seg]) hemits hout⟩
  | tick ms =>
      obtain ⟨out, hemits, hholds', hout⟩ :=
        hlaw.tick given x.2 x.1 ms _ _ hholds (toOption_eq_some h)
      rw [show givenBy [.tick ms] = [] from rfl, List.append_nil]
      exact ⟨hholds', hwritten.emits (List.Subset.refl _) hemits hout⟩

omit [DecidableEq φ] in
/-- **EVERY RUN** keeps it. -/
theorem Lawful.calls {ad : Adapter (κ × List (Call φ)) φ A} {fd : φ}
    {Reads : List Byte → TCPSegment → Prop} {Holds : List TCPSegment → A → Prop}
    (hlaw : Lawful ad fd Reads Holds) :
    ∀ (ops : List Op) (given : List TCPSegment) (x y : A × World (κ × List (Call φ)) φ),
      (∀ seg, .write seg ∈ ops → Standard seg) → Holds given x.1 →
      WrittenFrom Reads fd given x.2.kernel.2 → run (step ad) x ops = some y →
      Holds (given ++ givenBy ops) y.1
        ∧ WrittenFrom Reads fd (given ++ givenBy ops) y.2.kernel.2 := by
  intro ops
  induction ops with
  | nil =>
      intro given x y _ hholds hwritten hrun
      obtain rfl := Option.some.inj hrun
      rw [show givenBy [] = [] from rfl, List.append_nil]
      exact ⟨hholds, hwritten⟩
  | cons op ops ih =>
      intro given x y hops hholds hwritten hrun
      obtain ⟨x₁, hstep, hrest⟩ := Option.bind_eq_some_iff.mp hrun
      obtain ⟨hholds₁, hwritten₁⟩ := hlaw.call
        (fun seg heq => hops seg (heq ▸ List.mem_cons_self ..)) hholds hwritten hstep
      have hmore := ih _ x₁ y (fun seg hseg => hops seg (List.mem_cons_of_mem _ hseg)) hholds₁
        hwritten₁ hrest
      have hgiven : givenBy (op :: ops) = givenBy [op] ++ givenBy ops := by
        rw [givenBy, givenBy, givenBy, ← List.filterMap_append]
        rfl
      rw [hgiven, ← List.append_assoc]
      exact hmore

theorem mem_givenBy {ops : List Op} {seg : TCPSegment} :
    seg ∈ givenBy ops ↔ .write seg ∈ ops := by
  rw [givenBy, List.mem_filterMap]
  constructor
  · rintro ⟨op, hop, heq⟩
    cases op with
    | read => cases heq
    | write seg' => exact Option.some.inj heq ▸ hop
    | tick ms => cases heq
  · intro h
    exact ⟨_, h, rfl⟩

/-- The frame of the constructor carries nothing. -/
theorem ethernet_new {K : Kernel κ φ} {fd : φ} (hK : WholeWrites K fd) {k : κ}
    {ethernetAddress : EthernetAddress} {ipAddress nextHop : Address} {a : EthernetAdapter}
    {w : World (κ × List (Call φ)) φ}
    (h : EthernetAdapter.new K.recording fd ⟨(k, []), fun _ => {}⟩ ethernetAddress ipAddress
      nextHop = .ok (a, w)) :
    Waits [] a ∧ WrittenFrom ReadsEthernet fd [] w.kernel.2
      ∧ ∃ bytes, Emits fd [bytes] ⟨(k, []), fun _ => {}⟩ w := by
  obtain ⟨w₁, hdummy, heq⟩ := bind_eq_ok.mp h
  obtain ⟨rfl, rfl⟩ := Prod.mk.inj (Except.ok.inj heq)
  obtain ⟨⟨n, w₂⟩, hwrite, rfl⟩ := map_eq_ok.mp hdummy
  have hemits := emits_whole hK hwrite
  refine ⟨⟨rfl, fun _ hp => absurd hp List.not_mem_nil⟩, ?_, _, hemits⟩
  have hnone : WrittenFrom ReadsEthernet fd [] ([] : List (Call φ)) := fun _ hbytes =>
    absurd hbytes List.not_mem_nil
  refine hnone.emits (List.Subset.refl _) hemits fun o ho => ?_
  rw [List.mem_singleton.mp ho, BufferViewList.flatten_ofBufferList]
  exact faithful_other (by decide) []

/-- **NOTHING IS FORGED ON THE WAY**, over Ethernet: after any calls of an adapter that is
    given segments of a connection, whatever arrived in between and however long datagrams
    waited for their next hop, a frame that it ever wrote and that any other adapter reads as
    a segment is read as one that it was given, up to the ports and the checksum. -/
theorem frames_faithful {κ' φ' : Type} [DecidableEq φ'] (K : Kernel κ φ) (fd : φ)
    (hK : WholeWrites K fd) (k : κ) (ethernetAddress : EthernetAddress)
    (ipAddress nextHop : Address) (config : FdAdapterConfig) (a : EthernetAdapter)
    (w : World (κ × List (Call φ)) φ) (ops : List Op)
    (y : EthernetAdapter × World (κ × List (Call φ)) φ)
    (hnew : EthernetAdapter.new K.recording fd ⟨(k, []), fun _ => {}⟩ ethernetAddress ipAddress
      nextHop = .ok (a, w))
    (hops : ∀ seg, .write seg ∈ ops → Standard seg)
    (hrun : run (step (overEthernet K.recording fd))
      ((overEthernet K.recording fd).setConfig a config, w) ops = some y)
    (K' : Kernel κ' φ') (fd' : φ') (v v₁ v' : World κ' φ') (b b' : EthernetAdapter)
    (bytes : List Byte) (seg' : TCPSegment) (hwrote : .write fd bytes ∈ y.2.kernel.2)
    (hbytes : FileDescriptor.read K' v fd' sizeMax = .ok (bytes, v₁))
    (hread : (overEthernet K' fd').read v b = .ok (some seg', b', v')) :
    ∃ seg, .write seg ∈ ops ∧ Alike seg seg' := by
  obtain ⟨hwaits, hstart, -⟩ := ethernet_new hK hnew
  obtain ⟨-, hwritten⟩ := (lawful_ethernet hK).calls ops [] _ y hops
    ⟨hwaits.frames, hwaits.pending⟩ hstart hrun
  obtain ⟨seg, hseg, halike⟩ := hwritten bytes hwrote seg' (ethernet_reads hbytes hread)
  rw [List.nil_append] at hseg
  exact ⟨seg, mem_givenBy.mp hseg, halike⟩

end Runs

/-- A device that gives the frames in its state, and takes everything. -/
def tap : Kernel (List (List Byte)) Unit where
  read k _ _ := .ok (k.headD [], k.tail)
  writev k _ iovecs := .ok ((iovecs.flatMap Prod.fst).length, k)
  shutdown k _ _ := .ok k
  close k _ := .ok k

/-- The ARP reply of the host with the address zero. -/
def answer : List Byte :=
  .replicate 12 0 ++ [8, 6, 0, 1, 8, 0, 6, 4, 0, 2] ++ .replicate 20 0

/-- The frame of a `SYN` between hosts with the address zero. -/
def synFrame : List Byte :=
  .replicate 12 0 ++ [8, 0, 69, 0, 0, 40, 0, 0, 64, 0, 128, 6, 250, 208] ++ .replicate 20 0
    ++ [80, 2, 0, 0, 175, 227, 0, 0]

def synCalls : List Op := [.write { header := { syn := true } }, .read]

/-- The segment waits for the answer, and then its frame can be read. -/
theorem synFrame_read :
    ∃ a w y v₁ b' seg' v',
      EthernetAdapter.new tap.recording () ⟨([answer], []), fun _ => {}⟩ (.replicate 6 0) {} {}
        = .ok (a, w)
      ∧ run (step (overEthernet tap.recording ()))
          ((overEthernet tap.recording ()).setConfig a {}, w) synCalls = some y
      ∧ .write () synFrame ∈ y.2.kernel.2
      ∧ FileDescriptor.read tap ⟨[synFrame], fun _ => {}⟩ () sizeMax = .ok (synFrame, v₁)
      ∧ (overEthernet tap ()).read ⟨[synFrame], fun _ => {}⟩ a = .ok (some seg', b', v') :=
  ⟨_, _, _, _, _, _, _, rfl, rfl, List.mem_of_getElem? (i := 3) rfl, rfl, rfl⟩

theorem frames_faithful_tap :
    ∃ a b' seg' v',
      (overEthernet tap ()).read ⟨[synFrame], fun _ => {}⟩ a = .ok (some seg', b', v')
      ∧ ∃ seg, .write seg ∈ synCalls ∧ Alike seg seg' := by
  have hwhole : WholeWrites tap () := by
    intro k iovecs n k' h
    exact (Prod.mk.inj (Except.ok.inj h)).1.symm
  have hstandard : ∀ seg, .write seg ∈ synCalls → Standard seg := by
    intro seg hseg
    simp_all [synCalls, Standard]
  obtain ⟨a, w, y, v₁, b', seg', v', hnew, hrun, hwrote, hbytes, hread⟩ := synFrame_read
  exact ⟨a, b', seg', v', hread, frames_faithful tap () hwhole [answer] (.replicate 6 0) {} {} {} a
    w synCalls y hnew hstandard hrun tap () _ v₁ v' a b' synFrame seg' hwrote hbytes hread⟩

end SpongeChannel
