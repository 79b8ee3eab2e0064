import Sponge.RunProofs
import Sponge.TCPWireProofs

/-! # Segments in datagrams — `fd_adapter`, `tcp_over_ip`

    An adapter carries segments in IPv4 datagrams.  It writes its addresses and ports
    into what it wraps, and hands on only what comes from its peer.  While it listens it
    has no peer; the first `SYN` that reaches its port says who that is.

    Two adapters that are each other's peer understand each other
    (`wrap_unwrap_mirrored`), and what a listening adapter hands on all comes from one
    peer (`one_peer`). -/

namespace SpongeAdapter

open SpongeByteStream SpongeBuffer SpongeParser SpongeIPv4 SpongeSegment RunRule

/-- What an `Address` is asked for. -/
structure Address where
  ipv4Numeric : BitVec 32 := 0
  port : BitVec 16 := 0
deriving DecidableEq, Repr

structure FdAdapterConfig where
  source : Address := {}
  destination : Address := {}
deriving DecidableEq, Repr

/-- The state is that of `FdAdapterBase`. -/
structure TCPOverIPv4Adapter where
  config : FdAdapterConfig := {}
  listening : Bool := false
deriving DecidableEq, Repr

namespace TCPOverIPv4Adapter

/-- The addresses and ports to reply to from now on. -/
def target (a : TCPOverIPv4Adapter) (ipDgram : IPv4Datagram) (tcpSeg : TCPSegment) :
    TCPOverIPv4Adapter where
  config :=
    { a.config with
      source := ⟨ipDgram.header.dst, a.config.source.port⟩
      destination := ⟨ipDgram.header.src, tcpSeg.header.sport⟩ }
  listening := false

/-- The last check: is the segment from the peer? -/
def fromPeer (a : TCPOverIPv4Adapter) (tcpSeg : TCPSegment) :
    Except String (Option TCPSegment) × TCPOverIPv4Adapter :=
  if tcpSeg.header.sport ≠ a.config.destination.port then (.ok none, a)
  else (.ok (some tcpSeg), a)

/-- The checks of a segment that was read. -/
def forUs (a : TCPOverIPv4Adapter) (ipDgram : IPv4Datagram) (tcpSeg : TCPSegment) :
    Except String (Option TCPSegment) × TCPOverIPv4Adapter :=
  if tcpSeg.header.dport ≠ a.config.source.port then (.ok none, a)
  else if a.listening then
    if tcpSeg.header.syn && !tcpSeg.header.rst then
      (a.target ipDgram tcpSeg).fromPeer tcpSeg
    else (.ok none, a)
  else a.fromPeer tcpSeg

/-- It raises on a payload in several pieces. -/
def unwrapTcpInIp (a : TCPOverIPv4Adapter) (ipDgram : IPv4Datagram) :
    Except String (Option TCPSegment) × TCPOverIPv4Adapter :=
  if !a.listening && ipDgram.header.dst != a.config.source.ipv4Numeric then (.ok none, a)
  else if !a.listening && ipDgram.header.src != a.config.destination.ipv4Numeric then
    (.ok none, a)
  else if ipDgram.header.proto ≠ IPv4Header.protoTCP then (.ok none, a)
  else
    match ipDgram.payload.toBuffer with
    | .error text => (.error text, a)
    | .ok buffer =>
        let parsed := TCPSegment.parse {} buffer ipDgram.header.pseudoCksum
        if parsed.1 ≠ .noError then (.ok none, a) else a.forUs ipDgram parsed.2

/-- The segment with the adapter's ports. -/
def withPorts (a : TCPOverIPv4Adapter) (seg : TCPSegment) : TCPSegment :=
  { seg with
    header :=
      { seg.header with sport := a.config.source.port, dport := a.config.destination.port } }

/-- The header of the datagram that carries a segment. -/
def datagramHeader (a : TCPOverIPv4Adapter) (seg : TCPSegment) : IPv4Header :=
  let header : IPv4Header :=
    { src := a.config.source.ipv4Numeric, dst := a.config.destination.ipv4Numeric }
  { header with
    len := BitVec.ofNat 16
      (header.hlen.toNat * 4 + seg.header.doff.toNat * 4 + seg.payload.length) }

/-- The segment is changed as well: its ports are set. -/
def wrapTcpInIp (a : TCPOverIPv4Adapter) (seg : TCPSegment) :
    Except String IPv4Datagram × TCPSegment :=
  let seg := a.withPorts seg
  let header := a.datagramHeader seg
  match seg.serialize header.pseudoCksum with
  | .error text => (.error text, seg)
  | .ok payload => (.ok { header := header, payload := payload }, seg)

/-! ## What unwrapping does -/

section Unwrap

variable {a : TCPOverIPv4Adapter} {d : IPv4Datagram}

/-- The checks of the segment, one after the other. -/
theorem forUs_cases (seg : TCPSegment) :
    a.forUs d seg = (.ok none, a)
      ∨ (a.forUs d seg = (.ok (some seg), a) ∧ a.listening = false
        ∧ seg.header.dport = a.config.source.port
        ∧ seg.header.sport = a.config.destination.port)
      ∨ (a.forUs d seg = (.ok (some seg), a.target d seg) ∧ a.listening = true
        ∧ seg.header.dport = a.config.source.port
        ∧ seg.header.syn = true ∧ seg.header.rst = false) := by
  rw [forUs]
  by_cases hdport : seg.header.dport = a.config.source.port
  swap
  · exact Or.inl (if_pos hdport)
  rw [if_neg (not_not.mpr hdport)]
  cases hlistening : a.listening with
  | false =>
      rw [if_neg Bool.false_ne_true, fromPeer]
      by_cases hsport : seg.header.sport = a.config.destination.port
      · exact Or.inr (Or.inl ⟨if_neg (not_not.mpr hsport), rfl, hdport, hsport⟩)
      · exact Or.inl (if_pos hsport)
  | true =>
      rw [if_pos rfl]
      by_cases hfirst : (seg.header.syn && !seg.header.rst) = true
      · obtain ⟨hsyn, hrst⟩ : seg.header.syn = true ∧ seg.header.rst = false := by
          simpa using hfirst
        -- the source port was taken over just now, so the last check passes
        have hsame : (a.target d seg).fromPeer seg = (.ok (some seg), a.target d seg) :=
          if_neg (not_not.mpr rfl)
        rw [if_pos hfirst]
        exact Or.inr (Or.inr ⟨hsame, rfl, hdport, hsyn, hrst⟩)
      · exact Or.inl (if_neg hfirst)

/-- With a peer, the ports decide. -/
theorem forUs_of_ports {seg : TCPSegment} (hpeer : a.listening = false)
    (hdport : seg.header.dport = a.config.source.port)
    (hsport : seg.header.sport = a.config.destination.port) :
    a.forUs d seg = (.ok (some seg), a) := by
  rw [forUs, if_neg (not_not.mpr hdport), hpeer, if_neg Bool.false_ne_true, fromPeer,
    if_neg (not_not.mpr hsport)]

/-- The checks of the datagram: only without a peer its addresses do not matter. -/
theorem unwrap_forUs (hone : d.payload.buffers.length ≤ 1) :
    a.unwrapTcpInIp d = (.ok none, a)
      ∨ (∃ seg, a.unwrapTcpInIp d = a.forUs d seg)
        ∧ (a.listening = false → d.header.dst = a.config.source.ipv4Numeric
          ∧ d.header.src = a.config.destination.ipv4Numeric) := by
  obtain ⟨buffer, hbuffer⟩ := BufferList.toBuffer_of_single hone
  rw [unwrapTcpInIp, hbuffer]
  split_ifs with hdst hsrc hproto
  · exact Or.inl rfl
  · exact Or.inl rfl
  · exact Or.inl rfl
  · dsimp only
    split_ifs with hresult
    · exact Or.inl rfl
    · refine Or.inr ⟨⟨_, rfl⟩, fun hlistening => ?_⟩
      simpa [hlistening] using And.intro hdst hsrc

/-- A datagram and a segment in it, as the peer of `a` sends them. -/
structure FromPeer (a : TCPOverIPv4Adapter) (d : IPv4Datagram) (seg : TCPSegment) : Prop where
  dst : d.header.dst = a.config.source.ipv4Numeric
  src : d.header.src = a.config.destination.ipv4Numeric
  dport : seg.header.dport = a.config.source.port
  sport : seg.header.sport = a.config.destination.port

/-- **WHAT A CALL CAN DO**, on a payload in one piece: answer nothing and change nothing,
    hand on a segment of the peer, or find the peer in the segment it hands on. -/
theorem unwrap_cases (hone : d.payload.buffers.length ≤ 1) :
    a.unwrapTcpInIp d = (.ok none, a)
      ∨ (∃ seg, a.unwrapTcpInIp d = (.ok (some seg), a) ∧ a.listening = false
        ∧ FromPeer a d seg)
      ∨ (∃ seg, a.unwrapTcpInIp d = (.ok (some seg), a.target d seg) ∧ a.listening = true
        ∧ seg.header.syn = true ∧ seg.header.rst = false ∧ FromPeer (a.target d seg) d seg) := by
  rcases unwrap_forUs (a := a) hone with hnone | ⟨⟨seg, hcall⟩, haddr⟩
  · exact Or.inl hnone
  rw [hcall]
  rcases forUs_cases (a := a) (d := d) seg with
    hnone | ⟨hsome, hlistening, hdport, hsport⟩ | ⟨hsome, hlistening, hdport, hsyn, hrst⟩
  · exact Or.inl hnone
  · obtain ⟨hdst, hsrc⟩ := haddr hlistening
    exact Or.inr (Or.inl ⟨seg, hsome, hlistening, hdst, hsrc, hdport, hsport⟩)
  · exact Or.inr (Or.inr ⟨seg, hsome, hlistening, hsyn, hrst, rfl, rfl, hdport, rfl⟩)

end Unwrap

end TCPOverIPv4Adapter

/-! ## One peer -/

open TCPOverIPv4Adapter

/-- An adapter, and what it handed on so far with the datagrams it came in. -/
structure Heard where
  adapter : TCPOverIPv4Adapter
  returned : List (IPv4Datagram × TCPSegment) := []
deriving DecidableEq, Repr

/-- One call of `unwrap_tcp_in_ip`. -/
def Heard.step (h : Heard) (d : IPv4Datagram) : Option Heard :=
  match h.adapter.unwrapTcpInIp d with
  | (.ok (some seg), a) => some { adapter := a, returned := h.returned ++ [(d, seg)] }
  | (.ok none, a) => some { h with adapter := a }
  | (.error _, _) => none

/-- An adapter that listened at a port, later on: it has a peer once it handed something
    on, and that came from the peer. -/
structure Locked (port : BitVec 16) (h : Heard) : Prop where
  port : h.adapter.config.source.port = port
  listening_iff : h.adapter.listening = true ↔ h.returned = []
  fromPeer : ∀ r ∈ h.returned, FromPeer h.adapter r.1 r.2
  first : ∀ r ∈ h.returned.head?, r.2.header.syn = true ∧ r.2.header.rst = false

theorem Locked.start {a : TCPOverIPv4Adapter} (ha : a.listening = true) :
    Locked a.config.source.port { adapter := a } where
  port := rfl
  listening_iff := iff_of_true ha rfl
  fromPeer := fun _ hr => absurd hr List.not_mem_nil
  first := fun _ hr => nomatch hr

/-- Every call keeps it so. -/
theorem Locked.step {port : BitVec 16} {h : Heard} {d : IPv4Datagram} (hlocked : Locked port h)
    (hone : d.payload.buffers.length ≤ 1) : ∃ h', h.step d = some h' ∧ Locked port h' := by
  rcases unwrap_cases (a := h.adapter) hone with
    hnone | ⟨seg, hsome, hlistening, hpeer⟩ | ⟨seg, hsome, hlistening, hsyn, hrst, hpeer⟩
  · refine ⟨h, ?_, hlocked⟩
    rw [Heard.step, hnone]
  · -- something was handed on before, so the new segment is not the first
    have hnonempty : h.returned ≠ [] := by
      intro hnil
      rw [hlocked.listening_iff.mpr hnil] at hlistening
      exact Bool.noConfusion hlistening
    refine ⟨{ h with returned := h.returned ++ [(d, seg)] }, ?_, ?_⟩
    · rw [Heard.step, hsome]
    · refine ⟨hlocked.port, ?_, ?_, ?_⟩
      · exact iff_of_false (by rw [hlistening]; exact Bool.false_ne_true) (by simp)
      · intro r hr
        rcases List.mem_append.mp hr with hr | hr
        · exact hlocked.fromPeer r hr
        · rw [List.mem_singleton.mp hr]
          exact hpeer
      · intro r hr
        rw [List.head?_append_of_ne_nil _ hnonempty] at hr
        exact hlocked.first r hr
  · -- the adapter listened, so this is the first
    have hempty := hlocked.listening_iff.mp hlistening
    refine ⟨{ adapter := h.adapter.target d seg, returned := h.returned ++ [(d, seg)] }, ?_, ?_⟩
    · rw [Heard.step, hsome]
    · rw [hempty]
      refine ⟨hlocked.port, iff_of_false Bool.false_ne_true (by simp), ?_, ?_⟩
      · intro r hr
        rw [List.mem_singleton.mp hr]
        exact hpeer
      · rintro r ⟨⟩
        exact ⟨hsyn, hrst⟩

/-- **A LISTENING ADAPTER LOCKS ON TO ONE PEER**: all it hands on comes from the same
    address and port to the same address and to its port, the first being a `SYN` without
    `RST`; it handed nothing on as long as it listens, and a call that hands nothing on
    changes nothing. -/
theorem one_peer (a : TCPOverIPv4Adapter) (ha : a.listening = true) (ds : List IPv4Datagram)
    (hone : ∀ d ∈ ds, d.payload.buffers.length ≤ 1) :
    ∃ h, run Heard.step { adapter := a } ds = some h
      ∧ (∃ src dst sport, ∀ r ∈ h.returned, r.1.header.src = src ∧ r.1.header.dst = dst
        ∧ r.2.header.sport = sport ∧ r.2.header.dport = a.config.source.port)
      ∧ (∀ r ∈ h.returned.head?, r.2.header.syn = true ∧ r.2.header.rst = false)
      ∧ (h.adapter.listening = true → h.returned = [])
      ∧ ∀ d : IPv4Datagram, d.payload.buffers.length ≤ 1 →
        (h.adapter.unwrapTcpInIp d).1 = .ok none → (h.adapter.unwrapTcpInIp d).2 = h.adapter := by
  obtain ⟨h, hrun, hlocked⟩ := run_total (I := Locked a.config.source.port)
    (G := fun d => d.payload.buffers.length ≤ 1) (fun _ _ hl hd => hl.step hd) ds _
    (Locked.start ha) hone
  refine ⟨h, hrun, ⟨h.adapter.config.destination.ipv4Numeric,
    h.adapter.config.source.ipv4Numeric, h.adapter.config.destination.port, ?_⟩,
    hlocked.first, hlocked.listening_iff.mp, ?_⟩
  · intro r hr
    obtain ⟨hdst, hsrc, hdport, hsport⟩ := hlocked.fromPeer r hr
    exact ⟨hsrc, hdst, hsport, hdport.trans hlocked.port⟩
  · intro d hd hquiet
    rcases unwrap_cases (a := h.adapter) hd with hnone | ⟨seg, hsome, -⟩ | ⟨seg, hsome, -⟩
    · rw [hnone]
    · rw [hsome] at hquiet
      exact nomatch hquiet
    · rw [hsome] at hquiet
      exact nomatch hquiet

/-- A `SYN` from a host to port 80 of the address zero, with the last byte of its
    checksum. -/
def synDatagram (src : BitVec 32) (cksum : Byte) : IPv4Datagram where
  header := { len := 40, src := src }
  payload := .ofString [0, 1, 0, 80, 0, 0, 0, 0, 0, 0, 0, 0, 80, 2, 0, 0, 175, cksum, 0, 0]

/-- An adapter that waits at port 80. -/
def listener : TCPOverIPv4Adapter := { config := { source := ⟨0, 80⟩ }, listening := true }

/-- Two hosts send a `SYN`, and each would be handed on if it came first: the first one makes
    the peer, and the other is refused. -/
theorem one_peer_after_syn :
    ∃ h, run Heard.step { adapter := listener } [synDatagram 0 146, synDatagram 1 145] = some h
      ∧ (run Heard.step { adapter := listener } [synDatagram 1 145]).any
        (fun h' => h'.returned.length == 1) = true
      ∧ h.returned.map Prod.fst = [synDatagram 0 146] ∧ h.adapter.listening = false
      ∧ ∀ r ∈ h.returned.head?, r.2.header.syn = true ∧ r.2.header.rst = false := by
  have hreach : ∃ h, run Heard.step { adapter := listener }
        [synDatagram 0 146, synDatagram 1 145] = some h
      ∧ (run Heard.step { adapter := listener } [synDatagram 1 145]).any
        (fun h' => h'.returned.length == 1) = true
      ∧ h.returned.map Prod.fst = [synDatagram 0 146] ∧ h.adapter.listening = false :=
    run_reaches (by decide)
  obtain ⟨h, hrun, hother, hreturned, hpeer⟩ := hreach
  obtain ⟨h', hrun', -, hfirst, -⟩ := one_peer listener rfl [synDatagram 0 146, synDatagram 1 145]
    (by decide)
  obtain rfl := Option.some.inj (hrun.symm.trans hrun')
  exact ⟨h, hrun, hother, hreturned, hpeer, hfirst⟩

/-! ## There and back -/

section Mirrored

variable {a : TCPOverIPv4Adapter} {seg : TCPSegment}

/-- The length of the datagram, where it fits. -/
theorem toNat_datagramHeader_len
    (hsize : 20 + 4 * seg.header.doff.toNat + seg.payload.length ≤ 65535) :
    (a.datagramHeader seg).len.toNat = 20 + 4 * seg.header.doff.toNat + seg.payload.length := by
  have hlen : (a.datagramHeader seg).len
      = BitVec.ofNat 16 (5 * 4 + seg.header.doff.toNat * 4 + seg.payload.length) := rfl
  rw [hlen, BitVec.toNat_ofNat]
  omega

/-- A payload of the length that the header says makes a well-formed datagram. -/
theorem datagramHeader_wellFormed
    (hsize : 20 + 4 * seg.header.doff.toNat + seg.payload.length ≤ 65535) {payload : BufferList}
    (hpayload : payload.size = 4 * seg.header.doff.toNat + seg.payload.length) :
    IPv4Datagram.WellFormed { header := a.datagramHeader seg, payload := payload } := by
  have hhlen : (a.datagramHeader seg).hlen.toNat = 5 := rfl
  refine ⟨rfl, Nat.le_of_eq hhlen.symm, Nat.le_trans (Nat.le_of_eq hhlen) (by decide), ?_⟩
  show payload.size = (a.datagramHeader seg).payloadLength.toNat
  rw [hpayload, toNat_payloadLength, toNat_datagramHeader_len hsize, hhlen]
  omega

/-- **A SEGMENT OF THE PEER** is unwrapped. -/
theorem unwrap_wire {peer : TCPOverIPv4Adapter} {d : IPv4Datagram} {rest : Buffer}
    (hmin : 5 ≤ seg.header.doff.toNat) (hmax : seg.header.doff.toNat ≤ 15)
    (hsize : 20 + 4 * seg.header.doff.toNat + seg.payload.length ≤ 65535)
    (hpeer : peer.listening = false) (hproto : d.header.proto = IPv4Header.protoTCP)
    (hfrom : FromPeer peer d seg) (hpayload : d.payload = .ofBuffer rest)
    (hrest : rest.str = seg.wire (seg.computedCksum d.header.pseudoCksum)) :
    peer.unwrapTcpInIp d
      = (.ok (some
          { header := seg.headerWith (seg.computedCksum d.header.pseudoCksum)
            payload := seg.payload }), peer) := by
  have hfits : d.header.pseudoCksum.toNat
      + (4 * seg.header.doff.toNat + seg.payload.length) * 65280 < 2 ^ 32 := by
    have hle := d.header.pseudoCksum_le
    omega
  have hparse := TCPSegment.parse_serialize hmin hmax hfits hrest
  have hbuffer : d.payload.toBuffer = .ok rest := by
    rw [hpayload]
    rfl
  have hdst : (d.header.dst != peer.config.source.ipv4Numeric) = false :=
    bne_eq_false_iff_eq.mpr hfrom.dst
  have hsrc : (d.header.src != peer.config.destination.ipv4Numeric) = false :=
    bne_eq_false_iff_eq.mpr hfrom.src
  rw [unwrapTcpInIp, hdst, hsrc, Bool.and_false, if_neg Bool.false_ne_true,
    if_neg Bool.false_ne_true, if_neg (not_not.mpr hproto), hbuffer]
  dsimp only
  rw [hparse, if_neg (not_not.mpr rfl)]
  exact forUs_of_ports hpeer hfrom.dport hfrom.sport

/-- **THERE AND BACK**: what an adapter wraps, its mirror image unwraps from the bytes,
    with the ports of the adapter and the checksum that was computed. -/
theorem wrap_unwrap_mirrored (a peer : TCPOverIPv4Adapter) (seg : TCPSegment)
    (hpeer : peer.listening = false) (hsource : peer.config.source = a.config.destination)
    (hdestination : peer.config.destination = a.config.source)
    (hmin : 5 ≤ seg.header.doff.toNat) (hmax : seg.header.doff.toNat ≤ 15)
    (hsize : 20 + 4 * seg.header.doff.toNat + seg.payload.length ≤ 65535) :
    ∃ ipDgram bytes ipDgram' headerZero,
      (a.wrapTcpInIp seg).1 = .ok ipDgram
      ∧ ipDgram.serialize = .ok bytes
      ∧ IPv4Datagram.parse {} (.ofString bytes.concatenate) = (.noError, ipDgram')
      ∧ { (a.wrapTcpInIp seg).2.header with cksum := 0 }.serialize = .ok headerZero
      ∧ peer.unwrapTcpInIp ipDgram'
        = (.ok (some
            { header :=
                { seg.header with
                  sport := a.config.source.port
                  dport := a.config.destination.port
                  cksum := ((InternetChecksum.add { sum := ipDgram.header.pseudoCksum }
                    headerZero).add seg.payload).value }
              payload := seg.payload }), peer) := by
  -- the segment as it is sent; only its ports differ
  obtain ⟨s, hs⟩ : ∃ s, s = a.withPorts seg := ⟨_, rfl⟩
  have hdoff : s.header.doff = seg.header.doff := by rw [hs]; rfl
  have hbody : s.payload = seg.payload := by rw [hs]; rfl
  rw [← hdoff] at hmin hmax hsize
  rw [← hbody] at hsize
  obtain ⟨payload, hserialize, hpayload⟩ :=
    TCPSegment.serialize_eq hmin (a.datagramHeader s).pseudoCksum
  have hwrap : a.wrapTcpInIp seg = (.ok { header := a.datagramHeader s, payload := payload }, s) := by
    rw [wrapTcpInIp, ← hs, hserialize]
  have hwf : IPv4Datagram.WellFormed { header := a.datagramHeader s, payload := payload } := by
    refine datagramHeader_wellFormed hsize ?_
    rw [BufferList.size_eq_length, hpayload, TCPSegment.length_wire hmin]
  have hfits : 4 * (a.datagramHeader s).hlen.toNat ≤ (a.datagramHeader s).len.toNat := by
    rw [toNat_datagramHeader_len hsize, show (a.datagramHeader s).hlen.toNat = 5 from rfl]
    omega
  obtain ⟨bytes, hbytes, hconcat⟩ := IPv4Datagram.serialize_eq hwf
  obtain ⟨rest, hrest, hparse⟩ := IPv4Datagram.parse_serialize hwf hfits (Nat.two_pow_pos 13)
    (show (Buffer.ofString bytes.concatenate).str = _ from hconcat)
  -- the checksum of the header has no part in what follows
  generalize IPv4Datagram.computedCksum { header := a.datagramHeader s, payload := payload }
    = cksum at hparse
  rw [hwrap]
  refine ⟨_, bytes, _, s.headerWire 0, rfl, hbytes, hparse,
    TCPSegment.serialize_headerWith hmin 0, ?_⟩
  have hfrom : FromPeer peer
      { header := { a.datagramHeader s with cksum := cksum }, payload := .ofBuffer rest } s := by
    refine ⟨?_, ?_, ?_, ?_⟩
    · rw [hsource]; rfl
    · rw [hdestination]; rfl
    · rw [hsource, hs]; rfl
    · rw [hdestination, hs]; rfl
  have hpseudo : IPv4Header.pseudoCksum { a.datagramHeader s with cksum := cksum }
      = (a.datagramHeader s).pseudoCksum := IPv4Header.pseudoCksum_cksum _ _
  have hunwrap := unwrap_wire hmin hmax hsize hpeer rfl hfrom rfl
    (by rw [hpseudo]; exact hrest.trans hpayload)
  rw [hpseudo] at hunwrap
  refine hunwrap.trans ?_
  rw [hs]
  rfl

/-- A segment with a word of options and three bytes. -/
theorem wrap_unwrap_mirrored_options :
    ∃ ipDgram bytes ipDgram' out,
      (wrapTcpInIp { config := { source := ⟨1, 10⟩, destination := ⟨2, 20⟩ } }
        { header := { doff := 6, syn := true }, payload := [1, 2, 3] }).1 = .ok ipDgram
      ∧ ipDgram.serialize = .ok bytes
      ∧ IPv4Datagram.parse {} (.ofString bytes.concatenate) = (.noError, ipDgram')
      ∧ (unwrapTcpInIp { config := { source := ⟨2, 20⟩, destination := ⟨1, 10⟩ } } ipDgram').1
        = .ok (some out)
      ∧ out.header.sport = 10 ∧ out.header.dport = 20 ∧ out.header.syn = true
      ∧ out.payload = [1, 2, 3] := by
  obtain ⟨ipDgram, bytes, ipDgram', headerZero, hwrap, hserialize, hparse, -, hunwrap⟩ :=
    wrap_unwrap_mirrored { config := { source := ⟨1, 10⟩, destination := ⟨2, 20⟩ } }
      { config := { source := ⟨2, 20⟩, destination := ⟨1, 10⟩ } }
      { header := { doff := 6, syn := true }, payload := [1, 2, 3] } rfl rfl rfl (by decide)
      (by decide) (by decide)
  exact ⟨ipDgram, bytes, ipDgram', _, hwrap, hserialize, hparse, congrArg Prod.fst hunwrap,
    rfl, rfl, rfl, rfl⟩

end Mirrored

end SpongeAdapter
