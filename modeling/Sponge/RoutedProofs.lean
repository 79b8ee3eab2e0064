import Sponge.InternetProofs
import Sponge.StackProofs

/-! # Two sockets and the routers between them — `lab7`

    Two sockets over Ethernet, and an internet.  What a socket writes to its device comes
    into the internet as frames; what a router sends out on the interface where the host is
    comes to the socket's device.  In between, packets are routed, lost, duplicated and
    reordered, and other hosts send theirs.

    A packet keeps its payload and its addresses on the way, so the segment that can be read
    from it can be read from what the one who sent it wrote.  With routers that let no host
    use another's address, the internet is an honest network for the two sockets, and bytes
    get from owner to owner (`routed_conveys`). -/

namespace SpongeRouted

open SpongeByteStream SpongeBuffer SpongeParser SpongeSegment SpongeIPv4 SpongeEthernet SpongeInterface
open SpongeConnection SpongeNetwork SpongeDescriptor SpongeEventLoop SpongeAdapter SpongeChannel
open SpongeSocket SpongeSimulation SpongeStack SpongeRouter SpongeInternet NetworkInterface RunRule

/-! ## The segment in a packet -/

/-- The segment can be read from the packet. -/
def ReadsPacket (p : Packet) (seg : TCPSegment) : Prop :=
  TCPSegment.parse {} (.ofString p.payload) p.header.pseudoCksum = (.noError, seg)

/-- A router changes nothing that matters to it. -/
theorem reads_older {p q : Packet} {seg : TCPSegment} (h : Older p q) (hq : ReadsPacket q seg) :
    ReadsPacket p seg := by
  obtain ⟨-, rfl⟩ := h
  exact hq

theorem readsPacket_of {d : IPv4Datagram} {seg : TCPSegment} (h : ReadsIPv4 d seg) :
    ReadsPacket (packet d) seg := by
  obtain ⟨buffer, hbuffer, hparse⟩ := h
  exact TCPSegment.parse_congr (concatenate_of_toBuffer hbuffer).symm hparse

/-- A datagram that was read is in one piece. -/
theorem readsIPv4_of {frame : EthernetFrame} {d : IPv4Datagram} {seg : TCPSegment}
    (hcarried : carriedDatagram frame = some d) (h : ReadsPacket (packet d) seg) :
    ReadsIPv4 d seg := by
  obtain ⟨-, buffer, -, hparse⟩ := carriedDatagram_eq_some_iff.mp hcarried
  have hok : (IPv4Datagram.parse {} buffer).1 = .noError := by rw [hparse]
  obtain ⟨rest, -, hspec⟩ := parse_spec buffer ((parse_noError_iff buffer).mp hok).1
  have hpayload : d.payload = .ofBuffer rest := by
    rw [hparse] at hspec
    exact congrArg IPv4Datagram.payload (Prod.mk.inj hspec).2
  have hbuffer : d.payload.toBuffer = .ok rest := by
    rw [hpayload]
    rfl
  have hstr : (Buffer.ofString (packet d).payload).str = rest.str :=
    concatenate_of_toBuffer hbuffer
  exact ⟨rest, hbuffer, TCPSegment.parse_congr hstr h⟩

/-- Frames with the same bytes carry the same packet. -/
theorem carried_congr {frame : EthernetFrame} {d : IPv4Datagram} (frame' : EthernetFrame)
    (htype : frame'.header.type = frame.header.type)
    (hpayload : frame'.payload.concatenate = frame.payload.concatenate) {buffer : Buffer}
    (hbuffer : frame'.payload.toBuffer = .ok buffer) (h : carriedDatagram frame = some d) :
    ∃ d', carriedDatagram frame' = some d' ∧ packet d' = packet d := by
  obtain ⟨hIPv4, buffer₀, hbuffer₀, hparse⟩ := carriedDatagram_eq_some_iff.mp h
  have hstr : buffer₀.str = buffer.str := by
    rw [← concatenate_of_toBuffer hbuffer₀, ← concatenate_of_toBuffer hbuffer, hpayload]
  have hok : (IPv4Datagram.parse {} buffer₀).1 = .noError := by rw [hparse]
  obtain ⟨hresult, hheader, hbody⟩ :=
    SpongeIPv4.parse_congr hstr ((parse_noError_iff buffer₀).mp hok).1
  rw [hparse] at hresult hheader hbody
  refine ⟨(IPv4Datagram.parse {} buffer).2, carriedDatagram_eq_some_iff.mpr
    ⟨htype.trans hIPv4, buffer, hbuffer, Prod.ext hresult rfl⟩, ?_⟩
  rw [packet, packet, hheader, hbody]

/-- **WHAT IS READ FROM A FRAME'S BYTES** can be read from its packet. -/
theorem inFrame_of_reads {frame : EthernetFrame} {seg : TCPSegment}
    (h : ReadsEthernet frame.serialize.concatenate seg) :
    ∃ p ∈ inFrame frame, ReadsPacket p seg := by
  obtain ⟨back, d, hparse, hcarried, hreads⟩ := h
  obtain ⟨f, hf, hheader, hpayload⟩ := EthernetFrame.parse_written frame.header {}
    (show (Buffer.ofString frame.serialize.concatenate).str = _ from frame.concatenate_serialize)
  obtain rfl := (Prod.mk.inj (hf.symm.trans hparse)).2
  obtain ⟨d', hcarried', hsame⟩ := carried_congr (onWire frame) (by rw [hheader]; rfl)
    (by rw [hpayload]; exact BufferList.concatenate_ofString _) rfl hcarried
  refine ⟨packet d', ?_, ?_⟩
  · rw [inFrame, hcarried']
    exact List.mem_singleton_self _
  · rw [hsame]
    exact readsPacket_of hreads

/-! ## The hosts and the internet -/

section Lab

variable {κ A κ' B ι : Type} {k : Nat}

/-- What a socket called. -/
def calls (x : Stack κ A κ' B) : Side → List (Call Fd)
  | .a => x.a.2.calls
  | .b => x.b.2.calls

/-- What it wrote to its device. -/
def framesWritten (calls : List (Call Fd)) : List (List Byte) :=
  calls.filterMap fun
    | .write .device bytes => some bytes
    | _ => none

theorem mem_framesWritten {calls : List (Call Fd)} {bytes : List Byte}
    (h : bytes ∈ framesWritten calls) : .write .device bytes ∈ calls := by
  obtain ⟨call, hcall, heq⟩ := List.mem_filterMap.mp h
  split at heq
  · rw [← Option.some.inj heq]
    exact hcall
  · cases heq

/-- The segment can be read from something that the socket wrote to its device. -/
def Wrote (x : Stack κ A κ' B) (side : Side) (seg : TCPSegment) : Prop :=
  ∃ bytes, .write .device bytes ∈ calls x side ∧ ReadsEthernet bytes seg

/-- The two sockets, the internet, and what the routers wrote to the sockets' devices. -/
structure Lab (κ A κ' B ι : Type) (k : Nat) where
  stack : Stack κ A κ' B
  net : Internet ι k
  frameFd : Side → List (List Byte) := fun _ => []

inductive LabOp (ι : Type) (k : Nat) where
  /-- a round of one of the sockets' threads -/
  | thread (e : Side × Moment)
  /-- a frame that a host wrote comes to the interface of a router -/
  | hostToRouter (side : Side) (j : Nat) (n : ι) (i : Fin k)
  /-- a router writes a frame of an interface to a host's device -/
  | routerToHost (side : Side) (n : ι) (i : Fin k)
  /-- anything else -/
  | net (op : SpongeInternet.Op ι k)

variable [DecidableEq ι]

def labStep [Popped] (adA : Adapter (κ × List (Call Fd)) Fd A) (adB : Adapter (κ' × List (Call Fd)) Fd B)
    (x : Lab κ A κ' B ι k) : LabOp ι k → Option (Lab κ A κ' B ι k)
  | .thread e => (stackStep adA adB x.stack e).map fun stack => { x with stack := stack }
  | .hostToRouter side j n i =>
      (framesWritten (calls x.stack side))[j]?.bind fun bytes =>
        let parsed := EthernetFrame.parse {} (.ofString bytes)
        if parsed.1 ≠ .noError then some x
        else (x.net.step (.arrive n i parsed.2)).map fun net => { x with net := net }
  | .routerToHost side n i =>
      match (x.net.iface n i).iface.framesOut with
      | [] => none
      | frame :: _ =>
          -- nobody but the host hears it
          (run Internet.step x.net [.transmit n i, .lose x.net.wire.length]).map fun net =>
            { x with
              net := net
              frameFd := Function.update x.frameFd side
                (x.frameFd side ++ [frame.serialize.concatenate]) }
  | .net op => (x.net.step op).map fun net => { x with net := net }

/-- A device gives what a router wrote there, or something from which nothing can be read. -/
def Heard (frameFd : Side → List (List Byte)) (x : Stack κ A κ' B) : Prop :=
  ∀ side bytes, .read .device bytes ∈ calls x side →
    bytes ∈ frameFd side ∨ ∀ seg, ¬ ReadsEthernet bytes seg

/-- **WHAT THE WORLD DOES**: the devices give what was written there; a router takes from a
    host good datagrams with the host's own address; all others put in good datagrams with
    other addresses.  That a host hears only from the other, `routerToHost`, is not ensured
    by `Router` or `lab7`: it is assumed of who sends to whom, since a server that listens
    would take whoever comes first for its peer. -/
def Permitted [Popped] (adA : Adapter (κ × List (Call Fd)) Fd A)
    (adB : Adapter (κ' × List (Call Fd)) Fd B) (addr : Side → BitVec 32)
    (x : Lab κ A κ' B ι k) : LabOp ι k → Prop
  | .thread e => ∀ stack ∈ stackStep adA adB x.stack e, Heard x.frameFd stack
  | .hostToRouter side j _ _ =>
      ∀ bytes ∈ (framesWritten (calls x.stack side))[j]?,
        ∀ d ∈ carriedDatagram (EthernetFrame.parse {} (.ofString bytes)).2,
          Good d ∧ d.header.src = addr side
  | .routerToHost side n i =>
      ∀ frame ∈ (x.net.iface n i).iface.framesOut.head?, ∀ p ∈ inFrame frame,
        p.header.src = addr side.other
  | .net op => op.Fine ∧ ∀ p ∈ op.sent, ∀ side, p.header.src ≠ addr side

/-! ## Where everything comes from -/

/-- What can be read from the packet was written by the host whose address it has. -/
def Backed (addr : Side → BitVec 32) (x : Stack κ A κ' B) (p : Packet) : Prop :=
  ∀ side, p.header.src = addr side → ∀ seg, ReadsPacket p seg → Wrote x side seg

variable [Fintype ι]

/-- Everything on the way comes from one of the hosts. -/
structure Genuine (addr : Side → BitVec 32) (x : Lab κ A κ' B ι k) : Prop where
  sound : x.net.Sound
  packets : ∀ p ∈ x.net.contents, Backed addr x.stack p
  frames : ∀ side, ∀ bytes ∈ x.frameFd side, ∀ seg, ReadsEthernet bytes seg →
    Wrote x.stack side.other seg

variable {adA : Adapter (κ × List (Call Fd)) Fd A} {adB : Adapter (κ' × List (Call Fd)) Fd B}
  {K : Kernel κ Fd} {K' : Kernel κ' Fd} {HoldsA : List TCPSegment → A → Prop}
  {HoldsB : List TCPSegment → B → Prop} {addr : Side → BitVec 32} {x y : Lab κ A κ' B ι k}
  {op : LabOp ι k} {init s : Sys}

omit [DecidableEq ι] [Fintype ι] in
theorem Wrote.mono {x y : Stack κ A κ' B} {side : Side} {seg : TCPSegment} (h : Wrote x side seg)
    (hgrow : ∀ side, calls x side <+: calls y side) : Wrote y side seg := by
  obtain ⟨bytes, hmem, hreads⟩ := h
  exact ⟨bytes, (hgrow side).subset hmem, hreads⟩

omit [DecidableEq ι] in
theorem Genuine.grow (h : Genuine addr x) {stack : Stack κ A κ' B}
    (hgrow : ∀ side, calls x.stack side <+: calls stack side) :
    Genuine addr { x with stack := stack } := by
  refine ⟨h.sound, fun p hp side hsrc seg hreads => ?_, fun side bytes hbytes seg hreads => ?_⟩
  · exact (h.packets p hp side hsrc seg hreads).mono hgrow
  · exact (h.frames side bytes hbytes seg hreads).mono hgrow

omit [DecidableEq ι] in
/-- For the sockets the network is honest. -/
theorem Genuine.honest (h : Genuine addr x) (hheard : Heard x.frameFd x.stack) :
    Honest ReadsEthernet x.stack := by
  have hboth : ∀ side, Delivered ReadsEthernet (calls x.stack side) (calls x.stack side.other) := by
    intro side bytes hread seg hreads
    rcases hheard side bytes hread with hwritten | hnothing
    · exact h.frames side bytes hwritten seg hreads
    · exact absurd hreads (hnothing seg)
  exact ⟨hboth .a, hboth .b⟩

/-- **THE INTERNET MOVES**: what comes in has to come from somewhere. -/
theorem Genuine.net (h : Genuine addr x) {op : SpongeInternet.Op ι k} {net : Internet ι k}
    (hstep : x.net.step op = some net) (hfine : op.Fine)
    (hsent : ∀ p ∈ op.sent, Backed addr x.stack p) : Genuine addr { x with net := net } := by
  obtain ⟨net', hstep', hsound, -, hmoves⟩ :=
    Internet.step_moves h.sound hfine (Internet.enabled_of_step hstep)
  obtain rfl := Option.some.inj (hstep.symm.trans hstep')
  refine ⟨hsound, hmoves.all h.packets hsent fun p q holder hp side hsrc seg hreads => ?_, h.frames⟩
  -- the address stays the same
  refine hp side ?_ seg (reads_older holder hreads)
  obtain ⟨-, rfl⟩ := holder
  exact hsrc

/-- A frame comes from a host. -/
theorem Genuine.hostToRouter (h : Genuine addr x) (hne : addr .a ≠ addr .b) {side : Side}
    {bytes : List Byte} {n : ι} {i : Fin k} {net : Internet ι k}
    (hwrote : .write .device bytes ∈ calls x.stack side)
    (hparse : (EthernetFrame.parse {} (.ofString bytes)).1 = .noError)
    (hpermitted : ∀ d ∈ carriedDatagram (EthernetFrame.parse {} (.ofString bytes)).2,
      Good d ∧ d.header.src = addr side)
    (hstep : x.net.step (.arrive n i (EthernetFrame.parse {} (.ofString bytes)).2) = some net) :
    Genuine addr { x with net := net } := by
  refine h.net hstep ⟨length_parsed_payload bytes, fun d hd => (hpermitted d hd).1⟩
    fun p hp side' hsrc seg hreads => ?_
  obtain ⟨d, hd, rfl⟩ : ∃ d ∈ carriedDatagram (EthernetFrame.parse {} (.ofString bytes)).2,
      packet d = p := by
    obtain ⟨d, hd, heq⟩ := Option.map_eq_some_iff.mp (Option.mem_toList.mp hp)
    exact ⟨d, hd, heq⟩
  -- it has the address of this host, and of no other
  have hside : side' = side := by
    have hsame : addr side = addr side' := (hpermitted d hd).2.symm.trans hsrc
    cases side <;> cases side'
    · rfl
    · exact absurd hsame hne
    · exact absurd hsame.symm hne
    · rfl
  rw [hside]
  exact ⟨bytes, hwrote, _, d, Prod.ext hparse rfl, hd, readsIPv4_of hd hreads⟩

/-- A frame goes to a host. -/
theorem Genuine.routerToHost (h : Genuine addr x) {side : Side} {n : ι} {i : Fin k}
    {frame : EthernetFrame} {rest : List EthernetFrame} {net : Internet ι k}
    (hframes : (x.net.iface n i).iface.framesOut = frame :: rest)
    (hpermitted : ∀ p ∈ inFrame frame, p.header.src = addr side.other)
    (hrun : run Internet.step x.net [.transmit n i, .lose x.net.wire.length] = some net) :
    Genuine addr
      { x with
        net := net
        frameFd := Function.update x.frameFd side
          (x.frameFd side ++ [frame.serialize.concatenate]) } := by
  obtain ⟨net₁, htransmit, hrest⟩ := Option.bind_eq_some_iff.mp hrun
  obtain ⟨net₂, hlose, hnet⟩ := Option.bind_eq_some_iff.mp hrest
  obtain rfl := Option.some.inj hnet
  have hsent := h.net htransmit trivial fun p hp => absurd hp List.not_mem_nil
  have hmoved := hsent.net hlose trivial fun p hp => absurd hp List.not_mem_nil
  refine ⟨hmoved.sound, hmoved.packets, fun side' bytes hbytes seg hreads => ?_⟩
  dsimp only at hbytes ⊢
  by_cases hside : side' = side
  swap
  · rw [Function.update_of_ne hside] at hbytes
    exact h.frames side' bytes hbytes seg hreads
  subst hside
  rw [Function.update_self] at hbytes
  rcases List.mem_append.mp hbytes with hold | hnew
  · exact h.frames side' bytes hold seg hreads
  · rw [List.mem_singleton.mp hnew] at hreads
    obtain ⟨p, hp, hreads⟩ := inFrame_of_reads hreads
    refine h.packets p ?_ _ (hpermitted p hp) seg hreads
    exact Internet.mem_contents_frames (hframes ▸ List.mem_cons_self ..) hp

omit [DecidableEq ι] [Fintype ι] in
/-- What was called stays called. -/
theorem grows_of_step {x y : Stack κ A κ' B} {e : Side × Moment}
    (hlawA : Lawful adA .device ReadsEthernet HoldsA)
    (hlawB : Lawful adB .device ReadsEthernet HoldsB)
    (h : Refines K K' adA adB ReadsEthernet HoldsA HoldsB init x s)
    (hstep : stackStep adA adB x e = some y) : ∀ side, calls x side <+: calls y side := by
  obtain ⟨side, m⟩ := e
  cases side with
  | a =>
      obtain ⟨a, hgo, rfl⟩ := Option.map_eq_some_iff.mp hstep
      obtain ⟨goOn, hround⟩ := go_eq_some hgo
      obtain ⟨-, z, hfollows⟩ := h.modelsA.tcpRound hlawA h.rulesA hround
      intro side
      cases side
      · exact hfollows.calls
      · exact List.prefix_refl _
  | b =>
      obtain ⟨b, hgo, rfl⟩ := Option.map_eq_some_iff.mp hstep
      obtain ⟨goOn, hround⟩ := go_eq_some hgo
      obtain ⟨-, z, hfollows⟩ := h.modelsB.tcpRound hlawB h.rulesB hround
      intro side
      cases side
      · exact List.prefix_refl _
      · exact hfollows.calls

/-- **ONE STEP** of the sockets and the internet. -/
theorem Genuine.step (hlawA : Lawful adA .device ReadsEthernet HoldsA)
    (hlawB : Lawful adB .device ReadsEthernet HoldsB) (hne : addr .a ≠ addr .b)
    (h : Genuine addr x) (hrefines : Refines K K' adA adB ReadsEthernet HoldsA HoldsB init x.stack s)
    (hpermitted : Permitted adA adB addr x op) (hstep : labStep adA adB x op = some y) :
    Genuine addr y ∧ ∃ s', Refines K K' adA adB ReadsEthernet HoldsA HoldsB init y.stack s' := by
  cases op with
  | thread e =>
      obtain ⟨stack, hthread, rfl⟩ := Option.map_eq_some_iff.mp hstep
      have hgenuine := h.grow (grows_of_step hlawA hlawB hrefines hthread)
      exact ⟨hgenuine, hrefines.step hlawA hlawB hthread
        (hgenuine.honest (hpermitted stack hthread))⟩
  | hostToRouter side j n i =>
      obtain ⟨bytes, hbytes, hrest⟩ := Option.bind_eq_some_iff.mp hstep
      have hwrote := mem_framesWritten (List.mem_of_getElem? hbytes)
      dsimp only at hrest
      split_ifs at hrest with hparse
      · obtain rfl := Option.some.inj hrest
        exact ⟨h, s, hrefines⟩
      · obtain ⟨net, harrive, rfl⟩ := Option.map_eq_some_iff.mp hrest
        exact ⟨h.hostToRouter hne hwrote (not_not.mp hparse) (hpermitted bytes hbytes) harrive, s,
          hrefines⟩
  | routerToHost side n i =>
      rw [labStep] at hstep
      cases hframes : (x.net.iface n i).iface.framesOut with
      | nil =>
          rw [hframes] at hstep
          cases hstep
      | cons frame rest =>
          rw [hframes] at hstep
          obtain ⟨net, htransmit, rfl⟩ := Option.map_eq_some_iff.mp hstep
          have hfilter : ∀ p ∈ inFrame frame, p.header.src = addr side.other :=
            hpermitted frame (by rw [hframes]; rfl)
          exact ⟨h.routerToHost hframes hfilter htransmit, s, hrefines⟩
  | net op =>
      obtain ⟨net, hnet, rfl⟩ := Option.map_eq_some_iff.mp hstep
      exact ⟨h.net hnet hpermitted.1 fun p hp side hsrc => absurd hsrc (hpermitted.2 p hp side),
        s, hrefines⟩

/-- **FROM OWNER TO OWNER**, through an internet of any shape: in whatever order threads and
    routers take their turns, whatever is lost, duplicated, reordered, delayed by address
    resolution or sent by others, if nobody uses the two hosts' addresses, nothing but what
    has the other's address comes to a host, the owners write less than 2^31 bytes and
    segments are found intact after the pop, then what an owner got and what still waits for
    it is a prefix of what the other owner wrote, and an owner is told the end of a stream
    that has not failed only after the other owner ended it. -/
theorem routed_conveys [popped : Popped] (hintact : Popped.Intact) (K : Kernel κ Fd)
    (K' : Kernel κ' Fd)
    (adA : Adapter (κ × List (Call Fd)) Fd A) (adB : Adapter (κ' × List (Call Fd)) Fd B)
    (HoldsA : List TCPSegment → A → Prop) (HoldsB : List TCPSegment → B → Prop)
    (cfgA cfgB : TCPConfig) (randomA randomB : BitVec 32) (addr : Side → BitVec 32)
    (hne : addr .a ≠ addr .b) (x y : Lab κ A κ' B ι k)
    (hsetup : Setup K K' adA adB ReadsEthernet HoldsA HoldsB cfgA cfgB randomA randomB x.stack)
    (hfresh : x.net.Fresh) (hempty : ∀ side, x.frameFd side = []) (ops : List (LabOp ι k))
    (hpermitted : Along (labStep adA adB) (Permitted adA adB addr) x ops)
    (hrun : run (labStep adA adB) x ops = some y) (hsmall : y.stack.Small) :
    Conveyed y.stack.a.2 y.stack.b.2 ∧ Conveyed y.stack.b.2 y.stack.a.2 := by
  obtain rfl := hintact.eq_kept
  have hstart : Genuine addr x := by
    refine ⟨hfresh.sound, fun p hp => ?_, fun side bytes hbytes => ?_⟩
    · rw [hfresh.contents] at hp
      exact absurd hp (Multiset.notMem_zero p)
    · rw [hempty] at hbytes
      exact absurd hbytes List.not_mem_nil
  obtain ⟨-, s, hrefines⟩ := run_invariant
    (I := fun y : Lab κ A κ' B ι k => Genuine addr y
      ∧ ∃ s, Refines K K' adA adB ReadsEthernet HoldsA HoldsB (.init cfgA cfgB randomA randomB)
        y.stack s)
    (fun _ _ _ hx hpermitted hstep => by
      obtain ⟨hgenuine, s, hrefines⟩ := hx
      exact hgenuine.step hsetup.lawA hsetup.lawB hne hrefines hpermitted hstep)
    ops x y ⟨hstart, hsetup.start⟩ hpermitted hrun
  exact hrefines.conveyed hsmall

end Lab

/-! ## A byte from the client to the server -/

/-- The adapter of `lab7` is `TCPOverIPv4OverEthernetAdapter` on one end of a pair of
    sockets, without the frame that the other's constructor sends. -/
def NetworkInterfaceAdapter.new (ethernetAddress : EthernetAddress) (ipAddress nextHop : Address) :
    EthernetAdapter where
  interface := { ethernetAddress := ethernetAddress, ipAddress := ipAddress.ipv4Numeric }
  nextHop := nextHop

theorem fresh_new {κ : Type} (k : κ) (ethernetAddress : EthernetAddress)
    (ipAddress nextHop : Address) :
    Fresh ReadsEthernet Waits ⟨(k, ([] : List (Call Fd))), fun _ => {}⟩
      (NetworkInterfaceAdapter.new ethernetAddress ipAddress nextHop) :=
  ⟨⟨rfl, fun _ hp => absurd hp List.not_mem_nil⟩, fun _ hbytes => absurd hbytes List.not_mem_nil,
    rfl, rfl, List.not_mem_nil, fun _ => rfl⟩

def hostSide : Fin 2 := ⟨0, Nat.two_pos⟩

def internetSide : Fin 2 := ⟨1, Nat.one_lt_two⟩

theorem inRange_eight : (8 : BitVec 8).toNat ≤ 32 := by decide

/-- The interfaces of a router. -/
def twoInterfaces (host internet : AsyncNetworkInterface) : Router 2 where
  interfaces := fun i => if i = hostSide then host else internet

/-- The router on the client's side, 192.168.0.1 and 10.0.0.192. -/
def clientRouter : Router 2 :=
  (((twoInterfaces
      { iface := { ethernetAddress := .replicate 6 16, ipAddress := 0xc0a80001 } }
      { iface := { ethernetAddress := .replicate 6 17, ipAddress := 0x0a0000c0 } }).addRoute
    0xc0a80000 16 none hostSide (by decide)).addRoute
    0x0a000000 8 none internetSide inRange_eight).addRoute
    0xac100000 12 (some 0x0a0000ac) internetSide (by decide)

/-- The router on the server's side, 172.16.0.1 and 10.0.0.172. -/
def serverRouter : Router 2 :=
  (((twoInterfaces
      { iface := { ethernetAddress := .replicate 6 32, ipAddress := 0xac100001 } }
      { iface := { ethernetAddress := .replicate 6 33, ipAddress := 0x0a0000ac } }).addRoute
    0xac100000 12 none hostSide (by decide)).addRoute
    0x0a000000 8 none internetSide inRange_eight).addRoute
    0xc0a80000 16 (some 0x0a0000c0) internetSide (by decide)

instance : Fintype Side := ⟨{.a, .b}, fun side => by cases side <;> decide⟩

/-- The client is 192.168.0.50, the server 172.16.0.100. -/
def labAddress : Side → BitVec 32
  | .a => 0xc0a80032
  | .b => 0xac100064

/-- What the client's device gives: the router's answer to its request, and the `SYN` and
    `ACK`.  Its owner writes a byte. -/
def clientScript : Script where
  frames := [
    .replicate 6 1 ++ .replicate 6 16 ++ [8, 6, 0, 1, 8, 0, 6, 4, 0, 2] ++ .replicate 6 16
      ++ [192, 168, 0, 1] ++ .replicate 6 1 ++ [192, 168, 0, 50],
    .replicate 6 1 ++ .replicate 6 16 ++ [8, 0, 69, 0, 0, 40, 0, 0, 64, 0, 126, 6, 143, 129,
      172, 16, 0, 100, 192, 168, 0, 50, 4, 210, 19, 136, 0, 0, 0, 0, 0, 0, 0, 1, 80, 18, 250, 0, 48,
      40, 0, 0]]
  input := [[120]]

/-- What the server's device gives: the router's request, the `SYN`, and the byte. -/
def serverScript : Script where
  frames := [
    .replicate 6 255 ++ .replicate 6 32 ++ [8, 6, 0, 1, 8, 0, 6, 4, 0, 1] ++ .replicate 6 32
      ++ [172, 16, 0, 1] ++ .replicate 6 0 ++ [172, 16, 0, 100],
    .replicate 6 2 ++ .replicate 6 32 ++ [8, 0, 69, 0, 0, 40, 0, 0, 64, 0, 126, 6, 143, 129,
      192, 168, 0, 50, 172, 16, 0, 100, 19, 136, 4, 210, 0, 0, 0, 0, 0, 0, 0, 0, 80, 2, 250, 0, 48,
      57, 0, 0],
    .replicate 6 2 ++ .replicate 6 32 ++ [8, 0, 69, 0, 0, 41, 0, 0, 64, 0, 126, 6, 143, 128,
      192, 168, 0, 50, 172, 16, 0, 100, 19, 136, 4, 210, 0, 0, 0, 1, 0, 0, 0, 1, 80, 16, 250, 0, 184,
      39, 0, 0, 120]]
  input := []

def labAdapter : Adapter (Script × List (Call Fd)) Fd EthernetAdapter :=
  overEthernet scripted.recording .device

/-- The client connects, from port 5000, and the server listens at port 1234. -/
def lab : Lab Script EthernetAdapter Script EthernetAdapter Side 2 where
  stack :=
    ⟨TCPSpongeSocket.connecting scripted.recording labAdapter
        ⟨(clientScript, []), fun _ => {}⟩
        (NetworkInterfaceAdapter.new (.replicate 6 1) ⟨labAddress .a, 0⟩ ⟨0xc0a80001, 0⟩) {} 0
        { source := ⟨labAddress .a, 5000⟩, destination := ⟨labAddress .b, 1234⟩ },
      TCPSpongeSocket.listening scripted.recording labAdapter
        ⟨(serverScript, []), fun _ => {}⟩
        (NetworkInterfaceAdapter.new (.replicate 6 2) ⟨labAddress .b, 0⟩ ⟨0xac100001, 0⟩) {} 0
        { source := ⟨labAddress .b, 1234⟩ }⟩
  net := { routers := fun n => if n = .a then clientRouter else serverRouter }

/-- A frame goes from the router to the internet. -/
def toInternet (n : Side) : LabOp Side 2 := .net (.transmit n internetSide)

/-- The frame on its way comes to the router. -/
def fromInternet (n : Side) : LabOp Side 2 := .net (.deliver n internetSide 0)

/-- The `SYN` after three requests for addresses, the answer, and the byte. -/
def labRun : List (LabOp Side 2) :=
  [.thread (.a, only .device .Out), .hostToRouter .a 0 .a hostSide, .routerToHost .a .a hostSide,
    .thread (.a, only .device .In), .hostToRouter .a 1 .a hostSide, .net (.route .a),
    toInternet .a, fromInternet .b, toInternet .b, fromInternet .a, toInternet .a, fromInternet .b,
    .net (.route .b), .routerToHost .b .b hostSide, .thread (.b, only .device .In),
    .hostToRouter .b 0 .b hostSide, .routerToHost .b .b hostSide, .thread (.b, only .device .In),
    .thread (.b, only .device .Out), .hostToRouter .b 1 .b hostSide, .net (.route .b),
    toInternet .b, fromInternet .a,
    .net (.route .a), .routerToHost .a .a hostSide, .thread (.a, only .device .In),
    .thread (.a, only .threadData .In), .thread (.a, only .device .Out),
    .hostToRouter .a 3 .a hostSide, .net (.route .a), toInternet .a, fromInternet .b,
    .net (.route .b), .routerToHost .b .b hostSide, .thread (.b, only .device .In),
    .thread (.b, only .threadData .Out)]

/-- What can be checked of `Permitted`: all that the devices gave was written there. -/
def Checked (x : Lab Script EthernetAdapter Script EthernetAdapter Side 2) : LabOp Side 2 → Prop
  | .thread e => ∀ stack ∈ stackStep labAdapter labAdapter x.stack e, ∀ side,
      ∀ bytes ∈ arrivals (calls stack side), bytes ∈ x.frameFd side
  | .hostToRouter side j n i => Permitted labAdapter labAdapter labAddress x (.hostToRouter side j n i)
  | .routerToHost side n i => Permitted labAdapter labAdapter labAddress x (.routerToHost side n i)
  | .net op => Permitted labAdapter labAdapter labAddress x (.net op)

instance (x : Lab Script EthernetAdapter Script EthernetAdapter Side 2) :
    ∀ op, Decidable (Checked x op)
  | .thread e => inferInstanceAs (Decidable (∀ stack ∈ stackStep labAdapter labAdapter x.stack e,
      ∀ side, ∀ bytes ∈ arrivals (calls stack side), bytes ∈ x.frameFd side))
  | .hostToRouter side j _ _ =>
      inferInstanceAs (Decidable (∀ bytes ∈ (framesWritten (calls x.stack side))[j]?,
        ∀ d ∈ carriedDatagram (EthernetFrame.parse {} (.ofString bytes)).2,
          Good d ∧ d.header.src = labAddress side))
  | .routerToHost side n i =>
      inferInstanceAs (Decidable (∀ frame ∈ (x.net.iface n i).iface.framesOut.head?,
        ∀ p ∈ inFrame frame, p.header.src = labAddress side.other))
  | .net op =>
      inferInstanceAs (Decidable (op.Fine ∧ ∀ p ∈ op.sent, ∀ side, p.header.src ≠ labAddress side))

theorem permitted_of_checked (x : Lab Script EthernetAdapter Script EthernetAdapter Side 2)
    (op : LabOp Side 2) (h : Checked x op) : Permitted labAdapter labAdapter labAddress x op := by
  cases op with
  | thread e =>
      intro stack hstack side bytes hread
      exact Or.inl (h stack hstack side bytes (List.mem_filterMap.mpr ⟨_, hread, rfl⟩))
  | hostToRouter side j n i => exact h
  | routerToHost side n i => exact h
  | net op => exact h

theorem checked_lab : Along (labStep labAdapter labAdapter) Checked lab labRun := by decide +kernel

/-- What the owners wrote, and what the server's owner got. -/
theorem lab_run :
    ((run (labStep labAdapter labAdapter) lab labRun).map fun y =>
        (received .threadData y.stack.a.2.calls, received .threadData y.stack.b.2.calls,
          sent .threadData y.stack.b.2.calls))
      = some ([120], [], [120]) := by
  decide +kernel

theorem routed_conveys_byte :
    ∃ y, run (labStep labAdapter labAdapter) lab labRun = some y
      ∧ sent .threadData y.stack.b.2.calls = [120]
      ∧ Conveyed y.stack.a.2 y.stack.b.2 ∧ Conveyed y.stack.b.2 y.stack.a.2 := by
  obtain ⟨y, hrun, hcalls⟩ := Option.map_eq_some_iff.mp lab_run
  obtain ⟨hinput, hcalls⟩ := Prod.mk.inj hcalls
  obtain ⟨hnone, houtput⟩ := Prod.mk.inj hcalls
  have hlaw := lawful_ethernet whole_scripted
  have hsmall : y.stack.Small := by
    rw [Stack.Small, hinput, hnone]
    decide
  exact ⟨y, hrun, houtput, routed_conveys Popped.intact_kept scripted scripted labAdapter
    labAdapter Waits Waits {} {} 0 0 labAddress (by decide) lab y
    ⟨hlaw, hlaw, ⟨_, _, fresh_new _ _ _ _, _, Or.inl rfl⟩, ⟨_, _, fresh_new _ _ _ _, _, Or.inr rfl⟩⟩
    ⟨by decide, by decide, by decide, rfl, rfl⟩ (fun _ => rfl) labRun
    (Along.mono permitted_of_checked _ _ checked_lab) hrun hsmall⟩

end SpongeRouted
