import Mathlib.Algebra.BigOperators.Fin
import Mathlib.Tactic.Abel
import Sponge.AgingProofs
import Sponge.RouterProofs

/-! # An internet of routers and hosts

    Routers, and hosts that are routers without routes, are joined by a wire that loses,
    delays, reorders, duplicates and misdelivers frames.  Other frames come from outside,
    among them any ARP messages.

    The packets anywhere in it, in queues, behind an unresolved next hop, in frames, on the
    wire, are a bag whose members age by passing a router.  Every step of the internet is
    a run of that bag, so nothing is received that was not put in, unchanged but for the time
    to live, which counts the routers on its way (`Travels`, `packets_genuine`), and no
    routing loop goes on for ever (`loops_die_out`). -/

namespace SpongeInternet

open SpongeByteStream SpongeBuffer SpongeParser SpongeIPv4 SpongeEthernet SpongeInterface
open SpongeRouter NetworkInterface Keyed RunRule Aging

/-! ## Packets -/

/-- A datagram without its checksum and its pieces. -/
structure Packet where
  header : IPv4Header
  payload : List Byte
deriving DecidableEq

def packet (d : IPv4Datagram) : Packet := ⟨{ d.header with cksum := 0 }, d.payload.concatenate⟩

/-- The packet behind a router. -/
def Packet.aged (p : Packet) : Packet :=
  { p with header := { p.header with ttl := p.header.ttl - 1 } }

/-- A packet passes a router only while it has time to live. -/
def Older (p q : Packet) : Prop := 1 < p.header.ttl.toNat ∧ q = p.aged

/-- The routers that a packet can still pass. -/
def Packet.hopsLeft (p : Packet) : Nat := p.header.ttl.toNat - 1

theorem toNat_aged {p : Packet} (h : 1 < p.header.ttl.toNat) :
    p.aged.header.ttl.toNat = p.header.ttl.toNat - 1 := by
  have hone : (1 : BitVec 8) ≤ p.header.ttl := by
    rw [BitVec.le_def]
    exact Nat.le_of_lt h
  exact BitVec.toNat_sub_of_le hone

theorem Older.lighter {p q : Packet} (h : Older p q) : q.hopsLeft < p.hopsLeft := by
  obtain ⟨httl, rfl⟩ := h
  rw [Packet.hopsLeft, Packet.hopsLeft, toNat_aged httl]
  omega

/-- Only the time to live differs, by the number of routers on the way. -/
def Passed (hops : Nat) (p q : Packet) : Prop :=
  q = { p with header := { p.header with ttl := q.header.ttl } }
    ∧ q.header.ttl.toNat + hops = p.header.ttl.toNat ∧ (hops = 0 ∨ 0 < q.header.ttl.toNat)

theorem Passed.refl (p : Packet) : Passed 0 p p := ⟨rfl, rfl, Or.inl rfl⟩

/-- One router more, in front of the others. -/
theorem Passed.older {hops : Nat} {p q r : Packet} (h : Older p q) (h' : Passed hops q r) :
    Passed (hops + 1) p r := by
  obtain ⟨httl, rfl⟩ := h
  obtain ⟨hsame, hcount, hlast⟩ := h'
  have hless := toNat_aged httl
  refine ⟨?_, by omega, Or.inr (by omega)⟩
  rw [hsame]
  rfl

/-! ## Datagrams that are read back -/

/-- The datagram can be written, and is read back. -/
structure Good (d : IPv4Datagram) : Prop where
  wellFormed : d.WellFormed
  fits : 4 * d.header.hlen.toNat ≤ d.header.len.toNat
  offset : d.header.offset.toNat < 2 ^ 13

instance (d : IPv4Datagram) : Decidable (Good d) :=
  decidable_of_iff (d.WellFormed ∧ 4 * d.header.hlen.toNat ≤ d.header.len.toNat
      ∧ d.header.offset.toNat < 2 ^ 13)
    ⟨fun h => ⟨h.1, h.2.1, h.2.2⟩, fun h => ⟨h.wellFormed, h.fits, h.offset⟩⟩

theorem Good.writable {d : IPv4Datagram} (h : Good d) : Writable d :=
  ⟨h.wellFormed.2.2.2, h.wellFormed.1, h.wellFormed.2.1⟩

theorem Good.hop {d : IPv4Datagram} (h : Good d) : Good (Router.hop d) :=
  ⟨h.wellFormed, h.fits, h.offset⟩

/-- A frame as it travels: the payload is in one piece. -/
def onWire (frame : EthernetFrame) : EthernetFrame :=
  { frame with payload := .ofString frame.payload.concatenate }

/-- The packet in a frame. -/
def inFrame (frame : EthernetFrame) : List Packet :=
  ((carriedDatagram (onWire frame)).map packet).toList

def GoodFrame (frame : EthernetFrame) : Prop := ∀ d ∈ carriedDatagram (onWire frame), Good d

theorem carriedDatagram_other {frame : EthernetFrame}
    (h : frame.header.type ≠ EthernetHeader.typeIPv4) : carriedDatagram frame = none := by
  rw [carriedDatagram, if_neg h]

/-- A message is no packet. -/
theorem inFrame_other {frame : EthernetFrame} (h : frame.header.type ≠ EthernetHeader.typeIPv4) :
    inFrame frame = [] ∧ GoodFrame frame := by
  have hnone : carriedDatagram (onWire frame) = none := carriedDatagram_other h
  refine ⟨?_, fun d hd => ?_⟩
  · rw [inFrame, hnone]
    rfl
  · rw [hnone] at hd
    exact absurd hd (Option.not_mem_none d)

/-- **A FRAME CARRIES ITS PACKET**. -/
theorem Good.inFrame {d : IPv4Datagram} (h : Good d) (n : NetworkInterface)
    (dst : EthernetAddress) :
    inFrame (n.datagramFrame dst d) = [packet d] ∧ GoodFrame (n.datagramFrame dst d) := by
  obtain ⟨out, hout, hconcat⟩ := IPv4Datagram.serialize_eq h.wellFormed
  have hpayload : (onWire (n.datagramFrame dst d)).payload = .ofString d.wire := by
    rw [← hconcat]
    show BufferList.ofString (written d).concatenate = _
    rw [written, hout]
  have hstr : (Buffer.ofString d.wire).str = d.wire := rfl
  obtain ⟨rest, hrest, hparse⟩ :=
    IPv4Datagram.parse_serialize h.wellFormed h.fits h.offset hstr
  have hcarried : carriedDatagram (onWire (n.datagramFrame dst d))
      = some { header := d.headerWith d.computedCksum, payload := .ofBuffer rest } := by
    refine carriedDatagram_eq_some_iff.mpr ⟨rfl, _, ?_, hparse⟩
    rw [hpayload]
    rfl
  have hbody : (BufferList.ofBuffer rest).concatenate = d.payload.concatenate := by
    rw [BufferList.concatenate_eq, ← hrest]
    exact List.append_nil _
  refine ⟨?_, fun d' hd' => ?_⟩
  · rw [SpongeInternet.inFrame, hcarried]
    show [packet _] = _
    rw [packet, packet, hbody]
    rfl
  · rw [hcarried, Option.mem_some_iff] at hd'
    subst hd'
    refine ⟨⟨h.wellFormed.1, h.wellFormed.2.1, h.wellFormed.2.2.1, ?_⟩, h.fits, h.offset⟩
    show (BufferList.ofBuffer rest).size = _
    rw [BufferList.size_eq_length, hbody, ← BufferList.size_eq_length]
    exact h.wellFormed.2.2.2

/-! ## What is held, and how it moves -/

/-- The packets that an interface has not let go: those that wait, and those in frames. -/
def heldBy (n : NetworkInterface) : Multiset Packet :=
  ↑(n.pendingDatagrams.map fun p => packet p.2) + ↑(n.framesOut.flatMap inFrame)

def held (a : AsyncNetworkInterface) : Multiset Packet :=
  ↑(a.datagramsOut.map packet) + heldBy a.iface

structure GoodIface (n : NetworkInterface) : Prop where
  pending : ∀ p ∈ n.pendingDatagrams, Good p.2
  frames : ∀ frame ∈ n.framesOut, GoodFrame frame

theorem coe_append (l m : List Packet) :
    ((l ++ m : List Packet) : Multiset Packet) = (l : Multiset Packet) + (m : Multiset Packet) :=
  (Multiset.coe_add l m).symm

/-- A frame is put out. -/
theorem GoodIface.emplace {n : NetworkInterface} {frame : EthernetFrame} (h : GoodIface n)
    (hframe : GoodFrame frame) :
    GoodIface (n.emplace frame) ∧ heldBy (n.emplace frame) = heldBy n + ↑(inFrame frame) := by
  refine ⟨⟨h.pending, fun frame' hframe' => ?_⟩, ?_⟩
  · rcases List.mem_append.mp hframe' with hold | hnew
    · exact h.frames frame' hold
    · rw [List.mem_singleton.mp hnew]
      exact hframe
  · rw [heldBy, heldBy]
    dsimp only [NetworkInterface.emplace]
    rw [List.flatMap_append, List.flatMap_singleton, coe_append, ← add_assoc]

/-- A datagram waits. -/
theorem GoodIface.wait {n : NetworkInterface} {d : IPv4Datagram} (h : GoodIface n) (hd : Good d)
    (ip : BitVec 32) :
    GoodIface { n with pendingDatagrams := n.pendingDatagrams ++ [(ip, d)] }
      ∧ heldBy { n with pendingDatagrams := n.pendingDatagrams ++ [(ip, d)] }
        = heldBy n + {packet d} := by
  refine ⟨⟨fun p hp => ?_, h.frames⟩, ?_⟩
  · rcases List.mem_append.mp hp with hold | hnew
    · exact h.pending p hold
    · rw [List.mem_singleton.mp hnew]
      exact hd
  · rw [heldBy, heldBy]
    dsimp only
    rw [List.map_append, coe_append, add_right_comm]
    rfl

/-- **SENDING** puts the packet in. -/
theorem send_held {n : NetworkInterface} {d : IPv4Datagram} (h : GoodIface n) (hd : Good d)
    (ip : BitVec 32) :
    ∃ n', n.sendDatagram d ip = (.ok (), n') ∧ GoodIface n'
      ∧ heldBy n' = heldBy n + {packet d} := by
  have hok := hd.wellFormed.serialize_ok
  cases hcache : n.arpCache.lookup ip with
  | some entry =>
      obtain ⟨hin, hframe⟩ := hd.inFrame n entry.1
      obtain ⟨hgood, hheld⟩ := h.emplace hframe
      exact ⟨_, sendDatagram_known hcache hok, hgood, by rw [hheld, hin]; rfl⟩
  | none =>
      cases hdue : n.requestDue ip with
      | true =>
          obtain ⟨hin, hframe⟩ := inFrame_other
            (show (n.requestFrame ip).header.type ≠ _ from EthernetHeader.typeARP_ne_typeIPv4)
          obtain ⟨hgood, hheld⟩ := h.emplace hframe
          obtain ⟨hgood', hheld'⟩ := hgood.wait hd ip
          refine ⟨_, sendDatagram_due hcache hdue, ⟨hgood'.pending, hgood'.frames⟩, ?_⟩
          rw [hin, Multiset.coe_nil, add_zero] at hheld
          rw [← hheld]
          exact hheld'
      | false =>
          obtain ⟨hgood, hheld⟩ := h.wait hd ip
          exact ⟨_, sendDatagram_early hcache hdue, hgood, hheld⟩

/-- Several datagrams, one after the other. -/
theorem foldl_sendTo_held (calls : List (IPv4Datagram × BitVec 32)) {n : NetworkInterface}
    (h : GoodIface n) (hcalls : ∀ call ∈ calls, Good call.1) :
    GoodIface (calls.foldl Router.sendTo n)
      ∧ heldBy (calls.foldl Router.sendTo n) = heldBy n + ↑(calls.map fun call => packet call.1) := by
  induction calls generalizing n with
  | nil => exact ⟨h, (add_zero _).symm⟩
  | cons call calls ih =>
      obtain ⟨hcall, hcalls⟩ := List.forall_mem_cons.mp hcalls
      obtain ⟨n', hsend, hgood, hheld⟩ := send_held h hcall call.2
      have hto : Router.sendTo n call = n' := congrArg Prod.snd hsend
      obtain ⟨hgood', hheld'⟩ := ih hgood hcalls
      rw [List.foldl_cons, hto]
      refine ⟨hgood', ?_⟩
      rw [hheld', hheld, List.map_cons, ← Multiset.cons_coe, ← Multiset.singleton_add, add_assoc]

/-- What waits for an address, and what does not. -/
theorem pending_split (ip : BitVec 32) (l : List (BitVec 32 × IPv4Datagram)) :
    ((l.map fun p => packet p.2 : List Packet) : Multiset Packet)
      = ↑((of ip l).map packet) + ↑((without ip l).map fun p => packet p.2) := by
  have hperm := (List.filter_append_perm (fun p : BitVec 32 × IPv4Datagram => decide (p.1 = ip)) l).map
    fun p => packet p.2
  rw [← Multiset.coe_eq_coe.mpr hperm, List.map_append, coe_append, of, without, List.map_map]
  simp only [decide_not]
  rfl

/-- **HEARING A MESSAGE** moves packets from where they wait into frames. -/
theorem recvArp_held {n : NetworkInterface} (h : GoodIface n) (m : ARPMessage) :
    ∃ n', n.recvArp m = (.ok none, n') ∧ GoodIface n' ∧ heldBy n' = heldBy n := by
  have hwaiting : ∀ d ∈ of m.senderIpAddress n.pendingDatagrams, Good d := fun d hd =>
    h.pending _ (mem_of_iff.mp hd)
  refine ⟨_, recvArp_eq m fun d hd => (hwaiting d hd).wellFormed.serialize_ok, ⟨fun p hp => ?_,
    fun frame hframe => ?_⟩, ?_⟩
  · exact h.pending p (List.mem_filter.mp hp).1
  · rcases List.mem_append.mp hframe with hold | hnew
    · exact h.frames frame hold
    rcases List.mem_append.mp hnew with hreleased | hreply
    · obtain ⟨d, hd, rfl⟩ := List.mem_map.mp hreleased
      exact ((hwaiting d hd).inFrame n _).2
    · refine (inFrame_other ?_).2
      rw [replies_type hreply]
      exact EthernetHeader.typeARP_ne_typeIPv4
  · have hreplies : (n.replies m).flatMap inFrame = [] := by
      refine List.flatMap_eq_nil_iff.mpr fun reply hreply => (inFrame_other ?_).1
      rw [replies_type hreply]
      exact EthernetHeader.typeARP_ne_typeIPv4
    have hreleased : ((of m.senderIpAddress n.pendingDatagrams).map
        (n.datagramFrame m.senderEthernetAddress)).flatMap inFrame
        = (of m.senderIpAddress n.pendingDatagrams).map packet := by
      rw [List.flatMap_map, ← List.flatMap_singleton' (List.map packet _), List.flatMap_map]
      exact List.flatMap_congr fun d hd => ((hwaiting d hd).inFrame n _).1
    rw [heldBy, heldBy, pending_split m.senderIpAddress n.pendingDatagrams]
    dsimp only
    rw [List.flatMap_append, List.flatMap_append, hreplies, hreleased, List.append_nil, coe_append]
    abel

structure GoodAsync (a : AsyncNetworkInterface) : Prop where
  queued : ∀ d ∈ a.datagramsOut, Good d
  iface : GoodIface a.iface

/-- **RECEIVING** raises nothing, and puts in the packet of the frame, if any. -/
theorem recvFrame_held {a : AsyncNetworkInterface} {frame : EthernetFrame} (h : GoodAsync a)
    (hsingle : frame.payload.buffers.length ≤ 1) (hgood : ∀ d ∈ carriedDatagram frame, Good d) :
    ∃ a', a.recvFrame frame = (.ok (), a') ∧ GoodAsync a'
      ∧ (held a' = held a ∨ ∃ d ∈ carriedDatagram frame, held a' = held a + {packet d}) := by
  cases hmessage : a.iface.arpMessage frame with
  | some m =>
      obtain ⟨n', hrecv, hiface, hheld⟩ := recvArp_held h.iface m
      refine ⟨{ a with iface := n' }, ?_, ⟨h.queued, hiface⟩, Or.inl ?_⟩
      · rw [AsyncNetworkInterface.recvFrame, recvFrame_message hmessage, hrecv]
      · rw [held, held, hheld]
  | none =>
      have hrecv := AsyncNetworkInterface.recvFrame_quiet hsingle hmessage
      cases hbrought : a.iface.broughtDatagram frame with
      | none =>
          rw [hbrought, Option.toList_none, List.append_nil] at hrecv
          exact ⟨a, hrecv, h, Or.inl rfl⟩
      | some d =>
          have hcarried : d ∈ carriedDatagram frame := Router.broughtDatagram_mem hbrought
          rw [hbrought, Option.toList_some] at hrecv
          refine ⟨_, hrecv, ⟨fun d' hd' => ?_, h.iface⟩, Or.inr ⟨d, hcarried, ?_⟩⟩
          · rcases List.mem_append.mp hd' with hold | hnew
            · exact h.queued d' hold
            · rw [List.mem_singleton.mp hnew]
              exact hgood d hcarried
          · rw [held, held]
            dsimp only
            rw [List.map_append, coe_append, add_right_comm]
            rfl

/-! ## Routing -/

section Routing

variable {k : Nat}

/-- The packets in a router. -/
def bag (r : Router k) : Multiset Packet := ∑ i, held (r.interfaces i)

def GoodRouter (r : Router k) : Prop := ∀ i, GoodAsync (r.interfaces i)

/-- The bag goes from `s` to `t`: these packets are put in, so many pass a router, and none
    is copied unless `copies`. -/
def Moves (copies : Prop) (sent : List Packet) (hops : Nat) (s t : Multiset Packet) : Prop :=
  ∃ es, Run s es t ∧ sends es = sent ∧ agings es = hops
    ∧ (∀ p q, .age p q ∈ es → Older p q) ∧ ∀ p, .copy p ∈ es → copies

variable {copies copies' : Prop} {sent sent' : List Packet} {hops hops' : Nat}
  {s t u : Multiset Packet}

theorem Moves.refl (copies : Prop) (s : Multiset Packet) : Moves copies [] 0 s s :=
  ⟨[], .nil s, rfl, rfl, fun _ _ h => absurd h List.not_mem_nil, fun _ h => absurd h List.not_mem_nil⟩

theorem Moves.trans (h : Moves copies sent hops s t) (h' : Moves copies' sent' hops' t u) :
    Moves (copies ∨ copies') (sent ++ sent') (hops + hops') s u := by
  obtain ⟨es, hrun, hsends, hagings, holder, hcopies⟩ := h
  obtain ⟨es', hrun', hsends', hagings', holder', hcopies'⟩ := h'
  refine ⟨es ++ es', hrun.trans hrun', ?_, ?_, fun p q hmem => ?_, fun p hmem => ?_⟩
  · rw [sends_append, hsends, hsends']
  · rw [agings_append, hagings, hagings']
  · exact (List.mem_append.mp hmem).elim (holder p q) (holder' p q)
  · exact (List.mem_append.mp hmem).imp (hcopies p) (hcopies' p)

theorem Moves.mono (h : Moves copies sent hops s t) (hcopies : copies → copies') :
    Moves copies' sent hops s t := by
  obtain ⟨es, hrun, hsends, hagings, holder, hcopied⟩ := h
  exact ⟨es, hrun, hsends, hagings, holder, fun p hmem => hcopies (hcopied p hmem)⟩

theorem Moves.frame (h : Moves copies sent hops s t) (u : Multiset Packet) :
    Moves copies sent hops (s + u) (t + u) := by
  obtain ⟨es, hrun, hrest⟩ := h
  exact ⟨es, hrun.frame u, hrest⟩

/-- What holds of the packets that are put in, and is kept by passing a router, holds of all. -/
theorem Moves.all {P : Packet → Prop} (h : Moves copies sent hops s t) (hs : ∀ p ∈ s, P p)
    (hsent : ∀ p ∈ sent, P p) (holder : ∀ p q, Older p q → P p → P q) : ∀ q ∈ t, P q := by
  obtain ⟨es, hrun, hsends, -, hages, -⟩ := h
  refine hrun.all hs (fun p hp => hsent p ?_) fun p q hmem => holder p q (hages p q hmem)
  rw [← hsends]
  exact List.mem_filterMap.mpr ⟨.send p, hp, rfl⟩

/-- Where nothing passes a router, all there is was there or was put in. -/
theorem Moves.mem_of_none (h : Moves copies sent 0 s t) {q : Packet} (hq : q ∈ t) :
    q ∈ s ∨ q ∈ sent := by
  obtain ⟨es, hrun, hsends, hagings, -⟩ := h
  refine hrun.all (P := fun q => q ∈ s ∨ q ∈ sent) (fun _ => Or.inl) (fun p hp => Or.inr ?_)
    (fun a b hab => ?_) q hq
  · rw [← hsends]
    exact List.mem_filterMap.mpr ⟨.send p, hp, rfl⟩
  · have hmem : (a, b) ∈ es.filterMap Event.aged := List.mem_filterMap.mpr ⟨.age a b, hab, rfl⟩
    rw [List.length_eq_zero_iff.mp hagings] at hmem
    exact absurd hmem List.not_mem_nil

/-- One event that puts nothing in and copies nothing. -/
theorem moves_lose (copies : Prop) (s : Multiset Packet) (l : List Packet) :
    Moves copies [] 0 (s + ↑l) s := by
  refine ⟨l.map .lose, run_lose s l, ?_, ?_, fun p q hmem => ?_, fun p hmem => ?_⟩
  · rw [sends, List.filterMap_map]
    exact List.filterMap_eq_nil_iff.mpr fun _ _ => rfl
  · rw [agings, List.filterMap_map, List.length_eq_zero_iff]
    exact List.filterMap_eq_nil_iff.mpr fun _ _ => rfl
  · obtain ⟨_, -, heq⟩ := List.mem_map.mp hmem
    cases heq
  · obtain ⟨_, -, heq⟩ := List.mem_map.mp hmem
    cases heq

/-- One event. -/
theorem moves_event {e : Event Packet} (h : Step s e t) (holder : ∀ p q, e = .age p q → Older p q)
    (hcopies : ∀ p, e = .copy p → copies) :
    Moves copies e.sent.toList e.aged.toList.length s t := by
  refine ⟨[e], h.run, ?_, ?_, fun p q hmem => ?_, fun p hmem => ?_⟩
  · cases e <;> rfl
  · cases e <;> rfl
  · exact holder p q (List.mem_singleton.mp hmem).symm
  · exact hcopies p (List.mem_singleton.mp hmem).symm

theorem moves_send (copies : Prop) (s : Multiset Packet) (p : Packet) :
    Moves copies [p] 0 s (s + {p}) :=
  moves_event (.send s p) (fun _ _ h => by cases h) fun _ h => by cases h

theorem moves_age (copies : Prop) (s : Multiset Packet) {p q : Packet} (h : Older p q) :
    Moves copies [] 1 (s + {p}) (s + {q}) := by
  refine moves_event (.age s p q) (fun p' q' heq => ?_) fun _ heq => by cases heq
  obtain ⟨rfl, rfl⟩ := Event.age.inj heq
  exact h

theorem moves_copy (s : Multiset Packet) (p : Packet) :
    Moves True [] 0 (s + {p}) (s + {p} + {p}) :=
  moves_event (.copy s p) (fun _ _ h => by cases h) fun _ _ => trivial

/-- A datagram that is handed on has passed a router. -/
theorem older_of_forward {r : Router k} {d : IPv4Datagram}
    {call : Fin k × IPv4Datagram × BitVec 32} (h : r.forward d = some call) :
    call.2.1 = Router.hop d ∧ Older (packet d) (packet call.2.1) := by
  rw [Router.forward] at h
  split_ifs at h with httl
  obtain ⟨route, -, rfl⟩ := Option.map_eq_some_iff.mp h
  refine ⟨rfl, ?_, rfl⟩
  rw [BitVec.not_le] at httl
  exact BitVec.lt_def.mp httl

/-- What is handed on of a queue. -/
def handedOn (r : Router k) (queue : List IPv4Datagram) : List Packet :=
  (queue.filterMap r.forward).map fun call => packet call.2.1

/-- **A QUEUE IS ROUTED**: every packet passes on, or is lost. -/
theorem moves_queue (copies : Prop) (r : Router k) (queue : List IPv4Datagram) :
    Moves copies [] (queue.filterMap r.forward).length ↑(queue.map packet) ↑(handedOn r queue) := by
  induction queue with
  | nil => exact Moves.refl copies 0
  | cons d queue ih =>
      have hcons : ∀ (p : Packet) (l : List Packet),
          ((p :: l : List Packet) : Multiset Packet) = ↑l + {p} := by
        intro p l
        rw [← Multiset.cons_coe, ← Multiset.singleton_add, add_comm]
      have hrest := ih.frame {packet d}
      rw [List.map_cons, hcons]
      cases hforward : r.forward d with
      | none =>
          have hlost := (hrest.trans (moves_lose copies ↑(handedOn r queue) [packet d])).mono
            (or_self_iff.mp)
          rw [handedOn, List.filterMap_cons_none hforward]
          exact hlost
      | some call =>
          have holder := (older_of_forward hforward).2
          have haged := (hrest.trans (moves_age copies ↑(handedOn r queue) holder)).mono or_self_iff.mp
          rw [handedOn, List.filterMap_cons_some hforward, List.map_cons, hcons]
          exact haged

/-- What the interfaces are handed, taken together. -/
theorem sum_of (calls : List (Fin k × IPv4Datagram × BitVec 32)) :
    (∑ j, (((of j calls).map fun call => packet call.1 : List Packet) : Multiset Packet))
      = ↑(calls.map fun call => packet call.2.1) := by
  induction calls with
  | nil => exact Finset.sum_eq_zero fun _ _ => rfl
  | cons call calls ih =>
      obtain ⟨i, call⟩ := call
      have hone : ∀ j, (((of j ((i, call) :: calls)).map fun call => packet call.1 : List Packet) :
          Multiset Packet) = (if i = j then {packet call.1} else 0)
            + ↑((of j calls).map fun call => packet call.1) := by
        intro j
        by_cases hj : i = j
        · subst hj
          rw [of_cons_self, if_pos rfl, Multiset.singleton_add, Multiset.cons_coe]
          rfl
        · rw [of_cons_ne hj, if_neg hj, zero_add]
      rw [Finset.sum_congr rfl fun j _ => hone j, Finset.sum_add_distrib, ih,
        Finset.sum_ite_eq Finset.univ i, if_pos (Finset.mem_univ i), Multiset.singleton_add,
        Multiset.cons_coe]
      rfl

theorem sum_queues (r : Router k) :
    (∑ i, (((r.interfaces i).datagramsOut.map packet : List Packet) : Multiset Packet))
      = ↑(r.queued.map packet) := by
  have hgo : ∀ l : List (Fin k),
      (l.map fun i => (((r.interfaces i).datagramsOut.map packet : List Packet) :
        Multiset Packet)).sum = ↑((l.flatMap fun i => (r.interfaces i).datagramsOut).map packet) := by
    intro l
    induction l with
    | nil => rfl
    | cons i l ih =>
        rw [List.map_cons, List.sum_cons, ih, List.flatMap_cons, List.map_append, coe_append]
  rw [Fin.sum_univ_def, hgo]
  rfl

/-- **ROUTING** raises nothing; instead of what was queued there is what is handed on, and
    the rest stays. -/
theorem route_bag {r : Router k} (h : GoodRouter r) :
    ∃ r' rest, r.route = (.ok (), r') ∧ GoodRouter r'
      ∧ bag r = ↑(r.queued.map packet) + rest ∧ bag r' = ↑(handedOn r r.queued) + rest := by
  obtain ⟨r', hroute, hhanded, hempty⟩ := Router.route_spec fun i d hd =>
    Router.Deliverable.of_writable ((h i).queued d hd).writable
  have hcalls : ∀ j, ∀ call ∈ of j (r.queued.filterMap r.forward), Good call.1 := by
    intro j call hcall
    obtain ⟨d, hd, hforward⟩ := List.mem_filterMap.mp (mem_of_iff.mp hcall)
    obtain ⟨i, -, hqueue⟩ := List.mem_flatMap.mp hd
    rw [(older_of_forward hforward).1]
    exact ((h i).queued d hqueue).hop
  have hsends := fun j => foldl_sendTo_held _ (h j).iface (hcalls j)
  have hgood : GoodRouter r' := by
    intro j
    refine ⟨fun d hd => ?_, ?_⟩
    · rw [hempty j] at hd
      exact absurd hd List.not_mem_nil
    · rw [hhanded.sends j]
      exact (hsends j).1
  refine ⟨r', ∑ i, heldBy (r.interfaces i).iface, hroute, hgood, ?_, ?_⟩
  · rw [← sum_queues, ← Finset.sum_add_distrib]
    rfl
  · have heach : ∀ j, held (r'.interfaces j) = heldBy (r.interfaces j).iface
        + ↑((of j (r.queued.filterMap r.forward)).map fun call => packet call.1) := by
      intro j
      rw [held, hempty j, hhanded.sends j, (hsends j).2]
      exact zero_add _
    rw [bag, Finset.sum_congr rfl fun j _ => heach j, Finset.sum_add_distrib, sum_of, add_comm]
    rfl

/-- The router has the packet queued, and hands it on as the other. -/
def HandsOn (r : Router k) (p q : Packet) : Prop :=
  ∃ d ∈ r.queued, ∃ call, r.forward d = some call ∧ packet d = p ∧ packet call.2.1 = q

theorem HandsOn.older {r : Router k} {p q : Packet} (h : HandsOn r p q) : Older p q := by
  obtain ⟨d, -, call, hforward, rfl, rfl⟩ := h
  exact (older_of_forward hforward).2

/-- What is in a router after routing was there, or was handed on. -/
theorem route_origin {r r' : Router k} (h : GoodRouter r) (hroute : r.route = (.ok (), r'))
    {q : Packet} (hq : q ∈ bag r') : q ∈ bag r ∨ ∃ p ∈ bag r, HandsOn r p q := by
  obtain ⟨r₁, rest, hroute₁, -, hbefore, hafter⟩ := route_bag h
  obtain rfl := congrArg Prod.snd (hroute₁.symm.trans hroute)
  rw [hafter] at hq
  rw [hbefore]
  rcases Multiset.mem_add.mp hq with hq | hq
  · obtain ⟨call, hcall, rfl⟩ := List.mem_map.mp (Multiset.mem_coe.mp hq)
    obtain ⟨d, hd, hforward⟩ := List.mem_filterMap.mp hcall
    refine Or.inr ⟨packet d, Multiset.mem_add.mpr (Or.inl ?_), d, hd, call, hforward, rfl, rfl⟩
    exact Multiset.mem_coe.mpr (List.mem_map_of_mem hd)
  · exact Or.inl (Multiset.mem_add.mpr (Or.inr hq))

end Routing

/-! ## The internet -/

/-- Routers and hosts, the frames on the wire, and how many datagrams routers handed on. -/
structure Internet (ι : Type) (k : Nat) where
  routers : ι → Router k
  wire : List EthernetFrame := []
  forwards : Nat := 0

/-- What happens in an internet.  A frame on the wire is named by its place. -/
inductive Op (ι : Type) (k : Nat) where
  /-- a host sends a datagram -/
  | send (n : ι) (i : Fin k) (dgram : IPv4Datagram) (nextHop : BitVec 32)
  /-- a host takes what it has received -/
  | take (n : ι) (i : Fin k)
  | route (n : ι)
  | tick (n : ι) (i : Fin k) (ms : Nat)
  /-- an interface puts its first frame on the wire -/
  | transmit (n : ι) (i : Fin k)
  /-- a frame reaches an interface, any interface -/
  | deliver (n : ι) (i : Fin k) (j : Nat)
  | lose (j : Nat)
  | duplicate (j : Nat)
  /-- a frame comes from outside -/
  | arrive (n : ι) (i : Fin k) (frame : EthernetFrame)

namespace Internet

variable {ι : Type} [DecidableEq ι] {k : Nat}

def setRouter (s : Internet ι k) (n : ι) (r : Router k) : Internet ι k :=
  { s with routers := Function.update s.routers n r }

def iface (s : Internet ι k) (n : ι) (i : Fin k) : AsyncNetworkInterface :=
  (s.routers n).interfaces i

def setIface (s : Internet ι k) (n : ι) (i : Fin k) (a : AsyncNetworkInterface) : Internet ι k :=
  s.setRouter n ((s.routers n).setInterface i a)

/-- An interface receives a frame; the exception, if any, leaves the program. -/
def hear (s : Internet ι k) (n : ι) (i : Fin k) (frame : EthernetFrame) : Option (Internet ι k) :=
  match (s.iface n i).recvFrame frame with
  | (.error _, _) => none
  | (.ok (), a) => some (s.setIface n i a)

/-- One step.  It is not enabled where something is not there, or where the code raises. -/
def step (s : Internet ι k) : Op ι k → Option (Internet ι k)
  | .send n i dgram nextHop =>
      match (s.iface n i).iface.sendDatagram dgram nextHop with
      | (.error _, _) => none
      | (.ok (), iface) => some (s.setIface n i { s.iface n i with iface := iface })
  | .take n i => some (s.setIface n i { s.iface n i with datagramsOut := [] })
  | .route n =>
      match (s.routers n).route with
      | (.error _, _) => none
      | (.ok (), r) => some { s.setRouter n r with
          forwards := s.forwards + ((s.routers n).queued.filterMap (s.routers n).forward).length }
  | .tick n i ms =>
      some (s.setIface n i { s.iface n i with iface := (s.iface n i).iface.tick ms })
  | .transmit n i =>
      match (s.iface n i).iface.framesOut with
      | [] => none
      | frame :: rest => some { s.setIface n i
          { s.iface n i with iface := { (s.iface n i).iface with framesOut := rest } } with
          wire := s.wire ++ [onWire frame] }
  | .deliver n i j =>
      s.wire[j]?.bind fun frame => { s with wire := s.wire.eraseIdx j }.hear n i frame
  | .lose j => s.wire[j]?.map fun _ => { s with wire := s.wire.eraseIdx j }
  | .duplicate j => s.wire[j]?.map fun frame => { s with wire := s.wire ++ [frame] }
  | .arrive n i frame => s.hear n i frame

/-- How many datagrams an operation hands on. -/
def handed (s : Internet ι k) : Op ι k → Nat
  | .route n => ((s.routers n).queued.filterMap (s.routers n).forward).length
  | _ => 0

/-- What there has to be for an operation. -/
def Enabled (s : Internet ι k) : Op ι k → Prop
  | .transmit n i => (s.iface n i).iface.framesOut ≠ []
  | .deliver _ _ j | .lose j | .duplicate j => j < s.wire.length
  | _ => True

end Internet

/-- Good datagrams are sent and come from outside. -/
def Op.Fine {ι : Type} {k : Nat} : Op ι k → Prop
  | .send _ _ dgram _ => Good dgram
  | .arrive _ _ frame => frame.payload.buffers.length ≤ 1 ∧ ∀ d ∈ carriedDatagram frame, Good d
  | _ => True

instance {ι : Type} {k : Nat} : ∀ op : Op ι k, Decidable op.Fine
  | .send _ _ dgram _ => inferInstanceAs (Decidable (Good dgram))
  | .arrive _ _ frame => inferInstanceAs (Decidable (_ ∧ ∀ d ∈ carriedDatagram frame, _))
  | .take _ _ | .route _ | .tick _ _ _ | .transmit _ _ | .deliver _ _ _ | .lose _
  | .duplicate _ => isTrue trivial

/-- The packet that is put in. -/
def Op.sent {ι : Type} {k : Nat} : Op ι k → List Packet
  | .send _ _ dgram _ => [packet dgram]
  | .arrive _ _ frame => ((carriedDatagram frame).map packet).toList
  | _ => []

def Op.Copies {ι : Type} {k : Nat} : Op ι k → Prop
  | .duplicate _ => True
  | _ => False

namespace Internet

variable {ι : Type} [DecidableEq ι] {k : Nat} {s s' : Internet ι k} {op : Op ι k}

omit [DecidableEq ι] in
/-- Everything in the internet is good. -/
structure Sound (s : Internet ι k) : Prop where
  routers : ∀ n, GoodRouter (s.routers n)
  wire : ∀ frame ∈ s.wire, onWire frame = frame ∧ GoodFrame frame

theorem Sound.setRouter (h : Sound s) {n : ι} {r : Router k} (hr : GoodRouter r) :
    Sound (s.setRouter n r) := by
  refine ⟨fun m => ?_, h.wire⟩
  by_cases hm : m = n
  · subst hm
    show GoodRouter (Function.update s.routers m r m)
    rw [Function.update_self]
    exact hr
  · show GoodRouter (Function.update s.routers n r m)
    rw [Function.update_of_ne hm]
    exact h.routers m

theorem Sound.setIface (h : Sound s) {n : ι} {i : Fin k} {a : AsyncNetworkInterface}
    (ha : GoodAsync a) : Sound (s.setIface n i a) := by
  refine h.setRouter fun j => ?_
  rw [Router.setInterface]
  dsimp only
  by_cases hj : j = i
  · rw [hj, Function.update_self]
    exact ha
  · rw [Function.update_of_ne hj]
    exact h.routers n j

omit [DecidableEq ι] in
theorem Sound.erase (h : Sound s) (j : Nat) : Sound { s with wire := s.wire.eraseIdx j } :=
  ⟨h.routers, fun frame hframe => h.wire frame (List.mem_of_mem_eraseIdx hframe)⟩

theorem single_onWire {frame : EthernetFrame} (h : onWire frame = frame) :
    frame.payload.buffers.length ≤ 1 := by
  rw [← h]
  exact Nat.le_refl 1

variable [Fintype ι]

/-- **THE BAG**: all the packets in the internet. -/
def contents (s : Internet ι k) : Multiset Packet :=
  (∑ n, bag (s.routers n)) + ↑(s.wire.flatMap inFrame)

/-- One interface changes. -/
theorem contents_setIface {n : ι} {i : Fin k} {a : AsyncNetworkInterface} {x y : Multiset Packet}
    (h : held a + y = held (s.iface n i) + x) :
    (s.setIface n i a).contents + y = s.contents + x := by
  have hbag : bag ((s.routers n).setInterface i a) + y = bag (s.routers n) + x := sum_update h
  have hall : (∑ m, bag (Function.update s.routers n ((s.routers n).setInterface i a) m)) + y
      = (∑ m, bag (s.routers m)) + x := sum_update hbag
  rw [contents, contents, add_right_comm, add_right_comm _ _ x]
  exact congrArg (· + _) hall

/-- It holds more, or as much. -/
theorem contents_more {n : ι} {i : Fin k} {a : AsyncNetworkInterface} {x : Multiset Packet}
    (h : held a = held (s.iface n i) + x) : (s.setIface n i a).contents = s.contents + x := by
  have hbalance := contents_setIface (y := 0) ((add_zero _).trans h)
  rwa [add_zero] at hbalance

theorem contents_same {n : ι} {i : Fin k} {a : AsyncNetworkInterface}
    (h : held a = held (s.iface n i)) : (s.setIface n i a).contents = s.contents :=
  (contents_more (h.trans (add_zero _).symm)).trans (add_zero _)

/-- It holds less. -/
theorem contents_less {n : ι} {i : Fin k} {a : AsyncNetworkInterface} {y : Multiset Packet}
    (h : held (s.iface n i) = held a + y) : s.contents = (s.setIface n i a).contents + y := by
  have hbalance := contents_setIface (x := 0) (h.symm.trans (add_zero _).symm)
  rw [hbalance, add_zero]

omit [DecidableEq ι] in
/-- A frame comes off the wire. -/
theorem contents_erase {j : Nat} {frame : EthernetFrame} (h : s.wire[j]? = some frame) :
    s.contents = { s with wire := s.wire.eraseIdx j }.contents + ↑(inFrame frame) := by
  obtain ⟨hj, rfl⟩ := List.getElem?_eq_some_iff.mp h
  have hperm := (List.getElem_cons_eraseIdx_perm hj).flatMap_right inFrame
  rw [contents, contents, ← Multiset.coe_eq_coe.mpr hperm, List.flatMap_cons, coe_append, add_assoc,
    add_comm (inFrame s.wire[j] : Multiset Packet)]

omit [DecidableEq ι] in
/-- A frame goes on the wire. -/
theorem contents_wire (s : Internet ι k) (frame : EthernetFrame) :
    { s with wire := s.wire ++ [frame] }.contents = s.contents + ↑(inFrame frame) := by
  rw [contents, contents]
  dsimp only
  rw [List.flatMap_append, List.flatMap_singleton, coe_append, add_assoc]

/-- What one router does, the internet does. -/
theorem contents_setRouter {n : ι} {r : Router k} {copies : Prop} {sent : List Packet} {hops : Nat}
    (h : Moves copies sent hops (bag (s.routers n)) (bag r)) :
    Moves copies sent hops s.contents (s.setRouter n r).contents := by
  obtain ⟨rest, hbefore, hafter⟩ := sum_split bag s.routers n
  rw [contents, contents, hbefore, add_assoc]
  have hsum : ∑ m, bag ((s.setRouter n r).routers m) = bag r + rest := hafter r
  rw [hsum, add_assoc]
  exact h.frame _

/-- **AN INTERFACE HEARS A FRAME**: its packet goes in, if it carries one. -/
theorem hear_moves (h : Sound s) {n : ι} {i : Fin k} {frame : EthernetFrame}
    (hsingle : frame.payload.buffers.length ≤ 1) (hgood : ∀ d ∈ carriedDatagram frame, Good d) :
    ∃ s', s.hear n i frame = some s' ∧ Sound s' ∧ s'.forwards = s.forwards
      ∧ (s'.contents = s.contents
        ∨ ∃ d ∈ carriedDatagram frame, s'.contents = s.contents + {packet d}) := by
  obtain ⟨a, hrecv, ha, hheld⟩ := recvFrame_held (h.routers n i) hsingle hgood
  refine ⟨s.setIface n i a, ?_, h.setIface ha, rfl, ?_⟩
  · rw [hear, Internet.iface, hrecv]
  · exact hheld.imp contents_same fun ⟨d, hd, hmore⟩ => ⟨d, hd, contents_more hmore⟩

/-- **ONE STEP** raises nothing, and is a run of the bag. -/
theorem step_moves (h : Sound s) (hfine : op.Fine) (henabled : s.Enabled op) :
    ∃ s', s.step op = some s' ∧ Sound s' ∧ s'.forwards = s.forwards + s.handed op
      ∧ Moves op.Copies op.sent (s.handed op) s.contents s'.contents := by
  cases op with
  | send n i dgram nextHop =>
      obtain ⟨iface, hsend, hgood, hheld⟩ := send_held (h.routers n i).iface hfine nextHop
      refine ⟨s.setIface n i { s.iface n i with iface := iface }, ?_,
        h.setIface ⟨(h.routers n i).queued, hgood⟩, rfl, ?_⟩
      · rw [step, Internet.iface, hsend]
      · have hmore : held { s.iface n i with iface := iface }
            = held (s.iface n i) + {packet dgram} := by
          rw [held, held, add_assoc]
          exact congrArg (((s.iface n i).datagramsOut.map packet : Multiset Packet) + ·) hheld
        rw [contents_more hmore]
        exact moves_send _ _ _
  | take n i =>
      refine ⟨s.setIface n i { s.iface n i with datagramsOut := [] }, rfl,
        h.setIface ⟨fun d hd => absurd hd List.not_mem_nil, (h.routers n i).iface⟩, rfl, ?_⟩
      have hless : held (s.iface n i) = held { s.iface n i with datagramsOut := [] }
          + ↑((s.iface n i).datagramsOut.map packet) := by
        rw [held, held, add_comm (↑((s.iface n i).datagramsOut.map packet) : Multiset Packet)]
        exact congrArg (· + _) (zero_add _).symm
      rw [contents_less hless]
      exact moves_lose _ _ _
  | route n =>
      obtain ⟨r, rest, hroute, hgood, hbefore, hafter⟩ := route_bag (h.routers n)
      refine ⟨{ s.setRouter n r with
          forwards := s.forwards + ((s.routers n).queued.filterMap (s.routers n).forward).length },
        ?_, ⟨(h.setRouter hgood).routers, h.wire⟩, rfl, contents_setRouter ?_⟩
      · rw [step, hroute]
      · rw [hbefore, hafter]
        exact (moves_queue _ (s.routers n) (s.routers n).queued).frame _
  | tick n i ms =>
      refine ⟨s.setIface n i { s.iface n i with iface := (s.iface n i).iface.tick ms }, rfl,
        h.setIface ⟨(h.routers n i).queued, (h.routers n i).iface.pending,
          (h.routers n i).iface.frames⟩, rfl, ?_⟩
      have hsame : held { s.iface n i with iface := (s.iface n i).iface.tick ms }
          = held (s.iface n i) := rfl
      rw [contents_same hsame]
      exact Moves.refl _ _
  | transmit n i =>
      cases hframes : (s.iface n i).iface.framesOut with
      | nil => exact absurd hframes henabled
      | cons frame rest =>
          have hall := (h.routers n i).iface.frames
          rw [show ((s.routers n).interfaces i).iface.framesOut = frame :: rest from hframes] at hall
          obtain ⟨hframe, hrest⟩ := List.forall_mem_cons.mp hall
          let a : AsyncNetworkInterface :=
            { s.iface n i with iface := { (s.iface n i).iface with framesOut := rest } }
          have hsound : Sound (s.setIface n i a) :=
            h.setIface ⟨(h.routers n i).queued, (h.routers n i).iface.pending, hrest⟩
          have hless : held (s.iface n i) = held a + ↑(inFrame frame) := by
            rw [held, held, heldBy, heldBy, hframes, List.flatMap_cons, coe_append,
              add_comm (inFrame frame : Multiset Packet), ← add_assoc, ← add_assoc]
            dsimp only [a]
            rw [← add_assoc]
          refine ⟨{ s.setIface n i a with wire := s.wire ++ [onWire frame] }, ?_,
            ⟨hsound.routers, fun frame' hframe' => ?_⟩, rfl, ?_⟩
          · rw [step, hframes]
          · rcases List.mem_append.mp hframe' with hold | hnew
            · exact h.wire frame' hold
            · rw [List.mem_singleton.mp hnew]
              exact ⟨rfl, hframe⟩
          · have hcontents := contents_wire (s.setIface n i a) (onWire frame)
            rw [contents_less hless]
            show Moves _ _ 0 _ (Internet.contents
              { s.setIface n i a with wire := (s.setIface n i a).wire ++ [onWire frame] })
            rw [hcontents]
            exact Moves.refl _ _
  | deliver n i j =>
      have hframe : s.wire[j]? = some s.wire[j] := List.getElem?_eq_getElem henabled
      obtain ⟨hwire, hgood⟩ := h.wire _ (List.getElem_mem henabled)
      rw [GoodFrame, hwire] at hgood
      obtain ⟨s', hhear, hsound, hforwards, hcontents⟩ :=
        hear_moves (n := n) (i := i) (h.erase j) (single_onWire hwire) hgood
      refine ⟨s', ?_, hsound, hforwards, ?_⟩
      · rw [step, hframe]
        exact hhear
      · rw [contents_erase hframe]
        rcases hcontents with hsame | ⟨d, hd, hmore⟩
        · rw [hsame]
          exact moves_lose _ _ _
        · rw [hmore, inFrame, hwire, Option.mem_def.mp hd]
          exact Moves.refl _ _
  | lose j =>
      have hframe : s.wire[j]? = some s.wire[j] := List.getElem?_eq_getElem henabled
      refine ⟨{ s with wire := s.wire.eraseIdx j }, ?_, h.erase j, rfl, ?_⟩
      · rw [step, hframe]
        rfl
      · rw [contents_erase hframe]
        exact moves_lose _ _ _
  | duplicate j =>
      have hframe : s.wire[j]? = some s.wire[j] := List.getElem?_eq_getElem henabled
      have hwire := h.wire _ (List.getElem_mem henabled)
      refine ⟨{ s with wire := s.wire ++ [s.wire[j]] }, ?_,
        ⟨h.routers, fun frame hmem => ?_⟩, rfl, ?_⟩
      · rw [step, hframe]
        rfl
      · rcases List.mem_append.mp hmem with hold | hnew
        · exact h.wire frame hold
        · rw [List.mem_singleton.mp hnew]
          exact hwire
      · rw [contents_wire, contents_erase hframe, inFrame]
        cases carriedDatagram (onWire s.wire[j]) with
        | none =>
            rw [Option.map_none, Option.toList_none, Multiset.coe_nil, add_zero, add_zero]
            exact Moves.refl _ _
        | some d => exact moves_copy _ _
  | arrive n i frame =>
      obtain ⟨s', hhear, hsound, hforwards, hcontents⟩ :=
        hear_moves (n := n) (i := i) h hfine.1 hfine.2
      refine ⟨s', hhear, hsound, hforwards, ?_⟩
      rw [Op.sent]
      rcases hcontents with hsame | ⟨d, hd, hmore⟩
      · -- the frame is not for the interface
        rw [hsame]
        cases carriedDatagram frame with
        | none => exact Moves.refl _ _
        | some d =>
            exact ((moves_send False s.contents (packet d)).trans
              (moves_lose False s.contents [packet d])).mono or_self_iff.mp
      · rw [hmore, Option.mem_def.mp hd]
        exact moves_send _ _ _

omit [Fintype ι] in
theorem enabled_of_step (h : s.step op = some s') : s.Enabled op := by
  cases op with
  | send n i dgram nextHop => exact trivial
  | take n i => exact trivial
  | route n => exact trivial
  | tick n i ms => exact trivial
  | transmit n i =>
      intro hframes
      rw [step, hframes] at h
      cases h
  | deliver n i j =>
      obtain ⟨frame, hframe, -⟩ := Option.bind_eq_some_iff.mp h
      exact (List.getElem?_eq_some_iff.mp hframe).1
  | lose j =>
      obtain ⟨frame, hframe, -⟩ := Option.map_eq_some_iff.mp h
      exact (List.getElem?_eq_some_iff.mp hframe).1
  | duplicate j =>
      obtain ⟨frame, hframe, -⟩ := Option.map_eq_some_iff.mp h
      exact (List.getElem?_eq_some_iff.mp hframe).1
  | arrive n i frame => exact trivial

/-- **EVERY RUN** is a run of the bag. -/
theorem run_moves {ops : List (Op ι k)} (h : Sound s) (hfine : ∀ op ∈ ops, op.Fine)
    (hrun : run step s ops = some s') :
    Sound s' ∧ ∃ hops, s'.forwards = s.forwards + hops
      ∧ Moves (∃ op ∈ ops, op.Copies) (ops.flatMap Op.sent) hops s.contents s'.contents := by
  induction ops generalizing s with
  | nil =>
      obtain rfl := Option.some.inj hrun
      exact ⟨h, 0, rfl, Moves.refl _ _⟩
  | cons op ops ih =>
      obtain ⟨s₁, hstep, hrest⟩ := Option.bind_eq_some_iff.mp hrun
      obtain ⟨hop, hfine⟩ := List.forall_mem_cons.mp hfine
      obtain ⟨s₂, hstep', hsound, hforwards, hmoves⟩ := step_moves h hop (enabled_of_step hstep)
      obtain rfl := Option.some.inj (hstep.symm.trans hstep')
      obtain ⟨hsound', hops', hforwards', hmoves'⟩ := ih hsound hfine hrest
      refine ⟨hsound', s.handed op + hops', by omega,
        (hmoves.trans hmoves').mono fun hcopies => ?_⟩
      rcases hcopies with hfirst | ⟨op', hop', hlater⟩
      · exact ⟨op, List.mem_cons_self .., hfirst⟩
      · exact ⟨op', List.mem_cons_of_mem op hop', hlater⟩

/-- Nothing was sent yet. -/
structure Fresh (s : Internet ι k) : Prop where
  queued : ∀ n i, (s.iface n i).datagramsOut = []
  pending : ∀ n i, (s.iface n i).iface.pendingDatagrams = []
  frames : ∀ n i, (s.iface n i).iface.framesOut = []
  wire : s.wire = []
  forwards : s.forwards = 0

omit [Fintype ι] [DecidableEq ι] in
theorem Fresh.sound (h : Fresh s) : Sound s := by
  refine ⟨fun n i => ⟨fun d hd => ?_, fun p hp => ?_, fun frame hframe => ?_⟩, fun frame hframe => ?_⟩
  · exact absurd (h.queued n i ▸ hd) List.not_mem_nil
  · exact absurd (h.pending n i ▸ hp) List.not_mem_nil
  · exact absurd (h.frames n i ▸ hframe) List.not_mem_nil
  · exact absurd (h.wire ▸ hframe) List.not_mem_nil

omit [DecidableEq ι] in
theorem Fresh.contents (h : Fresh s) : s.contents = 0 := by
  have heach : ∀ n i, held ((s.routers n).interfaces i) = 0 := by
    intro n i
    have hqueued := h.queued n i
    have hpending := h.pending n i
    have hframes := h.frames n i
    rw [iface] at hqueued hpending hframes
    rw [held, heldBy, hqueued, hpending, hframes]
    rfl
  rw [Internet.contents, h.wire]
  exact (add_zero _).trans (Finset.sum_eq_zero fun n _ => Finset.sum_eq_zero fun i _ => heach n i)

omit [DecidableEq ι] in
theorem mem_contents_of_held {n : ι} {i : Fin k} {p : Packet} (h : p ∈ held (s.iface n i)) :
    p ∈ s.contents := by
  refine Multiset.mem_add.mpr (Or.inl ?_)
  refine Multiset.mem_sum.mpr ⟨n, Finset.mem_univ n, ?_⟩
  exact Multiset.mem_sum.mpr ⟨i, Finset.mem_univ i, h⟩

omit [DecidableEq ι] in
theorem mem_contents {n : ι} {i : Fin k} {d : IPv4Datagram} (h : d ∈ (s.iface n i).datagramsOut) :
    packet d ∈ s.contents :=
  mem_contents_of_held (Multiset.mem_add.mpr (Or.inl (Multiset.mem_coe.mpr (List.mem_map_of_mem h))))

omit [DecidableEq ι] in
theorem mem_contents_frames {n : ι} {i : Fin k} {frame : EthernetFrame} {p : Packet}
    (h : frame ∈ (s.iface n i).iface.framesOut) (hp : p ∈ inFrame frame) : p ∈ s.contents := by
  have hheld : p ∈ heldBy (s.iface n i).iface :=
    Multiset.mem_add.mpr (Or.inr (Multiset.mem_coe.mpr (List.mem_flatMap.mpr ⟨frame, h, hp⟩)))
  exact mem_contents_of_held (Multiset.mem_add.mpr (Or.inr hheld))

/-! ## The way of a packet -/

/-- **THE WAY OF A PACKET** through a run, with the routers on it: at every moment it is
    somewhere in the internet, and it changes only where a router that has it queued hands
    it on. -/
inductive Travels : Internet ι k → List (Op ι k) → Packet → List ι → Packet → Prop
  | here {s : Internet ι k} {p : Packet} (inside : p ∈ s.contents) : Travels s [] p [] p
  | stay {s s₁ : Internet ι k} {op : Op ι k} {ops : List (Op ι k)} {p q : Packet} {way : List ι}
      (inside : p ∈ s.contents) (step : s.step op = some s₁) (rest : Travels s₁ ops p way q) :
      Travels s (op :: ops) p way q
  | pass {s s₁ : Internet ι k} {n : ι} {ops : List (Op ι k)} {p p₁ q : Packet} {way : List ι}
      (hands : HandsOn (s.routers n) p p₁) (step : s.step (.route n) = some s₁)
      (rest : Travels s₁ ops p₁ way q) : Travels s (.route n :: ops) p (n :: way) q

theorem Travels.passed {ops : List (Op ι k)} {p q : Packet} {way : List ι}
    (h : Travels s ops p way q) : Passed way.length p q := by
  induction h with
  | here _ => exact Passed.refl _
  | stay _ _ _ ih => exact ih
  | pass hands _ _ ih => exact Passed.older hands.older ih

/-- **ONE STEP BACK**: a packet was there, was put in, or has passed a router. -/
theorem step_origin (h : Sound s) (hfine : op.Fine) (hstep : s.step op = some s') {q : Packet}
    (hq : q ∈ s'.contents) :
    q ∈ s.contents ∨ q ∈ op.sent
      ∨ ∃ n, op = .route n ∧ ∃ p ∈ s.contents, HandsOn (s.routers n) p q := by
  have hmoves : Moves op.Copies op.sent (s.handed op) s.contents s'.contents := by
    obtain ⟨s₁, hstep₁, -, -, hmoves⟩ := step_moves h hfine (enabled_of_step hstep)
    obtain rfl := Option.some.inj (hstep₁.symm.trans hstep)
    exact hmoves
  cases op with
  | route n =>
      obtain ⟨r, rest, hroute, -⟩ := route_bag (h.routers n)
      rw [step, hroute] at hstep
      obtain rfl := Option.some.inj hstep
      rcases Multiset.mem_add.mp hq with hq | hq
      · obtain ⟨m, -, hq⟩ := Multiset.mem_sum.mp hq
        have hin : ∀ {m : ι} {p : Packet}, p ∈ bag (s.routers m) → p ∈ s.contents := fun hp =>
          Multiset.mem_add.mpr (Or.inl (Multiset.mem_sum.mpr ⟨_, Finset.mem_univ _, hp⟩))
        have hq : q ∈ bag (Function.update s.routers n r m) := hq
        by_cases hm : m = n
        · rw [hm, Function.update_self] at hq
          rcases route_origin (h.routers n) hroute hq with hold | ⟨p, hp, hhands⟩
          · exact Or.inl (hin hold)
          · exact Or.inr (Or.inr ⟨n, rfl, p, hin hp, hhands⟩)
        · rw [Function.update_of_ne hm] at hq
          exact Or.inl (hin hq)
      · exact Or.inl (Multiset.mem_add.mpr (Or.inr hq))
  | _ => exact (hmoves.mem_of_none hq).imp_right Or.inl

/-- A packet that a run puts in, and its way from there on. -/
def PutIn (s : Internet ι k) (ops : List (Op ι k)) (q : Packet) : Prop :=
  ∃ before op after s₁ s₂, ops = before ++ op :: after ∧ run step s before = some s₁
    ∧ s₁.step op = some s₂
    ∧ ∃ p ∈ op.sent, ∃ way, Travels s₂ after p way q ∧ Passed way.length p q

/-- **A RUN BACK**: a packet was there at the start, or was put in. -/
theorem run_origin {ops : List (Op ι k)} (h : Sound s) (hfine : ∀ op ∈ ops, op.Fine)
    (hrun : run step s ops = some s') {q : Packet} (hq : q ∈ s'.contents) :
    (∃ p ∈ s.contents, ∃ way, Travels s ops p way q) ∨ PutIn s ops q := by
  induction ops generalizing s with
  | nil =>
      obtain rfl := Option.some.inj hrun
      exact Or.inl ⟨q, hq, [], .here hq⟩
  | cons op ops ih =>
      obtain ⟨s₁, hstep, hrest⟩ := Option.bind_eq_some_iff.mp hrun
      obtain ⟨hop, hfine⟩ := List.forall_mem_cons.mp hfine
      obtain ⟨s₂, hstep', hsound, -⟩ := step_moves h hop (enabled_of_step hstep)
      obtain rfl := Option.some.inj (hstep.symm.trans hstep')
      rcases ih hsound hfine hrest with ⟨p, hp, way, htravels⟩ | hput
      · rcases step_origin h hop hstep hp with hold | hsent | ⟨n, rfl, p₀, hp₀, hhands⟩
        · exact Or.inl ⟨p, hold, way, .stay hold hstep htravels⟩
        · exact Or.inr ⟨[], op, ops, s, s₁, rfl, rfl, hstep, p, hsent, way, htravels,
            htravels.passed⟩
        · exact Or.inl ⟨p₀, hp₀, n :: way, .pass hhands hstep htravels⟩
      · obtain ⟨before, op', after, s₃, s₄, rfl, hbefore, hrest'⟩ := hput
        exact Or.inr ⟨op :: before, op', after, s₃, s₄, rfl, run_cons hstep hbefore, hrest'⟩

/-- **NOTHING IS MADE UP ON THE WAY**: after any run of an internet of any shape, with any
    routes, in which good datagrams were put in, frames were lost, reordered, duplicated and
    misdelivered and messages forged, no call raises, and every datagram that was received
    anywhere is one that a host sent or that came from outside, unchanged but for the time to
    live, which counts the routers on its way, and for the checksum. -/
theorem packets_genuine (s t : Internet ι k) (ops : List (Op ι k)) (hfresh : Fresh s)
    (hfine : ∀ op ∈ ops, op.Fine) (hrun : run step s ops = some t) :
    (∀ op : Op ι k, op.Fine → t.Enabled op → ∃ t', t.step op = some t')
      ∧ ∀ n i, ∀ d ∈ (t.iface n i).datagramsOut, PutIn s ops (packet d) := by
  constructor
  · intro op hop henabled
    obtain ⟨t', hstep, -⟩ := step_moves (run_moves hfresh.sound hfine hrun).1 hop henabled
    exact ⟨t', hstep⟩
  · intro n i d hd
    rcases run_origin hfresh.sound hfine hrun (mem_contents hd) with ⟨p, hp, -⟩ | hput
    · rw [hfresh.contents] at hp
      exact absurd hp (Multiset.notMem_zero p)
    · exact hput

/-- **LOOPS DIE OUT**: as long as no frame is duplicated and what is put in is good, routers
    hand on no more datagrams than its times to live allow, however the routes run in
    circles. -/
theorem loops_die_out (s t : Internet ι k) (ops : List (Op ι k)) (hfresh : Fresh s)
    (hfine : ∀ op ∈ ops, op.Fine) (honce : ∀ j, .duplicate j ∉ ops)
    (hrun : run step s ops = some t) :
    t.forwards ≤ ((ops.flatMap Op.sent).map Packet.hopsLeft).sum := by
  obtain ⟨-, hops, hforwards, es, hbag, hsends, hagings, holder, hcopies⟩ :=
    run_moves hfresh.sound hfine hrun
  have hnone : ∀ p, .copy p ∉ es := by
    intro p hp
    obtain ⟨op, hop, hcopy⟩ := hcopies p hp
    cases op with
    | duplicate j => exact honce j hop
    | _ => exact hcopy
  have hbudget := hbag.budget (fun p q hmem => (holder p q hmem).lighter) hnone
  rw [hfresh.contents, hsends, hagings] at hbudget
  have hzero : weight Packet.hopsLeft 0 = 0 := rfl
  rw [hforwards, hfresh.forwards]
  omega

end Internet

theorem inRange_zero : (0 : BitVec 8).toNat ≤ 32 := by decide

/-- The only interface. -/
def port : Fin 1 := Fin.last 0

/-- The router with the address `ip`, which sends everything to the next hop. -/
def pointingTo (ip nextHop : BitVec 32) : Router 1 where
  routes := [⟨0, 0, some nextHop, port, inRange_zero⟩]
  interfaces := fun _ =>
    { iface := { ethernetAddress := .replicate 6 (UInt8.ofNat ip.toNat), ipAddress := ip } }

/-- Two routers that send everything to each other. -/
def circle : Internet Bool 1 where
  routers := fun n => if n then pointingTo 2 1 else pointingTo 1 2

/-- A datagram that may pass two routers. -/
def shortLived : IPv4Datagram := { header := { len := 20, ttl := 3, dst := 9 } }

/-- It is sent, its next hop is resolved, and it goes there, back and there again. -/
def roundAndRound : List (Op Bool 1) :=
  [.send false port shortLived 2, .transmit false port, .deliver true port 0, .transmit true port,
    .deliver false port 0, .transmit false port, .deliver true port 0, .route true,
    .transmit true port, .deliver false port 0, .route false, .transmit false port,
    .deliver true port 0]

theorem fresh_circle : Internet.Fresh circle :=
  ⟨by decide, by decide, by decide, rfl, rfl⟩

theorem fine_roundAndRound : ∀ op ∈ roundAndRound, op.Fine := by decide

/-- It has passed two routers, and will pass no more. -/
theorem circle_run :
    ∃ t, run Internet.step circle roundAndRound = some t ∧ t.forwards = 2
      ∧ (t.iface true port).datagramsOut.map (·.header.ttl) = [1] :=
  ⟨_, rfl, rfl, rfl⟩

theorem packets_genuine_circle :
    ∃ t d, run Internet.step circle roundAndRound = some t ∧ d ∈ (t.iface true port).datagramsOut
      ∧ d.header.ttl = 1 ∧ Internet.PutIn circle roundAndRound (packet d) := by
  obtain ⟨t, hrun, -, hqueue⟩ := circle_run
  obtain ⟨d, hd, httl⟩ := List.mem_map.mp (hqueue ▸ List.mem_singleton_self 1)
  obtain ⟨-, hgenuine⟩ := Internet.packets_genuine circle t roundAndRound fresh_circle
    fine_roundAndRound hrun
  exact ⟨t, d, hrun, hd, httl, hgenuine true port d hd⟩

theorem loops_die_out_circle :
    ∃ t, run Internet.step circle roundAndRound = some t ∧ t.forwards = 2
      ∧ t.forwards ≤ ((roundAndRound.flatMap Op.sent).map Packet.hopsLeft).sum := by
  obtain ⟨t, hrun, hforwards, -⟩ := circle_run
  exact ⟨t, hrun, hforwards, Internet.loops_die_out circle t roundAndRound fresh_circle
    fine_roundAndRound (by simp [roundAndRound]) hrun⟩

end SpongeInternet
