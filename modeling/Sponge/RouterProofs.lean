import Mathlib.Data.List.FinRange
import Mathlib.Logic.Function.Basic
import Sponge.InterfaceProofs
import Sponge.KeyedProofs

/-! # The router — `router`

    A router takes the datagrams that its interfaces received and sends each out on the
    interface, and to the next hop, of the route with the longest matching prefix.

    `route_forwards` says what one `route()` does: every queue is empty then, and every
    interface was handed exactly the datagrams that are its own by the routes.

    A datagram that came in is written down again when it goes out.  The parser takes
    datagrams that cannot be written (`SpongeIPv4.parsed_serialize_ok_iff`), and with one
    of them the router raises; `router_raises_iff` says when. -/

namespace SpongeRouter

open SpongeByteStream SpongeBuffer SpongeParser SpongeIPv4 SpongeEthernet SpongeInterface
open NetworkInterface Keyed RunRule BestSoFar

/-- The size is the one the header says, the version is 4, the header not too short. -/
def Writable (dgram : IPv4Datagram) : Prop :=
  dgram.payload.size = dgram.header.payloadLength.toNat ∧ dgram.header.ver = 4
    ∧ 5 ≤ dgram.header.hlen.toNat

instance (dgram : IPv4Datagram) : Decidable (Writable dgram) :=
  inferInstanceAs (Decidable (_ ∧ _))

theorem writable_iff {dgram : IPv4Datagram} :
    Writable dgram ↔ ∃ payload, dgram.serialize = .ok payload :=
  dgram.serialize_ok_iff.symm

/-- An interface that stores the datagrams it receives. -/
structure AsyncNetworkInterface where
  iface : NetworkInterface
  datagramsOut : List IPv4Datagram := []
deriving DecidableEq

namespace AsyncNetworkInterface

def recvFrame (a : AsyncNetworkInterface) (frame : EthernetFrame) :
    Except String Unit × AsyncNetworkInterface :=
  match a.iface.recvFrame frame with
  | (.error text, n) => (.error text, { a with iface := n })
  | (.ok none, n) => (.ok (), { a with iface := n })
  | (.ok (some dgram), n) =>
      (.ok (), { iface := n, datagramsOut := a.datagramsOut ++ [dgram] })

section Received

variable {a : AsyncNetworkInterface} {frame : EthernetFrame} {m : ARPMessage}

/-- A frame without a message: the datagram that it brings is stored. -/
theorem recvFrame_quiet (hsingle : frame.payload.buffers.length ≤ 1)
    (h : a.iface.arpMessage frame = none) :
    a.recvFrame frame = (.ok (),
      { a with datagramsOut := a.datagramsOut ++ (a.iface.broughtDatagram frame).toList }) := by
  rw [recvFrame, NetworkInterface.recvFrame_quiet hsingle h]
  cases a.iface.broughtDatagram frame with
  | none => simp
  | some dgram => rfl

/-- A frame with a message: what waited for the sender leaves. -/
theorem recvFrame_heard (h : a.iface.arpMessage frame = some m)
    (hok : ∀ dgram ∈ of m.senderIpAddress a.iface.pendingDatagrams, Writable dgram) :
    ∃ n, a.recvFrame frame = (.ok (), { a with iface := n })
      ∧ n.pendingDatagrams = without m.senderIpAddress a.iface.pendingDatagrams := by
  have heq := recvArp_eq m fun dgram hdgram => writable_iff.mp (hok dgram hdgram)
  rw [recvFrame, recvFrame_message h, heq]
  exact ⟨_, rfl, rfl⟩

theorem recvFrame_raises (h : a.iface.arpMessage frame = some m)
    (hbad : ¬ ∀ dgram ∈ of m.senderIpAddress a.iface.pendingDatagrams, Writable dgram) :
    ∃ text a', a.recvFrame frame = (.error text, a') := by
  obtain ⟨dgram, hdgram⟩ := not_forall.mp hbad
  obtain ⟨hwaits, hraises⟩ := Classical.not_imp.mp hdgram
  rw [writable_iff] at hraises
  obtain ⟨text, n, heq, -⟩ := recvArp_raises ⟨dgram, hwaits, hraises⟩
  rw [recvFrame, recvFrame_message h, heq]
  exact ⟨text, _, rfl⟩

end Received

end AsyncNetworkInterface

/-- A route of a router with `k` interfaces; it names one of them, and the shift that
    makes its mask is defined. -/
structure Route (k : Nat) where
  routePrefix : BitVec 32
  prefixLength : BitVec 8
  nextHop : Option (BitVec 32)
  interfaceNum : Fin k
  inRange : prefixLength.toNat ≤ 32
deriving DecidableEq

namespace Route

variable {k : Nat}

def mask (route : Route k) : BitVec 32 :=
  if route.prefixLength ≠ 0 then (0xFFFFFFFF : BitVec 32) <<< (32 - route.prefixLength.toNat)
  else 0

/-- The test of the loop: the route applies to the destination. -/
def applies (dst : BitVec 32) (route : Route k) : Bool :=
  dst &&& route.mask == route.routePrefix &&& route.mask

end Route

structure Router (k : Nat) where
  routes : List (Route k) := []
  interfaces : Fin k → AsyncNetworkInterface

namespace Router

variable {k : Nat}

def addRoute (r : Router k) (routePrefix : BitVec 32) (prefixLength : BitVec 8)
    (nextHop : Option (BitVec 32)) (interfaceNum : Fin k)
    (inRange : prefixLength.toNat ≤ 32) : Router k :=
  { r with
    routes := r.routes ++ [⟨routePrefix, prefixLength, nextHop, interfaceNum, inRange⟩] }

/-- The loop over the routes. -/
def bestMatch (r : Router k) (dst : BitVec 32) : Option (Route k) :=
  r.routes.foldl (keepBest (Route.applies dst) fun route => route.prefixLength.toNat) none

def setInterface (r : Router k) (i : Fin k) (a : AsyncNetworkInterface) : Router k :=
  { r with interfaces := Function.update r.interfaces i a }

/-- `--dgram.header().ttl` -/
def hop (dgram : IPv4Datagram) : IPv4Datagram :=
  { dgram with header := { dgram.header with ttl := dgram.header.ttl - 1 } }

/-- The datagram is changed where it stands. -/
def routeOneDatagram (r : Router k) (dgram : IPv4Datagram) :
    Except String Unit × Router k × IPv4Datagram :=
  if dgram.header.ttl ≤ 1 then (.ok (), r, dgram)
  else
    match r.bestMatch dgram.header.dst with
    | none => (.ok (), r, dgram)
    | some best =>
        let dgram := hop dgram
        let out := r.interfaces best.interfaceNum
        let sent := out.iface.sendDatagram dgram (best.nextHop.getD dgram.header.dst)
        (sent.1, r.setInterface best.interfaceNum { out with iface := sent.2 }, dgram)

def setQueue (r : Router k) (i : Fin k) (queue : List IPv4Datagram) : Router k :=
  r.setInterface i { r.interfaces i with datagramsOut := queue }

/-- The loop over the queue of one interface.  Routing a datagram adds to no queue; where
    it raises, the datagram is still at the front. -/
def routeQueue (i : Fin k) : List IPv4Datagram → Router k → Except String Unit × Router k
  | [], r => (.ok (), r)
  | dgram :: rest, r =>
      match r.routeOneDatagram dgram with
      | (.error text, r, dgram) => (.error text, r.setQueue i (dgram :: rest))
      | (.ok (), r, _) => routeQueue i rest (r.setQueue i rest)

/-- The loop over the interfaces. -/
def routeInterfaces : List (Fin k) → Router k → Except String Unit × Router k
  | [], r => (.ok (), r)
  | i :: rest, r =>
      match routeQueue i (r.interfaces i).datagramsOut r with
      | (.error text, r) => (.error text, r)
      | (.ok (), r) => routeInterfaces rest r

def route (r : Router k) : Except String Unit × Router k :=
  routeInterfaces (List.finRange k) r

/-! ## What the routes say -/

/-- The first bits of the prefix are those of the destination. -/
def Agrees (dst : BitVec 32) (route : Route k) : Prop :=
  ∀ i < route.prefixLength.toNat, dst.getMsbD i = route.routePrefix.getMsbD i

instance (dst : BitVec 32) (route : Route k) : Decidable (Agrees dst route) :=
  inferInstanceAs (Decidable (∀ i < _, _))

/-- The mask has as many ones as the prefix is long, and then zeros. -/
theorem getMsbD_mask (route : Route k) (i : Nat) :
    route.mask.getMsbD i = decide (i < route.prefixLength.toNat) := by
  have hle := route.inRange
  rw [Route.mask]
  split_ifs with hlen
  · have hpos : route.prefixLength.toNat ≠ 0 := fun h0 => hlen (BitVec.eq_of_toNat_eq h0)
    rw [show (0xFFFFFFFF : BitVec 32) = BitVec.allOnes 32 from rfl, BitVec.getMsbD_shiftLeft,
      BitVec.getMsbD_allOnes]
    congr 1
    exact propext ⟨fun h => by omega, fun h => by omega⟩
  · rw [not_not.mp hlen]
    simp

theorem applies_iff (dst : BitVec 32) (route : Route k) :
    route.applies dst = true ↔ Agrees dst route := by
  rw [Route.applies, beq_iff_eq]
  constructor
  · intro heq i hi
    have hbit := congrArg (BitVec.getMsbD · i) heq
    simpa [getMsbD_mask, hi] using hbit
  · intro hagrees
    refine BitVec.eq_of_getMsbD_eq fun i _ => ?_
    rw [BitVec.getMsbD_and, BitVec.getMsbD_and, getMsbD_mask]
    by_cases hi : i < route.prefixLength.toNat
    · rw [hagrees i hi]
    · simp [hi]

/-- **THE SELECTED ROUTE**: of the matching routes of greatest length, the one added
    first. -/
def selected (r : Router k) (dst : BitVec 32) : Option (Route k) :=
  r.routes.find? fun route =>
    decide (Agrees dst route ∧ ∀ other ∈ r.routes, Agrees dst other →
      other.prefixLength.toNat ≤ route.prefixLength.toNat)

theorem bestMatch_eq_selected (r : Router k) (dst : BitVec 32) :
    r.bestMatch dst = r.selected dst := by
  rw [bestMatch, foldl_keepBest, selected]
  congr 1
  funext route
  rw [Bool.eq_iff_iff, Bool.and_eq_true, applies_iff, List.all_eq_true, decide_eq_true_iff]
  refine and_congr_right fun _ => forall₂_congr fun other _ => ?_
  rw [Bool.or_eq_true, Bool.not_eq_true', ← Bool.not_eq_true, applies_iff, decide_eq_true_iff,
    imp_iff_not_or]

/-- **WHERE A DATAGRAM GOES**, if anywhere: the interface, and what it is handed. -/
def forward (r : Router k) (dgram : IPv4Datagram) : Option (Fin k × IPv4Datagram × BitVec 32) :=
  if dgram.header.ttl ≤ 1 then none
  else (r.selected dgram.header.dst).map fun route =>
    (route.interfaceNum, hop dgram, route.nextHop.getD dgram.header.dst)

/-- What `send_datagram` makes of an interface. -/
def sendTo (n : NetworkInterface) (call : IPv4Datagram × BitVec 32) : NetworkInterface :=
  (n.sendDatagram call.1 call.2).2

/-! ## What routing does -/

/-- The datagram does not raise: it goes nowhere, or waits, or can be written. -/
def Deliverable (r : Router k) (dgram : IPv4Datagram) : Prop :=
  ∀ call ∈ r.forward dgram,
    (r.interfaces call.1).iface.arpCache.lookup call.2.2 = none ∨ Writable call.2.1

instance (r : Router k) (dgram : IPv4Datagram) : Decidable (r.Deliverable dgram) :=
  inferInstanceAs (Decidable (∀ call ∈ r.forward dgram, _))

/-- From `r` to `r'` the interfaces were handed these datagrams, in this order. -/
structure Handed (r r' : Router k) (calls : List (Fin k × IPv4Datagram × BitVec 32)) :
    Prop where
  routes : r'.routes = r.routes
  sends : ∀ j, (r'.interfaces j).iface = (of j calls).foldl sendTo (r.interfaces j).iface

namespace Handed

variable {r r' r'' : Router k} {calls calls' : List (Fin k × IPv4Datagram × BitVec 32)}

theorem refl (r : Router k) : Handed r r [] := ⟨rfl, fun _ => rfl⟩

theorem trans (h : Handed r r' calls) (h' : Handed r' r'' calls') :
    Handed r r'' (calls ++ calls') := by
  refine ⟨h'.routes.trans h.routes, fun j => ?_⟩
  rw [h'.sends, h.sends, of_append, List.foldl_append]

theorem foldl_arpCache (n : NetworkInterface) (calls : List (IPv4Datagram × BitVec 32)) :
    (calls.foldl sendTo n).arpCache = n.arpCache := by
  induction calls generalizing n with
  | nil => rfl
  | cons call calls ih =>
      rw [List.foldl_cons, ih]
      exact sendDatagram_arpCache n call.1 call.2

theorem forward_eq (h : Handed r r' calls) : r'.forward = r.forward := by
  funext dgram
  rw [forward, forward, selected, selected, h.routes]

/-- No mapping changes, so nothing changes about what raises. -/
theorem deliverable_iff (h : Handed r r' calls) (dgram : IPv4Datagram) :
    r'.Deliverable dgram ↔ r.Deliverable dgram := by
  rw [Deliverable, Deliverable, h.forward_eq]
  refine forall₂_congr fun call _ => ?_
  rw [h.sends, foldl_arpCache]

end Handed

section Loops

variable {r : Router k} {i : Fin k}

/-- One interface changes, and of its two parts only one. -/
theorem setInterface_iface (r : Router k) (i j : Fin k) (a : AsyncNetworkInterface) :
    ((r.setInterface i a).interfaces j).iface
      = if j = i then a.iface else (r.interfaces j).iface := by
  by_cases hj : j = i
  · subst hj
    simp [setInterface]
  · simp [setInterface, hj]

theorem setInterface_datagramsOut (r : Router k) (i j : Fin k) (a : AsyncNetworkInterface) :
    ((r.setInterface i a).interfaces j).datagramsOut
      = if j = i then a.datagramsOut else (r.interfaces j).datagramsOut := by
  by_cases hj : j = i
  · subst hj
    simp [setInterface]
  · simp [setInterface, hj]

/-- A queue is cut, and nothing else happens. -/
theorem handed_setQueue (r : Router k) (i : Fin k) (queue : List IPv4Datagram) :
    Handed r (r.setQueue i queue) [] := by
  refine ⟨rfl, fun j => ?_⟩
  rw [setQueue, setInterface_iface]
  split_ifs with hj
  · subst hj
    rfl
  · rfl

/-- **ONE DATAGRAM** is handed on as the routes say. -/
theorem routeOneDatagram_handed (r : Router k) (dgram : IPv4Datagram) :
    Handed r (r.routeOneDatagram dgram).2.1 (r.forward dgram).toList := by
  rw [routeOneDatagram, forward]
  split_ifs with httl
  · exact Handed.refl r
  rw [bestMatch_eq_selected]
  cases r.selected dgram.header.dst with
  | none => exact Handed.refl r
  | some best =>
      refine ⟨rfl, fun j => ?_⟩
      dsimp only
      rw [setInterface_iface, Option.map_some, Option.toList_some]
      split_ifs with hj
      · subst hj
        rw [of_cons_self]
        rfl
      · rw [of_cons_ne (Ne.symm hj)]
        rfl

/-- No queue changes; the loop takes the datagram off. -/
theorem routeOneDatagram_queues (r : Router k) (dgram : IPv4Datagram) (j : Fin k) :
    ((r.routeOneDatagram dgram).2.1.interfaces j).datagramsOut
      = (r.interfaces j).datagramsOut := by
  rw [routeOneDatagram]
  split_ifs with httl
  · rfl
  cases r.bestMatch dgram.header.dst with
  | none => rfl
  | some best =>
      dsimp only
      rw [setInterface_datagramsOut]
      split_ifs with hj
      · rw [hj]
      · rfl

theorem routeOneDatagram_ok_iff (r : Router k) (dgram : IPv4Datagram) :
    (r.routeOneDatagram dgram).1 = .ok () ↔ r.Deliverable dgram := by
  rw [routeOneDatagram, Deliverable, forward]
  split_ifs with httl
  · simp
  rw [bestMatch_eq_selected]
  cases r.selected dgram.header.dst with
  | none => simp
  | some best =>
      dsimp only
      rw [sendDatagram_ok_iff, ← writable_iff, Option.map_some]
      simp [hop]

/-- **ONE ROUND**: a datagram that does not raise is handed on and taken off. -/
theorem routeQueue_cons {dgram : IPv4Datagram} (h : r.Deliverable dgram)
    (rest : List IPv4Datagram) :
    ∃ r', routeQueue i (dgram :: rest) r = routeQueue i rest r'
      ∧ Handed r r' (r.forward dgram).toList
      ∧ ∀ j, (r'.interfaces j).datagramsOut
        = if j = i then rest else (r.interfaces j).datagramsOut := by
  have hok := (routeOneDatagram_ok_iff r dgram).mpr h
  have hhanded := (routeOneDatagram_handed r dgram).trans
    (handed_setQueue (r.routeOneDatagram dgram).2.1 i rest)
  have hqueues := routeOneDatagram_queues r dgram
  rw [List.append_nil] at hhanded
  rw [routeQueue]
  generalize r.routeOneDatagram dgram = out at hok hhanded hqueues
  obtain ⟨result, r', dgram'⟩ := out
  dsimp only at hok hhanded hqueues
  subst hok
  refine ⟨r'.setQueue i rest, rfl, hhanded, fun j => ?_⟩
  rw [setQueue, setInterface_datagramsOut, hqueues]

theorem routeQueue_cons_raises {dgram : IPv4Datagram} (h : ¬ r.Deliverable dgram)
    (rest : List IPv4Datagram) :
    ∃ text r', routeQueue i (dgram :: rest) r = (.error text, r') := by
  have hraises := (routeOneDatagram_ok_iff r dgram).not.mpr h
  rw [routeQueue]
  generalize r.routeOneDatagram dgram = out at hraises
  obtain ⟨result, r', dgram'⟩ := out
  cases result with
  | error text => exact ⟨text, _, rfl⟩
  | ok => exact absurd rfl hraises

/-- **THE LOOP OVER A QUEUE** where nothing raises: the datagrams are handed on in order,
    and the queue is empty. -/
theorem routeQueue_spec :
    ∀ (queue : List IPv4Datagram) (r : Router k), (r.interfaces i).datagramsOut = queue →
      (∀ dgram ∈ queue, r.Deliverable dgram) →
      ∃ r', routeQueue i queue r = (.ok (), r') ∧ Handed r r' (queue.filterMap r.forward)
        ∧ ∀ j, (r'.interfaces j).datagramsOut
          = if j = i then [] else (r.interfaces j).datagramsOut := by
  intro queue
  induction queue with
  | nil =>
      intro r hqueue _
      refine ⟨r, rfl, Handed.refl r, fun j => ?_⟩
      split_ifs with hj
      · rw [hj, hqueue]
      · rfl
  | cons dgram rest ih =>
      intro r hqueue hok
      obtain ⟨hone, hrest⟩ := List.forall_mem_cons.mp hok
      obtain ⟨r', hround, hhanded, hcut⟩ := routeQueue_cons (i := i) hone rest
      obtain ⟨t, hloop, hsent, hempty⟩ := ih r' ((hcut i).trans (if_pos rfl))
        fun d hd => (hhanded.deliverable_iff d).mpr (hrest d hd)
      rw [hhanded.forward_eq] at hsent
      refine ⟨t, hround.trans hloop, ?_, fun j => ?_⟩
      · rw [List.filterMap_eq_flatMap_toList] at hsent ⊢
        exact hhanded.trans hsent
      · rw [hempty, hcut]
        split_ifs <;> rfl

/-- It stops with an exception at a datagram that cannot be handed on. -/
theorem routeQueue_raises :
    ∀ (queue : List IPv4Datagram) (r : Router k),
      (∃ dgram ∈ queue, ¬ r.Deliverable dgram) →
      ∃ text r', routeQueue i queue r = (.error text, r') := by
  intro queue
  induction queue with
  | nil =>
      rintro r ⟨dgram, hdgram, -⟩
      exact absurd hdgram List.not_mem_nil
  | cons dgram rest ih =>
      rintro r ⟨bad, hbad, hraises⟩
      by_cases hone : r.Deliverable dgram
      · obtain ⟨r', hround, hhanded, -⟩ := routeQueue_cons (i := i) hone rest
        have hlater : bad ∈ rest := by
          rcases List.mem_cons.mp hbad with rfl | hlater
          · exact absurd hone hraises
          · exact hlater
        rw [hround]
        exact ih r' ⟨bad, hlater, fun h => hraises ((hhanded.deliverable_iff bad).mp h)⟩
      · exact routeQueue_cons_raises hone rest

/-- **THE LOOP OVER THE INTERFACES** where nothing raises. -/
theorem routeInterfaces_spec :
    ∀ (is : List (Fin k)) (r : Router k), is.Nodup →
      (∀ i ∈ is, ∀ dgram ∈ (r.interfaces i).datagramsOut, r.Deliverable dgram) →
      ∃ r', routeInterfaces is r = (.ok (), r')
        ∧ Handed r r' ((is.flatMap fun i => (r.interfaces i).datagramsOut).filterMap r.forward)
        ∧ ∀ j, (r'.interfaces j).datagramsOut
          = if j ∈ is then [] else (r.interfaces j).datagramsOut := by
  intro is
  induction is with
  | nil =>
      intro r _ _
      exact ⟨r, rfl, Handed.refl r, fun j => (if_neg List.not_mem_nil).symm⟩
  | cons i is ih =>
      intro r hnodup hok
      obtain ⟨hi, hnodup⟩ := List.nodup_cons.mp hnodup
      obtain ⟨r', hone, hhanded, hempty⟩ :=
        routeQueue_spec _ r rfl (hok i (List.mem_cons_self ..))
      -- the other queues are as they were
      have hother : ∀ j ∈ is, (r'.interfaces j).datagramsOut = (r.interfaces j).datagramsOut := by
        intro j hj
        have hji : j ≠ i := by
          rintro rfl
          exact hi hj
        rw [hempty, if_neg hji]
      have hrest : ∀ j ∈ is, ∀ dgram ∈ (r'.interfaces j).datagramsOut,
          r'.Deliverable dgram := by
        intro j hj dgram hdgram
        rw [hother j hj] at hdgram
        exact (hhanded.deliverable_iff dgram).mpr (hok j (List.mem_cons_of_mem _ hj) dgram hdgram)
      obtain ⟨t, hroute, hsent, hgone⟩ := ih r' hnodup hrest
      rw [hhanded.forward_eq, List.flatMap_congr hother] at hsent
      refine ⟨t, ?_, ?_, fun j => ?_⟩
      · rw [routeInterfaces, hone]
        exact hroute
      · rw [List.flatMap_cons, List.filterMap_append]
        exact hhanded.trans hsent
      · rw [hgone, hempty]
        by_cases hji : j = i
        · subst hji
          simp
        · simp [hji]

theorem routeInterfaces_raises :
    ∀ (is : List (Fin k)) (r : Router k),
      (∃ i ∈ is, ∃ dgram ∈ (r.interfaces i).datagramsOut, ¬ r.Deliverable dgram) →
      ∃ text r', routeInterfaces is r = (.error text, r') := by
  intro is
  induction is with
  | nil =>
      rintro r ⟨i, hi, -⟩
      exact absurd hi List.not_mem_nil
  | cons i is ih =>
      rintro r ⟨j, hj, bad, hbad, hraises⟩
      rw [routeInterfaces]
      by_cases hall : ∀ dgram ∈ (r.interfaces i).datagramsOut, r.Deliverable dgram
      · -- the queue of this interface is not the one
        obtain ⟨r', hone, hhanded, hempty⟩ := routeQueue_spec _ r rfl hall
        have hji : j ≠ i := by
          rintro rfl
          exact hraises (hall bad hbad)
        rw [hone]
        refine ih r' ⟨j, (List.mem_cons.mp hj).resolve_left hji, bad, ?_, ?_⟩
        · rw [hempty, if_neg hji]
          exact hbad
        · rw [hhanded.deliverable_iff]
          exact hraises
      · obtain ⟨dgram, hdgram⟩ := not_forall.mp hall
        obtain ⟨text, r', hone⟩ := routeQueue_raises (i := i) (r.interfaces i).datagramsOut r
          ⟨dgram, Classical.not_imp.mp hdgram⟩
        rw [hone]
        exact ⟨text, r', rfl⟩

/-- The datagrams in the order in which they are routed. -/
def queued (r : Router k) : List IPv4Datagram :=
  (List.finRange k).flatMap fun i => (r.interfaces i).datagramsOut

/-- **ROUTING** where nothing raises. -/
theorem route_spec (h : ∀ i, ∀ dgram ∈ (r.interfaces i).datagramsOut, r.Deliverable dgram) :
    ∃ r', r.route = (.ok (), r') ∧ Handed r r' (r.queued.filterMap r.forward)
      ∧ ∀ j, (r'.interfaces j).datagramsOut = [] := by
  obtain ⟨r', hroute, hhanded, hempty⟩ :=
    routeInterfaces_spec (List.finRange k) r (List.nodup_finRange k) fun i _ => h i
  refine ⟨r', hroute, hhanded, fun j => ?_⟩
  rw [hempty, if_pos (List.mem_finRange j)]

theorem route_ok_iff (r : Router k) :
    (∃ r', r.route = (.ok (), r'))
      ↔ ∀ i, ∀ dgram ∈ (r.interfaces i).datagramsOut, r.Deliverable dgram := by
  constructor
  · rintro ⟨r', hroute⟩
    by_contra hno
    obtain ⟨i, hi⟩ := not_forall.mp hno
    obtain ⟨dgram, hdgram⟩ := not_forall.mp hi
    obtain ⟨hin, hraises⟩ := Classical.not_imp.mp hdgram
    obtain ⟨text, r'', herror⟩ :=
      routeInterfaces_raises (List.finRange k) r ⟨i, List.mem_finRange i, dgram, hin, hraises⟩
    have hroute : routeInterfaces (List.finRange k) r = _ := hroute
    rw [herror] at hroute
    exact absurd hroute (by simp)
  · intro h
    obtain ⟨r', hroute, -⟩ := route_spec h
    exact ⟨r', hroute⟩

end Loops

/-- The time to live has no part in what can be written. -/
theorem writable_forward {r : Router k} {dgram : IPv4Datagram} (h : Writable dgram) :
    ∀ call ∈ r.forward dgram, Writable call.2.1 := by
  intro call hcall
  rw [forward] at hcall
  split_ifs at hcall
  · exact absurd hcall (Option.not_mem_none call)
  · obtain ⟨route, -, rfl⟩ := Option.mem_map.mp hcall
    exact h

theorem Deliverable.of_writable {r : Router k} {dgram : IPv4Datagram} (h : Writable dgram) :
    r.Deliverable dgram :=
  fun call hcall => Or.inr (writable_forward h call hcall)

/-- **LONGEST PREFIX FIRST**: with datagrams that can be written, routing ends with every
    queue empty, and each interface was handed, in order, the datagrams that live on and
    whose selected route names it. -/
theorem route_forwards (r : Router k)
    (h : ∀ i, ∀ dgram ∈ (r.interfaces i).datagramsOut,
      ∃ payload, dgram.serialize = .ok payload) :
    ∃ r', r.route = (.ok (), r') ∧ Handed r r' (r.queued.filterMap r.forward)
      ∧ ∀ j, (r'.interfaces j).datagramsOut = [] :=
  route_spec fun i dgram hdgram => Deliverable.of_writable (writable_iff.mpr (h i dgram hdgram))

/-- Two interfaces: the network 10 is on the first, everything else behind the next hop 2
    on the second.  The third route is another way to the same network. -/
def fork : Router 2 :=
  let r : Router 2 := { interfaces := fun _ =>
    { iface := { ethernetAddress := .replicate 6 1, ipAddress := 1 } } }
  ((r.addRoute 0 0 (some 2) 1 (by decide)).addRoute 0x0a000000 8 none 0 (by decide)).addRoute
    0x0a0000ff 8 (some 2) 1 (by decide)

/-- A datagram without payload. -/
def datagramTo (dst : BitVec 32) (ttl : BitVec 8) : IPv4Datagram :=
  { header := { len := 20, ttl := ttl, dst := dst } }

/-- Of three datagrams the first goes to its own network, the second to the next hop, and
    the third has no life left. -/
theorem route_forwards_fork :
    ∃ r', ((fork.setQueue 0 [datagramTo 0x0a000005 64, datagramTo 7 2]).setQueue 1
        [datagramTo 7 1]).route = (.ok (), r')
      ∧ (r'.interfaces 0).iface = sendTo (fork.interfaces 0).iface
        (datagramTo 0x0a000005 63, 0x0a000005)
      ∧ (r'.interfaces 1).iface = sendTo (fork.interfaces 1).iface (datagramTo 7 1, 2)
      ∧ ∀ j, (r'.interfaces j).datagramsOut = [] := by
  have hwritable : ∀ i, ∀ dgram ∈ (((fork.setQueue 0 [datagramTo 0x0a000005 64,
      datagramTo 7 2]).setQueue 1 [datagramTo 7 1]).interfaces i).datagramsOut,
      Writable dgram := by decide
  obtain ⟨r', hroute, hhanded, hempty⟩ := route_forwards _
    fun i dgram hdgram => writable_iff.mp (hwritable i dgram hdgram)
  exact ⟨r', hroute, hhanded.sends 0, hhanded.sends 1, hempty⟩

end Router

/-! ## A router that runs -/

/-- A call of the router or of one of its interfaces. -/
inductive RouterOp (k : Nat) where
  | recvFrame (i : Fin k) (frame : EthernetFrame)
  | route
  | tick (i : Fin k) (ms : Nat)
deriving DecidableEq

/-- The payload of a frame is in one piece. -/
def RouterOp.Single {k : Nat} : RouterOp k → Prop
  | .recvFrame _ frame => frame.payload.buffers.length ≤ 1
  | .route => True
  | .tick _ _ => True

instance {k : Nat} : ∀ op : RouterOp k, Decidable op.Single
  | .recvFrame _ frame => inferInstanceAs (Decidable (frame.payload.buffers.length ≤ 1))
  | .route => isTrue trivial
  | .tick _ _ => isTrue trivial

/-- A datagram that a frame carries has version 4 and a header that is not too short. -/
def RouterOp.Clean {k : Nat} : RouterOp k → Prop
  | .recvFrame _ frame => ∀ dgram ∈ carriedDatagram frame,
      dgram.header.ver = 4 ∧ 5 ≤ dgram.header.hlen.toNat
  | .route => True
  | .tick _ _ => True

instance {k : Nat} : ∀ op : RouterOp k, Decidable op.Clean
  | .recvFrame _ frame => inferInstanceAs (Decidable (∀ dgram ∈ carriedDatagram frame, _))
  | .route => isTrue trivial
  | .tick _ _ => isTrue trivial

namespace Router

variable {k : Nat} {r t : Router k} {op : RouterOp k}

/-- One step.  It is not enabled where the code raises. -/
def step (r : Router k) : RouterOp k → Option (Router k)
  | .recvFrame i frame =>
      match (r.interfaces i).recvFrame frame with
      | (.error _, _) => none
      | (.ok (), a) => some (r.setInterface i a)
  | .route =>
      match r.route with
      | (.error _, _) => none
      | (.ok (), r) => some r
  | .tick i ms =>
      some (r.setInterface i { r.interfaces i with iface := (r.interfaces i).iface.tick ms })

/-- **WHAT DOES NOT RAISE**: a message, if everything that waits for its sender can be
    written; routing, if everything that goes to a known next hop can. -/
def Safe (r : Router k) : RouterOp k → Prop
  | .recvFrame i frame =>
      ∀ m ∈ (r.interfaces i).iface.arpMessage frame,
        ∀ dgram ∈ of m.senderIpAddress (r.interfaces i).iface.pendingDatagrams, Writable dgram
  | .route => ∀ i, ∀ dgram ∈ (r.interfaces i).datagramsOut, r.Deliverable dgram
  | .tick _ _ => True

/-- **A CALL GETS THROUGH** iff it is safe. -/
theorem step_iff_safe (r : Router k) (op : RouterOp k) (hop : op.Single) :
    (∃ t, r.step op = some t) ↔ r.Safe op := by
  cases op with
  | recvFrame i frame =>
      rw [step, Safe]
      cases hmessage : (r.interfaces i).iface.arpMessage frame with
      | none =>
          rw [AsyncNetworkInterface.recvFrame_quiet hop hmessage]
          exact iff_of_true ⟨_, rfl⟩ fun m hm => absurd hm (Option.not_mem_none m)
      | some m =>
          simp only [Option.mem_some_iff, forall_eq']
          by_cases hok : ∀ dgram ∈ of m.senderIpAddress (r.interfaces i).iface.pendingDatagrams,
              Writable dgram
          · obtain ⟨n, heq, -⟩ := AsyncNetworkInterface.recvFrame_heard hmessage hok
            rw [heq]
            exact iff_of_true ⟨_, rfl⟩ hok
          · obtain ⟨text, a', heq⟩ := AsyncNetworkInterface.recvFrame_raises hmessage hok
            rw [heq]
            exact iff_of_false (by simp) hok
  | route =>
      rw [step, Safe, ← route_ok_iff]
      generalize r.route = out
      obtain ⟨result, r'⟩ := out
      cases result with
      | error text => simp
      | ok => simp
  | tick i ms => exact iff_of_true ⟨_, rfl⟩ trivial

/-! ## Frames that can be forwarded -/

/-- Everything that is queued or waits can be written. -/
structure Forwarding (r : Router k) : Prop where
  queued : ∀ i, ∀ dgram ∈ (r.interfaces i).datagramsOut, Writable dgram
  waiting : ∀ i, ∀ p ∈ (r.interfaces i).iface.pendingDatagrams, Writable p.2

/-- Nothing was received yet. -/
def Fresh (r : Router k) : Prop :=
  ∀ i, (r.interfaces i).datagramsOut = [] ∧ (r.interfaces i).iface.pendingDatagrams = []

instance (r : Router k) : Decidable r.Fresh := inferInstanceAs (Decidable (∀ _, _ ∧ _))

theorem Fresh.forwarding (h : r.Fresh) : Forwarding r where
  queued := by
    intro i dgram hdgram
    rw [(h i).1] at hdgram
    exact absurd hdgram List.not_mem_nil
  waiting := by
    intro i p hp
    rw [(h i).2] at hp
    exact absurd hp List.not_mem_nil

/-- What was taken from the wire has the size that its header says. -/
theorem writable_of_carried {frame : EthernetFrame} {dgram : IPv4Datagram}
    (h : dgram ∈ carriedDatagram frame)
    (hfields : dgram.header.ver = 4 ∧ 5 ≤ dgram.header.hlen.toNat) : Writable dgram := by
  refine ⟨?_, hfields⟩
  rw [carriedDatagram] at h
  split_ifs at h
  · cases hbuffer : frame.payload.toBuffer with
    | error text => rw [hbuffer] at h; exact absurd h (Option.not_mem_none dgram)
    | ok buffer =>
        rw [hbuffer] at h
        dsimp only at h
        split at h
        · rename_i d hparse
          rw [Option.mem_some_iff] at h
          subst h
          exact IPv4Datagram.parse_size hparse
        · exact absurd h (Option.not_mem_none dgram)
  · exact absurd h (Option.not_mem_none dgram)

theorem broughtDatagram_mem {n : NetworkInterface} {frame : EthernetFrame}
    {dgram : IPv4Datagram} (h : dgram ∈ n.broughtDatagram frame) :
    dgram ∈ carriedDatagram frame := by
  rw [broughtDatagram] at h
  split_ifs at h
  · exact h
  · exact absurd h (Option.not_mem_none dgram)

/-- One interface changes, and keeps to what can be written. -/
theorem Forwarding.setInterface (h : Forwarding r) {i : Fin k} {a : AsyncNetworkInterface}
    (hqueued : ∀ dgram ∈ a.datagramsOut, Writable dgram)
    (hwaiting : ∀ p ∈ a.iface.pendingDatagrams, Writable p.2) :
    Forwarding (r.setInterface i a) := by
  constructor
  · intro j
    rw [setInterface_datagramsOut]
    split_ifs
    · exact hqueued
    · exact h.queued j
  · intro j
    rw [setInterface_iface]
    split_ifs
    · exact hwaiting
    · exact h.waiting j

/-- A datagram that is sent waits, if anything new does. -/
theorem sendTo_waiting {n : NetworkInterface} {call : IPv4Datagram × BitVec 32}
    (h : ∀ p ∈ n.pendingDatagrams, Writable p.2) (hcall : Writable call.1) :
    ∀ p ∈ (sendTo n call).pendingDatagrams, Writable p.2 := by
  have hmore : ∀ p ∈ n.pendingDatagrams ++ [(call.2, call.1)], Writable p.2 := by
    intro p hp
    rcases List.mem_append.mp hp with hp | hp
    · exact h p hp
    · rw [List.mem_singleton.mp hp]
      exact hcall
  obtain ⟨n', hsend, houtcome⟩ := sendDatagram_spec n call.2 (writable_iff.mp hcall)
  rw [sendTo, hsend]
  cases houtcome with
  | left => exact h
  | asked => exact hmore
  | waited => exact hmore

theorem foldl_sendTo_waiting (calls : List (IPv4Datagram × BitVec 32)) {n : NetworkInterface}
    (h : ∀ p ∈ n.pendingDatagrams, Writable p.2) (hcalls : ∀ call ∈ calls, Writable call.1) :
    ∀ p ∈ (calls.foldl sendTo n).pendingDatagrams, Writable p.2 := by
  induction calls generalizing n with
  | nil => exact h
  | cons call calls ih =>
      obtain ⟨hcall, hcalls⟩ := List.forall_mem_cons.mp hcalls
      exact ih (sendTo_waiting h hcall) hcalls

/-- Routing moves what is queued to where it waits. -/
theorem Forwarding.route (h : Forwarding r) : ∃ t, r.route = (.ok (), t) ∧ Forwarding t := by
  obtain ⟨t, hroute, hhanded, hempty⟩ :=
    route_spec fun i dgram hdgram => Deliverable.of_writable (h.queued i dgram hdgram)
  refine ⟨t, hroute, ?_, ?_⟩
  · intro j dgram hdgram
    rw [hempty j] at hdgram
    exact absurd hdgram List.not_mem_nil
  · intro j
    rw [hhanded.sends j]
    refine foldl_sendTo_waiting _ (h.waiting j) fun call hcall => ?_
    obtain ⟨dgram, hdgram, hforward⟩ := List.mem_filterMap.mp (mem_of_iff.mp hcall)
    obtain ⟨i, -, hqueue⟩ := List.mem_flatMap.mp hdgram
    exact writable_forward (h.queued i dgram hqueue) _ hforward

/-- **ONE STEP** with frames that can be forwarded gets through. -/
theorem step_forwarding (h : Forwarding r) (hop : op.Single ∧ op.Clean) :
    ∃ t, r.step op = some t ∧ Forwarding t := by
  obtain ⟨hsingle, hclean⟩ := hop
  cases op with
  | recvFrame i frame =>
      rw [step]
      cases hmessage : (r.interfaces i).iface.arpMessage frame with
      | none =>
          rw [AsyncNetworkInterface.recvFrame_quiet hsingle hmessage]
          refine ⟨_, rfl, h.setInterface ?_ (h.waiting i)⟩
          intro dgram hdgram
          rcases List.mem_append.mp hdgram with hold | hnew
          · exact h.queued i dgram hold
          · have hcarried := broughtDatagram_mem (Option.mem_toList.mp hnew)
            exact writable_of_carried hcarried (hclean dgram hcarried)
      | some m =>
          obtain ⟨n, heq, hpending⟩ := AsyncNetworkInterface.recvFrame_heard hmessage
            fun dgram hdgram => h.waiting i _ (mem_of_iff.mp hdgram)
          rw [heq]
          refine ⟨_, rfl, h.setInterface (h.queued i) fun p hp => ?_⟩
          rw [hpending] at hp
          exact h.waiting i p (List.mem_filter.mp hp).1
  | route =>
      obtain ⟨t, hroute, hforwarding⟩ := h.route
      exact ⟨t, by rw [step, hroute], hforwarding⟩
  | tick i ms => exact ⟨_, rfl, h.setInterface (h.queued i) (h.waiting i)⟩

/-- A `route()` that gets through leaves nothing queued. -/
theorem queues_of_route (h : r.step .route = some t) (i : Fin k) :
    (t.interfaces i).datagramsOut = [] := by
  obtain ⟨t', hroute, -, hempty⟩ := route_spec ((step_iff_safe r .route trivial).mp ⟨t, h⟩)
  rw [step, hroute] at h
  obtain rfl := Option.some.inj h
  exact hempty i

/-- **WHEN THE ROUTER RAISES**: a run gets through iff every call is safe, and it does
    from a fresh router if no datagram comes in with another version or a header that is
    too short; every `route()` that gets through empties the queues. -/
theorem router_raises_iff (r : Router k) (ops : List (RouterOp k))
    (hops : ∀ op ∈ ops, op.Single) :
    ((∃ t, run step r ops = some t) ↔ Along step Safe r ops)
      ∧ (r.Fresh → (∀ op ∈ ops, op.Clean) → ∃ t, run step r ops = some t)
      ∧ ∀ s t, run step r ops = some s → s.step .route = some t →
        ∀ i, (t.interfaces i).datagramsOut = [] := by
  refine ⟨run_total_iff_along step_iff_safe ops r hops, fun hfresh hclean => ?_, ?_⟩
  · obtain ⟨t, hrun, -⟩ := run_total (I := Forwarding) (G := fun op => op.Single ∧ op.Clean)
      (fun _ _ h hop => step_forwarding h hop) ops r hfresh.forwarding
      fun op hop => ⟨hops op hop, hclean op hop⟩
    exact ⟨t, hrun⟩
  · intro s t _ hstep
    exact queues_of_route hstep

/-- A frame for everyone with a datagram to the address 9, of the given version and with a
    header of five words. -/
def frameOfVersion (version : Byte) : EthernetFrame where
  header := { dst := ethernetBroadcast, type := EthernetHeader.typeIPv4 }
  payload := .ofString
    [version * 16 + 5, 0, 0, 20, 0, 0, 0, 0, 64, 6, 0, 0, 0, 0, 0, 1, 0, 0, 0, 9]

/-- A datagram of version 4 waits for its next hop, and leaves when that answers. -/
theorem router_raises_iff_version_four :
    ∃ t, run step fork [.recvFrame 0 (frameOfVersion 4), .route, .tick 1 20,
        .recvFrame 1 replyFromTwo] = some t
      ∧ ((t.interfaces 1).iface.framesOut.map fun frame => frame.header.type)
        = [EthernetHeader.typeARP, EthernetHeader.typeIPv4] := by
  obtain ⟨t, hrun⟩ := (router_raises_iff fork [.recvFrame 0 (frameOfVersion 4), .route,
    .tick 1 20, .recvFrame 1 replyFromTwo] (by decide)).2.1 (by decide) (by decide)
  obtain ⟨t', hrun', hframes⟩ : ∃ t', run step fork [.recvFrame 0 (frameOfVersion 4), .route,
      .tick 1 20, .recvFrame 1 replyFromTwo] = some t'
    ∧ ((t'.interfaces 1).iface.framesOut.map fun frame => frame.header.type)
      = [EthernetHeader.typeARP, EthernetHeader.typeIPv4] := run_reaches (by decide)
  obtain rfl := Option.some.inj (hrun.symm.trans hrun')
  exact ⟨t, hrun, hframes⟩

/-- **A HOSTILE FRAME**: a datagram of version 6 is taken and waits for its next hop; the
    answer of that raises. -/
theorem version_six_raises :
    ¬ ∀ (k : Nat) (r : Router k) (ops : List (RouterOp k)), r.Fresh →
      (∀ op ∈ ops, op.Single) → ∃ t, run step r ops = some t := by
  intro hall
  obtain ⟨t, hrun⟩ := hall 2 fork [.recvFrame 0 (frameOfVersion 6), .route,
    .recvFrame 1 replyFromTwo] (by decide) (by decide)
  have hraises : (run step fork [.recvFrame 0 (frameOfVersion 6), .route,
    .recvFrame 1 replyFromTwo]).isSome = false := by decide
  rw [hrun] at hraises
  exact absurd hraises (by simp)

end Router

end SpongeRouter
