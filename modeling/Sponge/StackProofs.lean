import Sponge.SimulationProofs

/-! # Two sockets, from owner to owner

    Two sockets run side by side, each on its own kernel, and the rounds of their threads
    come in any order.  The network between their devices loses, duplicates, delays and
    reorders datagrams and may put other headers on them; whatever else arrives at a device
    cannot be read as a segment.

    Each socket is an endpoint, and the segments that reach it are those that its peer has
    sent, up to what the adapters write into them.  So the two are the system of two
    endpoints (`stack_refines`), and what holds there holds here: the bytes that an owner
    gets are a prefix of those that the other owner wrote (`full_stack_conveys`). -/

namespace SpongeStack

open SpongeByteStream SpongeSegment SpongeReceiver SpongeEthernet SpongeConnection SpongeNetwork SpongeSocket
open SpongeSimulation SpongeStreamEnd SpongeDescriptor SpongeEventLoop SpongeAdapter SpongeChannel
open RaiseRule RunRule

/-! ## A segment and its likes -/

/-- A connection looks at neither the ports nor the checksum. -/
theorem segmentReceived_alike {seg seg' : TCPSegment} (h : Alike seg seg') (c : TCPConnection) :
    c.segmentReceived seg' = c.segmentReceived seg := by
  obtain ⟨sport, dport, cksum, rfl⟩ := h
  rfl

/-- An endpoint to which only segments like those of `p` are delivered takes steps with the
    peer `p`. -/
theorem run_of_dealt {R : TCPSegment → Prop} {p z z' : Endpoint} (h : Dealt R z z')
    (hcovers : ∀ seg', R seg' → ∃ seg ∈ p.sent, Alike seg seg') :
    ∃ ops, run (Endpoint.act p) z ops = some z' := by
  induction h with
  | refl => exact ⟨[], rfl⟩
  | @act q y x op before offered last ih =>
      obtain ⟨ops, hops⟩ := ih
      -- only a delivery depends on the peer
      have hsame : ∃ op', Endpoint.act p y op' = some x := by
        cases op with
        | connect => exact ⟨.connect, last⟩
        | write data => exact ⟨.write data, last⟩
        | endInputStream => exact ⟨.endInputStream, last⟩
        | tick ms => exact ⟨.tick ms, last⟩
        | read len => exact ⟨.read len, last⟩
        | transmit => exact ⟨.transmit, last⟩
        | deliver i =>
            obtain ⟨seg', hseg', hreceived⟩ := Option.bind_eq_some_iff.mp last
            obtain ⟨seg, hseg, halike⟩ := hcovers seg' (offered seg' (List.mem_of_getElem? hseg'))
            obtain ⟨j, hj⟩ := List.mem_iff_getElem?.mp hseg
            refine ⟨.deliver j, ?_⟩
            rw [Endpoint.act, hj]
            show (y.conn.segmentReceived seg).map y.become = some x
            rw [← segmentReceived_alike halike]
            exact hreceived
      obtain ⟨op', hop'⟩ := hsame
      refine ⟨ops ++ [op'], ?_⟩
      rw [run_append, hops]
      show (Endpoint.act p y op').bind _ = some x
      rw [hop']
      rfl

/-! ## The two sockets -/

/-- The two sockets, with the rules of their event loops. -/
structure Stack (κ A κ' B : Type) where
  a : Running (κ × List (Call Fd)) A
  b : Running (κ' × List (Call Fd)) B

section Stack

variable {κ A κ' B : Type}

/-- One round of one of the threads. -/
def stackStep [Popped] (adA : Adapter (κ × List (Call Fd)) Fd A) (adB : Adapter (κ' × List (Call Fd)) Fd B)
    (x : Stack κ A κ' B) : Side × Moment → Option (Stack κ A κ' B)
  | (.a, m) => (go adA x.a m).map fun a => { x with a := a }
  | (.b, m) => (go adB x.b m).map fun b => { x with b := b }

/-- What can be read from something that arrived on one device can be read from something
    that was written to the other. -/
def Delivered (Reads : List Byte → TCPSegment → Prop) (here there : List (Call Fd)) : Prop :=
  ∀ bytes, .read .device bytes ∈ here → ∀ seg, Reads bytes seg →
    ∃ bytes', .write .device bytes' ∈ there ∧ Reads bytes' seg

/-- **THE NETWORK** forges nothing, so far. -/
def Honest (Reads : List Byte → TCPSegment → Prop) (x : Stack κ A κ' B) : Prop :=
  Delivered Reads x.a.2.calls x.b.2.calls ∧ Delivered Reads x.b.2.calls x.a.2.calls

variable {adA : Adapter (κ × List (Call Fd)) Fd A} {adB : Adapter (κ' × List (Call Fd)) Fd B}
  {K : Kernel κ Fd} {K' : Kernel κ' Fd} {Reads : List Byte → TCPSegment → Prop}
  {HoldsA : List TCPSegment → A → Prop} {HoldsB : List TCPSegment → B → Prop}

/-- What the one reads the other has sent. -/
theorem covers_of_delivered {here : List (Call Fd)}
    {s : TCPSpongeSocket (κ' × List (Call Fd)) B} {p : Endpoint}
    (h : Delivered Reads here s.calls) (hp : Models Reads HoldsB s p) :
    ∀ seg', ReadFrom Reads here seg' → ∃ seg ∈ p.sent, Alike seg seg' := by
  rintro seg' ⟨bytes, hread, hreads⟩
  obtain ⟨bytes', hwrote, hreads'⟩ := h bytes hread seg' hreads
  exact hp.written bytes' hwrote seg' hreads'

/-- The sockets and the system of their endpoints. -/
structure Refines (K : Kernel κ Fd) (K' : Kernel κ' Fd)
    (adA : Adapter (κ × List (Call Fd)) Fd A) (adB : Adapter (κ' × List (Call Fd)) Fd B)
    (Reads : List Byte → TCPSegment → Prop) (HoldsA : List TCPSegment → A → Prop)
    (HoldsB : List TCPSegment → B → Prop) (init : Sys) (x : Stack κ A κ' B) (s : Sys) : Prop where
  rulesA : x.a.1.Sublist (TCPSpongeSocket.rules K.recording adA)
  rulesB : x.b.1.Sublist (TCPSpongeSocket.rules K'.recording adB)
  modelsA : Models Reads HoldsA x.a.2 s.a
  modelsB : Models Reads HoldsB x.b.2 s.b
  reached : ∃ ops, run sysStep init ops = some s

theorem reached_trans {init s s' : Sys} {ops : List (Side × SpongeNetwork.Op)}
    (h : ∃ ops, run sysStep init ops = some s) (hmore : run sysStep s ops = some s') :
    ∃ ops, run sysStep init ops = some s' := by
  obtain ⟨before, hbefore⟩ := h
  refine ⟨before ++ ops, ?_⟩
  rw [run_append, hbefore]
  exact hmore

/-- **ONE ROUND** of one thread is a run of the system. -/
theorem Refines.step (hlawA : Lawful adA .device Reads HoldsA)
    (hlawB : Lawful adB .device Reads HoldsB) {init s : Sys} {x y : Stack κ A κ' B}
    {e : Side × Moment} (h : Refines K K' adA adB Reads HoldsA HoldsB init x s)
    (hstep : stackStep adA adB x e = some y) (hhonest : Honest Reads y) :
    ∃ s', Refines K K' adA adB Reads HoldsA HoldsB init y s' := by
  obtain ⟨side, m⟩ := e
  cases side with
  | a =>
      obtain ⟨a, hgo, rfl⟩ := Option.map_eq_some_iff.mp hstep
      obtain ⟨goOn, hround⟩ := go_eq_some hgo
      obtain ⟨hrules, z, hfollows⟩ := h.modelsA.tcpRound hlawA h.rulesA hround
      obtain ⟨ops, hops⟩ := run_of_dealt hfollows.dealt (covers_of_delivered hhonest.1 h.modelsB)
      exact ⟨{ s with a := z }, hrules, h.rulesB, hfollows.models, h.modelsB,
        reached_trans h.reached (run_side .a hops)⟩
  | b =>
      obtain ⟨b, hgo, rfl⟩ := Option.map_eq_some_iff.mp hstep
      obtain ⟨goOn, hround⟩ := go_eq_some hgo
      obtain ⟨hrules, z, hfollows⟩ := h.modelsB.tcpRound hlawB h.rulesB hround
      obtain ⟨ops, hops⟩ := run_of_dealt hfollows.dealt (covers_of_delivered hhonest.2 h.modelsA)
      exact ⟨{ s with b := z }, h.rulesA, hrules, h.modelsA, hfollows.models,
        reached_trans h.reached (run_side .b hops)⟩

/-- What two sockets start with. -/
structure Setup [Popped] (K : Kernel κ Fd) (K' : Kernel κ' Fd)
    (adA : Adapter (κ × List (Call Fd)) Fd A) (adB : Adapter (κ' × List (Call Fd)) Fd B)
    (Reads : List Byte → TCPSegment → Prop) (HoldsA : List TCPSegment → A → Prop)
    (HoldsB : List TCPSegment → B → Prop) (cfgA cfgB : TCPConfig) (randomA randomB : BitVec 32)
    (x : Stack κ A κ' B) : Prop where
  lawA : Lawful adA .device Reads HoldsA
  lawB : Lawful adB .device Reads HoldsB
  begunA : ∃ w a, Fresh Reads HoldsA w a ∧ Begun K adA w a cfgA randomA x.a
  begunB : ∃ w b, Fresh Reads HoldsB w b ∧ Begun K' adB w b cfgB randomB x.b

section Runs

variable {cfgA cfgB : TCPConfig} {randomA randomB : BitVec 32} {x y : Stack κ A κ' B}
  {es : List (Side × Moment)}

theorem Setup.start (h : Setup K K' adA adB Reads HoldsA HoldsB cfgA cfgB randomA randomB x) :
    ∃ s, Refines K K' adA adB Reads HoldsA HoldsB (.init cfgA cfgB randomA randomB) x s := by
  obtain ⟨wA, a, hfreshA, hbegunA⟩ := h.begunA
  obtain ⟨wB, b, hfreshB, hbegunB⟩ := h.begunB
  obtain ⟨hrulesA, -, zA, hdealtA, hmodelsA⟩ := hbegunA.models h.lawA hfreshA
  obtain ⟨hrulesB, -, zB, hdealtB, hmodelsB⟩ := hbegunB.models h.lawB hfreshB
  -- nothing has been delivered yet
  obtain ⟨opsA, hopsA⟩ := run_of_dealt (p := .new cfgB randomB) hdealtA fun _ hno => absurd hno id
  obtain ⟨opsB, hopsB⟩ := run_of_dealt (p := zA) hdealtB fun _ hno => absurd hno id
  have hranA := run_side .a (s := .init cfgA cfgB randomA randomB) hopsA
  have hranB := run_side .b (s := { Sys.init cfgA cfgB randomA randomB with a := zA }) hopsB
  exact ⟨_, by rw [hrulesA], by rw [hrulesB], hmodelsA, hmodelsB, reached_trans ⟨_, hranA⟩ hranB⟩

/-- **EVERY RUN** of the two threads. -/
theorem Setup.run (h : Setup K K' adA adB Reads HoldsA HoldsB cfgA cfgB randomA randomB x)
    (hhonest : Throughout (stackStep adA adB) (Honest Reads) x es)
    (hrun : run (stackStep adA adB) x es = some y) :
    ∃ s, Refines K K' adA adB Reads HoldsA HoldsB (.init cfgA cfgB randomA randomB) y s :=
  run_throughout (I := fun y => ∃ s, Refines K K' adA adB Reads HoldsA HoldsB
      (.init cfgA cfgB randomA randomB) y s) (fun _ _ _ hx hhonest hstep => by
    obtain ⟨s, hrefines⟩ := hx
    exact hrefines.step h.lawA h.lawB hstep hhonest) es x y h.start hhonest hrun

end Runs

/-- **TWO SOCKETS ARE TWO ENDPOINTS**: over any lawful adapters, whatever the kernels, the
    owners and an honest network do, and in whatever order the threads take their rounds,
    the system of two endpoints has a run to endpoints which have the sockets' connections,
    which accepted what the owners wrote, of which what was written to the owners was read,
    and which sent all that is on the devices. -/
theorem stack_refines (K : Kernel κ Fd) (K' : Kernel κ' Fd)
    (adA : Adapter (κ × List (Call Fd)) Fd A) (adB : Adapter (κ' × List (Call Fd)) Fd B)
    (Reads : List Byte → TCPSegment → Prop) (HoldsA : List TCPSegment → A → Prop)
    (HoldsB : List TCPSegment → B → Prop) (cfgA cfgB : TCPConfig) (randomA randomB : BitVec 32)
    (x y : Stack κ A κ' B)
    (hsetup : Setup K K' adA adB Reads HoldsA HoldsB cfgA cfgB randomA randomB x)
    (es : List (Side × Moment)) (hhonest : Throughout (stackStep adA adB) (Honest Reads) x es)
    (hrun : run (stackStep adA adB) x es = some y) :
    ∃ ops s, run sysStep (.init cfgA cfgB randomA randomB) ops = some s
      ∧ Models Reads HoldsA y.a.2 s.a ∧ Models Reads HoldsB y.b.2 s.b := by
  obtain ⟨s, hrefines⟩ := hsetup.run hhonest hrun
  obtain ⟨ops, hops⟩ := hrefines.reached
  exact ⟨ops, s, hops, hrefines.modelsA, hrefines.modelsB⟩

/-! ## What the owners get -/

/-- A stream that ended has seen a `FIN`. -/
def Finned (z : Endpoint) : Prop :=
  z.conn.receiver.streamOut.inputEnded = true → z.conn.receiver.fin = true

theorem Finned.of_acted {p z z' : Endpoint} {op : SpongeNetwork.Op} (h : Finned z)
    (hsmall : p.accepted.length < 2 ^ 31) (hcarries : Carries p z) (hacted : Acted p z op z') :
    Finned z' := by
  rw [Finned]
  cases hacted.inbound with
  | same hreceiver _ => rw [hreceiver]; exact h
  | error hreceiver _ => rw [hreceiver]; exact h
  | read len hreceiver _ => rw [hreceiver]; exact h
  | segment seg hdelivers _ hreceiver _ =>
      rw [hreceiver]
      obtain ⟨start, hpiece⟩ := hcarries.wire seg (List.mem_append_right _ hdelivers.mem)
      by_cases hpast : z.conn.receiver.syn = true ∨ seg.header.syn = true
      · have hr := TCPReceiver.received hpast
        have hl := landed_spec hsmall hcarries.receives hpiece.brings hpast
        intro hended
        rw [hr.fin]
        by_contra hno
        have hre := hr.reassembler
        rw [if_neg fun hc => hno hc.1] at hre
        have hlanded : (z.conn.receiver.landed seg).output.inputEnded = true := by
          rw [← hre]
          exact hended
        rcases hl.ended hlanded with hbefore | hnow
        · exact hno (by rw [h hbefore, Bool.or_true])
        · exact hno hnow.1
      · rw [TCPReceiver.segmentReceived_before hpast]
        exact h

/-- **WHAT GETS ACROSS** in a run of the system that accepts few bytes. -/
theorem run_carries {cfgA cfgB : TCPConfig} {randomA randomB : BitVec 32}
    {ops : List (Side × SpongeNetwork.Op)} {s : Sys}
    (hrun : run sysStep (.init cfgA cfgB randomA randomB) ops = some s) (hsmall : s.Small) :
    s.Carried ∧ Finned s.a ∧ Finned s.b := by
  refine run_small (I := fun s => Finned s.a ∧ Finned s.b) (P := fun _ _ => True)
    (fun s e s' hsmall hcarried hfinned _ hstep => ?_)
    ⟨carried_init cfgA cfgB randomA randomB, fun h => ?_, fun h => ?_⟩
    (along_of_forall (fun _ _ => trivial) ops _) hrun hsmall
  · rcases sysStep_cases hstep with ⟨-, hb, hact⟩ | ⟨-, ha, hact⟩
    · exact ⟨hfinned.1.of_acted hsmall.2 hcarried.2 (acted hact), hb ▸ hfinned.2⟩
    · exact ⟨ha ▸ hfinned.1, hfinned.2.of_acted hsmall.1 hcarried.1 (acted hact)⟩
  · exact absurd h Bool.false_ne_true
  · exact absurd h Bool.false_ne_true

/-- The owners have written fewer than `2 ^ 31` bytes each. -/
def Stack.Small (x : Stack κ A κ' B) : Prop :=
  (received .threadData x.a.2.calls).length < 2 ^ 31
    ∧ (received .threadData x.b.2.calls).length < 2 ^ 31

/-- What the owner of the second socket got from the owner of the first. -/
structure Conveyed (a : TCPSpongeSocket (κ × List (Call Fd)) A)
    (b : TCPSpongeSocket (κ' × List (Call Fd)) B) : Prop where
  bytes : sent .threadData b.calls ++ b.inbound.buffer <+: received .threadData a.calls
  ended : .shutdown .threadData .wr ∈ b.calls → b.inbound.error = true ∨ a.outboundShutdown = true

theorem conveyed_of_carries {a : TCPSpongeSocket (κ × List (Call Fd)) A}
    {b : TCPSpongeSocket (κ' × List (Call Fd)) B} {za zb : Endpoint}
    (ha : Models Reads HoldsA a za) (hb : Models Reads HoldsB b zb) (hcarries : Carries za zb)
    (hfinned : Finned zb) : Conveyed a b := by
  refine ⟨?_, fun hshut => ?_⟩
  · have hprefix := hcarries.got_prefix
    rwa [hb.readBytes, hb.conn, ha.accepted] at hprefix
  · rw [TCPSpongeSocket.inbound, ← hb.conn, ← ha.closed]
    exact (hb.told hshut).imp_right fun hended => hcarries.fin (hfinned hended)

/-- **BOTH WAYS**, over any lawful adapters. -/
theorem Refines.conveyed {cfgA cfgB : TCPConfig} {randomA randomB : BitVec 32}
    {x : Stack κ A κ' B} {s : Sys}
    (h : Refines K K' adA adB Reads HoldsA HoldsB (.init cfgA cfgB randomA randomB) x s)
    (hsmall : x.Small) : Conveyed x.a.2 x.b.2 ∧ Conveyed x.b.2 x.a.2 := by
  obtain ⟨ops, hops⟩ := h.reached
  have hfew : s.Small := by
    rw [Sys.Small, h.modelsA.accepted, h.modelsB.accepted]
    exact hsmall
  obtain ⟨⟨hab, hba⟩, hfinnedA, hfinnedB⟩ := run_carries hops hfew
  exact ⟨conveyed_of_carries h.modelsA h.modelsB hab hfinnedB,
    conveyed_of_carries h.modelsB h.modelsA hba hfinnedA⟩

/-! ## TCP over IPv4 over Ethernet -/

variable {ρ ρ' : Type}

/-- A socket over Ethernet, with losses, when its loop begins. -/
def Plugged [Popped] (K : Kernel κ Fd) (next : ρ → BitVec 32 × ρ) (cfg : TCPConfig) (random : BitVec 32)
    (x : Running (κ × List (Call Fd)) (Lossy EthernetAdapter ρ)) : Prop :=
  ∃ k ethernetAddress ipAddress nextHop a w rand lossRateUp lossRateDn,
    EthernetAdapter.new K.recording .device ⟨(k, []), fun _ => {}⟩ ethernetAddress ipAddress
        nextHop = .ok (a, w)
      ∧ Begun K (lossy next (overEthernet K.recording .device)) w
        ⟨a, rand, lossRateUp, lossRateDn⟩ cfg random x

theorem Plugged.begun {next : ρ → BitVec 32 × ρ} {cfg : TCPConfig} {random : BitVec 32}
    {x : Running (κ × List (Call Fd)) (Lossy EthernetAdapter ρ)} (h : Plugged K next cfg random x)
    (hK : WholeWrites K .device) :
    ∃ w a, Fresh ReadsEthernet (fun given (a : Lossy EthernetAdapter ρ) => Waits given a.adapter) w a
      ∧ Begun K (lossy next (overEthernet K.recording .device)) w a cfg random x := by
  obtain ⟨k, ethernetAddress, ipAddress, nextHop, a, w, rand, up, dn, hnew, hbegun⟩ := h
  obtain ⟨hwaits, hwritten, bytes, hemits⟩ := ethernet_new hK hnew
  have hcalls : w.kernel.2 = [.write .device bytes] := hemits.calls
  refine ⟨w, _, ⟨hwaits, hwritten, ?_, ?_, ?_, hemits.steady.closed⟩, hbegun⟩
  · rw [hcalls]
    rfl
  · rw [hcalls]
    rfl
  · rw [hcalls]
    simp

/-- **FROM OWNER TO OWNER**, over Ethernet: with kernels that take a frame whole, owners that
    write less than 2^31 bytes, and segments that are found intact after the pop, however long
    address resolution takes, whatever the adapters and the network lose, duplicate or
    reorder, and in whatever order the threads take their rounds, what an owner got and what
    still waits for it is a prefix of what the other owner wrote, and an owner is told the end
    of a stream that has not failed only after the other owner ended it. -/
theorem full_stack_conveys [popped : Popped] (hintact : Popped.Intact) (K : Kernel κ Fd)
    (K' : Kernel κ' Fd) (hK : WholeWrites K .device) (hK' : WholeWrites K' .device)
    (next : ρ → BitVec 32 × ρ) (next' : ρ' → BitVec 32 × ρ')
    (cfgA cfgB : TCPConfig) (randomA randomB : BitVec 32)
    (x y : Stack κ (Lossy EthernetAdapter ρ) κ' (Lossy EthernetAdapter ρ'))
    (hA : Plugged K next cfgA randomA x.a) (hB : Plugged K' next' cfgB randomB x.b)
    (es : List (Side × Moment))
    (hhonest : Throughout (stackStep (lossy next (overEthernet K.recording .device))
      (lossy next' (overEthernet K'.recording .device))) (Honest ReadsEthernet) x es)
    (hrun : run (stackStep (lossy next (overEthernet K.recording .device))
      (lossy next' (overEthernet K'.recording .device))) x es = some y)
    (hsmall : y.Small) :
    Conveyed y.a.2 y.b.2 ∧ Conveyed y.b.2 y.a.2 := by
  obtain rfl := hintact.eq_kept
  have hsetup : Setup K K' (lossy next (overEthernet K.recording .device))
      (lossy next' (overEthernet K'.recording .device)) ReadsEthernet
      (fun given a => Waits given a.adapter) (fun given b => Waits given b.adapter) cfgA cfgB
      randomA randomB x :=
    ⟨lawful_lossy next (lawful_ethernet hK), lawful_lossy next' (lawful_ethernet hK'), hA.begun hK,
      hB.begun hK'⟩
  obtain ⟨s, hrefines⟩ := hsetup.run hhonest hrun
  exact hrefines.conveyed hsmall

end Stack

/-! ## A byte on its way -/

/-- What arrives on the device, and what the owner writes. -/
structure Script where
  frames : List (List Byte)
  input : List (List Byte)

/-- A kernel that follows a script and takes everything. -/
def scripted : Kernel Script Fd where
  read k fd _ :=
    if fd = .device then .ok (k.frames.headD [], { k with frames := k.frames.tail })
    else .ok (k.input.headD [], { k with input := k.input.tail })
  writev k _ iovecs := .ok ((iovecs.flatMap Prod.fst).length, k)
  shutdown k _ _ := .ok k
  close k _ := .ok k

/-- One descriptor is ready. -/
def only (fd : Fd) (direction : Direction) : Moment where
  poll := .answered fun fd' direction' =>
    { pollin := decide (fd' = fd ∧ direction' = direction)
      pollout := decide (fd' = fd ∧ direction' = direction) }
  elapsed := 0

/-- A frame between hosts with the address zero. -/
def frameOf (length checksum : Byte) (segment : List Byte) : List Byte :=
  .replicate 12 0 ++ [8, 0, 69, 0, 0, length, 0, 0, 64, 0, 128, 6, 250, checksum]
    ++ .replicate 12 0 ++ segment

/-- The one that connects hears the answer to its request, and the `SYN` and `ACK`; its owner
    writes a byte. -/
def callerScript : Script where
  frames := [answer, frameOf 40 208 [0, 0, 0, 0, 0, 0, 0, 1, 80, 18, 250, 0, 181, 209, 0, 0]]
  input := [[120]]

/-- The one that listens hears the request, the `SYN` and the byte. -/
def calleeScript : Script where
  frames := [.replicate 6 255 ++ .replicate 6 0 ++ [8, 6, 0, 1, 8, 0, 6, 4, 0, 1] ++ .replicate 20 0,
    frameOf 40 208 [0, 0, 0, 0, 0, 0, 0, 0, 80, 2, 250, 0, 181, 226, 0, 0],
    frameOf 41 207 [0, 0, 0, 1, 0, 0, 0, 1, 80, 16, 250, 0, 61, 209, 0, 0, 120]]
  input := []

def exchange : List (Side × Moment) :=
  [(.a, only .device .Out), (.b, only .device .In), (.a, only .device .In), (.b, only .device .In),
    (.b, only .device .Out), (.a, only .device .In), (.a, only .threadData .In),
    (.a, only .device .Out), (.b, only .device .In), (.b, only .threadData .Out)]

/-- A generator that is never asked. -/
def unused (r : Unit) : BitVec 32 × Unit := (0, r)

def overScript : Adapter (Script × List (Call Fd)) Fd (Lossy EthernetAdapter Unit) :=
  lossy unused (overEthernet scripted.recording .device)

/-- What was read from the device. -/
def arrivals (calls : List (Call Fd)) : List (List Byte) :=
  calls.filterMap fun
    | .read .device bytes => some bytes
    | _ => none

/-- All that arrived here was written there. -/
def AllWritten (x : Stack Script (Lossy EthernetAdapter Unit) Script (Lossy EthernetAdapter Unit)) :
    Prop :=
  (∀ bytes ∈ arrivals x.a.2.calls, .write .device bytes ∈ x.b.2.calls)
    ∧ ∀ bytes ∈ arrivals x.b.2.calls, .write .device bytes ∈ x.a.2.calls

instance : DecidablePred AllWritten := fun _ => inferInstanceAs (Decidable (_ ∧ _))

theorem AllWritten.honest
    {x : Stack Script (Lossy EthernetAdapter Unit) Script (Lossy EthernetAdapter Unit)}
    (h : AllWritten x) (Reads : List Byte → TCPSegment → Prop) : Honest Reads x := by
  have hread : ∀ {calls : List (Call Fd)} {bytes : List Byte}, .read .device bytes ∈ calls →
      bytes ∈ arrivals calls := fun hmem => List.mem_filterMap.mpr ⟨_, hmem, rfl⟩
  exact ⟨fun bytes hmem _ hreads => ⟨bytes, h.1 bytes (hread hmem), hreads⟩,
    fun bytes hmem _ hreads => ⟨bytes, h.2 bytes (hread hmem), hreads⟩⟩

/-- The byte gets across, after the addresses are resolved and both have sent a `SYN`. -/
theorem exchange_run :
    ∃ x y, Plugged scripted unused {} 0 x.a ∧ Plugged scripted unused {} 0 x.b
      ∧ Throughout (stackStep overScript overScript) AllWritten x exchange
      ∧ run (stackStep overScript overScript) x exchange = some y
      ∧ received .threadData y.a.2.calls = [120]
      ∧ received .threadData y.b.2.calls = []
      ∧ sent .threadData y.b.2.calls = [120] :=
  ⟨⟨TCPSpongeSocket.connecting scripted.recording overScript _ ⟨_, (), 0, 0⟩ {} 0 {},
      TCPSpongeSocket.listening scripted.recording overScript _ ⟨_, (), 0, 0⟩ {} 0 {}⟩, _,
    ⟨callerScript, .replicate 6 0, {}, {}, _, _, (), 0, 0, rfl, {}, Or.inl rfl⟩,
    ⟨calleeScript, .replicate 6 0, {}, {}, _, _, (), 0, 0, rfl, {}, Or.inr rfl⟩,
    by decide +kernel, rfl, rfl, rfl, rfl⟩

theorem whole_scripted : WholeWrites scripted .device := by
  intro k iovecs n k' h
  exact (Prod.mk.inj (Except.ok.inj h)).1.symm

theorem stack_refines_byte :
    ∃ x y ops s, run (stackStep overScript overScript) x exchange = some y
      ∧ sent .threadData y.b.2.calls = [120]
      ∧ run sysStep (.init {} {} 0 0) ops = some s ∧ s.a.accepted = [120] := by
  obtain ⟨x, y, hA, hB, hwritten, hrun, hinput, -, houtput⟩ := exchange_run
  have hlaw := lawful_lossy unused (lawful_ethernet whole_scripted)
  obtain ⟨ops, s, hops, hmodels, -⟩ := stack_refines scripted scripted overScript overScript
    ReadsEthernet _ _ {} {} 0 0 x y ⟨hlaw, hlaw, hA.begun whole_scripted, hB.begun whole_scripted⟩
    exchange (Throughout.mono (fun _ h => h.honest _) _ _ hwritten) hrun
  exact ⟨x, y, ops, s, hrun, houtput, hops, hmodels.accepted.trans hinput⟩

theorem full_stack_conveys_byte :
    ∃ x y, run (stackStep overScript overScript) x exchange = some y
      ∧ sent .threadData y.b.2.calls = [120]
      ∧ Conveyed y.a.2 y.b.2 ∧ Conveyed y.b.2 y.a.2 := by
  obtain ⟨x, y, hA, hB, hwritten, hrun, hinput, hnone, houtput⟩ := exchange_run
  have hsmall : y.Small := by
    rw [Stack.Small, hinput, hnone]
    decide
  exact ⟨x, y, hrun, houtput, full_stack_conveys Popped.intact_kept scripted scripted
    whole_scripted whole_scripted unused unused {} {} 0 0 x y hA hB exchange
    (Throughout.mono (fun _ h => h.honest _) _ _ hwritten) hrun hsmall⟩

end SpongeStack
