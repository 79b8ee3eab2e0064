import Sponge.EthernetProofs
import Sponge.KeyedProofs

/-! # The network interface — `network_interface`

    An interface sends datagrams to next hops on its link.  It knows the Ethernet
    address of some of them, from the ARP messages it heard in the last thirty
    seconds; a datagram to any other next hop waits, and a request is broadcast
    unless one was in the last five seconds.

    Where the code raises, the model answers the text of the exception and the
    state that is left behind.

    What the interface is for is said by `Keyed.Held`: a queue that holds
    datagrams back by next hop, where a mapping releases them.  The interface
    refines it (`step_refines`): a datagram passes only if its next hop is known,
    and no known next hop has a datagram waiting.  So of every next hop the
    datagrams leave exactly once and in order (`delivers_in_order`). -/

namespace SpongeInterface

open SpongeByteStream SpongeBuffer SpongeParser SpongeIPv4 SpongeEthernet
open Keyed RunRule Word64

structure NetworkInterface where
  ethernetAddress : EthernetAddress
  /-- the address as `ipv4_numeric` gives it -/
  ipAddress : BitVec 32
  framesOut : List EthernetFrame := []
  arpCache : AList (fun _ : BitVec 32 => EthernetAddress × Nat) := ∅
  pendingDatagrams : List (BitVec 32 × IPv4Datagram) := []
  arpRequestTimeouts : AList (fun _ : BitVec 32 => Nat) := ∅
  currentTime : Nat := 0
deriving DecidableEq

namespace NetworkInterface

/-- `_make_frame` -/
def makeFrame (n : NetworkInterface) (dst : EthernetAddress) (type : BitVec 16)
    (payload : BufferList) : EthernetFrame where
  header := { dst := dst, src := n.ethernetAddress, type := type }
  payload := payload

/-- `_frames_out.emplace` -/
def emplace (n : NetworkInterface) (frame : EthernetFrame) : NetworkInterface :=
  { n with framesOut := n.framesOut ++ [frame] }

/-- No request for the address was broadcast in the last five seconds. -/
def requestDue (n : NetworkInterface) (ip : BitVec 32) : Bool :=
  match n.arpRequestTimeouts.lookup ip with
  | none => true
  | some time => sub64 n.currentTime time > 5000

def arpRequest (n : NetworkInterface) (ip : BitVec 32) : ARPMessage :=
  { opcode := ARPMessage.opcodeRequest
    senderEthernetAddress := n.ethernetAddress
    senderIpAddress := n.ipAddress
    targetIpAddress := ip }

def arpReply (n : NetworkInterface) (m : ARPMessage) : ARPMessage :=
  { opcode := ARPMessage.opcodeReply
    senderEthernetAddress := n.ethernetAddress
    senderIpAddress := n.ipAddress
    targetEthernetAddress := m.senderEthernetAddress
    targetIpAddress := m.senderIpAddress }

/-- The request is broadcast and its time noted. -/
def broadcastRequest (n : NetworkInterface) (ip : BitVec 32) :
    Except String Unit × NetworkInterface :=
  match (n.arpRequest ip).serialize with
  | .error text => (.error text, n)
  | .ok bytes =>
      (.ok (),
        { n.emplace (n.makeFrame ethernetBroadcast EthernetHeader.typeARP (.ofString bytes)) with
          arpRequestTimeouts := n.arpRequestTimeouts.insert ip n.currentTime })

def sendDatagram (n : NetworkInterface) (dgram : IPv4Datagram) (nextHop : BitVec 32) :
    Except String Unit × NetworkInterface :=
  match n.arpCache.lookup nextHop with
  | some (ethernetAddress, _) =>
      match dgram.serialize with
      | .error text => (.error text, n)
      | .ok payload =>
          (.ok (), n.emplace (n.makeFrame ethernetAddress EthernetHeader.typeIPv4 payload))
  | none =>
      match if n.requestDue nextHop then n.broadcastRequest nextHop else (.ok (), n) with
      | (.error text, n) => (.error text, n)
      | (.ok (), n) =>
          (.ok (), { n with pendingDatagrams := n.pendingDatagrams ++ [(nextHop, dgram)] })

/-- `_arp_cache[ip]`, which makes an entry where there is none. -/
def subscript (n : NetworkInterface) (ip : BitVec 32) :
    (EthernetAddress × Nat) × NetworkInterface :=
  match n.arpCache.lookup ip with
  | some entry => (entry, n)
  | none =>
      let entry := (.replicate 6 0, 0)
      (entry, { n with arpCache := n.arpCache.insert ip entry })

/-- The loop of `_send_pending_datagrams` over the rest of the queue; `kept` are the
    datagrams it has passed over. -/
def sendPendingLoop (ip : BitVec 32) : List (BitVec 32 × IPv4Datagram) →
    List (BitVec 32 × IPv4Datagram) → NetworkInterface →
    Except String Unit × NetworkInterface
  | [], kept, n => (.ok (), { n with pendingDatagrams := kept })
  | (hop, dgram) :: rest, kept, n =>
      if hop = ip then
        let (entry, n) := n.subscript ip
        match dgram.serialize with
        | .error text => (.error text, { n with pendingDatagrams := kept ++ (hop, dgram) :: rest })
        | .ok payload =>
            sendPendingLoop ip rest kept
              (n.emplace (n.makeFrame entry.1 EthernetHeader.typeIPv4 payload))
      else sendPendingLoop ip rest (kept ++ [(hop, dgram)]) n

/-- `_send_pending_datagrams` -/
def sendPendingDatagrams (n : NetworkInterface) (ip : BitVec 32) :
    Except String Unit × NetworkInterface :=
  sendPendingLoop ip n.pendingDatagrams [] n

/-- The mapping of the sender is stored, and a request for it is no longer open. -/
def learn (n : NetworkInterface) (m : ARPMessage) : NetworkInterface :=
  { n with
    arpCache :=
      n.arpCache.insert m.senderIpAddress (m.senderEthernetAddress, n.currentTime)
    arpRequestTimeouts := n.arpRequestTimeouts.erase m.senderIpAddress }

/-- A request for the interface's own address is answered. -/
def replyTo (n : NetworkInterface) (m : ARPMessage) :
    Except String (Option IPv4Datagram) × NetworkInterface :=
  if m.opcode = ARPMessage.opcodeRequest ∧ m.targetIpAddress = n.ipAddress then
    match (n.arpReply m).serialize with
    | .error text => (.error text, n)
    | .ok bytes =>
        (.ok none, n.emplace
          (n.makeFrame m.senderEthernetAddress EthernetHeader.typeARP (.ofString bytes)))
  else (.ok none, n)

/-- What `recv_frame` does with an ARP message that it could parse. -/
def recvArp (n : NetworkInterface) (m : ARPMessage) :
    Except String (Option IPv4Datagram) × NetworkInterface :=
  match (n.learn m).sendPendingDatagrams m.senderIpAddress with
  | (.error text, n) => (.error text, n)
  | (.ok (), n) => n.replyTo m

/-- The frame is for this interface, or for everyone. -/
def addressed (n : NetworkInterface) (frame : EthernetFrame) : Prop :=
  frame.header.dst = n.ethernetAddress ∨ frame.header.dst = ethernetBroadcast

instance (n : NetworkInterface) (frame : EthernetFrame) : Decidable (n.addressed frame) :=
  inferInstanceAs (Decidable (_ ∨ _))

def recvFrame (n : NetworkInterface) (frame : EthernetFrame) :
    Except String (Option IPv4Datagram) × NetworkInterface :=
  if n.addressed frame then
    if frame.header.type = EthernetHeader.typeIPv4 then
      match frame.payload.toBuffer with
      | .error text => (.error text, n)
      | .ok buffer =>
          match IPv4Datagram.parse {} buffer with
          | (.noError, dgram) => (.ok (some dgram), n)
          | _ => (.ok none, n)
    else if frame.header.type = EthernetHeader.typeARP then
      match frame.payload.toBuffer with
      | .error text => (.error text, n)
      | .ok buffer =>
          match ARPMessage.parse {} buffer with
          | (.noError, m) => n.recvArp m
          | _ => (.ok none, n)
    else (.ok none, n)
  else (.ok none, n)

/-- `_remove_expired_cache` -/
def removeExpiredCache (n : NetworkInterface) : NetworkInterface :=
  { n with arpCache := retain (fun _ entry => !(sub64 n.currentTime entry.2 > 30000)) n.arpCache }

def tick (n : NetworkInterface) (msSinceLastTick : Nat) : NetworkInterface :=
  { n with currentTime := (n.currentTime + msSinceLastTick) % 2 ^ 64 }.removeExpiredCache

/-! ## What a call does -/

variable {n n' : NetworkInterface} {dgram : IPv4Datagram} {ip : BitVec 32}

/-- The frame carries the datagram to the Ethernet address. -/
def Encapsulates (n : NetworkInterface) (dst : EthernetAddress) (frame : EthernetFrame)
    (dgram : IPv4Datagram) : Prop :=
  ∃ payload, dgram.serialize = .ok payload
    ∧ frame = n.makeFrame dst EthernetHeader.typeIPv4 payload

/-- The frame that carries an ARP message. -/
def messageFrame (n : NetworkInterface) (dst : EthernetAddress) (m : ARPMessage) :
    EthernetFrame :=
  n.makeFrame dst EthernetHeader.typeARP (.ofString m.fieldBytes)

/-- The request, in its frame. -/
def requestFrame (n : NetworkInterface) (ip : BitVec 32) : EthernetFrame :=
  n.messageFrame ethernetBroadcast (n.arpRequest ip)

theorem broadcastRequest_eq (n : NetworkInterface) (ip : BitVec 32) :
    n.broadcastRequest ip = (.ok (),
      { n.emplace (n.requestFrame ip) with
        arpRequestTimeouts := n.arpRequestTimeouts.insert ip n.currentTime }) := by
  rw [broadcastRequest, ARPMessage.serialize_eq rfl]
  rfl

/-- **A DATAGRAM IS SENT**: it leaves, or it waits, with a request or without. -/
inductive SendOutcome (n : NetworkInterface) (dgram : IPv4Datagram) (ip : BitVec 32) :
    NetworkInterface → Prop
  | left (entry : EthernetAddress × Nat) (frame : EthernetFrame)
      (cached : n.arpCache.lookup ip = some entry)
      (carries : n.Encapsulates entry.1 frame dgram) :
      SendOutcome n dgram ip (n.emplace frame)
  | asked (bytes : List Byte) (unknown : n.arpCache.lookup ip = none)
      (due : n.requestDue ip = true) :
      SendOutcome n dgram ip
        { n.emplace (n.makeFrame ethernetBroadcast EthernetHeader.typeARP (.ofString bytes)) with
          arpRequestTimeouts := n.arpRequestTimeouts.insert ip n.currentTime
          pendingDatagrams := n.pendingDatagrams ++ [(ip, dgram)] }
  | waited (unknown : n.arpCache.lookup ip = none) (early : n.requestDue ip = false) :
      SendOutcome n dgram ip { n with pendingDatagrams := n.pendingDatagrams ++ [(ip, dgram)] }

/-- What `serialize` gives, where it gives something. -/
def written (dgram : IPv4Datagram) : BufferList :=
  match dgram.serialize with
  | .error _ => {}
  | .ok payload => payload

/-- The frame that carries a datagram. -/
def datagramFrame (n : NetworkInterface) (dst : EthernetAddress) (dgram : IPv4Datagram) :
    EthernetFrame :=
  n.makeFrame dst EthernetHeader.typeIPv4 (written dgram)

theorem encapsulates_iff {dst : EthernetAddress} {frame : EthernetFrame}
    (h : ∃ payload, dgram.serialize = .ok payload) :
    n.Encapsulates dst frame dgram ↔ frame = n.datagramFrame dst dgram := by
  obtain ⟨payload, hpayload⟩ := h
  simp [Encapsulates, datagramFrame, written, hpayload]

section Send

variable {entry : EthernetAddress × Nat}

/-- To a known next hop a datagram leaves at once. -/
theorem sendDatagram_known (hcache : n.arpCache.lookup ip = some entry)
    (h : ∃ payload, dgram.serialize = .ok payload) :
    n.sendDatagram dgram ip = (.ok (), n.emplace (n.datagramFrame entry.1 dgram)) := by
  obtain ⟨payload, hpayload⟩ := h
  simp [sendDatagram, hcache, hpayload, datagramFrame, written]

/-- To an unknown one it waits, and a request goes out if it is time. -/
theorem sendDatagram_due (hcache : n.arpCache.lookup ip = none)
    (hdue : n.requestDue ip = true) :
    n.sendDatagram dgram ip = (.ok (),
      { n.emplace (n.requestFrame ip) with
        arpRequestTimeouts := n.arpRequestTimeouts.insert ip n.currentTime
        pendingDatagrams := n.pendingDatagrams ++ [(ip, dgram)] }) := by
  rw [sendDatagram, hcache]
  dsimp only
  rw [if_pos hdue, broadcastRequest_eq]
  rfl

theorem sendDatagram_early (hcache : n.arpCache.lookup ip = none)
    (hearly : n.requestDue ip = false) :
    n.sendDatagram dgram ip
      = (.ok (), { n with pendingDatagrams := n.pendingDatagrams ++ [(ip, dgram)] }) := by
  simp [sendDatagram, hcache, hearly]

theorem sendDatagram_spec (n : NetworkInterface) (ip : BitVec 32)
    (h : ∃ payload, dgram.serialize = .ok payload) :
    ∃ n', n.sendDatagram dgram ip = (.ok (), n') ∧ SendOutcome n dgram ip n' := by
  cases hcache : n.arpCache.lookup ip with
  | some entry =>
      exact ⟨_, sendDatagram_known hcache h, .left entry _ hcache ((encapsulates_iff h).mpr rfl)⟩
  | none =>
      cases hdue : n.requestDue ip with
      | true => exact ⟨_, sendDatagram_due hcache hdue, .asked _ hcache hdue⟩
      | false => exact ⟨_, sendDatagram_early hcache hdue, .waited hcache hdue⟩

/-- Sending changes no mapping. -/
theorem sendDatagram_arpCache (n : NetworkInterface) (dgram : IPv4Datagram) (ip : BitVec 32) :
    (n.sendDatagram dgram ip).2.arpCache = n.arpCache := by
  cases hcache : n.arpCache.lookup ip with
  | some entry =>
      cases hwrite : dgram.serialize with
      | error text => simp [sendDatagram, hcache, hwrite]
      | ok payload =>
          rw [sendDatagram_known hcache ⟨payload, hwrite⟩]
          rfl
  | none =>
      cases hdue : n.requestDue ip with
      | true => rw [sendDatagram_due hcache hdue]; rfl
      | false => rw [sendDatagram_early hcache hdue]

/-- **WHEN SENDING RAISES**: only a datagram that leaves at once is written down. -/
theorem sendDatagram_ok_iff (n : NetworkInterface) (dgram : IPv4Datagram) (ip : BitVec 32) :
    (n.sendDatagram dgram ip).1 = .ok ()
      ↔ n.arpCache.lookup ip = none ∨ ∃ payload, dgram.serialize = .ok payload := by
  cases hcache : n.arpCache.lookup ip with
  | some entry =>
      cases hwrite : dgram.serialize with
      | error text => simp [sendDatagram, hcache, hwrite]
      | ok payload => simp [sendDatagram, hcache, hwrite]
  | none =>
      refine iff_of_true ?_ (Or.inl rfl)
      cases hdue : n.requestDue ip with
      | true => rw [sendDatagram_due hcache hdue]
      | false => rw [sendDatagram_early hcache hdue]

end Send

/-- **THE LOOP OVER THE PENDING DATAGRAMS**: with the address known, the datagrams for
    it leave in order and the others stay in order. -/
theorem sendPendingLoop_spec {entry : EthernetAddress × Nat} :
    ∀ (rest kept : List (BitVec 32 × IPv4Datagram)) (n : NetworkInterface),
      n.arpCache.lookup ip = some entry →
      (∀ dgram ∈ of ip rest, ∃ payload, dgram.serialize = .ok payload) →
      ∃ frames, List.Forall₂ (n.Encapsulates entry.1) frames (of ip rest)
        ∧ sendPendingLoop ip rest kept n = (.ok (),
          { n with
            framesOut := n.framesOut ++ frames
            pendingDatagrams := kept ++ without ip rest }) := by
  intro rest
  induction rest with
  | nil =>
      intro kept n _ _
      refine ⟨[], .nil, ?_⟩
      rw [sendPendingLoop, List.append_nil]
      exact congrArg (fun l => (_, { n with pendingDatagrams := l })) (List.append_nil kept).symm
  | cons p rest ih =>
      intro kept n hcache hok
      obtain ⟨hop, dgram⟩ := p
      rw [sendPendingLoop]
      by_cases hhop : hop = ip
      · -- for this address: it leaves
        subst hhop
        rw [of_cons_self] at hok
        have hrest := fun d hd => hok d (List.mem_cons_of_mem _ hd)
        obtain ⟨payload, hpayload⟩ := hok _ (List.mem_cons_self ..)
        have hsub : n.subscript hop = (entry, n) := by
          rw [subscript, hcache]
        rw [if_pos rfl, hsub]
        dsimp only
        rw [hpayload]
        obtain ⟨frames, hframes, heq⟩ := ih kept
          (n.emplace (n.makeFrame entry.1 EthernetHeader.typeIPv4 payload)) hcache hrest
        refine ⟨n.makeFrame entry.1 EthernetHeader.typeIPv4 payload :: frames, ?_,
          heq.trans ?_⟩
        · rw [of_cons_self]
          exact .cons ⟨payload, hpayload, rfl⟩ hframes
        · rw [without_cons_self, List.append_cons]
          rfl
      · -- for another: it stays
        rw [if_neg hhop]
        rw [of_cons_ne hhop] at hok
        obtain ⟨frames, hframes, heq⟩ := ih (kept ++ [(hop, dgram)]) n hcache hok
        refine ⟨frames, ?_, heq.trans ?_⟩
        · rw [of_cons_ne hhop]
          exact hframes
        · rw [without_cons_ne hhop, List.append_assoc]
          rfl

/-- It stops with an exception at a datagram for the address that cannot be written, and
    that one still waits. -/
theorem sendPendingLoop_raises :
    ∀ (rest kept : List (BitVec 32 × IPv4Datagram)) (n : NetworkInterface),
      (∃ dgram ∈ of ip rest, ¬ ∃ payload, dgram.serialize = .ok payload) →
      ∃ text n', sendPendingLoop ip rest kept n = (.error text, n')
        ∧ ∃ dgram ∈ of ip n'.pendingDatagrams, ¬ ∃ payload, dgram.serialize = .ok payload := by
  intro rest
  induction rest with
  | nil =>
      rintro kept n ⟨dgram, hdgram, -⟩
      exact absurd hdgram List.not_mem_nil
  | cons p rest ih =>
      rintro kept n ⟨bad, hbad, hraises⟩
      obtain ⟨hop, dgram⟩ := p
      rw [sendPendingLoop]
      by_cases hhop : hop = ip
      · subst hhop
        rw [if_pos rfl]
        dsimp only
        cases hwrite : dgram.serialize with
        | error text =>
            refine ⟨text, _, rfl, dgram, ?_, ?_⟩
            · rw [of_append, of_cons_self]
              exact List.mem_append_right _ (List.mem_cons_self ..)
            · simp [hwrite]
        | ok payload =>
            rw [of_cons_self] at hbad
            rcases List.mem_cons.mp hbad with rfl | hbad
            · exact absurd ⟨payload, hwrite⟩ hraises
            · exact ih kept _ ⟨bad, hbad, hraises⟩
      · rw [if_neg hhop]
        rw [of_cons_ne hhop] at hbad
        exact ih _ n ⟨bad, hbad, hraises⟩

/-- The frame brought the ARP message. -/
def Resolved (n : NetworkInterface) (frame : EthernetFrame) (m : ARPMessage) : Prop :=
  n.addressed frame ∧ frame.header.type = EthernetHeader.typeARP
    ∧ ∃ buffer, frame.payload.toBuffer = .ok buffer
      ∧ ARPMessage.parse {} buffer = (.noError, m)

/-- **A FRAME IS RECEIVED**: nothing is learned from it, or the mapping of an ARP
    message is, and what waited for it leaves. -/
inductive RecvOutcome (n : NetworkInterface) (frame : EthernetFrame) :
    NetworkInterface → Prop
  | nothing (unresolved : ∀ m, ¬ n.Resolved frame m) : RecvOutcome n frame n
  | learned (m : ARPMessage) (frames replies : List EthernetFrame)
      (resolved : n.Resolved frame m)
      (carries : List.Forall₂ (n.Encapsulates m.senderEthernetAddress) frames
        (of m.senderIpAddress n.pendingDatagrams))
      (arp : ∀ reply ∈ replies, reply.header.type = EthernetHeader.typeARP) :
      RecvOutcome n frame
        { n.learn m with
          framesOut := n.framesOut ++ (frames ++ replies)
          pendingDatagrams := without m.senderIpAddress n.pendingDatagrams }

/-- The answer to a message, if it asks for the interface's own address. -/
def replies (n : NetworkInterface) (m : ARPMessage) : List EthernetFrame :=
  if m.opcode = ARPMessage.opcodeRequest ∧ m.targetIpAddress = n.ipAddress then
    [n.messageFrame m.senderEthernetAddress (n.arpReply m)]
  else []

theorem replies_type {m : ARPMessage} {reply : EthernetFrame} (h : reply ∈ n.replies m) :
    reply.header.type = EthernetHeader.typeARP := by
  rw [replies] at h
  split_ifs at h
  · rw [List.mem_singleton.mp h]
    rfl
  · exact absurd h List.not_mem_nil

theorem replyTo_eq (n : NetworkInterface) (m : ARPMessage) :
    n.replyTo m = (.ok none, { n with framesOut := n.framesOut ++ n.replies m }) := by
  rw [replyTo, replies]
  split_ifs
  · rw [ARPMessage.serialize_eq rfl]
    rfl
  · rw [List.append_nil]

theorem recvArp_spec (m : ARPMessage)
    (hok : ∀ dgram ∈ of m.senderIpAddress n.pendingDatagrams,
      ∃ payload, dgram.serialize = .ok payload) :
    ∃ frames,
      List.Forall₂ (n.Encapsulates m.senderEthernetAddress) frames
        (of m.senderIpAddress n.pendingDatagrams)
      ∧ n.recvArp m = (.ok none,
        { n.learn m with
          framesOut := n.framesOut ++ (frames ++ n.replies m)
          pendingDatagrams := without m.senderIpAddress n.pendingDatagrams }) := by
  have hcache : (n.learn m).arpCache.lookup m.senderIpAddress
      = some (m.senderEthernetAddress, n.currentTime) := AList.lookup_insert _
  obtain ⟨frames, hframes, hsent⟩ :=
    sendPendingLoop_spec n.pendingDatagrams [] (n.learn m) hcache hok
  have hpending : (n.learn m).sendPendingDatagrams m.senderIpAddress = _ := hsent
  refine ⟨frames, hframes, ?_⟩
  rw [recvArp, hpending, ← List.append_assoc]
  exact replyTo_eq _ m

/-- Frames that carry a list of datagrams to one address. -/
theorem frames_eq_map {dst : EthernetAddress} {frames : List EthernetFrame}
    {dgrams : List IPv4Datagram} (h : List.Forall₂ (n.Encapsulates dst) frames dgrams) :
    frames = dgrams.map (n.datagramFrame dst) := by
  induction h with
  | nil => rfl
  | cons head _ ih =>
      have hone := (encapsulates_iff ⟨_, head.choose_spec.1⟩).mp head
      rw [List.map_cons, ← hone, ← ih]

/-- **A MESSAGE IS HEARD**: what waited for the sender leaves, and the answer. -/
theorem recvArp_eq (m : ARPMessage)
    (hok : ∀ dgram ∈ of m.senderIpAddress n.pendingDatagrams,
      ∃ payload, dgram.serialize = .ok payload) :
    n.recvArp m = (.ok none,
      { n.learn m with
        framesOut := n.framesOut
          ++ ((of m.senderIpAddress n.pendingDatagrams).map (n.datagramFrame m.senderEthernetAddress)
            ++ n.replies m)
        pendingDatagrams := without m.senderIpAddress n.pendingDatagrams }) := by
  obtain ⟨frames, hframes, heq⟩ := recvArp_spec m hok
  rw [heq, frames_eq_map hframes]

/-- **BLOCKED**: a message raises if something that waits for its sender cannot be
    written, and so will the next one. -/
theorem recvArp_raises {m : ARPMessage}
    (hbad : ∃ dgram ∈ of m.senderIpAddress n.pendingDatagrams,
      ¬ ∃ payload, dgram.serialize = .ok payload) :
    ∃ text n', n.recvArp m = (.error text, n')
      ∧ ∃ dgram ∈ of m.senderIpAddress n'.pendingDatagrams,
        ¬ ∃ payload, dgram.serialize = .ok payload := by
  obtain ⟨text, n', hraises, hstays⟩ :=
    sendPendingLoop_raises n.pendingDatagrams [] (n.learn m) hbad
  have hpending : (n.learn m).sendPendingDatagrams m.senderIpAddress = _ := hraises
  refine ⟨text, n', ?_, hstays⟩
  rw [recvArp, hpending]

/-- The ARP message that a frame carries. -/
def carriedMessage (frame : EthernetFrame) : Option ARPMessage :=
  if frame.header.type = EthernetHeader.typeARP then
    match frame.payload.toBuffer with
    | .error _ => none
    | .ok buffer =>
        match ARPMessage.parse {} buffer with
        | (.noError, m) => some m
        | _ => none
  else none

theorem carriedMessage_eq_some_iff {frame : EthernetFrame} {m : ARPMessage} :
    carriedMessage frame = some m
      ↔ frame.header.type = EthernetHeader.typeARP
        ∧ ∃ buffer, frame.payload.toBuffer = .ok buffer
          ∧ ARPMessage.parse {} buffer = (.noError, m) := by
  rw [carriedMessage]
  by_cases harp : frame.header.type = EthernetHeader.typeARP
  · rw [if_pos harp, and_iff_right harp]
    cases frame.payload.toBuffer with
    | error text => exact iff_of_false (fun h => nomatch h) (fun ⟨_, h, _⟩ => nomatch h)
    | ok buffer =>
        dsimp only
        constructor
        · intro h
          refine ⟨buffer, rfl, ?_⟩
          split at h
          · rename_i m' hparse
            rw [hparse, Option.some.inj h]
          · exact nomatch h
        · rintro ⟨buffer', hbuffer, hparse⟩
          obtain rfl := Except.ok.inj hbuffer
          rw [hparse]
  · rw [if_neg harp]
    exact iff_of_false (fun h => nomatch h) (fun h => harp h.1)

/-- The ARP message that a frame brings to the interface. -/
def arpMessage (n : NetworkInterface) (frame : EthernetFrame) : Option ARPMessage :=
  if n.addressed frame then carriedMessage frame else none

theorem resolved_iff {frame : EthernetFrame} {m : ARPMessage} :
    n.Resolved frame m ↔ n.arpMessage frame = some m := by
  rw [Resolved, arpMessage]
  by_cases haddressed : n.addressed frame
  · rw [if_pos haddressed, and_iff_right haddressed, carriedMessage_eq_some_iff]
  · rw [if_neg haddressed]
    exact iff_of_false (fun h => haddressed h.1) (fun h => nomatch h)

/-- A frame that brings a message is handled as the message. -/
theorem recvFrame_message {frame : EthernetFrame} {m : ARPMessage}
    (h : n.arpMessage frame = some m) : n.recvFrame frame = n.recvArp m := by
  obtain ⟨haddressed, harp, buffer, hbuffer, hparse⟩ := resolved_iff.mpr h
  have hIPv4 : frame.header.type ≠ EthernetHeader.typeIPv4 := by
    rw [harp]
    decide
  rw [recvFrame, if_pos haddressed, if_neg hIPv4, if_pos harp, hbuffer]
  dsimp only
  rw [hparse]

/-- The datagram that a frame carries. -/
def carriedDatagram (frame : EthernetFrame) : Option IPv4Datagram :=
  if frame.header.type = EthernetHeader.typeIPv4 then
    match frame.payload.toBuffer with
    | .error _ => none
    | .ok buffer =>
        match IPv4Datagram.parse {} buffer with
        | (.noError, dgram) => some dgram
        | _ => none
  else none

theorem carriedDatagram_eq_some_iff {frame : EthernetFrame} {d : IPv4Datagram} :
    carriedDatagram frame = some d
      ↔ frame.header.type = EthernetHeader.typeIPv4
        ∧ ∃ buffer, frame.payload.toBuffer = .ok buffer
          ∧ IPv4Datagram.parse {} buffer = (.noError, d) := by
  rw [carriedDatagram]
  constructor
  · intro h
    split_ifs at h with htype
    refine ⟨htype, ?_⟩
    cases hbuffer : frame.payload.toBuffer with
    | error text =>
        rw [hbuffer] at h
        cases h
    | ok buffer =>
        rw [hbuffer] at h
        dsimp only at h
        refine ⟨buffer, rfl, ?_⟩
        split at h
        · rename_i d' hparse
          rw [hparse, Option.some.inj h]
        · cases h
  · rintro ⟨htype, buffer, hbuffer, hparse⟩
    rw [if_pos htype, hbuffer]
    dsimp only
    rw [hparse]

/-- The datagram that a frame brings to the interface. -/
def broughtDatagram (n : NetworkInterface) (frame : EthernetFrame) : Option IPv4Datagram :=
  if n.addressed frame then carriedDatagram frame else none

/-- A frame that brings no message changes nothing, and gives the datagram it brings. -/
theorem recvFrame_quiet {frame : EthernetFrame} (hsingle : frame.payload.buffers.length ≤ 1)
    (h : n.arpMessage frame = none) :
    n.recvFrame frame = (.ok (n.broughtDatagram frame), n) := by
  obtain ⟨buffer, hbuffer⟩ := BufferList.toBuffer_of_single hsingle
  rw [recvFrame, broughtDatagram, carriedDatagram, hbuffer]
  split_ifs with haddressed hIPv4 harp
  · dsimp only
    split
    · rfl
    · rfl
  · rw [arpMessage, if_pos haddressed, carriedMessage, if_pos harp, hbuffer] at h
    dsimp only at h ⊢
    split at h
    · exact nomatch h
    · rfl
  · rfl
  · rfl

theorem recvFrame_spec {frame : EthernetFrame}
    (hsingle : frame.payload.buffers.length ≤ 1)
    (hok : ∀ p ∈ n.pendingDatagrams, ∃ payload, p.2.serialize = .ok payload) :
    ∃ result n', n.recvFrame frame = (.ok result, n') ∧ RecvOutcome n frame n' := by
  cases hmessage : n.arpMessage frame with
  | none =>
      refine ⟨_, n, recvFrame_quiet hsingle hmessage, .nothing fun m hm => ?_⟩
      rw [resolved_iff.mp hm] at hmessage
      exact nomatch hmessage
  | some m =>
      obtain ⟨frames, hframes, heq⟩ :=
        recvArp_spec m fun dgram hdgram => hok _ (mem_of_iff.mp hdgram)
      exact ⟨none, _, (recvFrame_message hmessage).trans heq, .learned m frames (n.replies m)
        (resolved_iff.mpr hmessage) hframes fun reply hreply => replies_type hreply⟩

end NetworkInterface

/-! ## An interface and its history -/

/-- A call of the interface, or the owner taking a frame out of `frames_out()`. -/
inductive Op where
  | sendDatagram (dgram : IPv4Datagram) (nextHop : BitVec 32)
  | recvFrame (frame : EthernetFrame)
  | tick (ms : Nat)
  | transmit
deriving DecidableEq

/-- The datagram can be written, and the payload of a frame is in one piece. -/
def Op.WellFormed : Op → Prop
  | .sendDatagram dgram _ => dgram.WellFormed
  | .recvFrame frame => frame.payload.buffers.length ≤ 1
  | .tick _ => True
  | .transmit => True

instance : ∀ op : Op, Decidable op.WellFormed
  | .sendDatagram dgram _ => inferInstanceAs (Decidable dgram.WellFormed)
  | .recvFrame frame => inferInstanceAs (Decidable (frame.payload.buffers.length ≤ 1))
  | .tick _ => isTrue trivial
  | .transmit => isTrue trivial

structure Link where
  iface : NetworkInterface
  /-- what was passed to `send_datagram`, by next hop -/
  sent : List (BitVec 32 × IPv4Datagram)
  /-- every IPv4 frame that was put into `frames_out()`, by the next hop it is for -/
  emitted : List (BitVec 32 × EthernetFrame)
deriving DecidableEq

def start (ethernetAddress : EthernetAddress) (ipAddress : BitVec 32) : Link :=
  ⟨{ ethernetAddress := ethernetAddress, ipAddress := ipAddress }, [], []⟩

/-- The interface changes in a call that is about the address `ip`; the IPv4 frames it
    put into `frames_out()` are for that next hop. -/
def Link.become (x : Link) (ip : BitVec 32) (n : NetworkInterface) : Link :=
  { x with
    iface := n
    emitted := x.emitted
      ++ ((n.framesOut.drop x.iface.framesOut.length).filter fun frame =>
        frame.header.type = EthernetHeader.typeIPv4).map (ip, ·) }

/-- The address a received frame gives a mapping for. -/
def mappedAddress (frame : EthernetFrame) : BitVec 32 :=
  match frame.payload.toBuffer with
  | .error _ => 0
  | .ok buffer => (ARPMessage.parse {} buffer).2.senderIpAddress

/-- One step.  It is not enabled where the code raises. -/
def step (x : Link) : Op → Option Link
  | .sendDatagram dgram nextHop =>
      match x.iface.sendDatagram dgram nextHop with
      | (.error _, _) => none
      | (.ok (), n) =>
          some { x.become nextHop n with sent := x.sent ++ [(nextHop, dgram)] }
  | .recvFrame frame =>
      match x.iface.recvFrame frame with
      | (.error _, _) => none
      | (.ok _, n) => some (x.become (mappedAddress frame) n)
  | .tick ms => some { x with iface := x.iface.tick ms }
  | .transmit => some
      { x with iface := { x.iface with framesOut := x.iface.framesOut.tail } }

/-! ## The interface holds back by next hop -/

/-- The frame is the datagram, written down. -/
def Carries (frame : EthernetFrame) (dgram : IPv4Datagram) : Prop :=
  frame.header.type = EthernetHeader.typeIPv4 ∧ dgram.serialize = .ok frame.payload

/-- **THE REFINEMENT**: the link is in the state `q` of a queue that holds datagrams
    back, and no address with a mapping has one waiting. -/
structure Refines (x : Link) (q : Held (BitVec 32) IPv4Datagram) : Prop where
  came : x.sent = q.came
  waiting : x.iface.pendingDatagrams = q.waiting
  gone : List.Forall₂ (fun p d => p.1 = d.1 ∧ Carries p.2 d.2) x.emitted q.gone
  inOrder : q.InOrder
  free : ∀ ip ∈ x.iface.arpCache, of ip x.iface.pendingDatagrams = []
  writable : ∀ p ∈ x.iface.pendingDatagrams, ∃ payload, p.2.serialize = .ok payload

theorem refines_start (ethernetAddress : EthernetAddress) (ipAddress : BitVec 32) :
    Refines (start ethernetAddress ipAddress) .empty where
  came := rfl
  waiting := rfl
  gone := .nil
  inOrder := Held.inOrder_empty
  free := fun _ _ => rfl
  writable := fun _ hp => nomatch hp

section Steps

variable {x y : Link} {q : Held (BitVec 32) IPv4Datagram} {n : NetworkInterface}
  {ip : BitVec 32}

/-- What a call emits, when it puts IPv4 frames and then ARP frames into
    `frames_out()`. -/
theorem become_emitted (x : Link) (ip : BitVec 32) (n : NetworkInterface)
    (frames arps : List EthernetFrame)
    (hout : n.framesOut = x.iface.framesOut ++ (frames ++ arps))
    (hframes : ∀ frame ∈ frames, frame.header.type = EthernetHeader.typeIPv4)
    (harps : ∀ frame ∈ arps, frame.header.type = EthernetHeader.typeARP) :
    (x.become ip n).emitted = x.emitted ++ frames.map (ip, ·) := by
  have hkeep : frames.filter (fun frame =>
      frame.header.type = EthernetHeader.typeIPv4) = frames :=
    List.filter_eq_self.mpr fun frame hframe => decide_eq_true (hframes frame hframe)
  have hdrop : arps.filter (fun frame =>
      frame.header.type = EthernetHeader.typeIPv4) = [] := by
    refine List.filter_eq_nil_iff.mpr fun frame hframe => ?_
    rw [harps frame hframe]
    decide
  show x.emitted ++ ((n.framesOut.drop x.iface.framesOut.length).filter _).map _ = _
  rw [hout, List.drop_left, List.filter_append, hkeep, hdrop, List.append_nil]

theorem encapsulates_carries {dst : EthernetAddress} {frame : EthernetFrame}
    {dgram : IPv4Datagram} (h : n.Encapsulates dst frame dgram) : Carries frame dgram := by
  obtain ⟨payload, hpayload, rfl⟩ := h
  exact ⟨rfl, hpayload⟩

/-- Frames that carry a list of datagrams to one next hop. -/
theorem forall₂_carries (ip : BitVec 32) {dst : EthernetAddress}
    {frames : List EthernetFrame} {dgrams : List IPv4Datagram}
    (h : List.Forall₂ (n.Encapsulates dst) frames dgrams) :
    (∀ frame ∈ frames, frame.header.type = EthernetHeader.typeIPv4)
      ∧ List.Forall₂ (fun p d => p.1 = d.1 ∧ Carries p.2 d.2)
        (frames.map (ip, ·)) (dgrams.map (ip, ·)) := by
  induction h with
  | nil => exact ⟨(fun _ h => nomatch h), .nil⟩
  | @cons frame dgram frames dgrams head _ ih =>
      obtain ⟨htypes, hcarries⟩ := ih
      have hhead := encapsulates_carries head
      refine ⟨?_, .cons ⟨rfl, hhead⟩ hcarries⟩
      intro f hf
      rcases List.mem_cons.mp hf with rfl | hf
      · exact hhead.1
      · exact htypes f hf

/-- The datagram leaves at once. -/
theorem refines_pass (h : Refines x q) {dgram : IPv4Datagram} {dst : EthernetAddress}
    {frame : EthernetFrame} (hknown : ip ∈ x.iface.arpCache)
    (hcarries : x.iface.Encapsulates dst frame dgram) :
    Refines { x.become ip (x.iface.emplace frame) with sent := x.sent ++ [(ip, dgram)] }
      (q.pass ip dgram) := by
  have hframe := encapsulates_carries hcarries
  have hone : ∀ f ∈ [frame], f.header.type = EthernetHeader.typeIPv4 := by
    intro f hf
    rw [List.mem_singleton.mp hf]
    exact hframe.1
  have hemitted := become_emitted x ip (x.iface.emplace frame) [frame] [] rfl hone
    (fun _ hf => nomatch hf)
  refine ⟨?_, h.waiting, ?_, h.inOrder.pass ?_ dgram, h.free, h.writable⟩
  · show x.sent ++ [(ip, dgram)] = q.came ++ [(ip, dgram)]
    rw [h.came]
  · show List.Forall₂ _ (x.become ip (x.iface.emplace frame)).emitted _
    rw [hemitted]
    exact List.rel_append h.gone (.cons ⟨rfl, hframe⟩ .nil)
  · rw [← h.waiting]
    exact h.free ip hknown

/-- The datagram waits; nothing but ARP frames goes out. -/
theorem refines_hold (h : Refines x q) {dgram : IPv4Datagram} {arps : List EthernetFrame}
    (hwritable : ∃ payload, dgram.serialize = .ok payload) (hunknown : ip ∉ x.iface.arpCache)
    (hcache : n.arpCache = x.iface.arpCache)
    (hpending : n.pendingDatagrams = x.iface.pendingDatagrams ++ [(ip, dgram)])
    (hout : n.framesOut = x.iface.framesOut ++ arps)
    (harps : ∀ frame ∈ arps, frame.header.type = EthernetHeader.typeARP) :
    Refines { x.become ip n with sent := x.sent ++ [(ip, dgram)] } (q.hold ip dgram) := by
  have hemitted := become_emitted x ip n [] arps hout (fun _ hf => nomatch hf) harps
  refine ⟨?_, ?_, ?_, h.inOrder.hold ip dgram, ?_, ?_⟩
  · show x.sent ++ [(ip, dgram)] = q.came ++ [(ip, dgram)]
    rw [h.came]
  · show n.pendingDatagrams = q.waiting ++ [(ip, dgram)]
    rw [hpending, h.waiting]
  · show List.Forall₂ _ (x.become ip n).emitted _
    rw [hemitted, List.map_nil, List.append_nil]
    exact h.gone
  · show ∀ j ∈ n.arpCache, of j n.pendingDatagrams = []
    rw [hcache, hpending]
    intro j hj
    have hne : ip ≠ j := by
      rintro rfl
      exact hunknown hj
    rw [of_append, h.free j hj, of_cons_ne hne]
    rfl
  · show ∀ p ∈ n.pendingDatagrams, _
    rw [hpending]
    intro p hp
    rcases List.mem_append.mp hp with hp | hp
    · exact h.writable p hp
    · rw [List.mem_singleton.mp hp]
      exact hwritable

/-- A mapping releases what waited for it. -/
theorem refines_release (h : Refines x q) {m : ARPMessage}
    {frames replies : List EthernetFrame}
    (hframes : List.Forall₂ (x.iface.Encapsulates m.senderEthernetAddress) frames
      (of m.senderIpAddress x.iface.pendingDatagrams))
    (hreplies : ∀ reply ∈ replies, reply.header.type = EthernetHeader.typeARP) :
    Refines (x.become m.senderIpAddress
        { x.iface.learn m with
          framesOut := x.iface.framesOut ++ (frames ++ replies)
          pendingDatagrams := without m.senderIpAddress x.iface.pendingDatagrams })
      (q.release m.senderIpAddress) := by
  obtain ⟨htypes, hcarries⟩ := forall₂_carries m.senderIpAddress hframes
  have hemitted := become_emitted x m.senderIpAddress
    { x.iface.learn m with
      framesOut := x.iface.framesOut ++ (frames ++ replies)
      pendingDatagrams := without m.senderIpAddress x.iface.pendingDatagrams }
    frames replies rfl htypes hreplies
  refine ⟨h.came, ?_, ?_, h.inOrder.release _, ?_, ?_⟩
  · show without _ x.iface.pendingDatagrams = without _ q.waiting
    rw [h.waiting]
  · rw [hemitted]
    refine List.rel_append h.gone ?_
    rw [← h.waiting]
    exact hcarries
  · intro j hj
    show of j (without m.senderIpAddress x.iface.pendingDatagrams) = []
    by_cases hsender : m.senderIpAddress = j
    · rw [hsender, of_without_self]
    · rw [of_without_ne hsender]
      rcases (AList.mem_insert _).mp hj with heq | hold
      · exact absurd heq.symm hsender
      · exact h.free j hold
  · intro p hp
    exact h.writable p (List.mem_of_mem_filter hp)

/-- **EVERY CALL REFINES** a step of the queue, and none raises. -/
theorem step_refines (h : ∃ q, Refines x q) {op : Op} (hop : op.WellFormed) :
    ∃ y, step x op = some y ∧ ∃ q, Refines y q := by
  obtain ⟨q, h⟩ := h
  cases op with
  | sendDatagram dgram ip =>
      have hwritable := IPv4Datagram.WellFormed.serialize_ok hop
      obtain ⟨n, hn, houtcome⟩ :=
        NetworkInterface.sendDatagram_spec x.iface ip hwritable
      refine ⟨{ x.become ip n with sent := x.sent ++ [(ip, dgram)] }, ?_, ?_⟩
      · rw [step, hn]
      · cases houtcome with
        | left entry frame cached carries =>
            have hknown : ip ∈ x.iface.arpCache :=
              AList.lookup_isSome.mp (Option.isSome_iff_exists.mpr ⟨entry, cached⟩)
            exact ⟨_, refines_pass h hknown carries⟩
        | asked bytes unknown due =>
            refine ⟨_, refines_hold h hwritable (AList.lookup_eq_none.mp unknown) rfl rfl rfl ?_⟩
            intro frame hframe
            rw [List.mem_singleton.mp hframe]
            rfl
        | waited unknown early =>
            exact ⟨_, refines_hold h hwritable (AList.lookup_eq_none.mp unknown) rfl rfl
              (List.append_nil _).symm (fun _ hframe => nomatch hframe)⟩
  | recvFrame frame =>
      obtain ⟨result, n, hn, houtcome⟩ := NetworkInterface.recvFrame_spec hop h.writable
      refine ⟨x.become (mappedAddress frame) n, ?_, ?_⟩
      · rw [step, hn]
      · cases houtcome with
        | nothing _ =>
            have hemitted := become_emitted x (mappedAddress frame) x.iface [] []
              (List.append_nil _).symm (fun _ hf => nomatch hf) (fun _ hf => nomatch hf)
            refine ⟨q, h.came, h.waiting, ?_, h.inOrder, h.free, h.writable⟩
            rw [hemitted, List.map_nil, List.append_nil]
            exact h.gone
        | learned m frames replies resolved carries arp =>
            obtain ⟨-, -, buffer, hbuffer, hparse⟩ := resolved
            have hmapped : mappedAddress frame = m.senderIpAddress := by
              rw [mappedAddress, hbuffer]
              dsimp only
              rw [hparse]
            rw [hmapped]
            exact ⟨_, refines_release h carries arp⟩
  | tick ms =>
      refine ⟨_, rfl, q, h.came, h.waiting, h.gone, h.inOrder, ?_, h.writable⟩
      intro ip hip
      exact h.free ip (mem_of_mem_retain hip)
  | transmit => exact ⟨_, rfl, q, h.came, h.waiting, h.gone, h.inOrder, h.free, h.writable⟩

end Steps

/-- **DELIVERED ONCE AND IN ORDER**: no call raises, and after any calls, of every next
    hop the datagrams that were emitted and then those that wait are the datagrams that
    were sent; no address with a mapping has one waiting. -/
theorem delivers_in_order (ethernetAddress : EthernetAddress) (ipAddress : BitVec 32)
    (ops : List Op) (hops : ∀ op ∈ ops, op.WellFormed) :
    ∃ x, run step (start ethernetAddress ipAddress) ops = some x
      ∧ (∀ ip, ∃ done, List.Forall₂ Carries (of ip x.emitted) done
        ∧ done ++ of ip x.iface.pendingDatagrams = of ip x.sent)
      ∧ ∀ ip ∈ x.iface.arpCache, of ip x.iface.pendingDatagrams = [] := by
  obtain ⟨x, hrun, q, hq⟩ := run_total (I := fun x => ∃ q, Refines x q) (G := Op.WellFormed)
    (fun _ _ h hop => step_refines h hop) ops _ ⟨_, refines_start ethernetAddress ipAddress⟩
    hops
  refine ⟨x, hrun, fun ip => ?_, hq.free⟩
  refine ⟨of ip q.gone, forall₂_of hq.gone ip, ?_⟩
  rw [hq.waiting, hq.came]
  exact hq.inOrder ip

/-- A datagram without payload. -/
def emptyDatagram (id : BitVec 16) : IPv4Datagram := { header := { len := 20, id := id } }

/-- An ARP reply from the address 2, to everyone. -/
def replyFromTwo : EthernetFrame where
  header := { dst := ethernetBroadcast, type := EthernetHeader.typeARP }
  payload := .ofString
    [0, 1, 8, 0, 6, 4, 0, 2, 7, 7, 7, 7, 7, 7, 0, 0, 0, 2, 0, 0, 0, 0, 0, 0, 0, 0, 0, 1]

/-- Two datagrams wait for the same next hop, one for another; the reply lets the two
    go. -/
theorem delivers_in_order_after_reply :
    ∃ x, run step (start (.replicate 6 1) 1)
        [.sendDatagram (emptyDatagram 1) 2, .sendDatagram (emptyDatagram 2) 3,
          .sendDatagram (emptyDatagram 3) 2, .recvFrame replyFromTwo] = some x
      ∧ (of 2 x.emitted).length = 2 ∧ (of 3 x.emitted).length = 0
      ∧ ∀ ip, ∃ done, List.Forall₂ Carries (of ip x.emitted) done
        ∧ done ++ of ip x.iface.pendingDatagrams = of ip x.sent := by
  have hreach : ∃ x, run step (start (.replicate 6 1) 1)
        [.sendDatagram (emptyDatagram 1) 2, .sendDatagram (emptyDatagram 2) 3,
          .sendDatagram (emptyDatagram 3) 2, .recvFrame replyFromTwo] = some x
      ∧ (of 2 x.emitted).length = 2 ∧ (of 3 x.emitted).length = 0 := run_reaches (by decide)
  obtain ⟨x, hrun, htwo, hthree⟩ := hreach
  obtain ⟨y, hrun', hdelivers, -⟩ := delivers_in_order (.replicate 6 1) 1
    [.sendDatagram (emptyDatagram 1) 2, .sendDatagram (emptyDatagram 2) 3,
      .sendDatagram (emptyDatagram 3) 2, .recvFrame replyFromTwo] (by decide)
  obtain rfl := Option.some.inj (hrun.symm.trans hrun')
  exact ⟨x, hrun, htwo, hthree, hdelivers⟩

end SpongeInterface
