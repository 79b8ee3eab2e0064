import Mathlib.Algebra.Ring.Nat
import Sponge.InterfaceProofs

/-! # Address resolution, one address at a time — `network_interface`

    What the interface does about one address depends on nothing but that address: the
    mapping it has, when it last asked, and what waits.  `Host` is this machine for one
    address, over a clock that does not wrap.  As long as the interface's clock does not
    wrap either, the interface is all these machines side by side: one step of it, seen
    at one address, is a step of the machine (`step_view`), and so is a run (`run_view`).

    What is said about an address over a run is then an invariant of the machine:

    * the IPv4 frames logged there carry what was sent to that next hop (`CarriesSent`);
    * IPv4 frames go to the address heard last, and at most thirty seconds after it
      (`fresh_and_latest`);
    * requests are more than five seconds apart, and go out when it is time
      (`requests_apart`);
    * what is done about other addresses can be left out (`mappings_independent`). -/

namespace SpongeResolution

open SpongeByteStream SpongeBuffer SpongeParser SpongeIPv4 SpongeEthernet SpongeInterface
open NetworkInterface Keyed RunRule Word64

/-! ## A link that is watched -/

/-- What happens about an address: a message of it is heard, or a frame for it put into
    `frames_out()`. -/
inductive Event where
  | heard (m : ARPMessage) (time : Nat)
  | emitted (frame : EthernetFrame) (time : Nat)
deriving DecidableEq

structure Watch where
  iface : NetworkInterface
  /-- the milliseconds since the start -/
  clock : Nat := 0
  /-- what happened, each with the address it is about -/
  log : List (BitVec 32 × Event) := []
deriving DecidableEq

def Watch.start (ethernetAddress : EthernetAddress) (ipAddress : BitVec 32) : Watch :=
  { iface := { ethernetAddress := ethernetAddress, ipAddress := ipAddress } }

/-- The message that a frame brings is heard. -/
def Watch.note (x : Watch) (frame : EthernetFrame) : Watch :=
  match x.iface.arpMessage frame with
  | none => x
  | some m => { x with log := x.log ++ [(m.senderIpAddress, .heard m x.clock)] }

/-- The interface changes in a call about the address `ip`; so are the frames that the
    call put into `frames_out()`. -/
def Watch.record (x : Watch) (ip : BitVec 32) (n : NetworkInterface) : Watch :=
  { x with
    iface := n
    log := x.log ++ ((n.framesOut.drop x.iface.framesOut.length).map
      (Event.emitted · x.clock)).map fun event => (ip, event) }

/-- One step.  It is not enabled where the code raises. -/
def Watch.step (x : Watch) : Op → Option Watch
  | .sendDatagram dgram nextHop =>
      match x.iface.sendDatagram dgram nextHop with
      | (.error _, _) => none
      | (.ok (), n) => some (x.record nextHop n)
  | .recvFrame frame =>
      match x.iface.recvFrame frame with
      | (.error _, _) => none
      | (.ok _, n) => some ((x.note frame).record (mappedAddress frame) n)
  | .tick ms => some { x with clock := x.clock + ms, iface := x.iface.tick ms }
  | .transmit => some
      { x with iface := { x.iface with framesOut := x.iface.framesOut.tail } }

/-- The time that a call lets pass. -/
def elapsed : Op → Nat
  | .tick ms => ms
  | _ => 0

def totalTime (ops : List Op) : Nat := (ops.map elapsed).sum

/-! ## One address -/

/-- What the interface knows of one address, and what happened about it. -/
@[ext] structure Host where
  /-- the interface; of it only the two addresses matter -/
  self : NetworkInterface
  address : BitVec 32
  mapping : Option (EthernetAddress × Nat)
  asked : Option Nat
  waiting : List IPv4Datagram
  clock : Nat
  events : List Event

namespace Host

def emit (h : Host) (frames : List EthernetFrame) : Host :=
  { h with events := h.events ++ frames.map (Event.emitted · h.clock) }

/-- The last request is more than five seconds ago. -/
def due (h : Host) : Prop := ∀ t ∈ h.asked, t + 5000 < h.clock

instance (h : Host) : Decidable h.due := inferInstanceAs (Decidable (∀ t ∈ h.asked, _))

/-- A datagram is sent to the address. -/
def send (h : Host) (dgram : IPv4Datagram) : Host :=
  match h.mapping with
  | some entry => h.emit [h.self.datagramFrame entry.1 dgram]
  | none =>
      if h.due then
        { h.emit [h.self.requestFrame h.address] with
          asked := some h.clock
          waiting := h.waiting ++ [dgram] }
      else { h with waiting := h.waiting ++ [dgram] }

/-- A message of the address is heard. -/
def hear (h : Host) (m : ARPMessage) : Host :=
  let h := { h with events := h.events ++ [Event.heard m h.clock] }
  { h.emit (h.waiting.map (h.self.datagramFrame m.senderEthernetAddress) ++ h.self.replies m) with
    mapping := some (m.senderEthernetAddress, h.clock)
    asked := none
    waiting := [] }

/-- Time passes; a mapping lasts thirty seconds. -/
def wait (h : Host) (ms : Nat) : Host :=
  { h with
    clock := h.clock + ms
    mapping := h.mapping.filter fun entry => h.clock + ms ≤ entry.2 + 30000 }

def step (h : Host) : Op → Host
  | .sendDatagram dgram nextHop => if nextHop = h.address then h.send dgram else h
  | .recvFrame frame =>
      match h.self.arpMessage frame with
      | none => h
      | some m => if m.senderIpAddress = h.address then h.hear m else h
  | .tick ms => h.wait ms
  | .transmit => h

/-- **WHAT SENDING DOES**: the datagram leaves, or it waits, with a request or without. -/
theorem send_cases (h : Host) (dgram : IPv4Datagram) :
    (∃ entry, h.mapping = some entry
        ∧ h.send dgram = h.emit [h.self.datagramFrame entry.1 dgram])
      ∨ (h.mapping = none ∧ h.due ∧ h.send dgram
        = { h.emit [h.self.requestFrame h.address] with
            asked := some h.clock
            waiting := h.waiting ++ [dgram] })
      ∨ (h.mapping = none ∧ h.send dgram = { h with waiting := h.waiting ++ [dgram] }) := by
  cases hmapping : h.mapping with
  | some entry => exact Or.inl ⟨entry, rfl, by simp only [send, hmapping]⟩
  | none =>
      by_cases hdue : h.due
      · exact Or.inr (Or.inl ⟨rfl, hdue, by simp only [send, hmapping, if_pos hdue]⟩)
      · exact Or.inr (Or.inr ⟨rfl, by simp only [send, hmapping, if_neg hdue]⟩)

/-- **THE INVARIANT RULE OF THE MACHINE**: a step sends, hears a message of the address or
    waits, or does nothing. -/
theorem step_keeps {I : Host → Prop} (hsend : ∀ h dgram, I h → I (send h dgram))
    (hhear : ∀ h m, m.senderIpAddress = h.address → I h → I (hear h m))
    (hwait : ∀ h ms, I h → I (wait h ms)) : ∀ h op, I h → I (step h op) := by
  intro h op hI
  cases op with
  | sendDatagram dgram nextHop =>
      rw [step]
      split_ifs
      · exact hsend h dgram hI
      · exact hI
  | recvFrame frame =>
      rw [step]
      cases h.self.arpMessage frame with
      | none => exact hI
      | some m =>
          dsimp only
          split_ifs with hsender
          · exact hhear h m hsender hI
          · exact hI
  | tick ms => exact hwait h ms hI
  | transmit => exact hI

theorem send_address (h : Host) (dgram : IPv4Datagram) : (h.send dgram).address = h.address := by
  rcases h.send_cases dgram with ⟨_, -, hsend⟩ | ⟨-, -, hsend⟩ | ⟨-, hsend⟩
  · rw [hsend]; rfl
  · rw [hsend]; rfl
  · rw [hsend]

theorem step_address (h : Host) (op : Op) : (h.step op).address = h.address :=
  step_keeps (I := fun h' => h'.address = h.address)
    (fun h' dgram haddress => (send_address h' dgram).trans haddress)
    (fun _ _ _ haddress => haddress) (fun _ _ haddress => haddress) h op rfl

end Host

/-! ## The interface is all of them -/

/-- The link, seen at one address. -/
def Watch.view (x : Watch) (ip : BitVec 32) : Host where
  self := { ethernetAddress := x.iface.ethernetAddress, ipAddress := x.iface.ipAddress }
  address := ip
  mapping := x.iface.arpCache.lookup ip
  asked := x.iface.arpRequestTimeouts.lookup ip
  waiting := of ip x.iface.pendingDatagrams
  clock := x.clock
  events := of ip x.log

/-- The clock has not wrapped, no time is in the future, and what waits can be written. -/
structure Sound (x : Watch) : Prop where
  time : x.iface.currentTime = x.clock
  inTime : x.clock < 2 ^ 64
  mapped : ∀ ip, ∀ entry ∈ x.iface.arpCache.lookup ip, entry.2 ≤ x.clock
  asked : ∀ ip, ∀ t ∈ x.iface.arpRequestTimeouts.lookup ip, t ≤ x.clock
  writable : ∀ p ∈ x.iface.pendingDatagrams, ∃ payload, p.2.serialize = .ok payload

theorem Sound.start (ethernetAddress : EthernetAddress) (ipAddress : BitVec 32) :
    Sound (Watch.start ethernetAddress ipAddress) where
  time := rfl
  inTime := Nat.two_pow_pos 64
  mapped := fun _ _ h => nomatch h
  asked := fun _ _ h => nomatch h
  writable := fun _ h => nomatch h

section Steps

variable {x : Watch} {ip : BitVec 32} {n : NetworkInterface} {frames : List EthernetFrame}

/-- What a call logs. -/
theorem record_log (hout : n.framesOut = x.iface.framesOut ++ frames) :
    (x.record ip n).log
      = x.log ++ (frames.map (Event.emitted · x.clock)).map fun event => (ip, event) := by
  rw [Watch.record, hout, List.drop_left]

/-- A request is due at the address iff it is for the interface. -/
theorem Sound.due_iff (h : Sound x) (ip : BitVec 32) :
    (x.view ip).due ↔ x.iface.requestDue ip = true := by
  rw [requestDue, h.time, Host.due]
  show (∀ t ∈ x.iface.arpRequestTimeouts.lookup ip, t + 5000 < x.clock) ↔ _
  cases hasked : x.iface.arpRequestTimeouts.lookup ip with
  | none => simp
  | some t =>
      have hle := h.asked ip t hasked
      have hlt := h.inTime
      dsimp only
      rw [sub64_of_le hle (by omega)]
      simp
      omega

/-- A call is about one address; at any other nothing is seen of it. -/
theorem view_record_ne {j : BitVec 32} (hj : ip ≠ j)
    (haddr : n.ethernetAddress = x.iface.ethernetAddress ∧ n.ipAddress = x.iface.ipAddress)
    (hcache : n.arpCache.lookup j = x.iface.arpCache.lookup j)
    (hasked : n.arpRequestTimeouts.lookup j = x.iface.arpRequestTimeouts.lookup j)
    (hpending : of j n.pendingDatagrams = of j x.iface.pendingDatagrams) :
    (x.record ip n).view j = x.view j := by
  have hlog : of j (x.record ip n).log = of j x.log := by
    rw [Watch.record, of_append, Held.of_release_ne hj, List.append_nil]
  exact Host.ext (by rw [Watch.view, Watch.view, Watch.record, haddr.1, haddr.2]) rfl hcache hasked
    hpending rfl hlog

/-- At its own it is seen whole. -/
theorem record_log_self (hout : n.framesOut = x.iface.framesOut ++ frames) :
    of ip (x.record ip n).log = of ip x.log ++ frames.map (Event.emitted · x.clock) := by
  rw [record_log hout, of_append, Held.of_release_self]

/-- **A DATAGRAM IS SENT**, seen at one address. -/
theorem send_view (h : Sound x) (ip : BitVec 32) {dgram : IPv4Datagram}
    (hdgram : ∃ payload, dgram.serialize = .ok payload) :
    ∃ n, x.iface.sendDatagram dgram ip = (.ok (), n) ∧ Sound (x.record ip n)
      ∧ ∀ j, (x.record ip n).view j
        = if ip = j then (x.view j).send dgram else x.view j := by
  cases hcache : x.iface.arpCache.lookup ip with
  | some entry =>
      refine ⟨_, sendDatagram_known hcache hdgram, ?_, ?_⟩
      · exact ⟨h.time, h.inTime, h.mapped, h.asked, h.writable⟩
      · intro j
        split_ifs with hj
        · subst hj
          have hmapping : (x.view ip).mapping = some entry := hcache
          rw [Host.send, hmapping]
          exact Host.ext rfl rfl rfl rfl rfl rfl (record_log_self rfl)
        · exact view_record_ne hj ⟨rfl, rfl⟩ rfl rfl rfl
  | none =>
      have hmapping : (x.view ip).mapping = none := hcache
      have hwritable : ∀ p ∈ x.iface.pendingDatagrams ++ [(ip, dgram)],
          ∃ payload, p.2.serialize = .ok payload := by
        intro p hp
        rcases List.mem_append.mp hp with hp | hp
        · exact h.writable p hp
        · rw [List.mem_singleton.mp hp]
          exact hdgram
      cases hdue : x.iface.requestDue ip with
      | true =>
          refine ⟨_, sendDatagram_due hcache hdue, ?_, ?_⟩
          · exact ⟨h.time, h.inTime, h.mapped, forall_lookup_insert h.asked (Nat.le_of_eq h.time),
              hwritable⟩
          · intro j
            split_ifs with hj
            · subst hj
              rw [Host.send, hmapping]
              dsimp only
              rw [if_pos ((h.due_iff ip).mpr hdue)]
              refine Host.ext rfl rfl rfl ?_ of_concat_self rfl (record_log_self rfl)
              show (x.iface.arpRequestTimeouts.insert ip x.iface.currentTime).lookup ip = _
              rw [AList.lookup_insert, h.time]
              rfl
            · exact view_record_ne hj ⟨rfl, rfl⟩ rfl (AList.lookup_insert_ne (Ne.symm hj))
                (of_concat_ne hj)
      | false =>
          refine ⟨_, sendDatagram_early hcache hdue, ?_, ?_⟩
          · exact ⟨h.time, h.inTime, h.mapped, h.asked, hwritable⟩
          · intro j
            split_ifs with hj
            · subst hj
              have hearly : ¬ (x.view ip).due := by
                rw [h.due_iff, hdue]
                exact Bool.false_ne_true
              rw [Host.send, hmapping]
              dsimp only
              rw [if_neg hearly]
              refine Host.ext rfl rfl hcache rfl of_concat_self rfl ?_
              have hout : x.iface.framesOut = x.iface.framesOut ++ [] := (List.append_nil _).symm
              exact (record_log_self hout).trans (List.append_nil _)
            · exact view_record_ne hj ⟨rfl, rfl⟩ rfl rfl (of_concat_ne hj)

/-- **A MESSAGE IS HEARD**, seen at one address. -/
theorem hear_view (h : Sound x) {frame : EthernetFrame} {m : ARPMessage}
    (hmessage : x.iface.arpMessage frame = some m) :
    ∃ n, x.iface.recvFrame frame = (.ok none, n)
      ∧ Sound ((x.note frame).record (mappedAddress frame) n)
      ∧ ∀ j, ((x.note frame).record (mappedAddress frame) n).view j
        = if m.senderIpAddress = j then (x.view j).hear m else x.view j := by
  have hmapped : mappedAddress frame = m.senderIpAddress := by
    obtain ⟨-, -, buffer, hbuffer, hparse⟩ := resolved_iff.mpr hmessage
    rw [mappedAddress, hbuffer]
    dsimp only
    rw [hparse]
  have hnote : x.note frame
      = { x with log := x.log ++ [(m.senderIpAddress, .heard m x.clock)] } := by
    rw [Watch.note, hmessage]
  have hwritable : ∀ dgram ∈ of m.senderIpAddress x.iface.pendingDatagrams,
      ∃ payload, dgram.serialize = .ok payload :=
    fun _ hdgram => h.writable _ (mem_of_iff.mp hdgram)
  refine ⟨_, (recvFrame_message hmessage).trans (recvArp_eq m hwritable), ?_, ?_⟩
  · rw [hnote]
    refine ⟨h.time, h.inTime, ?_, forall_lookup_erase m.senderIpAddress h.asked, ?_⟩
    · exact forall_lookup_insert h.mapped (Nat.le_of_eq h.time)
    · intro p hp
      exact h.writable p (List.mem_of_mem_filter hp)
  · intro j
    rw [hmapped, hnote]
    split_ifs with hj
    · subst hj
      refine Host.ext rfl rfl ?_ ?_ ?_ rfl ?_
      · show (x.iface.arpCache.insert m.senderIpAddress
          (m.senderEthernetAddress, x.iface.currentTime)).lookup m.senderIpAddress = _
        rw [AList.lookup_insert, h.time]
        rfl
      · exact AList.lookup_erase _ _
      · exact of_without_self
      · refine (record_log_self rfl).trans ?_
        rw [of_concat_self]
        rfl
    · refine (view_record_ne hj ?_ ?_ ?_ ?_).trans ?_
      · exact ⟨rfl, rfl⟩
      · exact AList.lookup_insert_ne (Ne.symm hj)
      · exact AList.lookup_erase_ne (Ne.symm hj)
      · exact of_without_ne hj
      · refine Host.ext rfl rfl rfl rfl rfl rfl ?_
        exact of_concat_ne hj

/-- Time passes, seen at one address. -/
theorem wait_view (h : Sound x) {ms : Nat} (htime : x.clock + ms < 2 ^ 64) :
    Sound { x with clock := x.clock + ms, iface := x.iface.tick ms }
      ∧ ∀ j, Watch.view { x with clock := x.clock + ms, iface := x.iface.tick ms } j
        = (x.view j).wait ms := by
  have hnow : (x.iface.currentTime + ms) % 2 ^ 64 = x.clock + ms := by
    rw [h.time, Nat.mod_eq_of_lt htime]
  have hcache : ∀ j, (x.iface.tick ms).arpCache.lookup j
      = (x.iface.arpCache.lookup j).filter fun entry => x.clock + ms ≤ entry.2 + 30000 := by
    intro j
    refine Option.ext fun entry => ?_
    refine mem_lookup_retain.trans (Iff.trans ?_ Option.mem_filter_iff.symm)
    refine and_congr_right fun hentry => ?_
    have hle := h.mapped j entry hentry
    have hage : sub64 ((x.iface.currentTime + ms) % 2 ^ 64) entry.2 = x.clock + ms - entry.2 := by
      rw [hnow, sub64_of_le (by omega) (by omega)]
    dsimp only
    rw [hage]
    simp
    omega
  refine ⟨⟨hnow, htime, ?_, ?_, h.writable⟩, ?_⟩
  · intro j entry hentry
    rw [hcache, Option.mem_filter_iff] at hentry
    exact Nat.le_trans (h.mapped j entry hentry.1) (Nat.le_add_right _ _)
  · intro j t ht
    exact Nat.le_trans (h.asked j t ht) (Nat.le_add_right _ _)
  · intro j
    exact Host.ext rfl rfl (hcache j) rfl rfl rfl rfl

/-- **ONE STEP**: it goes through, and at every address it is a step of the machine. -/
theorem step_view (h : Sound x) {op : Op} (hop : op.WellFormed)
    (htime : x.clock + elapsed op < 2 ^ 64) :
    ∃ y, x.step op = some y ∧ Sound y ∧ y.clock = x.clock + elapsed op
      ∧ ∀ j, y.view j = (x.view j).step op := by
  cases op with
  | sendDatagram dgram ip =>
      obtain ⟨n, hsend, hsound, hview⟩ :=
        send_view h ip (IPv4Datagram.WellFormed.serialize_ok hop)
      refine ⟨x.record ip n, ?_, hsound, rfl, hview⟩
      rw [Watch.step, hsend]
  | recvFrame frame =>
      cases hmessage : x.iface.arpMessage frame with
      | none =>
          have hquiet := recvFrame_quiet hop hmessage
          have hnote : x.note frame = x := by
            rw [Watch.note, hmessage]
          have hrecord : ∀ ip, x.record ip x.iface = x := by
            intro ip
            rw [Watch.record, List.drop_length]
            exact congrArg (fun log => { x with log := log }) (List.append_nil _)
          refine ⟨x, ?_, h, rfl, ?_⟩
          · rw [Watch.step, hquiet]
            dsimp only
            rw [hnote, hrecord]
          · intro j
            rw [Host.step, show (x.view j).self.arpMessage frame = none from hmessage]
      | some m =>
          obtain ⟨n, hrecv, hsound, hview⟩ := hear_view h hmessage
          refine ⟨_, ?_, hsound, ?_, ?_⟩
          · rw [Watch.step, hrecv]
          · show (x.note frame).clock = x.clock
            rw [Watch.note, hmessage]
          · intro j
            rw [hview, Host.step, show (x.view j).self.arpMessage frame = some m from hmessage]
            rfl
  | tick ms =>
      obtain ⟨hsound, hview⟩ := wait_view h htime
      exact ⟨_, rfl, hsound, rfl, hview⟩
  | transmit =>
      exact ⟨_, rfl, ⟨h.time, h.inTime, h.mapped, h.asked, h.writable⟩, rfl, fun _ => rfl⟩

/-- **A RUN**, seen at every address, is a run of the machine. -/
theorem run_view : ∀ (ops : List Op) (x : Watch), Sound x → (∀ op ∈ ops, op.WellFormed) →
    x.clock + totalTime ops < 2 ^ 64 →
    ∃ y, run Watch.step x ops = some y ∧ Sound y
      ∧ ∀ j, y.view j = ops.foldl Host.step (x.view j) := by
  intro ops
  induction ops with
  | nil =>
      intro x hsound _ _
      exact ⟨x, rfl, hsound, fun _ => rfl⟩
  | cons op ops ih =>
      intro x hsound hops htime
      rw [totalTime, List.map_cons, List.sum_cons, ← totalTime] at htime
      obtain ⟨y, hstep, hy, hclock, hview⟩ :=
        step_view hsound (hops op (List.mem_cons_self ..)) (by omega)
      obtain ⟨z, hrun, hz, hviews⟩ :=
        ih y hy (fun o ho => hops o (List.mem_cons_of_mem op ho)) (by rw [hclock]; omega)
      refine ⟨z, ?_, hz, ?_⟩
      · rw [run, hstep]
        exact hrun
      · intro j
        rw [hviews, hview, List.foldl_cons]

end Steps

/-- What is seen at an address at the start. -/
def Host.fresh (ethernetAddress : EthernetAddress) (ipAddress ip : BitVec 32) : Host :=
  (Watch.start ethernetAddress ipAddress).view ip

/-- What sending, hearing and waiting keep holds at every address after any calls. -/
theorem view_invariant {I : Host → Prop} (ethernetAddress : EthernetAddress)
    (ipAddress : BitVec 32) (hstart : ∀ ip, I (Host.fresh ethernetAddress ipAddress ip))
    (hsend : ∀ h dgram, I h → I (Host.send h dgram))
    (hhear : ∀ h m, m.senderIpAddress = h.address → I h → I (Host.hear h m))
    (hwait : ∀ h ms, I h → I (Host.wait h ms)) {ops : List Op}
    (hops : ∀ op ∈ ops, op.WellFormed) (htime : totalTime ops < 2 ^ 64) :
    ∃ x, run Watch.step (Watch.start ethernetAddress ipAddress) ops = some x ∧ Sound x
      ∧ (∀ ip, x.view ip = ops.foldl Host.step (Host.fresh ethernetAddress ipAddress ip))
      ∧ ∀ ip, I (x.view ip) := by
  obtain ⟨x, hrun, hsound, hview⟩ := run_view ops _ (Sound.start ethernetAddress ipAddress) hops
    (by rw [show (Watch.start ethernetAddress ipAddress).clock = 0 from rfl]; omega)
  refine ⟨x, hrun, hsound, hview, fun ip => ?_⟩
  rw [hview]
  exact List.foldlRecOn ops Host.step (hstart ip) fun h hI op _ =>
    Host.step_keeps hsend hhear hwait h op hI

/-! ## What the frames carry -/

/-- The frame that is emitted. -/
def Event.frame : Event → Option EthernetFrame
  | .heard _ _ => none
  | .emitted frame _ => some frame

/-- The IPv4 frames that were emitted. -/
def datagramFrames (events : List Event) : List EthernetFrame :=
  (events.filterMap Event.frame).filter fun frame =>
    frame.header.type = EthernetHeader.typeIPv4

/-- The datagrams that a run passes to `send_datagram` for a next hop. -/
def sentTo (ip : BitVec 32) (ops : List Op) : List IPv4Datagram :=
  ops.filterMap fun
    | .sendDatagram dgram nextHop => if nextHop = ip then some dgram else none
    | _ => none

theorem sentTo_send (ip nextHop : BitVec 32) (dgram : IPv4Datagram) :
    sentTo ip [.sendDatagram dgram nextHop] = if nextHop = ip then [dgram] else [] := by
  rw [sentTo]
  split_ifs with hhere
  · simp [hhere]
  · simp [hhere]

/-- **FRAMES CARRY WHAT WAS SENT TO THEIR NEXT HOP**: at every address, the datagrams in
    the IPv4 frames logged there and then those that wait are the datagrams that were sent
    to that next hop, in order. -/
def CarriesSent (ops : List Op) (x : Watch) : Prop :=
  ∀ ip, ∃ done, List.Forall₂ Carries (datagramFrames (of ip x.log)) done
    ∧ done ++ of ip x.iface.pendingDatagrams = sentTo ip ops

/-- The same of one address, with what keeps it: nothing waits for a known address. -/
structure Relays (sent : List IPv4Datagram) (h : Host) : Prop where
  carried : ∃ done, List.Forall₂ Carries (datagramFrames h.events) done
    ∧ done ++ h.waiting = sent
  writable : ∀ dgram ∈ h.waiting, ∃ payload, dgram.serialize = .ok payload
  free : h.mapping ≠ none → h.waiting = []

section Relaying

variable {h : Host} {sent : List IPv4Datagram} {dgram : IPv4Datagram}

theorem datagramFrames_emitted (events : List Event) (frames : List EthernetFrame) (time : Nat) :
    datagramFrames (events ++ frames.map (Event.emitted · time))
      = datagramFrames events
        ++ frames.filter fun frame => frame.header.type = EthernetHeader.typeIPv4 := by
  have hframes : (frames.map (Event.emitted · time)).filterMap Event.frame = frames := by
    rw [List.filterMap_map]
    exact List.filterMap_some
  rw [datagramFrames, List.filterMap_append, hframes, List.filter_append, datagramFrames]

theorem datagramFrames_heard (events : List Event) (m : ARPMessage) (time : Nat) :
    datagramFrames (events ++ [.heard m time]) = datagramFrames events := by
  simp [datagramFrames, Event.frame]

/-- ARP frames carry no datagram. -/
theorem datagramFrames_arp (events : List Event) {frames : List EthernetFrame} (time : Nat)
    (harp : ∀ frame ∈ frames, frame.header.type = EthernetHeader.typeARP) :
    datagramFrames (events ++ frames.map (Event.emitted · time)) = datagramFrames events := by
  have hnone : (frames.filter fun frame => frame.header.type = EthernetHeader.typeIPv4) = [] := by
    refine List.filter_eq_nil_iff.mpr fun frame hframe => ?_
    rw [harp frame hframe]
    decide
  rw [datagramFrames_emitted, hnone, List.append_nil]

/-- Datagrams leave in their frames. -/
theorem datagramFrames_sent (events : List Event) (n : NetworkInterface) (dst : EthernetAddress)
    (dgrams : List IPv4Datagram) (time : Nat) :
    datagramFrames (events ++ (dgrams.map (n.datagramFrame dst)).map (Event.emitted · time))
      = datagramFrames events ++ dgrams.map (n.datagramFrame dst) := by
  have hall : ((dgrams.map (n.datagramFrame dst)).filter fun frame =>
      frame.header.type = EthernetHeader.typeIPv4) = dgrams.map (n.datagramFrame dst) := by
    refine List.filter_eq_self.mpr fun frame hframe => ?_
    obtain ⟨dgram, -, rfl⟩ := List.mem_map.mp hframe
    rfl
  rw [datagramFrames_emitted, hall]

theorem carries_datagramFrames (n : NetworkInterface) (dst : EthernetAddress)
    {dgrams : List IPv4Datagram}
    (hwritable : ∀ dgram ∈ dgrams, ∃ payload, dgram.serialize = .ok payload) :
    List.Forall₂ Carries (dgrams.map (n.datagramFrame dst)) dgrams := by
  rw [List.forall₂_map_left_iff, List.forall₂_same]
  exact fun dgram hdgram =>
    encapsulates_carries ((encapsulates_iff (hwritable dgram hdgram)).mpr rfl)

namespace Relays

theorem start (ethernetAddress : EthernetAddress) (ipAddress ip : BitVec 32) :
    Relays [] (Host.fresh ethernetAddress ipAddress ip) :=
  ⟨⟨[], .nil, rfl⟩, fun _ hdgram => absurd hdgram List.not_mem_nil, fun _ => rfl⟩

theorem send (hrelays : Relays sent h) (hdgram : ∃ payload, dgram.serialize = .ok payload) :
    Relays (sent ++ [dgram]) (h.send dgram) := by
  obtain ⟨done, hcarried, hdone⟩ := hrelays.carried
  have hwritable : ∀ d ∈ h.waiting ++ [dgram], ∃ payload, d.serialize = .ok payload := by
    intro d hd
    rcases List.mem_append.mp hd with hd | hd
    · exact hrelays.writable d hd
    · rw [List.mem_singleton.mp hd]
      exact hdgram
  have hwaits : done ++ (h.waiting ++ [dgram]) = sent ++ [dgram] := by
    rw [← hdone, List.append_assoc]
  rcases h.send_cases dgram with ⟨entry, hmapping, heq⟩ | ⟨hmapping, -, heq⟩ | ⟨hmapping, heq⟩
  · rw [heq]
    have hfree := hrelays.free (by rw [hmapping]; exact Option.some_ne_none entry)
    refine ⟨⟨done ++ [dgram], ?_, ?_⟩, hrelays.writable, hrelays.free⟩
    · show List.Forall₂ _ (datagramFrames (h.events ++ _)) _
      rw [show [h.self.datagramFrame entry.1 dgram] = [dgram].map (h.self.datagramFrame entry.1)
        from rfl, datagramFrames_sent]
      refine List.rel_append hcarried (carries_datagramFrames _ _ fun d hd => ?_)
      rw [List.mem_singleton.mp hd]
      exact hdgram
    · show done ++ [dgram] ++ h.waiting = _
      rw [← hdone, hfree, List.append_nil, List.append_nil]
  · rw [heq]
    refine ⟨⟨done, ?_, hwaits⟩, hwritable, fun hsome => absurd hmapping hsome⟩
    show List.Forall₂ _ (datagramFrames (h.events ++ _)) _
    rw [datagramFrames_arp _ _ fun frame hframe => by rw [List.mem_singleton.mp hframe]; rfl]
    exact hcarried
  · rw [heq]
    exact ⟨⟨done, hcarried, hwaits⟩, hwritable, fun hsome => absurd hmapping hsome⟩

theorem hear (hrelays : Relays sent h) (m : ARPMessage) : Relays sent (h.hear m) := by
  obtain ⟨done, hcarried, hdone⟩ := hrelays.carried
  refine ⟨⟨done ++ h.waiting, ?_, ?_⟩, fun _ hd => absurd hd List.not_mem_nil, fun _ => rfl⟩
  · show List.Forall₂ _ (datagramFrames (h.events ++ [Event.heard m h.clock] ++ _)) _
    rw [List.map_append, ← List.append_assoc, datagramFrames_arp _ _ fun _ => replies_type,
      datagramFrames_sent, datagramFrames_heard]
    exact List.rel_append hcarried (carries_datagramFrames _ _ hrelays.writable)
  · rw [hdone]
    exact List.append_nil sent

theorem wait (hrelays : Relays sent h) (ms : Nat) : Relays sent (h.wait ms) := by
  refine ⟨hrelays.carried, hrelays.writable, fun hsome => hrelays.free fun hnone => hsome ?_⟩
  show h.mapping.filter _ = none
  rw [hnone]
  rfl

/-- **ONE STEP** of the machine. -/
theorem step (hrelays : Relays sent h) {op : Op} (hop : op.WellFormed) :
    Relays (sent ++ sentTo h.address [op]) (h.step op) := by
  cases op with
  | sendDatagram dgram nextHop =>
      rw [Host.step, sentTo_send]
      split_ifs
      · exact hrelays.send (IPv4Datagram.WellFormed.serialize_ok hop)
      · rw [List.append_nil]
        exact hrelays
  | recvFrame frame =>
      rw [show sentTo h.address [.recvFrame frame] = [] from rfl, List.append_nil, Host.step]
      cases h.self.arpMessage frame with
      | none => exact hrelays
      | some m =>
          dsimp only
          split_ifs
          · exact hrelays.hear m
          · exact hrelays
  | tick ms =>
      rw [show sentTo h.address [.tick ms] = [] from rfl, List.append_nil]
      exact hrelays.wait ms
  | transmit =>
      rw [show sentTo h.address [.transmit] = [] from rfl, List.append_nil]
      exact hrelays

/-- **A RUN** of the machine. -/
theorem run (ops : List Op) : ∀ {h : Host} {sent : List IPv4Datagram}, Relays sent h →
    (∀ op ∈ ops, op.WellFormed) →
    Relays (sent ++ sentTo h.address ops) (ops.foldl Host.step h) := by
  induction ops with
  | nil =>
      intro h sent hrelays _
      rw [sentTo, List.filterMap_nil, List.append_nil]
      exact hrelays
  | cons op ops ih =>
      intro h sent hrelays hops
      have hnext := ih (hrelays.step (hops op (List.mem_cons_self ..)))
        fun o ho => hops o (List.mem_cons_of_mem op ho)
      rw [Host.step_address, List.append_assoc, sentTo, sentTo, ← List.filterMap_append] at hnext
      exact hnext

end Relays

end Relaying

/-- **A RUN** of the interface: its frames carry what was sent. -/
theorem carriesSent_of_view {ethernetAddress : EthernetAddress} {ipAddress : BitVec 32}
    {ops : List Op} {x : Watch} (hops : ∀ op ∈ ops, op.WellFormed)
    (hview : ∀ j, x.view j = ops.foldl Host.step (Host.fresh ethernetAddress ipAddress j)) :
    CarriesSent ops x := by
  intro ip
  have hrelays := (Relays.start ethernetAddress ipAddress ip).run ops hops
  rw [← hview] at hrelays
  exact hrelays.carried

/-! ## Fresh mappings, of the latest message -/

/-- The message that is heard, and when. -/
def Event.message : Event → Option (ARPMessage × Nat)
  | .heard m time => some (m, time)
  | .emitted _ _ => none

/-- The message heard last. -/
def latest (events : List Event) : Option (ARPMessage × Nat) :=
  (events.filterMap Event.message).getLast?

@[simp] theorem latest_heard (events : List Event) (m : ARPMessage) (time : Nat) :
    latest (events ++ [.heard m time]) = some (m, time) := by
  simp [latest, Event.message]

@[simp] theorem latest_emitted (events : List Event) (frames : List EthernetFrame) (time : Nat) :
    latest (events ++ frames.map (Event.emitted · time)) = latest events := by
  have hnone : (frames.map (Event.emitted · time)).filterMap Event.message = [] := by
    rw [List.filterMap_map]
    exact List.filterMap_eq_nil_iff.mpr fun _ _ => rfl
  rw [latest, List.filterMap_append, hnone, List.append_nil, latest]

/-- An IPv4 frame goes to the address in the message heard last, at most thirty seconds
    ago. -/
def GoesToLatest (pre : List Event) (event : Event) : Prop :=
  ∀ frame time, event = .emitted frame time → frame.header.type = EthernetHeader.typeIPv4 →
    ∃ m heard, latest pre = some (m, heard) ∧ frame.header.dst = m.senderEthernetAddress
      ∧ heard ≤ time ∧ time ≤ heard + 30000

/-- The mapping that the latest message gives. -/
def Host.current (h : Host) : Option (EthernetAddress × Nat) :=
  (latest h.events).bind fun p =>
    if h.clock ≤ p.2 + 30000 then some (p.1.senderEthernetAddress, p.2) else none

structure Fresh (h : Host) : Prop where
  mapping : h.mapping = h.current
  past : ∀ p ∈ latest h.events, p.2 ≤ h.clock
  emitted : AtEach GoesToLatest h.events

namespace Fresh

variable {h : Host}

/-- Frames are emitted: IPv4 frames to the address in the latest message. -/
theorem emit (hfresh : Fresh h) {frames : List EthernetFrame}
    (hframes : ∀ frame ∈ frames, GoesToLatest h.events (.emitted frame h.clock)) :
    Fresh (h.emit frames) := by
  have hlatest : latest (h.emit frames).events = latest h.events := latest_emitted ..
  refine ⟨?_, ?_, hfresh.emitted.append ?_⟩
  · rw [Host.current, hlatest]
    exact hfresh.mapping
  · rw [hlatest]
    exact hfresh.past
  · rintro pre a post hsplit frame time rfl hIPv4
    -- what is emitted in the same call does not change what was heard
    obtain ⟨before, rest, rfl, rfl, hrest⟩ := List.map_eq_append_iff.mp hsplit
    obtain ⟨frame', after, rfl, hframe, -⟩ := List.map_eq_cons_iff.mp hrest
    obtain ⟨rfl, rfl⟩ := Event.emitted.inj hframe
    rw [latest_emitted]
    exact hframes frame' (by simp) frame' _ rfl hIPv4

theorem start (ethernetAddress : EthernetAddress) (ipAddress ip : BitVec 32) :
    Fresh (Host.fresh ethernetAddress ipAddress ip) where
  mapping := rfl
  past := fun _ hp => nomatch hp
  emitted := atEach_nil _

/-- With a mapping, the latest message gave it. -/
theorem latest_of_mapping (hfresh : Fresh h) {entry : EthernetAddress × Nat}
    (hentry : h.mapping = some entry) :
    ∃ m, latest h.events = some (m, entry.2) ∧ entry.1 = m.senderEthernetAddress
      ∧ entry.2 ≤ h.clock ∧ h.clock ≤ entry.2 + 30000 := by
  rw [hfresh.mapping, Host.current, Option.bind_eq_some_iff] at hentry
  obtain ⟨⟨m, heard⟩, hlatest, hgives⟩ := hentry
  split_ifs at hgives with hage
  obtain rfl := Option.some.inj hgives
  exact ⟨m, hlatest, rfl, hfresh.past _ hlatest, hage⟩

/-- ARP frames are not spoken about. -/
theorem goesToLatest_of_arp (events : List Event) {frame : EthernetFrame} (time : Nat)
    (harp : frame.header.type = EthernetHeader.typeARP) :
    GoesToLatest events (.emitted frame time) := by
  rintro frame' time' hframe hIPv4
  obtain ⟨rfl, rfl⟩ := Event.emitted.inj hframe
  exact absurd (harp.symm.trans hIPv4) (by decide)

/-- A frame to the address in a message heard in time. -/
theorem goesToLatest_of_heard {events : List Event} {m : ARPMessage} {heard time : Nat}
    {n : NetworkInterface} {dgram : IPv4Datagram} (hlatest : latest events = some (m, heard))
    (hle : heard ≤ time) (hage : time ≤ heard + 30000) :
    GoesToLatest events (.emitted (n.datagramFrame m.senderEthernetAddress dgram) time) := by
  rintro frame' time' hframe -
  obtain ⟨rfl, rfl⟩ := Event.emitted.inj hframe
  exact ⟨m, heard, hlatest, rfl, hle, hage⟩

theorem send (hfresh : Fresh h) (dgram : IPv4Datagram) : Fresh (h.send dgram) := by
  rcases h.send_cases dgram with ⟨entry, hmapping, heq⟩ | ⟨-, -, heq⟩ | ⟨-, heq⟩
  · rw [heq]
    obtain ⟨m, hlatest, haddress, hle, hage⟩ := hfresh.latest_of_mapping hmapping
    refine hfresh.emit fun frame hframe => ?_
    rw [List.mem_singleton.mp hframe, haddress]
    exact goesToLatest_of_heard hlatest hle hage
  · rw [heq]
    have hemit : Fresh (h.emit [h.self.requestFrame h.address]) := by
      refine hfresh.emit fun frame hframe => ?_
      rw [List.mem_singleton.mp hframe]
      exact goesToLatest_of_arp _ _ rfl
    exact ⟨hemit.mapping, hemit.past, hemit.emitted⟩
  · rw [heq]
    exact ⟨hfresh.mapping, hfresh.past, hfresh.emitted⟩

theorem hear (hfresh : Fresh h) (m : ARPMessage) : Fresh (h.hear m) := by
  -- the message first, then what it lets go
  have hheard : Fresh
      { h with
        events := h.events ++ [Event.heard m h.clock]
        mapping := some (m.senderEthernetAddress, h.clock) } := by
    refine ⟨?_, ?_, hfresh.emitted.concat ?_⟩
    · simp [Host.current]
    · simp
    · rintro frame time hframe
      exact nomatch hframe
  have hgo : ∀ frame ∈ h.waiting.map (h.self.datagramFrame m.senderEthernetAddress)
        ++ h.self.replies m,
      GoesToLatest (h.events ++ [Event.heard m h.clock]) (.emitted frame h.clock) := by
    intro frame hframe
    rcases List.mem_append.mp hframe with hdgram | hreply
    · obtain ⟨dgram, -, rfl⟩ := List.mem_map.mp hdgram
      exact goesToLatest_of_heard (latest_heard ..) (Nat.le_refl _) (Nat.le_add_right _ _)
    · exact goesToLatest_of_arp _ _ (replies_type hreply)
  have hemit := hheard.emit hgo
  exact ⟨hemit.mapping, hemit.past, hemit.emitted⟩

theorem wait (hfresh : Fresh h) (ms : Nat) : Fresh (h.wait ms) := by
  refine ⟨?_, ?_, hfresh.emitted⟩
  · show h.mapping.filter _ = _
    rw [hfresh.mapping, Host.current, Host.current]
    show _ = (latest h.events).bind _
    cases latest h.events with
    | none => rfl
    | some p =>
        by_cases hnew : h.clock + ms ≤ p.2 + 30000
        · have hold : h.clock ≤ p.2 + 30000 := by omega
          simp [Host.wait, hold, hnew]
        · have hlate := Nat.lt_of_not_le hnew
          by_cases hold : h.clock ≤ p.2 + 30000
          · simp [Host.wait, hold, hnew, hlate]
          · simp [Host.wait, hold, hnew]
  · intro p hp
    exact Nat.le_trans (hfresh.past p hp) (Nat.le_add_right _ _)

end Fresh

/-- **IPv4 FRAMES GO TO A FRESH ADDRESS, LEARNED LAST**: every IPv4 frame for a next hop,
    that is, with a datagram that was sent to it, goes to the address in the latest message
    of it, heard at most thirty seconds before; and as long as such a message is not older,
    a datagram leaves at once and alone. -/
theorem fresh_and_latest (ethernetAddress : EthernetAddress) (ipAddress : BitVec 32)
    (ops : List Op) (hops : ∀ op ∈ ops, op.WellFormed) (htime : totalTime ops < 2 ^ 64) :
    ∃ x, run Watch.step (Watch.start ethernetAddress ipAddress) ops = some x
      ∧ CarriesSent ops x
      ∧ (∀ ip pre frame time post, of ip x.log = pre ++ .emitted frame time :: post →
        frame.header.type = EthernetHeader.typeIPv4 →
        ∃ m heard, latest pre = some (m, heard) ∧ frame.header.dst = m.senderEthernetAddress
          ∧ heard ≤ time ∧ time ≤ heard + 30000)
      ∧ ∀ ip m heard, latest (of ip x.log) = some (m, heard) → x.clock ≤ heard + 30000 →
        ∀ dgram : IPv4Datagram, dgram.WellFormed →
          ∃ frame, x.iface.sendDatagram dgram ip = (.ok (), x.iface.emplace frame)
            ∧ x.iface.Encapsulates m.senderEthernetAddress frame dgram := by
  obtain ⟨x, hrun, -, hview, hfresh⟩ := view_invariant ethernetAddress ipAddress
    (Fresh.start ethernetAddress ipAddress) (fun _ dgram h => h.send dgram)
    (fun _ m _ h => h.hear m) (fun _ ms h => h.wait ms) hops htime
  refine ⟨x, hrun, carriesSent_of_view hops hview, ?_, ?_⟩
  · intro ip pre frame time post hsplit hIPv4
    exact (hfresh ip).emitted pre _ post hsplit frame time rfl hIPv4
  · intro ip m heard hlatest hage dgram hdgram
    have hwritable := hdgram.serialize_ok
    have hcache : x.iface.arpCache.lookup ip = some (m.senderEthernetAddress, heard) := by
      refine (hfresh ip).mapping.trans ?_
      show (latest (of ip x.log)).bind _ = _
      rw [hlatest]
      exact if_pos hage
    exact ⟨_, sendDatagram_known hcache hwritable, (encapsulates_iff hwritable).mpr rfl⟩

/-- A reply is heard; the datagram that waited for it goes where it says. -/
theorem fresh_and_latest_after_reply :
    ∃ x, run Watch.step (Watch.start (.replicate 6 1) 1)
        [.sendDatagram (emptyDatagram 1) 2, .tick 100, .recvFrame replyFromTwo, .tick 30000]
        = some x
      ∧ (of 2 x.log).length = 3 ∧ x.clock = 30100
      ∧ ∀ pre frame time post, of 2 x.log = pre ++ .emitted frame time :: post →
        frame.header.type = EthernetHeader.typeIPv4 →
        ∃ m heard, latest pre = some (m, heard) ∧ frame.header.dst = m.senderEthernetAddress
          ∧ heard ≤ time ∧ time ≤ heard + 30000 := by
  have hreach : ∃ x, run Watch.step (Watch.start (.replicate 6 1) 1)
        [.sendDatagram (emptyDatagram 1) 2, .tick 100, .recvFrame replyFromTwo, .tick 30000]
        = some x
      ∧ (of 2 x.log).length = 3 ∧ x.clock = 30100 := run_reaches (by decide)
  obtain ⟨x, hrun, hlog, hclock⟩ := hreach
  obtain ⟨y, hrun', -, hlatest, -⟩ := fresh_and_latest (.replicate 6 1) 1
    [.sendDatagram (emptyDatagram 1) 2, .tick 100, .recvFrame replyFromTwo, .tick 30000]
    (by decide) (by decide)
  obtain rfl := Option.some.inj (hrun.symm.trans hrun')
  exact ⟨x, hrun, hlog, hclock, hlatest 2⟩

/-! ## Requests -/

/-- The frame asks everyone for the address. -/
def asksFor (ip : BitVec 32) (frame : EthernetFrame) : Prop :=
  frame.header.dst = ethernetBroadcast
    ∧ ∃ m ∈ carriedMessage frame, m.opcode = ARPMessage.opcodeRequest ∧ m.targetIpAddress = ip

instance (ip : BitVec 32) (frame : EthernetFrame) : Decidable (asksFor ip frame) :=
  inferInstanceAs (Decidable (_ ∧ _))

/-- When the address was asked for, if that is what happened. -/
def requestTime (ip : BitVec 32) : Event → Option Nat
  | .heard _ _ => none
  | .emitted frame time => if asksFor ip frame then some time else none

/-- When the address was asked for. -/
def requests (ip : BitVec 32) (log : List (BitVec 32 × Event)) : List Nat :=
  log.filterMap fun p => requestTime ip p.2

theorem carriedMessage_messageFrame (n : NetworkInterface) (dst : EthernetAddress)
    {m : ARPMessage} (hm : m.supported = true) :
    carriedMessage (n.messageFrame dst m) = some m :=
  carriedMessage_eq_some_iff.mpr
    ⟨rfl, .ofString m.fieldBytes, rfl, ARPMessage.parse_serialize hm {} rfl⟩

/-- The interface's request for an address asks for that address. -/
theorem asksFor_requestFrame_iff (n : NetworkInterface) (ip j : BitVec 32) :
    asksFor j (n.requestFrame ip) ↔ ip = j := by
  have hcarried : carriedMessage (n.requestFrame ip) = some (n.arpRequest ip) :=
    carriedMessage_messageFrame n _ rfl
  constructor
  · rintro ⟨-, m, hm, -, htarget⟩
    rw [hcarried, Option.mem_some_iff] at hm
    rw [← htarget, ← hm]
    rfl
  · rintro rfl
    exact ⟨rfl, n.arpRequest ip, hcarried, rfl, rfl⟩

theorem not_asksFor_datagramFrame (n : NetworkInterface) (dst : EthernetAddress)
    (dgram : IPv4Datagram) (j : BitVec 32) : ¬ asksFor j (n.datagramFrame dst dgram) := by
  rintro ⟨-, m, hm, -⟩
  have harp := (carriedMessage_eq_some_iff.mp hm).1
  exact absurd harp (show EthernetHeader.typeIPv4 ≠ EthernetHeader.typeARP by decide)

theorem not_asksFor_replies {n : NetworkInterface} {m : ARPMessage} {reply : EthernetFrame}
    (h : reply ∈ n.replies m) (j : BitVec 32) : ¬ asksFor j reply := by
  rw [replies] at h
  split_ifs at h
  · rw [List.mem_singleton.mp h]
    rintro ⟨-, m', hm', hopcode, -⟩
    rw [carriedMessage_messageFrame n _ rfl, Option.mem_some_iff] at hm'
    rw [← hm'] at hopcode
    exact absurd hopcode (show ARPMessage.opcodeReply ≠ ARPMessage.opcodeRequest by decide)
  · exact absurd h List.not_mem_nil

/-- When the host was asked for. -/
def Host.requests (h : Host) (ip : BitVec 32) : List Nat := h.events.filterMap (requestTime ip)

/-- **WHY REQUESTS STAY APART**: after each one a time is noted until the host is heard of,
    and a mapping then lasts much longer. -/
structure Apart (h : Host) : Prop where
  apart : (h.requests h.address).Pairwise fun s t => s + 5000 < t
  noted : ∀ t ∈ h.requests h.address,
    t ≤ h.clock ∧ ((∃ a ∈ h.asked, t ≤ a) ∨ (∃ entry ∈ h.mapping, t ≤ entry.2)
      ∨ t + 30000 < h.clock)
  asked : ∀ a ∈ h.asked, a ∈ h.requests h.address
  own : ∀ ip ≠ h.address, h.requests ip = []

namespace Apart

variable {h : Host}

theorem requests_emit_of_not_asksFor {frames : List EthernetFrame} {ip : BitVec 32}
    (hframes : ∀ frame ∈ frames, ¬ asksFor ip frame) :
    (h.emit frames).requests ip = h.requests ip := by
  have hnone : (frames.map (Event.emitted · h.clock)).filterMap (requestTime ip) = [] := by
    rw [List.filterMap_map]
    exact List.filterMap_eq_nil_iff.mpr fun frame hframe => if_neg (hframes frame hframe)
  show (h.events ++ _).filterMap (requestTime ip) = _
  rw [List.filterMap_append, hnone, List.append_nil, Host.requests]

/-- Frames that ask for nothing are emitted. -/
theorem emit (hapart : Apart h) {frames : List EthernetFrame}
    (hframes : ∀ frame ∈ frames, ∀ ip, ¬ asksFor ip frame) : Apart (h.emit frames) := by
  have hsame : ∀ ip, (h.emit frames).requests ip = h.requests ip :=
    fun ip => requests_emit_of_not_asksFor fun frame hframe => hframes frame hframe ip
  have hown : (h.emit frames).requests (h.emit frames).address = h.requests h.address :=
    hsame h.address
  refine ⟨?_, ?_, ?_, ?_⟩
  · rw [hown]
    exact hapart.apart
  · rw [hown]
    exact hapart.noted
  · rw [hown]
    exact hapart.asked
  · intro ip hip
    rw [hsame]
    exact hapart.own ip hip

theorem requests_emit_request (h : Host) :
    (h.emit [h.self.requestFrame h.address]).requests h.address
      = h.requests h.address ++ [h.clock] := by
  have hasks := (asksFor_requestFrame_iff h.self h.address h.address).mpr rfl
  show (h.events ++ _).filterMap (requestTime h.address) = _
  rw [List.filterMap_append, Host.requests]
  simp [requestTime, hasks]

theorem start (ethernetAddress : EthernetAddress) (ipAddress ip : BitVec 32) :
    Apart (Host.fresh ethernetAddress ipAddress ip) where
  apart := .nil
  noted := fun _ ht => nomatch ht
  asked := fun _ ha => nomatch ha
  own := fun _ _ => rfl

/-- Without a mapping and with a request due, the earlier requests are long ago. -/
theorem before_clock (hapart : Apart h) (hmapping : h.mapping = none) (hdue : h.due) :
    ∀ t ∈ h.requests h.address, t + 5000 < h.clock := by
  intro t ht
  rcases (hapart.noted t ht).2 with ⟨a, ha, hle⟩ | ⟨entry, hentry, -⟩ | hlate
  · have hago := hdue a ha
    omega
  · rw [hmapping] at hentry
    exact nomatch hentry
  · omega

theorem send (hapart : Apart h) (dgram : IPv4Datagram) : Apart (h.send dgram) := by
  rcases h.send_cases dgram with ⟨entry, -, heq⟩ | ⟨hmapping, hdue, heq⟩ | ⟨-, heq⟩
  · rw [heq]
    refine hapart.emit fun frame hframe ip => ?_
    rw [List.mem_singleton.mp hframe]
    exact not_asksFor_datagramFrame _ _ _ ip
  · rw [heq]
    have hmore := requests_emit_request h
    have hother : ∀ ip ≠ h.address,
        (h.emit [h.self.requestFrame h.address]).requests ip = h.requests ip := by
      intro ip hip
      refine requests_emit_of_not_asksFor fun frame hframe hasks => ?_
      rw [List.mem_singleton.mp hframe, asksFor_requestFrame_iff] at hasks
      exact hip hasks.symm
    refine ⟨?_, ?_, ?_, ?_⟩
    · show ((h.emit _).requests h.address).Pairwise _
      rw [hmore]
      refine List.pairwise_append.mpr ⟨hapart.apart, List.pairwise_singleton _ _, ?_⟩
      intro s hs t ht
      rw [List.mem_singleton.mp ht]
      exact hapart.before_clock hmapping hdue s hs
    · show ∀ t ∈ (h.emit _).requests h.address, _
      rw [hmore]
      intro t ht
      have hle : t ≤ h.clock := by
        rcases List.mem_append.mp ht with ht | ht
        · exact (hapart.noted t ht).1
        · exact Nat.le_of_eq (List.mem_singleton.mp ht)
      exact ⟨hle, Or.inl ⟨h.clock, rfl, hle⟩⟩
    · rintro a ⟨⟩
      show h.clock ∈ (h.emit _).requests h.address
      rw [hmore]
      simp
    · intro ip hip
      exact (hother ip hip).trans (hapart.own ip hip)
  · rw [heq]
    exact ⟨hapart.apart, hapart.noted, hapart.asked, hapart.own⟩

theorem hear (hapart : Apart h) (m : ARPMessage) : Apart (h.hear m) := by
  -- the message first, then what it lets go
  have hheard : Apart
      { h with
        events := h.events ++ [Event.heard m h.clock]
        mapping := some (m.senderEthernetAddress, h.clock)
        asked := none } := by
    have hsame : ∀ ip, (h.events ++ [Event.heard m h.clock]).filterMap (requestTime ip)
        = h.requests ip := by
      intro ip
      simp [Host.requests, requestTime]
    refine ⟨?_, ?_, fun a ha => absurd ha (Option.not_mem_none a), ?_⟩
    · rw [Host.requests, hsame]
      exact hapart.apart
    · intro t ht
      rw [Host.requests, hsame] at ht
      have hle := (hapart.noted t ht).1
      exact ⟨hle, Or.inr (Or.inl ⟨_, rfl, hle⟩)⟩
    · intro ip hip
      rw [Host.requests, hsame]
      exact hapart.own ip hip
  have hask : ∀ frame ∈ h.waiting.map (h.self.datagramFrame m.senderEthernetAddress)
        ++ h.self.replies m, ∀ ip, ¬ asksFor ip frame := by
    intro frame hframe ip
    rcases List.mem_append.mp hframe with hdgram | hreply
    · obtain ⟨dgram, -, rfl⟩ := List.mem_map.mp hdgram
      exact not_asksFor_datagramFrame _ _ _ ip
    · exact not_asksFor_replies hreply ip
  have hemit := hheard.emit hask
  exact ⟨hemit.apart, hemit.noted, hemit.asked, hemit.own⟩

theorem wait (hapart : Apart h) (ms : Nat) : Apart (h.wait ms) := by
  refine ⟨hapart.apart, ?_, hapart.asked, hapart.own⟩
  intro t ht
  obtain ⟨hle, hwhy⟩ := hapart.noted t ht
  show t ≤ h.clock + ms
    ∧ ((∃ a ∈ h.asked, t ≤ a) ∨ (∃ entry ∈ h.mapping.filter _, t ≤ entry.2)
      ∨ t + 30000 < h.clock + ms)
  refine ⟨by omega, ?_⟩
  rcases hwhy with hasked | ⟨entry, hentry, hentryLe⟩ | hlate
  · exact Or.inl hasked
  · -- a mapping that has expired is older than any request
    by_cases hkept : h.clock + ms ≤ entry.2 + 30000
    · refine Or.inr (Or.inl ⟨entry, ?_, hentryLe⟩)
      exact Option.mem_filter_iff.mpr ⟨hentry, decide_eq_true hkept⟩
    · exact Or.inr (Or.inr (by omega))
  · exact Or.inr (Or.inr (by omega))

end Apart

/-- The frames that ask for an address are logged at that address. -/
theorem requests_eq {x : Watch} (hapart : ∀ ip, Apart (x.view ip)) (ip : BitVec 32) :
    requests ip x.log = (x.view ip).requests ip := by
  refine (filterMap_of (f := fun p => requestTime ip p.2) ?_).symm
  rintro ⟨j, event⟩ hmem hj
  have hnone : (of j x.log).filterMap (requestTime ip) = [] := (hapart j).own ip (Ne.symm hj)
  exact List.filterMap_eq_nil_iff.mp hnone event (mem_of_iff.mpr hmem)

/-- **REQUESTS ARE MORE THAN FIVE SECONDS APART**, and a datagram to an address that is
    not known and was not asked for in the last five seconds makes one. -/
theorem requests_apart (ethernetAddress : EthernetAddress) (ipAddress : BitVec 32)
    (ops : List Op) (hops : ∀ op ∈ ops, op.WellFormed) (htime : totalTime ops < 2 ^ 64) :
    ∃ x, run Watch.step (Watch.start ethernetAddress ipAddress) ops = some x
      ∧ ∀ ip, (requests ip x.log).Pairwise (fun s t => s + 5000 < t)
        ∧ (x.iface.arpCache.lookup ip = none →
          (∀ t ∈ requests ip x.log, t + 5000 < x.clock) →
          ∀ dgram : IPv4Datagram, dgram.WellFormed →
            ∃ n frame, x.iface.sendDatagram dgram ip = (.ok (), n)
              ∧ n.framesOut = x.iface.framesOut ++ [frame] ∧ asksFor ip frame) := by
  obtain ⟨x, hrun, hsound, -, hapart⟩ := view_invariant ethernetAddress ipAddress
    (Apart.start ethernetAddress ipAddress) (fun _ dgram h => h.send dgram)
    (fun _ m _ h => h.hear m) (fun _ ms h => h.wait ms) hops htime
  refine ⟨x, hrun, fun ip => ⟨?_, ?_⟩⟩
  · rw [requests_eq hapart]
    exact (hapart ip).apart
  · intro hcache hago dgram hdgram
    rw [requests_eq hapart] at hago
    have hdue : x.iface.requestDue ip = true :=
      (hsound.due_iff ip).mp fun t ht => hago t ((hapart ip).asked t ht)
    refine ⟨_, x.iface.requestFrame ip, sendDatagram_due hcache hdue, rfl, ?_⟩
    exact (asksFor_requestFrame_iff _ _ _).mpr rfl

/-- Three datagrams to an address that never answers, two requests. -/
theorem requests_apart_unanswered :
    ∃ x, run Watch.step (Watch.start (.replicate 6 1) 1)
        [.sendDatagram (emptyDatagram 1) 2, .tick 5000, .sendDatagram (emptyDatagram 2) 2,
          .tick 1, .sendDatagram (emptyDatagram 3) 2] = some x
      ∧ requests 2 x.log = [0, 5001]
      ∧ ∀ ip, (requests ip x.log).Pairwise fun s t => s + 5000 < t := by
  have hreach : ∃ x, run Watch.step (Watch.start (.replicate 6 1) 1)
        [.sendDatagram (emptyDatagram 1) 2, .tick 5000, .sendDatagram (emptyDatagram 2) 2,
          .tick 1, .sendDatagram (emptyDatagram 3) 2] = some x
      ∧ requests 2 x.log = [0, 5001] := run_reaches (by decide)
  obtain ⟨x, hrun, hrequests⟩ := hreach
  obtain ⟨y, hrun', hapart⟩ := requests_apart (.replicate 6 1) 1
    [.sendDatagram (emptyDatagram 1) 2, .tick 5000, .sendDatagram (emptyDatagram 2) 2,
      .tick 1, .sendDatagram (emptyDatagram 3) 2] (by decide) (by decide)
  obtain rfl := Option.some.inj (hrun.symm.trans hrun')
  exact ⟨x, hrun, hrequests, fun ip => (hapart ip).1⟩

/-! ## Independence -/

/-- What is left of a run when the calls about other addresses are taken out: datagrams
    to other next hops, and ARP messages of other senders. -/
def keepFor (ip : BitVec 32) : Op → Bool
  | .sendDatagram _ nextHop => nextHop = ip
  | .recvFrame frame => decide (¬ ∃ m ∈ carriedMessage frame, m.senderIpAddress ≠ ip)
  | .tick _ => true
  | .transmit => true

/-- The frame answers a request of the address. -/
def answers (ip : BitVec 32) (frame : EthernetFrame) : Prop :=
  ∃ m ∈ carriedMessage frame, m.opcode = ARPMessage.opcodeReply ∧ m.targetIpAddress = ip

instance (ip : BitVec 32) (frame : EthernetFrame) : Decidable (answers ip frame) :=
  inferInstanceAs (Decidable (∃ m ∈ carriedMessage frame, _))

/-- An emitted frame that concerns the address, and when: a request for it, a reply to it,
    or an IPv4 frame for that next hop. -/
def concerning (ip : BitVec 32) : BitVec 32 × Event → Option (EthernetFrame × Nat)
  | (_, .heard _ _) => none
  | (nextHop, .emitted frame time) =>
      if asksFor ip frame ∨ answers ip frame
          ∨ (frame.header.type = EthernetHeader.typeIPv4 ∧ nextHop = ip) then
        some (frame, time)
      else none

/-- The frames that concern an address, and when they were emitted. -/
def emissions (ip : BitVec 32) (log : List (BitVec 32 × Event)) : List (EthernetFrame × Nat) :=
  log.filterMap (concerning ip)

theorem not_answers_datagramFrame (n : NetworkInterface) (dst : EthernetAddress)
    (dgram : IPv4Datagram) (j : BitVec 32) : ¬ answers j (n.datagramFrame dst dgram) := by
  rintro ⟨m, hm, -⟩
  have harp := (carriedMessage_eq_some_iff.mp hm).1
  exact absurd harp (show EthernetHeader.typeIPv4 ≠ EthernetHeader.typeARP by decide)

theorem not_answers_requestFrame (n : NetworkInterface) (ip j : BitVec 32) :
    ¬ answers j (n.requestFrame ip) := by
  rintro ⟨m, hm, hopcode, -⟩
  have hcarried : carriedMessage (n.requestFrame ip) = some (n.arpRequest ip) :=
    carriedMessage_messageFrame n _ rfl
  rw [hcarried, Option.mem_some_iff] at hm
  rw [← hm] at hopcode
  exact absurd hopcode (show ARPMessage.opcodeRequest ≠ ARPMessage.opcodeReply by decide)

/-- A reply answers whom it is sent to. -/
theorem eq_of_answers_replies {n : NetworkInterface} {m : ARPMessage} {reply : EthernetFrame}
    {j : BitVec 32} (h : reply ∈ n.replies m) (hj : answers j reply) : m.senderIpAddress = j := by
  rw [replies] at h
  split_ifs at h
  · rw [List.mem_singleton.mp h] at hj
    obtain ⟨m', hm', -, htarget⟩ := hj
    rw [carriedMessage_messageFrame n _ rfl, Option.mem_some_iff] at hm'
    rw [← hm'] at htarget
    exact htarget
  · exact absurd h List.not_mem_nil

/-- **WHAT IS LOGGED AT AN ADDRESS** asks for no other and answers no other. -/
def OnItsOwn (h : Host) : Prop :=
  ∀ frame time, .emitted frame time ∈ h.events →
    ∀ ip ≠ h.address, ¬ asksFor ip frame ∧ ¬ answers ip frame

namespace OnItsOwn

variable {h : Host}

theorem emit (hown : OnItsOwn h) {frames : List EthernetFrame}
    (hframes : ∀ frame ∈ frames, ∀ ip ≠ h.address, ¬ asksFor ip frame ∧ ¬ answers ip frame) :
    OnItsOwn (h.emit frames) := by
  intro frame time hmem
  rcases List.mem_append.mp hmem with hmem | hmem
  · exact hown frame time hmem
  · obtain ⟨frame', hframe, heq⟩ := List.mem_map.mp hmem
    obtain ⟨rfl, rfl⟩ := Event.emitted.inj heq
    exact hframes frame' hframe

theorem start (ethernetAddress : EthernetAddress) (ipAddress ip : BitVec 32) :
    OnItsOwn (Host.fresh ethernetAddress ipAddress ip) :=
  fun _ _ hmem => absurd hmem List.not_mem_nil

theorem send (hown : OnItsOwn h) (dgram : IPv4Datagram) : OnItsOwn (h.send dgram) := by
  rcases h.send_cases dgram with ⟨entry, -, heq⟩ | ⟨-, -, heq⟩ | ⟨-, heq⟩
  · rw [heq]
    refine hown.emit fun frame hframe ip _ => ?_
    rw [List.mem_singleton.mp hframe]
    exact ⟨not_asksFor_datagramFrame _ _ _ ip, not_answers_datagramFrame _ _ _ ip⟩
  · rw [heq]
    refine hown.emit fun frame hframe ip hip => ?_
    rw [List.mem_singleton.mp hframe]
    exact ⟨fun hasks => hip ((asksFor_requestFrame_iff _ _ _).mp hasks).symm,
      not_answers_requestFrame _ _ ip⟩
  · rw [heq]
    exact hown

theorem hear (hown : OnItsOwn h) {m : ARPMessage} (hm : m.senderIpAddress = h.address) :
    OnItsOwn (h.hear m) := by
  have hheard : OnItsOwn { h with events := h.events ++ [Event.heard m h.clock] } := by
    intro frame time hmem
    rcases List.mem_append.mp hmem with hmem | hmem
    · exact hown frame time hmem
    · exact absurd (List.mem_singleton.mp hmem) Event.noConfusion
  refine hheard.emit fun frame hframe ip hip => ?_
  rcases List.mem_append.mp hframe with hdgram | hreply
  · obtain ⟨dgram, -, rfl⟩ := List.mem_map.mp hdgram
    exact ⟨not_asksFor_datagramFrame _ _ _ ip, not_answers_datagramFrame _ _ _ ip⟩
  · exact ⟨not_asksFor_replies hreply ip, fun hanswers =>
      hip ((eq_of_answers_replies hreply hanswers).symm.trans hm)⟩

end OnItsOwn

/-- What concerns an address is logged at that address. -/
theorem emissions_eq {x : Watch} (hown : ∀ ip, OnItsOwn (x.view ip)) (ip : BitVec 32) :
    emissions ip x.log = (of ip x.log).filterMap fun event => concerning ip (ip, event) := by
  refine (filterMap_of ?_).symm
  rintro ⟨j, event⟩ hmem hj
  cases event with
  | heard m time => rfl
  | emitted frame time =>
      obtain ⟨hasks, hanswers⟩ := hown j frame time (mem_of_iff.mpr hmem) ip (Ne.symm hj)
      refine if_neg ?_
      rintro (h | h | ⟨-, h⟩)
      · exact hasks h
      · exact hanswers h
      · exact hj h

/-- What is about other addresses does nothing here. -/
theorem step_of_not_keepFor {h : Host} {op : Op} (hkeep : keepFor h.address op = false) :
    h.step op = h := by
  cases op with
  | sendDatagram dgram nextHop =>
      rw [Host.step]
      exact if_neg (of_decide_eq_false hkeep)
  | recvFrame frame =>
      obtain ⟨m, hm, hsender⟩ := not_not.mp (of_decide_eq_false hkeep)
      rw [Host.step]
      cases hmessage : h.self.arpMessage frame with
      | none => rfl
      | some m' =>
          have hcarried : carriedMessage frame = some m' :=
            carriedMessage_eq_some_iff.mpr (resolved_iff.mpr hmessage).2
          rw [hcarried, Option.mem_some_iff] at hm
          rw [← hm] at hsender
          exact if_neg hsender
  | tick ms => exact nomatch hkeep
  | transmit => exact nomatch hkeep

theorem totalTime_filter_le (keep : Op → Bool) (ops : List Op) :
    totalTime (ops.filter keep) ≤ totalTime ops := by
  induction ops with
  | nil => exact Nat.le_refl _
  | cons op ops ih =>
      rw [totalTime, totalTime] at ih ⊢
      cases hop : keep op with
      | true => simp [hop, ih]
      | false =>
          simp [hop]
          omega

/-- A run, with what its log says: frames carry what was sent to their next hop, and ask
    for and answer the address they are logged at. -/
theorem run_labels (ethernetAddress : EthernetAddress) (ipAddress : BitVec 32) {ops : List Op}
    (hops : ∀ op ∈ ops, op.WellFormed) (htime : totalTime ops < 2 ^ 64) :
    ∃ x, run Watch.step (Watch.start ethernetAddress ipAddress) ops = some x
      ∧ CarriesSent ops x
      ∧ (∀ ip, x.view ip = ops.foldl Host.step (Host.fresh ethernetAddress ipAddress ip))
      ∧ ∀ ip, emissions ip x.log
        = (of ip x.log).filterMap fun event => concerning ip (ip, event) := by
  obtain ⟨x, hrun, -, hview, hown⟩ := view_invariant ethernetAddress ipAddress
    (OnItsOwn.start ethernetAddress ipAddress) (fun _ dgram h => h.send dgram)
    (fun _ _ hm h => h.hear hm) (fun _ _ h => h) hops htime
  exact ⟨x, hrun, carriesSent_of_view hops hview, hview, emissions_eq hown⟩

/-- **MAPPINGS ARE INDEPENDENT**: without the calls about other addresses, the frames that
    concern an address are emitted as with them, at the same times. -/
theorem mappings_independent (ethernetAddress : EthernetAddress) (ipAddress : BitVec 32)
    (ops : List Op) (hops : ∀ op ∈ ops, op.WellFormed) (htime : totalTime ops < 2 ^ 64)
    (ip : BitVec 32) :
    ∃ x y, run Watch.step (Watch.start ethernetAddress ipAddress) ops = some x
      ∧ run Watch.step (Watch.start ethernetAddress ipAddress) (ops.filter (keepFor ip)) = some y
      ∧ CarriesSent ops x ∧ CarriesSent (ops.filter (keepFor ip)) y
      ∧ emissions ip y.log = emissions ip x.log := by
  obtain ⟨x, hx, hxsent, hxview, hxlog⟩ := run_labels ethernetAddress ipAddress hops htime
  obtain ⟨y, hy, hysent, hyview, hylog⟩ := run_labels ethernetAddress ipAddress
    (fun op hop => hops op (List.mem_of_mem_filter hop))
    (Nat.lt_of_le_of_lt (totalTime_filter_le (keepFor ip) ops) htime)
  refine ⟨x, y, hx, hy, hxsent, hysent, ?_⟩
  have hsame : y.view ip = x.view ip := by
    rw [hxview, hyview]
    refine foldl_filter_of_idle (I := fun h => h.address = ip) ?_ ?_ ops _ rfl
    · exact fun h op haddress => (h.step_address op).trans haddress
    · intro h op haddress hkeep
      exact step_of_not_keepFor (by rw [haddress]; exact hkeep)
  have hevents : of ip y.log = of ip x.log := congrArg Host.events hsame
  rw [hxlog, hylog, hevents]

/-- A datagram to another address and a message of a third are taken out. -/
theorem mappings_independent_of_three :
    ∃ x y, run Watch.step (Watch.start (.replicate 6 1) 1)
        [.sendDatagram (emptyDatagram 1) 3, .sendDatagram (emptyDatagram 2) 4,
          .recvFrame replyFromTwo, .tick 6000, .sendDatagram (emptyDatagram 3) 4] = some x
      ∧ run Watch.step (Watch.start (.replicate 6 1) 1)
        [.sendDatagram (emptyDatagram 2) 4, .tick 6000, .sendDatagram (emptyDatagram 3) 4] = some y
      ∧ (emissions 4 x.log).length = 2 ∧ emissions 4 y.log = emissions 4 x.log := by
  have hreach : ∃ x, run Watch.step (Watch.start (.replicate 6 1) 1)
        [.sendDatagram (emptyDatagram 1) 3, .sendDatagram (emptyDatagram 2) 4,
          .recvFrame replyFromTwo, .tick 6000, .sendDatagram (emptyDatagram 3) 4] = some x
      ∧ (emissions 4 x.log).length = 2 := run_reaches (by decide)
  obtain ⟨x, hrun, htwo⟩ := hreach
  obtain ⟨x', y, hx, hy, -, -, hsame⟩ := mappings_independent (.replicate 6 1) 1
    [.sendDatagram (emptyDatagram 1) 3, .sendDatagram (emptyDatagram 2) 4,
      .recvFrame replyFromTwo, .tick 6000, .sendDatagram (emptyDatagram 3) 4]
    (by decide) (by decide) 4
  obtain rfl := Option.some.inj (hrun.symm.trans hx)
  exact ⟨x, y, hrun, hy, htwo, hsame⟩

end SpongeResolution
