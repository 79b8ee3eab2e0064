import Sponge.ChannelProofs
import Sponge.EventLoopProofs
import Sponge.StateProofs

/-! # The socket — `tcp_sponge_socket`

    A connection, an adapter that carries its segments, and one end of a pair of sockets
    whose other end the owner has.  Four rules of an event loop join them: what the adapter
    reads goes to the connection, what the owner writes is written to it, what it has
    assembled is written to the owner, and what it has queued goes to the adapter.  The
    thread waits for events and lets time pass until no rule is interested.

    The callbacks and the rounds of the thread are inverted here, for any kernel and any
    adapter. -/

namespace SpongeSocket

open SpongeByteStream SpongeWrapping SpongeSegment SpongeReceiver SpongeSender SpongeConnection
open SpongeState (TCPState state)
open SpongeDescriptor SpongeEventLoop SpongeAdapter SpongeChannel RaiseRule RunRule

/-- The descriptors of a socket: the owner's end of the pair, the thread's end, and the
    device of the adapter. -/
inductive Fd where
  | owner
  | threadData
  | device
deriving DecidableEq, Repr

/-- `TCPSpongeSocket` once its connection is there. -/
structure TCPSpongeSocket (κ A : Type) where
  world : World κ Fd
  adapter : A
  tcp : TCPConnection
  inboundShutdown : Bool := false
  outboundShutdown : Bool := false
  fullyAcked : Bool := false

/-- The descriptors, for the event loop. -/
def TCPSpongeSocket.fds {κ A : Type} (s : TCPSpongeSocket κ A) : Fd → FDWrapper := s.world.fds

section Socket

variable {κ A : Type} [Popped] (K : Kernel κ Fd) (ad : Adapter κ Fd A)

namespace TCPSpongeSocket

/-- The outbound stream is ended. -/
def endOutbound (s : TCPSpongeSocket κ A) : TCPSpongeSocket κ A :=
  { s with tcp := s.tcp.endInputStream, outboundShutdown := true }

/-- A segment that was read goes to the connection, which may raise. -/
def hear (s : TCPSpongeSocket κ A) : Option TCPSegment → Except String (TCPSpongeSocket κ A)
  | none => .ok s
  | some seg =>
      match s.tcp.segmentReceived seg with
      | none => .error "bad optional access"
      | some tcp => .ok { s with tcp := tcp }

/-- Whether the outbound stream is acknowledged is noted once. -/
def noteAcked (s : TCPSpongeSocket κ A) : TCPSpongeSocket κ A :=
  if (s.world.fds .threadData).eof && s.tcp.sender.bytesInFlight == 0 && !s.fullyAcked then
    { s with fullyAcked := true }
  else s

/-- Rule 1: read from filtered packet stream and dump into the connection. -/
def datagramIn : Rule Fd (TCPSpongeSocket κ A) String where
  fd := .device
  direction := .In
  callback s := do
    let (seg, adapter, world) ← ad.read s.world s.adapter
    let s ← { s with world := world, adapter := adapter }.hear seg
    .ok s.noteAcked
  interest s := s.tcp.active

/-- Rule 2: read from pipe into outbound buffer. -/
def outboundIn : Rule Fd (TCPSpongeSocket κ A) String where
  fd := .threadData
  direction := .In
  callback s := do
    let (data, world) ←
      FileDescriptor.read K s.world .threadData s.tcp.sender.stream.remainingCapacity
    let (amountWritten, tcp) := s.tcp.write data
    if amountWritten ≠ data.length then
      .error "TCPConnection::write() accepted less than advertised length"
    else
      let s := { s with world := world, tcp := tcp }
      if (world.fds .threadData).eof then .ok s.endOutbound else .ok s
  interest s :=
    s.tcp.active && !s.outboundShutdown && decide (s.tcp.sender.stream.remainingCapacity > 0)
  cancel s := .ok s.endOutbound

/-- The most that is written to the owner at once. -/
def maxWrite : Nat := 65536

/-- Rule 3: read from inbound buffer into pipe. -/
def inboundOut : Rule Fd (TCPSpongeSocket κ A) String where
  fd := .threadData
  direction := .Out
  callback s := do
    let inbound := s.tcp.receiver.streamOut
    let amountToWrite := min maxWrite inbound.bufferSize
    let (bytesWritten, world) ←
      FileDescriptor.write K s.world .threadData ⟨[inbound.peekOutput amountToWrite]⟩ false
    let tcp := s.tcp.popInbound bytesWritten
    if tcp.receiver.streamOut.eof || tcp.receiver.streamOut.error then do
      let world ← shutdown K world .threadData .wr
      .ok { s with world := world, tcp := tcp, inboundShutdown := true }
    else .ok { s with world := world, tcp := tcp }
  interest s :=
    let inbound := s.tcp.receiver.streamOut
    !inbound.bufferEmpty || ((inbound.eof || inbound.error) && !s.inboundShutdown)

/-- The loop of rule 4, over the segments that are still in the queue. -/
def sendSegments : List TCPSegment → TCPSpongeSocket κ A → Except String (TCPSpongeSocket κ A)
  | [], s => .ok s
  | seg :: rest, s => do
      let (adapter, world) ← ad.write s.world s.adapter seg
      sendSegments rest
        { s with world := world, adapter := adapter, tcp := { s.tcp with segmentsOut := rest } }

/-- Rule 4: read outbound segments from the connection and send as datagrams. -/
def datagramOut : Rule Fd (TCPSpongeSocket κ A) String where
  fd := .device
  direction := .Out
  callback s := sendSegments ad s.tcp.segmentsOut s
  interest s := !s.tcp.segmentsOut.isEmpty

/-- The rules, as `_initialize_TCP` adds them. -/
def rules : List (Rule Fd (TCPSpongeSocket κ A) String) :=
  [datagramIn ad, outboundIn K, inboundOut K, datagramOut ad]

end TCPSpongeSocket

/-- What the thread finds in one round of its loop: the answer of `poll`, whether it is to
    abort, and the time since the last tick. -/
structure Moment where
  poll : Poll Fd
  abort : Bool := false
  elapsed : Nat

/-- The event loop's rules and the socket. -/
abbrev Running (κ A : Type) := List (Rule Fd (TCPSpongeSocket κ A) String) × TCPSpongeSocket κ A

namespace TCPSpongeSocket

/-- Time passes for the connection and the adapter. -/
def tick (s : TCPSpongeSocket κ A) (ms : Nat) : Except String (TCPSpongeSocket κ A) := do
  let (adapter, world) ← ad.tick s.world s.adapter ms
  .ok { s with tcp := s.tcp.tick ms, adapter := adapter, world := world }

/-- One round of `_tcp_loop`, and whether it goes on. -/
def tcpRound (x : Running κ A) (m : Moment) : Except (LoopError String) (Bool × Running κ A) := do
  let (ret, rules, s) ← waitNextEvent fds x.1 m.poll x.2
  if ret = .exit ∨ m.abort then .ok (false, rules, s)
  else if s.tcp.active then do
    let s ← (s.tick ad m.elapsed).mapError .thrown
    .ok (true, rules, s)
  else .ok (true, rules, s)

/-- `_tcp_loop` over the moments to come.  When it is left, the moments that it has not used
    remain. -/
def tcpLoop (condition : TCPSpongeSocket κ A → Bool) :
    List Moment → Running κ A → Except (LoopError String) (Option (List Moment) × Running κ A)
  | [], x => if condition x.2 then .ok (none, x) else .ok (some [], x)
  | m :: ms, x =>
      if condition x.2 then do
        let (goOn, x) ← tcpRound ad x m
        if goOn then tcpLoop condition ms x else .ok (some ms, x)
      else .ok (some (m :: ms), x)

/-- The socket when `connect` enters its loop. -/
def connecting (w : World κ Fd) (a : A) (cfg : TCPConfig) (random : BitVec 32)
    (config : FdAdapterConfig) : Running κ A :=
  (rules K ad,
    { world := w, adapter := ad.setConfig a config, tcp := (TCPConnection.new cfg random).connect })

/-- `connect`, on a socket without a connection -/
def connect (w : World κ Fd) (a : A) (cfg : TCPConfig) (random : BitVec 32)
    (config : FdAdapterConfig) (ms : List Moment) :
    Except (LoopError String) (Option (List Moment) × Running κ A) :=
  let x := connecting K ad w a cfg random config
  let expected := TCPState.ofState .synSent
  if state x.2.tcp ≠ expected then
    .error (.thrown ("After TCPConnection::connect(), state was " ++ (state x.2.tcp).name
      ++ " but expected " ++ expected.name))
  else tcpLoop ad (fun s => state s.tcp == .ofState .synSent) ms x

/-- The socket when `listen_and_accept` enters its loop. -/
def listening (w : World κ Fd) (a : A) (cfg : TCPConfig) (random : BitVec 32)
    (config : FdAdapterConfig) : Running κ A :=
  (rules K ad,
    { world := w
      adapter := ad.setListening (ad.setConfig a config) true
      tcp := .new cfg random })

/-- `listen_and_accept`, on a socket without a connection -/
def listenAndAccept (w : World κ Fd) (a : A) (cfg : TCPConfig) (random : BitVec 32)
    (config : FdAdapterConfig) (ms : List Moment) :
    Except (LoopError String) (Option (List Moment) × Running κ A) :=
  tcpLoop ad
    (fun s => state s.tcp == .ofState .listen || state s.tcp == .ofState .synRcvd
      || state s.tcp == .ofState .synSent)
    ms (listening K ad w a cfg random config)

/-- `_tcp_main`, and whether it has returned. -/
def tcpMain (ms : List Moment) (x : Running κ A) :
    Except (LoopError String) (Bool × Running κ A) := do
  let (rest, rules, s) ← tcpLoop ad (fun _ => true) ms x
  match rest with
  | none => .ok (false, rules, s)
  | some _ => do
      let world ← (shutdown K s.world .owner .rdwr).mapError .thrown
      .ok (true, rules, { s with world := world })

/-- Once it is connected, the socket starts its thread. -/
def thenMain (connected : Except (LoopError String) (Option (List Moment) × Running κ A)) :
    Except (LoopError String) (Bool × Running κ A) := do
  let (rest, x) ← connected
  match rest with
  | none => .ok (false, x)
  | some ms => tcpMain K ad ms x

end TCPSpongeSocket

end Socket

/-! ## What the callbacks do -/

/-- The calls that the kernel has answered. -/
def TCPSpongeSocket.calls {κ A : Type} (s : TCPSpongeSocket (κ × List (Call Fd)) A) :
    List (Call Fd) := s.world.kernel.2

namespace TCPSpongeSocket

section Callbacks

variable {κ A : Type} {K : Kernel κ Fd} {ad : Adapter (κ × List (Call Fd)) Fd A}
  {s s' : TCPSpongeSocket (κ × List (Call Fd)) A}

theorem hear_ok {seg : Option TCPSegment} (h : s.hear seg = .ok s') :
    ∃ tcp, s' = { s with tcp := tcp }
      ∧ ((seg = none ∧ tcp = s.tcp) ∨ ∃ x, seg = some x ∧ s.tcp.segmentReceived x = some tcp) := by
  cases seg with
  | none =>
      obtain rfl := Except.ok.inj h
      exact ⟨s.tcp, rfl, Or.inl ⟨rfl, rfl⟩⟩
  | some x =>
      rw [hear] at h
      cases hreceived : s.tcp.segmentReceived x with
      | none =>
          rw [hreceived] at h
          cases h
      | some tcp =>
          rw [hreceived] at h
          obtain rfl := Except.ok.inj h
          exact ⟨tcp, rfl, Or.inr ⟨x, rfl, hreceived⟩⟩

theorem noteAcked_eq (s : TCPSpongeSocket (κ × List (Call Fd)) A) :
    ∃ fullyAcked, s.noteAcked = { s with fullyAcked := fullyAcked } := by
  rw [noteAcked]
  split_ifs
  · exact ⟨true, rfl⟩
  · exact ⟨s.fullyAcked, rfl⟩

/-- Rule 1, inverted. -/
structure DatagramIn (ad : Adapter (κ × List (Call Fd)) Fd A)
    (s s' : TCPSpongeSocket (κ × List (Call Fd)) A) (seg : Option TCPSegment) : Prop where
  read : ad.read s.world s.adapter = .ok (seg, s'.adapter, s'.world)
  heard : (seg = none ∧ s'.tcp = s.tcp) ∨ ∃ x, seg = some x ∧ s.tcp.segmentReceived x = some s'.tcp
  inbound : s'.inboundShutdown = s.inboundShutdown
  outbound : s'.outboundShutdown = s.outboundShutdown

theorem datagramIn_callback (h : (datagramIn ad).callback s = .ok s') :
    ∃ seg, DatagramIn ad s s' seg := by
  obtain ⟨⟨seg, adapter, world⟩, hread, hrest⟩ := bind_eq_ok.mp h
  obtain ⟨s₁, hheard, heq⟩ := bind_eq_ok.mp hrest
  obtain ⟨tcp, rfl, htcp⟩ := hear_ok hheard
  obtain ⟨fullyAcked, hnoted⟩ := noteAcked_eq
    ({ s with world := world, adapter := adapter, tcp := tcp } :
      TCPSpongeSocket (κ × List (Call Fd)) A)
  obtain rfl := Except.ok.inj heq
  rw [hnoted]
  exact ⟨seg, hread, htcp, rfl, rfl⟩

/-- What is read fits, so the connection takes all of it. -/
theorem write_accepts {c : TCPConnection} {data : List Byte}
    (h : data.length ≤ c.sender.stream.remainingCapacity) : (c.write data).1 = data.length := by
  show (pushBytes c.sender.stream.capacity.toNat c.sender.stream.buffer data).1 = data.length
  rw [pushBytes_eq]
  exact Nat.min_eq_left h

/-- Rule 2, inverted. -/
structure OutboundIn (s s' : TCPSpongeSocket (κ × List (Call Fd)) A) (data : List Byte) :
    Prop where
  read : ReadDone s.world .threadData s.tcp.sender.stream.remainingCapacity data s'.world
  accepted : (s.tcp.write data).1 = data.length
  adapter : s'.adapter = s.adapter
  inbound : s'.inboundShutdown = s.inboundShutdown
  ended : ((s'.world.fds .threadData).eof = true ∧ s'.tcp = (s.tcp.write data).2.endInputStream
      ∧ s'.outboundShutdown = true)
    ∨ ((s'.world.fds .threadData).eof = false ∧ s'.tcp = (s.tcp.write data).2
      ∧ s'.outboundShutdown = s.outboundShutdown)

theorem outboundIn_callback
    (h : (outboundIn K.recording : Rule Fd (TCPSpongeSocket (κ × List (Call Fd)) A) String).callback s
      = .ok s') : ∃ data, OutboundIn s s' data := by
  obtain ⟨⟨data, world⟩, hread, hrest⟩ := bind_eq_ok.mp h
  have hdone := read_done hread
  have haccepted := write_accepts hdone.length
  refine ⟨data, ?_⟩
  dsimp only at hrest
  rw [if_neg (not_not.mpr haccepted)] at hrest
  split_ifs at hrest with heof
  · obtain rfl := Except.ok.inj hrest
    exact ⟨hdone, haccepted, rfl, rfl, Or.inl ⟨heof, rfl, rfl⟩⟩
  · obtain rfl := Except.ok.inj hrest
    exact ⟨hdone, haccepted, rfl, rfl, Or.inr ⟨Bool.eq_false_iff.mpr heof, rfl, rfl⟩⟩

/-- The inbound stream of a connection. -/
def inbound (s : TCPSpongeSocket (κ × List (Call Fd)) A) : ByteStream := s.tcp.receiver.streamOut

/-- Rule 3, inverted. -/
structure InboundOut (s s' : TCPSpongeSocket (κ × List (Call Fd)) A) (n : Nat)
    (w : World (κ × List (Call Fd)) Fd) : Prop where
  write : WriteDone s.world .threadData (s.inbound.buffer.take maxWrite) n w
  tcp : s'.tcp = s.tcp.popInbound n
  adapter : s'.adapter = s.adapter
  outbound : s'.outboundShutdown = s.outboundShutdown
  rest : (s'.world = w ∧ s'.inboundShutdown = s.inboundShutdown
      ∧ (s'.inbound.eof || s'.inbound.error) = false)
    ∨ ((s'.inbound.eof || s'.inbound.error) = true ∧ s'.inboundShutdown = true
      ∧ s'.world.kernel.2 = w.kernel.2 ++ [.shutdown .threadData .wr]
      ∧ s'.world.fds = (w.registerWrite .threadData).fds)

theorem steady_registerWrite (w : World (κ × List (Call Fd)) Fd) (fd : Fd) :
    Steady w (w.registerWrite fd) := by
  have hothers : ∀ fd', fd' ≠ fd → (w.registerWrite fd).fds fd' = w.fds fd' := by
    intro fd' hne
    rw [World.registerWrite, World.fds_update_ne _ _ hne]
  refine steady_of_others ?_ (fun heof => ?_) hothers
  · rw [World.registerWrite, World.fds_update_self]
  · rw [World.registerWrite, World.fds_update_self]
    exact heof

theorem InboundOut.steady {n : Nat} {w : World (κ × List (Call Fd)) Fd} (h : InboundOut s s' n w) :
    Steady s.world s'.world := by
  have hwrite : Steady s.world w := (steady_registerWrite s.world .threadData).congr h.write.fds
  rcases h.rest with ⟨hw, -, -⟩ | ⟨-, -, -, hfds⟩
  · rw [hw]
    exact hwrite
  · exact hwrite.trans ((steady_registerWrite w .threadData).congr hfds)

theorem inboundOut_callback
    (h : (inboundOut K.recording : Rule Fd (TCPSpongeSocket (κ × List (Call Fd)) A) String).callback s
      = .ok s') : ∃ n w, InboundOut s s' n w := by
  obtain ⟨⟨n, w⟩, hwrite, hrest⟩ := bind_eq_ok.mp h
  have hdone : WriteDone s.world .threadData
      [s.inbound.peekOutput (min maxWrite s.inbound.bufferSize)].flatten n w := write_done hwrite
  have hpeek : [s.inbound.peekOutput (min maxWrite s.inbound.bufferSize)].flatten
      = s.inbound.buffer.take maxWrite := by
    rw [List.flatten_singleton, ByteStream.peekOutput, ByteStream.bufferSize, List.take_eq_take_iff]
    omega
  rw [hpeek] at hdone
  refine ⟨n, w, ?_⟩
  dsimp only at hrest
  split_ifs at hrest with hover
  · obtain ⟨w', hshutdown, heq⟩ := bind_eq_ok.mp hrest
    obtain rfl := Except.ok.inj heq
    obtain ⟨k, hk, hw'⟩ := bind_eq_ok.mp hshutdown
    obtain ⟨k', -, rfl⟩ := map_eq_ok.mp hk
    obtain rfl := Except.ok.inj hw'
    exact ⟨hdone, rfl, rfl, rfl, Or.inr ⟨hover, rfl, rfl, rfl⟩⟩
  · obtain rfl := Except.ok.inj hrest
    exact ⟨hdone, rfl, rfl, rfl, Or.inl ⟨rfl, rfl, Bool.eq_false_iff.mpr hover⟩⟩

end Callbacks

end TCPSpongeSocket

/-! ## The rules -/

section Rules

variable {κ A : Type} {K : Kernel κ Fd} {ad : Adapter (κ × List (Call Fd)) Fd A}

/-- What a rule waits for. -/
def key {σ : Type} (rule : Rule Fd σ String) : Fd × Direction := (rule.fd, rule.direction)

/-- No two rules wait for the same. -/
theorem key_ne {pre post : List (Rule Fd (TCPSpongeSocket (κ × List (Call Fd)) A) String)}
    {r r' : Rule Fd (TCPSpongeSocket (κ × List (Call Fd)) A) String}
    (hsub : (pre ++ r :: post).Sublist (TCPSpongeSocket.rules K.recording ad))
    (hr' : r' ∈ pre ++ post) : key r' ≠ key r := by
  have hall : ((TCPSpongeSocket.rules K.recording ad).map key).Nodup := by
    show [(Fd.device, Direction.In), (.threadData, .In), (.threadData, .Out), (.device, .Out)].Nodup
    decide
  have hnodup := (hsub.map key).nodup hall
  rw [List.map_append, List.map_cons, List.nodup_middle, List.nodup_cons, ← List.map_append] at hnodup
  intro heq
  exact hnodup.1 (heq ▸ List.mem_map_of_mem hr')

theorem mem_rules {r : Rule Fd (TCPSpongeSocket (κ × List (Call Fd)) A) String}
    (h : r ∈ TCPSpongeSocket.rules K.recording ad) :
    r = TCPSpongeSocket.datagramIn ad ∨ r = TCPSpongeSocket.outboundIn K.recording
      ∨ r = TCPSpongeSocket.inboundOut K.recording ∨ r = TCPSpongeSocket.datagramOut ad := by
  rw [TCPSpongeSocket.rules, List.mem_cons, List.mem_cons, List.mem_cons, List.mem_singleton] at h
  exact h

theorem sendSegments_outbound :
    ∀ (queue : List TCPSegment) (s s' : TCPSpongeSocket (κ × List (Call Fd)) A),
      TCPSpongeSocket.sendSegments ad queue s = .ok s' →
      s'.outboundShutdown = s.outboundShutdown ∧ s'.inboundShutdown = s.inboundShutdown
        ∧ (queue ≠ [] → s'.tcp = { s.tcp with segmentsOut := [] }) := by
  intro queue
  induction queue with
  | nil =>
      intro s s' hsend
      obtain rfl := Except.ok.inj hsend
      exact ⟨rfl, rfl, fun hne => absurd rfl hne⟩
  | cons seg rest ih =>
      intro s s' hsend
      obtain ⟨⟨adapter, world⟩, -, hrest⟩ := bind_eq_ok.mp hsend
      obtain ⟨hout, hin, htcp⟩ := ih _ s' hrest
      refine ⟨hout, hin, fun _ => ?_⟩
      cases rest with
      | nil =>
          obtain rfl := Except.ok.inj hrest
          rfl
      | cons => exact htcp (List.cons_ne_nil _ _)

/-- Every callback reads or writes, or leaves nothing to do. -/
theorem acts (hlaw : Lawful ad .device Reads Holds)
    {r : Rule Fd (TCPSpongeSocket (κ × List (Call Fd)) A) String}
    (hr : r ∈ TCPSpongeSocket.rules K.recording ad) : r.Acts TCPSpongeSocket.fds := by
  have hone : ∀ count : BitVec 32, count + 1 ≠ count := by
    intro count
    bv_omega
  have htwo : ∀ count : BitVec 32, count + 1 + 1 ≠ count := by
    intro count
    bv_omega
  intro s s' hcall
  rcases mem_rules hr with rfl | rfl | rfl | rfl
  · obtain ⟨seg, hstep⟩ := TCPSpongeSocket.datagramIn_callback hcall
    refine Or.inl fun heq => hone (s.world.fds .device).readCount ?_
    rw [← hlaw.counts _ _ _ _ _ hstep.read]
    exact heq
  · obtain ⟨data, hstep⟩ := TCPSpongeSocket.outboundIn_callback hcall
    refine Or.inl fun heq => hone (s.world.fds .threadData).readCount ?_
    rw [← hstep.read.count]
    exact heq
  · obtain ⟨n, w, hstep⟩ := TCPSpongeSocket.inboundOut_callback hcall
    have hwrite : (w.fds .threadData).writeCount = (s.world.fds .threadData).writeCount + 1 := by
      rw [hstep.write.fds, World.registerWrite, World.fds_update_self]
    rcases hstep.rest with ⟨hw, -, -⟩ | ⟨-, -, -, hfds⟩
    · refine Or.inl fun heq => hone (s.world.fds .threadData).writeCount ?_
      rw [← hwrite, ← hw]
      exact heq
    · refine Or.inl fun heq => htwo (s.world.fds .threadData).writeCount ?_
      have htwice : (s'.world.fds .threadData).writeCount
          = (s.world.fds .threadData).writeCount + 1 + 1 := by
        rw [hfds, World.registerWrite, World.fds_update_self, ← hwrite]
      rw [← htwice]
      exact heq
  · refine Or.inr ?_
    show (!s'.tcp.segmentsOut.isEmpty) = false
    have hall : s'.tcp.segmentsOut = [] := by
      by_cases hqueue : s.tcp.segmentsOut = []
      · have hcall : TCPSpongeSocket.sendSegments ad s.tcp.segmentsOut s = .ok s' := hcall
        rw [hqueue] at hcall
        rw [← Except.ok.inj hcall]
        exact hqueue
      · rw [(sendSegments_outbound _ s s' hcall).2.2 hqueue]
    rw [hall]
    rfl

/-- Ending the outbound stream wakes only a rule that is asked later. -/
theorem quiet_rules : (TCPSpongeSocket.rules K.recording ad).Pairwise Quiet := by
  have hnone : ∀ other rule : Rule Fd (TCPSpongeSocket (κ × List (Call Fd)) A) String,
      (∀ s, rule.cancel s = .ok s) → Quiet other rule := by
    intro other rule hcancel s s' h hno
    rw [← Except.ok.inj ((hcancel s).symm.trans h)]
    exact hno
  have hend : Quiet (TCPSpongeSocket.datagramIn ad) (TCPSpongeSocket.outboundIn K.recording) := by
    intro s s' h hno
    rw [← Except.ok.inj h]
    obtain ⟨t, -, -, -, hactive⟩ := s.tcp.endInputStream_spec
    exact hactive.trans hno
  rw [TCPSpongeSocket.rules]
  refine .cons ?_ (.cons ?_ (.cons ?_ (List.pairwise_singleton _ _)))
  · simp only [List.mem_cons, List.not_mem_nil, or_false]
    rintro rule (rfl | rfl | rfl)
    · exact hend
    · exact hnone _ _ fun _ => rfl
    · exact hnone _ _ fun _ => rfl
  · simp only [List.mem_cons, List.not_mem_nil, or_false]
    rintro rule (rfl | rfl) <;> exact hnone _ _ fun _ => rfl
  · simp only [List.mem_cons, List.not_mem_nil, or_false]
    rintro rule rfl
    exact hnone _ _ fun _ => rfl

end Rules

/-! ## The rounds of the thread -/

section Rounds

variable {κ A : Type} {K : Kernel κ Fd} {ad : Adapter (κ × List (Call Fd)) Fd A}

/-- A round of the thread, inverted: a wait, and perhaps a tick. -/
theorem tcpRound_ok {x y : Running (κ × List (Call Fd)) A} {m : Moment} {goOn : Bool}
    (h : TCPSpongeSocket.tcpRound ad x m = .ok (goOn, y)) :
    ∃ ret s, waitNextEvent TCPSpongeSocket.fds x.1 m.poll x.2 = .ok (ret, y.1, s)
      ∧ ((goOn = false ∧ (ret = .exit ∨ m.abort = true) ∧ y.2 = s)
        ∨ (goOn = true ∧ ret ≠ .exit ∧ s.tcp.active = true ∧ s.tick ad m.elapsed = .ok y.2)
        ∨ (goOn = true ∧ ret ≠ .exit ∧ s.tcp.active = false ∧ y.2 = s)) := by
  obtain ⟨⟨ret, rules, s⟩, hwait, hrest⟩ := bind_eq_ok.mp h
  dsimp only at hrest
  split_ifs at hrest with hstop hactive
  · simp only [Except.ok.injEq, Prod.mk.injEq] at hrest
    obtain ⟨rfl, rfl⟩ := hrest
    exact ⟨ret, s, hwait, Or.inl ⟨rfl, hstop, rfl⟩⟩
  · obtain ⟨s', htick, heq⟩ := bind_eq_ok.mp hrest
    simp only [Except.ok.injEq, Prod.mk.injEq] at heq
    obtain ⟨rfl, rfl⟩ := heq
    exact ⟨ret, s, hwait, Or.inr (Or.inl ⟨rfl, (not_or.mp hstop).1, hactive,
      mapError_eq_ok.mp htick⟩)⟩
  · simp only [Except.ok.injEq, Prod.mk.injEq] at hrest
    obtain ⟨rfl, rfl⟩ := hrest
    exact ⟨ret, s, hwait, Or.inr (Or.inr ⟨rfl, (not_or.mp hstop).1, Bool.eq_false_iff.mpr hactive,
      rfl⟩)⟩

/-- One round of the thread, for runs; it is not enabled where an exception leaves it. -/
def go [Popped] (ad : Adapter (κ × List (Call Fd)) Fd A) (x : Running (κ × List (Call Fd)) A) (m : Moment) :
    Option (Running (κ × List (Call Fd)) A) :=
  (TCPSpongeSocket.tcpRound ad x m).toOption.map Prod.snd

theorem go_eq_some {x y : Running (κ × List (Call Fd)) A} {m : Moment} (h : go ad x m = some y) :
    ∃ goOn, TCPSpongeSocket.tcpRound ad x m = .ok (goOn, y) := by
  obtain ⟨⟨goOn, y'⟩, hround, rfl⟩ := Option.map_eq_some_iff.mp h
  exact ⟨goOn, toOption_eq_some hround⟩

theorem go_of_round {x y : Running (κ × List (Call Fd)) A} {m : Moment} {goOn : Bool}
    (h : TCPSpongeSocket.tcpRound ad x m = .ok (goOn, y)) : go ad x m = some y := by
  rw [go, h]
  rfl

/-- The last round of a loop that was left by `break`. -/
structure LastRound (ad : Adapter (κ × List (Call Fd)) Fd A) (x : Running (κ × List (Call Fd)) A)
    (used : List Moment) (y : Running (κ × List (Call Fd)) A) : Prop where
  last : ∃ before m x', used = before ++ [m] ∧ run (go ad) x before = some x'
    ∧ TCPSpongeSocket.tcpRound ad x' m = .ok (false, y)

/-- **THE LOOP IS A RUN**: it uses some of the moments, and it is left because of its
    condition or by `break`. -/
theorem tcpLoop_run {condition : TCPSpongeSocket (κ × List (Call Fd)) A → Bool} :
    ∀ (ms : List Moment) (x y : Running (κ × List (Call Fd)) A) (rest : Option (List Moment)),
      TCPSpongeSocket.tcpLoop ad condition ms x = .ok (rest, y) →
      ∃ used, used ++ rest.getD [] = ms ∧ run (go ad) x used = some y
        ∧ (rest.isSome = true → condition y.2 = false ∨ LastRound ad x used y) := by
  intro ms
  induction ms with
  | nil =>
      intro x y rest h
      rw [TCPSpongeSocket.tcpLoop] at h
      split_ifs at h with hcondition
      · obtain ⟨rfl, rfl⟩ := Prod.mk.inj (Except.ok.inj h)
        exact ⟨[], rfl, rfl, fun hsome => absurd hsome (by simp)⟩
      · obtain ⟨rfl, rfl⟩ := Prod.mk.inj (Except.ok.inj h)
        exact ⟨[], rfl, rfl, fun _ => Or.inl (Bool.eq_false_iff.mpr hcondition)⟩
  | cons m ms ih =>
      intro x y rest h
      rw [TCPSpongeSocket.tcpLoop] at h
      split_ifs at h with hcondition
      · obtain ⟨⟨goOn, x₁⟩, hround, hrest⟩ := bind_eq_ok.mp h
        have hgo := go_of_round hround
        cases goOn with
        | true =>
            obtain ⟨used, hused, hrun, hwhy⟩ := ih x₁ y rest hrest
            refine ⟨m :: used, congrArg (m :: ·) hused, ?_, fun hsome => ?_⟩
            · rw [run, hgo]
              exact hrun
            · rcases hwhy hsome with hno | ⟨before, last, x', hsplit, hbefore, hlast⟩
              · exact Or.inl hno
              · refine Or.inr ⟨m :: before, last, x', congrArg (m :: ·) hsplit, ?_, hlast⟩
                rw [run, hgo]
                exact hbefore
        | false =>
            obtain ⟨rfl, rfl⟩ := Prod.mk.inj (Except.ok.inj hrest)
            refine ⟨[m], rfl, ?_, fun _ => Or.inr ⟨[], m, x, rfl, rfl, hround⟩⟩
            rw [run, hgo]
            rfl
      · obtain ⟨rfl, rfl⟩ := Prod.mk.inj (Except.ok.inj h)
        exact ⟨[], rfl, rfl, fun _ => Or.inl (Bool.eq_false_iff.mpr hcondition)⟩

/-- A life that is over, taken apart: rounds, a last one that leaves the loop, and the
    owner's end shut down. -/
theorem thenMain_run {condition : TCPSpongeSocket (κ × List (Call Fd)) A → Bool}
    {ms : List Moment} {x y : Running (κ × List (Call Fd)) A}
    (h : TCPSpongeSocket.thenMain K.recording ad (TCPSpongeSocket.tcpLoop ad condition ms x)
      = .ok (true, y)) :
    ∃ before last rest x' s, before ++ last :: rest = ms ∧ run (go ad) x before = some x'
      ∧ TCPSpongeSocket.tcpRound ad x' last = .ok (false, y.1, s)
      ∧ y.2.tcp = s.tcp ∧ y.2.calls = s.calls ++ [.shutdown .owner .rdwr]
      ∧ y.2.fds .device = s.fds .device := by
  obtain ⟨⟨rest, x₁⟩, hconnected, hthen⟩ := bind_eq_ok.mp h
  obtain ⟨used, hused, hrun, -⟩ := tcpLoop_run ms x x₁ rest hconnected
  cases rest with
  | none => cases (Prod.mk.inj (Except.ok.inj hthen)).1
  | some rest =>
      obtain ⟨⟨left, rules, s⟩, hloop, hend⟩ := bind_eq_ok.mp hthen
      obtain ⟨used', hused', -, hwhy⟩ := tcpLoop_run rest x₁ (rules, s) left hloop
      cases left with
      | none => cases (Prod.mk.inj (Except.ok.inj hend)).1
      | some left =>
          obtain ⟨world, hshutdown, heq⟩ := bind_eq_ok.mp hend
          simp only [Except.ok.injEq, Prod.mk.injEq, true_and] at heq
          rcases hwhy rfl with hno | ⟨before, last, x', hsplit, hbefore, hlast⟩
          · exact absurd hno (by simp)
          obtain ⟨k, hk, hworld⟩ := bind_eq_ok.mp (mapError_eq_ok.mp hshutdown)
          obtain ⟨k', -, rfl⟩ := map_eq_ok.mp hk
          refine ⟨used ++ before, last, left, x', s, ?_, ?_, ?_, ?_, ?_, ?_⟩
          · rw [← hused, List.append_assoc]
            refine congrArg (used ++ ·) ?_
            show _ = rest
            rw [← hused', hsplit, List.append_assoc]
            rfl
          · rw [run_append, hrun]
            exact hbefore
          · rw [← heq]
            exact hlast
          · rw [← heq]
          · rw [← heq, ← Except.ok.inj hworld]
            rfl
          · rw [← heq, ← Except.ok.inj hworld]
            show (World.registerWrite (World.registerRead _ Fd.owner) _).fds Fd.device = _
            rw [World.registerWrite, World.fds_update_ne _ _ (by decide), World.registerRead,
              World.fds_update_ne _ _ (by decide)]
            rfl

/-- The state after `TCPConnection::connect` is the expected one. -/
theorem connect_eq (w : World (κ × List (Call Fd)) Fd) (a : A) (cfg : TCPConfig)
    (random : BitVec 32) (config : FdAdapterConfig) (ms : List Moment) :
    TCPSpongeSocket.connect K.recording ad w a cfg random config ms
      = TCPSpongeSocket.tcpLoop ad (fun s => state s.tcp == .ofState .synSent) ms
        (TCPSpongeSocket.connecting K.recording ad w a cfg random config) := by
  have hstate : state (TCPSpongeSocket.connecting K.recording ad w a cfg random config).2.tcp
      = .ofState .synSent := SpongeState.state_connect cfg random
  rw [TCPSpongeSocket.connect, if_neg (not_not.mpr hstate)]

end Rounds

end SpongeSocket
