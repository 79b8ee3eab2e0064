import Sponge.SimulationProofs

/-! # How a socket ends

    The thread returns when no rule is interested, when a poll is interrupted or when it is
    told to abort.  In the first case, if no descriptor hung up or is at its end, nothing is
    left to do: `socket_finishes`.  What the owner has got by then are the bytes that the
    steps of the endpoint put into its inbound stream (`Assembles`). -/

namespace SpongeFinish

open SpongeByteStream SpongeWrapping SpongeSegment SpongeReceiver SpongeSender SpongeConnection
open SpongeNetwork SpongeSocket SpongeSimulation
open SpongeDescriptor SpongeEventLoop SpongeAdapter SpongeChannel RaiseRule RunRule

/-- What holds of every endpoint: a connection that is no longer active has an inbound
    stream that ended or failed, and what was read is counted. -/
structure Settled (z : Endpoint) : Prop where
  ended : z.conn.active = false →
    z.conn.receiver.streamOut.error = true ∨ z.conn.receiver.streamOut.inputEnded = true
  counted : z.readBytes.length = z.conn.receiver.streamOut.bytesRead

/-- Where the receiver and the activity stay, so does the first part. -/
theorem Settled.ended_of_same {z z' : Endpoint} (h : Settled z)
    (hreceiver : z'.conn.receiver = z.conn.receiver) (hactive : z'.conn.active = z.conn.active)
    (hdead : z'.conn.active = false) :
    z'.conn.receiver.streamOut.error = true ∨ z'.conn.receiver.streamOut.inputEnded = true := by
  rw [hreceiver]
  exact h.ended (hactive.symm.trans hdead)

theorem Settled.act {p z z' : Endpoint} {op : SpongeNetwork.Op} (h : Settled z)
    (hact : Endpoint.act p z op = some z') : Settled z' := by
  refine ⟨?_, ?_⟩
  · cases op with
    | connect =>
        rw [← Option.some.inj hact]
        exact h.ended_of_same rfl rfl
    | write data =>
        rw [Endpoint.act] at hact
        split_ifs at hact
        rw [← Option.some.inj hact]
        exact h.ended_of_same rfl rfl
    | endInputStream =>
        rw [← Option.some.inj hact]
        obtain ⟨t, -, -, hreceiver, hactive⟩ := z.conn.endInputStream_spec
        exact h.ended_of_same hreceiver hactive
    | tick ms =>
        rw [← Option.some.inj hact]
        intro hdead
        cases TCPConnection.tick_spec z.conn ms with
        | gaveUp t _ _ hreceiver _ =>
            refine Or.inl ?_
            show (z.conn.tick ms).receiver.streamOut.error = true
            rw [hreceiver]
            rfl
        | closed t _ _ hreceiver hdone _ _ =>
            refine Or.inr ?_
            show (z.conn.tick ms).receiver.streamOut.inputEnded = true
            rw [hreceiver]
            simp only [TCPConnection.killConditionCheck, Bool.and_eq_true] at hdone
            exact hdone.1.1.1.1
        | passed t _ _ hreceiver hactive => exact h.ended_of_same hreceiver hactive hdead
    | read len =>
        rw [← Option.some.inj hact]
        exact h.ended
    | transmit =>
        rw [Endpoint.act] at hact
        split at hact
        · cases hact
        · rw [← Option.some.inj hact]
          exact h.ended
    | deliver i =>
        obtain ⟨seg, -, hrest⟩ := Option.bind_eq_some_iff.mp hact
        obtain ⟨c, hc, rfl⟩ := Option.map_eq_some_iff.mp hrest
        intro hdead
        show c.receiver.streamOut.error = true ∨ c.receiver.streamOut.inputEnded = true
        rcases TCPConnection.segmentReceived_cases hc with ⟨-, hkilled⟩ | ⟨ackno, htaken⟩
        · rw [hkilled]
          exact Or.inl rfl
        · rw [htaken.receiver]
          rcases h.ended (htaken.active.symm.trans hdead) with herror | hended
          · exact Or.inl ((TCPReceiver.frame_segment _ seg).error.trans herror)
          · exact Or.inr ((TCPReceiver.progress_segment _ seg).ended hended)
  · cases (acted hact).inbound with
    | same hreceiver hread => rw [hreceiver, hread]; exact h.counted
    | error hreceiver hread => rw [hreceiver, hread]; exact h.counted
    | read len hreceiver hread =>
        rw [hreceiver, hread, List.length_append, h.counted]
        show _ = (z.conn.receiver.streamOut.read len).2.bytesRead
        simp [ByteStream.read, ByteStream.popOutput, ByteStream.peekOutput]
    | segment seg _ _ hreceiver hread =>
        rw [hreceiver, hread, h.counted]
        exact (TCPReceiver.frame_segment _ seg).bytesRead.symm

/-! ## The bytes that were assembled -/

/-- What a step put into the inbound stream, behind what was there. -/
def added (y x : Endpoint) : List Byte :=
  x.conn.receiver.streamOut.buffer.drop y.conn.receiver.streamOut.buffer.length

/-- Steps of an endpoint to which only segments with `R` are delivered, and the bytes that
    they assembled, in order. -/
inductive Assembles (R : TCPSegment → Prop) (z : Endpoint) : List Byte → Endpoint → Prop
  | refl : Assembles R z [] z
  | act {p y x : Endpoint} {e : SpongeNetwork.Op} {bytes : List Byte}
      (before : Assembles R z bytes y) (offered : ∀ seg ∈ p.sent, R seg)
      (last : Endpoint.act p y e = some x) : Assembles R z (bytes ++ added y x) x

theorem exists_assembles {R : TCPSegment → Prop} {z y : Endpoint} (h : Dealt R z y) :
    ∃ bytes, Assembles R z bytes y := by
  induction h with
  | refl => exact ⟨[], .refl⟩
  | act _ offered last ih =>
      obtain ⟨bytes, hbytes⟩ := ih
      exact ⟨_, .act hbytes offered last⟩

/-- **ONE STEP** puts what it adds behind what was read and what waits. -/
theorem got_act {p y x : Endpoint} {op : SpongeNetwork.Op} (hact : Endpoint.act p y op = some x) :
    x.readBytes ++ x.conn.receiver.streamOut.buffer
      = y.readBytes ++ y.conn.receiver.streamOut.buffer ++ added y x := by
  rw [added]
  cases (acted hact).inbound with
  | same hreceiver hread => rw [hreceiver, hread, List.drop_length, List.append_nil]
  | error hreceiver hread =>
      rw [hreceiver, hread]
      show _ = _ ++ y.conn.receiver.streamOut.buffer.drop _
      rw [List.drop_length, List.append_nil]
      rfl
  | read len hreceiver hread =>
      -- a read takes from the front, and adds nothing
      have hadds : (y.conn.receiver.streamOut.read len).2.buffer.drop
          y.conn.receiver.streamOut.buffer.length = [] := by
        refine List.drop_eq_nil_of_le ?_
        rw [ByteStream.read_snd, ByteStream.popOutput_buffer, List.length_drop]
        exact Nat.sub_le _ _
      rw [hreceiver, hread]
      show _ ++ (y.conn.receiver.streamOut.read len).2.buffer
        = _ ++ (y.conn.receiver.streamOut.read len).2.buffer.drop _
      rw [hadds, List.append_nil, List.append_assoc, ByteStream.read_append]
  | segment seg _ _ hreceiver hread =>
      obtain ⟨more, hmore⟩ := TCPReceiver.buffer_prefix_segment y.conn.receiver seg
      rw [hreceiver, hread, ← hmore, List.drop_left, List.append_assoc]

/-- **A RUN**: what was read and what waits is what was assembled. -/
theorem Assembles.got {R : TCPSegment → Prop} {z y : Endpoint} {bytes : List Byte}
    (h : Assembles R z bytes y) :
    y.readBytes ++ y.conn.receiver.streamOut.buffer
      = z.readBytes ++ z.conn.receiver.streamOut.buffer ++ bytes := by
  induction h with
  | refl => rw [List.append_nil]
  | act _ _ last ih => rw [got_act last, ih, List.append_assoc]

section Finish

variable {κ A : Type} {K : Kernel κ Fd} {ad : Adapter (κ × List (Call Fd)) Fd A}
  {Reads : List Byte → TCPSegment → Prop} {Holds : List TCPSegment → A → Prop}

/-- No descriptor hangs up. -/
def Listens (poll : Poll Fd) : Prop :=
  ∀ revents, poll = .answered revents → ∀ fd direction, (revents fd direction).pollhup = false

/-- The rules that nobody drops. -/
structure Alive (K : Kernel κ Fd) (ad : Adapter (κ × List (Call Fd)) Fd A)
    (rules : List (Rule Fd (TCPSpongeSocket (κ × List (Call Fd)) A) String))
    (s : TCPSpongeSocket (κ × List (Call Fd)) A) : Prop where
  datagramIn : (s.fds .device).eof = false → TCPSpongeSocket.datagramIn ad ∈ rules
  inboundOut : TCPSpongeSocket.inboundOut K.recording ∈ rules
  datagramOut : TCPSpongeSocket.datagramOut ad ∈ rules

theorem mem_of_key_ne {σ : Type} {pre post : List (Rule Fd σ String)} {r r' : Rule Fd σ String}
    (h : r' ∈ pre ++ r :: post) (hne : key r' ≠ key r) : r' ∈ pre ++ post := by
  rcases List.mem_append.mp h with hpre | hpost
  · exact List.mem_append_left _ hpre
  · rcases List.mem_cons.mp hpost with rfl | hpost
    · exact absurd rfl hne
    · exact List.mem_append_right _ hpost

/-- A rule that is dropped is at its end, as long as nothing is closed or hangs up. -/
theorem ended_of_dropped {σ : Type} {fds : σ → Fd → FDWrapper} {rule : Rule Fd σ String} {s : σ}
    {poll : Poll Fd} (hlisten : Listens poll) (hopen : (fds s rule.fd).closed = false)
    (h : rule.ended fds s = true ∨ poll.Hangs rule) :
    rule.direction = .In ∧ (fds s rule.fd).eof = true := by
  rcases h with hended | ⟨revents, hpoll, hhup⟩
  · rw [Rule.ended, hopen, Bool.or_false, Bool.and_eq_true, decide_eq_true_eq] at hended
    exact hended
  · exact absurd (hhup.symm.trans (hlisten revents hpoll _ _)) (by decide)

theorem keeps_alive (hlaw : Lawful ad .device Reads Holds)
    {s₀ : TCPSpongeSocket (κ × List (Call Fd)) A} (hopen : ∀ fd, (s₀.fds fd).closed = false)
    (z₀ : Endpoint) {poll : Poll Fd} (hlisten : Listens poll) :
    Keeps TCPSpongeSocket.fds poll
      (fun rules s => Tracks K ad Reads Holds s₀ z₀ rules s ∧ Alive K ad rules s) Unshut where
  interest rules s r h hr hended hinterest :=
    (keeps_tracks hlaw s₀ z₀ poll).interest rules s r h.1 hr hended hinterest
  cancel pre r post s s' h hwhy hcancel := by
    obtain ⟨htracks, hkeep⟩ := (keeps_tracks hlaw s₀ z₀ poll).cancel pre r post s s' h.1 hwhy hcancel
    refine ⟨⟨htracks, ?_⟩, hkeep⟩
    obtain ⟨z, hfollows⟩ := h.1.follows
    have hclosed : (s.fds r.fd).closed = false := (hfollows.steady.closed r.fd).trans (hopen r.fd)
    obtain ⟨hdirection, heof⟩ := ended_of_dropped hlisten hclosed hwhy
    have hr : r ∈ TCPSpongeSocket.rules K.recording ad := h.1.remain.subset (by simp)
    rcases mem_rules hr with rfl | rfl | rfl | rfl
    · obtain rfl := Except.ok.inj hcancel
      refine ⟨fun hno => ?_, mem_of_key_ne h.2.inboundOut ?_, mem_of_key_ne h.2.datagramOut ?_⟩
      · exact absurd (hno.symm.trans heof) Bool.false_ne_true
      · intro heq
        cases show (Fd.threadData, Direction.Out) = (.device, .In) from heq
      · intro heq
        cases show (Fd.device, Direction.Out) = (.device, .In) from heq
    · obtain rfl := Except.ok.inj hcancel
      refine ⟨fun hno => mem_of_key_ne (h.2.datagramIn hno) ?_, mem_of_key_ne h.2.inboundOut ?_,
        mem_of_key_ne h.2.datagramOut ?_⟩
      · intro heq
        cases show (Fd.device, Direction.In) = (.threadData, .In) from heq
      · intro heq
        cases show (Fd.threadData, Direction.Out) = (.threadData, .In) from heq
      · intro heq
        cases show (Fd.device, Direction.Out) = (.threadData, .In) from heq
    · cases show Direction.Out = .In from hdirection
    · cases show Direction.Out = .In from hdirection
  callback pre r post s s' h hguard hcall := by
    obtain ⟨z, hfollows⟩ := h.1.follows
    obtain ⟨htracks, hkeep⟩ := (keeps_tracks hlaw s z poll).callback pre r post s s'
      ⟨h.1.remain, z, hfollows.models.follows⟩ hguard hcall
    obtain ⟨z', hmore⟩ := htracks.follows
    refine ⟨⟨⟨h.1.remain, z', hfollows.trans hmore⟩, ⟨fun hno => h.2.datagramIn ?_, h.2.inboundOut,
      h.2.datagramOut⟩⟩, hkeep⟩
    rw [← Bool.not_eq_true]
    intro heof
    exact Bool.false_ne_true (hno.symm.trans (hmore.steady.eof .device heof))

theorem Alive.tcpRound (hlaw : Lawful ad .device Reads Holds)
    {x y : Running (κ × List (Call Fd)) A} {m : Moment} {goOn : Bool} {z : Endpoint}
    (hlisten : Listens m.poll) (hopen : ∀ fd, (x.2.fds fd).closed = false)
    (hrules : x.1.Sublist (TCPSpongeSocket.rules K.recording ad)) (h : Models Reads Holds x.2 z)
    (halive : Alive K ad x.1 x.2) (hround : TCPSpongeSocket.tcpRound ad x m = .ok (goOn, y)) :
    Alive K ad y.1 y.2 := by
  obtain ⟨ret, s, hwait, hrest⟩ := tcpRound_ok hround
  obtain ⟨htracks, halive'⟩ := (keeps_alive hlaw hopen z hlisten).wait
    ⟨⟨hrules, z, h.follows⟩, halive⟩ hwait
  rcases hrest with ⟨-, -, hy⟩ | ⟨-, -, -, htick⟩ | ⟨-, -, -, hy⟩
  · exact hy ▸ halive'
  · obtain ⟨z', hfollows⟩ := htracks.follows
    obtain ⟨z'', hmore⟩ := hfollows.models.tick hlaw htick
    refine ⟨fun hno => halive'.datagramIn ?_, halive'.inboundOut, halive'.datagramOut⟩
    rw [← Bool.not_eq_true]
    intro heof
    exact Bool.false_ne_true (hno.symm.trans (hmore.steady.eof .device heof))
  · exact hy ▸ halive'

/-- What is left to do when no rule is interested. -/
theorem idle_of_uninterested {rules : List (Rule Fd (TCPSpongeSocket (κ × List (Call Fd)) A) String)}
    {s : TCPSpongeSocket (κ × List (Call Fd)) A} {z : Endpoint} (h : Models Reads Holds s z)
    (hz : Settled z) (halive : Alive K ad rules s) (heof : (s.fds .device).eof = false)
    (hidle : ∀ rule ∈ rules, rule.interest s = false) :
    s.tcp.active = false ∧ s.tcp.segmentsOut = [] ∧ s.inbound.buffer = []
      ∧ .shutdown .threadData .wr ∈ s.calls := by
  have hactive : s.tcp.active = false := hidle _ (halive.datagramIn heof)
  have hqueue : (!s.tcp.segmentsOut.isEmpty) = false := hidle _ halive.datagramOut
  have hinbound : (!s.inbound.bufferEmpty
      || ((s.inbound.eof || s.inbound.error) && !s.inboundShutdown)) = false :=
    hidle _ halive.inboundOut
  rw [Bool.or_eq_false_iff] at hinbound
  have hbuffer : s.inbound.buffer = [] := by
    simpa [ByteStream.bufferEmpty] using hinbound.1
  have hover : (s.inbound.eof || s.inbound.error) = true := by
    have hended := hz.ended
    rw [h.conn] at hended
    rcases hended hactive with herror | hended
    · rw [show s.inbound.error = true from herror, Bool.or_true]
    · rw [ByteStream.eof, show s.inbound.inputEnded = true from hended, ByteStream.bufferEmpty,
        hbuffer]
      rfl
  have hshut : s.inboundShutdown = true := by
    have hrest := hinbound.2
    rw [hover] at hrest
    simpa using hrest
  exact ⟨hactive, by simpa using hqueue, hbuffer, h.shut hshut⟩

end Finish

/-- The connection is refused, the owner is told, and the thread returns. -/
theorem refused_life :
    ∃ y, TCPSpongeSocket.thenMain silent.recording (overUDP refusing.recording .device)
        (TCPSpongeSocket.connect silent.recording (overUDP refusing.recording .device)
          ⟨((), []), fun _ => {}⟩ {} {} 0 {} [ready, ready, ready]) = .ok (true, y)
      ∧ (y.2.fds .device).eof = false :=
  ⟨_, rfl, rfl⟩

end SpongeFinish
