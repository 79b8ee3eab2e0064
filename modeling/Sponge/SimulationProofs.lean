import Sponge.NetworkProofs
import Sponge.SocketProofs

/-! # The socket is an endpoint

    Whatever a socket does is a few steps of an endpoint, as the model of two endpoints has
    them: its functions are followed one by one (`Follows`), with the rounds of the event
    loop and then whole runs assembled from them.

    `Models` says what the two have in common: the connection, what the owner wrote and
    what was accepted, what was written to the owner and what was read, and that all that
    is on the device comes from segments that the endpoint has sent.  For the last of these
    the adapter's law needs segments without options and with short payloads, and those are
    all that a connection sends (`PlainEndpoint`). -/

namespace SpongeSimulation

open SpongeByteStream SpongeWrapping SpongeSegment SpongeReceiver SpongeSender SpongeConnection
open SpongeNetwork SpongeSocket
open SpongeDescriptor SpongeEventLoop SpongeAdapter SpongeChannel RaiseRule RunRule

/-! ## What a connection sends -/

section Plain

variable {s : TCPSender}

/-- All that the sender has queued, and all that it keeps, is standard. -/
structure Plain (s : TCPSender) : Prop where
  queued : ∀ seg ∈ s.segmentsOut, Standard seg
  kept : ∀ p ∈ s.outstandingSegments, Standard p.2

/-- Whatever was in a list and one more. -/
theorem forall_mem_concat {α : Type} {P : α → Prop} {l : List α} {a : α} (h : ∀ x ∈ l, P x)
    (ha : P a) : ∀ x ∈ l ++ [a], P x := by
  intro x hx
  rcases List.mem_append.mp hx with hold | hnew
  · exact h x hold
  · rw [List.mem_singleton.mp hnew]
    exact ha

theorem standard_buildSegment (s : TCPSender) (space : Nat) :
    Standard (s.buildSegment space).1 := by
  refine ⟨rfl, ?_⟩
  rw [TCPSender.buildSegment_length]
  exact Nat.le_trans (Nat.min_le_left _ _) (Nat.min_le_left _ _)

theorem Plain.fillRound (h : Plain s) : Plain s.fillRound.2 := by
  rw [TCPSender.fillRound]
  dsimp only
  split_ifs
  · exact h
  · exact h
  · exact ⟨h.queued, h.kept⟩
  · have hseg := standard_buildSegment s s.availableSpace
    exact ⟨forall_mem_concat h.queued hseg, forall_mem_concat h.kept hseg⟩

theorem Plain.fillWindow (h : Plain s) : Plain s.fillWindow :=
  whileTrue_keeps (fun _ hs => hs.fillRound) _ s h

theorem Plain.popRound (h : Plain s) (absAckno : Nat) : Plain (s.popRound absAckno).2 := by
  rw [TCPSender.popRound]
  split
  · exact h
  · rename_i front rest hqueue
    by_cases hacked : front.1 + front.2.lengthInSequenceSpace ≤ absAckno
    · rw [if_pos hacked]
      refine ⟨h.queued, fun p hp => h.kept p ?_⟩
      rw [hqueue]
      exact List.mem_cons_of_mem front hp
    · rw [if_neg hacked]
      exact h

theorem Plain.ackReceived (h : Plain s) (ackno : WrappingInt32) (window : BitVec 16) :
    Plain (s.ackReceived ackno window) := by
  have hnoted : Plain (s.noteAck ackno window).2 := by
    rw [TCPSender.noteAck]
    dsimp only
    split_ifs
    · exact ⟨h.queued, h.kept⟩
    · exact whileTrue_keeps (fun _ hs => hs.popRound _) _ _ ⟨h.queued, h.kept⟩
  rw [TCPSender.ackReceived]
  split_ifs
  · exact hnoted.fillWindow
  · exact hnoted

theorem Plain.empty (h : Plain s) : Plain s.sendEmptySegment :=
  ⟨forall_mem_concat h.queued ⟨rfl, Nat.zero_le _⟩, h.kept⟩

theorem Plain.flags (h : Plain s) (syn fin rst : Bool) : Plain (s.sendFlagsSegment syn fin rst) :=
  ⟨forall_mem_concat h.queued ⟨rfl, Nat.zero_le _⟩,
    forall_mem_concat h.kept ⟨rfl, Nat.zero_le _⟩⟩

theorem Plain.tick (h : Plain s) (ms : Nat) : Plain (s.tick ms) := by
  rw [TCPSender.tick]
  split_ifs
  · dsimp only
    split
    · exact ⟨h.queued, h.kept⟩
    · rename_i front rest hqueue
      have hfront : Standard front.2 := h.kept front (hqueue ▸ List.mem_cons_self ..)
      split_ifs
      · rw [TCPSender.retransmit]
        dsimp only
        split_ifs <;> exact ⟨forall_mem_concat h.queued hfront, h.kept⟩
      · exact ⟨h.queued, h.kept⟩
  · exact h

/-- The connection, too, has nothing else in its queue. -/
structure PlainConnection (c : TCPConnection) : Prop where
  sender : Plain c.sender
  out : ∀ seg ∈ c.segmentsOut, Standard seg

theorem standard_stamp {seg : TCPSegment} (h : Standard seg) (r : TCPReceiver) :
    Standard (TCPConnection.stamp r seg) := by
  rw [TCPConnection.stamp]
  dsimp only
  split <;> exact h

/-- Whatever the sender came to, what leaves is standard. -/
theorem PlainConnection.flushed {c c' : TCPConnection} {t : TCPSender} (h : PlainConnection c)
    (ht : Plain t) (hflushed : TCPConnection.Flushed c t c') : PlainConnection c' := by
  refine ⟨?_, fun seg hseg => ?_⟩
  · rw [hflushed.sender]
    exact ⟨fun _ hseg => absurd hseg List.not_mem_nil, ht.kept⟩
  · rw [hflushed.segmentsOut] at hseg
    rcases List.mem_append.mp hseg with hold | hnew
    · exact h.out seg hold
    · obtain ⟨out, hout, rfl⟩ := List.mem_map.mp hnew
      exact standard_stamp (ht.queued out hout) _

theorem plain_replies {r : TCPReceiver} {seg : TCPSegment} (h : Plain s) :
    Plain (TCPConnection.replyToKeepAlive r (TCPConnection.replyToData s seg) seg) := by
  have hdata : Plain (TCPConnection.replyToData s seg) := by
    rw [TCPConnection.replyToData]
    split_ifs
    · exact h.fillWindow.empty
    · exact h.fillWindow
    · exact h
  rw [TCPConnection.replyToKeepAlive]
  split
  · split_ifs
    · exact hdata.empty
    · exact hdata
  · exact hdata

theorem PlainConnection.segmentReceived {c c' : TCPConnection} {seg : TCPSegment}
    (h : PlainConnection c) (hc : c.segmentReceived seg = some c') : PlainConnection c' := by
  rcases TCPConnection.segmentReceived_cases hc with ⟨-, hkilled⟩ | ⟨ackno, htaken⟩
  · rw [hkilled]
    exact ⟨⟨h.sender.queued, h.sender.kept⟩, h.out⟩
  · exact h.flushed (plain_replies (h.sender.ackReceived _ _)) htaken.flushed

theorem PlainConnection.tick {c : TCPConnection} (h : PlainConnection c) (ms : Nat) :
    PlainConnection (c.tick ms) := by
  rw [TCPConnection.tick]
  dsimp only
  split_ifs
  · have hreset := h.sender.flags false false true
    exact h.flushed (t := { c.sender.sendFlagsSegment false false true with
      stream := c.sender.stream.setError }) ⟨hreset.queued, hreset.kept⟩ ⟨rfl, rfl⟩
  · rw [TCPConnection.closeIfDone]
    dsimp only
    split_ifs <;> exact h.flushed (h.sender.tick ms) ⟨rfl, rfl⟩

/-- **WHAT AN ENDPOINT SENDS**: segments without options, with short payloads. -/
structure PlainEndpoint (z : Endpoint) : Prop where
  conn : PlainConnection z.conn
  sent : ∀ seg ∈ z.sent, Standard seg

theorem plain_new (cfg : TCPConfig) (random : BitVec 32) : PlainEndpoint (.new cfg random) :=
  ⟨⟨⟨fun _ h => absurd h List.not_mem_nil, fun _ h => absurd h List.not_mem_nil⟩,
    fun _ h => absurd h List.not_mem_nil⟩, fun _ h => absurd h List.not_mem_nil⟩

theorem PlainEndpoint.act {p z z' : Endpoint} {op : SpongeNetwork.Op} (h : PlainEndpoint z)
    (hact : Endpoint.act p z op = some z') : PlainEndpoint z' := by
  have hc := h.conn
  cases op with
  | connect =>
      rw [← Option.some.inj hact]
      exact ⟨hc.flushed hc.sender.fillWindow ⟨rfl, rfl⟩, h.sent⟩
  | write data =>
      rw [Endpoint.act] at hact
      split_ifs at hact
      rw [← Option.some.inj hact]
      have hwrote : Plain { z.conn.sender with stream := (z.conn.sender.stream.write data).2 } :=
        ⟨hc.sender.queued, hc.sender.kept⟩
      exact ⟨hc.flushed hwrote.fillWindow ⟨rfl, rfl⟩, h.sent⟩
  | endInputStream =>
      rw [← Option.some.inj hact]
      have hended : Plain { z.conn.sender with stream := z.conn.sender.stream.endInput } :=
        ⟨hc.sender.queued, hc.sender.kept⟩
      refine ⟨?_, h.sent⟩
      show PlainConnection z.conn.endInputStream
      rw [TCPConnection.endInputStream]
      dsimp only
      split_ifs <;> exact hc.flushed hended.fillWindow ⟨rfl, rfl⟩
  | tick ms =>
      rw [← Option.some.inj hact]
      exact ⟨hc.tick ms, h.sent⟩
  | read len =>
      rw [← Option.some.inj hact]
      exact ⟨⟨hc.sender, hc.out⟩, h.sent⟩
  | transmit =>
      rw [Endpoint.act] at hact
      split at hact
      · cases hact
      · rename_i seg rest hout
        rw [← Option.some.inj hact]
        have hall := hc.out
        rw [hout] at hall
        exact ⟨⟨hc.sender, fun seg' hseg' => hall seg' (List.mem_cons_of_mem seg hseg')⟩,
          forall_mem_concat h.sent (hall seg (List.mem_cons_self ..))⟩
  | deliver i =>
      obtain ⟨seg, -, hrest⟩ := Option.bind_eq_some_iff.mp hact
      obtain ⟨c, hreceived, rfl⟩ := Option.map_eq_some_iff.mp hrest
      exact ⟨hc.segmentReceived hreceived, h.sent⟩

end Plain

/-! ## Every function of the socket is a few steps of an endpoint -/

/-- Steps of an endpoint to which only segments with `R` are delivered. -/
inductive Dealt (R : TCPSegment → Prop) (z : Endpoint) : Endpoint → Prop
  | refl : Dealt R z z
  | act {p y x : Endpoint} {e : SpongeNetwork.Op} (before : Dealt R z y)
      (offered : ∀ seg ∈ p.sent, R seg) (last : Endpoint.act p y e = some x) : Dealt R z x

section Dealt

variable {R R' : TCPSegment → Prop} {x y z : Endpoint}

theorem Dealt.mono (h : Dealt R z y) (hR : ∀ seg, R seg → R' seg) : Dealt R' z y := by
  induction h with
  | refl => exact .refl
  | act _ offered last ih => exact .act ih (fun seg hseg => hR seg (offered seg hseg)) last

theorem Dealt.trans (h : Dealt R z y) (h' : Dealt R y x) : Dealt R z x := by
  induction h' with
  | refl => exact h
  | act _ offered last ih => exact .act ih offered last

/-- What every step of an endpoint keeps. -/
theorem Dealt.keeps {I : Endpoint → Prop} (h : Dealt R z y)
    (hstep : ∀ p x op x', I x → Endpoint.act p x op = some x' → I x') (hz : I z) : I y := by
  induction h with
  | refl => exact hz
  | act _ _ last ih => exact hstep _ _ _ _ ih last

theorem Dealt.plain (h : Dealt R z y) (hz : PlainEndpoint z) : PlainEndpoint y :=
  h.keeps (fun _ _ _ _ => PlainEndpoint.act) hz

/-- An own step of the endpoint, with no peer that matters. -/
theorem Dealt.own (op : SpongeNetwork.Op) (h : Endpoint.act (.new {} 0) z op = some y) :
    Dealt R z y :=
  .act .refl (fun _ hseg => absurd hseg List.not_mem_nil) h

/-- A segment is delivered. -/
theorem Dealt.segment {seg : TCPSegment} {c : TCPConnection} (hR : R seg)
    (h : z.conn.segmentReceived seg = some c) : Dealt R z (z.become c) := by
  refine .act (p := { z with sent := [seg] }) (e := .deliver 0) .refl (fun seg' hseg' => ?_) ?_
  · rw [List.mem_singleton.mp hseg']
    exact hR
  · show (z.conn.segmentReceived seg).map z.become = _
    rw [h]
    rfl

end Dealt

/-- The inbound stream of the connection ended or failed. -/
def Over (c : TCPConnection) : Prop :=
  c.receiver.streamOut.error = true ∨ c.receiver.streamOut.inputEnded = true

/-- It stays so. -/
theorem over_act {p z z' : Endpoint} {op : SpongeNetwork.Op} (h : Over z.conn)
    (hact : Endpoint.act p z op = some z') : Over z'.conn := by
  rw [Over]
  cases (acted hact).inbound with
  | same hreceiver _ => rw [hreceiver]; exact h
  | error hreceiver _ => rw [hreceiver]; exact Or.inl rfl
  | read len hreceiver _ => rw [hreceiver]; exact h
  | segment seg _ _ hreceiver _ =>
      rw [hreceiver]
      exact h.imp (TCPReceiver.frame_segment _ seg).error.trans
        (TCPReceiver.progress_segment _ seg).ended

theorem Dealt.over {R : TCPSegment → Prop} {z z' : Endpoint} (h : Dealt R z z')
    (hz : Over z.conn) : Over z'.conn :=
  h.keeps (fun _ _ _ _ => over_act) hz

/-- The segment can be read from a datagram that was read from the device. -/
def ReadFrom (Reads : List Byte → TCPSegment → Prop) (calls : List (Call Fd)) (seg : TCPSegment) :
    Prop :=
  ∃ bytes, .read .device bytes ∈ calls ∧ Reads bytes seg

/-- **THE SOCKET AND ITS ENDPOINT**: the connection is the endpoint's, what the owner wrote
    was accepted, what was read was written to the owner, and what is on the device comes
    from segments that were sent. -/
structure Models {κ A : Type} (Reads : List Byte → TCPSegment → Prop)
    (Holds : List TCPSegment → A → Prop) (s : TCPSpongeSocket (κ × List (Call Fd)) A)
    (z : Endpoint) : Prop where
  conn : z.conn = s.tcp
  accepted : z.accepted = received .threadData s.calls
  readBytes : z.readBytes = sent .threadData s.calls
  closed : z.closed = s.outboundShutdown
  holds : Holds z.sent s.adapter
  written : WrittenFrom Reads .device z.sent s.calls
  shut : s.inboundShutdown = true → .shutdown .threadData .wr ∈ s.calls
  told : .shutdown .threadData .wr ∈ s.calls → Over z.conn
  plain : PlainEndpoint z

/-- The socket came from `s` to `s'`, and its endpoint with it. -/
structure Follows {κ A : Type} (Reads : List Byte → TCPSegment → Prop)
    (Holds : List TCPSegment → A → Prop) (s : TCPSpongeSocket (κ × List (Call Fd)) A)
    (z : Endpoint) (s' : TCPSpongeSocket (κ × List (Call Fd)) A) (z' : Endpoint) : Prop where
  calls : s.calls <+: s'.calls
  steady : Steady s.world s'.world
  dealt : Dealt (ReadFrom Reads s'.calls) z z'
  models : Models Reads Holds s' z'

section Simulation

variable {κ A : Type} {K : Kernel κ Fd} {ad : Adapter (κ × List (Call Fd)) Fd A}
  {Reads : List Byte → TCPSegment → Prop} {Holds : List TCPSegment → A → Prop}
  {s s' s'' : TCPSpongeSocket (κ × List (Call Fd)) A} {z z' z'' : Endpoint}

theorem ReadFrom.mono {calls calls' : List (Call Fd)} (h : calls <+: calls') {seg : TCPSegment}
    (hseg : ReadFrom Reads calls seg) : ReadFrom Reads calls' seg := by
  obtain ⟨bytes, hmem, hreads⟩ := hseg
  exact ⟨bytes, h.subset hmem, hreads⟩

theorem Models.follows (h : Models Reads Holds s z) : Follows Reads Holds s z s z :=
  ⟨List.prefix_refl _, .refl _, .refl, h⟩

theorem Follows.trans (h : Follows Reads Holds s z s' z') (h' : Follows Reads Holds s' z' s'' z'') :
    Follows Reads Holds s z s'' z'' :=
  ⟨h.calls.trans h'.calls, h.steady.trans h'.steady,
    (h.dealt.mono fun _ => ReadFrom.mono h'.calls).trans h'.dealt, h'.models⟩

/-- Rule 1 delivers at most one segment. -/
theorem Models.datagramIn (hlaw : Lawful ad .device Reads Holds) (h : Models Reads Holds s z)
    {seg : Option TCPSegment} (hstep : TCPSpongeSocket.DatagramIn ad s s' seg) :
    ∃ z', Follows Reads Holds s z s' z' := by
  obtain ⟨bytes, w₁, out, harrives, hemits, hholds, hout, hreads⟩ :=
    hlaw.read z.sent s.world s.adapter seg s'.adapter s'.world h.holds hstep.read
  have hcalls : s'.calls = s.calls ++ (.read .device bytes :: out.map (.write .device)) := by
    rw [TCPSpongeSocket.calls, hemits.calls, harrives.calls, List.append_assoc]
    rfl
  have hread : .read .device bytes ∈ s'.calls := by
    rw [hcalls]
    simp
  have haccepted : z.accepted = received .threadData s'.calls := by
    rw [TCPSpongeSocket.calls, hemits.received, harrives.received (by decide)]
    exact h.accepted
  have hreadBytes : z.readBytes = sent .threadData s'.calls := by
    rw [TCPSpongeSocket.calls, hemits.sent (by decide), harrives.sent]
    exact h.readBytes
  have hclosed : z.closed = s'.outboundShutdown := by
    rw [hstep.outbound]
    exact h.closed
  have hwritten : WrittenFrom Reads .device z.sent s'.calls :=
    (WrittenFrom.arrives h.written harrives).emits (List.Subset.refl _) hemits hout
  have hshut : s'.inboundShutdown = true → .shutdown .threadData .wr ∈ s'.calls := by
    intro hshut
    rw [hcalls]
    exact List.mem_append_left _ (h.shut (hstep.inbound.symm.trans hshut))
  have htold : .shutdown .threadData .wr ∈ s'.calls → Over z.conn := by
    intro htold
    rw [hcalls] at htold
    exact h.told (by simpa using htold)
  have hsteady : Steady s.world s'.world := harrives.steady.trans hemits.steady
  rcases hstep.heard with ⟨rfl, htcp⟩ | ⟨x, rfl, hreceived⟩
  · exact ⟨z, ⟨_, hcalls.symm⟩, hsteady, .refl,
      ⟨h.conn.trans htcp.symm, haccepted, hreadBytes, hclosed, hholds, hwritten, hshut, htold,
        h.plain⟩⟩
  · rw [← h.conn] at hreceived
    have hdealt : Dealt (ReadFrom Reads s'.calls) z (z.become s'.tcp) :=
      .segment ⟨bytes, hread, hreads x rfl⟩ hreceived
    exact ⟨_, ⟨_, hcalls.symm⟩, hsteady, hdealt,
      ⟨rfl, haccepted, hreadBytes, hclosed, hholds, hwritten, hshut, fun hmem => hdealt.over (htold hmem),
        hdealt.plain h.plain⟩⟩

/-- The outbound stream is ended, also a second time. -/
theorem Models.endOutbound (h : Models Reads Holds s z) :
    ∃ z', Follows Reads Holds s z s.endOutbound z' := by
  have hdealt : Dealt (ReadFrom Reads s.calls) z
      { z.become z.conn.endInputStream with closed := true } := .own .endInputStream rfl
  exact ⟨_, List.prefix_refl _, .refl _, hdealt, ⟨congrArg TCPConnection.endInputStream h.conn,
    h.accepted, h.readBytes, rfl, h.holds, h.written, h.shut, fun hmem => hdealt.over (h.told hmem),
    hdealt.plain h.plain⟩⟩

/-- Rule 2 writes what it reads, and may end the stream. -/
theorem Models.outboundIn (h : Models Reads Holds s z) {data : List Byte}
    (hopen : s.outboundShutdown = false) (hstep : TCPSpongeSocket.OutboundIn s s' data) :
    ∃ z', Follows Reads Holds s z s' z' := by
  -- the state between the write and the end of the stream
  let s₁ : TCPSpongeSocket (κ × List (Call Fd)) A :=
    { s with world := s'.world, tcp := (s.tcp.write data).2 }
  let z₁ : Endpoint :=
    { z.become (z.conn.write data).2 with accepted := z.accepted ++ data.take (z.conn.write data).1 }
  have hact : Endpoint.act (.new {} 0) z (.write data) = some z₁ := by
    rw [Endpoint.act, h.closed, hopen]
    rfl
  have hdealt : Dealt (ReadFrom Reads s₁.calls) z z₁ := .own _ hact
  have hcalls : s₁.calls = s.calls ++ [.read .threadData data] := hstep.read.calls
  have hsteady : Steady s.world s₁.world := by
    refine steady_of_others hstep.read.closed (fun heof => ?_) hstep.read.others
    rw [hstep.read.eof, heof, Bool.true_or]
  have hfollows : Follows Reads Holds s z s₁ z₁ := by
    refine ⟨⟨_, hcalls.symm⟩, hsteady, hdealt,
      ⟨congrArg (fun c => (TCPConnection.write c data).2) h.conn, ?_, ?_, h.closed, h.holds, ?_,
        fun hshut => ?_, fun hmem => hdealt.over (h.told ?_), hdealt.plain h.plain⟩⟩
    · show z.accepted ++ data.take (z.conn.write data).1 = _
      rw [h.conn, hstep.accepted, List.take_length, hcalls, received_append, received_read,
        if_pos rfl, h.accepted]
    · show z.readBytes = _
      rw [hcalls, sent_append, sent_read, List.append_nil, h.readBytes]
    · intro bytes hbytes
      rw [hcalls] at hbytes
      rcases List.mem_append.mp hbytes with hold | hnew
      · exact h.written bytes hold
      · cases List.mem_singleton.mp hnew
    · rw [hcalls]
      exact List.mem_append_left _ (h.shut hshut)
    · rw [hcalls] at hmem
      simpa using hmem
  rcases hstep.ended with ⟨-, htcp, hshut⟩ | ⟨-, htcp, hshut⟩
  · obtain ⟨z', hended⟩ := hfollows.models.endOutbound
    have hall := hfollows.trans hended
    have hm := hall.models
    exact ⟨z', hall.calls, hall.steady, hall.dealt, ⟨hm.conn.trans htcp.symm, hm.accepted,
      hm.readBytes, hm.closed.trans hshut.symm, hstep.adapter ▸ hm.holds, hm.written,
      hstep.inbound ▸ hm.shut, hm.told, hm.plain⟩⟩
  · have hm := hfollows.models
    exact ⟨z₁, hfollows.calls, hfollows.steady, hfollows.dealt, ⟨hm.conn.trans htcp.symm,
      hm.accepted, hm.readBytes, hm.closed.trans hshut.symm, hstep.adapter ▸ hm.holds, hm.written,
      hstep.inbound ▸ hm.shut, hm.told, hm.plain⟩⟩

/-- As much as there is can as well be read. -/
theorem popInbound_eq_readInbound {c : TCPConnection} {n : Nat}
    (h : n ≤ c.receiver.streamOut.buffer.length) : c.popInbound n = c.readInbound n := by
  have hlength : (c.receiver.streamOut.peekOutput n).length = n := by
    rw [ByteStream.peekOutput, List.length_take]
    exact Nat.min_eq_left h
  have hstream : c.receiver.streamOut.popOutput n = (c.receiver.streamOut.read n).2 :=
    congrArg c.receiver.streamOut.popOutput hlength.symm
  have hreassembler : c.receiver.reassembler.popOut n = c.receiver.reassembler.readOut n :=
    congrArg (fun stream => { c.receiver.reassembler with output := stream }) hstream
  rw [TCPConnection.popInbound, TCPConnection.readInbound, TCPReceiver.popOut, TCPReceiver.readOut]
  simp only [hreassembler]

/-- Rule 3 hands over what it writes. -/
theorem Models.inboundOut (h : Models Reads Holds s z) {n : Nat}
    {w : World (κ × List (Call Fd)) Fd} (hstep : TCPSpongeSocket.InboundOut s s' n w) :
    ∃ z', Follows Reads Holds s z s' z' := by
  let z₁ : Endpoint :=
    { z.become (z.conn.readInbound n) with
      readBytes := z.readBytes ++ (z.conn.receiver.streamOut.read n).1 }
  have hdealt : Dealt (ReadFrom Reads s'.calls) z z₁ := .own (.read n) rfl
  have hfits := hstep.write.fits
  rw [List.length_take] at hfits
  have hn : n ≤ s.tcp.receiver.streamOut.buffer.length := Nat.le_trans hfits (Nat.min_le_right _ _)
  have hwrite : w.kernel.2 = s.calls ++ [.write .threadData (s.inbound.buffer.take n)] := by
    rw [hstep.write.calls, List.take_take, Nat.min_eq_left (Nat.le_trans hfits (Nat.min_le_left _ _))]
    rfl
  -- shutting down moves no bytes
  have hcalls : s'.calls = s.calls ++ [.write .threadData (s.inbound.buffer.take n)]
      ∨ s'.calls = s.calls
        ++ [.write .threadData (s.inbound.buffer.take n), .shutdown .threadData .wr] := by
    rw [TCPSpongeSocket.calls]
    rcases hstep.rest with ⟨hw, -, -⟩ | ⟨-, -, hshutdown, -⟩
    · rw [hw]
      exact Or.inl hwrite
    · rw [hshutdown, hwrite, List.append_assoc]
      exact Or.inr rfl
  have hprefix : s.calls <+: s'.calls := by
    rcases hcalls with hcalls | hcalls <;> exact ⟨_, hcalls.symm⟩
  refine ⟨z₁, hprefix, hstep.steady, hdealt, ⟨?_, ?_, ?_, ?_, ?_, ?_, ?_, ?_, hdealt.plain h.plain⟩⟩
  · rw [hstep.tcp, popInbound_eq_readInbound hn, ← h.conn]
    rfl
  · show z.accepted = _
    rw [h.accepted]
    rcases hcalls with hcalls | hcalls <;> simp [hcalls, received]
  · show z.readBytes ++ _ = _
    rw [h.readBytes, h.conn, ByteStream.read_fst]
    rcases hcalls with hcalls | hcalls <;> simp [hcalls, sent, TCPSpongeSocket.inbound]
  · rw [hstep.outbound]
    exact h.closed
  · rw [hstep.adapter]
    exact h.holds
  · intro bytes hbytes
    refine h.written bytes ?_
    rcases hcalls with hcalls | hcalls <;> simpa [hcalls] using hbytes
  · intro hshut
    rcases hstep.rest with ⟨-, hsame, -⟩ | ⟨-, -, hshutdown, -⟩
    · exact hprefix.subset (h.shut (hsame.symm.trans hshut))
    · rw [TCPSpongeSocket.calls, hshutdown]
      exact List.mem_append_right _ (List.mem_singleton_self _)
  · intro htold
    rcases hstep.rest with ⟨hw, -, -⟩ | ⟨hover, -, -, -⟩
    · rw [TCPSpongeSocket.calls, hw, hwrite] at htold
      exact hdealt.over (h.told (by simpa using htold))
    · -- the end is told where it is found
      rw [TCPSpongeSocket.inbound, hstep.tcp, popInbound_eq_readInbound hn, ← h.conn] at hover
      rcases Bool.or_eq_true_iff.mp hover with heof | herror
      · exact Or.inr ((SpongeState.eof_iff _).mp heof).1
      · exact Or.inl herror

/-- The adapter writes to the device while the endpoint goes on to `z'`. -/
theorem Models.emits (h : Models Reads Holds s z) {tcp : TCPConnection} {out : List (List Byte)}
    {a : A} {w : World (κ × List (Call Fd)) Fd}
    (hdealt : Dealt (ReadFrom Reads s.calls) z z') (hconn : z'.conn = tcp)
    (hsame : z'.accepted = z.accepted ∧ z'.readBytes = z.readBytes ∧ z'.closed = z.closed)
    (hsent : z.sent ⊆ z'.sent) (hholds : Holds z'.sent a) (hemits : Emits .device out s.world w)
    (hout : ∀ o ∈ out, Faithful Reads z'.sent o) :
    Follows Reads Holds s z { s with world := w, adapter := a, tcp := tcp } z' := by
  have hcalls : s.calls <+: w.kernel.2 := ⟨_, hemits.calls.symm⟩
  refine ⟨hcalls, hemits.steady, hdealt.mono fun _ => ReadFrom.mono hcalls, ⟨hconn, ?_, ?_, ?_,
    hholds, WrittenFrom.emits h.written hsent hemits hout, fun hshut => hcalls.subset (h.shut hshut),
    fun htold => hdealt.over (h.told ?_), hdealt.plain h.plain⟩⟩
  · rw [TCPSpongeSocket.calls, hemits.received, hsame.1]
    exact h.accepted
  · rw [TCPSpongeSocket.calls, hemits.sent (by decide), hsame.2.1]
    exact h.readBytes
  · exact hsame.2.2.trans h.closed
  · rw [TCPSpongeSocket.calls, hemits.calls] at htold
    simpa [TCPSpongeSocket.calls] using htold

/-- Rule 4 sends the segments, one by one. -/
theorem Models.sendSegments (hlaw : Lawful ad .device Reads Holds) :
    ∀ (queue : List TCPSegment) (s s' : TCPSpongeSocket (κ × List (Call Fd)) A) (z : Endpoint),
      Models Reads Holds s z → s.tcp.segmentsOut = queue →
      TCPSpongeSocket.sendSegments ad queue s = .ok s' → ∃ z', Follows Reads Holds s z s' z' := by
  intro queue
  induction queue with
  | nil =>
      intro s s' z h _ hsend
      obtain rfl := Except.ok.inj hsend
      exact ⟨z, h.follows⟩
  | cons seg rest ih =>
      intro s s' z h hqueue hsend
      obtain ⟨⟨adapter, world⟩, hwrite, hrest⟩ := bind_eq_ok.mp hsend
      let z₁ : Endpoint :=
        { z.become { z.conn with segmentsOut := rest } with sent := z.sent ++ [seg] }
      have hout : z.conn.segmentsOut = seg :: rest :=
        (congrArg TCPConnection.segmentsOut h.conn).trans hqueue
      have hact : Endpoint.act (.new {} 0) z .transmit = some z₁ := by
        rw [Endpoint.act, hout]
      have hstandard : Standard seg := (h.plain.act hact).sent seg (by simp [z₁])
      obtain ⟨out, hemits, hholds, hfaithful⟩ :=
        hlaw.write z.sent s.world s.adapter seg adapter world h.holds hstandard hwrite
      have hone := h.emits (.own _ hact)
        (congrArg (fun c : TCPConnection => { c with segmentsOut := rest }) h.conn) ⟨rfl, rfl, rfl⟩
        (List.subset_append_left _ _) hholds hemits hfaithful
      obtain ⟨z', hmore⟩ := ih _ s' z₁ hone.models rfl hrest
      exact ⟨z', hone.trans hmore⟩

/-- Time passes. -/
theorem Models.tick (hlaw : Lawful ad .device Reads Holds) (h : Models Reads Holds s z) {ms : Nat}
    (htick : s.tick ad ms = .ok s') : ∃ z', Follows Reads Holds s z s' z' := by
  obtain ⟨⟨adapter, world⟩, hadapter, heq⟩ := bind_eq_ok.mp htick
  obtain rfl := Except.ok.inj heq
  obtain ⟨out, hemits, hholds, hfaithful⟩ :=
    hlaw.tick z.sent s.world s.adapter ms adapter world h.holds hadapter
  exact ⟨z.become (z.conn.tick ms), h.emits (.own (.tick ms) rfl)
    (congrArg (TCPConnection.tick · ms) h.conn) ⟨rfl, rfl, rfl⟩ (List.Subset.refl _) hholds hemits
    hfaithful⟩

/-! ## Every round of the thread is a few steps of an endpoint -/

/-- The rules that are left, and an endpoint that came from `z₀`. -/
structure Tracks (K : Kernel κ Fd) (ad : Adapter (κ × List (Call Fd)) Fd A)
    (Reads : List Byte → TCPSegment → Prop) (Holds : List TCPSegment → A → Prop)
    (s₀ : TCPSpongeSocket (κ × List (Call Fd)) A) (z₀ : Endpoint)
    (rules : List (Rule Fd (TCPSpongeSocket (κ × List (Call Fd)) A) String))
    (s : TCPSpongeSocket (κ × List (Call Fd)) A) : Prop where
  remain : rules.Sublist (TCPSpongeSocket.rules K.recording ad)
  follows : ∃ z, Follows Reads Holds s₀ z₀ s z

/-- What rule 2 may rely on. -/
def Unshut (rule : Rule Fd (TCPSpongeSocket (κ × List (Call Fd)) A) String)
    (s : TCPSpongeSocket (κ × List (Call Fd)) A) : Prop :=
  key rule = (.threadData, .In) → s.outboundShutdown = false

/-- **ONE WAIT** keeps track. -/
theorem keeps_tracks (hlaw : Lawful ad .device Reads Holds)
    (s₀ : TCPSpongeSocket (κ × List (Call Fd)) A) (z₀ : Endpoint) (poll : Poll Fd) :
    Keeps TCPSpongeSocket.fds poll (Tracks K ad Reads Holds s₀ z₀) Unshut where
  interest rules s r h hr _ hinterest := by
    intro hkey
    rcases mem_rules (h.remain.subset hr) with rfl | rfl | rfl | rfl
    · cases show (Fd.device, Direction.In) = (.threadData, .In) from hkey
    · have hboth : (s.tcp.active && !s.outboundShutdown
          && decide (s.tcp.sender.stream.remainingCapacity > 0)) = true := hinterest
      simp only [Bool.and_eq_true, Bool.not_eq_true'] at hboth
      exact hboth.1.2
    · cases show (Fd.threadData, Direction.Out) = (.threadData, .In) from hkey
    · cases show (Fd.device, Direction.Out) = (.threadData, .In) from hkey
  cancel pre r post s s' h _ hcancel := by
    have hsub : (pre ++ post).Sublist (TCPSpongeSocket.rules K.recording ad) :=
      (List.sublist_append_right [r] post |>.append_left pre).trans h.remain
    have hr : r ∈ TCPSpongeSocket.rules K.recording ad := h.remain.subset (by simp)
    obtain ⟨z, hfollows⟩ := h.follows
    rcases mem_rules hr with rfl | rfl | rfl | rfl
    · obtain rfl := Except.ok.inj hcancel
      exact ⟨⟨hsub, z, hfollows⟩, fun _ _ hg => hg⟩
    · obtain rfl := Except.ok.inj hcancel
      obtain ⟨z', hended⟩ := hfollows.models.endOutbound
      exact ⟨⟨hsub, z', hfollows.trans hended⟩, fun r' hr' _ hkey =>
        absurd hkey (key_ne h.remain hr')⟩
    · obtain rfl := Except.ok.inj hcancel
      exact ⟨⟨hsub, z, hfollows⟩, fun _ _ hg => hg⟩
    · obtain rfl := Except.ok.inj hcancel
      exact ⟨⟨hsub, z, hfollows⟩, fun _ _ hg => hg⟩
  callback pre r post s s' h hguard hcall := by
    have hr : r ∈ TCPSpongeSocket.rules K.recording ad := h.remain.subset (by simp)
    obtain ⟨z, hfollows⟩ := h.follows
    rcases mem_rules hr with rfl | rfl | rfl | rfl
    · obtain ⟨seg, hstep⟩ := TCPSpongeSocket.datagramIn_callback hcall
      obtain ⟨z', hmore⟩ := hfollows.models.datagramIn hlaw hstep
      refine ⟨⟨h.remain, z', hfollows.trans hmore⟩, fun r' _ hg hkey => ?_⟩
      rw [hstep.outbound]
      exact hg hkey
    · obtain ⟨data, hstep⟩ := TCPSpongeSocket.outboundIn_callback hcall
      obtain ⟨z', hmore⟩ := hfollows.models.outboundIn (hguard rfl) hstep
      exact ⟨⟨h.remain, z', hfollows.trans hmore⟩, fun r' hr' _ hkey =>
        absurd hkey (key_ne h.remain hr')⟩
    · obtain ⟨n, w, hstep⟩ := TCPSpongeSocket.inboundOut_callback hcall
      obtain ⟨z', hmore⟩ := hfollows.models.inboundOut hstep
      refine ⟨⟨h.remain, z', hfollows.trans hmore⟩, fun r' _ hg hkey => ?_⟩
      rw [hstep.outbound]
      exact hg hkey
    · obtain ⟨z', hmore⟩ := Models.sendSegments hlaw _ s s' z hfollows.models rfl hcall
      refine ⟨⟨h.remain, z', hfollows.trans hmore⟩, fun r' _ hg hkey => ?_⟩
      rw [(sendSegments_outbound _ s s' hcall).1]
      exact hg hkey

/-- **ONE ROUND**: the endpoint follows. -/
theorem Models.tcpRound (hlaw : Lawful ad .device Reads Holds)
    {x y : Running (κ × List (Call Fd)) A} {m : Moment} {goOn : Bool}
    (hrules : x.1.Sublist (TCPSpongeSocket.rules K.recording ad)) (h : Models Reads Holds x.2 z)
    (hround : TCPSpongeSocket.tcpRound ad x m = .ok (goOn, y)) :
    y.1.Sublist (TCPSpongeSocket.rules K.recording ad) ∧ ∃ z', Follows Reads Holds x.2 z y.2 z' := by
  obtain ⟨ret, s, hwait, hrest⟩ := tcpRound_ok hround
  have htracks := (keeps_tracks hlaw x.2 z m.poll).wait ⟨hrules, z, h.follows⟩ hwait
  refine ⟨htracks.remain, ?_⟩
  obtain ⟨z', hfollows⟩ := htracks.follows
  rcases hrest with ⟨-, -, hy⟩ | ⟨-, -, -, htick⟩ | ⟨-, -, -, hy⟩
  · exact ⟨z', hy ▸ hfollows⟩
  · obtain ⟨z'', hmore⟩ := hfollows.models.tick hlaw htick
    exact ⟨z'', hfollows.trans hmore⟩
  · exact ⟨z', hy ▸ hfollows⟩

/-! ## Whole lives of a socket -/

/-- What a socket starts with: an adapter that holds nothing back, and descriptors on which
    nothing was done, up to what the adapter's constructor writes. -/
structure Fresh (Reads : List Byte → TCPSegment → Prop) (Holds : List TCPSegment → A → Prop)
    (w : World (κ × List (Call Fd)) Fd) (a : A) : Prop where
  holds : Holds [] a
  written : WrittenFrom Reads .device [] w.kernel.2
  received : received .threadData w.kernel.2 = []
  sent : sent .threadData w.kernel.2 = []
  untold : .shutdown .threadData .wr ∉ w.kernel.2
  closed : ∀ fd, (w.fds fd).closed = false

/-- The socket is about to enter the loop of `connect` or of `listen_and_accept`. -/
def Begun [Popped] (K : Kernel κ Fd) (ad : Adapter (κ × List (Call Fd)) Fd A)
    (w : World (κ × List (Call Fd)) Fd) (a : A) (cfg : TCPConfig) (random : BitVec 32)
    (x : Running (κ × List (Call Fd)) A) : Prop :=
  ∃ config, x = TCPSpongeSocket.connecting K.recording ad w a cfg random config
    ∨ x = TCPSpongeSocket.listening K.recording ad w a cfg random config

theorem Begun.models (hlaw : Lawful ad .device Reads Holds) {w : World (κ × List (Call Fd)) Fd}
    {a : A} (hfresh : Fresh Reads Holds w a) {cfg : TCPConfig} {random : BitVec 32}
    {x : Running (κ × List (Call Fd)) A} (h : Begun K ad w a cfg random x) :
    x.1 = TCPSpongeSocket.rules K.recording ad ∧ x.2.world = w
      ∧ ∃ z, Dealt (fun _ => False) (.new cfg random) z ∧ Models Reads Holds x.2 z := by
  obtain ⟨config, rfl | rfl⟩ := h
  · have hdealt : Dealt (fun _ => False) (.new cfg random)
        ((Endpoint.new cfg random).become (TCPConnection.new cfg random).connect) :=
      .own .connect rfl
    exact ⟨rfl, rfl, _, hdealt, rfl, hfresh.received.symm, hfresh.sent.symm, rfl,
      hlaw.config _ _ config hfresh.holds, hfresh.written, fun h => absurd h Bool.false_ne_true,
      fun hmem => absurd hmem hfresh.untold, hdealt.plain (plain_new cfg random)⟩
  · exact ⟨rfl, rfl, _, .refl, rfl, hfresh.received.symm, hfresh.sent.symm, rfl,
      hlaw.listening _ _ true (hlaw.config _ _ config hfresh.holds), hfresh.written,
      fun h => absurd h Bool.false_ne_true, fun hmem => absurd hmem hfresh.untold,
      plain_new cfg random⟩

/-- **EVERY RUN OF ROUNDS**: the endpoint follows. -/
theorem Models.run (hlaw : Lawful ad .device Reads Holds) {x y : Running (κ × List (Call Fd)) A}
    (hrules : x.1.Sublist (TCPSpongeSocket.rules K.recording ad)) (h : Models Reads Holds x.2 z)
    {ms : List Moment} (hrun : run (go ad) x ms = some y) :
    y.1.Sublist (TCPSpongeSocket.rules K.recording ad) ∧ ∃ z', Follows Reads Holds x.2 z y.2 z' := by
  refine run_keeps (I := fun y : Running (κ × List (Call Fd)) A =>
    y.1.Sublist (TCPSpongeSocket.rules K.recording ad) ∧ ∃ z', Follows Reads Holds x.2 z y.2 z')
    (fun y m y' hy hgo => ?_) ⟨hrules, z, h.follows⟩ hrun
  obtain ⟨goOn, hround⟩ := go_eq_some hgo
  obtain ⟨hsub, z', hfollows⟩ := hy
  obtain ⟨hsub', z'', hmore⟩ := hfollows.models.tcpRound hlaw hsub hround
  exact ⟨hsub', z'', hfollows.trans hmore⟩

/-- **THE SOCKET IS AN ENDPOINT**, with any kernel, any lawful adapter, and whatever the owner
    and the network do: after any rounds there is an endpoint to which only segments were
    delivered that can be read from what arrived on the device, whose connection the socket
    has, which accepted exactly what was read from the owner, of which exactly what was
    written to the owner was read, and which has sent all that can be read from what was
    written to the device.  No round ends in a busy wait. -/
theorem socket_simulates (K : Kernel κ Fd) (ad : Adapter (κ × List (Call Fd)) Fd A)
    (Reads : List Byte → TCPSegment → Prop) (Holds : List TCPSegment → A → Prop)
    (hlaw : Lawful ad .device Reads Holds) (w : World (κ × List (Call Fd)) Fd) (a : A)
    (hfresh : Fresh Reads Holds w a) (cfg : TCPConfig) (random : BitVec 32)
    (x y : Running (κ × List (Call Fd)) A) (hbegun : Begun K ad w a cfg random x)
    (ms : List Moment) (hrun : run (go ad) x ms = some y) :
    (∃ z, Dealt (ReadFrom Reads y.2.calls) (.new cfg random) z ∧ Models Reads Holds y.2 z)
      ∧ ∀ m, TCPSpongeSocket.tcpRound ad y m ≠ .error .busyWait := by
  obtain ⟨hrules, -, z, hdealt, hmodels⟩ := hbegun.models hlaw hfresh
  have hall : x.1.Sublist (TCPSpongeSocket.rules K.recording ad) := by rw [hrules]
  obtain ⟨hsub, z', hfollows⟩ := hmodels.run hlaw hall hrun
  have hstart : Dealt (ReadFrom Reads y.2.calls) (.new cfg random) z :=
    hdealt.mono fun _ hno => absurd hno id
  refine ⟨⟨z', hstart.trans hfollows.dealt, hfollows.models⟩, fun m hbusy => ?_⟩
  rcases bind_eq_error.mp hbusy with hwait | ⟨⟨ret, rules, s⟩, -, hrest⟩
  · exact never_busy (fun rule hrule => acts hlaw (hsub.subset hrule)) m.poll y.2 hwait
  · dsimp only at hrest
    split_ifs at hrest
    rcases bind_eq_error.mp hrest with htick | ⟨s', -, hok⟩
    · obtain ⟨e, -, he⟩ := mapError_eq_error.mp htick
      cases he
    · cases hok

end Simulation

/-- The payload of a reset. -/
def resetBytes : List Byte := .replicate 12 0 ++ [80, 4, 0, 0, 175, 251, 0, 0]

/-- A UDP socket on which resets arrive, and everything can be sent. -/
def refusing : DatagramKernel Unit Fd where
  recvfrom _ _ _ := .ok (({}, resetBytes), ())
  sendmsg _ _ _ iovecs := .ok ((iovecs.flatMap Prod.fst).length, ())

/-- An owner who has written nothing and reads everything. -/
def silent : Kernel Unit Fd where
  read _ _ _ := .ok ([], ())
  writev _ _ iovecs := .ok ((iovecs.flatMap Prod.fst).length, ())
  shutdown _ _ _ := .ok ()
  close _ _ := .ok ()

def ready : Moment where
  poll := .answered fun _ _ => { pollin := true, pollout := true }
  elapsed := 0

theorem fresh_udp : Fresh ReadsUDP (fun _ _ => True)
    (⟨((), []), fun _ => {}⟩ : World (Unit × List (Call Fd)) Fd) ({} : FdAdapterBase) :=
  ⟨trivial, fun _ h => absurd h List.not_mem_nil, rfl, rfl, List.not_mem_nil, fun _ => rfl⟩

/-- The connection is refused while its `SYN` goes out. -/
theorem refused_round :
    ∃ y, run (go (overUDP refusing.recording .device))
        (TCPSpongeSocket.connecting silent.recording (overUDP refusing.recording .device)
          ⟨((), []), fun _ => {}⟩ {} {} 0 {}) [ready] = some y
      ∧ y.2.calls.length = 3 :=
  ⟨_, rfl, rfl⟩

theorem socket_simulates_refused :
    ∃ y z, run (go (overUDP refusing.recording .device))
        (TCPSpongeSocket.connecting silent.recording (overUDP refusing.recording .device)
          ⟨((), []), fun _ => {}⟩ {} {} 0 {}) [ready] = some y
      ∧ y.2.calls.length = 3 ∧ Models ReadsUDP (fun _ _ => True) y.2 z := by
  obtain ⟨y, hrun, hcalls⟩ := refused_round
  obtain ⟨⟨z, -, hmodels⟩, -⟩ := socket_simulates silent (overUDP refusing.recording .device)
    ReadsUDP (fun _ _ => True) (lawful_udp refusing .device) ⟨((), []), fun _ => {}⟩ {} fresh_udp
    {} 0 _ y ⟨{}, Or.inl rfl⟩ [ready] hrun
  exact ⟨y, z, hrun, hcalls, hmodels⟩

end SpongeSimulation
