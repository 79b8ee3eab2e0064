import Sponge.OutboundProofs

/-! # Two endpoints and the network between them

    Each endpoint is a connection together with its history: the segments that
    were popped from its `segments_out()`, the bytes its `write` calls accepted,
    the bytes read from its inbound stream, and the segments that have left its
    queue of outstanding ones.

    The network loses, duplicates, delays and reorders: a delivery hands over
    any segment the peer has ever sent.  It alters and forges nothing.  A step
    on which the code raises is not enabled, and so ends the run.

    `acted` says once what a step of an endpoint can do.  From it,
    `prefix_safety`: what an endpoint has got is always a prefix of what its
    peer has accepted, if segments that were popped are still found as they were;
    `prefix_lost_in_freed_memory` is a run in which they are not. -/

namespace SpongeNetwork

open SpongeByteStream SpongeReassembler SpongeReassembly SpongeWrapping SpongeSegment
open SpongeReceiver SpongeReceiver.TCPReceiver SpongeStreamEnd SpongeSender
open SpongeConnection SpongeOutbound RunRule

/-- A connection and its history. -/
structure Endpoint where
  conn : TCPConnection
  /-- popped from `segments_out()`; the network can deliver these at any time -/
  sent : List TCPSegment
  /-- the bytes the `write` calls accepted, in order -/
  accepted : List Byte
  /-- the bytes read out of the inbound stream, in order -/
  readBytes : List Byte
  /-- the segments that have left the queue of outstanding ones -/
  removed : List (Nat × TCPSegment)
  /-- `end_input_stream` has been called -/
  closed : Bool
deriving DecidableEq, Repr

inductive Op
  | connect
  | write (data : List Byte)
  | endInputStream
  | tick (ms : Nat)
  | read (len : Nat)
  /-- pop the front of `segments_out()` -/
  | transmit
  /-- hand over the `i`-th segment the peer has sent -/
  | deliver (i : Nat)
deriving DecidableEq, Repr

namespace Endpoint

def new (cfg : TCPConfig) (random : BitVec 32) : Endpoint where
  conn := .new cfg random
  sent := []
  accepted := []
  readBytes := []
  removed := []
  closed := false

/-- The connection changes, and what it no longer keeps is noted. -/
def become (z : Endpoint) (c : TCPConnection) : Endpoint :=
  { z with
    conn := c
    removed := z.removed
      ++ z.conn.sender.outstandingSegments.filter (· ∉ c.sender.outstandingSegments) }

/-- One step of the endpoint `z` whose peer is `p`.  There is no `write` after
    `end_input_stream`. -/
def act [Popped] (p z : Endpoint) : Op → Option Endpoint
  | .connect => some (z.become z.conn.connect)
  | .write data =>
      if z.closed then none
      else
        let written := z.conn.write data
        some { z.become written.2 with accepted := z.accepted ++ data.take written.1 }
  | .endInputStream => some { z.become z.conn.endInputStream with closed := true }
  | .tick ms => some (z.become (z.conn.tick ms))
  | .read len =>
      some
        { z.become (z.conn.readInbound len) with
          readBytes := z.readBytes ++ (z.conn.receiver.streamOut.read len).1 }
  | .transmit =>
      match z.conn.segmentsOut with
      | [] => none
      | seg :: rest =>
          some
            { z.become { z.conn with segmentsOut := rest } with sent := z.sent ++ [seg] }
  | .deliver i =>
      p.sent[i]?.bind fun seg => (z.conn.segmentReceived seg).map z.become

end Endpoint

/-- The two endpoints. -/
structure Sys where
  a : Endpoint
  b : Endpoint
deriving DecidableEq, Repr

inductive Side
  | a
  | b
deriving DecidableEq, Repr

def Sys.init (cfgA cfgB : TCPConfig) (randomA randomB : BitVec 32) : Sys :=
  ⟨.new cfgA randomA, .new cfgB randomB⟩

def sysStep [Popped] (s : Sys) : Side × Op → Option Sys
  | (.a, op) => (Endpoint.act s.b s.a op).map fun a => { s with a := a }
  | (.b, op) => (Endpoint.act s.a s.b op).map fun b => { s with b := b }

def Side.other : Side → Side
  | .a => .b
  | .b => .a

def Sys.endpoint (s : Sys) : Side → Endpoint
  | .a => s.a
  | .b => s.b

def Sys.set (s : Sys) (z : Endpoint) : Side → Sys
  | .a => { s with a := z }
  | .b => { s with b := z }

/-- Steps of one endpoint are steps of the system. -/
theorem run_side (side : Side) {ops : List Op} {s : Sys} {z : Endpoint}
    (h : run (Endpoint.act (s.endpoint side.other)) (s.endpoint side) ops = some z) :
    run sysStep s (ops.map fun op => (side, op)) = some (s.set z side) := by
  induction ops generalizing s with
  | nil =>
      obtain rfl := Option.some.inj h
      cases side <;> rfl
  | cons op ops ih =>
      obtain ⟨y, hact, hrest⟩ := Option.bind_eq_some_iff.mp h
      have hstep : sysStep s (side, op) = some (s.set y side) := by
        cases side <;> exact congrArg (Option.map _) hact
      rw [List.map_cons, run, hstep]
      have hrun : run (Endpoint.act ((s.set y side).endpoint side.other))
          ((s.set y side).endpoint side) ops = some z := by
        cases side <;> exact hrest
      rw [Option.bind_some, ih hrun]
      cases side <;> rfl

/-! ## What a step of an endpoint can do -/

/-- The operation hands over `seg`, which the peer has sent. -/
def Op.Delivers (p : Endpoint) (op : Op) (seg : TCPSegment) : Prop :=
  ∃ i, op = .deliver i ∧ p.sent[i]? = some seg

/-- How an operation starts on the sending side: the sender it hands to the
    rest of the operation. -/
inductive Begins (p z : Endpoint) (op : Op) (z' : Endpoint) : TCPSender → Prop
  | same (accepted : z'.accepted = z.accepted) (closed : z'.closed = z.closed) :
      Begins p z op z' z.conn.sender
  | wrote (data : List Byte) (opened : z.closed = false)
      (accepted : z'.accepted
        = z.accepted ++ data.take (z.conn.sender.stream.write data).1)
      (closed : z'.closed = z.closed) :
      Begins p z op z'
        { z.conn.sender with stream := (z.conn.sender.stream.write data).2 }
  | ended (accepted : z'.accepted = z.accepted) (closed : z'.closed = true) :
      Begins p z op z' { z.conn.sender with stream := z.conn.sender.stream.endInput }
  | acked {seg : TCPSegment} {ackno : WrappingInt32} {popped : List (Nat × TCPSegment)}
      {s : TCPSender} (delivers : op.Delivers p seg) (rst : seg.header.rst = false)
      (ack : (seg.header.ack = true ∧ ackno = seg.header.ackno)
        ∨ (seg.header.ack = false
          ∧ (z.conn.receiver.segmentReceived seg).ackno = some ackno))
      (acked : z.conn.sender.Acked
        (unwrap ackno z.conn.sender.isn (z.conn.sender.absAckno + 1))
        seg.header.win popped s)
      (accepted : z'.accepted = z.accepted) (closed : z'.closed = z.closed) :
      Begins p z op z' s

/-- How it ends there: what the sender has queued leaves, or stays. -/
structure Leaves (z : Endpoint) (t : TCPSender) (z' : Endpoint) : Prop where
  sender : ∃ queue, (∀ seg ∈ queue, seg ∈ t.segmentsOut)
    ∧ z'.conn.sender = { t with segmentsOut := queue }
  wire : ∀ seg ∈ z'.conn.segmentsOut ++ z'.sent,
    seg ∈ z.conn.segmentsOut ++ z.sent
      ∨ ∃ out ∈ t.segmentsOut, seg = TCPConnection.stamp z'.conn.receiver out

/-- The receiving side. -/
inductive Takes (p z : Endpoint) (op : Op) (z' : Endpoint) : Prop
  | same (receiver : z'.conn.receiver = z.conn.receiver)
      (readBytes : z'.readBytes = z.readBytes)
  | error (receiver : z'.conn.receiver = z.conn.receiver.setError)
      (readBytes : z'.readBytes = z.readBytes)
  | read (len : Nat) (receiver : z'.conn.receiver = z.conn.receiver.readOut len)
      (readBytes : z'.readBytes
        = z.readBytes ++ (z.conn.receiver.streamOut.read len).1)
  | segment (seg : TCPSegment) (delivers : op.Delivers p seg) (rst : seg.header.rst = false)
      (receiver : z'.conn.receiver = z.conn.receiver.segmentReceived seg)
      (readBytes : z'.readBytes = z.readBytes)

/-- How a connection that is not active came to be so: it was before, its streams
    are marked, or this is the tick that closes it. -/
def Retired (z : Endpoint) (op : Op) (z' : Endpoint) : Prop :=
  z.conn.active = false ∨ z'.conn.sender.stream.error = true
    ∨ ∃ ms, op = .tick ms ∧ z.conn.killConditionCheck = true
      ∧ (z.conn.lingerAfterStreamsFinish = true →
        10 * z.conn.cfg.rtTimeout.toNat ≤ (z.conn.timeLastRecv + ms) % 2 ^ 64)
      ∧ z.conn.sender.consecutiveRetransmissions < TCPConfig.maxRetxAttempts

/-- **A STEP, INVERTED**. -/
structure Acted (p z : Endpoint) (op : Op) (z' : Endpoint) : Prop where
  outbound : ∃ s t, Begins p z op z' s ∧ Moves s t ∧ Leaves z t z'
  inbound : Takes p z op z'
  removed : z'.removed = z.removed
    ++ z.conn.sender.outstandingSegments.filter
      (· ∉ z'.conn.sender.outstandingSegments)
  retired : z'.conn.active = false → Retired z op z'

section Inversion

variable {p z z' : Endpoint} {op : Op} {t : TCPSender}

theorem leaves_of_flushed (hf : TCPConnection.Flushed z.conn t z'.conn)
    (hsent : z'.sent = z.sent) : Leaves z t z' where
  sender := ⟨[], (fun _ h => nomatch h), hf.sender⟩
  wire := by
    intro seg hseg
    rw [hf.segmentsOut, hsent] at hseg
    rcases List.mem_append.mp hseg with hout | hsent
    · rcases List.mem_append.mp hout with hold | hnew
      · exact Or.inl (List.mem_append_left _ hold)
      · obtain ⟨out, hout, heq⟩ := List.mem_map.mp hnew
        exact Or.inr ⟨out, hout, heq.symm⟩
    · exact Or.inl (List.mem_append_right _ hsent)

/-- Nothing leaves the sender, and nothing new is on the wire. -/
theorem leaves_of_kept (hs : z'.conn.sender = t)
    (hwire : ∀ seg ∈ z'.conn.segmentsOut ++ z'.sent, seg ∈ z.conn.segmentsOut ++ z.sent) :
    Leaves z t z' :=
  ⟨⟨t.segmentsOut, fun _ h => h, hs⟩, fun seg hseg => Or.inl (hwire seg hseg)⟩

/-- A delivery, inverted. -/
theorem acted_deliver {seg : TCPSegment} {c : TCPConnection} (hdel : op.Delivers p seg)
    (hc : z.conn.segmentReceived seg = some c) : Acted p z op (z.become c) := by
  cases TCPConnection.segmentReceived_spec hc with
  | reset hrst hkilled =>
      subst hkilled
      refine ⟨⟨z.conn.sender, _, .same rfl rfl, .error (.refl _), ?_⟩, .error rfl rfl, rfl,
        fun _ => Or.inr (Or.inl rfl)⟩
      exact leaves_of_kept rfl fun _ h => h
  | taken ackno t hrst hack hmoves hflushed hreceiver hactive =>
      have hleaves : Leaves z t (z.become c) := leaves_of_flushed hflushed rfl
      refine ⟨?_, .segment seg hdel hrst hreceiver rfl, rfl,
        fun h => Or.inl (hactive.symm.trans h)⟩
      rcases TCPSender.noteAck_cases z.conn.sender ackno seg.header.win
        with ⟨-, hnote⟩ | ⟨hgo, popped, hacked⟩
      · -- an acknowledgement beyond the next number only sets the window
        rw [TCPSender.ackReceived_ignored (by rw [hnote]), hnote] at hmoves
        exact ⟨z.conn.sender, t, .same rfl rfl, .window _ hmoves, hleaves⟩
      · rw [TCPSender.ackReceived_noted hgo] at hmoves
        exact ⟨_, t, .acked hdel hrst hack hacked rfl rfl,
          (moves_fillWindow _).trans hmoves, hleaves⟩

theorem acted_tick (ms : Nat) : Acted p z (.tick ms) (z.become (z.conn.tick ms)) := by
  cases TCPConnection.tick_spec z.conn ms with
  | gaveUp t hmoves hflushed hreceiver herror =>
      exact ⟨⟨_, t, .same rfl rfl, hmoves, leaves_of_flushed hflushed rfl⟩,
        .error hreceiver rfl, rfl, fun _ => Or.inr (Or.inl herror)⟩
  | closed t hticked hflushed hreceiver hdone hlinger htries =>
      exact ⟨⟨_, t, .same rfl rfl, .tick hticked (.refl t), leaves_of_flushed hflushed rfl⟩,
        .same hreceiver rfl, rfl,
        fun _ => Or.inr (Or.inr ⟨ms, rfl, hdone, hlinger, htries⟩)⟩
  | passed t hticked hflushed hreceiver hactive =>
      exact ⟨⟨_, t, .same rfl rfl, .tick hticked (.refl t), leaves_of_flushed hflushed rfl⟩,
        .same hreceiver rfl, rfl, fun h => Or.inl (hactive.symm.trans h)⟩

theorem acted (h : Endpoint.act p z op = some z') : Acted p z op z' := by
  cases op with
  | connect =>
      rw [← Option.some.inj h]
      obtain ⟨t, hmoves, hflushed, hreceiver, hactive⟩ := z.conn.connect_spec
      exact ⟨⟨_, t, .same rfl rfl, hmoves, leaves_of_flushed hflushed rfl⟩,
        .same hreceiver rfl, rfl, fun h => Or.inl (hactive.symm.trans h)⟩
  | write data =>
      rw [Endpoint.act] at h
      split_ifs at h with hclosed
      rw [← Option.some.inj h]
      obtain ⟨t, hmoves, hflushed, hreceiver, hactive⟩ := z.conn.write_spec data
      refine ⟨⟨_, t, .wrote data ?_ rfl rfl, hmoves, leaves_of_flushed hflushed rfl⟩,
        .same hreceiver rfl, rfl, fun h => Or.inl (hactive.symm.trans h)⟩
      exact Bool.eq_false_iff.mpr hclosed
  | endInputStream =>
      rw [← Option.some.inj h]
      obtain ⟨t, hmoves, hflushed, hreceiver, hactive⟩ := z.conn.endInputStream_spec
      exact ⟨⟨_, t, .ended rfl rfl, hmoves, leaves_of_flushed hflushed rfl⟩,
        .same hreceiver rfl, rfl, fun h => Or.inl (hactive.symm.trans h)⟩
  | tick ms =>
      rw [← Option.some.inj h]
      exact acted_tick ms
  | read len =>
      rw [← Option.some.inj h]
      exact ⟨⟨_, _, .same rfl rfl, .refl _, leaves_of_kept rfl fun _ hseg => hseg⟩,
        .read len rfl rfl, rfl, Or.inl⟩
  | transmit =>
      rw [Endpoint.act] at h
      split at h
      · exact nomatch h
      · rename_i seg rest hout
        rw [← Option.some.inj h]
        refine ⟨⟨_, _, .same rfl rfl, .refl _, leaves_of_kept rfl ?_⟩, .same rfl rfl, rfl,
          Or.inl⟩
        -- the front moves from one part of the wire to the other
        intro seg' hseg
        rw [hout]
        simp only [Endpoint.become, List.mem_append, List.mem_cons, List.not_mem_nil,
          or_false] at hseg ⊢
        tauto
  | deliver i =>
      obtain ⟨seg, hseg, hrest⟩ := Option.bind_eq_some_iff.mp h
      obtain ⟨c, hc, heq⟩ := Option.map_eq_some_iff.mp hrest
      rw [← heq]
      exact acted_deliver ⟨i, rfl, hseg⟩ hc

end Inversion

/-! ## One direction of the connection -/

/-- **WHAT HOLDS IN ONE DIRECTION**, from the sending side of `x` to the receiving
    side of `y`: `x` sends its accepted bytes, every segment of `x` outside is a
    piece of them, and `y` holds nothing else. -/
structure Carries (x y : Endpoint) : Prop where
  sends : Sends x.accepted x.conn.sender
  closed : x.closed = x.conn.sender.stream.inputEnded
  wire : ∀ seg ∈ x.conn.segmentsOut ++ x.sent,
    ∃ start, OfStream x.accepted x.closed x.conn.sender.isn start seg
  receives : Receives x.accepted x.conn.sender.isn y.readBytes y.conn.receiver
  fin : y.conn.receiver.fin = true → x.closed = true

theorem carries_new (cfg cfg' : TCPConfig) (random random' : BitVec 32) :
    Carries (.new cfg random) (.new cfg' random') where
  sends := sends_new cfg.sendCapacity cfg.rtTimeout cfg.fixedIsn random
  closed := rfl
  wire := fun _ hseg => nomatch hseg
  receives := receives_new [] _ cfg'.recvCapacity
  fin := fun hf => nomatch hf

theorem Op.Delivers.mem {p : Endpoint} {op : Op} {seg : TCPSegment}
    (h : op.Delivers p seg) : seg ∈ p.sent := by
  obtain ⟨i, -, hi⟩ := h
  exact List.mem_of_getElem? hi

section Direction

variable {p x y z z' : Endpoint} {op : Op} {s : TCPSender}

/-- What was accepted stays, and after the end nothing is added. -/
theorem Begins.grows (h : Begins p z op z' s) :
    z.accepted <+: z'.accepted
      ∧ (z.closed = true → z'.accepted = z.accepted ∧ z'.closed = true) := by
  cases h with
  | same accepted closed =>
      rw [accepted, closed]
      exact ⟨List.prefix_refl _, fun hc => ⟨rfl, hc⟩⟩
  | wrote data opened accepted closed =>
      rw [accepted, opened]
      exact ⟨List.prefix_append _ _, fun hc => absurd hc Bool.false_ne_true⟩
  | ended accepted closed =>
      rw [accepted, closed]
      exact ⟨List.prefix_refl _, fun _ => ⟨rfl, rfl⟩⟩
  | acked _ _ _ _ accepted closed =>
      rw [accepted, closed]
      exact ⟨List.prefix_refl _, fun hc => ⟨rfl, hc⟩⟩

theorem Begins.control (h : Begins p z op z' s)
    (hc : z.closed = z.conn.sender.stream.inputEnded) :
    s.isn = z.conn.sender.isn ∧ z'.closed = s.stream.inputEnded := by
  cases h with
  | same accepted closed => exact ⟨rfl, closed.trans hc⟩
  | wrote data opened accepted closed => exact ⟨rfl, closed.trans hc⟩
  | ended accepted closed => exact ⟨rfl, closed⟩
  | acked _ _ _ hacked accepted closed =>
      rw [hacked.same.stream]
      exact ⟨hacked.same.isn, closed.trans hc⟩

/-- However an operation starts, the sender goes on sending what was accepted. -/
theorem Begins.sends (h : Begins p z op z' s) (hs : Sends z.accepted z.conn.sender)
    (hc : z.closed = z.conn.sender.stream.inputEnded) : Sends z'.accepted s := by
  cases h with
  | same accepted _ => rw [accepted]; exact hs
  | wrote data opened accepted _ => rw [accepted]; exact hs.write (hc.symm.trans opened) data
  | ended accepted _ => rw [accepted]; exact hs.endInput
  | acked _ _ _ hacked accepted _ => rw [accepted]; exact hs.acked hacked

/-- **THE SENDING END STEPS**. -/
theorem Carries.sender_acts (h : Carries z p) (ha : Acted p z op z') : Carries z' p := by
  obtain ⟨s, t, hbegins, hmoves, hleaves⟩ := ha.outbound
  obtain ⟨hgrow, hstay⟩ := hbegins.grows
  obtain ⟨hisn, hclosed⟩ := hbegins.control h.closed
  have hsends : Sends z'.accepted t := (hbegins.sends h.sends h.closed).moves hmoves
  obtain ⟨queue, hqueue, hsender⟩ := hleaves.sender
  have hclosed' : z'.closed = t.stream.inputEnded := hclosed.trans hmoves.flags.1.symm
  have hisn' : t.isn = z.conn.sender.isn := hmoves.isn.trans hisn
  refine ⟨?_, ?_, ?_, ?_, ?_⟩
  · rw [hsender]
    exact ⟨hsends.written, hsends.waiting, hsends.phase, hsends.kept,
      fun seg hseg => hsends.queued seg (hqueue seg hseg)⟩
  · rw [hsender]
    exact hclosed'
  · intro seg hseg
    rw [hsender]
    rcases hleaves.wire seg hseg with hold | ⟨out, hout, heq⟩
    · obtain ⟨start, hpiece⟩ := h.wire seg hold
      refine ⟨start, ?_⟩
      show OfStream _ _ t.isn _ _
      rw [hisn']
      exact hpiece.mono hgrow (fun hc => (hstay hc).1) (fun hc => (hstay hc).2)
    · obtain ⟨start, hpiece⟩ := hsends.queued out hout
      rw [heq, hclosed']
      exact ⟨start, hpiece.stamp _⟩
  · rw [hsender]
    show Receives _ t.isn _ _
    rw [hisn']
    exact h.receives.mono hgrow fun hf => (hstay (h.fin hf)).1
  · intro hf
    exact (hstay (h.fin hf)).2

/-- A `FIN` that the receiver has noted was on the segment, or noted before. -/
theorem fin_of_segmentReceived {r : TCPReceiver} {seg : TCPSegment}
    (h : (r.segmentReceived seg).fin = true) :
    r.fin = true ∨ seg.header.fin = true := by
  by_cases hpast : r.syn = true ∨ seg.header.syn = true
  · rw [(received hpast).fin] at h
    exact (Bool.or_eq_true_iff.mp h).symm
  · rw [segmentReceived_before hpast] at h
    exact Or.inl h

/-- **THE RECEIVING END STEPS**. -/
theorem Carries.receiver_acts (hW : p.accepted.length < 2 ^ 31) (h : Carries p z)
    (ha : Acted p z op z') : Carries p z' := by
  refine ⟨h.sends, h.closed, h.wire, ?_, ?_⟩
  · cases ha.inbound with
    | same receiver readBytes => rw [receiver, readBytes]; exact h.receives
    | error receiver readBytes => rw [receiver, readBytes]; exact h.receives.setError
    | read len receiver readBytes => rw [receiver, readBytes]; exact h.receives.read len
    | segment seg delivers rst receiver readBytes =>
        rw [receiver, readBytes]
        obtain ⟨start, hpiece⟩ := h.wire seg (List.mem_append_right _ delivers.mem)
        exact h.receives.segment hW hpiece.brings
  · cases ha.inbound with
    | same receiver readBytes => rw [receiver]; exact h.fin
    | error receiver readBytes => rw [receiver]; exact h.fin
    | read len receiver readBytes => rw [receiver]; exact h.fin
    | segment seg delivers rst receiver readBytes =>
        rw [receiver]
        intro hf
        rcases fin_of_segmentReceived hf with hold | hnew
        · exact h.fin hold
        · obtain ⟨start, hpiece⟩ := h.wire seg (List.mem_append_right _ delivers.mem)
          exact (hpiece.fin hnew).1

/-- What is got is a prefix of what was accepted. -/
theorem Carries.got_prefix (h : Carries x y) :
    y.readBytes ++ y.conn.receiver.streamOut.buffer <+: x.accepted := by
  have hheld := h.receives.holds.assembled
  show y.readBytes ++ y.conn.receiver.reassembler.output.buffer <+: x.accepted
  rw [hheld]
  exact List.take_prefix _ _

end Direction

/-! ## Both directions, in every run -/

/-- A step of the system is a step of one endpoint. -/
theorem sysStep_cases {s s' : Sys} {e : Side × Op} (h : sysStep s e = some s') :
    (e.1 = .a ∧ s'.b = s.b ∧ Endpoint.act s.b s.a e.2 = some s'.a)
      ∨ (e.1 = .b ∧ s'.a = s.a ∧ Endpoint.act s.a s.b e.2 = some s'.b) := by
  obtain ⟨side, op⟩ := e
  cases side with
  | a =>
      obtain ⟨a, ha, heq⟩ := Option.map_eq_some_iff.mp h
      rw [← heq]
      exact Or.inl ⟨rfl, rfl, ha⟩
  | b =>
      obtain ⟨b, hb, heq⟩ := Option.map_eq_some_iff.mp h
      rw [← heq]
      exact Or.inr ⟨rfl, rfl, hb⟩

/-- Fewer than `2 ^ 31` bytes were accepted in each direction. -/
def Sys.Small (s : Sys) : Prop :=
  s.a.accepted.length < 2 ^ 31 ∧ s.b.accepted.length < 2 ^ 31

instance (s : Sys) : Decidable s.Small := inferInstanceAs (Decidable (_ ∧ _))

def Sys.Carried (s : Sys) : Prop := Carries s.a s.b ∧ Carries s.b s.a

theorem Acted.accepted_le {p z z' : Endpoint} {op : Op} (h : Acted p z op z') :
    z.accepted.length ≤ z'.accepted.length := by
  obtain ⟨s, t, hbegins, -, -⟩ := h.outbound
  exact hbegins.grows.1.length_le

/-- The bytes accepted only grow, so a bound on them holds from the start. -/
theorem Sys.Small.of_step {s s' : Sys} {e : Side × Op} (h : s'.Small)
    (hstep : sysStep s e = some s') : s.Small := by
  rcases sysStep_cases hstep with ⟨-, hb, hact⟩ | ⟨-, ha, hact⟩
  · exact ⟨Nat.lt_of_le_of_lt (acted hact).accepted_le h.1, hb ▸ h.2⟩
  · exact ⟨ha ▸ h.1, Nat.lt_of_le_of_lt (acted hact).accepted_le h.2⟩

/-- **ONE STEP**: the endpoint that acts is a sender in one direction and a
    receiver in the other. -/
theorem Sys.Carried.of_step {s s' : Sys} {e : Side × Op} (h : s.Carried)
    (hsmall : s.Small) (hstep : sysStep s e = some s') : s'.Carried := by
  rcases sysStep_cases hstep with ⟨-, hb, hact⟩ | ⟨-, ha, hact⟩
  · have hacted := acted hact
    rw [Sys.Carried, hb]
    exact ⟨h.1.sender_acts hacted, h.2.receiver_acts hsmall.2 hacted⟩
  · have hacted := acted hact
    rw [Sys.Carried, ha]
    exact ⟨h.1.receiver_acts hsmall.1 hacted, h.2.sender_acts hacted⟩

theorem carried_init (cfgA cfgB : TCPConfig) (randomA randomB : BitVec 32) :
    (Sys.init cfgA cfgB randomA randomB).Carried :=
  ⟨carries_new _ _ _ _, carries_new _ _ _ _⟩

/-- **EVERY RUN**: what a step keeps while few bytes were accepted holds at the end
    of a run that accepted few. -/
theorem run_small {I : Sys → Prop} {P : Sys → Side × Op → Prop} {s₀ s : Sys}
    {ops : List (Side × Op)}
    (hstep : ∀ s e s', s.Small → s.Carried → I s → P s e → sysStep s e = some s' → I s')
    (hinit : s₀.Carried ∧ I s₀) (hP : Along sysStep P s₀ ops)
    (hrun : run sysStep s₀ ops = some s) (hsmall : s.Small) : s.Carried ∧ I s := by
  refine run_invariant (I := fun s => s.Small → s.Carried ∧ I s) ?_ ops s₀ s
    (fun _ => hinit) hP hrun hsmall
  intro s e s' h hP hs' hsmall'
  have hsmall := hsmall'.of_step hs'
  obtain ⟨hc, hI⟩ := h hsmall
  exact ⟨hc.of_step hsmall hs', hstep s e s' hsmall hc hI hP hs'⟩

/-- **PREFIX SAFETY**: whatever the network and the two applications do, what an
    endpoint has read and still holds is a prefix of what its peer accepted, as long
    as popped segments are found as they were. -/
theorem prefix_safety [popped : Popped] (hintact : Popped.Intact) (cfgA cfgB : TCPConfig)
    (randomA randomB : BitVec 32) (ops : List (Side × Op)) (s : Sys)
    (hrun : run sysStep (.init cfgA cfgB randomA randomB) ops = some s)
    (hsmall : s.Small) :
    s.b.readBytes ++ s.b.conn.receiver.streamOut.buffer <+: s.a.accepted
      ∧ s.a.readBytes ++ s.a.conn.receiver.streamOut.buffer <+: s.b.accepted := by
  obtain rfl := hintact.eq_kept
  obtain ⟨⟨hab, hba⟩, -⟩ := run_small (I := fun _ => True) (P := fun _ _ => True)
    (fun _ _ _ _ _ _ _ _ => trivial) ⟨carried_init cfgA cfgB randomA randomB, trivial⟩
    (along_of_forall (fun _ _ => trivial) ops _) hrun hsmall
  exact ⟨hab.got_prefix, hba.got_prefix⟩

/-- `A` connects and both `SYN`s are acknowledged. -/
def handshake : List (Side × Op) :=
  [(.a, .connect), (.a, .transmit), (.b, .deliver 0), (.b, .transmit), (.a, .deliver 0),
    (.a, .transmit)]

/-- Two endpoints with fixed initial sequence numbers, 0 and 100. -/
def fixedSys : Sys := .init { fixedIsn := some ⟨0⟩ } { fixedIsn := some ⟨100⟩ } 0 0

/-- Two bytes that arrive in the wrong order, the first of them twice. -/
def reorderedBytes : List (Side × Op) :=
  handshake ++ [(.a, .write [97]), (.a, .write [98]), (.a, .transmit), (.a, .transmit),
    (.b, .deliver 3), (.b, .deliver 2), (.b, .read 1), (.b, .deliver 2)]

theorem prefix_safety_reordered :
    ∃ s, run sysStep fixedSys reorderedBytes = some s ∧ s.Small
      ∧ s.b.readBytes = [97] ∧ s.b.conn.receiver.streamOut.buffer = [98]
      ∧ s.b.readBytes ++ s.b.conn.receiver.streamOut.buffer <+: s.a.accepted
      ∧ s.a.readBytes ++ s.a.conn.receiver.streamOut.buffer <+: s.b.accepted := by
  have hreach : ∃ s, run sysStep fixedSys reorderedBytes = some s ∧ s.Small
      ∧ s.b.readBytes = [97] ∧ s.b.conn.receiver.streamOut.buffer = [98] :=
    run_reaches (by decide)
  obtain ⟨s, hrun, hsmall, hread, hbuffer⟩ := hreach
  exact ⟨s, hrun, hsmall, hread, hbuffer,
    prefix_safety Popped.intact_kept _ _ _ _ _ s hrun hsmall⟩

/-- `A` sends six bytes one by one and then 513 at once, which makes nine segments with
    its `SYN` and its `ACK`; all arrive in order. -/
def nineSegments : List (Side × Op) :=
  handshake ++ (List.replicate 6 [(.a, .write [0]), (.a, .transmit)]).flatten
    ++ [(.a, .write (List.replicate 512 0 ++ [1])), (.a, .transmit), (.b, .deliver 2),
      (.b, .deliver 3), (.b, .deliver 4), (.b, .deliver 5), (.b, .deliver 6),
      (.b, .deliver 7), (.b, .deliver 8)]

/-- **BYTES LOST IN FREED MEMORY**: the ninth segment is the last of its block of the
    queue, which the pop frees; it leaves without its first 512 bytes, and `b` takes its
    last byte for the first. -/
theorem prefix_lost_in_freed_memory :
    ¬ ∀ (_ : Popped) (cfgA cfgB : TCPConfig) (randomA randomB : BitVec 32)
      (ops : List (Side × Op)) (s : Sys),
      run sysStep (.init cfgA cfgB randomA randomB) ops = some s → s.Small →
      s.b.readBytes ++ s.b.conn.receiver.streamOut.buffer <+: s.a.accepted
        ∧ s.a.readBytes ++ s.a.conn.receiver.streamOut.buffer <+: s.b.accepted := by
  intro hall
  have hreach : ∃ s, run (@sysStep Popped.offsetOverwritten) fixedSys nineSegments = some s
      ∧ s.Small
      ∧ ¬ s.b.readBytes ++ s.b.conn.receiver.streamOut.buffer <+: s.a.accepted :=
    run_reaches (by decide +kernel)
  obtain ⟨s, hrun, hsmall, hlost⟩ := hreach
  exact hlost (hall _ _ _ _ _ _ s hrun hsmall).1

end SpongeNetwork
