import Sponge.ReceiverProofs
import Sponge.SenderProofs

/-! # The connection — `tcp_connection`

    A connection joins a receiver and a sender: what the peer sends goes to the
    receiver and acknowledges the sender's segments, and whatever the sender
    queues leaves with the receiver's acknowledgement and window stamped on it.

    `segmentReceived` may raise: without the `ACK` flag the source takes the
    value of the receiver's acknowledgement number, which may not exist; the
    model answers `none` there.

    Every public operation does three things to the outbound side: it changes
    the sender in one of a few ways (`Moves` says what the rest of the
    operation can add to that), stamps what is queued, and empties the queue.
    The `_spec` lemmas say so for each operation, on a memory that keeps what was
    popped (`Popped.kept`). -/

namespace SpongeConnection

open SpongeByteStream SpongeWrapping SpongeSegment SpongeReceiver SpongeSender

/-- What is read where a segment was that has been popped.  `_clear_sender_buffer` pops
    the front of the sender's queue, and reads, stamps and copies it afterwards, through
    a reference to the element that the pop destroyed.  The language gives that read no
    value, and so it is a parameter of every operation that sends. -/
class Popped where
  read : TCPSegment → TCPSegment

namespace Popped

/-- **THE ASSUMPTION**: a popped segment is found as it was. -/
def Intact [Popped] : Prop := ∀ seg, read seg = seg

/-- A memory that keeps what was popped.  Where no other is named, this one is meant. -/
instance kept : Popped := ⟨fun seg => seg⟩

theorem intact_kept : Intact := fun _ => rfl

/-- Under the assumption there is no other memory. -/
theorem Intact.eq_kept {popped : Popped} (h : Intact) : popped = kept := by
  cases popped with
  | mk read => exact congrArg Popped.mk (funext h)

/-- A memory in which the allocator wrote the size of the block that the pop freed, 512,
    over the `_starting_offset` of the payload.  Shorter segments are found as they were. -/
@[reducible] def offsetOverwritten : Popped where
  read seg :=
    if seg.payload.length < 512 then seg else { seg with payload := seg.payload.drop 512 }

end Popped

/-- An endpoint of a connection. -/
structure TCPConnection where
  cfg : TCPConfig
  receiver : TCPReceiver
  sender : TCPSender
  segmentsOut : List TCPSegment
  lingerAfterStreamsFinish : Bool
  timeLastRecv : Nat
  active : Bool
deriving DecidableEq, Repr

namespace TCPConnection

/-- `random` is what the sender's random device would give. -/
def new (cfg : TCPConfig) (random : BitVec 32) : TCPConnection where
  cfg := cfg
  receiver := .new cfg.recvCapacity
  sender := .new cfg.sendCapacity cfg.rtTimeout cfg.fixedIsn random
  segmentsOut := []
  lingerAfterStreamsFinish := true
  timeLastRecv := 0
  active := true

/-- `_kill_connection` -/
def killConnection (c : TCPConnection) (clean : Bool) : TCPConnection :=
  let c :=
    if !clean then
      { c with
        sender := { c.sender with stream := c.sender.stream.setError }
        receiver := c.receiver.setError }
    else c
  { c with active := false }

/-- The window, and the acknowledgement if there is one, go on every segment
    that leaves. -/
def stamp (r : TCPReceiver) (seg : TCPSegment) : TCPSegment :=
  let win := if r.windowSize > 65535 then 65535 else BitVec.ofNat 16 r.windowSize
  let header := { seg.header with win := win }
  match r.ackno with
  | some ackno => { seg with header := { header with ackno := ackno, ack := true } }
  | none => { seg with header := header }

/-- `_clear_sender_buffer`.  What is stamped and copied is read after the pop. -/
def clearSenderBuffer [Popped] (c : TCPConnection) : TCPConnection :=
  { c with
    sender := { c.sender with segmentsOut := [] }
    segmentsOut := c.segmentsOut
      ++ c.sender.segmentsOut.map fun seg => stamp c.receiver (Popped.read seg) }

/-- `_send_rst_empty_segment` -/
def sendRstEmptySegment [Popped] (c : TCPConnection) : TCPConnection :=
  { c with sender := c.sender.sendFlagsSegment false false true }.clearSenderBuffer

/-- `_kill_condition_check` -/
def killConditionCheck (c : TCPConnection) : Bool :=
  c.receiver.streamOut.inputEnded
    && c.receiver.unassembledBytes == 0
    && c.sender.stream.inputEnded
    && c.sender.bytesInFlight == 0
    && c.sender.nextSeqno
      == c.sender.stream.bytesWritten + (if c.sender.stream.eof then 2 else 0)

def connect [Popped] (c : TCPConnection) : TCPConnection :=
  { c with sender := c.sender.fillWindow }.clearSenderBuffer

/-- The number of bytes accepted, and the connection. -/
def write [Popped] (c : TCPConnection) (data : List Byte) : Nat × TCPConnection :=
  let written := c.sender.stream.write data
  (written.1,
    { c with sender := { c.sender with stream := written.2 }.fillWindow }.clearSenderBuffer)

def endInputStream [Popped] (c : TCPConnection) : TCPConnection :=
  let c :=
    { c with
      sender :=
        { c.sender with stream := c.sender.stream.endInput }.fillWindow }.clearSenderBuffer
  if c.receiver.streamOut.inputEnded && c.sender.stream.eof then
    { c with lingerAfterStreamsFinish := false }
  else c

/-- The acknowledgement a segment brings: its own with the `ACK` flag, else the
    number the receiver would send, which need not exist. -/
def ackToSender (c : TCPConnection) (header : TCPHeader) : Option WrappingInt32 :=
  if header.ack then some header.ackno else c.receiver.ackno

/-- A segment that occupies sequence numbers is answered even when nothing
    else is queued. -/
def replyToData (s : TCPSender) (seg : TCPSegment) : TCPSender :=
  if s.segmentsOut.isEmpty && decide (seg.lengthInSequenceSpace > 0) then
    if s.fillWindow.segmentsOut.isEmpty then s.fillWindow.sendEmptySegment
    else s.fillWindow
  else s

/-- A keep-alive, numbered one before the acknowledgement, is answered. -/
def replyToKeepAlive (r : TCPReceiver) (s : TCPSender) (seg : TCPSegment) : TCPSender :=
  match r.ackno with
  | some ackno =>
      if seg.lengthInSequenceSpace == 0 && seg.header.seqno == ackno.sub 1 then
        s.sendEmptySegment
      else s
  | none => s

def segmentReceived [Popped] (c : TCPConnection) (seg : TCPSegment) : Option TCPConnection :=
  if seg.header.rst then some (c.killConnection false)
  else
    let c := { c with timeLastRecv := 0, receiver := c.receiver.segmentReceived seg }
    (c.ackToSender seg.header).map fun ackno =>
      let s := c.sender.ackReceived ackno seg.header.win
      let s := replyToKeepAlive c.receiver (replyToData s seg) seg
      let c := { c with sender := s }.clearSenderBuffer
      if c.receiver.streamOut.inputEnded && !c.sender.stream.inputEnded then
        { c with lingerAfterStreamsFinish := false }
      else c

/-- The part of `tick` that may close the connection. -/
def closeIfDone (c : TCPConnection) : TCPConnection :=
  if c.killConditionCheck then
    if c.lingerAfterStreamsFinish then
      if c.timeLastRecv ≥ 10 * c.cfg.rtTimeout.toNat then c.killConnection true else c
    else c.killConnection true
  else c

def tick [Popped] (c : TCPConnection) (msSinceLastTick : Nat) : TCPConnection :=
  let c := { c with timeLastRecv := (c.timeLastRecv + msSinceLastTick) % 2 ^ 64 }
  if c.sender.consecutiveRetransmissions ≥ TCPConfig.maxRetxAttempts then
    c.sendRstEmptySegment.killConnection false
  else
    { c with sender := c.sender.tick msSinceLastTick }.closeIfDone.clearSenderBuffer

/-- `inbound_stream().read(len)` -/
def readInbound (c : TCPConnection) (len : Nat) : TCPConnection :=
  { c with receiver := c.receiver.readOut len }

/-- `inbound_stream().pop_output(len)` -/
def popInbound (c : TCPConnection) (len : Nat) : TCPConnection :=
  { c with receiver := c.receiver.popOut len }

end TCPConnection

/-! ## What the operations add to the sender -/

/-- Steps of the sender that no operation gives a reason for: emissions, empty
    segments, resets, time, a new window, an error mark. -/
inductive Moves : TCPSender → TCPSender → Prop
  | refl (s : TCPSender) : Moves s s
  | emit {s s' t : TCPSender} {seg : TCPSegment} (head : s.Emitted seg s')
      (rest : Moves s' t) : Moves s t
  | empty {s t : TCPSender} (rest : Moves s.sendEmptySegment t) : Moves s t
  | reset {s t : TCPSender} (rest : Moves (s.sendFlagsSegment false false true) t) :
      Moves s t
  | tick {s s' t : TCPSender} (head : s.Ticked s') (rest : Moves s' t) : Moves s t
  | window {s t : TCPSender} (windowSize : Nat)
      (rest : Moves { s with windowSize := windowSize } t) : Moves s t
  | error {s t : TCPSender}
      (rest : Moves { s with stream := s.stream.setError } t) : Moves s t

theorem Moves.trans {s t u : TCPSender} (h : Moves s t) (h' : Moves t u) : Moves s u := by
  induction h with
  | refl s => exact h'
  | emit head _ ih => exact .emit head (ih h')
  | empty _ ih => exact .empty (ih h')
  | reset _ ih => exact .reset (ih h')
  | tick head _ ih => exact .tick head (ih h')
  | window w _ ih => exact .window w (ih h')
  | error _ ih => exact .error (ih h')

theorem moves_fillWindow (s : TCPSender) : Moves s s.fillWindow := by
  obtain ⟨⟨l, hl⟩, -⟩ := TCPSender.fillWindow_fills s
  generalize s.fillWindow = t at hl
  induction hl with
  | done s => exact .refl s
  | emit head _ ih => exact .emit head ih

theorem moves_empty (s : TCPSender) : Moves s s.sendEmptySegment := .empty (.refl _)

theorem Moves.isn {s t : TCPSender} (h : Moves s t) : t.isn = s.isn := by
  induction h with
  | refl s => rfl
  | emit head _ ih => exact ih.trans head.same.isn
  | empty _ ih => exact ih
  | reset _ ih => exact ih
  | tick head _ ih => exact ih.trans head.isn
  | window _ _ ih => exact ih
  | error _ ih => exact ih

/-- No move ends the input or clears an error mark. -/
theorem Moves.flags {s t : TCPSender} (h : Moves s t) :
    t.stream.inputEnded = s.stream.inputEnded
      ∧ (s.stream.error = true → t.stream.error = true) := by
  induction h with
  | refl s => exact ⟨rfl, fun he => he⟩
  | emit head _ ih =>
      exact ⟨ih.1.trans head.same.inputEnded, fun he => ih.2 (head.same.error.trans he)⟩
  | empty _ ih => exact ih
  | reset _ ih => exact ih
  | tick head _ ih =>
      rw [head.stream] at ih
      exact ih
  | window _ _ ih => exact ih
  | error _ ih => exact ⟨ih.1, fun _ => ih.2 rfl⟩

namespace TCPConnection

/-- **THE OUTBOUND SIDE** of an operation: the sender came to `t`, and what `t`
    has queued left with the receiver's stamp. -/
structure Flushed (c : TCPConnection) (t : TCPSender) (c' : TCPConnection) : Prop where
  sender : c'.sender = { t with segmentsOut := [] }
  segmentsOut : c'.segmentsOut = c.segmentsOut ++ t.segmentsOut.map (stamp c'.receiver)

theorem connect_spec (c : TCPConnection) :
    ∃ t, Moves c.sender t ∧ Flushed c t c.connect
      ∧ c.connect.receiver = c.receiver ∧ c.connect.active = c.active :=
  ⟨c.sender.fillWindow, moves_fillWindow c.sender, ⟨rfl, rfl⟩, rfl, rfl⟩

theorem write_spec (c : TCPConnection) (data : List Byte) :
    ∃ t, Moves { c.sender with stream := (c.sender.stream.write data).2 } t
      ∧ Flushed c t (c.write data).2
      ∧ (c.write data).2.receiver = c.receiver ∧ (c.write data).2.active = c.active :=
  ⟨_, moves_fillWindow { c.sender with stream := (c.sender.stream.write data).2 },
    ⟨rfl, rfl⟩, rfl, rfl⟩

theorem endInputStream_spec (c : TCPConnection) :
    ∃ t, Moves { c.sender with stream := c.sender.stream.endInput } t
      ∧ Flushed c t c.endInputStream
      ∧ c.endInputStream.receiver = c.receiver ∧ c.endInputStream.active = c.active := by
  refine ⟨_, moves_fillWindow { c.sender with stream := c.sender.stream.endInput }, ?_⟩
  rw [endInputStream]
  dsimp only
  split_ifs
  · exact ⟨⟨rfl, rfl⟩, rfl, rfl⟩
  · exact ⟨⟨rfl, rfl⟩, rfl, rfl⟩

/-- A tick gives up, closes, or lets time pass. -/
inductive TickOutcome (c : TCPConnection) (ms : Nat) (c' : TCPConnection) : Prop
  /-- the retransmissions are used up: reset and mark both streams -/
  | gaveUp (t : TCPSender) (moves : Moves c.sender t) (flushed : Flushed c t c')
      (receiver : c'.receiver = c.receiver.setError)
      (error : c'.sender.stream.error = true)
  /-- both streams are done, and the linger time has passed -/
  | closed (t : TCPSender) (head : c.sender.Ticked t) (flushed : Flushed c t c')
      (receiver : c'.receiver = c.receiver) (done : c.killConditionCheck = true)
      (lingered : c.lingerAfterStreamsFinish = true →
        10 * c.cfg.rtTimeout.toNat ≤ (c.timeLastRecv + ms) % 2 ^ 64)
      (tries : c.sender.consecutiveRetransmissions < TCPConfig.maxRetxAttempts)
  | passed (t : TCPSender) (head : c.sender.Ticked t) (flushed : Flushed c t c')
      (receiver : c'.receiver = c.receiver) (active : c'.active = c.active)

/-- Time alone does not change whether the connection is done. -/
theorem killConditionCheck_congr {c c' : TCPConnection} (hr : c'.receiver = c.receiver)
    (hs : c.sender.Ticked c'.sender) : c'.killConditionCheck = c.killConditionCheck := by
  rw [killConditionCheck, killConditionCheck, hr, hs.stream, hs.nextSeqno,
    TCPSender.bytesInFlight, TCPSender.bytesInFlight, hs.outstanding]

theorem tick_spec (c : TCPConnection) (ms : Nat) : TickOutcome c ms (c.tick ms) := by
  rw [tick]
  dsimp only
  have ht := TCPSender.ticked c.sender ms
  split_ifs with hmax
  · refine .gaveUp { c.sender.sendFlagsSegment false false true with
      stream := c.sender.stream.setError } ?_ ⟨rfl, rfl⟩ rfl rfl
    exact .reset (.error (.refl _))
  · have hdone : ({ c with
        timeLastRecv := (c.timeLastRecv + ms) % 2 ^ 64
        sender := c.sender.tick ms } : TCPConnection).killConditionCheck
        = c.killConditionCheck := killConditionCheck_congr rfl ht
    have htries : c.sender.consecutiveRetransmissions < TCPConfig.maxRetxAttempts :=
      Nat.lt_of_not_le hmax
    rw [closeIfDone]
    dsimp only
    split_ifs with hkill hlinger htime
    · exact .closed _ ht ⟨rfl, rfl⟩ rfl (hdone.symm.trans hkill) (fun _ => htime) htries
    · exact .passed _ ht ⟨rfl, rfl⟩ rfl rfl
    · exact .closed _ ht ⟨rfl, rfl⟩ rfl (hdone.symm.trans hkill)
        (fun h => absurd h hlinger) htries
    · exact .passed _ ht ⟨rfl, rfl⟩ rfl rfl

theorem moves_replies (r : TCPReceiver) (s : TCPSender) (seg : TCPSegment) :
    Moves s (replyToKeepAlive r (replyToData s seg) seg) := by
  have hdata : Moves s (replyToData s seg) := by
    rw [replyToData]
    split_ifs
    · exact (moves_fillWindow s).trans (moves_empty _)
    · exact moves_fillWindow s
    · exact .refl s
  refine hdata.trans ?_
  rw [replyToKeepAlive]
  split
  · split_ifs
    · exact moves_empty _
    · exact .refl _
  · exact .refl _

/-- **A SEGMENT, INVERTED**: a reset kills; otherwise the receiver takes it, an
    acknowledgement goes to the sender, and the reply leaves. -/
inductive SegmentOutcome (c : TCPConnection) (seg : TCPSegment) (c' : TCPConnection) : Prop
  | reset (rst : seg.header.rst = true) (killed : c' = c.killConnection false)
  | taken (ackno : WrappingInt32) (t : TCPSender) (rst : seg.header.rst = false)
      (ack : (seg.header.ack = true ∧ ackno = seg.header.ackno)
        ∨ (seg.header.ack = false ∧ (c.receiver.segmentReceived seg).ackno = some ackno))
      (moves : Moves (c.sender.ackReceived ackno seg.header.win) t)
      (flushed : Flushed c t c')
      (receiver : c'.receiver = c.receiver.segmentReceived seg)
      (active : c'.active = c.active)

theorem segmentReceived_spec {c c' : TCPConnection} {seg : TCPSegment}
    (h : c.segmentReceived seg = some c') : SegmentOutcome c seg c' := by
  rw [segmentReceived] at h
  cases hrst : seg.header.rst with
  | true =>
      rw [hrst, if_pos rfl] at h
      exact .reset hrst (Option.some.inj h).symm
  | false =>
      rw [hrst, if_neg Bool.false_ne_true] at h
      obtain ⟨ackno, hack, hc⟩ := Option.map_eq_some_iff.mp h
      have hack' : (seg.header.ack = true ∧ ackno = seg.header.ackno)
          ∨ (seg.header.ack = false
            ∧ (c.receiver.segmentReceived seg).ackno = some ackno) := by
        rw [ackToSender] at hack
        cases ha : seg.header.ack with
        | true =>
            rw [ha, if_pos rfl] at hack
            exact Or.inl ⟨rfl, (Option.some.inj hack).symm⟩
        | false =>
            rw [ha, if_neg Bool.false_ne_true] at hack
            exact Or.inr ⟨rfl, hack⟩
      have hrest : Flushed c (replyToKeepAlive (c.receiver.segmentReceived seg)
            (replyToData (c.sender.ackReceived ackno seg.header.win) seg) seg) c'
          ∧ c'.receiver = c.receiver.segmentReceived seg ∧ c'.active = c.active := by
        rw [← hc]
        dsimp only
        split_ifs
        · exact ⟨⟨rfl, rfl⟩, rfl, rfl⟩
        · exact ⟨⟨rfl, rfl⟩, rfl, rfl⟩
      exact .taken ackno _ hrst hack' (moves_replies _ _ seg) hrest.1 hrest.2.1 hrest.2.2

/-! ## Every field after a segment and after a tick -/

/-- The acknowledgement that reaches the sender with a segment. -/
def heard (c : TCPConnection) (seg : TCPSegment) : Option WrappingInt32 :=
  if seg.header.ack then some seg.header.ackno else (c.receiver.segmentReceived seg).ackno

/-- The sender once it has heard the acknowledgement and queued the replies. -/
def answer (c : TCPConnection) (seg : TCPSegment) (ackno : WrappingInt32) : TCPSender :=
  replyToKeepAlive (c.receiver.segmentReceived seg)
    (replyToData (c.sender.ackReceived ackno seg.header.win) seg) seg

/-- A segment that is not a reset, and every field of the connection after it. -/
structure Taken (c : TCPConnection) (seg : TCPSegment) (ackno : WrappingInt32)
    (c' : TCPConnection) : Prop where
  rst : seg.header.rst = false
  heard : c.heard seg = some ackno
  receiver : c'.receiver = c.receiver.segmentReceived seg
  flushed : Flushed c (c.answer seg ackno) c'
  active : c'.active = c.active
  cfg : c'.cfg = c.cfg
  time : c'.timeLastRecv = 0
  linger : c'.lingerAfterStreamsFinish
    = if c'.receiver.streamOut.inputEnded && !c'.sender.stream.inputEnded then false
      else c.lingerAfterStreamsFinish

theorem segmentReceived_reset {c : TCPConnection} {seg : TCPSegment}
    (h : seg.header.rst = true) : c.segmentReceived seg = some (c.killConnection false) := by
  rw [segmentReceived, h]
  exact if_pos rfl

theorem segmentReceived_eq {c : TCPConnection} {seg : TCPSegment}
    (h : seg.header.rst = false) :
    c.segmentReceived seg = (c.heard seg).map fun ackno =>
      let c := { c with
        timeLastRecv := 0
        receiver := c.receiver.segmentReceived seg
        sender := c.answer seg ackno }.clearSenderBuffer
      if c.receiver.streamOut.inputEnded && !c.sender.stream.inputEnded then
        { c with lingerAfterStreamsFinish := false }
      else c := by
  rw [segmentReceived, h, if_neg Bool.false_ne_true]
  rfl

/-- A segment that is taken, with all that follows. -/
theorem taken_of_heard {c : TCPConnection} {seg : TCPSegment} {ackno : WrappingInt32}
    (hrst : seg.header.rst = false) (hheard : c.heard seg = some ackno) :
    ∃ c', c.segmentReceived seg = some c' ∧ Taken c seg ackno c' := by
  rw [segmentReceived_eq hrst, hheard]
  refine ⟨_, rfl, ?_⟩
  dsimp only
  split_ifs with hclear
  · exact ⟨hrst, hheard, rfl, ⟨rfl, rfl⟩, rfl, rfl, rfl, (if_pos hclear).symm⟩
  · exact ⟨hrst, hheard, rfl, ⟨rfl, rfl⟩, rfl, rfl, rfl, (if_neg hclear).symm⟩

theorem segmentReceived_cases {c c' : TCPConnection} {seg : TCPSegment}
    (h : c.segmentReceived seg = some c') :
    (seg.header.rst = true ∧ c' = c.killConnection false)
      ∨ ∃ ackno, Taken c seg ackno c' := by
  cases hrst : seg.header.rst with
  | true =>
      rw [segmentReceived_reset hrst] at h
      exact Or.inl ⟨rfl, (Option.some.inj h).symm⟩
  | false =>
      cases hheard : c.heard seg with
      | none =>
          rw [segmentReceived_eq hrst, hheard] at h
          exact nomatch h
      | some ackno =>
          obtain ⟨c'', hc, htaken⟩ := taken_of_heard hrst hheard
          rw [hc] at h
          rw [← Option.some.inj h]
          exact Or.inr ⟨ackno, htaken⟩

/-- What no tick changes, and the clock. -/
theorem tick_frame (c : TCPConnection) (ms : Nat) :
    (c.tick ms).cfg = c.cfg
      ∧ (c.tick ms).lingerAfterStreamsFinish = c.lingerAfterStreamsFinish
      ∧ (c.tick ms).timeLastRecv = (c.timeLastRecv + ms) % 2 ^ 64 := by
  rw [tick]
  dsimp only
  split_ifs with hmax
  · exact ⟨rfl, rfl, rfl⟩
  · rw [closeIfDone]
    dsimp only
    split_ifs <;> exact ⟨rfl, rfl, rfl⟩

end TCPConnection

end SpongeConnection
