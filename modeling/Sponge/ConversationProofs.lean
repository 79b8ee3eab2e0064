import Sponge.TransferProofs

/-! # A conversation gets through

    Two endpoints talk: in each turn one of them writes a byte, or ends its stream.  What it
    sends then is sent again when its timer expires, until the answer comes.  Segments and
    answers may be lost, up to the number of attempts that the connection makes.  Only the
    handshake loses nothing.

    Between the turns both sides are quiet: nothing is in flight and nothing is parked
    (`Linked`).  A turn occupies one sequence number, so it is one segment, and whatever is
    lost, it ends in a quiet state in which the other side has got it (`turn_linked`).  From
    the first `SYN` to the last `ACK` and the ticks after it, everything that was said is
    heard, and both connections end without an error (`conversation_completes`). -/

namespace SpongeConversation

open SpongeByteStream SpongeWrapping SpongeSegment SpongeReceiver SpongeSender
open SpongeConnection SpongeAgreement SpongeAdvertisement SpongeNetwork SpongeTransfer RunRule

/-! ## The two endpoints -/

/-- Nothing waits to be transmitted. -/
structure Idle (z : Endpoint) : Prop where
  queue : z.conn.segmentsOut = []
  active : z.conn.active = true

/-- The owner of the endpoint has done and seen nothing new. -/
structure SameOwner (z z' : Endpoint) : Prop where
  accepted : z'.accepted = z.accepted
  readBytes : z'.readBytes = z.readBytes
  closed : z'.closed = z.closed

/-- `out` acknowledges all that `s` has sent, and says nothing itself. -/
structure Answers (own s : TCPSender) (out : TCPSegment) : Prop where
  rst : out.header.rst = false
  ack : out.header.ack = true
  ackno : out.header.ackno = wrap s.nextSeqno s.isn
  syn : out.header.syn = false
  fin : out.header.fin = false
  payload : out.payload = []
  seqno : out.header.seqno = wrap own.nextSeqno own.isn

section Endpoints

variable {p x y z : Endpoint} {seg out : TCPSegment} {isn : WrappingInt32} {n m k : Nat}
  {ended f : Bool} {tries : Nat} {q : TCPSender} {waiting : List Byte}

theorem act_transmit (p : Endpoint) (h : z.conn.segmentsOut = [seg]) :
    Endpoint.act p z .transmit = some
      { z.become { z.conn with segmentsOut := [] } with sent := z.sent ++ [seg] } := by
  rw [Endpoint.act, h]

theorem act_deliver {c : TCPConnection} (h : p.sent.getLast? = some seg)
    (hc : z.conn.segmentReceived seg = some c) :
    Endpoint.act p z (.deliver (p.sent.length - 1)) = some (z.become c) := by
  rw [List.getLast?_eq_getElem?] at h
  rw [Endpoint.act, h, Option.bind_some, hc]
  rfl

/-- The three steps in which an endpoint hears the last segment of its peer. -/
def hearing (p : Endpoint) : List Op := [.deliver (p.sent.length - 1), .read 1, .transmit]

/-- What an endpoint is after it has heard `out` and become `c`. -/
structure Heard (y : Endpoint) (c : TCPConnection) (waiting : List Byte) (reply : TCPSegment)
    (y' : Endpoint) : Prop where
  sender : y'.conn.sender = c.sender
  queue : y'.conn.segmentsOut = []
  active : y'.conn.active = c.active
  time : y'.conn.timeLastRecv = c.timeLastRecv
  accepted : y'.accepted = y.accepted
  readBytes : y'.readBytes = y.readBytes ++ waiting
  closed : y'.closed = y.closed
  sent : y'.sent.getLast? = some reply

theorem run_hearing {c : TCPConnection} {reply : TCPSegment} (hout : x.sent.getLast? = some out)
    (hc : y.conn.segmentReceived out = some c) (hqueue : c.segmentsOut = [reply])
    (hopen : Open c.receiver isn k f waiting) (hshort : waiting.length ≤ 1) :
    ∃ y', run (Endpoint.act x) y (hearing x) = some y' ∧ Heard y c waiting reply y'
      ∧ Open y'.conn.receiver isn k f [] := by
  obtain ⟨hread, hbytes⟩ := hopen.read hshort
  have htransmit := act_transmit x (z := { (y.become c).become (c.readInbound 1) with
    readBytes := y.readBytes ++ (c.receiver.streamOut.read 1).1 }) hqueue
  refine ⟨_, run_cons (act_deliver hout hc) (run_cons rfl (run_cons htransmit rfl)),
    ⟨rfl, rfl, rfl, rfl, rfl, ?_, rfl, List.getLast?_concat ..⟩, hread⟩
  show y.readBytes ++ (c.receiver.streamOut.read 1).1 = _
  rw [hbytes]

/-- **WHAT IS HEARD** is read, and answered. -/
theorem hears (hout : x.sent.getLast? = some out) (hrst : out.header.rst = false)
    (hack : out.header.ack = true) (hsize : out.lengthInSequenceSpace = 1)
    (hq : y.conn.sender.ackReceived out.header.ackno out.header.win = q) (hquiet : Quiet q m ended)
    (hopen : Open (y.conn.receiver.segmentReceived out) isn k f waiting)
    (hshort : waiting.length ≤ 1) (hidle : Idle y) :
    ∃ y', run (Endpoint.act x) y (hearing x) = some y' ∧ Quiet y'.conn.sender m ended
      ∧ y'.conn.sender.isn = q.isn ∧ Open y'.conn.receiver isn k f []
      ∧ y'.accepted = y.accepted ∧ y'.readBytes = y.readBytes ++ waiting ∧ y'.closed = y.closed
      ∧ Idle y' ∧ y'.conn.timeLastRecv = 0
      ∧ y'.sent.getLast?
        = some (TCPConnection.stamp (y.conn.receiver.segmentReceived out) (bare q)) := by
  obtain ⟨c, hc, hreceiver, hsender, hisn, hqueue, hactive, htime⟩ :=
    answer_of_quiet hrst hack hq hquiet hopen.syn hsize
  rw [hidle.queue, List.nil_append, hreceiver] at hqueue
  rw [← hreceiver] at hopen
  obtain ⟨z, hrun, hz, hopen'⟩ := run_hearing hout hc hqueue hopen hshort
  refine ⟨z, hrun, ?_, ?_, hopen', hz.accepted, hz.readBytes, hz.closed,
    ⟨hz.queue, hz.active.trans (hactive.trans hidle.active)⟩, hz.time.trans htime, hz.sent⟩
  · rw [hz.sender]
    exact hsender
  · rw [hz.sender]
    exact hisn

/-- The answer to what `s` has sent, as it leaves. -/
theorem answers_bare {r : TCPReceiver} {s : TCPSender} (hopen : Open r s.isn k f waiting)
    (hnext : s.nextSeqno = k + 1 + f.toNat) (q : TCPSender) :
    Answers q s (TCPConnection.stamp r (bare q)) := by
  rw [TCPConnection.stamp, hopen.ackno, ← hnext]
  exact ⟨rfl, rfl, rfl, rfl, rfl, rfl, rfl⟩

/-- **THE ANSWER** comes: what was in flight is acknowledged. -/
theorem settles (hflight : Flight x.conn.sender n ended seg tries)
    (hopen : Open x.conn.receiver y.conn.sender.isn m f waiting)
    (hnext : y.conn.sender.nextSeqno = m + 1 + f.toNat) (hout : y.sent.getLast? = some out)
    (hanswers : Answers y.conn.sender x.conn.sender out) (hidle : Idle x) :
    ∃ x', Endpoint.act y x (.deliver (y.sent.length - 1)) = some x'
      ∧ Quiet x'.conn.sender n ended ∧ x'.conn.sender.isn = x.conn.sender.isn
      ∧ Open x'.conn.receiver y.conn.sender.isn m f waiting ∧ SameOwner x x' ∧ Idle x'
      ∧ x'.conn.timeLastRecv = 0 := by
  obtain ⟨hquiet, hisn⟩ := hflight.ackReceived out.header.win
  rw [← hanswers.ackno] at hquiet hisn
  have hopen' := hopen.of_nil hanswers.payload
  rw [hanswers.fin, Bool.false_or] at hopen'
  have hsize : out.lengthInSequenceSpace = 0 := by
    rw [TCPSegment.lengthInSequenceSpace, hanswers.payload, hanswers.syn, hanswers.fin]
    rfl
  -- its number is the next one, and a keep-alive has the one before
  have hseqno : out.header.seqno ≠ (wrap (m + 1 + f.toNat) y.conn.sender.isn).sub 1 := by
    rw [hanswers.seqno, hnext, Nat.add_right_comm m 1, wrap_succ_sub_one]
    intro heq
    rw [wrap_eq_iff] at heq
    omega
  obtain ⟨c, hc, hreceiver, hsender, hisn', hqueue, hactive, htime⟩ :=
    no_answer_of_quiet hanswers.rst hanswers.ack rfl hquiet hopen'.ackno hsize hseqno
  rw [← hreceiver] at hopen'
  exact ⟨_, act_deliver hout hc, hsender, hisn'.trans hisn, hopen', ⟨rfl, rfl, rfl⟩,
    ⟨hqueue.trans hidle.queue, hactive.trans hidle.active⟩, htime⟩

/-- The steps of another attempt. -/
def attempting (z : Endpoint) : List Op :=
  [.tick z.conn.sender.retransmissionTimeout, .transmit]

/-- **ANOTHER ATTEMPT** sends the segment again. -/
theorem attempts (hflight : Flight x.conn.sender n ended seg tries) (htries : tries < 8)
    (hidle : Idle x) (y : Endpoint) :
    ∃ x', run (Endpoint.act y) x (attempting x) = some x'
      ∧ Flight x'.conn.sender n ended seg (tries + 1)
      ∧ x'.conn.sender.isn = x.conn.sender.isn ∧ x'.conn.receiver = x.conn.receiver
      ∧ SameOwner x x' ∧ Idle x'
      ∧ x'.sent.getLast? = some (TCPConnection.stamp x.conn.receiver seg) := by
  obtain ⟨hreceiver, hflight', hisn, hqueue, hactive⟩ := tick_of_flight hflight htries
  rw [hidle.queue, List.nil_append] at hqueue
  have htransmit := act_transmit y
    (z := x.become (x.conn.tick x.conn.sender.retransmissionTimeout)) hqueue
  exact ⟨_, run_cons rfl (run_cons htransmit rfl), hflight', hisn, hreceiver, ⟨rfl, rfl, rfl⟩,
    ⟨rfl, hactive.trans hidle.active⟩, List.getLast?_concat ..⟩

/-- What an owner's call does. -/
theorem act_say (p : Endpoint) (hopen : z.closed = false)
    (hroom : z.conn.sender.stream.buffer.length < z.conn.sender.stream.capacity.toNat)
    (what : Saying) :
    ∃ z', Endpoint.act p z what.op = some z'
      ∧ TCPConnection.Flushed z.conn
        { z.conn.sender with stream := what.onto z.conn.sender.stream }.fillWindow z'.conn
      ∧ z'.conn.receiver = z.conn.receiver ∧ z'.conn.active = z.conn.active
      ∧ z'.sent = z.sent ∧ z'.accepted = z.accepted ++ what.bytes ∧ z'.readBytes = z.readBytes
      ∧ z'.closed = what.ends := by
  cases what with
  | byte b =>
      refine ⟨{ z.become (z.conn.write [b]).2 with
        accepted := z.accepted ++ [b].take (z.conn.write [b]).1 }, ?_, ⟨rfl, rfl⟩, rfl, rfl, rfl, ?_,
        rfl, hopen⟩
      · show Endpoint.act p z (.write [b]) = _
        rw [Endpoint.act, hopen]
        rfl
      · show z.accepted ++ [b].take (z.conn.sender.stream.write [b]).1 = z.accepted ++ [b]
        rw [ByteStream.write_count_of_fits _ (show _ + 1 ≤ _ from hroom)]
        rfl
  | fin =>
      have hflushed : TCPConnection.Flushed z.conn
          { z.conn.sender with stream := z.conn.sender.stream.endInput }.fillWindow
          z.conn.endInputStream ∧ z.conn.endInputStream.receiver = z.conn.receiver
          ∧ z.conn.endInputStream.active = z.conn.active := by
        rw [TCPConnection.endInputStream]
        dsimp only
        split_ifs
        · exact ⟨⟨rfl, rfl⟩, rfl, rfl⟩
        · exact ⟨⟨rfl, rfl⟩, rfl, rfl⟩
      exact ⟨_, rfl, hflushed.1, hflushed.2.1, hflushed.2.2, rfl, (List.append_nil _).symm, rfl, rfl⟩

end Endpoints

/-! ## A turn -/

/-- **ONE DIRECTION** at rest: everything that `x` said is acknowledged, and `y` has read it. -/
structure Way (x y : Endpoint) (said : List Byte) (ended : Bool) : Prop where
  sender : Quiet x.conn.sender said.length ended
  receiver : Open y.conn.receiver x.conn.sender.isn said.length ended []
  accepted : x.accepted = said
  readBytes : y.readBytes = said
  closed : x.closed = ended

/-- What `y` has got: all that was said before, and then `what`. -/
structure Got (isn : WrappingInt32) (said : List Byte) (what : Saying) (y : Endpoint) : Prop where
  receiver : Open y.conn.receiver isn (said.length + what.bytes.length) what.ends []
  readBytes : y.readBytes = said ++ what.bytes

/-- **ONE DIRECTION** with a segment in flight that says `what`; it may have arrived. -/
structure Aloft (x y : Endpoint) (said : List Byte) (what : Saying) (tries : Nat) : Prop where
  wire : ∃ seg, Flight x.conn.sender (said.length + what.bytes.length) what.ends seg tries
    ∧ Says seg x.conn.sender.isn said.length what
    ∧ x.sent.getLast? = some (TCPConnection.stamp x.conn.receiver seg)
  accepted : x.accepted = said ++ what.bytes
  closed : x.closed = what.ends
  got : (Open y.conn.receiver x.conn.sender.isn said.length false [] ∧ y.readBytes = said)
    ∨ Got x.conn.sender.isn said what y

section Turn

variable {x x' y : Endpoint} {said told : List Byte} {e : Bool} {what : Saying} {tries : Nat}

/-- The other direction looks at the receiver and at what was read. -/
theorem Way.congr (h : Way y x told e) (hr : x'.conn.receiver = x.conn.receiver)
    (hread : x'.readBytes = x.readBytes) : Way y x' told e :=
  ⟨h.sender, by rw [hr]; exact h.receiver, h.accepted, hread.trans h.readBytes, h.closed⟩

/-- Something is said, and its segment transmitted. -/
theorem Way.speak (h : Way x y said false) (hback : Way y x told e) (hidle : Idle x)
    (hn : said.length + 1 < 2 ^ 32) (what : Saying) :
    ∃ x', run (Endpoint.act y) x [what.op, .transmit] = some x' ∧ Aloft x' y said what 0
      ∧ Way y x' told e ∧ Idle x' := by
  obtain ⟨seg, hsays, hqueue, hisn, hflight⟩ := h.sender.says hn what
  have hroom : x.conn.sender.stream.buffer.length < x.conn.sender.stream.capacity.toNat := by
    rw [h.sender.buffer]
    exact h.sender.room
  obtain ⟨z, hact, hflushed, hreceiver, hactive, hsent, haccepted, hread, hclosed⟩ :=
    act_say y h.closed hroom what
  have hout := hflushed.segmentsOut
  rw [hidle.queue, hqueue] at hout
  have hsender : z.conn.sender.isn = x.conn.sender.isn := by
    rw [hflushed.sender]
    exact hisn
  refine ⟨_, run_cons hact (run_cons (act_transmit y hout) rfl), ⟨⟨seg, ?_, ?_, ?_⟩, ?_, hclosed,
    Or.inl ⟨?_, h.readBytes⟩⟩, hback.congr hreceiver hread, ⟨rfl, hactive.trans hidle.active⟩⟩
  · show Flight z.conn.sender _ _ _ _
    rw [hflushed.sender]
    exact hflight
  · show Says seg z.conn.sender.isn _ _
    rw [hsender]
    exact hsays
  · exact List.getLast?_concat ..
  · exact haccepted.trans (by rw [h.accepted])
  · show Open y.conn.receiver z.conn.sender.isn _ _ _
    rw [hsender]
    exact h.receiver

theorem Aloft.attempt (h : Aloft x y said what tries) (hback : Way y x told e) (hidle : Idle x)
    (htries : tries < 8) :
    ∃ x', run (Endpoint.act y) x (attempting x) = some x' ∧ Aloft x' y said what (tries + 1)
      ∧ Way y x' told e ∧ Idle x' := by
  obtain ⟨seg, hflight, hsays, -⟩ := h.wire
  obtain ⟨z, hrun, hflight', hisn, hreceiver, hsame, hidle', hsent⟩ :=
    attempts hflight htries hidle y
  refine ⟨z, hrun, ⟨⟨seg, hflight', ?_, ?_⟩, hsame.accepted.trans h.accepted,
    hsame.closed.trans h.closed, ?_⟩, hback.congr hreceiver hsame.readBytes, hidle'⟩
  · rw [hisn]
    exact hsays
  · rw [hreceiver]
    exact hsent
  · rw [hisn]
    exact h.got

/-- **THE SEGMENT ARRIVES**, the first time or again. -/
theorem Aloft.hear (h : Aloft x y said what tries) (hback : Way y x told e) (hidle : Idle y)
    (hn : said.length + 1 < 2 ^ 32) (ht : told.length < 2 ^ 32) :
    ∃ y' out, run (Endpoint.act x) y (hearing x) = some y' ∧ Aloft x y' said what tries
      ∧ Got x.conn.sender.isn said what y' ∧ Way y' x told e ∧ Idle y'
      ∧ y'.conn.timeLastRecv = 0 ∧ y'.sent.getLast? = some out
      ∧ Answers y'.conn.sender x.conn.sender out := by
  obtain ⟨seg, hflight, hsays, hsent⟩ := h.wire
  have hstamped := hsays.stamped x.conn.receiver
  have hadv := advertises_stamp hback.receiver.syn seg
  have hackno : (TCPConnection.stamp x.conn.receiver seg).header.ackno
      = wrap y.conn.sender.nextSeqno y.conn.sender.isn := by
    rw [hadv.absolute, hback.receiver.ackPos_eq, hback.receiver.isn, hback.sender.next]
  have hack := hback.sender.ackReceived (by omega)
    (TCPConnection.stamp x.conn.receiver seg).header.win
  rw [← hackno] at hack
  have hquiet := hback.sender.window_set (TCPConnection.stamp x.conn.receiver seg).header.win
  -- the receiver ends in the same place, whether or not it was there before
  obtain ⟨waiting, hopen, hshort, hbytes⟩ : ∃ waiting,
      Open (y.conn.receiver.segmentReceived (TCPConnection.stamp x.conn.receiver seg))
        x.conn.sender.isn (said.length + what.bytes.length) what.ends waiting
      ∧ waiting.length ≤ 1 ∧ y.readBytes ++ waiting = said ++ what.bytes := by
    rcases h.got with ⟨hopen, hread⟩ | hgot
    · have hsize := what.size
      exact ⟨what.bytes, hopen.takes hstamped hn, by omega, by rw [hread]⟩
    · refine ⟨[], hgot.receiver.again hstamped hn, Nat.zero_le _, ?_⟩
      rw [hgot.readBytes, List.append_nil]
  obtain ⟨z, hrun, hquiet', hisn, hopen', haccepted, hread, hclosed, hidle', htime, hlast⟩ :=
    hears hsent hstamped.rst hadv.ack hstamped.size hack hquiet hopen hshort hidle
  have hgot : Got x.conn.sender.isn said what z := ⟨hopen', hread.trans hbytes⟩
  refine ⟨z, _, hrun, ⟨⟨seg, hflight, hsays, hsent⟩, h.accepted, h.closed, Or.inr hgot⟩, hgot, ?_,
    hidle', htime, hlast, ?_⟩
  · refine ⟨hquiet', ?_, haccepted.trans hback.accepted, hback.readBytes,
      hclosed.trans hback.closed⟩
    rw [hisn]
    exact hback.receiver
  · have hanswers := answers_bare hopen hflight.next z.conn.sender
    have hsame : bare { y.conn.sender with
        windowSize := (TCPConnection.stamp x.conn.receiver seg).header.win.toNat }
        = bare z.conn.sender := by
      rw [bare, bare, hquiet'.next, hisn]
      dsimp only
      rw [hback.sender.next]
    rw [hsame]
    exact hanswers

/-- **THE ANSWER ARRIVES**, and the turn is over. -/
theorem Aloft.settle (h : Aloft x y said what tries) (hgot : Got x.conn.sender.isn said what y)
    (hback : Way y x told e) (hidle : Idle x) {out : TCPSegment}
    (hout : y.sent.getLast? = some out) (hanswers : Answers y.conn.sender x.conn.sender out) :
    ∃ x', Endpoint.act y x (.deliver (y.sent.length - 1)) = some x'
      ∧ Way x' y (said ++ what.bytes) what.ends ∧ Way y x' told e ∧ Idle x'
      ∧ x'.conn.timeLastRecv = 0 := by
  obtain ⟨seg, hflight, -, -⟩ := h.wire
  obtain ⟨z, hact, hquiet, hisn, hopen, hsame, hidle', htime⟩ :=
    settles hflight hback.receiver hback.sender.next hout hanswers hidle
  refine ⟨z, hact, ⟨?_, ?_, hsame.accepted.trans h.accepted, hgot.readBytes,
    hsame.closed.trans h.closed⟩, ⟨hback.sender, hopen, hback.accepted,
    hsame.readBytes.trans hback.readBytes, hback.closed⟩, hidle', htime⟩
  · rw [List.length_append]
    exact hquiet
  · rw [hisn, List.length_append]
    exact hgot.receiver

end Turn

/-! ## The handshake -/

section Handshake

variable {x y : Endpoint} {out seg : TCPSegment} {isn ackno : WrappingInt32}

/-- A `SYN`, and nothing else. -/
structure Hello (isn : WrappingInt32) (out : TCPSegment) : Prop where
  syn : out.header.syn = true
  rst : out.header.rst = false
  fin : out.header.fin = false
  payload : out.payload = []
  seqno : out.header.seqno = isn

theorem Hello.stamped (h : Hello isn seg) (r : TCPReceiver) :
    Hello isn (TCPConnection.stamp r seg) := by
  obtain ⟨hsyn, hrst, hfin, hseqno, hpayload⟩ := stamp_frame r seg
  exact ⟨hsyn.trans h.syn, hrst.trans h.rst, hfin.trans h.fin, hpayload.trans h.payload,
    hseqno.trans h.seqno⟩

theorem Hello.size (h : Hello isn out) : out.lengthInSequenceSpace = 1 := by
  rw [TCPSegment.lengthInSequenceSpace, h.payload, h.syn, h.fin]
  rfl

theorem Hello.opens (h : Hello isn out) {capacity : UInt64} (hcap : 0 < capacity.toNat) :
    Open ((TCPReceiver.new capacity).segmentReceived out) isn 0 false [] := by
  rw [← h.seqno]
  exact open_new capacity hcap h.syn h.fin h.payload

/-- The owner has done nothing yet. -/
structure Unused (z : Endpoint) : Prop where
  accepted : z.accepted = []
  closed : z.closed = false
  readBytes : z.readBytes = []
  idle : Idle z

/-- It has sent its `SYN`, and its owner has done nothing else. -/
structure Greeting (x : Endpoint) (out : TCPSegment) : Prop extends Unused x where
  flight : ∃ seg, Flight x.conn.sender 0 false seg 0
  hello : Hello x.conn.sender.isn out
  sent : x.sent.getLast? = some out

/-- The first segment of a sender is its `SYN`. -/
structure First (isn : WrappingInt32) (s : TCPSender) (seg : TCPSegment) : Prop where
  hello : Hello isn seg
  ack : seg.header.ack = false
  queue : s.fillWindow.segmentsOut = [seg]
  flight : Flight { s.fillWindow with segmentsOut := [] } 0 false seg 0
  isn : s.fillWindow.isn = isn

variable {p z : Endpoint} {s : TCPSender}

/-- The first endpoint connects. -/
theorem First.greets (h : First isn z.conn.sender seg) (hz : Unused z) (p : Endpoint) :
    ∃ x, run (Endpoint.act p) z [.connect, .transmit] = some x
      ∧ Greeting x (TCPConnection.stamp z.conn.receiver seg)
      ∧ x.conn.receiver = z.conn.receiver := by
  have hqueue : (z.become z.conn.connect).conn.segmentsOut
      = [TCPConnection.stamp z.conn.receiver seg] := by
    show z.conn.segmentsOut ++ z.conn.sender.fillWindow.segmentsOut.map _ = _
    rw [hz.idle.queue, h.queue]
    rfl
  refine ⟨_, run_cons rfl (run_cons (act_transmit p hqueue) rfl), ⟨⟨hz.accepted, hz.closed,
    hz.readBytes, ⟨rfl, hz.idle.active⟩⟩, ⟨seg, h.flight⟩, ?_, List.getLast?_concat ..⟩, rfl⟩
  show Hello z.conn.sender.fillWindow.isn _
  rw [h.isn]
  exact h.hello.stamped _

/-- The second endpoint hears the first `SYN`, and sends its own. -/
theorem First.welcomes (h : First isn s seg) (hy : Unused y) (hx : Greeting x out)
    (hheard : y.conn.heard out = some ackno) (hanswer : y.conn.answer out ackno = s.fillWindow)
    (hopen : Open (y.conn.receiver.segmentReceived out) x.conn.sender.isn 0 false []) :
    ∃ y' out', run (Endpoint.act x) y (hearing x) = some y' ∧ Greeting y' out'
      ∧ Open y'.conn.receiver x.conn.sender.isn 0 false [] ∧ out'.header.ack = true
      ∧ out'.header.ackno = wrap x.conn.sender.nextSeqno x.conn.sender.isn := by
  obtain ⟨c, hc, htaken⟩ := TCPConnection.taken_of_heard hx.hello.rst hheard
  have hflushed := htaken.flushed
  rw [hanswer] at hflushed
  have hqueue : c.segmentsOut = [TCPConnection.stamp c.receiver seg] := by
    rw [hflushed.segmentsOut, h.queue, hy.idle.queue]
    rfl
  rw [← htaken.receiver] at hopen
  have hadv := advertises_stamp hopen.syn seg
  obtain ⟨seg₀, hflight⟩ := hx.flight
  obtain ⟨z, hrun, hz, hopenz⟩ := run_hearing hx.sent hc hqueue hopen (Nat.zero_le 1)
  refine ⟨z, _, hrun, ⟨⟨hz.accepted.trans hy.accepted, hz.closed.trans hy.closed, ?_,
    ⟨hz.queue, hz.active.trans (htaken.active.trans hy.idle.active)⟩⟩, ⟨seg, ?_⟩, ?_, hz.sent⟩,
    hopenz, hadv.ack, ?_⟩
  · rw [hz.readBytes, hy.readBytes, List.append_nil]
  · rw [hz.sender, hflushed.sender]
    exact h.flight
  · rw [hz.sender, hflushed.sender]
    show Hello s.fillWindow.isn _
    rw [h.isn]
    exact h.hello.stamped _
  · rw [hadv.absolute, hopen.ackPos_eq, hopen.isn, hflight.next]

theorem First.replyToData (h : First isn s seg) (hqueue : s.segmentsOut = [])
    (hsize : out.lengthInSequenceSpace = 1) :
    TCPConnection.replyToData s out = s.fillWindow := by
  rw [TCPConnection.replyToData, hqueue, hsize, h.queue]
  rfl

/-- A new connection takes the acknowledgement that it would send itself for one that it got.
    Whether it is then beyond its own numbers or not, it sends its `SYN`. -/
theorem First.answer {c : TCPConnection} (h : First isn s seg)
    (hs : s = { c.sender with windowSize := out.header.win.toNat })
    (hsize : out.lengthInSequenceSpace = 1) (hnone : c.sender.outstandingSegments = [])
    (hqueue : c.sender.segmentsOut = []) (hnext : c.sender.nextSeqno = 0)
    (hacked : c.sender.absAckno = 0)
    (hackno : (c.receiver.segmentReceived out).ackno = some ackno) :
    c.answer out ackno = s.fillWindow := by
  rw [TCPConnection.answer, replyToKeepAlive_of_not hackno (Or.inl (by omega))]
  by_cases hbeyond : c.sender.nextSeqno < unwrap ackno c.sender.isn (c.sender.absAckno + 1)
  · rw [SpongeOldAck.ackReceived_of_beyond out.header.win hbeyond, ← hs]
    exact h.replyToData (by rw [hs]; exact hqueue) hsize
  · rw [TCPSender.ackReceived, noteAck_again hnone (by omega) (by omega), ← hs]
    dsimp only
    rw [if_pos rfl, TCPConnection.replyToData, h.queue]
    exact if_neg Bool.false_ne_true

variable (cfg : TCPConfig) (random : BitVec 32)

/-- **THE SYN** of a new sender, whatever the window that it has heard of. -/
theorem first_new (hcap : 0 < cfg.sendCapacity.toNat) (window : Nat) (hwindow : window < 2 ^ 16) :
    ∃ seg, First (TCPConnection.new cfg random).sender.isn
      { (TCPConnection.new cfg random).sender with windowSize := window } seg := by
  have hready : Ready { (TCPConnection.new cfg random).sender with windowSize := window } :=
    ⟨rfl, Nat.two_pow_pos 63, rfl, rfl, rfl, rfl, hwindow, rfl, hcap⟩
  obtain ⟨seg, hl⟩ := hready.launched rfl rfl
  exact ⟨seg, ⟨hl.syn.mpr rfl, hl.plain.2, hl.fin, hl.payload, hl.seqno.trans (wrap_zero _)⟩,
    hl.plain.1, hl.queue, hl.flight, hl.isn⟩

/-- An endpoint that has not begun. -/
structure Fresh (capacity : UInt64) (z : Endpoint) : Prop where
  unused : Unused z
  receiver : z.conn.receiver = .new capacity
  outstanding : z.conn.sender.outstandingSegments = []
  queue : z.conn.sender.segmentsOut = []
  next : z.conn.sender.nextSeqno = 0
  acked : z.conn.sender.absAckno = 0
  first : ∃ seg, First z.conn.sender.isn z.conn.sender seg
  answers : ∀ win : BitVec 16, ∃ s seg, s = { z.conn.sender with windowSize := win.toNat }
    ∧ First z.conn.sender.isn s seg

theorem fresh_new (hcap : 0 < cfg.sendCapacity.toNat) :
    Fresh cfg.recvCapacity (.new cfg random) where
  unused := ⟨rfl, rfl, rfl, ⟨rfl, rfl⟩⟩
  receiver := rfl
  outstanding := rfl
  queue := rfl
  next := rfl
  acked := rfl
  first := first_new cfg random hcap 1 (Nat.one_lt_two_pow (by decide))
  answers := fun win => by
    obtain ⟨seg, hfirst⟩ := first_new cfg random hcap win.toNat win.isLt
    exact ⟨_, seg, rfl, hfirst⟩

/-- **THE HANDSHAKE** between two new endpoints. -/
theorem Greeting.linked (h : Greeting x out) (h' : Greeting y seg)
    (hx : x.conn.receiver = .new cfg.recvCapacity) (hrecv : 0 < cfg.recvCapacity.toNat)
    (hy : Open y.conn.receiver x.conn.sender.isn 0 false []) (hack : seg.header.ack = true)
    (hackno : seg.header.ackno = wrap x.conn.sender.nextSeqno x.conn.sender.isn) :
    ∃ x' y', run (Endpoint.act y) x (hearing y) = some x'
      ∧ Endpoint.act x' y (.deliver (x'.sent.length - 1)) = some y'
      ∧ Way x' y' [] false ∧ Way y' x' [] false ∧ Idle x' ∧ Idle y'
      ∧ x'.conn.timeLastRecv = 0 ∧ y'.conn.timeLastRecv = 0 := by
  obtain ⟨segx, hflightx⟩ := h.flight
  obtain ⟨segy, hflighty⟩ := h'.flight
  obtain ⟨hquiet, hisn⟩ := hflightx.ackReceived seg.header.win
  rw [← hackno] at hquiet hisn
  have hopen : Open (x.conn.receiver.segmentReceived seg) y.conn.sender.isn 0 false [] := by
    rw [hx]
    exact h'.hello.opens hrecv
  obtain ⟨x', hrun, hquietx, hisnx, hopenx, haccepted, hread, hclosed, hidlex, htimex, hsent⟩ :=
    hears h'.sent h'.hello.rst hack h'.hello.size rfl hquiet hopen (Nat.zero_le 1) h.idle
  have hanswers := answers_bare hopen hflighty.next x'.conn.sender
  have hsame : bare (x.conn.sender.ackReceived seg.header.ackno seg.header.win)
      = bare x'.conn.sender := by
    rw [bare, bare, hquietx.next, hisnx, hquiet.next]
  rw [hsame] at hsent
  have hy' : Open y.conn.receiver x'.conn.sender.isn 0 false [] := by
    rw [hisnx, hisn]
    exact hy
  obtain ⟨y', hact, hquiety, hisny, hopeny, howner, hidley, htimey⟩ :=
    settles hflighty hy' hquietx.next hsent hanswers h'.idle
  refine ⟨x', y', hrun, hact, ⟨hquietx, hopeny, haccepted.trans h.accepted,
    howner.readBytes.trans h'.readBytes, hclosed.trans h.closed⟩, ⟨hquiety, ?_,
    howner.accepted.trans h'.accepted, ?_, howner.closed.trans h'.closed⟩, hidlex, hidley, htimex,
    htimey⟩
  · rw [hisny]
    exact hopenx
  · rw [hread, h.readBytes]
    rfl

end Handshake

/-! ## The whole conversation -/

/-- What is lost before a turn gets through. -/
inductive Loss
  /-- the segment -/
  | segment
  /-- the answer to it -/
  | answer
deriving DecidableEq, Repr

/-- One side says something, and so much is lost on the way. -/
structure Turn where
  side : Side
  what : Saying
  losses : List Loss
deriving DecidableEq, Repr

/-- A few steps of one endpoint. -/
inductive Phase
  | connect (side : Side)
  | say (side : Side) (what : Saying)
  /-- the timer expires, and what is in flight is sent again -/
  | attempt (side : Side)
  /-- the last segment of the peer arrives, is read and answered -/
  | hear (side : Side)
  /-- the last segment of the peer arrives -/
  | settle (side : Side)
  /-- the linger time passes -/
  | wait (side : Side)
deriving DecidableEq, Repr

namespace Phase

def side : Phase → Side
  | .connect side => side
  | .say side _ => side
  | .attempt side => side
  | .hear side => side
  | .settle side => side
  | .wait side => side

def ops (s : Sys) : Phase → List Op
  | .connect _ => [.connect, .transmit]
  | .say _ what => [what.op, .transmit]
  | .attempt side => attempting (s.endpoint side)
  | .hear side => hearing (s.endpoint side.other)
  | .settle side => [.deliver ((s.endpoint side.other).sent.length - 1)]
  | .wait side => [.tick (10 * (s.endpoint side).conn.cfg.rtTimeout.toNat)]

end Phase

/-- A phase is a run of the system. -/
def phaseStep [Popped] (s : Sys) (p : Phase) : Option Sys :=
  run sysStep s ((p.ops s).map fun op => (p.side, op))

def Loss.phases (side : Side) : Loss → List Phase
  | .segment => [.attempt side]
  | .answer => [.hear side.other, .attempt side]

def Turn.phases (t : Turn) : List Phase :=
  .say t.side t.what :: (t.losses.flatMap (Loss.phases t.side)
    ++ [.hear t.side.other, .settle t.side])

/-- From the first `SYN` until the linger time has passed on both sides. -/
def conversation (turns : List Turn) : List Phase :=
  [.connect .a, .hear .b, .hear .a, .settle .b] ++ (turns.flatMap Turn.phases
    ++ [.wait .a, .wait .b])

/-- All the bytes that a side says. -/
def said (side : Side) (turns : List Turn) : List Byte :=
  turns.flatMap fun t => if t.side = side then t.what.bytes else []

/-- The side ends its stream. -/
def ended (side : Side) (turns : List Turn) : Bool :=
  turns.any fun t => decide (t.side = side) && t.what.ends

/-- The side has not ended its stream, the losses are no more than the attempts, and no
    sequence number comes twice. -/
structure Admissible (before : List Turn) (t : Turn) : Prop where
  opened : ended t.side before = false
  losses : t.losses.length ≤ TCPConfig.maxRetxAttempts
  short : (said t.side before).length + 1 < 2 ^ 32

instance (before : List Turn) (t : Turn) : Decidable (Admissible before t) :=
  decidable_of_iff (ended t.side before = false ∧ t.losses.length ≤ TCPConfig.maxRetxAttempts
    ∧ (said t.side before).length + 1 < 2 ^ 32)
    ⟨fun h => ⟨h.1, h.2.1, h.2.2⟩, fun h => ⟨h.opened, h.losses, h.short⟩⟩

/-- Every turn is admissible after those before it. -/
def Orderly : List Turn → List Turn → Prop
  | _, [] => True
  | before, t :: turns => Admissible before t ∧ Orderly (before ++ [t]) turns

instance decidableOrderly : ∀ before turns : List Turn, Decidable (Orderly before turns)
  | _, [] => isTrue trivial
  | before, t :: turns =>
      have : Decidable (Orderly (before ++ [t]) turns) := decidableOrderly (before ++ [t]) turns
      inferInstanceAs (Decidable (_ ∧ _))

section Sides

variable {s : Sys} {z : Endpoint} {before : List Turn} {t : Turn}

theorem other_other (side : Side) : side.other.other = side := by
  cases side <;> rfl

theorem both {P : Side → Prop} (side : Side) (h : P side) (hother : P side.other) :
    ∀ side, P side := by
  intro side'
  cases side <;> cases side' <;> assumption

/-- A phase changes one endpoint. -/
theorem phaseStep_of (p : Phase)
    (h : run (Endpoint.act (s.endpoint p.side.other)) (s.endpoint p.side) (p.ops s) = some z) :
    ∃ s', phaseStep s p = some s' ∧ s'.endpoint p.side = z
      ∧ s'.endpoint p.side.other = s.endpoint p.side.other := by
  refine ⟨s.set z p.side, run_side p.side h, ?_, ?_⟩
  · cases p.side <;> rfl
  · cases p.side <;> rfl

theorem phaseStep_hear (side : Side)
    (h : run (Endpoint.act (s.endpoint side)) (s.endpoint side.other) (hearing (s.endpoint side))
      = some z) :
    ∃ s', phaseStep s (.hear side.other) = some s' ∧ s'.endpoint side = s.endpoint side
      ∧ s'.endpoint side.other = z := by
  cases side with
  | a =>
      obtain ⟨s', hstep, hself, hother⟩ := phaseStep_of (.hear .b) h
      exact ⟨s', hstep, hother, hself⟩
  | b =>
      obtain ⟨s', hstep, hself, hother⟩ := phaseStep_of (.hear .a) h
      exact ⟨s', hstep, hother, hself⟩

theorem said_concat_self : said t.side (before ++ [t]) = said t.side before ++ t.what.bytes := by
  rw [said, List.flatMap_append, List.flatMap_singleton, if_pos rfl]
  rfl

theorem side_ne_other (side : Side) : side ≠ side.other := by
  cases side <;> decide

theorem said_concat_other : said t.side.other (before ++ [t]) = said t.side.other before := by
  rw [said, List.flatMap_append, List.flatMap_singleton, if_neg (side_ne_other t.side),
    List.append_nil]
  rfl

theorem ended_concat_self (h : ended t.side before = false) :
    ended t.side (before ++ [t]) = t.what.ends := by
  rw [ended] at h ⊢
  rw [List.any_append, h, Bool.false_or, List.any_cons, List.any_nil, Bool.or_false,
    decide_eq_true rfl, Bool.true_and]

theorem ended_concat_other : ended t.side.other (before ++ [t]) = ended t.side.other before := by
  rw [ended, List.any_append, List.any_cons, List.any_nil, decide_eq_false (side_ne_other t.side),
    Bool.false_and, Bool.or_false, Bool.or_false]
  rfl

end Sides

/-- **BETWEEN THE TURNS** both directions are at rest. -/
structure Linked (s : Sys) (turns : List Turn) : Prop where
  way : ∀ side, Way (s.endpoint side) (s.endpoint side.other) (said side turns) (ended side turns)
  idle : ∀ side, Idle (s.endpoint side)
  time : ∀ side, (s.endpoint side).conn.timeLastRecv = 0
  short : ∀ side, (said side turns).length < 2 ^ 32

/-- **WITHIN A TURN** one direction has a segment in flight, and the other is at rest. -/
structure InFlight (s : Sys) (before : List Turn) (t : Turn) (tries : Nat) : Prop where
  aloft : Aloft (s.endpoint t.side) (s.endpoint t.side.other) (said t.side before) t.what tries
  back : Way (s.endpoint t.side.other) (s.endpoint t.side) (said t.side.other before)
    (ended t.side.other before)
  speaker : Idle (s.endpoint t.side)
  listener : Idle (s.endpoint t.side.other)
  time : (s.endpoint t.side.other).conn.timeLastRecv = 0
  short : (said t.side before).length + 1 < 2 ^ 32
  short' : (said t.side.other before).length < 2 ^ 32

section Conversation

variable {s : Sys} {before turns : List Turn} {t : Turn} {tries : Nat} {x y : Endpoint}

theorem linked_of (side : Side) (hself : s.endpoint side = x) (hother : s.endpoint side.other = y)
    (hway : Way x y (said side turns) (ended side turns))
    (hback : Way y x (said side.other turns) (ended side.other turns)) (hidle : Idle x)
    (hidle' : Idle y) (htime : x.conn.timeLastRecv = 0) (htime' : y.conn.timeLastRecv = 0)
    (hshort : ∀ side, (said side turns).length < 2 ^ 32) : Linked s turns := by
  subst hself
  subst hother
  refine ⟨both side hway ?_, both side hidle hidle', both side htime htime', hshort⟩
  rw [other_other]
  exact hback

theorem Linked.back (h : Linked s turns) (side : Side) :
    Way (s.endpoint side.other) (s.endpoint side) (said side.other turns)
      (ended side.other turns) := by
  have hback := h.way side.other
  rw [other_other] at hback
  exact hback

theorem inFlight_of (hself : s.endpoint t.side = x) (hother : s.endpoint t.side.other = y)
    (haloft : Aloft x y (said t.side before) t.what tries)
    (hback : Way y x (said t.side.other before) (ended t.side.other before)) (hspeaker : Idle x)
    (hlistener : Idle y) (htime : y.conn.timeLastRecv = 0)
    (hshort : (said t.side before).length + 1 < 2 ^ 32)
    (hshort' : (said t.side.other before).length < 2 ^ 32) : InFlight s before t tries := by
  subst hself
  subst hother
  exact ⟨haloft, hback, hspeaker, hlistener, htime, hshort, hshort'⟩

theorem Linked.say (h : Linked s before) (ht : Admissible before t) :
    ∃ s', phaseStep s (.say t.side t.what) = some s' ∧ InFlight s' before t 0 := by
  have hway := h.way t.side
  rw [ht.opened] at hway
  obtain ⟨x, hrun, haloft, hback, hidle⟩ :=
    hway.speak (h.back t.side) (h.idle t.side) ht.short t.what
  obtain ⟨s', hstep, hself, hother⟩ := phaseStep_of (.say t.side t.what) hrun
  exact ⟨s', hstep, inFlight_of hself hother haloft hback hidle (h.idle _) (h.time _) ht.short
    (h.short _)⟩

theorem InFlight.attempt (h : InFlight s before t tries) (htries : tries < 8) :
    ∃ s', phaseStep s (.attempt t.side) = some s' ∧ InFlight s' before t (tries + 1) := by
  obtain ⟨x, hrun, haloft, hback, hidle⟩ := h.aloft.attempt h.back h.speaker htries
  obtain ⟨s', hstep, hself, hother⟩ := phaseStep_of (.attempt t.side) hrun
  exact ⟨s', hstep, inFlight_of hself hother haloft hback hidle h.listener h.time h.short h.short'⟩

/-- The segment arrives; it is in flight until the answer does. -/
theorem InFlight.hear (h : InFlight s before t tries) :
    ∃ s' out, phaseStep s (.hear t.side.other) = some s' ∧ InFlight s' before t tries
      ∧ Got (s'.endpoint t.side).conn.sender.isn (said t.side before) t.what
        (s'.endpoint t.side.other)
      ∧ (s'.endpoint t.side.other).sent.getLast? = some out
      ∧ Answers (s'.endpoint t.side.other).conn.sender (s'.endpoint t.side).conn.sender out := by
  obtain ⟨y, out, hrun, haloft, hgot, hback, hidle, htime, hout, hanswers⟩ :=
    h.aloft.hear h.back h.listener h.short h.short'
  obtain ⟨s', hstep, hself, hother⟩ := phaseStep_hear t.side hrun
  refine ⟨s', out, hstep, inFlight_of hself hother haloft hback h.speaker hidle htime h.short h.short',
    ?_⟩
  rw [hself, hother]
  exact ⟨hgot, hout, hanswers⟩

/-- **A LOSS** costs one attempt. -/
theorem InFlight.lose (h : InFlight s before t tries) (htries : tries < 8) (loss : Loss) :
    ∃ s', run phaseStep s (loss.phases t.side) = some s' ∧ InFlight s' before t (tries + 1) := by
  cases loss with
  | segment =>
      obtain ⟨s', hstep, hflight⟩ := h.attempt htries
      exact ⟨s', run_cons hstep rfl, hflight⟩
  | answer =>
      obtain ⟨s', -, hhear, hflight, -⟩ := h.hear
      obtain ⟨s'', hstep, hflight'⟩ := hflight.attempt htries
      exact ⟨s'', run_cons hhear (run_cons hstep rfl), hflight'⟩

/-- **ANY LOSSES**, as long as there are attempts left. -/
theorem InFlight.loseAll (losses : List Loss) :
    ∀ (s : Sys) (tries : Nat), InFlight s before t tries → tries + losses.length ≤ 8 →
      ∃ s', run phaseStep s (losses.flatMap (Loss.phases t.side)) = some s'
        ∧ InFlight s' before t (tries + losses.length) := by
  induction losses with
  | nil =>
      intro s tries h _
      exact ⟨s, rfl, h⟩
  | cons loss losses ih =>
      intro s tries h hle
      rw [List.length_cons] at hle
      obtain ⟨s', hrun, hflight⟩ := h.lose (by omega) loss
      obtain ⟨s'', hrun', hflight'⟩ := ih s' (tries + 1) hflight (by omega)
      refine ⟨s'', run_onto hrun hrun', ?_⟩
      rw [List.length_cons, show tries + (losses.length + 1) = tries + 1 + losses.length by omega]
      exact hflight'

/-- **THE END OF A TURN**: the segment and its answer arrive. -/
theorem InFlight.finish (h : InFlight s before t tries) (ht : ended t.side before = false) :
    ∃ s', run phaseStep s [.hear t.side.other, .settle t.side] = some s'
      ∧ Linked s' (before ++ [t]) := by
  obtain ⟨s₁, out, hhear, hflight, hgot, hout, hanswers⟩ := h.hear
  obtain ⟨x, hact, hway, hback, hidle, htime⟩ :=
    hflight.aloft.settle hgot hflight.back hflight.speaker hout hanswers
  obtain ⟨s₂, hstep, hself, hother⟩ := phaseStep_of (.settle t.side) (run_cons hact rfl)
  rw [← said_concat_self, ← ended_concat_self ht] at hway
  rw [← said_concat_other, ← ended_concat_other] at hback
  refine ⟨s₂, run_cons hhear (run_cons hstep rfl), linked_of t.side hself hother hway hback hidle
    hflight.listener htime hflight.time (both t.side ?_ ?_)⟩
  · have hshort := h.short
    have hsize := t.what.size
    rw [said_concat_self, List.length_append]
    omega
  · rw [said_concat_other]
    exact h.short'

/-- **A TURN** gets through, whatever is lost in it. -/
theorem turn_linked (h : Linked s before) (ht : Admissible before t) :
    ∃ s', run phaseStep s t.phases = some s' ∧ Linked s' (before ++ [t]) := by
  have hlosses : 0 + t.losses.length ≤ 8 := by
    rw [Nat.zero_add]
    exact ht.losses
  obtain ⟨s₁, hsay, hflight⟩ := h.say ht
  obtain ⟨s₂, hlost, hflight'⟩ := InFlight.loseAll t.losses s₁ 0 hflight hlosses
  obtain ⟨s₃, hfinish, hlinked⟩ := hflight'.finish ht.opened
  exact ⟨s₃, run_cons hsay (run_onto hlost hfinish), hlinked⟩

theorem turns_linked (turns : List Turn) :
    ∀ (s : Sys) (before : List Turn), Linked s before → Orderly before turns →
      ∃ s', run phaseStep s (turns.flatMap Turn.phases) = some s' ∧ Linked s' (before ++ turns) := by
  induction turns with
  | nil =>
      intro s before h _
      refine ⟨s, rfl, ?_⟩
      rw [List.append_nil]
      exact h
  | cons t turns ih =>
      intro s before h hall
      obtain ⟨s', hrun, hlinked⟩ := turn_linked h hall.1
      obtain ⟨s'', hrun', hlinked'⟩ := ih s' (before ++ [t]) hlinked hall.2
      refine ⟨s'', run_onto hrun hrun', ?_⟩
      rw [List.append_assoc] at hlinked'
      exact hlinked'

/-- A connection can send and receive. -/
structure Usable (cfg : TCPConfig) : Prop where
  send : 0 < cfg.sendCapacity.toNat
  recv : 0 < cfg.recvCapacity.toNat

/-- A first `SYN` acknowledges nothing. -/
theorem stamp_of_none {r : TCPReceiver} {seg : TCPSegment} (h : r.ackno = none) :
    (TCPConnection.stamp r seg).header.ack = seg.header.ack := by
  rw [TCPConnection.stamp, h]

/-- Two unused endpoints: one connects, and the other hears of it. -/
theorem Fresh.greetings {x₀ y₀ : Endpoint} {capA capB : UInt64} (hx : Fresh capA x₀)
    (hy : Fresh capB y₀) (hcap : 0 < capB.toNat) :
    ∃ x y out out', run (Endpoint.act y₀) x₀ [.connect, .transmit] = some x
      ∧ run (Endpoint.act x) y₀ (hearing x) = some y ∧ Greeting x out ∧ Greeting y out'
      ∧ x.conn.receiver = .new capA ∧ Open y.conn.receiver x.conn.sender.isn 0 false []
      ∧ out'.header.ack = true
      ∧ out'.header.ackno = wrap x.conn.sender.nextSeqno x.conn.sender.isn := by
  obtain ⟨seg, hfirst⟩ := hx.first
  obtain ⟨x, hrunx, hgreet, hrx⟩ := hfirst.greets hx.unused y₀
  rw [hx.receiver] at hrx hgreet
  have hnone : (TCPReceiver.new capA).ackno = none := if_neg Bool.false_ne_true
  have hplain := (stamp_of_none hnone).trans hfirst.ack
  generalize TCPConnection.stamp (.new capA) seg = out at hplain hgreet
  have hopen := hgreet.hello.opens hcap
  rw [← hy.receiver] at hopen
  have hheard : y₀.conn.heard out = some (wrap (0 + 1 + false.toNat) x.conn.sender.isn) := by
    rw [TCPConnection.heard, hplain, if_neg Bool.false_ne_true]
    exact hopen.ackno
  obtain ⟨s, seg', hs, hfirst'⟩ := hy.answers out.header.win
  have hanswer := hfirst'.answer hs hgreet.hello.size hy.outstanding hy.queue hy.next hy.acked
    hopen.ackno
  obtain ⟨y, out', hruny, hgreet', hopeny, hack, hackno⟩ :=
    hfirst'.welcomes hy.unused hgreet hheard hanswer hopen
  exact ⟨x, y, out, out', hrunx, hruny, hgreet, hgreet', hrx, hopeny, hack, hackno⟩

/-- **THE HANDSHAKE** between any two new connections. -/
theorem handshake_linked (cfgA cfgB : TCPConfig) (randomA randomB : BitVec 32) (hA : Usable cfgA)
    (hB : Usable cfgB) :
    ∃ s, run phaseStep (.init cfgA cfgB randomA randomB)
        [.connect .a, .hear .b, .hear .a, .settle .b] = some s
      ∧ Linked s [] := by
  obtain ⟨x, y, out, out', hrunx, hruny, hgreet, hgreet', hrx, hopeny, hack, hackno⟩ :=
    (fresh_new cfgA randomA hA.send).greetings (fresh_new cfgB randomB hB.send) hB.recv
  obtain ⟨x', y', hrunx', hacty, hway, hback, hidlex, hidley, htimex, htimey⟩ :=
    hgreet.linked cfgA hgreet' hrx hA.recv hopeny hack hackno
  obtain ⟨s₁, hstep₁, ha₁, hb₁⟩ :=
    phaseStep_of (s := .init cfgA cfgB randomA randomB) (.connect .a) hrunx
  replace ha₁ : s₁.endpoint .a = x := ha₁
  replace hb₁ : s₁.endpoint .b = .new cfgB randomB := hb₁
  obtain ⟨s₂, hstep₂, ha₂, hb₂⟩ := phaseStep_hear (s := s₁) .a
    (by rw [ha₁, show s₁.endpoint Side.a.other = _ from hb₁]; exact hruny)
  replace hb₂ : s₂.endpoint .b = y := hb₂
  rw [ha₁] at ha₂
  obtain ⟨s₃, hstep₃, hb₃, ha₃⟩ := phaseStep_hear (s := s₂) .b
    (by rw [hb₂, show s₂.endpoint Side.b.other = _ from ha₂]; exact hrunx')
  replace ha₃ : s₃.endpoint .a = x' := ha₃
  rw [hb₂] at hb₃
  obtain ⟨s₄, hstep₄, hb₄, ha₄⟩ := phaseStep_of (s := s₃) (z := y') (.settle .b) (by
    show run (Endpoint.act (s₃.endpoint .a)) (s₃.endpoint .b)
      [.deliver ((s₃.endpoint .a).sent.length - 1)] = some y'
    rw [ha₃, hb₃]
    exact run_cons hacty rfl)
  replace hb₄ : s₄.endpoint .b = y' := hb₄
  replace ha₄ : s₄.endpoint .a = x' := ha₄.trans ha₃
  exact ⟨s₄, run_cons hstep₁ (run_cons hstep₂ (run_cons hstep₃ (run_cons hstep₄ rfl))),
    linked_of .a ha₄ hb₄ hway hback hidlex hidley htimex htimey fun _ => Nat.two_pow_pos 32⟩

/-- **THE LINGER TIME PASSES**: a connection at rest closes, without an error, exactly if both
    streams have ended. -/
theorem tick_of_quiet {c : TCPConnection} {n m : Nat} {e f : Bool} {isn : WrappingInt32}
    (hq : Quiet c.sender n e) (ho : Open c.receiver isn m f []) (htime : c.timeLastRecv = 0)
    (hactive : c.active = true) :
    (c.tick (10 * c.cfg.rtTimeout.toNat)).active = !(e && f)
      ∧ (c.tick (10 * c.cfg.rtTimeout.toNat)).receiver = c.receiver
      ∧ (c.tick (10 * c.cfg.rtTimeout.toNat)).sender.stream = c.sender.stream := by
  have hlt := c.cfg.rtTimeout.isLt
  have hsame : c.sender.tick (10 * c.cfg.rtTimeout.toNat) = c.sender := by
    rw [TCPSender.tick, hq.timer]
    exact if_neg Bool.false_ne_true
  have hmax : ¬ c.sender.consecutiveRetransmissions ≥ TCPConfig.maxRetxAttempts := by
    rw [hq.retransmissions]
    decide
  have hlong : (c.timeLastRecv + 10 * c.cfg.rtTimeout.toNat) % 2 ^ 64
      = 10 * c.cfg.rtTimeout.toNat := by
    rw [htime, Nat.zero_add, Nat.mod_eq_of_lt (by omega)]
  have hdone : ({ c with
      timeLastRecv := 10 * c.cfg.rtTimeout.toNat } : TCPConnection).killConditionCheck
      = (e && f) := by
    rw [Bool.eq_iff_iff, SpongeShutdown.killConditionCheck_iff, Bool.and_eq_true_iff]
    dsimp only
    rw [ho.ended, hq.ended]
    refine ⟨fun h => ⟨h.2.1, h.1.1⟩, ?_⟩
    rintro ⟨rfl, rfl⟩
    refine ⟨⟨rfl, (TCPReceiver.unassembledBytes_eq_zero _).mpr ho.parked⟩, rfl, ?_, ?_⟩
    · rw [TCPSender.bytesInFlight, hq.outstanding]
      rfl
    · rw [hq.next, hq.written, ByteStream.eof, ByteStream.bufferEmpty, hq.ended, hq.buffer]
      rfl
  rw [TCPConnection.tick]
  dsimp only
  rw [if_neg hmax, hsame, hlong, TCPConnection.closeIfDone, hdone]
  cases e && f with
  | false =>
      rw [if_neg Bool.false_ne_true]
      exact ⟨hactive, rfl, rfl⟩
  | true =>
      rw [if_pos rfl]
      dsimp only
      rw [if_pos (Nat.le_refl (10 * c.cfg.rtTimeout.toNat)), ite_self]
      exact ⟨rfl, rfl, rfl⟩

/-- What is left of an endpoint that was at rest, once the linger time has passed. -/
structure Parted (z z' : Endpoint) (e f : Bool) : Prop where
  active : z'.conn.active = !(e && f)
  receiver : z'.conn.receiver = z.conn.receiver
  stream : z'.conn.sender.stream = z.conn.sender.stream
  owner : SameOwner z z'

theorem Linked.wait (h : Linked s turns) :
    ∃ s', run phaseStep s [.wait .a, .wait .b] = some s'
      ∧ ∀ side, Parted (s.endpoint side) (s'.endpoint side) (ended side turns)
        (ended side.other turns) := by
  have htick : ∀ side, Parted (s.endpoint side) ((s.endpoint side).become
      ((s.endpoint side).conn.tick (10 * (s.endpoint side).conn.cfg.rtTimeout.toNat)))
      (ended side turns) (ended side.other turns) := by
    intro side
    obtain ⟨hactive, hreceiver, hstream⟩ := tick_of_quiet (h.way side).sender
      (h.back side).receiver (h.time side) (h.idle side).active
    exact ⟨hactive, hreceiver, hstream, ⟨rfl, rfl, rfl⟩⟩
  exact ⟨_, run_cons (run_side .a rfl) (run_cons (run_side .b rfl) rfl), both .a (htick .a)
    (htick .b)⟩

end Conversation

/-- Both sides say a byte and end their streams; a segment is lost, an answer, then both, and
    the last segment eight times. -/
def lossyTurns : List Turn :=
  [⟨.a, .byte 104, [.segment]⟩, ⟨.b, .byte 105, [.answer]⟩, ⟨.a, .fin, [.segment, .answer]⟩,
    ⟨.b, .fin, List.replicate 8 .segment⟩]

end SpongeConversation
