import Mathlib.Algebra.Ring.Nat
import Sponge.RunProofs
import Sponge.WordProofs
import Sponge.SegmentProofs

/-! # The sender — `tcp_sender`

    The sender cuts its stream into segments as the window allows, keeps what
    is not acknowledged, and sends the oldest again when its timer expires.

    The model follows the source: `fillRound` is one round of the
    `while (true)` of `fill_window`, `popRound` one round of the loop of
    `ack_received`.  Absolute sequence numbers are naturals; the free window is
    an unsigned 64-bit difference (`sub64`), the timer counts modulo `2 ^ 32`
    and the backoff modulo `2 ^ 64`.

    What the loops do is said once: `fillRound_cases` inverts a round,
    `fillWindow_fills` says that filling is a sequence of emissions that stops
    only when nothing can be sent, and `noteAck_spec` says what an
    acknowledgement takes out of the queue. -/

namespace SpongeSender

open SpongeByteStream SpongeWrapping SpongeSegment Word64 RunRule

/-- The retransmission timer; times are 32-bit numbers. -/
structure Timer where
  active : Bool := false
  hasExpired : Bool := false
  currentTime : Nat := 0
  timeout : Nat := 0
deriving DecidableEq, Repr

namespace Timer

def start (timeout : Nat) : Timer where
  active := true
  hasExpired := false
  currentTime := 0
  timeout := timeout % 2 ^ 32

def update (t : Timer) (timeElapsed : Nat) : Timer :=
  if !t.active then t
  else
    let currentTime := (t.currentTime + timeElapsed % 2 ^ 32) % 2 ^ 32
    { t with
      currentTime := currentTime
      hasExpired := if currentTime ≥ t.timeout then true else t.hasExpired }

def reset : Timer := {}

def expired (t : Timer) : Bool := t.active && t.hasExpired

end Timer

/-- The sender.  `bytesInFlightCounter` is the running count the source keeps
    next to the queue it could be read off. -/
structure TCPSender where
  isn : WrappingInt32
  segmentsOut : List TCPSegment
  initialRetransmissionTimeout : Nat
  stream : ByteStream
  timer : Timer
  nextSeqno : Nat
  absAckno : Nat
  windowSize : Nat
  outstandingSegments : List (Nat × TCPSegment)
  bytesInFlightCounter : Nat
  retransmissionTimeout : Nat
  consecutiveRetransmissions : Nat
deriving DecidableEq, Repr

namespace TCPSender

/-- `random` is what the random device would give. -/
def new (capacity : UInt64) (retxTimeout : BitVec 16) (fixedIsn : Option WrappingInt32)
    (random : BitVec 32) : TCPSender where
  isn := fixedIsn.getD ⟨random⟩
  segmentsOut := []
  initialRetransmissionTimeout := retxTimeout.toNat
  stream := .new capacity
  timer := {}
  nextSeqno := 0
  absAckno := 0
  windowSize := 1
  outstandingSegments := []
  bytesInFlightCounter := 0
  retransmissionTimeout := retxTimeout.toNat
  consecutiveRetransmissions := 0

/-- The sequence numbers of the queue, counted over a copy of it. -/
def bytesInFlight (s : TCPSender) : Nat :=
  (s.outstandingSegments.map fun p => p.2.lengthInSequenceSpace).sum

/-- A window of zero is probed as a window of one. -/
def effectiveWindowSize (s : TCPSender) : Nat :=
  if s.windowSize = 0 then 1 else s.windowSize

/-- The distance from the next number to the window's right edge, unsigned. -/
def availableSpace (s : TCPSender) : Nat :=
  if sub64 (s.absAckno + s.effectiveWindowSize) s.nextSeqno > 0 then
    sub64 (s.absAckno + s.effectiveWindowSize) s.nextSeqno
  else 0

/-- There is a `SYN`, data or a `FIN` to send. -/
def segmentNeeded (s : TCPSender) : Bool :=
  let synNeeded := s.nextSeqno == 0
  let dataAvailable := !s.stream.bufferEmpty
  let finNeeded := (s.stream.eof && s.stream.bufferEmpty)
    && decide (s.nextSeqno < s.stream.bytesWritten + 2)
  !(!synNeeded && !dataAvailable && !finNeeded)

/-- The segment of one round, and the sender once its payload is read.  The
    space is at least one and the payload fits, so nothing wraps here. -/
def buildSegment (s : TCPSender) (availableSpace : Nat) : TCPSegment × TCPSender :=
  let syn := s.nextSeqno == 0
  let synSize := if syn then 1 else 0
  let maxPayloadSize := min TCPConfig.maxPayloadSize (availableSpace - synSize)
  let payload := s.stream.read maxPayloadSize
  let s := { s with stream := payload.2 }
  let finSpace := decide (availableSpace - synSize - payload.1.length > 0)
  ({ header :=
      { seqno := wrap s.nextSeqno s.isn
        syn := syn
        fin := s.stream.eof && s.stream.bufferEmpty && finSpace }
     payload := payload.1 }, s)

/-- Queue a new segment for sending and for retransmission. -/
def sendSegment (s : TCPSender) (seg : TCPSegment) : TCPSender :=
  { s with
    segmentsOut := s.segmentsOut ++ [seg]
    outstandingSegments := s.outstandingSegments ++ [(s.nextSeqno, seg)]
    bytesInFlightCounter := s.bytesInFlightCounter + seg.lengthInSequenceSpace
    nextSeqno := s.nextSeqno + seg.lengthInSequenceSpace
    timer := if !s.timer.active then .start s.retransmissionTimeout else s.timer }

/-- One round of `fill_window`. -/
def fillRound (s : TCPSender) : Bool × TCPSender :=
  if s.availableSpace = 0 then (false, s)
  else if !s.segmentNeeded then (false, s)
  else
    let built := s.buildSegment s.availableSpace
    let segSize := built.1.lengthInSequenceSpace
    if segSize = 0 ∨ segSize > s.availableSpace then (false, built.2)
    else (true, built.2.sendSegment built.1)

/-- What is left to send bounds the rounds. -/
def unsent (s : TCPSender) : Nat :=
  s.stream.buffer.length + (s.stream.bytesWritten + 2 - s.nextSeqno)

def fillWindow (s : TCPSender) : TCPSender :=
  whileTrue fillRound (s.unsent + 1) s

/-- One round of the loop of `ack_received`. -/
def popRound (absAckno : Nat) (s : TCPSender) : Bool × TCPSender :=
  match s.outstandingSegments with
  | [] => (false, s)
  | front :: rest =>
      if front.1 + front.2.lengthInSequenceSpace ≤ absAckno then
        (true,
          { s with
            bytesInFlightCounter :=
              sub64 s.bytesInFlightCounter front.2.lengthInSequenceSpace
            outstandingSegments := rest
            consecutiveRetransmissions := 0
            retransmissionTimeout := s.initialRetransmissionTimeout
            timer :=
              if !rest.isEmpty then .start s.initialRetransmissionTimeout
              else .reset })
      else (false, s)

def popAcked (s : TCPSender) (absAckno : Nat) : TCPSender :=
  whileTrue (popRound absAckno) (s.outstandingSegments.length + 1) s

/-- `ack_received` up to its call of `fill_window`, which an acknowledgement
    beyond the next number does not reach. -/
def noteAck (s : TCPSender) (ackno : WrappingInt32) (windowSize : BitVec 16) :
    Bool × TCPSender :=
  let absAckno := unwrap ackno s.isn (s.absAckno + 1)
  let s := { s with windowSize := windowSize.toNat }
  if absAckno > s.nextSeqno then (false, s)
  else (true, { s with absAckno := absAckno }.popAcked absAckno)

def ackReceived (s : TCPSender) (ackno : WrappingInt32) (windowSize : BitVec 16) :
    TCPSender :=
  let noted := s.noteAck ackno windowSize
  if noted.1 then noted.2.fillWindow else noted.2

/-- The copy of a kept segment that a retransmission sends. -/
def resent (s : TCPSender) (front : Nat × TCPSegment) : TCPSegment :=
  { front.2 with header := { front.2.header with seqno := wrap front.1 s.isn } }

/-- Send the oldest segment again, back off unless the window is zero, and
    restart the timer. -/
def retransmit (s : TCPSender) (front : Nat × TCPSegment) : TCPSender :=
  let s := { s with segmentsOut := s.segmentsOut ++ [s.resent front] }
  let s :=
    if s.windowSize > 0 then
      { s with
        consecutiveRetransmissions := (s.consecutiveRetransmissions + 1) % 2 ^ 32
        retransmissionTimeout := s.retransmissionTimeout * 2 % 2 ^ 64 }
    else s
  { s with timer := .start s.retransmissionTimeout }

/-- Time passes; an expired timer sends the oldest segment again. -/
def tick (s : TCPSender) (msSinceLastTick : Nat) : TCPSender :=
  if s.timer.active then
    let s := { s with timer := s.timer.update msSinceLastTick }
    match s.outstandingSegments with
    | [] => s
    | front :: _ => if s.timer.expired then s.retransmit front else s
  else s

/-- A segment that occupies no sequence number; it is not kept. -/
def sendEmptySegment (s : TCPSender) : TCPSender :=
  { s with
    segmentsOut := s.segmentsOut ++ [{ header := { seqno := wrap s.nextSeqno s.isn } }] }

/-- The overload with flags keeps the segment in the queue. -/
def sendFlagsSegment (s : TCPSender) (syn fin rst : Bool) : TCPSender :=
  let seg : TCPSegment :=
    { header := { seqno := wrap s.nextSeqno s.isn, syn := syn, fin := fin, rst := rst } }
  { s with
    segmentsOut := s.segmentsOut ++ [seg]
    outstandingSegments := s.outstandingSegments ++ [(s.nextSeqno, seg)]
    nextSeqno := s.nextSeqno + seg.lengthInSequenceSpace }

/-! ## What a round of `fill_window` amounts to -/

variable {s s' : TCPSender} {seg : TCPSegment}

theorem effectiveWindowSize_eq (s : TCPSender) :
    s.effectiveWindowSize = max s.windowSize 1 := by
  rw [effectiveWindowSize]
  split_ifs with h <;> omega

theorem availableSpace_eq (s : TCPSender) :
    s.availableSpace = sub64 (s.absAckno + max s.windowSize 1) s.nextSeqno := by
  rw [availableSpace, effectiveWindowSize_eq]
  split_ifs with h
  · rfl
  · omega

/-- Something is needed: a `SYN`, data, or the `FIN`. -/
theorem segmentNeeded_iff (s : TCPSender) :
    s.segmentNeeded = true ↔ s.nextSeqno = 0 ∨ s.stream.buffer ≠ []
      ∨ (s.stream.inputEnded = true ∧ s.stream.buffer = []
        ∧ s.nextSeqno < s.stream.bytesWritten + 2) := by
  simp only [segmentNeeded, ByteStream.eof, ByteStream.bufferEmpty, Bool.not_eq_true',
    Bool.and_eq_false_iff, Bool.not_eq_false', beq_iff_eq, Bool.and_eq_true,
    List.isEmpty_iff, List.isEmpty_eq_false_iff, decide_eq_true_eq, or_assoc]
  refine or_congr_right (or_congr_right ?_)
  constructor
  · rintro ⟨⟨⟨h1, h2⟩, -⟩, h3⟩
    exact ⟨h1, h2, h3⟩
  · rintro ⟨h1, h2, h3⟩
    exact ⟨⟨⟨h1, h2⟩, h2⟩, h3⟩

/-- What a round leaves alone. -/
structure SameControl (s s' : TCPSender) : Prop where
  isn : s'.isn = s.isn
  absAckno : s'.absAckno = s.absAckno
  windowSize : s'.windowSize = s.windowSize
  bytesWritten : s'.stream.bytesWritten = s.stream.bytesWritten
  inputEnded : s'.stream.inputEnded = s.stream.inputEnded
  error : s'.stream.error = s.stream.error

theorem SameControl.refl (s : TCPSender) : SameControl s s := ⟨rfl, rfl, rfl, rfl, rfl, rfl⟩

theorem SameControl.trans {t : TCPSender} (h : SameControl s s') (h' : SameControl s' t) :
    SameControl s t :=
  ⟨h'.isn.trans h.isn, h'.absAckno.trans h.absAckno, h'.windowSize.trans h.windowSize,
    h'.bytesWritten.trans h.bytesWritten, h'.inputEnded.trans h.inputEnded,
    h'.error.trans h.error⟩

/-- **AN EMISSION**: the sender cuts `seg` off its stream at the next sequence
    number. -/
structure Emitted (s : TCPSender) (seg : TCPSegment) (s' : TCPSender) : Prop where
  seqno : seg.header.seqno = wrap s.nextSeqno s.isn
  syn : seg.header.syn = true ↔ s.nextSeqno = 0
  fin : seg.header.fin = true → s.stream.inputEnded = true ∧ s'.stream.buffer = []
  plain : seg.header.ack = false ∧ seg.header.rst = false
  short : seg.payload.length ≤ TCPConfig.maxPayloadSize
  payload : seg.payload ++ s'.stream.buffer = s.stream.buffer
  bytesRead : s'.stream.bytesRead = s.stream.bytesRead + seg.payload.length
  needed : s.segmentNeeded = true
  occupies : 0 < seg.lengthInSequenceSpace
  fits : seg.lengthInSequenceSpace ≤ s.availableSpace
  segmentsOut : s'.segmentsOut = s.segmentsOut ++ [seg]
  outstanding : s'.outstandingSegments = s.outstandingSegments ++ [(s.nextSeqno, seg)]
  nextSeqno : s'.nextSeqno = s.nextSeqno + seg.lengthInSequenceSpace
  same : SameControl s s'

/-- How much payload a round takes. -/
theorem buildSegment_length (s : TCPSender) (space : Nat) :
    (s.buildSegment space).1.payload.length
      = min (min TCPConfig.maxPayloadSize
          (space - if (s.nextSeqno == 0) = true then 1 else 0)) s.stream.buffer.length := by
  show (s.stream.read _).1.length = _
  rw [ByteStream.read_fst, List.length_take]

theorem buildSegment_fin (s : TCPSender) (space : Nat) :
    (s.buildSegment space).1.header.fin = true
      ↔ s.stream.inputEnded = true ∧ (s.buildSegment space).2.stream.buffer = []
        ∧ 0 < space - (if (s.nextSeqno == 0) = true then 1 else 0)
          - (s.buildSegment space).1.payload.length := by
  show ((((s.buildSegment space).2.stream.inputEnded
      && (s.buildSegment space).2.stream.buffer.isEmpty)
    && (s.buildSegment space).2.stream.buffer.isEmpty)
    && decide (space - (if (s.nextSeqno == 0) = true then 1 else 0)
      - (s.buildSegment space).1.payload.length > 0)) = true ↔ _
  rw [Bool.and_eq_true, Bool.and_eq_true, Bool.and_eq_true, List.isEmpty_iff,
    decide_eq_true_eq]
  constructor
  · rintro ⟨⟨⟨h1, h2⟩, -⟩, h3⟩
    exact ⟨h1, h2, h3⟩
  · rintro ⟨h1, h2, h3⟩
    exact ⟨⟨⟨h1, h2⟩, h2⟩, h3⟩

/-- Building a segment reads from the stream, and changes nothing else. -/
theorem buildSegment_snd (s : TCPSender) (space : Nat) :
    ∃ len, (s.buildSegment space).2 = { s with stream := (s.stream.read len).2 } :=
  ⟨_, rfl⟩

theorem buildSegment_same (s : TCPSender) (space : Nat) :
    SameControl s (s.buildSegment space).2 := by
  obtain ⟨len, hread⟩ := s.buildSegment_snd space
  rw [hread]
  exact ⟨rfl, rfl, rfl, rfl, rfl, rfl⟩

theorem sendSegment_same (s : TCPSender) (seg : TCPSegment) :
    SameControl s (s.sendSegment seg) :=
  ⟨rfl, rfl, rfl, rfl, rfl, rfl⟩

/-- The segment of a round that was needed occupies sequence numbers, and fits
    the space: the size check of the source never fails. -/
theorem buildSegment_size (h0 : s.availableSpace ≠ 0) (hn : s.segmentNeeded = true) :
    0 < (s.buildSegment s.availableSpace).1.lengthInSequenceSpace
      ∧ (s.buildSegment s.availableSpace).1.lengthInSequenceSpace
        ≤ s.availableSpace := by
  have hlen := s.buildSegment_length s.availableSpace
  have hfin := s.buildSegment_fin s.availableSpace
  have happ : (s.buildSegment s.availableSpace).1.payload
      ++ (s.buildSegment s.availableSpace).2.stream.buffer = s.stream.buffer :=
    s.stream.read_append _
  have hsyn : (s.buildSegment s.availableSpace).1.header.syn = (s.nextSeqno == 0) := rfl
  have hmax : TCPConfig.maxPayloadSize = 1000 := rfl
  rw [TCPSegment.lengthInSequenceSpace, hsyn]
  by_cases hz : s.nextSeqno = 0
  · rw [if_pos (beq_iff_eq.mpr hz)] at hlen hfin ⊢
    split_ifs with hf
    · have := (hfin.mp hf).2.2
      omega
    · omega
  · have hz' : ¬ (s.nextSeqno == 0) = true := fun h => hz (beq_iff_eq.mp h)
    rw [if_neg hz'] at hlen hfin ⊢
    rcases ((segmentNeeded_iff s).mp hn).resolve_left hz with hdata | ⟨hend, hnil, -⟩
    · have hpos : 0 < s.stream.buffer.length := List.length_pos_iff.mpr hdata
      split_ifs with hf
      · have := (hfin.mp hf).2.2
        omega
      · omega
    · -- nothing but the `FIN` is left, and there is space for it
      rw [hnil] at happ hlen
      rw [List.length_nil] at hlen
      obtain ⟨-, hrest⟩ := List.append_eq_nil_iff.mp happ
      rw [if_pos (hfin.mpr ⟨hend, hrest, by omega⟩)]
      omega

/-- **A ROUND, INVERTED**: it stops where there is no space or nothing to send,
    or it emits a segment. -/
theorem fillRound_cases (s : TCPSender) :
    (s.fillRound = (false, s) ∧ (s.availableSpace = 0 ∨ s.segmentNeeded = false))
      ∨ (s.fillRound.1 = true ∧ ∃ seg, Emitted s seg s.fillRound.2) := by
  rw [fillRound]
  by_cases h0 : s.availableSpace = 0
  · rw [if_pos h0]
    exact Or.inl ⟨rfl, Or.inl h0⟩
  · rw [if_neg h0]
    cases hn : s.segmentNeeded with
    | false => exact Or.inl ⟨rfl, Or.inr rfl⟩
    | true =>
        obtain ⟨hpos, hfit⟩ := buildSegment_size h0 hn
        rw [Bool.not_true, if_neg Bool.false_ne_true]
        dsimp only
        rw [if_neg (by omega)]
        refine Or.inr ⟨rfl, (s.buildSegment s.availableSpace).1, ?_⟩
        have hlen := s.buildSegment_length s.availableSpace
        exact
          { seqno := rfl
            syn := beq_iff_eq
            fin := fun hf =>
              have h := (s.buildSegment_fin s.availableSpace).mp hf
              ⟨h.1, h.2.1⟩
            plain := ⟨rfl, rfl⟩
            short := by omega
            payload := s.stream.read_append _
            bytesRead := by
              show s.stream.bytesRead + min _ _ = s.stream.bytesRead + _
              rw [hlen]
              simp only [ByteStream.peekOutput, List.length_take]
              omega
            needed := hn
            occupies := hpos
            fits := hfit
            segmentsOut := rfl
            outstanding := rfl
            nextSeqno := rfl
            same := (s.buildSegment_same _).trans (sendSegment_same _ _) }

/-! ## Filling the window -/

/-- The emissions that lead from one sender to another, with the numbers the
    segments start at. -/
inductive Fills : TCPSender → List (Nat × TCPSegment) → TCPSender → Prop
  | done (s : TCPSender) : Fills s [] s
  | emit {s s' t : TCPSender} {seg : TCPSegment} {l : List (Nat × TCPSegment)}
      (head : Emitted s seg s') (rest : Fills s' l t) :
      Fills s ((s.nextSeqno, seg) :: l) t

/-- Nothing can be sent. -/
def Stopped (s : TCPSender) : Prop := s.availableSpace = 0 ∨ s.segmentNeeded = false

/-- With data waiting, every segment but the first takes a byte. -/
theorem Emitted.payload_ne_nil (h : Emitted s seg s') (hdata : s.stream.buffer ≠ [])
    (hz : s.nextSeqno ≠ 0) : seg.payload ≠ [] := by
  intro hnil
  have hpos := h.occupies
  have hsyn : ¬ seg.header.syn = true := fun hs => hz (h.syn.mp hs)
  rw [TCPSegment.lengthInSequenceSpace, hnil, if_neg hsyn] at hpos
  by_cases hf : seg.header.fin = true
  · have happ := h.payload
    rw [hnil, (h.fin hf).2] at happ
    exact hdata happ.symm
  · rw [if_neg hf] at hpos
    exact absurd hpos (by decide)

/-- An emission leaves less to send. -/
theorem Emitted.unsent_lt (h : Emitted s seg s') : s'.unsent < s.unsent := by
  have hlen : seg.payload.length + s'.stream.buffer.length = s.stream.buffer.length := by
    rw [← List.length_append, h.payload]
  have hpos := h.occupies
  have hsize := seg.lengthInSequenceSpace_ge
  rw [unsent, unsent, h.same.bytesWritten, h.nextSeqno]
  by_cases hz : s.nextSeqno = 0
  · omega
  · rcases ((segmentNeeded_iff s).mp h.needed).resolve_left hz with hdata | ⟨-, -, hlt⟩
    · have hpay := List.length_pos_iff.mpr (h.payload_ne_nil hdata hz)
      omega
    · omega

/-- **FILLING THE WINDOW** is a sequence of emissions, and it ends where
    nothing can be sent. -/
theorem fillWindow_fills (s : TCPSender) :
    (∃ l, Fills s l s.fillWindow) ∧ Stopped s.fillWindow := by
  refine whileTrue_post
    (I := fun t => ∀ l u, Fills t l u → ∃ l', Fills s l' u)
    (Q := fun t => (∃ l, Fills s l t) ∧ Stopped t) (μ := unsent) ?_ ?_ _ s
    (Nat.lt_succ_self _) (fun l u h => ⟨l, h⟩)
  · intro t hback hgo
    rcases fillRound_cases t with ⟨hstop, -⟩ | ⟨-, seg, hem⟩
    · rw [hstop] at hgo
      exact absurd hgo Bool.false_ne_true
    · exact ⟨fun l u h => hback _ u (.emit hem h), hem.unsent_lt⟩
  · intro t hback hstop
    rcases fillRound_cases t with ⟨heq, hwhy⟩ | ⟨hgo, -⟩
    · rw [heq]
      exact ⟨hback [] t (.done t), hwhy⟩
    · rw [hgo] at hstop
      exact absurd hstop (Bool.noConfusion)

theorem Fills.same {t : TCPSender} {l : List (Nat × TCPSegment)} (h : Fills s l t) :
    SameControl s t := by
  induction h with
  | done s => exact SameControl.refl s
  | emit hem _ ih => exact hem.same.trans ih

/-- The new segments stand at the end of the queue. -/
theorem Fills.outstanding {t : TCPSender} {l : List (Nat × TCPSegment)}
    (h : Fills s l t) : t.outstandingSegments = s.outstandingSegments ++ l := by
  induction h with
  | done s => exact (List.append_nil _).symm
  | emit hem _ ih => rw [ih, hem.outstanding, List.append_assoc, List.singleton_append]

/-- The new segments are queued for sending. -/
theorem Fills.segmentsOut {t : TCPSender} {l : List (Nat × TCPSegment)}
    (h : Fills s l t) : t.segmentsOut = s.segmentsOut ++ l.map Prod.snd := by
  induction h with
  | done s => exact (List.append_nil _).symm
  | emit hem _ ih =>
      rw [ih, hem.segmentsOut, List.append_assoc, List.singleton_append, List.map_cons]

theorem Fills.nextSeqno_le {t : TCPSender} {l : List (Nat × TCPSegment)}
    (h : Fills s l t) : s.nextSeqno ≤ t.nextSeqno := by
  induction h with
  | done s => exact Nat.le_refl _
  | emit hem _ ih =>
      rw [hem.nextSeqno] at ih
      exact Nat.le_trans (Nat.le_add_right _ _) ih

instance (s : TCPSender) : Decidable (Stopped s) := inferInstanceAs (Decidable (_ ∨ _))

/-- Nothing is emitted where nothing can be sent. -/
theorem Stopped.not_emitted (h : Stopped s) : ¬ Emitted s seg s' := by
  intro hem
  rcases h with h0 | hn
  · have hpos := hem.occupies
    have hfit := hem.fits
    omega
  · rw [hem.needed] at hn
    exact absurd hn Bool.noConfusion

/-- Where nothing can be sent, filling changes nothing. -/
theorem fillWindow_of_stopped (h : Stopped s) : s.fillWindow = s := by
  rcases fillRound_cases s with ⟨heq, -⟩ | ⟨-, seg, hem⟩
  · rw [fillWindow, whileTrue_stop _ (by rw [heq]), heq]
  · exact absurd hem h.not_emitted

/-- Filling is silent exactly where nothing can be sent. -/
theorem fillWindow_silent_iff (s : TCPSender) :
    s.fillWindow.segmentsOut = s.segmentsOut ↔ Stopped s := by
  constructor
  · intro hsame
    obtain ⟨⟨l, hl⟩, hstop⟩ := fillWindow_fills s
    have hout := hl.segmentsOut
    rw [hsame, List.self_eq_append_right, List.map_eq_nil_iff] at hout
    subst hout
    generalize s.fillWindow = t at hl hstop
    cases hl with
    | done => exact hstop
  · intro hstop
    rw [fillWindow_of_stopped hstop]

/-- What waits, and the `SYN` if it is due, fits what is left of the window. -/
def AllFits (s : TCPSender) : Prop :=
  s.stream.buffer = []
    ∨ s.stream.buffer.length + (if s.nextSeqno = 0 then 1 else 0) ≤ s.availableSpace

instance (s : TCPSender) : Decidable (AllFits s) := inferInstanceAs (Decidable (_ ∨ _))

theorem Emitted.availableSpace (h : Emitted s seg s') :
    s'.availableSpace = s.availableSpace - seg.lengthInSequenceSpace := by
  have hfits := h.fits
  rw [availableSpace_eq] at hfits
  rw [availableSpace_eq, availableSpace_eq, h.nextSeqno, h.same.absAckno, h.same.windowSize,
    sub64_add hfits]

/-- An emission does not change whether all that waits will go out. -/
theorem Emitted.allFits_iff (h : Emitted s seg s') : AllFits s ↔ AllFits s' := by
  have hfits := h.fits
  have hpos := h.occupies
  have hlen : seg.payload.length + s'.stream.buffer.length = s.stream.buffer.length := by
    rw [← List.length_append, h.payload]
  have hsize : seg.lengthInSequenceSpace = seg.payload.length
      + (if s.nextSeqno = 0 then 1 else 0) + (if seg.header.fin then 1 else 0) := by
    rw [TCPSegment.lengthInSequenceSpace, if_congr h.syn rfl rfl]
  rw [AllFits, AllFits, h.availableSpace, h.nextSeqno,
    if_neg (show ¬ s.nextSeqno + seg.lengthInSequenceSpace = 0 by omega),
    ← List.length_eq_zero_iff, ← List.length_eq_zero_iff]
  by_cases hleft : s'.stream.buffer = []
  · rw [hleft, List.length_nil] at hlen
    rw [hleft]
    refine iff_of_true (Or.inr ?_) (Or.inl rfl)
    split_ifs at hsize ⊢ <;> omega
  · -- the `FIN` goes out with the last byte only
    have hfin : ¬ seg.header.fin = true := fun hf => hleft (h.fin hf).2
    rw [if_neg hfin] at hsize
    have hsome : s'.stream.buffer.length ≠ 0 := fun hz => hleft (List.length_eq_zero_iff.mp hz)
    omega

/-- **WHAT FILLING LEAVES**: nothing, exactly if all that waits fits. -/
theorem fillWindow_buffer_eq_nil_iff (s : TCPSender) :
    s.fillWindow.stream.buffer = [] ↔ AllFits s := by
  obtain ⟨⟨l, hl⟩, hstop⟩ := fillWindow_fills s
  generalize s.fillWindow = t at hl hstop
  induction hl with
  | done s =>
      refine ⟨Or.inl, fun hfits => ?_⟩
      rcases hfits with hnil | hfits
      · exact hnil
      rcases hstop with hfull | hidle
      · exact List.length_eq_zero_iff.mp (by omega)
      · by_contra hdata
        have hneeded := (segmentNeeded_iff s).mpr (Or.inr (Or.inl hdata))
        exact absurd (hidle.symm.trans hneeded) Bool.false_ne_true
  | emit head _ ih => exact (ih hstop).trans head.allFits_iff.symm

/-! ## Where the sender stands in its stream -/

/-- Nothing is sent yet; or the `SYN` and the bytes read are; or the `FIN`
    is, and with it everything. -/
def Phase (s : TCPSender) : Prop :=
  (s.nextSeqno = 0 ∧ s.stream.bytesRead = 0)
    ∨ s.nextSeqno = s.stream.bytesRead + 1
    ∨ (s.nextSeqno = s.stream.bytesWritten + 2 ∧ s.stream.inputEnded = true
      ∧ s.stream.buffer = [])

/-- While there is something to send the `FIN` has not gone out, and the next
    number says how many bytes have. -/
theorem Phase.open_of_needed (h : Phase s) (hn : s.segmentNeeded = true) :
    s.stream.bytesRead = s.nextSeqno - 1 ∧ s.nextSeqno ≤ s.stream.bytesRead + 1 := by
  rcases h with ⟨h1, h2⟩ | h1 | ⟨h1, -, h3⟩
  · omega
  · omega
  · rcases (segmentNeeded_iff s).mp hn with hz | hd | ⟨-, -, hlt⟩
    · omega
    · exact absurd h3 hd
    · omega

/-- An emission keeps the phase; with the `FIN` it is the last one. -/
theorem Emitted.phase (h : Emitted s seg s') (hs : Phase s) :
    Phase s' ∧ (seg.header.fin = true →
      s.nextSeqno + seg.lengthInSequenceSpace = s.stream.bytesWritten + 2) := by
  obtain ⟨hread, hnext⟩ := hs.open_of_needed h.needed
  have hacc := s'.stream.accounted
  have hlen : seg.lengthInSequenceSpace = seg.payload.length
      + (if seg.header.syn then 1 else 0) + (if seg.header.fin then 1 else 0) := rfl
  have hsyn : (if seg.header.syn = true then 1 else 0) + s.nextSeqno
      = s.stream.bytesRead + 1 := by
    split_ifs with hs'
    · have := h.syn.mp hs'
      omega
    · have : s.nextSeqno ≠ 0 := fun hz => hs' (h.syn.mpr hz)
      omega
  rw [h.same.bytesWritten, h.bytesRead] at hacc
  by_cases hf : seg.header.fin = true
  · obtain ⟨hend, hnil⟩ := h.fin hf
    rw [if_pos hf] at hlen
    rw [hnil, List.length_nil] at hacc
    refine ⟨Or.inr (Or.inr ⟨?_, h.same.inputEnded.trans hend, hnil⟩), fun _ => ?_⟩
    · rw [h.nextSeqno, h.same.bytesWritten]
      omega
    · omega
  · rw [if_neg hf] at hlen
    refine ⟨Or.inr (Or.inl ?_), fun h' => absurd h' hf⟩
    rw [h.nextSeqno, h.bytesRead]
    omega

/-! ## What an acknowledgement takes out of the queue -/

/-- What the loop of `ack_received` leaves alone. -/
structure SameStream (s s' : TCPSender) : Prop where
  isn : s'.isn = s.isn
  nextSeqno : s'.nextSeqno = s.nextSeqno
  stream : s'.stream = s.stream
  segmentsOut : s'.segmentsOut = s.segmentsOut

theorem SameStream.refl (s : TCPSender) : SameStream s s := ⟨rfl, rfl, rfl, rfl⟩

/-- The segments at the front that end by `upTo` are gone. -/
structure Popped (upTo : Nat) (s : TCPSender) (popped : List (Nat × TCPSegment))
    (s' : TCPSender) : Prop where
  same : SameStream s s'
  absAckno : s'.absAckno = s.absAckno
  windowSize : s'.windowSize = s.windowSize
  queue : s.outstandingSegments = popped ++ s'.outstandingSegments
  acked : ∀ p ∈ popped, p.1 + p.2.lengthInSequenceSpace ≤ upTo

theorem popRound_cases (absAckno : Nat) (s : TCPSender) :
    (popRound absAckno s = (false, s)
      ∧ ∀ front rest, s.outstandingSegments = front :: rest →
        absAckno < front.1 + front.2.lengthInSequenceSpace)
    ∨ ((popRound absAckno s).1 = true ∧ ∃ front rest,
        s.outstandingSegments = front :: rest
        ∧ front.1 + front.2.lengthInSequenceSpace ≤ absAckno
        ∧ Popped absAckno s [front] (popRound absAckno s).2
        ∧ (popRound absAckno s).2.outstandingSegments = rest) := by
  rw [popRound]
  cases hq : s.outstandingSegments with
  | nil => exact Or.inl ⟨rfl, fun _ _ h => nomatch h⟩
  | cons front rest =>
      dsimp only
      by_cases hle : front.1 + front.2.lengthInSequenceSpace ≤ absAckno
      · rw [if_pos hle]
        refine Or.inr ⟨rfl, front, rest, rfl, hle,
          ⟨⟨rfl, rfl, rfl, rfl⟩, rfl, rfl, hq, ?_⟩, rfl⟩
        intro p hp
        rw [List.mem_singleton.mp hp]
        exact hle
      · rw [if_neg hle]
        refine Or.inl ⟨rfl, fun f r h => ?_⟩
        rw [List.cons.injEq] at h
        rw [← h.1]
        omega

theorem Popped.trans {absAckno : Nat} {t : TCPSender} {x y : List (Nat × TCPSegment)}
    (h : Popped absAckno s x s') (h' : Popped absAckno s' y t) :
    Popped absAckno s (x ++ y) t where
  same := ⟨h'.same.isn.trans h.same.isn, h'.same.nextSeqno.trans h.same.nextSeqno,
    h'.same.stream.trans h.same.stream, h'.same.segmentsOut.trans h.same.segmentsOut⟩
  absAckno := h'.absAckno.trans h.absAckno
  windowSize := h'.windowSize.trans h.windowSize
  queue := by rw [h.queue, h'.queue, List.append_assoc]
  acked := fun p hp => (List.mem_append.mp hp).elim (h.acked p) (h'.acked p)

/-- **THE POP LOOP** takes out exactly the acknowledged front. -/
theorem popAcked_spec (absAckno : Nat) (s : TCPSender) :
    ∃ popped, Popped absAckno s popped (s.popAcked absAckno)
      ∧ ∀ front rest, (s.popAcked absAckno).outstandingSegments = front :: rest →
        absAckno < front.1 + front.2.lengthInSequenceSpace := by
  refine whileTrue_post
    (I := fun t => ∃ popped, Popped absAckno s popped t)
    (Q := fun t => ∃ popped, Popped absAckno s popped t
      ∧ ∀ front rest, t.outstandingSegments = front :: rest →
        absAckno < front.1 + front.2.lengthInSequenceSpace)
    (μ := fun t => t.outstandingSegments.length) ?_ ?_ _ s (Nat.lt_succ_self _)
    ⟨[], SameStream.refl s, rfl, rfl, rfl, fun _ hp => nomatch hp⟩
  · rintro t ⟨popped, hp⟩ hgo
    rcases popRound_cases absAckno t with ⟨hstop, -⟩ | ⟨-, front, rest, hq, -, hpop, hrest⟩
    · rw [hstop] at hgo
      exact absurd hgo Bool.false_ne_true
    · refine ⟨⟨_, hp.trans hpop⟩, ?_⟩
      rw [hrest, hq]
      exact Nat.lt_succ_self _
  · rintro t ⟨popped, hp⟩ hstop
    rcases popRound_cases absAckno t with ⟨heq, hfront⟩ | ⟨hgo, -⟩
    · rw [heq]
      exact ⟨popped, hp, hfront⟩
    · rw [hgo] at hstop
      exact absurd hstop Bool.noConfusion

/-- With an unacknowledged front nothing is taken out. -/
theorem popAcked_of_front {absAckno : Nat}
    (h : ∀ front ∈ s.outstandingSegments.head?,
      absAckno < front.1 + front.2.lengthInSequenceSpace) :
    s.popAcked absAckno = s := by
  rcases popRound_cases absAckno s with ⟨heq, -⟩ | ⟨-, front, rest, hq, hle, -⟩
  · rw [popAcked, whileTrue_stop _ (by rw [heq]), heq]
  · have hlt := h front (by rw [hq]; rfl)
    omega

/-- **AN ACKNOWLEDGEMENT, INVERTED**: the numbers it sets and the segments it
    takes out of the queue, up to the call of `fill_window`. -/
structure Acked (s : TCPSender) (upTo : Nat) (window : BitVec 16)
    (popped : List (Nat × TCPSegment)) (s' : TCPSender) : Prop where
  same : SameStream s s'
  absAckno : s'.absAckno = upTo
  windowSize : s'.windowSize = window.toNat
  reached : upTo ≤ s.nextSeqno
  queue : s.outstandingSegments = popped ++ s'.outstandingSegments
  acked : ∀ p ∈ popped, p.1 + p.2.lengthInSequenceSpace ≤ upTo
  front : ∀ front rest, s'.outstandingSegments = front :: rest →
    upTo < front.1 + front.2.lengthInSequenceSpace

theorem noteAck_cases (s : TCPSender) (ackno : WrappingInt32) (window : BitVec 16) :
    (s.nextSeqno < unwrap ackno s.isn (s.absAckno + 1)
      ∧ s.noteAck ackno window = (false, { s with windowSize := window.toNat }))
    ∨ ((s.noteAck ackno window).1 = true ∧ ∃ popped,
        Acked s (unwrap ackno s.isn (s.absAckno + 1)) window popped
          (s.noteAck ackno window).2) := by
  rw [noteAck]
  dsimp only
  by_cases hgt : unwrap ackno s.isn (s.absAckno + 1) > s.nextSeqno
  · rw [if_pos hgt]
    exact Or.inl ⟨hgt, rfl⟩
  · rw [if_neg hgt]
    refine Or.inr ⟨rfl, ?_⟩
    obtain ⟨popped, hp, hfront⟩ := popAcked_spec (unwrap ackno s.isn (s.absAckno + 1))
      { s with
        windowSize := window.toNat
        absAckno := unwrap ackno s.isn (s.absAckno + 1) }
    exact ⟨popped, ⟨hp.same.isn, hp.same.nextSeqno, hp.same.stream, hp.same.segmentsOut⟩,
      hp.absAckno, hp.windowSize, Nat.le_of_not_lt hgt, hp.queue, hp.acked, hfront⟩

theorem ackReceived_noted {ackno : WrappingInt32} {window : BitVec 16}
    (h : (s.noteAck ackno window).1 = true) :
    s.ackReceived ackno window = (s.noteAck ackno window).2.fillWindow := if_pos h

theorem ackReceived_ignored {ackno : WrappingInt32} {window : BitVec 16}
    (h : (s.noteAck ackno window).1 = false) :
    s.ackReceived ackno window = (s.noteAck ackno window).2 :=
  if_neg (by rw [h]; exact Bool.false_ne_true)

/-! ## What a tick sends -/

/-- **A TICK, INVERTED**: nothing changes but the timer and the backoff, and at
    most the oldest segment is sent again. -/
structure Ticked (s s' : TCPSender) : Prop where
  isn : s'.isn = s.isn
  nextSeqno : s'.nextSeqno = s.nextSeqno
  stream : s'.stream = s.stream
  absAckno : s'.absAckno = s.absAckno
  windowSize : s'.windowSize = s.windowSize
  outstanding : s'.outstandingSegments = s.outstandingSegments
  segmentsOut : s'.segmentsOut = s.segmentsOut
    ∨ ∃ front rest, s.outstandingSegments = front :: rest
      ∧ s'.segmentsOut = s.segmentsOut ++ [s.resent front]

theorem retransmit_segmentsOut (s : TCPSender) (front : Nat × TCPSegment) :
    (s.retransmit front).segmentsOut = s.segmentsOut ++ [s.resent front] := by
  rw [retransmit]
  dsimp only
  split_ifs <;> rfl

theorem retransmit_ticked {front : Nat × TCPSegment} {rest : List (Nat × TCPSegment)}
    (hq : s.outstandingSegments = front :: rest) : Ticked s (s.retransmit front) := by
  rw [retransmit]
  dsimp only
  split_ifs with hwin
  · exact ⟨rfl, rfl, rfl, rfl, rfl, rfl, Or.inr ⟨front, rest, hq, rfl⟩⟩
  · exact ⟨rfl, rfl, rfl, rfl, rfl, rfl, Or.inr ⟨front, rest, hq, rfl⟩⟩

theorem ticked (s : TCPSender) (ms : Nat) : Ticked s (s.tick ms) := by
  rw [tick]
  split_ifs with hactive
  · dsimp only
    split
    · exact ⟨rfl, rfl, rfl, rfl, rfl, rfl, Or.inl rfl⟩
    · rename_i front rest hq
      split_ifs with hexp
      · have h := retransmit_ticked (s := { s with timer := s.timer.update ms }) hq
        exact ⟨h.isn, h.nextSeqno, h.stream, h.absAckno, h.windowSize, h.outstanding,
          h.segmentsOut⟩
      · exact ⟨rfl, rfl, rfl, rfl, rfl, rfl, Or.inl rfl⟩
  · exact ⟨rfl, rfl, rfl, rfl, rfl, rfl, Or.inl rfl⟩

end TCPSender

end SpongeSender
