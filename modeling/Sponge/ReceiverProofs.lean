import Sponge.SegmentProofs
import Sponge.ReassemblyProofs

/-! # The receiver — `tcp_receiver`

    The receiver turns sequence numbers into stream indices, feeds the
    reassembler, and answers with an acknowledgement number and a window.  A
    receiver carries the reassembler's representation invariant as a field,
    so every receiver value is one the theorems speak about.

    `received` says once what a segment does to a receiver.  From it:

    * `advances_iff` — the next in-order byte is accepted exactly when memory is
      left and its sequence number is not the initial one again; bytes parked
      beyond the window can eat all the memory (`wedged_by_parked`);
    * `payload_handed_iff` — a payload within `2 ^ 31` of the next byte is handed
      to the reassembler at its own index exactly when its sequence number is not
      the initial one again.  After `2 ^ 32 - 1` bytes it is, and the payload is
      skipped (`payload_skipped`). -/

namespace SpongeReceiver

open SpongeByteStream SpongeReassembler SpongeReassembly SpongeWrapping SpongeSegment
open BlockMap ListSlice Word64 RunRule

/-- The receiver, over a well-formed reassembler of its own capacity. -/
structure TCPReceiver where
  reassembler : StreamReassembler
  capacity : UInt64
  syn : Bool
  fin : Bool
  isn : WrappingInt32
  wellFormed : reassembler.WellFormed
  sameCapacity : reassembler.capacity = capacity
deriving DecidableEq, Repr

namespace TCPReceiver

def new (capacity : UInt64) : TCPReceiver where
  reassembler := .new capacity
  capacity := capacity
  syn := false
  fin := false
  isn := ⟨0⟩
  wellFormed := StreamReassembler.wellFormed_new capacity
  sameCapacity := rfl

def streamOut (r : TCPReceiver) : ByteStream := r.reassembler.output

def unassembledBytes (r : TCPReceiver) : Nat := r.reassembler.unassembledBytes

/-- The number of the first byte that is missing, in the peer's sequence
    space; none before the peer's `SYN`. -/
def ackno (r : TCPReceiver) : Option WrappingInt32 :=
  if r.syn then
    let index := r.reassembler.firstUnassembled + 1
    let index := if r.streamOut.inputEnded then index + 1 else index
    some (wrap index r.isn)
  else none

def windowSize (r : TCPReceiver) : Nat :=
  sub64 r.capacity.toNat r.streamOut.bufferSize

/-- Hand a substring to the reassembler. -/
def pushSubstring (r : TCPReceiver) (data : List Byte) (index : Nat) (eof : Bool) :
    TCPReceiver :=
  { r with
    reassembler := r.reassembler.pushSubstring data index eof
    wellFormed := r.wellFormed.push data index eof
    sameCapacity :=
      (StreamReassembler.pushed r.wellFormed data index eof).2.1.capacity.trans
        r.sameCapacity }

/-- `stream_out().end_input()` -/
def endInput (r : TCPReceiver) : TCPReceiver :=
  { r with
    reassembler := r.reassembler.endOutput
    wellFormed := ⟨r.wellFormed.sameCapacity, r.wellFormed.written,
      r.wellFormed.packed, r.wellFormed.bounded⟩ }

/-- `stream_out().set_error()` -/
def setError (r : TCPReceiver) : TCPReceiver :=
  { r with
    reassembler := { r.reassembler with output := r.reassembler.output.setError }
    wellFormed := ⟨r.wellFormed.sameCapacity, r.wellFormed.written,
      r.wellFormed.packed, r.wellFormed.bounded⟩ }

/-- `stream_out().read(len)`; the bytes are the front of the buffer. -/
def readOut (r : TCPReceiver) (len : Nat) : TCPReceiver :=
  { r with
    reassembler := r.reassembler.readOut len
    wellFormed := r.wellFormed.readOut len }

/-- `stream_out().pop_output(len)` -/
def popOut (r : TCPReceiver) (len : Nat) : TCPReceiver :=
  { r with
    reassembler := r.reassembler.popOut len
    wellFormed := r.wellFormed.popOut len }

/-- The first `SYN` sets the initial sequence number. -/
def noteSyn (r : TCPReceiver) (header : TCPHeader) : TCPReceiver :=
  if !r.syn then { r with isn := header.seqno, syn := true } else r

/-- The stream index of a segment's payload. -/
def payloadIndex (r : TCPReceiver) (header : TCPHeader) : Nat :=
  unwrap (header.seqno.sub (if header.syn then 0 else 1)) r.isn
    r.reassembler.firstUnassembled

/-- A payload goes to the reassembler unless a segment without `SYN` carries
    the initial sequence number. -/
def storePayload (r : TCPReceiver) (seg : TCPSegment) : TCPReceiver :=
  if seg.payload.length > 0 then
    if seg.header.syn || seg.header.seqno != r.isn then
      r.pushSubstring seg.payload (r.payloadIndex seg.header) seg.header.fin
    else r
  else r

/-- Once a `FIN` was seen, an empty map ends the stream. -/
def noteFin (r : TCPReceiver) (fin : Bool) : TCPReceiver :=
  if fin || r.fin then
    let r := { r with fin := true }
    if r.unassembledBytes == 0 then r.endInput else r
  else r

def segmentReceived (r : TCPReceiver) (seg : TCPSegment) : TCPReceiver :=
  if !r.syn && !seg.header.syn then r
  else ((r.noteSyn seg.header).storePayload seg).noteFin seg.header.fin

/-! ## What receiving a segment amounts to -/

variable (r : TCPReceiver) (seg : TCPSegment) (header : TCPHeader)

theorem noteSyn_of_syn (h : r.syn = true) : r.noteSyn header = r := by
  rw [noteSyn, h]
  exact if_neg Bool.false_ne_true

theorem noteSyn_of_not_syn (h : r.syn = false) :
    r.noteSyn header = { r with isn := header.seqno, syn := true } := by
  rw [noteSyn, h]
  exact if_pos rfl

@[simp] theorem noteSyn_reassembler :
    (r.noteSyn header).reassembler = r.reassembler := by
  cases h : r.syn with
  | true => rw [r.noteSyn_of_syn header h]
  | false => rw [r.noteSyn_of_not_syn header h]

@[simp] theorem noteSyn_fin : (r.noteSyn header).fin = r.fin := by
  cases h : r.syn with
  | true => rw [r.noteSyn_of_syn header h]
  | false => rw [r.noteSyn_of_not_syn header h]

@[simp] theorem noteSyn_syn : (r.noteSyn header).syn = true := by
  cases h : r.syn with
  | true => rw [r.noteSyn_of_syn header h]; exact h
  | false => rw [r.noteSyn_of_not_syn header h]

/-- A payload is handed over at its index, or the reassembler stays as it
    is. -/
theorem storePayload_cases :
    (r.storePayload seg = r
      ∧ (seg.payload = [] ∨ seg.header.syn = false ∧ seg.header.seqno = r.isn))
    ∨ (seg.payload ≠ []
      ∧ (seg.header.syn = true ∨ seg.header.seqno ≠ r.isn)
      ∧ r.storePayload seg
        = r.pushSubstring seg.payload (r.payloadIndex seg.header) seg.header.fin) := by
  rw [storePayload]
  by_cases hlen : seg.payload.length > 0
  · rw [if_pos hlen]
    have hne : seg.payload ≠ [] := List.ne_nil_of_length_pos hlen
    cases hc : (seg.header.syn || seg.header.seqno != r.isn) with
    | true =>
        rw [if_pos rfl]
        refine Or.inr ⟨hne, ?_, rfl⟩
        rcases Bool.or_eq_true_iff.mp hc with hs | hs
        · exact Or.inl hs
        · exact Or.inr (bne_iff_ne.mp hs)
    | false =>
        rw [if_neg Bool.false_ne_true]
        obtain ⟨hs, hq⟩ := Bool.or_eq_false_iff.mp hc
        exact Or.inl ⟨rfl, Or.inr ⟨hs, bne_eq_false_iff_eq.mp hq⟩⟩
  · rw [if_neg hlen]
    exact Or.inl ⟨rfl, Or.inl (List.eq_nil_of_length_eq_zero (by omega))⟩

@[simp] theorem storePayload_syn : (r.storePayload seg).syn = r.syn := by
  rcases r.storePayload_cases seg with ⟨h, -⟩ | ⟨-, -, h⟩
  · rw [h]
  · rw [h]; rfl

@[simp] theorem storePayload_fin : (r.storePayload seg).fin = r.fin := by
  rcases r.storePayload_cases seg with ⟨h, -⟩ | ⟨-, -, h⟩
  · rw [h]
  · rw [h]; rfl

@[simp] theorem storePayload_isn : (r.storePayload seg).isn = r.isn := by
  rcases r.storePayload_cases seg with ⟨h, -⟩ | ⟨-, -, h⟩
  · rw [h]
  · rw [h]; rfl

/-- Nothing is parked iff the count says so. -/
theorem unassembledBytes_eq_zero :
    r.unassembledBytes = 0 ↔ r.reassembler.unassembledSegments = [] :=
  r.wellFormed.packed.total_eq_zero

theorem noteFin_cases (fin : Bool) :
    (r.noteFin fin).syn = r.syn ∧ (r.noteFin fin).isn = r.isn
      ∧ (r.noteFin fin).fin = (fin || r.fin)
      ∧ (r.noteFin fin).reassembler
        = if (fin || r.fin) = true ∧ r.reassembler.unassembledSegments = []
          then r.reassembler.endOutput else r.reassembler := by
  rw [noteFin]
  cases hf : (fin || r.fin) with
  | false =>
      rw [if_neg Bool.false_ne_true, if_neg (fun h => Bool.false_ne_true h.1)]
      exact ⟨rfl, rfl, (Bool.or_eq_false_iff.mp hf).2, rfl⟩
  | true =>
      rw [if_pos rfl]
      dsimp only
      have hzero := r.unassembledBytes_eq_zero
      split_ifs with hz hnil hnil
      · exact ⟨rfl, rfl, rfl, rfl⟩
      · exact absurd ⟨rfl, hzero.mp (beq_iff_eq.mp hz)⟩ hnil
      · exact absurd (beq_iff_eq.mpr (hzero.mpr hnil.2)) hz
      · exact ⟨rfl, rfl, rfl, rfl⟩

/-- The reassembler once the payload is in, before the `FIN` is looked at. -/
def landed : StreamReassembler :=
  ((r.noteSyn seg.header).storePayload seg).reassembler

/-- **A SEGMENT, INVERTED**: what a receiver that is past the `SYN` check does
    with it. -/
structure Received (r' : TCPReceiver) : Prop where
  syn : r'.syn = true
  isn : r'.isn = (r.noteSyn seg.header).isn
  fin : r'.fin = (seg.header.fin || r.fin)
  reassembler : r'.reassembler
    = if (seg.header.fin || r.fin) = true ∧ (r.landed seg).unassembledSegments = []
      then (r.landed seg).endOutput else r.landed seg

variable {r seg}

theorem segmentReceived_ignored (hr : r.syn = false) (hs : seg.header.syn = false) :
    r.segmentReceived seg = r := by
  rw [segmentReceived, hr, hs]
  exact if_pos rfl

/-- Before the `SYN`, everything else is ignored. -/
theorem segmentReceived_before (h : ¬ (r.syn = true ∨ seg.header.syn = true)) :
    r.segmentReceived seg = r := by
  push Not at h
  exact segmentReceived_ignored (Bool.eq_false_iff.mpr h.1) (Bool.eq_false_iff.mpr h.2)

theorem received (h : r.syn = true ∨ seg.header.syn = true) :
    Received r seg (r.segmentReceived seg) := by
  have hcond : (!r.syn && !seg.header.syn) = false := by
    rcases h with h | h <;> rw [h]
    · rfl
    · exact Bool.and_false _
  rw [segmentReceived, hcond, if_neg Bool.false_ne_true]
  obtain ⟨h1, h2, h3, h4⟩ :=
    ((r.noteSyn seg.header).storePayload seg).noteFin_cases seg.header.fin
  rw [storePayload_fin, noteSyn_fin] at h3 h4
  refine ⟨?_, ?_, h3, h4⟩
  · rw [h1, storePayload_syn, noteSyn_syn]
  · rw [h2, storePayload_isn]

/-- Ending the stream moves no byte. -/
theorem Received.same {r' : TCPReceiver} (h : Received r seg r') :
    StreamReassembler.SameStore (r.landed seg) r'.reassembler := by
  rw [h.reassembler]
  split_ifs
  · exact ⟨rfl, rfl, rfl⟩
  · exact StreamReassembler.SameStore.refl _

/-- A receiver only gets further. -/
structure Progress (r r' : TCPReceiver) : Prop where
  syn : r.syn = true → r'.syn = true ∧ r'.isn = r.isn
  first : r.reassembler.firstUnassembled ≤ r'.reassembler.firstUnassembled
  ended : r.streamOut.inputEnded = true → r'.streamOut.inputEnded = true

theorem Progress.refl (r : TCPReceiver) : Progress r r :=
  ⟨fun h => ⟨h, rfl⟩, Nat.le_refl _, id⟩

theorem Progress.trans {r r' r'' : TCPReceiver} (h : Progress r r') (h' : Progress r' r'') :
    Progress r r'' := by
  refine ⟨fun hs => ?_, Nat.le_trans h.first h'.first, fun he => h'.ended (h.ended he)⟩
  obtain ⟨hs', hisn⟩ := h.syn hs
  obtain ⟨hs'', hisn'⟩ := h'.syn hs'
  exact ⟨hs'', hisn'.trans hisn⟩

theorem progress_landed (r : TCPReceiver) (seg : TCPSegment) :
    r.reassembler.firstUnassembled ≤ (r.landed seg).firstUnassembled
      ∧ (r.reassembler.output.inputEnded = true →
        (r.landed seg).output.inputEnded = true) := by
  rw [landed]
  rcases (r.noteSyn seg.header).storePayload_cases seg with ⟨hkeep, -⟩ | ⟨-, -, hpush⟩
  · rw [hkeep, noteSyn_reassembler]
    exact ⟨Nat.le_refl _, id⟩
  · rw [hpush]
    show _ ≤ ((r.noteSyn seg.header).reassembler.pushSubstring _ _ _).firstUnassembled
      ∧ (_ → ((r.noteSyn seg.header).reassembler.pushSubstring _ _ _).output.inputEnded
        = true)
    rw [noteSyn_reassembler]
    obtain ⟨-, -, hend⟩ := StreamReassembler.pushed r.wellFormed seg.payload
      ((r.noteSyn seg.header).payloadIndex seg.header) seg.header.fin
    exact ⟨StreamReassembler.firstUnassembled_le_push r.wellFormed _ _ _, hend.ended_mono⟩

theorem progress_segment (r : TCPReceiver) (seg : TCPSegment) :
    Progress r (r.segmentReceived seg) := by
  by_cases hpast : r.syn = true ∨ seg.header.syn = true
  · have hr := received hpast
    obtain ⟨hfirst, hended⟩ := progress_landed r seg
    refine ⟨fun hs => ⟨hr.syn, ?_⟩, ?_, fun he => ?_⟩
    · rw [hr.isn, noteSyn_of_syn r _ hs]
    · rw [hr.same.firstUnassembled]
      exact hfirst
    · show (r.segmentReceived seg).reassembler.output.inputEnded = true
      rw [hr.reassembler]
      split_ifs
      · rfl
      · exact hended he
  · rw [segmentReceived_before hpast]
    exact Progress.refl r

/-- A segment only adds to what was assembled. -/
theorem buffer_prefix_segment (r : TCPReceiver) (seg : TCPSegment) :
    r.streamOut.buffer <+: (r.segmentReceived seg).streamOut.buffer := by
  by_cases hpast : r.syn = true ∨ seg.header.syn = true
  · rw [streamOut, streamOut, (received hpast).same.buffer, landed]
    rcases (r.noteSyn seg.header).storePayload_cases seg with ⟨hkeep, -⟩ | ⟨-, -, hpush⟩
    · rw [hkeep, noteSyn_reassembler]
    · rw [hpush, ← noteSyn_reassembler r seg.header]
      exact StreamReassembler.buffer_prefix_push (r.noteSyn seg.header).wellFormed _ _ _
  · rw [segmentReceived_before hpast]

/-- Putting a payload in reads nothing and marks no error. -/
theorem frame_landed (r : TCPReceiver) (seg : TCPSegment) :
    StreamReassembler.Frame r.reassembler (r.landed seg) := by
  rw [landed]
  rcases (r.noteSyn seg.header).storePayload_cases seg with ⟨hkeep, -⟩ | ⟨-, -, hpush⟩
  · rw [hkeep, noteSyn_reassembler]
    exact StreamReassembler.Frame.refl _
  · rw [hpush]
    show StreamReassembler.Frame _
      ((r.noteSyn seg.header).reassembler.pushSubstring _ _ _)
    rw [noteSyn_reassembler]
    exact (StreamReassembler.pushed r.wellFormed _ _ _).2.1

/-- Nor does a whole segment. -/
theorem frame_segment (r : TCPReceiver) (seg : TCPSegment) :
    StreamReassembler.Frame r.reassembler (r.segmentReceived seg).reassembler := by
  by_cases hpast : r.syn = true ∨ seg.header.syn = true
  · have hframe := frame_landed r seg
    rw [(received hpast).reassembler]
    split_ifs
    · exact ⟨hframe.bytesRead, hframe.outCapacity, hframe.error, hframe.capacity⟩
    · exact hframe
  · rw [segmentReceived_before hpast]
    exact StreamReassembler.Frame.refl _

/-- The window is the capacity without what waits to be read. -/
theorem windowSize_eq (r : TCPReceiver) :
    r.windowSize = r.capacity.toNat - r.streamOut.buffer.length := by
  have hfits := r.streamOut.fits
  have hcap : r.streamOut.capacity = r.capacity :=
    r.wellFormed.sameCapacity.trans r.sameCapacity
  have hlt := r.capacity.toNat_lt
  rw [hcap] at hfits
  exact sub64_of_le hfits (by omega)

/-- **THE WINDOW ENDS AT THE EDGE**: the first missing byte and the window after it
    reach exactly to what has been read and the capacity after that. -/
theorem window_edge (r : TCPReceiver) :
    r.reassembler.firstUnassembled + r.windowSize
      = r.streamOut.bytesRead + r.capacity.toNat := by
  have hfits := r.streamOut.fits
  have hacc := r.streamOut.accounted
  have hwritten : r.streamOut.bytesWritten = r.reassembler.firstUnassembled :=
    r.wellFormed.written
  have hcap : r.streamOut.capacity = r.capacity :=
    r.wellFormed.sameCapacity.trans r.sameCapacity
  rw [hcap] at hfits
  rw [windowSize_eq]
  omega

end TCPReceiver

/-! ## The next in-order byte -/

open TCPReceiver

/-- A push that contains the next byte moves on iff there is memory left. -/
theorem advances_push {r : StreamReassembler} (hw : r.WellFormed) {data : List Byte}
    {index : Nat} (hle : index ≤ r.firstUnassembled)
    (hlt : r.firstUnassembled < index + data.length) (eof : Bool) :
    r.firstUnassembled < (r.pushSubstring data index eof).firstUnassembled
      ↔ 0 < r.room := by
  obtain ⟨hp, -, -⟩ := StreamReassembler.pushed hw data index eof
  cases hp with
  | stale hstale _ =>
      rcases hstale with hle' | hnil
      · omega
      · rw [hnil, List.length_nil] at hlt
        omega
  | covered b hgt _ _ _ _ _ _ => omega
  | inserted _ _ _ _ hgt _ _ _ _ _ => omega
  | inOrder w _ _ hwr _ first segments =>
      constructor
      · intro hadv
        by_contra hroom
        rcases (held_inOrder hw first segments r.firstUnassembled).mp (Or.inl hadv)
          with hk | hk
        · omega
        · have := hw.packed.le_of_covers hk
          omega
      · intro hroom
        rw [first]
        omega

/-- **PROGRESS, EXACTLY**: with the `SYN` received and the stream open, a
    payload right at the acknowledgement number moves the receiver on iff
    fewer bytes are parked than the window has room for and the number is not
    the initial sequence number again. -/
theorem advances_iff (r : TCPReceiver) (seg : TCPSegment) (hsyn : r.syn = true)
    (hopen : r.streamOut.inputEnded = false) (hs : seg.header.syn = false)
    (hack : r.ackno = some seg.header.seqno) (hdata : seg.payload ≠ []) :
    r.reassembler.firstUnassembled
        < (r.segmentReceived seg).reassembler.firstUnassembled
      ↔ r.unassembledBytes < r.windowSize
        ∧ (r.reassembler.firstUnassembled + 1) % 2 ^ 32 ≠ 0 := by
  have hseq : seg.header.seqno = wrap (r.reassembler.firstUnassembled + 1) r.isn := by
    rw [ackno, hsyn, if_pos rfl, hopen] at hack
    exact (Option.some.inj hack).symm
  have hisn : seg.header.seqno = r.isn
      ↔ (r.reassembler.firstUnassembled + 1) % 2 ^ 32 = 0 := by
    rw [hseq]
    conv_lhs => rhs; rw [← wrap_zero r.isn]
    rw [wrap_eq_iff, Nat.zero_mod]
  have hroom : r.unassembledBytes < r.windowSize ↔ 0 < r.reassembler.room := by
    rw [windowSize_eq, StreamReassembler.room, r.sameCapacity]
    show r.reassembler.unassembledBytes < _ - r.reassembler.output.buffer.length ↔ _
    omega
  rw [(received (Or.inl hsyn)).same.firstUnassembled, landed,
    r.noteSyn_of_syn seg.header hsyn, hroom]
  have hpos : 0 < seg.payload.length := List.length_pos_iff.mpr hdata
  rcases r.storePayload_cases seg with ⟨hkeep, hwhy⟩ | ⟨-, hne, hpush⟩
  · -- the guard on the initial sequence number drops the payload
    rw [hkeep]
    have hq := hisn.mp ((hwhy.resolve_left hdata).2)
    constructor
    · intro h; exact absurd h (Nat.lt_irrefl _)
    · rintro ⟨-, h⟩; exact absurd hq h
  · have hq : (r.reassembler.firstUnassembled + 1) % 2 ^ 32 ≠ 0 := by
      intro h0
      rcases hne with h | h
      · rw [hs] at h; exact Bool.false_ne_true h
      · exact h (hisn.mpr h0)
    have hindex : r.payloadIndex seg.header = r.reassembler.firstUnassembled := by
      rw [payloadIndex, hs, hseq, if_neg Bool.false_ne_true, wrap_succ_sub_one,
        unwrap_wrap_self]
    rw [hpush, hindex]
    show _ < (r.reassembler.pushSubstring seg.payload _ seg.header.fin).firstUnassembled ↔ _
    rw [advances_push r.wellFormed (Nat.le_refl _) (by omega)]
    exact ⟨fun h => ⟨h, hq⟩, fun h => h.1⟩

/-- A `SYN` with sequence number 0. -/
def synAtZero : TCPSegment := { header := { syn := true } }

/-- One byte with the given sequence number. -/
def oneByte (seqno : BitVec 32) : TCPSegment :=
  { header := { seqno := ⟨seqno⟩ }, payload := [120] }

/-- The first byte after the `SYN`, with a capacity of one. -/
theorem advances_iff_first :
    0 < (((TCPReceiver.new 1).segmentReceived synAtZero).segmentReceived
      (oneByte 1)).reassembler.firstUnassembled :=
  (advances_iff ((TCPReceiver.new 1).segmentReceived synAtZero) (oneByte 1)
    rfl rfl rfl rfl (by decide)).mpr (by decide)

/-! ## Runs of the receiver -/

/-- What can happen to a receiver. -/
inductive Event where
  | segment (seg : TCPSegment)
  | read (len : Nat)
  | pop (len : Nat)
deriving DecidableEq, Repr

/-- A receiver with the history of its run: the bytes taken out of the stream,
    whether a `SYN` has come, and whether a `FIN` has come with it or after. -/
structure Reception where
  receiver : TCPReceiver
  popped : List Byte
  synSeen : Bool
  finSeen : Bool
deriving DecidableEq, Repr

def fresh (capacity : UInt64) : Reception := ⟨.new capacity, [], false, false⟩

/-- One event.  Every event is possible in every state. -/
def feed (x : Reception) : Event → Option Reception
  | .segment seg => some
      { x with
        receiver := x.receiver.segmentReceived seg
        synSeen := x.synSeen || seg.header.syn
        finSeen := x.finSeen || ((x.synSeen || seg.header.syn) && seg.header.fin) }
  | .read len => some
      { x with
        receiver := x.receiver.readOut len
        popped := x.popped ++ (x.receiver.streamOut.read len).1 }
  | .pop len => some
      { x with
        receiver := x.receiver.popOut len
        popped := x.popped ++ x.receiver.streamOut.buffer.take len }

/-- **WEDGED**: with a capacity of one, a byte parked five positions beyond
    the window takes the only place, and the next in-order byte is refused
    while a window of one is advertised. -/
theorem wedged_by_parked :
    ¬ ∀ (capacity : UInt64) (events : List Event) (x : Reception) (seg : TCPSegment),
      run feed (fresh capacity) events = some x → x.receiver.syn = true →
      x.receiver.streamOut.inputEnded = false → 0 < x.receiver.windowSize →
      seg.header.syn = false → seg.header.fin = false →
      x.receiver.ackno = some seg.header.seqno → seg.payload ≠ [] →
      x.receiver.reassembler.firstUnassembled
        < (x.receiver.segmentReceived seg).reassembler.firstUnassembled := by
  intro hall
  have hadv := hall 1 [.segment synAtZero, .segment (oneByte 6)] _ (oneByte 1) rfl
    rfl rfl (by decide) rfl rfl rfl (by decide)
  exact absurd hadv (by decide)

/-! ## Where a payload is handed to the reassembler -/

namespace TCPReceiver

/-- The index at which `segment_received` calls `push_substring` with the payload,
    if it does. -/
def pushIndex (r : TCPReceiver) (seg : TCPSegment) : Option Nat :=
  if !r.syn && !seg.header.syn then none
  else if seg.payload.length > 0 then
    if seg.header.syn || seg.header.seqno != (r.noteSyn seg.header).isn then
      some ((r.noteSyn seg.header).payloadIndex seg.header)
    else none
  else none

variable {r : TCPReceiver} {seg : TCPSegment} {index : Nat}

/-- The call is made at that index, and nothing but the `FIN` follows it. -/
theorem segmentReceived_of_pushIndex (h : r.pushIndex seg = some index) :
    r.segmentReceived seg
      = ((r.noteSyn seg.header).pushSubstring seg.payload index seg.header.fin).noteFin
        seg.header.fin := by
  rw [pushIndex] at h
  rw [segmentReceived, storePayload]
  split_ifs at h ⊢ with hearly hpos hguard
  obtain rfl := Option.some.inj h
  rfl

/-- Without a call a receiver that is past the `SYN` looks at the `FIN` only. -/
theorem segmentReceived_of_skipped (hsyn : r.syn = true) (h : r.pushIndex seg = none) :
    r.segmentReceived seg = r.noteFin seg.header.fin := by
  rw [pushIndex, r.noteSyn_of_syn seg.header hsyn, hsyn, Bool.not_true, Bool.false_and,
    if_neg Bool.false_ne_true] at h
  rw [segmentReceived, storePayload, r.noteSyn_of_syn seg.header hsyn, hsyn, Bool.not_true,
    Bool.false_and, if_neg Bool.false_ne_true]
  split_ifs at h ⊢ with hpos hguard
  · rfl
  · rfl

end TCPReceiver

/-- Within `2 ^ 31` of the next byte a payload is handed over at its own index, unless
    the guard takes its sequence number for the initial one. -/
theorem pushIndex_near {r : TCPReceiver} {seg : TCPSegment} {a : Nat} (hsyn : r.syn = true)
    (hfirst : r.reassembler.firstUnassembled < 2 ^ 63) (hs : seg.header.syn = false)
    (hdata : seg.payload ≠ []) (ha : 1 ≤ a) (hseq : seg.header.seqno = wrap a r.isn)
    (hlo : r.reassembler.firstUnassembled < a - 1 + 2 ^ 31)
    (hhi : a - 1 < r.reassembler.firstUnassembled + 2 ^ 31) :
    r.pushIndex seg = if a % 2 ^ 32 = 0 then none else some (a - 1) := by
  have hisn : seg.header.seqno = r.isn ↔ a % 2 ^ 32 = 0 := by
    rw [hseq]
    conv_lhs => rhs; rw [← wrap_zero r.isn]
    rw [wrap_eq_iff, Nat.zero_mod]
  have hindex : r.payloadIndex seg.header = a - 1 := by
    obtain ⟨b, rfl⟩ : ∃ b, a = b + 1 := ⟨a - 1, by omega⟩
    rw [payloadIndex, hs, if_neg Bool.false_ne_true, hseq, wrap_succ_sub_one]
    exact unwrap_wrap_near (by omega) (by omega) hlo hhi
  rw [pushIndex, hsyn, hs, r.noteSyn_of_syn seg.header hsyn, hindex, Bool.not_true,
    Bool.false_and, if_neg Bool.false_ne_true, if_pos (List.length_pos_iff.mpr hdata),
    Bool.false_or]
  by_cases hzero : a % 2 ^ 32 = 0
  · rw [if_pos hzero, hisn.mpr hzero, bne_self_eq_false, if_neg Bool.false_ne_true]
  · rw [if_neg hzero, if_pos (bne_iff_ne.mpr fun h => hzero (hisn.mp h))]

/-- **WHERE A PAYLOAD IS HANDED, EXACTLY**: past the `SYN`, with any number of bytes
    assembled, a payload whose absolute sequence number `a` is within `2 ^ 31` of the
    next one is handed over at index `a - 1` iff `a` is not a multiple of `2 ^ 32`; the
    multiples are skipped. -/
theorem payload_handed_iff (r : TCPReceiver) (seg : TCPSegment) (a : Nat)
    (hsyn : r.syn = true) (hfirst : r.reassembler.firstUnassembled < 2 ^ 63)
    (hs : seg.header.syn = false) (hdata : seg.payload ≠ []) (ha : 1 ≤ a)
    (hseq : seg.header.seqno = wrap a r.isn)
    (hlo : r.reassembler.firstUnassembled < a - 1 + 2 ^ 31)
    (hhi : a - 1 < r.reassembler.firstUnassembled + 2 ^ 31) :
    (r.pushIndex seg = some (a - 1) ↔ a % 2 ^ 32 ≠ 0)
      ∧ (a % 2 ^ 32 ≠ 0 → r.segmentReceived seg
        = (r.pushSubstring seg.payload (a - 1) seg.header.fin).noteFin seg.header.fin)
      ∧ (a % 2 ^ 32 = 0 → r.segmentReceived seg = r.noteFin seg.header.fin) := by
  have hcall := pushIndex_near hsyn hfirst hs hdata ha hseq hlo hhi
  refine ⟨?_, fun hnot => ?_, fun hzero => ?_⟩
  · rw [hcall]
    by_cases hzero : a % 2 ^ 32 = 0
    · rw [if_pos hzero]
      exact iff_of_false (fun h => Option.some_ne_none _ h.symm) (not_not_intro hzero)
    · rw [if_neg hzero]
      exact iff_of_true rfl hzero
  · rw [if_neg hnot] at hcall
    rw [segmentReceived_of_pushIndex hcall, r.noteSyn_of_syn seg.header hsyn]
  · rw [if_pos hzero] at hcall
    exact segmentReceived_of_skipped hsyn hcall

/-- The first byte after the `SYN` is handed over at index 0. -/
theorem payload_handed_iff_first :
    ((TCPReceiver.new 1).segmentReceived synAtZero).pushIndex (oneByte 1) = some 0 :=
  (payload_handed_iff ((TCPReceiver.new 1).segmentReceived synAtZero) (oneByte 1) 1
    rfl (by decide) rfl (by decide) (by decide) rfl (by decide) (by decide)).1.mpr (by decide)

/-- `n` bytes came one by one and were read: nothing waits, nothing is parked. -/
structure Streamed (n : Nat) (r : TCPReceiver) : Prop where
  syn : r.syn = true
  fin : r.fin = false
  isn : r.isn = ⟨0⟩
  capacity : r.capacity = 1
  first : r.reassembler.firstUnassembled = n
  buffer : r.reassembler.output.buffer = []
  segments : r.reassembler.unassembledSegments = []

/-- A read takes a byte out of the buffer and leaves the rest as it is. -/
theorem Streamed.of_readOut {n : Nat} {r : TCPReceiver} (syn : r.syn = true)
    (fin : r.fin = false) (isn : r.isn = ⟨0⟩) (capacity : r.capacity = 1)
    (first : r.reassembler.firstUnassembled = n)
    (buffer : (r.reassembler.output.read 1).2.buffer = [])
    (segments : r.reassembler.unassembledSegments = []) : Streamed n (r.readOut 1) :=
  ⟨syn, fin, isn, capacity, first, buffer, segments⟩

/-- Below `2 ^ 32 - 1` the next byte goes through. -/
theorem Streamed.next {n : Nat} {r : TCPReceiver} (h : Streamed n r) (hn : n + 1 < 2 ^ 32) :
    Streamed (n + 1)
      ((r.segmentReceived (oneByte (BitVec.ofNat 32 (n + 1)))).readOut 1) := by
  have hfirst := h.first
  have hseq : (oneByte (BitVec.ofNat 32 (n + 1))).header.seqno = wrap (n + 1) r.isn := by
    rw [h.isn, wrap, WrappingInt32.add]
    exact congrArg WrappingInt32.mk (BitVec.zero_add _).symm
  have hcall := pushIndex_near h.syn (by omega) rfl (List.cons_ne_nil _ _) (by omega) hseq
    (by omega) (by omega)
  rw [if_neg (by omega)] at hcall
  have hfin : (r.pushSubstring [120] n false).noteFin false
      = r.pushSubstring [120] n false := by
    rw [noteFin, Bool.false_or]
    refine if_neg ?_
    show ¬ r.fin = true
    rw [h.fin]
    exact Bool.false_ne_true
  have hroom : r.reassembler.room = 1 := by
    rw [StreamReassembler.room, StreamReassembler.unassembledBytes, h.segments, h.buffer,
      r.sameCapacity, h.capacity]
    rfl
  rw [segmentReceived_of_pushIndex hcall, r.noteSyn_of_syn _ h.syn]
  show Streamed (n + 1) (((r.pushSubstring [120] n false).noteFin false).readOut 1)
  rw [hfin]
  obtain ⟨hpushed, hframe, -⟩ := StreamReassembler.pushed r.wellFormed [120] n false
  cases hpushed with
  | stale hstale _ =>
      rcases hstale with hle | hnil
      · rw [hfirst, List.length_singleton] at hle
        omega
      · exact absurd hnil (List.cons_ne_nil _ _)
  | covered b hgt _ _ _ _ _ _ => omega
  | inserted _ _ _ _ hgt _ _ _ _ _ => omega
  | inOrder w hle hlt hw buffer first segments =>
      have hone : w = 1 := by
        rw [hw, hroom, hfirst, List.length_singleton]
        omega
      rw [hone, h.segments] at buffer first segments
      rw [h.buffer, hfirst, Nat.sub_self] at buffer
      rw [hfirst] at first
      refine .of_readOut h.syn h.fin h.isn h.capacity first ?_ segments
      show ((r.reassembler.pushSubstring [120] n false).output.read 1).2.buffer = []
      rw [ByteStream.read_snd, ByteStream.popOutput_buffer, buffer]
      rfl

/-- Every index below `2 ^ 32` is reached. -/
theorem reaches_index (n : Nat) (hn : n < 2 ^ 32) :
    ∃ events x, run feed (fresh 1) events = some x ∧ Streamed n x.receiver := by
  induction n with
  | zero => exact ⟨[.segment synAtZero], _, rfl, ⟨rfl, rfl, rfl, rfl, rfl, rfl, rfl⟩⟩
  | succ n ih =>
      obtain ⟨events, x, hrun, hx⟩ := ih (by omega)
      have hmore : run feed (fresh 1)
          (events ++ [.segment (oneByte (BitVec.ofNat 32 (n + 1))), .read 1])
          = run feed x [.segment (oneByte (BitVec.ofNat 32 (n + 1))), .read 1] := by
        rw [run_append, hrun]
        rfl
      exact ⟨_, _, hmore, hx.next hn⟩

/-- **A PAYLOAD IS SKIPPED**: after `2 ^ 32 - 1` bytes the next one carries the initial
    sequence number again. -/
theorem payload_skipped :
    ¬ ∀ (capacity : UInt64) (events : List Event) (x : Reception) (seg : TCPSegment)
      (a : Nat), run feed (fresh capacity) events = some x → x.receiver.syn = true →
      x.receiver.reassembler.firstUnassembled < 2 ^ 63 → seg.header.syn = false →
      seg.payload ≠ [] → 1 ≤ a → seg.header.seqno = wrap a x.receiver.isn →
      x.receiver.reassembler.firstUnassembled < a - 1 + 2 ^ 31 →
      a - 1 < x.receiver.reassembler.firstUnassembled + 2 ^ 31 →
      x.receiver.pushIndex seg = some (a - 1) := by
  intro hall
  obtain ⟨events, x, hrun, hx⟩ := reaches_index (2 ^ 32 - 1) (by omega)
  have hfirst := hx.first
  have hseq : (oneByte 0).header.seqno = wrap (2 ^ 32) x.receiver.isn := by
    rw [hx.isn]
    decide
  have hlarge : x.receiver.reassembler.firstUnassembled < 2 ^ 63 := by omega
  have hlo : x.receiver.reassembler.firstUnassembled < 2 ^ 32 - 1 + 2 ^ 31 := by omega
  have hhi : 2 ^ 32 - 1 < x.receiver.reassembler.firstUnassembled + 2 ^ 31 := by omega
  have hpos : 1 ≤ 2 ^ 32 := by decide
  have hhanded := hall 1 events x (oneByte 0) (2 ^ 32) hrun hx.syn hlarge rfl
    (List.cons_ne_nil _ _) hpos hseq hlo hhi
  have hnone : x.receiver.pushIndex (oneByte 0) = none := by
    rw [pushIndex, hx.syn, x.receiver.noteSyn_of_syn _ hx.syn, hx.isn]
    rfl
  rw [hnone] at hhanded
  exact absurd hhanded.symm (Option.some_ne_none _)

end SpongeReceiver
