import Sponge.ConnectionProofs
import Sponge.StreamEndProofs

/-! # The outbound stream of a connection

    Everything a connection sends is a piece of its outbound stream, numbered
    from its initial sequence number (`OfStream`); a receiver that is fed with
    such pieces holds nothing but that stream.  `Sends` is the sender's side of
    it, and every way an operation can change the sender keeps it. -/

namespace SpongeOutbound

open SpongeByteStream SpongeReassembly SpongeWrapping SpongeSegment SpongeReceiver
open SpongeStreamEnd SpongeSender SpongeConnection ListSlice

/-! ## Pieces of a stream -/

/-- The segment is a piece of the stream `W` that starts at the absolute number
    `start`: a `SYN` is number 0, byte `i` is number `i + 1`, and a `FIN` comes
    after the last byte of a stream that has ended. -/
structure OfStream (W : List Byte) (ended : Bool) (isn : WrappingInt32) (start : Nat)
    (seg : TCPSegment) : Prop where
  seqno : seg.header.seqno = wrap start isn
  syn : seg.header.syn = true → start = 0
  numbered : seg.payload ≠ [] → seg.header.syn = true ∨ 0 < start
  slice : SliceAt W (start - 1) seg.payload
  fin : seg.header.fin = true → ended = true ∧ start - 1 + seg.payload.length = W.length

section Piece

variable {W W' : List Byte} {ended ended' : Bool} {isn : WrappingInt32} {start : Nat}
  {seg seg' : TCPSegment}

/-- A segment with no payload and no flags is a piece of every stream. -/
theorem ofStream_bare (hq : seg.header.seqno = wrap start isn) (hp : seg.payload = [])
    (hs : seg.header.syn = false) (hf : seg.header.fin = false) :
    OfStream W ended isn start seg where
  seqno := hq
  syn := fun h => absurd (hs.symm.trans h) Bool.false_ne_true
  numbered := fun h => absurd hp h
  slice := by rw [hp]; exact sliceAt_nil W _
  fin := fun h => absurd (hf.symm.trans h) Bool.false_ne_true

/-- Only the number, the flags and the payload matter. -/
theorem OfStream.congr (h : OfStream W ended isn start seg)
    (hq : seg'.header.seqno = seg.header.seqno) (hs : seg'.header.syn = seg.header.syn)
    (hf : seg'.header.fin = seg.header.fin) (hp : seg'.payload = seg.payload) :
    OfStream W ended isn start seg' where
  seqno := hq.trans h.seqno
  syn := by rw [hs]; exact h.syn
  numbered := by rw [hp, hs]; exact h.numbered
  slice := by rw [hp]; exact h.slice
  fin := by rw [hf, hp]; exact h.fin

/-- Pieces stay pieces while the stream grows, and it grows only before its
    end. -/
theorem OfStream.mono (h : OfStream W ended isn start seg) (hW : W <+: W')
    (hend : ended = true → W' = W) (hend' : ended = true → ended' = true) :
    OfStream W' ended' isn start seg where
  seqno := h.seqno
  syn := h.syn
  numbered := h.numbered
  slice := h.slice.mono hW
  fin := by
    intro hf
    obtain ⟨he, hl⟩ := h.fin hf
    exact ⟨hend' he, by rw [hend he]; exact hl⟩

/-- A receiver of the stream can take every piece. -/
theorem OfStream.brings (h : OfStream W ended isn start seg) : Brings W isn seg where
  syn := by
    intro hs
    rw [h.seqno, h.syn hs, wrap_zero]
  payload := by
    intro hne
    refine ⟨start - 1, ?_, ?_, h.slice.end_le hne, h.slice.eq_take_drop, ?_⟩
    · rw [h.seqno]
      split_ifs with hs
      · rw [h.syn hs, wrap_zero]
      · rw [Nat.sub_add_cancel ((h.numbered hne).resolve_left hs)]
    · intro hs
      rw [h.syn hs]
    · intro hf
      exact (h.fin hf).2

end Piece

/-! ## What the sender keeps and queues -/

/-- **THE SENDER'S SIDE**: the bytes accepted are `W`, those not yet sent wait
    in order, and everything kept or queued is a piece of the stream. -/
structure Sends (W : List Byte) (s : TCPSender) : Prop where
  written : s.stream.bytesWritten = W.length
  waiting : s.stream.buffer = W.drop s.stream.bytesRead
  phase : s.Phase
  kept : ∀ p ∈ s.outstandingSegments, OfStream W s.stream.inputEnded s.isn p.1 p.2
  queued : ∀ seg ∈ s.segmentsOut, ∃ start, OfStream W s.stream.inputEnded s.isn start seg

section Sending

variable {W : List Byte} {s s' t : TCPSender} {seg : TCPSegment}

theorem sends_new (capacity : UInt64) (retxTimeout : BitVec 16)
    (fixedIsn : Option WrappingInt32) (random : BitVec 32) :
    Sends [] (TCPSender.new capacity retxTimeout fixedIsn random) where
  written := rfl
  waiting := rfl
  phase := Or.inl ⟨rfl, rfl⟩
  kept := fun _ hp => nomatch hp
  queued := fun _ hseg => nomatch hseg

/-- What is emitted is a piece of the stream. -/
theorem Sends.piece (h : Sends W s) (hem : s.Emitted seg s') :
    OfStream W s.stream.inputEnded s.isn s.nextSeqno seg := by
  obtain ⟨hread, hnext⟩ := h.phase.open_of_needed hem.needed
  refine ⟨hem.seqno, hem.syn.mp, ?_, ?_, ?_⟩
  · intro _
    by_cases hz : s.nextSeqno = 0
    · exact Or.inl (hem.syn.mpr hz)
    · exact Or.inr (Nat.pos_of_ne_zero hz)
  · refine ⟨s'.stream.buffer, ?_⟩
    rw [hem.payload, h.waiting, hread]
  · intro hf
    obtain ⟨hend, hnil⟩ := hem.fin hf
    have hacc := s'.stream.accounted
    rw [hem.same.bytesWritten, h.written, hem.bytesRead, hnil, List.length_nil] at hacc
    exact ⟨hend, by omega⟩

theorem Sends.emit (h : Sends W s) (hem : s.Emitted seg s') : Sends W s' := by
  have hpiece := h.piece hem
  refine ⟨hem.same.bytesWritten.trans h.written, ?_, (hem.phase h.phase).1, ?_, ?_⟩
  · have hdrop : s'.stream.buffer = s.stream.buffer.drop seg.payload.length := by
      rw [← hem.payload, List.drop_left]
    rw [hdrop, h.waiting, hem.bytesRead, List.drop_drop]
  · rw [hem.outstanding, hem.same.inputEnded, hem.same.isn]
    intro p hp
    rcases List.mem_append.mp hp with hp | hp
    · exact h.kept p hp
    · rw [List.mem_singleton.mp hp]
      exact hpiece
  · rw [hem.segmentsOut, hem.same.inputEnded, hem.same.isn]
    intro seg' hseg
    rcases List.mem_append.mp hseg with hseg | hseg
    · exact h.queued seg' hseg
    · rw [List.mem_singleton.mp hseg]
      exact ⟨_, hpiece⟩

/-- One more piece in the queue to be sent. -/
theorem Sends.enqueue (h : Sends W s) (start : Nat) {seg : TCPSegment}
    (hseg : OfStream W s.stream.inputEnded s.isn start seg) :
    ∀ seg' ∈ s.segmentsOut ++ [seg],
      ∃ start, OfStream W s.stream.inputEnded s.isn start seg' := by
  intro seg' hmem
  rcases List.mem_append.mp hmem with hmem | hmem
  · exact h.queued seg' hmem
  · rw [List.mem_singleton.mp hmem]
    exact ⟨start, hseg⟩

theorem Sends.ticked (h : Sends W s) (ht : s.Ticked s') : Sends W s' := by
  refine ⟨?_, ?_, ?_, ?_, ?_⟩
  · rw [ht.stream]; exact h.written
  · rw [ht.stream]; exact h.waiting
  · rw [TCPSender.Phase, ht.stream, ht.nextSeqno]; exact h.phase
  · rw [ht.outstanding, ht.stream, ht.isn]; exact h.kept
  · rw [ht.stream, ht.isn]
    rcases ht.segmentsOut with hout | ⟨front, rest, hq, hout⟩
    · rw [hout]; exact h.queued
    · rw [hout]
      -- the oldest piece, under its own number
      have hfront := h.kept front (by rw [hq]; exact List.mem_cons_self ..)
      refine h.enqueue front.1 (hfront.congr ?_ rfl rfl rfl)
      exact hfront.seqno.symm

/-- Whatever the operations add keeps the sender's side. -/
theorem Sends.moves (h : Sends W s) (hm : Moves s t) : Sends W t := by
  induction hm with
  | refl s => exact h
  | emit head _ ih => exact ih (h.emit head)
  | @empty s t _ ih =>
      refine ih ⟨h.written, h.waiting, h.phase, h.kept, ?_⟩
      exact h.enqueue s.nextSeqno (ofStream_bare rfl rfl rfl rfl)
  | @reset s t _ ih =>
      refine ih ⟨h.written, h.waiting, h.phase, ?_, ?_⟩
      · intro p hp
        rcases List.mem_append.mp hp with hp | hp
        · exact h.kept p hp
        · rw [List.mem_singleton.mp hp]
          exact ofStream_bare rfl rfl rfl rfl
      · exact h.enqueue s.nextSeqno (ofStream_bare rfl rfl rfl rfl)
  | tick head _ ih => exact ih (h.ticked head)
  | window _ _ ih => exact ih ⟨h.written, h.waiting, h.phase, h.kept, h.queued⟩
  | error _ ih => exact ih ⟨h.written, h.waiting, h.phase, h.kept, h.queued⟩

/-- A write on an open stream makes it longer. -/
theorem Sends.write (h : Sends W s) (hopen : s.stream.inputEnded = false)
    (data : List Byte) :
    Sends (W ++ data.take (s.stream.write data).1)
      { s with stream := (s.stream.write data).2 } := by
  have hacc := s.stream.accounted
  have hwr := h.written
  have hmono : ∀ {start seg}, OfStream W s.stream.inputEnded s.isn start seg →
      OfStream (W ++ data.take (s.stream.write data).1) s.stream.inputEnded s.isn
        start seg := by
    intro start seg hp
    refine hp.mono (List.prefix_append ..) (fun he => ?_) id
    rw [hopen] at he
    exact absurd he Bool.false_ne_true
  refine ⟨?_, ?_, ?_, fun p hp => hmono (h.kept p hp), ?_⟩
  · show s.stream.bytesWritten + (s.stream.write data).1 = _
    have hcount := s.stream.write_count data
    rw [List.length_append, List.length_take, hwr]
    omega
  · show (s.stream.write data).2.buffer = List.drop s.stream.bytesRead _
    rw [ByteStream.write_buffer_count, h.waiting,
      List.drop_append_of_le_length (by omega)]
  · rcases h.phase with hp | hp | ⟨-, hp, -⟩
    · exact Or.inl hp
    · exact Or.inr (Or.inl hp)
    · rw [hopen] at hp
      exact absurd hp Bool.false_ne_true
  · intro seg hseg
    obtain ⟨start, hp⟩ := h.queued seg hseg
    exact ⟨start, hmono hp⟩

/-- Ending the input leaves the pieces alone. -/
theorem Sends.endInput (h : Sends W s) :
    Sends W { s with stream := s.stream.endInput } := by
  have hmono : ∀ {start seg}, OfStream W s.stream.inputEnded s.isn start seg →
      OfStream W true s.isn start seg :=
    fun hp => hp.mono (List.prefix_refl W) (fun _ => rfl) (fun _ => rfl)
  refine ⟨h.written, h.waiting, ?_, fun p hp => hmono (h.kept p hp), ?_⟩
  · rcases h.phase with hp | hp | ⟨hp, -, hp'⟩
    · exact Or.inl hp
    · exact Or.inr (Or.inl hp)
    · exact Or.inr (Or.inr ⟨hp, rfl, hp'⟩)
  · intro seg hseg
    obtain ⟨start, hp⟩ := h.queued seg hseg
    exact ⟨start, hmono hp⟩

/-- An acknowledgement only takes pieces away. -/
theorem Sends.acked (h : Sends W s) {upTo : Nat} {window : BitVec 16}
    {popped : List (Nat × TCPSegment)} (ha : s.Acked upTo window popped s') :
    Sends W s' := by
  refine ⟨?_, ?_, ?_, ?_, ?_⟩
  · rw [ha.same.stream]; exact h.written
  · rw [ha.same.stream]; exact h.waiting
  · rw [TCPSender.Phase, ha.same.stream, ha.same.nextSeqno]; exact h.phase
  · rw [ha.same.stream, ha.same.isn]
    intro p hp
    refine h.kept p ?_
    rw [ha.queue]
    exact List.mem_append.mpr (Or.inr hp)
  · rw [ha.same.segmentsOut, ha.same.stream, ha.same.isn]
    exact h.queued

/-- The stamp of the receiver does not touch the piece. -/
theorem OfStream.stamp {ended : Bool} {isn : WrappingInt32} {start : Nat}
    (h : OfStream W ended isn start seg) (r : TCPReceiver) :
    OfStream W ended isn start (TCPConnection.stamp r seg) := by
  rw [TCPConnection.stamp]
  cases r.ackno with
  | none => exact h.congr rfl rfl rfl rfl
  | some ackno => exact h.congr rfl rfl rfl rfl

end Sending

end SpongeOutbound
