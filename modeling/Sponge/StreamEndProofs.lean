import Sponge.ReceiverProofs

/-! # The end of the inbound stream

    The receiver takes a `FIN` as the end of the stream as soon as nothing is
    parked.  What a segment leaves parked is read off the state before it
    (`wholeOrParked_iff`), and from there:

    * `Receives.segment` — whatever segments of a stream arrive, the receiver
      holds nothing but that stream;
    * `ended_exactly_iff` — the stream ends exactly when it should iff no
      segment after a `FIN` leaves the map empty before the last byte: a bare
      `FIN` that overtakes data ends the stream early
      (`fin_overtakes_data`). -/

namespace SpongeStreamEnd

open SpongeByteStream SpongeReassembler SpongeReassembly SpongeWrapping SpongeSegment
open SpongeReceiver BlockMap ListSlice Word64 RunRule
open TCPReceiver

/-! ## Segments of one stream -/

/-- The segment is the slice of `S` at `i`, numbered from `isn`: a `SYN`
    stands before the first byte, a `FIN` after the last. -/
def GenuineAt (S : List Byte) (isn : WrappingInt32) (i : Nat) (seg : TCPSegment) : Prop :=
  seg.header.seqno = (if seg.header.syn then isn else wrap (i + 1) isn)
    ∧ (seg.header.syn = true → i = 0)
    ∧ i + seg.payload.length ≤ S.length
    ∧ seg.payload = (S.drop i).take seg.payload.length
    ∧ (seg.header.fin = true → i + seg.payload.length = S.length)

instance (S : List Byte) (isn : WrappingInt32) (i : Nat) (seg : TCPSegment) :
    Decidable (GenuineAt S isn i seg) :=
  inferInstanceAs (Decidable (_ ∧ _ ∧ _ ∧ _ ∧ _))

def Genuine (S : List Byte) (isn : WrappingInt32) : Event → Prop
  | .segment seg => ∃ i < S.length + 1, GenuineAt S isn i seg
  | .read _ => True
  | .pop _ => True

instance (S : List Byte) (isn : WrappingInt32) :
    ∀ e : Event, Decidable (Genuine S isn e)
  | .segment seg => inferInstanceAs (Decidable (∃ i < S.length + 1, GenuineAt S isn i seg))
  | .read _ => isTrue trivial
  | .pop _ => isTrue trivial

/-- The stream has ended exactly when the `SYN`, a `FIN` and all of `S` have
    come. -/
def EndExact (S : List Byte) (x : Reception) : Prop :=
  x.receiver.streamOut.inputEnded = true
    ↔ x.synSeen = true ∧ x.finSeen = true ∧ x.receiver.streamOut.bytesWritten = S.length

/-- Once the positions below `e` are written, the last of `n` positions is
    held, or something stays parked beyond a hole. -/
def LastHeldOrHole (n e : Nat) (m : Blocks Byte) : Prop :=
  e = n ∨ Covers m (n - 1) ∨ ∃ b ∈ m, ∃ h < b.1, e ≤ h ∧ ¬ Covers m h

instance (n e : Nat) (m : Blocks Byte) : Decidable (LastHeldOrHole n e m) :=
  inferInstanceAs (Decidable (_ ∨ _ ∨ ∃ b ∈ m, ∃ h < b.1, e ≤ h ∧ ¬ Covers m h))

/-- Something is parked after a substring beyond a hole: a block that the
    substring leaves alone, or the substring itself, which is dropped only
    when the memory is full or its merged block starts right at the edge. -/
def StaysParked (r : StreamReassembler) (data : List Byte) (index : Nat) : Prop :=
  (∃ b ∈ r.unassembledSegments,
      b.1 + b.2.length ≤ index ∨ index + data.length ≤ b.1
        ∨ (b.1 ≤ index ∧ index + data.length ≤ b.1 + b.2.length
          ∧ (b.1 = index → data.length < b.2.length)))
    ∨ (r.output.buffer.length < r.capacity.toNat
      ∧ mergedStart r.unassembledSegments index
        ≠ r.output.bytesRead + r.capacity.toNat)

instance (r : StreamReassembler) (data : List Byte) (index : Nat) :
    Decidable (StaysParked r data index) :=
  inferInstanceAs (Decidable ((∃ b ∈ r.unassembledSegments, _ ∨ _ ∨ _) ∨ _ ∧ _))

/-- A substring of a string of `n` bytes, seen from the reassembler before it:
    the whole string is written after it, or something is parked. -/
def WholeOrParked (n : Nat) (r : StreamReassembler) (data : List Byte) (index : Nat) :
    Prop :=
  if index + data.length ≤ r.firstUnassembled ∨ data = [] then
    r.unassembledSegments ≠ [] ∨ r.firstUnassembled = n
  else if index ≤ r.firstUnassembled then
    LastHeldOrHole n
      (r.firstUnassembled + min (index + data.length - r.firstUnassembled) r.room)
      r.unassembledSegments
  else StaysParked r data index

instance (n : Nat) (r : StreamReassembler) (data : List Byte) (index : Nat) :
    Decidable (WholeOrParked n r data index) :=
  inferInstanceAs (Decidable (ite _ _ (ite _ _ _)))

/-- Once a `FIN` has come, every segment leaves the string whole or something
    parked. -/
def NoEarlyEnd (S : List Byte) (x : Reception) : Event → Prop
  | .segment seg =>
      (x.synSeen || seg.header.syn) = true → (x.finSeen || seg.header.fin) = true →
      WholeOrParked S.length x.receiver.reassembler seg.payload
        ((x.receiver.noteSyn seg.header).payloadIndex seg.header)
  | .read _ => True
  | .pop _ => True

instance (S : List Byte) (x : Reception) : ∀ e : Event, Decidable (NoEarlyEnd S x e)
  | .segment seg =>
      inferInstanceAs (Decidable ((x.synSeen || seg.header.syn) = true →
        (x.finSeen || seg.header.fin) = true → WholeOrParked _ _ _ _))
  | .read _ => isTrue trivial
  | .pop _ => isTrue trivial

/-! ## What a substring leaves behind -/

section Outcome

variable {S popped data : List Byte} {r r' : StreamReassembler} {index : Nat}

/-- The in-order outcome. -/
theorem lastHeldOrHole_iff (hw : r.WellFormed) (hw' : r'.WellFormed)
    (h' : Holds S popped r') {w : Nat} (hpos : 0 < S.length)
    (first : r'.firstUnassembled
      = r.firstUnassembled + w
        + (absorb (r.firstUnassembled + w)
            (trimFront (r.firstUnassembled + w) r.unassembledSegments)).1.length)
    (segments : r'.unassembledSegments
      = (absorb (r.firstUnassembled + w)
          (trimFront (r.firstUnassembled + w) r.unassembledSegments)).2) :
    LastHeldOrHole S.length (r.firstUnassembled + w) r.unassembledSegments
      ↔ r'.unassembledSegments ≠ [] ∨ r'.firstUnassembled = S.length := by
  have hheld := held_inOrder hw first segments
  have hinside := h'.inside
  constructor
  · intro hlast
    by_contra hno
    push Not at hno
    obtain ⟨hnil, hshort⟩ := hno
    -- with nothing parked, what is held is what is written
    have hwritten : ∀ k, (k < r.firstUnassembled + w
        ∨ Covers r.unassembledSegments k) → k < r'.firstUnassembled := by
      intro k hk
      rcases (hheld k).mpr hk with hlt | hcov
      · exact hlt
      · rw [hnil] at hcov
        exact absurd hcov (covers_nil k)
    rcases hlast with heq | hcov | ⟨b, hb, h, hlt, hle, hnot⟩
    · have := hwritten (S.length - 1) (Or.inl (by omega))
      omega
    · have := hwritten (S.length - 1) (Or.inr hcov)
      omega
    · have hblen := hw.packed.length_pos hb
      have hb1 := hwritten b.1 (Or.inr ⟨b, hb, Nat.le_refl _, by omega⟩)
      rcases (hheld h).mp (Or.inl (by omega)) with hk | hk
      · omega
      · exact hnot hk
  · rintro (hne | hfull)
    · -- the first parked block lies beyond the hole at the next index
      obtain ⟨b, hb⟩ := List.exists_mem_of_ne_nil _ hne
      have hblo := (hw'.packed.mem hb).1
      have hblen := hw'.packed.length_pos hb
      have hhole : ¬ Covers r.unassembledSegments r'.firstUnassembled := by
        intro hcov
        rcases (hheld _).mpr (Or.inr hcov) with hlt | hcov'
        · exact absurd hlt (Nat.lt_irrefl _)
        · have := hw'.packed.le_of_covers hcov'
          omega
      have hold : Covers r.unassembledSegments b.1 := by
        rcases (hheld b.1).mp (Or.inr ⟨b, hb, Nat.le_refl _, by omega⟩) with hlt | hcov
        · omega
        · exact hcov
      obtain ⟨c, hc, hc1, hc2⟩ := hold
      refine Or.inr (Or.inr ⟨c, hc, r'.firstUnassembled, ?_, by omega, hhole⟩)
      by_contra hle
      exact hhole ⟨c, hc, by omega, by omega⟩
    · rcases (hheld (S.length - 1)).mp (Or.inl (by omega)) with hlt | hcov
      · exact Or.inl (by omega)
      · exact Or.inr (Or.inl hcov)

/-- A substring cut to nothing: the memory is full, or its block starts right
    at the edge. -/
theorem keptLen_pos_iff (hw : r.WellFormed) {start len : Nat} (hlen : 0 < len)
    (hlo : r.firstUnassembled < start) (h64 : start < 2 ^ 64) :
    0 < ({ r with unassembledSegments := [] } : StreamReassembler).keptLen len start
      ↔ r.output.buffer.length < r.capacity.toNat
        ∧ start ≠ r.output.bytesRead + r.capacity.toNat := by
  have hb := hw.bounded
  have hacc := r.output.accounted
  have hwr := hw.written
  have hcap := r.capacity.toNat_lt
  have hspace := StreamReassembler.space_eq (r := { r with unassembledSegments := [] })
    (by show _ + 0 ≤ _; dsimp only; omega)
  have hroom : ({ r with unassembledSegments := [] } : StreamReassembler).room
      = r.capacity.toNat - r.output.buffer.length := rfl
  rw [StreamReassembler.keptLen, hspace, hroom, sub64_mod]
  dsimp only
  by_cases hle : start ≤ r.output.bytesRead + r.capacity.toNat
  · rw [sub64_of_le hle (by omega)]
    omega
  · rw [sub64_of_lt (by omega) (by omega)]
    omega

/-- The outcome beyond a hole. -/
theorem staysParked_iff (hw : r.WellFormed) {before after : Blocks Byte} {start : Nat}
    {merged : List Byte} (hdata : data ≠ []) (h64 : index < 2 ^ 64)
    (hm : Merged (r.firstUnassembled + 1) r.unassembledSegments index data
      before after start merged)
    (segments : r'.unassembledSegments
      = before
        ++ keep start (merged.take
            ({ r with unassembledSegments := before ++ after }.keptLen
              merged.length start))
        ++ after) :
    StaysParked r data index ↔ r'.unassembledSegments ≠ [] := by
  have hmne : merged ≠ [] := (packed_append.mp hm.packed).2.2.1
  have hmpos : 0 < merged.length := List.length_pos_iff.mpr hmne
  have hpos : 0 < data.length := List.length_pos_iff.mpr hdata
  have hstart := hm.start_eq hw.packed hdata
  have hlo := (packed_append.mp hm.packed).2.1
  have hlo' := (packed_append.mp hm.packed).1.le_endOf
  have hc := hm.contains.1
  by_cases hrest : before ++ after = []
  · obtain ⟨hb, ha⟩ := List.append_eq_nil_iff.mp hrest
    rw [hrest] at segments
    rw [hb, ha, List.append_nil, List.nil_append] at segments
    have hkept : r'.unassembledSegments ≠ [] ↔ 0 < ({ r with unassembledSegments := [] } :
        StreamReassembler).keptLen merged.length start := by
      rw [segments, Ne, keep_eq_nil_iff, List.take_eq_nil_iff, or_iff_left hmne]
      exact Nat.pos_iff_ne_zero.symm
    rw [hkept, keptLen_pos_iff hw hmpos (by omega) (by omega), StaysParked, ← hstart]
    refine ⟨fun h => h.resolve_left ?_, Or.inr⟩
    -- every block was taken out, so every block overlaps the substring
    rintro ⟨b, hb, hwhere⟩
    have hout : b ∉ before ++ after := by rw [hrest]; exact List.not_mem_nil
    have hov := hm.erased b hb hout
    have hun := hm.uncovered b hb
    omega
  · obtain ⟨b, hb⟩ := List.exists_mem_of_ne_nil _ hrest
    refine ⟨fun _ hnil => ?_, fun _ => ?_⟩
    · rw [segments] at hnil
      obtain ⟨hbk, ha⟩ := List.append_eq_nil_iff.mp hnil
      obtain ⟨hbe, -⟩ := List.append_eq_nil_iff.mp hbk
      exact hrest (by rw [hbe, ha]; rfl)
    · refine Or.inl ⟨b, hm.kept.subset hb, ?_⟩
      rcases hm.apart b hb with h | h
      · exact Or.inl h
      · exact Or.inr (Or.inl h)

/-- **WHAT A SUBSTRING LEAVES BEHIND**, read off the reassembler before it. -/
theorem wholeOrParked_iff (hw : r.WellFormed) (h : Holds S popped r)
    (hdata : SliceAt S index data) (h64 : S.length < 2 ^ 64) (eof : Bool) :
    WholeOrParked S.length r data index
      ↔ (r.pushSubstring data index eof).unassembledSegments ≠ []
        ∨ (r.pushSubstring data index eof).firstUnassembled = S.length := by
  obtain ⟨hp, -, -⟩ := StreamReassembler.pushed hw data index eof
  have hw' := hw.push data index eof
  have h' : Holds S popped (r.pushSubstring data index eof) := Holds.push hw h hdata
  rw [WholeOrParked]
  cases hp with
  | stale hstale same => rw [if_pos hstale, same.segments, same.firstUnassembled]
  | inOrder w hle hlt hwr buffer first segments =>
      have hne : data ≠ [] := by
        rintro rfl
        rw [List.length_nil] at hlt
        omega
      have hend := hdata.end_le hne
      rw [if_neg (by rintro (h | h); · omega
                     · exact hne h), if_pos hle, ← hwr]
      exact lastHeldOrHole_iff hw hw' h' (by omega) first segments
  | covered b hgt hne hb hb1 hb2 hb3 same =>
      have hpos : 0 < data.length := List.length_pos_iff.mpr hne
      rw [if_neg (by rintro (h | h); · omega
                     · exact hne h), if_neg (by omega), same.segments]
      refine ⟨fun _ => Or.inl (List.ne_nil_of_mem hb), fun _ => ?_⟩
      exact Or.inl ⟨b, hb, Or.inr (Or.inr ⟨hb1, hb2, hb3⟩)⟩
  | inserted before after start merged hgt hne hm buffer first segments =>
      have hpos : 0 < data.length := List.length_pos_iff.mpr hne
      have hend := hdata.end_le hne
      rw [if_neg (by rintro (h | h); · omega
                     · exact hne h), if_neg (by omega),
        staysParked_iff hw hne (by omega) hm segments]
      refine ⟨Or.inl, fun h => h.resolve_right ?_⟩
      rw [first]
      omega

end Outcome

/-! ## A segment of the stream -/

/-- Near the next index a genuine sequence number gives its stream index. -/
theorem payloadIndex_eq {r : TCPReceiver} {header : TCPHeader} {i : Nat}
    (hseq : header.seqno = if header.syn then r.isn else wrap (i + 1) r.isn)
    (hsyn : header.syn = true → i = 0) (hi : i < 2 ^ 31)
    (hf : r.reassembler.firstUnassembled < 2 ^ 31) :
    r.payloadIndex header = i := by
  have hback : header.seqno.sub (if header.syn then 0 else 1) = wrap i r.isn := by
    cases hs : header.syn with
    | true =>
        rw [hs, if_pos rfl] at hseq
        rw [if_pos rfl, hsyn hs, wrap_zero, hseq, sub_zero]
    | false =>
        rw [hs, if_neg Bool.false_ne_true] at hseq
        rw [if_neg Bool.false_ne_true, hseq, wrap_succ_sub_one]
  rw [payloadIndex, hback]
  exact unwrap_wrap_near (by omega) (by omega) (by omega) (by omega)

/-- The receiver holds nothing but `S`: its reassembler does, its initial
    sequence number is the stream's, and an end-of-stream index is the length
    of `S`. -/
structure Receives (S : List Byte) (isn : WrappingInt32) (popped : List Byte)
    (r : TCPReceiver) : Prop where
  holds : Holds S popped r.reassembler
  isn : r.syn = true → r.isn = isn
  eofIndex : r.reassembler.eofIndex = 2 ^ 64 - 1
    ∨ (r.fin = true ∧ r.reassembler.eofIndex = S.length)

theorem receives_new (S : List Byte) (isn : WrappingInt32) (capacity : UInt64) :
    Receives S isn [] (TCPReceiver.new capacity) :=
  ⟨holds_new S capacity, (fun h => nomatch h), Or.inl rfl⟩

/-- The string may grow as long as no `FIN` has come. -/
theorem Receives.mono {S T : List Byte} {isn : WrappingInt32} {popped : List Byte}
    {r : TCPReceiver} (h : Receives S isn popped r) (hST : S <+: T)
    (hfin : r.fin = true → T = S) : Receives T isn popped r where
  holds := h.holds.mono hST
  isn := h.isn
  eofIndex := h.eofIndex.imp_right fun he => ⟨he.1, by rw [hfin he.1]; exact he.2⟩

theorem Receives.read {S : List Byte} {isn : WrappingInt32} {popped : List Byte}
    {r : TCPReceiver} (h : Receives S isn popped r) (len : Nat) :
    Receives S isn (popped ++ (r.streamOut.read len).1) (r.readOut len) :=
  ⟨h.holds.read len, h.isn, h.eofIndex⟩

theorem Receives.setError {S : List Byte} {isn : WrappingInt32} {popped : List Byte}
    {r : TCPReceiver} (h : Receives S isn popped r) : Receives S isn popped r.setError :=
  ⟨⟨h.holds.assembled, h.holds.inside, h.holds.slices⟩, h.isn, h.eofIndex⟩

/-- What a segment brings is part of the stream: a `SYN` its initial sequence
    number, a payload a slice, and a `FIN` on a payload the last slice. -/
structure Brings (S : List Byte) (isn : WrappingInt32) (seg : TCPSegment) : Prop where
  syn : seg.header.syn = true → seg.header.seqno = isn
  payload : seg.payload ≠ [] → ∃ i, GenuineAt S isn i seg

theorem GenuineAt.brings {S : List Byte} {isn : WrappingInt32} {i : Nat}
    {seg : TCPSegment} (h : GenuineAt S isn i seg) : Brings S isn seg where
  syn := by
    intro hs
    rw [h.1, hs]
    exact if_pos rfl
  payload := fun _ => ⟨i, h⟩

section Landing

variable {S popped : List Byte} {isn : WrappingInt32} {r : TCPReceiver}
  {seg : TCPSegment}

/-- After the `SYN` check the initial sequence number is the stream's. -/
theorem Receives.noteSyn_isn (h : Receives S isn popped r) (hb : Brings S isn seg)
    (hpast : r.syn = true ∨ seg.header.syn = true) :
    (r.noteSyn seg.header).isn = isn := by
  cases hr : r.syn with
  | true => rw [r.noteSyn_of_syn _ hr]; exact h.isn hr
  | false =>
      rw [r.noteSyn_of_not_syn _ hr]
      exact hb.syn (hpast.resolve_left (by rw [hr]; exact Bool.false_ne_true))

/-- The payload of a segment of the stream lands at its place. -/
theorem landed_eq (hS : S.length < 2 ^ 31) (h : Receives S isn popped r)
    (hb : Brings S isn seg) (hpast : r.syn = true ∨ seg.header.syn = true) :
    (seg.payload = [] ∧ r.landed seg = r.reassembler)
      ∨ ∃ i, GenuineAt S isn i seg
        ∧ (r.noteSyn seg.header).payloadIndex seg.header = i
        ∧ r.landed seg
          = r.reassembler.pushSubstring seg.payload i seg.header.fin := by
  have hisn := h.noteSyn_isn hb hpast
  rcases (r.noteSyn seg.header).storePayload_cases seg
    with ⟨hkeep, hwhy⟩ | ⟨hne, -, hpush⟩
  · -- the guard on the initial sequence number never drops a genuine payload
    refine Or.inl ⟨?_, by rw [landed, hkeep, noteSyn_reassembler]⟩
    by_contra hne
    obtain ⟨hs, hq⟩ := hwhy.resolve_left hne
    obtain ⟨i, hseq, -, hlen, -⟩ := hb.payload hne
    rw [hs, if_neg Bool.false_ne_true] at hseq
    rw [hseq, hisn] at hq
    have hmod := wrap_eq_iff.mp (hq.trans (wrap_zero isn).symm)
    omega
  · obtain ⟨i, hgen⟩ := hb.payload hne
    have hinside := h.holds.inside
    obtain ⟨hseq, hsyn, hlen, -⟩ := id hgen
    have hindex : (r.noteSyn seg.header).payloadIndex seg.header = i := by
      refine payloadIndex_eq (by rw [hisn]; exact hseq) hsyn (by omega) ?_
      rw [noteSyn_reassembler]
      omega
    refine Or.inr ⟨i, hgen, hindex, ?_⟩
    rw [landed, hpush, hindex]
    show (r.noteSyn seg.header).reassembler.pushSubstring _ _ _ = _
    rw [noteSyn_reassembler]

/-- What is known once the payload has landed. -/
structure Landed (S popped : List Byte) (r : TCPReceiver) (seg : TCPSegment) : Prop where
  wellFormed : (r.landed seg).WellFormed
  holds : Holds S popped (r.landed seg)
  outcome : WholeOrParked S.length r.reassembler seg.payload
      ((r.noteSyn seg.header).payloadIndex seg.header)
    ↔ (r.landed seg).unassembledSegments ≠ []
      ∨ (r.landed seg).firstUnassembled = S.length
  eofIndex : (r.landed seg).eofIndex = 2 ^ 64 - 1
    ∨ ((seg.header.fin || r.fin) = true ∧ (r.landed seg).eofIndex = S.length)
  ended : (r.landed seg).output.inputEnded = true →
    r.reassembler.output.inputEnded = true
      ∨ (seg.header.fin || r.fin) = true
        ∧ (r.landed seg).firstUnassembled = S.length
  mono : r.reassembler.firstUnassembled ≤ (r.landed seg).firstUnassembled

theorem landed_spec (hS : S.length < 2 ^ 31) (h : Receives S isn popped r)
    (hb : Brings S isn seg) (hpast : r.syn = true ∨ seg.header.syn = true) :
    Landed S popped r seg := by
  have hw := r.wellFormed
  have hor : ∀ {q : StreamReassembler}, r.fin = true ∧ q.eofIndex = S.length →
      (seg.header.fin || r.fin) = true ∧ q.eofIndex = S.length :=
    fun he => ⟨by rw [he.1, Bool.or_true], he.2⟩
  rcases landed_eq hS h hb hpast with ⟨hnil, hkeep⟩ | ⟨i, hgen, hindex, hpush⟩
  · refine ⟨?_, ?_, ?_, ?_, ?_, ?_⟩ <;> rw [hkeep]
    · exact hw
    · exact h.holds
    · rw [WholeOrParked, if_pos (Or.inr hnil)]
    · exact h.eofIndex.imp_right hor
    · exact Or.inl
  · obtain ⟨-, -, hlen, hdata, hfin⟩ := hgen
    have hslice : SliceAt S i seg.payload := by
      rw [hdata]
      exact sliceAt_take_drop S i seg.payload.length
    obtain ⟨-, -, hend⟩ :=
      StreamReassembler.pushed hw seg.payload i seg.header.fin
    have hholds : Holds S popped (r.reassembler.pushSubstring seg.payload i seg.header.fin) :=
      Holds.push hw h.holds hslice
    have hmono := StreamReassembler.firstUnassembled_le_push hw seg.payload i
      seg.header.fin
    rw [← hpush] at hholds hend hmono
    have heof : (r.landed seg).eofIndex = 2 ^ 64 - 1
        ∨ ((seg.header.fin || r.fin) = true ∧ (r.landed seg).eofIndex = S.length) := by
      rw [hend.eofIndex]
      cases hf : seg.header.fin with
      | true =>
          rw [if_pos rfl, hfin hf, Nat.mod_eq_of_lt (by omega)]
          exact Or.inr ⟨Bool.true_or _, rfl⟩
      | false =>
          rw [if_neg Bool.false_ne_true, Bool.false_or]
          exact h.eofIndex
    refine ⟨?_, hholds, ?_, heof, ?_, hmono⟩
    · rw [hpush]; exact hw.push _ _ _
    · rw [hindex, hpush]
      exact wholeOrParked_iff hw h.holds hslice (by omega) _
    · intro he
      refine (hend.ended_new he).imp_right fun hreach => ?_
      have hinside := hholds.inside
      rcases heof with hmax | ⟨hf, hn⟩
      · omega
      · exact ⟨hf, by omega⟩

/-- **A SEGMENT OF THE STREAM** leaves the receiver with nothing but the
    stream. -/
theorem Receives.segment (hS : S.length < 2 ^ 31) (h : Receives S isn popped r)
    (hb : Brings S isn seg) : Receives S isn popped (r.segmentReceived seg) := by
  by_cases hpast : r.syn = true ∨ seg.header.syn = true
  · have hr := received hpast
    have hl := landed_spec hS h hb hpast
    refine ⟨hl.holds.congr hr.same, fun _ => ?_, ?_⟩
    · rw [hr.isn]
      exact h.noteSyn_isn hb hpast
    · have heof : (r.segmentReceived seg).reassembler.eofIndex
          = (r.landed seg).eofIndex := by
        rw [hr.reassembler]
        split_ifs <;> rfl
      rw [heof, hr.fin]
      exact hl.eofIndex
  · rw [segmentReceived_before hpast]
    exact h

/-- The stream ends only with a `FIN` seen and all of `S` written. -/
def EndsWhole (S : List Byte) (r : TCPReceiver) : Prop :=
  r.streamOut.inputEnded = true →
    r.fin = true ∧ r.reassembler.firstUnassembled = S.length

/-- A segment that leaves the string whole or something parked does not end
    the stream early. -/
theorem EndsWhole.segment (hS : S.length < 2 ^ 31) (h : Receives S isn popped r)
    (hb : Brings S isn seg) (hpast : r.syn = true ∨ seg.header.syn = true)
    (hend : EndsWhole S r)
    (hwhole : (seg.header.fin || r.fin) = true →
      WholeOrParked S.length r.reassembler seg.payload
        ((r.noteSyn seg.header).payloadIndex seg.header)) :
    EndsWhole S (r.segmentReceived seg) := by
  have hr := received hpast
  have hl := landed_spec hS h hb hpast
  have hre := hr.reassembler
  intro hended
  rw [hr.fin, hr.same.firstUnassembled]
  by_cases hc : (seg.header.fin || r.fin) = true
      ∧ (r.landed seg).unassembledSegments = []
  · -- the map is empty, so the string must be whole
    refine ⟨hc.1, ?_⟩
    exact (hl.outcome.mp (hwhole hc.1)).resolve_left fun hne => hne hc.2
  · rw [if_neg hc] at hre
    have hend' : (r.landed seg).output.inputEnded = true := by
      rw [← hre]; exact hended
    rcases hl.ended hend' with hbefore | hnow
    · obtain ⟨hf, hn⟩ := hend hbefore
      have hmono := hl.mono
      have hinside := hl.holds.inside
      exact ⟨by rw [hf, Bool.or_true], by omega⟩
    · exact hnow

/-- With a `FIN` seen and all of `S` written the stream does end. -/
theorem ended_of_whole (hS : S.length < 2 ^ 31) (h : Receives S isn popped r)
    (hb : Brings S isn seg) (hpast : r.syn = true ∨ seg.header.syn = true)
    (hf : (r.segmentReceived seg).fin = true)
    (hn : (r.segmentReceived seg).reassembler.firstUnassembled = S.length) :
    (r.segmentReceived seg).streamOut.inputEnded = true := by
  have hr := received hpast
  have hl := landed_spec hS h hb hpast
  have hre := hr.reassembler
  rw [hr.fin] at hf
  rw [hr.same.firstUnassembled] at hn
  rw [if_pos ⟨hf, hl.holds.nil_of_whole hl.wellFormed hn⟩] at hre
  show (r.segmentReceived seg).reassembler.output.inputEnded = true
  rw [hre]
  rfl

/-- A segment after a `FIN` that empties the map before the last byte ends
    the stream early. -/
theorem ended_early (hS : S.length < 2 ^ 31) (h : Receives S isn popped r)
    (hb : Brings S isn seg) (hpast : r.syn = true ∨ seg.header.syn = true)
    (hf : (seg.header.fin || r.fin) = true)
    (hbad : ¬ WholeOrParked S.length r.reassembler seg.payload
      ((r.noteSyn seg.header).payloadIndex seg.header)) :
    (r.segmentReceived seg).streamOut.inputEnded = true
      ∧ (r.segmentReceived seg).reassembler.firstUnassembled ≠ S.length := by
  have hr := received hpast
  have hl := landed_spec hS h hb hpast
  rw [hl.outcome] at hbad
  push Not at hbad
  have hre := hr.reassembler
  rw [if_pos ⟨hf, hbad.1⟩] at hre
  constructor
  · show (r.segmentReceived seg).reassembler.output.inputEnded = true
    rw [hre]
    rfl
  · rw [hr.same.firstUnassembled]
    exact hbad.2

end Landing

/-! ## Runs of genuine segments -/

section Genuine

variable {S : List Byte} {isn : WrappingInt32} {x y : Reception} {e : Event}

/-- What a genuine run keeps true: the receiver holds nothing but `S`, its
    flags are the history's, and the stream ends exactly when it should. -/
structure Exact (S : List Byte) (isn : WrappingInt32) (x : Reception) : Prop where
  receives : Receives S isn x.popped x.receiver
  syn : x.receiver.syn = x.synSeen
  fin : x.receiver.fin = x.finSeen
  exact : EndExact S x

/-- The history's flags after a segment past the `SYN` check are the
    receiver's. -/
theorem Exact.flags {seg : TCPSegment} (h : Exact S isn x)
    (hpast : x.receiver.syn = true ∨ seg.header.syn = true)
    (hstep : feed x (.segment seg) = some y) :
    y.receiver = x.receiver.segmentReceived seg ∧ y.popped = x.popped
      ∧ y.synSeen = true ∧ y.finSeen = (seg.header.fin || x.receiver.fin) := by
  rw [← Option.some.inj hstep]
  have hsyn : (x.synSeen || seg.header.syn) = true := by
    rw [← h.syn]
    exact Bool.or_eq_true_iff.mpr hpast
  refine ⟨rfl, rfl, hsyn, ?_⟩
  show (x.finSeen || ((x.synSeen || seg.header.syn) && seg.header.fin)) = _
  rw [hsyn, Bool.true_and, h.fin, Bool.or_comm]

/-- A segment before the `SYN` changes nothing. -/
theorem Exact.ignored {seg : TCPSegment} (h : Exact S isn x)
    (hr : x.receiver.syn = false) (hs : seg.header.syn = false)
    (hstep : feed x (.segment seg) = some y) : y = x := by
  have hx : x.synSeen = false := h.syn.symm.trans hr
  rw [← Option.some.inj hstep, hx, hs, segmentReceived_ignored hr hs, Bool.or_false,
    Bool.false_and, Bool.or_false]
  cases x
  cases hx
  rfl

/-- A step that leaves the string whole or something parked keeps the end
    exact. -/
theorem Exact.kept (hS : S.length < 2 ^ 31) (h : Exact S isn x)
    (hgen : Genuine S isn e) (hno : NoEarlyEnd S x e) (hstep : feed x e = some y) :
    Exact S isn y := by
  cases e with
  | read len =>
      rw [← Option.some.inj hstep]
      exact ⟨h.receives.read len, h.syn, h.fin, h.exact⟩
  | pop len =>
      rw [← Option.some.inj hstep]
      exact ⟨⟨h.receives.holds.pop len, h.receives.isn, h.receives.eofIndex⟩,
        h.syn, h.fin, h.exact⟩
  | segment seg =>
      by_cases hpast : x.receiver.syn = true ∨ seg.header.syn = true
      · obtain ⟨i, -, hgen⟩ := hgen
        have hb := hgen.brings
        obtain ⟨hrec, hpop, hsyn, hfin⟩ := h.flags hpast hstep
        have hr := received hpast
        have hwhole : EndsWhole S x.receiver := by
          intro hended
          obtain ⟨-, hf, hn⟩ := h.exact.mp hended
          exact ⟨h.fin.trans hf, x.receiver.wellFormed.written.symm.trans hn⟩
        have hwhole' := EndsWhole.segment hS h.receives hb hpast hwhole (by
          intro hf
          refine hno ?_ ?_
          · rw [← h.syn]; exact Bool.or_eq_true_iff.mpr hpast
          · rw [← h.fin, Bool.or_comm]; exact hf)
        refine ⟨?_, ?_, ?_, ?_⟩
        · rw [hrec, hpop]; exact h.receives.segment hS hb
        · rw [hrec, hr.syn, hsyn]
        · rw [hrec, hr.fin, hfin]
        · rw [EndExact, hrec, hsyn, hfin, ← hr.fin]
          have hwr := (x.receiver.segmentReceived seg).wellFormed.written
          constructor
          · intro hended
            exact ⟨rfl, (hwhole' hended).1, hwr.trans (hwhole' hended).2⟩
          · rintro ⟨-, hf, hn⟩
            exact ended_of_whole hS h.receives hb hpast hf (hwr.symm.trans hn)
      · push Not at hpast
        rw [h.ignored (Bool.eq_false_iff.mpr hpast.1) (Bool.eq_false_iff.mpr hpast.2)
          hstep]
        exact h

/-- A step after a `FIN` that empties the map before the last byte does
    not. -/
theorem Exact.lost (hS : S.length < 2 ^ 31) (h : Exact S isn x)
    (hgen : Genuine S isn e) (hno : ¬ NoEarlyEnd S x e) (hstep : feed x e = some y) :
    ¬ EndExact S y := by
  cases e with
  | read len => exact absurd trivial hno
  | pop len => exact absurd trivial hno
  | segment seg =>
      rw [NoEarlyEnd] at hno
      push Not at hno
      obtain ⟨hsyn, hf, hbad⟩ := hno
      have hpast : x.receiver.syn = true ∨ seg.header.syn = true := by
        rw [h.syn]; exact Bool.or_eq_true_iff.mp hsyn
      obtain ⟨i, -, hgen⟩ := hgen
      obtain ⟨hrec, -, -, -⟩ := h.flags hpast hstep
      rw [← h.fin, Bool.or_comm] at hf
      obtain ⟨hended, hshort⟩ := ended_early hS h.receives hgen.brings hpast hf hbad
      intro hexact
      rw [EndExact, hrec] at hexact
      exact hshort ((x.receiver.segmentReceived seg).wellFormed.written.symm.trans
        (hexact.mp hended).2.2)

/-- **FIN, EXACTLY**: over a run of genuine segments the stream always ends
    exactly when the `SYN`, a `FIN` and the whole string have come, iff every
    segment from the `FIN` on leaves the string whole or something parked. -/
theorem ended_exactly_iff (S : List Byte) (hS : S.length < 2 ^ 31) (isn : WrappingInt32)
    (capacity : UInt64) (events : List Event)
    (hev : Along feed (fun _ e => Genuine S isn e) (fresh capacity) events) :
    Throughout feed (EndExact S) (fresh capacity) events
      ↔ Along feed (NoEarlyEnd S) (fresh capacity) events := by
  refine throughout_iff_along (I := Exact S isn) (fun _ h => h.exact) ?_ ?_ ?_
    events (fresh capacity) ?_ hev
  · intro x e _ _ _
    cases e <;> exact ⟨_, rfl⟩
  · intro x e y h hgen hno hstep
    exact h.kept hS hgen hno hstep
  · intro x e y h hgen hno hstep
    exact h.lost hS hgen hno hstep
  · exact ⟨receives_new S isn capacity, rfl, rfl, (fun h => nomatch h),
      (fun h => nomatch h.1)⟩

/-- `SYN`, then the second byte of `xy` with the `FIN`, then the first. -/
theorem ended_exactly_iff_reordered :
    Throughout feed (EndExact [120, 120]) (fresh 4)
      [.segment synAtZero,
       .segment { header := { seqno := ⟨2⟩, fin := true }, payload := [120] },
       .segment (oneByte 1)] :=
  (ended_exactly_iff [120, 120] (by decide) ⟨0⟩ 4 _ (by decide)).mpr (by decide)

/-- **A FIN OVERTAKES THE DATA**: `SYN`, then a bare `FIN` at the end of a
    string of one byte: the stream ends before the byte has come. -/
theorem fin_overtakes_data :
    ¬ ∀ (S : List Byte) (isn : WrappingInt32) (capacity : UInt64) (events : List Event),
      S.length < 2 ^ 31 →
      Along feed (fun _ e => Genuine S isn e) (fresh capacity) events →
      Throughout feed (EndExact S) (fresh capacity) events := by
  intro hall
  have hthr := hall [120] ⟨0⟩ 4
    [.segment synAtZero, .segment { header := { seqno := ⟨2⟩, fin := true } }]
    (by decide) (by decide)
  have hlast : EndExact [120] _ := (hthr.2 _ rfl).2 _ rfl
  exact absurd (hlast.mp rfl).2.2 (by decide)

end Genuine

end SpongeStreamEnd
