import Sponge.RunProofs
import Sponge.WordProofs
import Sponge.BlockMapProofs
import Sponge.ByteStreamProofs

/-! # The stream reassembler — `stream_reassembler`

    Substrings arrive in any order and with any overlap; the reassembler
    writes what is in order to its output stream and parks the rest in an
    ordered map from index to bytes.

    The model follows the source function by function: `mergeLoop` is the
    iterator loop of `insert_segment`, `assembleRound` one round of the
    `while (true)` of `push_substring`.  Positions and counters are naturals;
    the two subtractions of `truncate_data` that the source takes in `size_t`
    are `sub64`.

    What the code does is said once.  `mergeLoop_spec` says what the five
    overlap cases amount to, `assembled` what the assembly loop amounts to,
    and `pushed` puts them together into the four outcomes a push can have.
    Everything later in the development argues from `pushed` and never unfolds
    the code again. -/

namespace SpongeReassembler

open SpongeByteStream BlockMap ListSlice Word64 RunRule

/-- The reassembler: the output stream, the memory limit, the next index to
    write, the parked substrings and the index after the last byte. -/
structure StreamReassembler where
  output : ByteStream
  capacity : UInt64
  firstUnassembled : Nat
  unassembledSegments : Blocks Byte
  eofIndex : Nat
deriving DecidableEq, Repr

/-- The locals of `insert_segment` while it walks the map. -/
structure Merge where
  tmpData : List Byte
  tmpIndex : Nat
  tmpEnd : Nat
deriving DecidableEq, Repr

/-- The iterator loop of `insert_segment`: the entries that stay in the map,
    and the substring as it has grown. -/
def mergeLoop : Blocks Byte → Merge → Blocks Byte × Merge
  | [], t => ([], t)
  | (segStart, segData) :: rest, t =>
      let segEnd := segStart + segData.length - 1
      -- no overlap, segment before
      if segEnd < t.tmpIndex then
        let r := mergeLoop rest t
        ((segStart, segData) :: r.1, r.2)
      -- no overlap, segment after
      else if segStart > t.tmpEnd then ((segStart, segData) :: rest, t)
      -- new data completely covers segment
      else if t.tmpIndex ≤ segStart ∧ t.tmpEnd ≥ segEnd then mergeLoop rest t
      -- segment completely covers new data
      else if segStart ≤ t.tmpIndex ∧ segEnd ≥ t.tmpEnd then
        let r := mergeLoop rest { t with tmpData := [] }
        ((segStart, segData) :: r.1, r.2)
      -- partial overlap: new data starts before segment
      else if t.tmpIndex < segStart then
        let extraLen := segEnd - t.tmpEnd
        let tmpData :=
          if extraLen > 0 then t.tmpData ++ segData.drop (segData.length - extraLen)
          else t.tmpData
        mergeLoop rest ⟨tmpData, t.tmpIndex, t.tmpIndex + tmpData.length - 1⟩
      -- partial overlap: segment starts before new data
      else
        let tmpData := segData.take (t.tmpIndex - segStart) ++ t.tmpData
        mergeLoop rest ⟨tmpData, segStart, segStart + tmpData.length - 1⟩

namespace StreamReassembler

def new (capacity : UInt64) : StreamReassembler where
  output := ByteStream.new capacity
  capacity := capacity
  firstUnassembled := 0
  unassembledSegments := []
  eofIndex := 2 ^ 64 - 1

/-- The number of bytes stored but not yet reassembled. -/
def unassembledBytes (r : StreamReassembler) : Nat := total r.unassembledSegments

def empty (r : StreamReassembler) : Bool := r.unassembledSegments.isEmpty

/-- Cut `data` at the window's edge and at the space that is left. -/
def truncateData (r : StreamReassembler) (data : List Byte) (index : Nat) :
    List Byte :=
  let firstUnacceptable := (r.output.bytesRead + r.capacity.toNat) % 2 ^ 64
  let availableSpace :=
    sub64 (sub64 r.capacity.toNat r.output.bufferSize) r.unassembledBytes
  let maxLen := min data.length (sub64 firstUnacceptable index)
  let maxLen := min maxLen availableSpace
  data.take maxLen

/-- Park a substring, merging it with what it overlaps. -/
def insertSegment (r : StreamReassembler) (data : List Byte) (index : Nat) :
    StreamReassembler :=
  let m := mergeLoop r.unassembledSegments ⟨data, index, index + data.length - 1⟩
  let r := { r with unassembledSegments := m.1 }
  if m.2.tmpData.isEmpty then r
  else
    let truncated := r.truncateData m.2.tmpData m.2.tmpIndex
    if truncated.isEmpty then r
    else
      { r with
        unassembledSegments := insertNew m.2.tmpIndex truncated r.unassembledSegments }

/-- What `try_assemble` does with one entry of the map: an entry that starts
    below the next index is taken out, and its unread tail is parked again. -/
def trimEntry (r : StreamReassembler) (seg : Nat × List Byte) : StreamReassembler :=
  if seg.1 < r.firstUnassembled then
    let erased := { r with unassembledSegments := eraseKey seg.1 r.unassembledSegments }
    if seg.1 + seg.2.length > r.firstUnassembled then
      erased.insertSegment (seg.2.drop (r.firstUnassembled - seg.1)) r.firstUnassembled
    else erased
  else r

/-- `try_assemble`: the iterator visits the entries the map had on entry (a
    tail goes back in at `first_unassembled`, before the iterator). -/
def tryAssemble (r : StreamReassembler) : StreamReassembler :=
  r.unassembledSegments.foldl trimEntry r

/-- One round of the assembly loop of `push_substring`. -/
def assembleRound (r : StreamReassembler) : Bool × StreamReassembler :=
  let r := r.tryAssemble
  match r.unassembledSegments.lookup r.firstUnassembled with
  | none => (false, r)
  | some segData =>
      let written := r.output.write segData
      (true,
        { r with
          output := written.2
          firstUnassembled := r.firstUnassembled + written.1
          unassembledSegments := eraseKey r.firstUnassembled r.unassembledSegments })

/-- The in-order branch of `push_substring`.  Every round takes an entry out
    of the map, so the rounds are at most the entries and one more. -/
def writeInOrder (r : StreamReassembler) (data : List Byte) (index : Nat) :
    StreamReassembler :=
  let written := r.output.write (r.truncateData data index)
  whileTrue assembleRound (r.unassembledSegments.length + 1)
    { r with
      output := written.2
      firstUnassembled := r.firstUnassembled + written.1 }

/-- The storing part of `push_substring`, after the front was cut. -/
def storeSubstring (r : StreamReassembler) (writeData : List Byte)
    (adjustedIndex : Nat) : StreamReassembler :=
  if adjustedIndex = r.firstUnassembled then r.writeInOrder writeData adjustedIndex
  else if adjustedIndex > r.firstUnassembled then
    r.insertSegment writeData adjustedIndex
  else r

/-- `_output.end_input()` -/
def endOutput (r : StreamReassembler) : StreamReassembler :=
  { r with output := r.output.endInput }

/-- An `eof` substring fixes the index after the last byte. -/
def noteEof (r : StreamReassembler) (data : List Byte) (index : Nat) (eof : Bool) :
    StreamReassembler :=
  if eof then { r with eofIndex := (index + data.length) % 2 ^ 64 } else r

def pushSubstring (r : StreamReassembler) (data : List Byte) (index : Nat)
    (eof : Bool) : StreamReassembler :=
  let r := r.noteEof data index eof
  let startData :=
    if index < r.firstUnassembled then r.firstUnassembled - index else 0
  if startData ≥ data.length then
    if r.empty && r.firstUnassembled ≥ r.eofIndex then r.endOutput else r
  else
    let r := r.storeSubstring (data.drop startData) (index + startData)
    if r.empty && r.firstUnassembled == r.eofIndex then r.endOutput else r

/-- A read of `stream_out()`: copy and pop. -/
def readOut (r : StreamReassembler) (len : Nat) : StreamReassembler :=
  { r with output := (r.output.read len).2 }

/-- A `pop_output` of `stream_out()`. -/
def popOut (r : StreamReassembler) (len : Nat) : StreamReassembler :=
  { r with output := r.output.popOutput len }

end StreamReassembler

/-! ## What the merge loop amounts to -/

/-- The result of merging `data` at `index` into the blocks `m`: the blocks on
    either side that stay, and the merged block between them. -/
structure Merged (lo : Nat) (m : Blocks Byte) (index : Nat) (data : List Byte)
    (before after : Blocks Byte) (start : Nat) (merged : List Byte) : Prop where
  packed : Packed lo (before ++ (start, merged) :: after)
  kept : (before ++ after).Sublist m
  apart : ∀ b ∈ before ++ after,
    b.1 + b.2.length ≤ index ∨ index + data.length ≤ b.1
  erased : ∀ b ∈ m, b ∉ before ++ after →
    start ≤ b.1 ∧ b.1 + b.2.length ≤ start + merged.length
      ∧ b.1 < index + data.length ∧ index < b.1 + b.2.length
  starts : start = index ∨
    ∃ b ∈ m, b.1 = start ∧ b.1 < index ∧ index < b.1 + b.2.length
  contains : start ≤ index ∧ index + data.length ≤ start + merged.length
  covers : ∀ k, start ≤ k → k < start + merged.length →
    (index ≤ k ∧ k < index + data.length) ∨ Covers m k
  slices : ∀ S, SliceAt S index data → (∀ b ∈ m, SliceAt S b.1 b.2) →
    SliceAt S start merged
  untouched : (∀ b ∈ m, b.1 + b.2.length ≤ index ∨ index + data.length ≤ b.1) →
    before ++ after = m ∧ start = index ∧ merged = data
  uncovered : ∀ b ∈ m, b.1 ≤ index → index < b.1 + b.2.length →
    index + data.length ≤ b.1 + b.2.length → b.1 = index ∧ b.2.length = data.length

/-- Blocks that start beyond the substring stop the loop at once. -/
theorem mergeLoop_break {lo : Nat} {m : Blocks Byte} (h : Packed lo m)
    {t : Merge} (hle : t.tmpIndex ≤ lo) (hlt : t.tmpEnd < lo) :
    mergeLoop m t = (m, t) := by
  cases m with
  | nil => rfl
  | cons b rest =>
      obtain ⟨k, d⟩ := b
      obtain ⟨hk, hd, -⟩ := h
      have hpos : 0 < d.length := List.length_pos_iff.mpr hd
      rw [mergeLoop]
      dsimp only
      rw [if_neg (by omega), if_pos (by omega)]

variable {lo index : Nat} {rest before after : Blocks Byte} {k start : Nat}
  {d data merged : List Byte}

/-- What is said of the merged block can be said with one more block in the map. -/
theorem Merged.cons (h : Merged lo rest index data before after start merged)
    (b : Nat × List Byte) :
    (start = index ∨ ∃ c ∈ b :: rest, c.1 = start ∧ c.1 < index ∧ index < c.1 + c.2.length)
      ∧ (∀ x, start ≤ x → x < start + merged.length →
        (index ≤ x ∧ x < index + data.length) ∨ Covers (b :: rest) x)
      ∧ ∀ S, SliceAt S index data → (∀ c ∈ b :: rest, SliceAt S c.1 c.2) →
        SliceAt S start merged := by
  refine ⟨h.starts.imp_right ?_, ?_, ?_⟩
  · rintro ⟨c, hc, hstart⟩
    exact ⟨c, List.mem_cons_of_mem _ hc, hstart⟩
  · intro x hx hx'
    exact (h.covers x hx hx').imp_right fun hc => covers_cons.mpr (Or.inr hc)
  · intro S hS hall
    exact h.slices S hS fun c hc => hall c (List.mem_cons_of_mem _ hc)

/-- The block before the substring stays. -/
theorem Merged.skip (hlo : lo ≤ k) (hd : d ≠ []) (hend : k + d.length ≤ index)
    (h : Merged (k + d.length) rest index data before after start merged) :
    Merged lo ((k, d) :: rest) index data ((k, d) :: before) after start merged where
  packed := ⟨hlo, hd, h.packed⟩
  kept := h.kept.cons_cons (k, d)
  apart := by
    intro b hb
    rcases List.mem_cons.mp hb with heq | hmem
    · rw [heq]; exact Or.inl hend
    · exact h.apart b hmem
  erased := by
    intro b hb hnot
    rcases List.mem_cons.mp hb with heq | hmem
    · exact absurd (heq ▸ List.mem_cons_self ..) hnot
    · exact h.erased b hmem fun hin => hnot (List.mem_cons_of_mem _ hin)
  starts := (h.cons (k, d)).1
  contains := h.contains
  covers := (h.cons (k, d)).2.1
  slices := (h.cons (k, d)).2.2
  untouched := by
    intro hall
    obtain ⟨h1, h2⟩ := h.untouched fun b hb => hall b (List.mem_cons_of_mem _ hb)
    exact ⟨congrArg (List.cons (k, d)) h1, h2⟩
  uncovered := by
    intro b hb hb1 hb2 hb3
    rcases List.mem_cons.mp hb with heq | hmem
    · rw [heq] at hb2
      dsimp only at hb2
      omega
    · exact h.uncovered b hmem hb1 hb2 hb3

/-- The substring fits in front of all the blocks. -/
theorem Merged.insert {m : Blocks Byte} (hlo : lo ≤ index) (hdata : data ≠ [])
    (h : Packed (index + data.length) m) :
    Merged lo m index data [] m index data where
  packed := ⟨hlo, hdata, h⟩
  kept := List.Sublist.refl m
  apart := fun _ hb => Or.inr (h.mem hb).1
  erased := fun _ hb hnot => absurd hb hnot
  starts := Or.inl rfl
  contains := ⟨Nat.le_refl _, Nat.le_refl _⟩
  covers := fun _ hx hx' => Or.inl ⟨hx, hx'⟩
  slices := fun _ hS _ => hS
  untouched := fun _ => ⟨rfl, rfl, rfl⟩
  uncovered := by
    intro b hb hb1
    have hpos : 0 < data.length := List.length_pos_iff.mpr hdata
    have := (h.mem hb).1
    omega

/-- A block inside the substring is erased. -/
theorem Merged.swallow (hk : index ≤ k) (hd : d ≠ [])
    (hend : k + d.length ≤ index + data.length)
    (h : Merged lo rest index data before after start merged) :
    Merged lo ((k, d) :: rest) index data before after start merged where
  packed := h.packed
  kept := h.kept.cons (k, d)
  apart := h.apart
  erased := by
    intro b hb hnot
    have hpos : 0 < d.length := List.length_pos_iff.mpr hd
    have hc := h.contains
    rcases List.mem_cons.mp hb with heq | hmem
    · rw [heq]
      refine ⟨?_, ?_, ?_, ?_⟩ <;> dsimp only <;> omega
    · exact h.erased b hmem hnot
  starts := (h.cons (k, d)).1
  contains := h.contains
  covers := (h.cons (k, d)).2.1
  slices := (h.cons (k, d)).2.2
  untouched := by
    intro hall
    have hpos : 0 < d.length := List.length_pos_iff.mpr hd
    have := hall (k, d) (List.mem_cons_self ..)
    dsimp only at this
    omega
  uncovered := by
    intro b hb hb1 hb2 hb3
    rcases List.mem_cons.mp hb with heq | hmem
    · rw [heq] at hb1 hb3 ⊢
      dsimp only at hb1 hb3 ⊢
      omega
    · exact h.uncovered b hmem hb1 hb2 hb3

/-- A block that reaches past the substring lends it its tail; nothing after
    it can overlap. -/
theorem Merged.extendRight (hlo : lo ≤ index) (hdata : data ≠ [])
    (hk : index < k) (hk' : k < index + data.length)
    (hend : index + data.length < k + d.length)
    (hrest : Packed (k + d.length) rest) :
    Merged lo ((k, d) :: rest) index data [] rest index
      (data ++ d.drop (index + data.length - k)) := by
  have hlen : (data ++ d.drop (index + data.length - k)).length
      = k + d.length - index := by
    rw [List.length_append, List.length_drop]; omega
  refine ⟨⟨hlo, ?_, ?_⟩, ?_, ?_, ?_, Or.inl rfl, ?_, ?_, ?_, ?_, ?_⟩
  · intro hnil
    exact hdata (List.append_eq_nil_iff.mp hnil).1
  · rw [hlen, show index + (k + d.length - index) = k + d.length by omega]
    exact hrest
  · exact List.sublist_cons_self (k, d) rest
  · intro b hb
    have := (hrest.mem hb).1
    exact Or.inr (by omega)
  · intro b hb hnot
    rcases List.mem_cons.mp hb with heq | hmem
    · rw [heq, hlen]
      refine ⟨?_, ?_, ?_, ?_⟩ <;> dsimp only <;> omega
    · exact absurd hmem hnot
  · rw [hlen]; omega
  · intro x hx hx'
    rw [hlen] at hx'
    by_cases hin : x < index + data.length
    · exact Or.inl ⟨hx, hin⟩
    · refine Or.inr (covers_cons.mpr (Or.inl ?_))
      show k ≤ x ∧ x < k + d.length
      omega
  · intro S hS hall
    exact hS.glueRight (hall (k, d) (List.mem_cons_self ..)) (by omega)
  · intro hall
    have := hall (k, d) (List.mem_cons_self ..)
    dsimp only at this
    omega
  · intro b hb hb1
    rcases List.mem_cons.mp hb with heq | hmem
    · rw [heq] at hb1
      dsimp only at hb1
      omega
    · have := (hrest.mem hmem).1
      omega

/-- A block that starts before the substring lends it its front. -/
theorem Merged.extendLeft (hlo : lo ≤ k) (hk : k < index)
    (hk' : index < k + d.length) (hend : k + d.length < index + data.length)
    (hrest : Packed (k + d.length) rest)
    (h : Merged k rest k (d.take (index - k) ++ data) before after start merged) :
    Merged lo ((k, d) :: rest) index data before after start merged := by
  have hlen : (d.take (index - k) ++ data).length = index + data.length - k := by
    rw [List.length_append, List.length_take]; omega
  have hc := h.contains
  rw [hlen] at hc
  have hbeyond : ∀ b ∈ rest, k + d.length ≤ b.1 := fun b hb => (hrest.mem hb).1
  refine ⟨h.packed.weaken hlo, h.kept.cons (k, d), ?_, ?_, ?_, ?_, ?_, ?_, ?_, ?_⟩
  · intro b hb
    have := h.apart b hb
    rw [hlen] at this
    omega
  · intro b hb hnot
    rcases List.mem_cons.mp hb with heq | hmem
    · rw [heq]
      refine ⟨?_, ?_, ?_, ?_⟩ <;> dsimp only <;> omega
    · have := h.erased b hmem hnot
      rw [hlen] at this
      have := hbeyond b hmem
      omega
  · refine Or.inr ⟨(k, d), List.mem_cons_self .., ?_, hk, hk'⟩
    rcases h.starts with heq | ⟨b, hb, -, hlt, -⟩
    · exact heq.symm
    · have := hbeyond b hb
      omega
  · omega
  · intro x hx hx'
    have := h.covers x hx hx'
    rw [hlen] at this
    rcases this with hin | hcov
    · by_cases hx2 : index ≤ x
      · exact Or.inl (by omega)
      · refine Or.inr (covers_cons.mpr (Or.inl ?_))
        show k ≤ x ∧ x < k + d.length
        omega
    · exact Or.inr (covers_cons.mpr (Or.inr hcov))
  · intro S hS hall
    refine h.slices S ?_ fun b hb => hall b (List.mem_cons_of_mem _ hb)
    exact (hall (k, d) (List.mem_cons_self ..)).glueLeft hS (by dsimp only; omega)
      (by dsimp only; omega)
  · intro hall
    have := hall (k, d) (List.mem_cons_self ..)
    dsimp only at this
    omega
  · intro b hb hb1 hb2 hb3
    rcases List.mem_cons.mp hb with heq | hmem
    · rw [heq] at hb3
      dsimp only at hb3
      omega
    · have := hbeyond b hmem
      omega

/-- Merging adds the substring's positions to the map's and loses none. -/
theorem Merged.covers_iff {m : Blocks Byte}
    (h : Merged lo m index data before after start merged) (x : Nat) :
    Covers (before ++ (start, merged) :: after) x
      ↔ Covers m x ∨ (index ≤ x ∧ x < index + data.length) := by
  have hc := h.contains
  rw [covers_append, covers_cons]
  constructor
  · rintro (hb | hin | ha)
    · exact Or.inl ((covers_append.mpr (Or.inl hb)).of_subset h.kept.subset)
    · exact (h.covers x hin.1 hin.2).symm
    · exact Or.inl ((covers_append.mpr (Or.inr ha)).of_subset h.kept.subset)
  · rintro (⟨b, hb, hb1, hb2⟩ | hin)
    · by_cases hmem : b ∈ before ++ after
      · rcases covers_append.mp ⟨b, hmem, hb1, hb2⟩ with h1 | h1
        · exact Or.inl h1
        · exact Or.inr (Or.inr h1)
      · obtain ⟨h1, h2, -⟩ := h.erased b hb hmem
        refine Or.inr (Or.inl ?_)
        show start ≤ x ∧ x < start + merged.length
        omega
    · refine Or.inr (Or.inl ?_)
      show start ≤ x ∧ x < start + merged.length
      omega

/-- Where a substring at `index` starts once it is merged: at the key of the
    block that reaches across `index`, if there is one. -/
def mergedStart (m : Blocks Byte) (index : Nat) : Nat :=
  match m.find? (fun b => decide (b.1 < index) && decide (index < b.1 + b.2.length)) with
  | some b => b.1
  | none => index

theorem Merged.start_eq {m : Blocks Byte} (hp : Packed lo m) (hdata : data ≠ [])
    (h : Merged lo m index data before after start merged) :
    start = mergedStart m index := by
  have hpos : 0 < data.length := List.length_pos_iff.mpr hdata
  rw [mergedStart]
  cases hfind : m.find? (fun b => decide (b.1 < index)
      && decide (index < b.1 + b.2.length)) with
  | none =>
      rcases h.starts with heq | ⟨b, hb, -, hlt, hlt'⟩
      · exact heq
      · have := List.find?_eq_none.mp hfind b hb
        simp [hlt, hlt'] at this
  | some b =>
      have hb := List.mem_of_find?_eq_some hfind
      obtain ⟨hlt, hlt'⟩ : b.1 < index ∧ index < b.1 + b.2.length := by
        simpa using List.find?_some hfind
      -- the block is taken out, so the merged block starts no later
      have hout : b ∉ before ++ after := by
        intro hin
        have := h.apart b hin
        omega
      have hle := (h.erased b hb hout).1
      rcases h.starts with heq | ⟨c, hc, hc0, hc1, hc2⟩
      · omega
      · rw [← hc0, hp.eq_of_covers hc hb (Nat.le_of_lt hc1) hc2 (Nat.le_of_lt hlt) hlt']

/-- **HOW THE MERGE LOOP ENDS** on the blocks `m`: what it leaves in the map, and the
    locals. -/
inductive MergeOutcome (lo : Nat) (m : Blocks Byte) (t : Merge) :
    Blocks Byte × Merge → Prop
  /-- some block covers the substring already: the map is left alone -/
  | covered (b : Nat × List Byte) (hb : b ∈ m) (hb1 : b.1 ≤ t.tmpIndex)
      (hb2 : t.tmpIndex + t.tmpData.length ≤ b.1 + b.2.length)
      (hb3 : b.1 = t.tmpIndex → t.tmpData.length < b.2.length) :
      MergeOutcome lo m t (m, { t with tmpData := [] })
  /-- the blocks that overlap it are taken out and merged into it -/
  | merged (before after : Blocks Byte) (start last : Nat) (merged : List Byte)
      (hm : Merged lo m t.tmpIndex t.tmpData before after start merged) :
      MergeOutcome lo m t (before ++ after, ⟨merged, start, last⟩)

/-- The loop walks past a block that lies before the substring. -/
theorem MergeOutcome.skip {t : Merge} {out : Blocks Byte × Merge} (hlo : lo ≤ k)
    (hd : d ≠ []) (hend : k + d.length ≤ t.tmpIndex)
    (h : MergeOutcome (k + d.length) rest t out) :
    MergeOutcome lo ((k, d) :: rest) t ((k, d) :: out.1, out.2) := by
  cases h with
  | covered b hb hb1 hb2 hb3 =>
      exact .covered b (List.mem_cons_of_mem _ hb) hb1 hb2 hb3
  | merged before after start last merged hm =>
      exact .merged ((k, d) :: before) after start last merged (hm.skip hlo hd hend)

/-- Blocks that start beyond the substring's index cannot cover it. -/
theorem MergeOutcome.merged_of_lt {m : Blocks Byte} {t : Merge} {hi : Nat}
    {out : Blocks Byte × Merge} (hp : Packed hi m) (hlt : t.tmpIndex < hi)
    (h : MergeOutcome lo m t out) :
    ∃ before after start last merged,
      Merged lo m t.tmpIndex t.tmpData before after start merged
        ∧ out = (before ++ after, ⟨merged, start, last⟩) := by
  cases h with
  | covered b hb hb1 hb2 hb3 =>
      have := (hp.mem hb).1
      omega
  | merged before after start last merged hm =>
      exact ⟨before, after, start, last, merged, hm, rfl⟩

/-- **THE MERGE LOOP**: either some block already covers the substring and the
    map is left alone, or the blocks that overlap are taken out and merged
    into it. -/
theorem mergeLoop_spec (m : Blocks Byte) :
    ∀ (lo : Nat) (t : Merge), Packed lo m → lo ≤ t.tmpIndex → t.tmpData ≠ [] →
      t.tmpEnd + 1 = t.tmpIndex + t.tmpData.length →
      MergeOutcome lo m t (mergeLoop m t) := by
  -- along the map; a block met either stays, ends the loop, or grows the substring
  induction m with
  | nil =>
      intro lo t _ hlo hdata _
      exact .merged [] [] t.tmpIndex t.tmpEnd t.tmpData (Merged.insert hlo hdata trivial)
  | cons b rest ih =>
      obtain ⟨k, d⟩ := b
      rintro lo ⟨data, index, last⟩ hp hlo hdata hlast
      obtain ⟨hk, hd, hrest⟩ := hp
      dsimp only at hlo hdata hlast
      have hpos : 0 < d.length := List.length_pos_iff.mpr hd
      have hdpos : 0 < data.length := List.length_pos_iff.mpr hdata
      rw [mergeLoop]
      dsimp only
      by_cases hbefore : k + d.length - 1 < index
      · -- the block lies before the substring
        rw [if_pos hbefore]
        have hend : k + d.length ≤ index := by omega
        exact (ih (k + d.length) ⟨data, index, last⟩ hrest hend hdata hlast).skip hk hd hend
      rw [if_neg hbefore]
      by_cases hafter : k > last
      · -- the block lies after it
        rw [if_pos hafter]
        exact .merged [] ((k, d) :: rest) index last data
          (Merged.insert hlo hdata ⟨by dsimp only; omega, hd, hrest⟩)
      rw [if_neg hafter]
      by_cases hswallow : index ≤ k ∧ last ≥ k + d.length - 1
      · -- it is swallowed
        rw [if_pos hswallow]
        obtain ⟨before, after, start, last', merged, hm, heq⟩ :=
          (ih lo ⟨data, index, last⟩ (hrest.weaken (by omega)) hlo hdata hlast).merged_of_lt
            hrest (by dsimp only; omega)
        rw [heq]
        exact .merged before after start last' merged
          (hm.swallow hswallow.1 hd (by dsimp only; omega))
      rw [if_neg hswallow]
      by_cases hcover : k ≤ index ∧ k + d.length - 1 ≥ last
      · -- it covers the substring, and the next block starts beyond it
        rw [if_pos hcover,
          mergeLoop_break hrest (by dsimp only; omega) (by dsimp only; omega)]
        exact .covered (k, d) (List.mem_cons_self ..) hcover.1 (by dsimp only; omega)
          (by dsimp only; omega)
      rw [if_neg hcover]
      by_cases hright : index < k
      · -- it reaches past the substring, and nothing after it overlaps
        rw [if_pos hright, if_pos (by omega),
          show d.length - (k + d.length - 1 - last) = index + data.length - k by omega]
        have hlen : (data ++ d.drop (index + data.length - k)).length
            = k + d.length - index := by
          rw [List.length_append, List.length_drop]; omega
        rw [mergeLoop_break hrest (by dsimp only; omega) (by dsimp only; rw [hlen]; omega)]
        exact .merged [] rest index _ _
          (Merged.extendRight hlo hdata hright (by dsimp only; omega) (by dsimp only; omega)
            hrest)
      · -- it starts before the substring, which grows to the left
        rw [if_neg hright]
        have hlen : (d.take (index - k) ++ data).length = index + data.length - k := by
          rw [List.length_append, List.length_take]; omega
        have hne : d.take (index - k) ++ data ≠ [] :=
          List.append_ne_nil_of_right_ne_nil _ hdata
        obtain ⟨before, after, start, last', merged, hm, heq⟩ :=
          (ih k ⟨d.take (index - k) ++ data, k,
            k + (d.take (index - k) ++ data).length - 1⟩ (hrest.weaken (by omega))
            (Nat.le_refl k) hne (by dsimp only; rw [hlen]; omega)).merged_of_lt
            hrest (by dsimp only; omega)
        rw [heq]
        exact .merged before after start last' merged
          (Merged.extendLeft hk (by dsimp only; omega) (by dsimp only; omega)
            (by dsimp only; omega) hrest hm)

/-! ## The representation invariant -/

namespace StreamReassembler

variable {r : StreamReassembler}

/-- What holds between the calls of the helpers: the output has the right size
    and has been given every assembled byte, the parked blocks are packed from
    `lo` on, and both together stay within the capacity. -/
structure WellFormedFrom (lo : Nat) (r : StreamReassembler) : Prop where
  sameCapacity : r.output.capacity = r.capacity
  written : r.output.bytesWritten = r.firstUnassembled
  packed : Packed lo r.unassembledSegments
  bounded : r.output.buffer.length + r.unassembledBytes ≤ r.capacity.toNat

/-- **THE REPRESENTATION INVARIANT** between public calls: everything parked
    lies beyond a hole. -/
def WellFormed (r : StreamReassembler) : Prop :=
  WellFormedFrom (r.firstUnassembled + 1) r

theorem wellFormed_new (capacity : UInt64) : WellFormed (new capacity) where
  sameCapacity := rfl
  written := rfl
  packed := trivial
  bounded := Nat.zero_le _

/-- The memory that is left. -/
def room (r : StreamReassembler) : Nat :=
  r.capacity.toNat - r.output.buffer.length - r.unassembledBytes

/-- How many of `len` bytes `truncate_data` keeps at `index`. -/
def keptLen (r : StreamReassembler) (len index : Nat) : Nat :=
  min (min len (sub64 ((r.output.bytesRead + r.capacity.toNat) % 2 ^ 64) index))
    (sub64 (sub64 r.capacity.toNat r.output.bufferSize) r.unassembledBytes)

theorem truncateData_eq (r : StreamReassembler) (data : List Byte) (index : Nat) :
    r.truncateData data index = data.take (r.keptLen data.length index) := rfl

/-- The space computation never wraps. -/
theorem space_eq (h : r.output.buffer.length + r.unassembledBytes ≤ r.capacity.toNat) :
    sub64 (sub64 r.capacity.toNat r.output.bufferSize) r.unassembledBytes
      = r.room := by
  have hcap := r.capacity.toNat_lt
  have hbuf : r.output.bufferSize = r.output.buffer.length := rfl
  rw [hbuf, sub64_of_le (a := r.capacity.toNat) (by omega) (by omega),
    sub64_of_le (by omega) (by omega)]
  rfl

/-- Up to the window's edge the distance to it does not wrap. -/
theorem edge_eq {index : Nat} (hlo : r.output.bytesRead ≤ index)
    (hhi : index ≤ r.output.bytesRead + r.capacity.toNat) :
    sub64 ((r.output.bytesRead + r.capacity.toNat) % 2 ^ 64) index
      = r.output.bytesRead + r.capacity.toNat - index := by
  have hcap := r.capacity.toNat_lt
  rw [sub64_mod, sub64_of_le hhi (by omega)]

/-- The window's right edge lies one capacity beyond the bytes read. -/
theorem WellFormedFrom.edge {lo : Nat} (h : WellFormedFrom lo r) :
    r.output.bytesRead + r.capacity.toNat
      = r.firstUnassembled + (r.capacity.toNat - r.output.buffer.length) := by
  have hw := h.written
  have ha := r.output.accounted
  have hf := r.output.fits
  rw [h.sameCapacity] at hf
  omega

/-- At the next index nothing but the memory left cuts a substring. -/
theorem keptLen_first {lo : Nat} (h : WellFormedFrom lo r) (len : Nat) :
    r.keptLen len r.firstUnassembled = min len r.room := by
  have hw := h.written
  have ha := r.output.accounted
  have hb := h.bounded
  have he := h.edge
  rw [keptLen]
  rw [space_eq h.bounded, edge_eq (by omega) (by omega)]
  rw [room]
  omega

/-- **INSERTION**: a substring is covered already, or it is merged with what
    it overlaps, cut, and put between the blocks that stay. -/
theorem insertSegment_spec {lo index : Nat} {data : List Byte}
    (h : Packed lo r.unassembledSegments) (hlo : lo ≤ index) (hdata : data ≠ []) :
    (∃ b ∈ r.unassembledSegments, b.1 ≤ index
        ∧ index + data.length ≤ b.1 + b.2.length
        ∧ (b.1 = index → data.length < b.2.length)
        ∧ r.insertSegment data index = r)
    ∨ ∃ before after start merged,
        Merged lo r.unassembledSegments index data before after start merged
        ∧ r.insertSegment data index
          = { r with
              unassembledSegments := before
                ++ keep start (merged.take
                    ({ r with unassembledSegments := before ++ after }.keptLen
                      merged.length start))
                ++ after } := by
  have hpos : 0 < data.length := List.length_pos_iff.mpr hdata
  rw [insertSegment]
  have hspec := mergeLoop_spec r.unassembledSegments lo ⟨data, index, index + data.length - 1⟩
    h hlo hdata (by dsimp only; omega)
  dsimp only
  generalize mergeLoop r.unassembledSegments ⟨data, index, index + data.length - 1⟩ = out
    at hspec ⊢
  cases hspec with
  | covered b hb hb1 hb2 hb3 => exact Or.inl ⟨b, hb, hb1, hb2, hb3, rfl⟩
  | merged before after start last merged hm =>
      refine Or.inr ⟨before, after, start, merged, hm, ?_⟩
      have hne : merged.isEmpty = false := by
        rw [List.isEmpty_eq_false_iff]
        exact (packed_append.mp hm.packed).2.2.1
      dsimp only
      rw [hne, truncateData_eq, if_neg Bool.false_ne_true]
      -- what is cut to nothing is not parked
      cases htr : merged.take
          ({ r with unassembledSegments := before ++ after }.keptLen
            merged.length start) with
      | nil => simp [keep]
      | cons x xs =>
          rw [List.isEmpty_cons, if_neg Bool.false_ne_true, keep,
            insertNew_gap hm.packed]
          simp

/-- A substring that fits in front of every block is put in front. -/
theorem insertSegment_front {index : Nat} {data : List Byte} (hdata : data ≠ [])
    (h : Packed (index + data.length) r.unassembledSegments)
    (hfit : data.length ≤ r.keptLen data.length index) :
    r.insertSegment data index
      = { r with unassembledSegments := (index, data) :: r.unassembledSegments } := by
  have hpos : 0 < data.length := List.length_pos_iff.mpr hdata
  have hne : data.isEmpty = false := List.isEmpty_eq_false_iff.mpr hdata
  rw [insertSegment]
  dsimp only
  rw [mergeLoop_break h (by dsimp only; omega) (by dsimp only; omega)]
  dsimp only
  rw [hne, if_neg Bool.false_ne_true, truncateData_eq, List.take_of_length_le hfit,
    hne, if_neg Bool.false_ne_true]
  have hp : Packed index ([] ++ (index, data) :: r.unassembledSegments) :=
    ⟨Nat.le_refl index, hdata, h⟩
  have hgap := insertNew_gap hp data
  rw [List.nil_append] at hgap
  rw [hgap]
  rfl

/-! ## What the assembly loop amounts to -/

/-- Entries at or after the next index are left alone. -/
theorem foldl_trimEntry_of_le (m : Blocks Byte) (r : StreamReassembler)
    (h : ∀ b ∈ m, r.firstUnassembled ≤ b.1) : m.foldl trimEntry r = r := by
  induction m with
  | nil => rfl
  | cons b m ih =>
      have hb : r.firstUnassembled ≤ b.1 := h b (List.mem_cons_self ..)
      rw [List.foldl_cons, trimEntry, if_neg (by omega)]
      exact ih fun c hc => h c (List.mem_cons_of_mem _ hc)

/-- What is left without the first entry is well formed. -/
theorem WellFormedFrom.tail {lo k : Nat} {d : List Byte} {rest : Blocks Byte}
    (h : WellFormedFrom lo r) (hm : r.unassembledSegments = (k, d) :: rest) :
    WellFormedFrom (k + d.length) { r with unassembledSegments := rest } := by
  have hp := h.packed
  have hbound : r.output.buffer.length + total r.unassembledSegments
      ≤ r.capacity.toNat := h.bounded
  rw [hm] at hp hbound
  refine ⟨h.sameCapacity, h.written, hp.2.2, ?_⟩
  show r.output.buffer.length + total rest ≤ r.capacity.toNat
  simp only [total] at hbound
  omega

/-- The first entry of the map, when it starts below the next index: it is taken out, and
    the part of it that is still to come goes back in front. -/
theorem trimEntry_head {lo k : Nat} {d : List Byte} {rest : Blocks Byte}
    (h : WellFormedFrom lo r) (hm : r.unassembledSegments = (k, d) :: rest)
    (hk : k < r.firstUnassembled) :
    r.trimEntry (k, d)
      = { r with
          unassembledSegments :=
            if k + d.length ≤ r.firstUnassembled then rest
            else (r.firstUnassembled, d.drop (r.firstUnassembled - k)) :: rest } := by
  have hp := h.packed
  have hbound : r.output.buffer.length + total r.unassembledSegments
      ≤ r.capacity.toNat := h.bounded
  rw [hm] at hp hbound
  simp only [total] at hbound
  rw [trimEntry]
  dsimp only
  rw [if_pos hk, hm, eraseKey_head hp]
  by_cases hend : k + d.length ≤ r.firstUnassembled
  · rw [if_neg (by omega), if_pos hend]
  · rw [if_pos (by omega), if_neg hend]
    have hlen : (d.drop (r.firstUnassembled - k)).length
        = k + d.length - r.firstUnassembled := by
      rw [List.length_drop]; omega
    have hne : d.drop (r.firstUnassembled - k) ≠ [] := by
      apply List.ne_nil_of_length_pos
      rw [hlen]; omega
    -- the tail was counted before, so there is room for it
    have hfit : (d.drop (r.firstUnassembled - k)).length
        ≤ ({ r with unassembledSegments := rest } : StreamReassembler).keptLen
          (d.drop (r.firstUnassembled - k)).length r.firstUnassembled := by
      rw [keptLen_first (h.tail hm), hlen, room]
      show _ ≤ min _ (r.capacity.toNat - r.output.buffer.length - total rest)
      omega
    refine insertSegment_front hne ?_ hfit
    rw [hlen]
    exact hp.2.2.weaken (by omega)

theorem foldl_trimEntry (m : Blocks Byte) :
    ∀ (lo : Nat) (r : StreamReassembler), r.unassembledSegments = m →
      WellFormedFrom lo r →
      m.foldl trimEntry r
        = { r with unassembledSegments := trimFront r.firstUnassembled m } := by
  induction m with
  | nil =>
      intro lo r hm _
      rw [List.foldl_nil, trimFront, ← hm]
  | cons b rest ih =>
      obtain ⟨k, d⟩ := b
      intro lo r hm h
      have hp := h.packed
      rw [hm] at hp
      by_cases hk : r.firstUnassembled ≤ k
      · -- every entry starts late enough
        rw [trimFront_cons_above hk, ← hm]
        refine foldl_trimEntry_of_le _ r fun b hb => ?_
        rw [hm] at hb
        have := ((show Packed k ((k, d) :: rest) from ⟨Nat.le_refl k, hp.2⟩).mem hb).1
        omega
      · rw [List.foldl_cons, trimEntry_head h hm (by omega)]
        split_ifs with hend
        · -- the entry is read to its end
          rw [trimFront_cons_below hk hend]
          exact ih (k + d.length) { r with unassembledSegments := rest } rfl (h.tail hm)
        · -- the rest starts beyond its tail
          rw [trimFront_cons_across hk hend]
          refine foldl_trimEntry_of_le rest _ fun b hb => ?_
          have := (hp.2.2.mem hb).1
          show r.firstUnassembled ≤ b.1
          omega

/-- **TRY_ASSEMBLE** forgets what lies below the next index. -/
theorem tryAssemble_eq {lo : Nat} (h : WellFormedFrom lo r) :
    r.tryAssemble
      = { r with
          unassembledSegments := trimFront r.firstUnassembled r.unassembledSegments } :=
  foldl_trimEntry r.unassembledSegments lo r rfl h

/-- The bytes that follow on from the next index, and the blocks that stay. -/
def followOn (r : StreamReassembler) : List Byte × Blocks Byte :=
  absorb r.firstUnassembled (trimFront r.firstUnassembled r.unassembledSegments)

/-- `r'` is `r` after the follow-on bytes were written. -/
structure Assembled (r r' : StreamReassembler) : Prop where
  buffer : r'.output.buffer = r.output.buffer ++ r.followOn.1
  segments : r'.unassembledSegments = r.followOn.2
  firstUnassembled : r'.firstUnassembled = r.firstUnassembled + r.followOn.1.length
  bytesRead : r'.output.bytesRead = r.output.bytesRead
  outCapacity : r'.output.capacity = r.output.capacity
  inputEnded : r'.output.inputEnded = r.output.inputEnded
  error : r'.output.error = r.output.error
  capacity : r'.capacity = r.capacity
  eofIndex : r'.eofIndex = r.eofIndex

/-- Bytes there is room for are written whole, and the counters follow. -/
theorem WellFormedFrom.wrote {lo lo' : Nat} {data : List Byte} {m : Blocks Byte}
    (h : WellFormedFrom lo r) (hp : Packed lo' m)
    (hfits : r.output.buffer.length + data.length + total m ≤ r.capacity.toNat) :
    (r.output.write data).1 = data.length
      ∧ (r.output.write data).2.buffer = r.output.buffer ++ data
      ∧ WellFormedFrom lo' ⟨(r.output.write data).2, r.capacity,
        r.firstUnassembled + data.length, m, r.eofIndex⟩ := by
  have hcap : r.output.buffer.length + data.length ≤ r.output.capacity.toNat := by
    rw [h.sameCapacity]
    omega
  have hcount := r.output.write_count_of_fits hcap
  have hbuf := r.output.write_buffer_of_fits hcap
  refine ⟨hcount, hbuf, h.sameCapacity, ?_, hp, ?_⟩
  · dsimp only
    rw [ByteStream.write_bytesWritten, hcount, h.written]
  · dsimp only
    rw [hbuf, List.length_append]
    exact hfits

/-- **ONE ROUND** of the assembly loop, on the map without what lies below the next
    index: no block starts there and the round breaks, or the block that does is
    written and taken out. -/
theorem assembleRound_cases {lo : Nat} (h : WellFormedFrom lo r) :
    (r.assembleRound
        = (false, { r with
            unassembledSegments := trimFront r.firstUnassembled r.unassembledSegments })
      ∧ r.followOn = ([], trimFront r.firstUnassembled r.unassembledSegments))
    ∨ ∃ d rest,
        trimFront r.firstUnassembled r.unassembledSegments = (r.firstUnassembled, d) :: rest
        ∧ r.output.buffer.length + d.length + total rest ≤ r.capacity.toNat
        ∧ r.assembleRound
          = (true, ⟨(r.output.write d).2, r.capacity, r.firstUnassembled + d.length, rest,
              r.eofIndex⟩) := by
  have hp : Packed r.firstUnassembled
      (trimFront r.firstUnassembled r.unassembledSegments) :=
    packed_trimFront h.packed
  have htrim := total_trimFront_le r.firstUnassembled r.unassembledSegments
  have hbound : r.output.buffer.length + total r.unassembledSegments
      ≤ r.capacity.toNat := h.bounded
  rw [assembleRound, tryAssemble_eq h, followOn]
  dsimp only
  cases hm : trimFront r.firstUnassembled r.unassembledSegments with
  | nil => exact Or.inl ⟨rfl, rfl⟩
  | cons b rest =>
      obtain ⟨k, d⟩ := b
      rw [hm] at hp htrim
      by_cases hk : k = r.firstUnassembled
      · subst hk
        have hfits : r.output.buffer.length + d.length + total rest ≤ r.capacity.toNat := by
          simp only [total] at htrim
          omega
        refine Or.inr ⟨d, rest, rfl, hfits, ?_⟩
        rw [List.lookup_cons_self]
        dsimp only
        rw [eraseKey_head hp, (h.wrote hp.2.2 hfits).1]
      · refine Or.inl ⟨?_, ?_⟩
        · have hlater : Packed k ((k, d) :: rest) := ⟨Nat.le_refl k, hp.2⟩
          have hlt : r.firstUnassembled < k := Nat.lt_of_le_of_ne hp.1 (Ne.symm hk)
          rw [lookup_of_lt hlater hlt]
        · rw [absorb_cons_hole hk]

/-- A round that breaks found no block at the next index. -/
theorem assembleRound_stop {lo : Nat} (h : WellFormedFrom lo r)
    (hstop : r.assembleRound.1 = false) : Assembled r r.assembleRound.2 := by
  rcases assembleRound_cases h with ⟨heq, hfollow⟩ | ⟨d, rest, -, -, heq⟩
  · rw [heq]
    refine ⟨?_, ?_, ?_, rfl, rfl, rfl, rfl, rfl, rfl⟩
    · rw [hfollow, List.append_nil]
    · rw [hfollow]
    · rw [hfollow, List.length_nil, Nat.add_zero]
  · rw [heq] at hstop
    exact absurd hstop.symm Bool.false_ne_true

/-- A round that goes on writes the block at the next index and takes it out. -/
theorem assembleRound_go {lo : Nat} (h : WellFormedFrom lo r)
    (hgo : r.assembleRound.1 = true) :
    WellFormedFrom r.assembleRound.2.firstUnassembled r.assembleRound.2
      ∧ r.assembleRound.2.unassembledSegments.length < r.unassembledSegments.length
      ∧ ∀ r', Assembled r.assembleRound.2 r' → Assembled r r' := by
  rcases assembleRound_cases h with ⟨heq, -⟩ | ⟨d, rest, hm, hfits, heq⟩
  · rw [heq] at hgo
    exact absurd hgo Bool.false_ne_true
  · have hp := packed_trimFront (f := r.firstUnassembled) h.packed
    have hlen := length_trimFront_le r.firstUnassembled r.unassembledSegments
    rw [hm] at hp hlen
    obtain ⟨-, hbuf, hwf⟩ := h.wrote hp.2.2 hfits
    rw [heq]
    refine ⟨hwf, hlen, fun r' ha => ?_⟩
    -- what follows on from here is the block and what follows on from its end
    have hfollow : r.followOn
        = (d ++ (absorb (r.firstUnassembled + d.length) rest).1,
            (absorb (r.firstUnassembled + d.length) rest).2) := by
      rw [followOn, hm, absorb_cons_next]
    have hnext : followOn
        ⟨(r.output.write d).2, r.capacity, r.firstUnassembled + d.length, rest, r.eofIndex⟩
        = absorb (r.firstUnassembled + d.length) rest := by
      rw [followOn]
      dsimp only
      rw [trimFront_of_packed hp.2.2]
    refine ⟨?_, ?_, ?_, ha.bytesRead, ha.outCapacity, ha.inputEnded, ha.error,
      ha.capacity, ha.eofIndex⟩
    · rw [ha.buffer, hnext, hfollow]
      dsimp only
      rw [hbuf, List.append_assoc]
    · rw [ha.segments, hnext, hfollow]
    · rw [ha.firstUnassembled, hnext, hfollow]
      dsimp only
      rw [List.length_append, Nat.add_assoc]

/-- **THE ASSEMBLY LOOP** writes exactly the bytes that follow on. -/
theorem assembled {lo : Nat} (h : WellFormedFrom lo r) :
    Assembled r (whileTrue assembleRound (r.unassembledSegments.length + 1) r) := by
  refine whileTrue_post
    (I := fun s => (∃ lo, WellFormedFrom lo s) ∧ ∀ r', Assembled s r' → Assembled r r')
    (Q := fun s => Assembled r s) (μ := fun s => s.unassembledSegments.length)
    ?_ ?_ _ r (Nat.lt_succ_self _) ⟨⟨lo, h⟩, fun _ ha => ha⟩
  · rintro s ⟨⟨lo', hs⟩, hback⟩ hgo
    obtain ⟨hwf, hlt, hnext⟩ := assembleRound_go hs hgo
    exact ⟨⟨⟨_, hwf⟩, fun r' ha => hback r' (hnext r' ha)⟩, hlt⟩
  · rintro s ⟨⟨lo', hs⟩, hback⟩ hstop
    exact hback _ (assembleRound_stop hs hstop)

/-! ## The outcomes of a push -/

/-- What no push changes. -/
structure Frame (r r' : StreamReassembler) : Prop where
  bytesRead : r'.output.bytesRead = r.output.bytesRead
  outCapacity : r'.output.capacity = r.output.capacity
  error : r'.output.error = r.output.error
  capacity : r'.capacity = r.capacity

/-- The two reassemblers hold the same bytes in the same places. -/
structure SameStore (r r' : StreamReassembler) : Prop where
  buffer : r'.output.buffer = r.output.buffer
  segments : r'.unassembledSegments = r.unassembledSegments
  firstUnassembled : r'.firstUnassembled = r.firstUnassembled

/-- **THE OUTCOMES OF A PUSH** of `data` at `index`, all told in terms of the
    reassembler before it. -/
inductive Pushed (r : StreamReassembler) (data : List Byte) (index : Nat)
    (r' : StreamReassembler) : Prop
  /-- nothing new -/
  | stale (hstale : index + data.length ≤ r.firstUnassembled ∨ data = [])
      (same : SameStore r r')
  /-- the next byte is there: write what there is room for, and what follows on -/
  | inOrder (w : Nat) (hle : index ≤ r.firstUnassembled)
      (hlt : r.firstUnassembled < index + data.length)
      (hw : w = min (index + data.length - r.firstUnassembled) r.room)
      (buffer : r'.output.buffer
        = r.output.buffer ++ (data.drop (r.firstUnassembled - index)).take w
          ++ (absorb (r.firstUnassembled + w)
              (trimFront (r.firstUnassembled + w) r.unassembledSegments)).1)
      (first : r'.firstUnassembled
        = r.firstUnassembled + w
          + (absorb (r.firstUnassembled + w)
              (trimFront (r.firstUnassembled + w) r.unassembledSegments)).1.length)
      (segments : r'.unassembledSegments
        = (absorb (r.firstUnassembled + w)
            (trimFront (r.firstUnassembled + w) r.unassembledSegments)).2)
  /-- beyond a hole, and parked already -/
  | covered (b : Nat × List Byte) (hgt : r.firstUnassembled < index)
      (hdata : data ≠ []) (hb : b ∈ r.unassembledSegments) (hb1 : b.1 ≤ index)
      (hb2 : index + data.length ≤ b.1 + b.2.length)
      (hb3 : b.1 = index → data.length < b.2.length) (same : SameStore r r')
  /-- beyond a hole: merge, cut, park -/
  | inserted (before after : Blocks Byte) (start : Nat) (merged : List Byte)
      (hgt : r.firstUnassembled < index) (hdata : data ≠ [])
      (hm : Merged (r.firstUnassembled + 1) r.unassembledSegments index data
        before after start merged)
      (buffer : r'.output.buffer = r.output.buffer)
      (first : r'.firstUnassembled = r.firstUnassembled)
      (segments : r'.unassembledSegments
        = before
          ++ keep start (merged.take
              ({ r with unassembledSegments := before ++ after }.keptLen
                merged.length start))
          ++ after)

theorem SameStore.refl (r : StreamReassembler) : SameStore r r := ⟨rfl, rfl, rfl⟩

theorem SameStore.trans {r s t : StreamReassembler} (h : SameStore r s)
    (h' : SameStore s t) : SameStore r t :=
  ⟨h'.buffer.trans h.buffer, h'.segments.trans h.segments,
    h'.firstUnassembled.trans h.firstUnassembled⟩

theorem Frame.refl (r : StreamReassembler) : Frame r r := ⟨rfl, rfl, rfl, rfl⟩

theorem Pushed.congr {r q r' : StreamReassembler} {data : List Byte} {index : Nat}
    (h : Pushed r data index q) (hs : SameStore q r') : Pushed r data index r' := by
  cases h with
  | stale hstale same => exact .stale hstale (same.trans hs)
  | inOrder w hle hlt hw buffer first segments =>
      exact .inOrder w hle hlt hw (hs.buffer.trans buffer)
        (hs.firstUnassembled.trans first) (hs.segments.trans segments)
  | covered b hgt hdata hb hb1 hb2 hb3 same =>
      exact .covered b hgt hdata hb hb1 hb2 hb3 (same.trans hs)
  | inserted before after start merged hgt hdata hm buffer first segments =>
      exact .inserted before after start merged hgt hdata hm (hs.buffer.trans buffer)
        (hs.firstUnassembled.trans first) (hs.segments.trans segments)

/-- The outcome does not look at the end-of-stream index. -/
theorem Pushed.of_eofIndex {r r' : StreamReassembler} {e : Nat} {data : List Byte}
    {index : Nat} (h : Pushed { r with eofIndex := e } data index r') :
    Pushed r data index r' := by
  cases h with
  | stale hstale same => exact .stale hstale ⟨same.1, same.2, same.3⟩
  | inOrder w hle hlt hw buffer first segments =>
      exact .inOrder w hle hlt hw buffer first segments
  | covered b hgt hdata hb hb1 hb2 hb3 same =>
      exact .covered b hgt hdata hb hb1 hb2 hb3 ⟨same.1, same.2, same.3⟩
  | inserted before after start merged hgt hdata hm buffer first segments =>
      exact .inserted before after start merged hgt hdata hm buffer first segments

/-- The in-order branch, for a substring `data` whose byte `start` is the next one. -/
theorem writeInOrder_spec (h : WellFormed r) {data : List Byte} {start w : Nat}
    (hw : w = min (data.length - start) r.room) :
    Assembled
      ⟨(r.output.write ((data.drop start).take w)).2, r.capacity, r.firstUnassembled + w,
        r.unassembledSegments, r.eofIndex⟩
      (r.writeInOrder (data.drop start) r.firstUnassembled)
    ∧ (r.output.write ((data.drop start).take w)).2.buffer
      = r.output.buffer ++ (data.drop start).take w := by
  have hlen : ((data.drop start).take w).length = w := by
    rw [List.length_take, List.length_drop]
    omega
  have hfits : r.output.buffer.length + ((data.drop start).take w).length
      + total r.unassembledSegments ≤ r.capacity.toNat := by
    have hbound : r.output.buffer.length + total r.unassembledSegments
        ≤ r.capacity.toNat := h.bounded
    have hroom : r.room = r.capacity.toNat - r.output.buffer.length
        - total r.unassembledSegments := rfl
    rw [hlen]
    omega
  obtain ⟨hcount, hbuf, hwf⟩ := h.wrote h.packed hfits
  rw [hlen] at hcount hwf
  rw [writeInOrder, truncateData_eq, keptLen_first h, List.length_drop, ← hw, hcount]
  exact ⟨assembled hwf, hbuf⟩

/-- The storing part has one of the last three outcomes. -/
theorem storeSubstring_pushed (h : WellFormed r) {data : List Byte} {index start : Nat}
    (hstart : start = if index < r.firstUnassembled then r.firstUnassembled - index else 0)
    (hlt : start < data.length) :
    Pushed r data index (r.storeSubstring (data.drop start) (index + start))
      ∧ Frame r (r.storeSubstring (data.drop start) (index + start))
      ∧ (r.storeSubstring (data.drop start) (index + start)).output.inputEnded
          = r.output.inputEnded
      ∧ (r.storeSubstring (data.drop start) (index + start)).eofIndex = r.eofIndex := by
  rw [storeSubstring]
  by_cases hle : index ≤ r.firstUnassembled
  · -- the next byte is in the substring
    have hstart' : start = r.firstUnassembled - index := by
      rw [hstart]
      split_ifs <;> omega
    rw [if_pos (by omega), show index + start = r.firstUnassembled by omega]
    obtain ⟨w, hw⟩ : ∃ w, w = min (data.length - start) r.room := ⟨_, rfl⟩
    obtain ⟨ha, hbuf⟩ := writeInOrder_spec h hw
    refine ⟨?_, ⟨ha.bytesRead, ha.outCapacity, ha.error, ha.capacity⟩,
      ha.inputEnded, ha.eofIndex⟩
    refine .inOrder w hle (by omega) (by omega) ?_ ha.firstUnassembled ha.segments
    rw [ha.buffer, hbuf, hstart']
    rfl
  · -- there is a hole before it
    have hstart' : start = 0 := by
      rw [hstart, if_neg (by omega)]
    have hdata : data ≠ [] := List.ne_nil_of_length_pos (by omega)
    rw [hstart', List.drop_zero, Nat.add_zero, if_neg (by omega), if_pos (by omega)]
    rcases insertSegment_spec h.packed (show r.firstUnassembled + 1 ≤ index by omega) hdata
      with ⟨b, hb, hb1, hb2, hb3, heq⟩ | ⟨before, after, start, merged, hm, heq⟩
    · rw [heq]
      exact ⟨.covered b (by omega) hdata hb hb1 hb2 hb3 (SameStore.refl r),
        Frame.refl r, rfl, rfl⟩
    · rw [heq]
      exact ⟨.inserted before after start merged (by omega) hdata hm rfl rfl rfl,
        ⟨rfl, rfl, rfl, rfl⟩, rfl, rfl⟩

/-- **WHEN A PUSH ENDS THE STREAM**: nothing is parked and the next index has
    reached the end-of-stream index. -/
structure EndRule (r : StreamReassembler) (data : List Byte) (index : Nat) (eof : Bool)
    (r' : StreamReassembler) : Prop where
  eofIndex : r'.eofIndex
    = if eof then (index + data.length) % 2 ^ 64 else r.eofIndex
  ended_mono : r.output.inputEnded = true → r'.output.inputEnded = true
  ended_new : r'.output.inputEnded = true → r.output.inputEnded = true ∨
    (r'.unassembledSegments = [] ∧ r'.eofIndex ≤ r'.firstUnassembled)
  ended_of : r'.unassembledSegments = [] → r'.firstUnassembled = r'.eofIndex →
    r'.output.inputEnded = true

theorem endRule_of (q : StreamReassembler) (reached : Bool)
    (hle : reached = true → q.eofIndex ≤ q.firstUnassembled)
    (heq : q.firstUnassembled = q.eofIndex → reached = true) :
    SameStore q (if q.empty && reached then q.endOutput else q)
      ∧ Frame q (if q.empty && reached then q.endOutput else q)
      ∧ EndRule q [] 0 false (if q.empty && reached then q.endOutput else q) := by
  cases hc : (q.empty && reached) with
  | true =>
      rw [if_pos rfl]
      obtain ⟨he, hr⟩ := Bool.and_eq_true_iff.mp hc
      exact ⟨⟨rfl, rfl, rfl⟩, ⟨rfl, rfl, rfl, rfl⟩,
        ⟨rfl, fun _ => rfl, fun _ => Or.inr ⟨List.isEmpty_iff.mp he, hle hr⟩,
          fun _ _ => rfl⟩⟩
  | false =>
      rw [if_neg Bool.false_ne_true]
      refine ⟨SameStore.refl q, Frame.refl q, ⟨rfl, fun h => h, Or.inl, ?_⟩⟩
      intro hnil hfirst
      have he : q.empty = true := List.isEmpty_iff.mpr hnil
      rw [he, heq hfirst] at hc
      exact Bool.noConfusion hc

/-- **A PUSH, INVERTED**: its outcome, its frame, and when it ends the
    stream. -/
theorem pushed (h : WellFormed r) (data : List Byte) (index : Nat) (eof : Bool) :
    Pushed r data index (r.pushSubstring data index eof)
      ∧ Frame r (r.pushSubstring data index eof)
      ∧ EndRule r data index eof (r.pushSubstring data index eof) := by
  obtain ⟨e, he, hnote⟩ : ∃ e,
      e = (if eof then (index + data.length) % 2 ^ 64 else r.eofIndex)
        ∧ r.noteEof data index eof = { r with eofIndex := e } := by
    cases eof with
    | true => exact ⟨_, rfl, rfl⟩
    | false => exact ⟨_, rfl, rfl⟩
  have hwf : WellFormed { r with eofIndex := e } :=
    ⟨h.sameCapacity, h.written, h.packed, h.bounded⟩
  rw [pushSubstring]
  rw [hnote]
  dsimp only
  obtain ⟨start, hstart⟩ : ∃ start, start
      = if index < r.firstUnassembled then r.firstUnassembled - index else 0 :=
    ⟨_, rfl⟩
  rw [← hstart]
  by_cases hstale : start ≥ data.length
  · rw [if_pos hstale]
    obtain ⟨hs, hf, hend⟩ := endRule_of { r with eofIndex := e }
      (decide (r.firstUnassembled ≥ e)) (fun hd => of_decide_eq_true hd)
      (fun heq => decide_eq_true (Nat.le_of_eq heq.symm))
    refine ⟨.stale ?_ ⟨hs.buffer, hs.segments, hs.firstUnassembled⟩,
      ⟨hf.bytesRead, hf.outCapacity, hf.error, hf.capacity⟩,
      ⟨hend.eofIndex.trans he, hend.ended_mono, hend.ended_new, hend.ended_of⟩⟩
    by_cases hlt : index < r.firstUnassembled
    · rw [if_pos hlt] at hstart
      exact Or.inl (by omega)
    · rw [if_neg hlt] at hstart
      exact Or.inr (List.eq_nil_of_length_eq_zero (by omega))
  · rw [if_neg hstale]
    have hlt : start < data.length := by omega
    obtain ⟨hp, hf, hie, hee⟩ := storeSubstring_pushed hwf hstart hlt
    obtain ⟨q, hq⟩ : ∃ q, q = storeSubstring { r with eofIndex := e }
      (data.drop start) (index + start) := ⟨_, rfl⟩
    rw [← hq] at hp hf hie hee ⊢
    obtain ⟨hs', hf', hend⟩ := endRule_of q (q.firstUnassembled == q.eofIndex)
      (fun hd => Nat.le_of_eq (beq_iff_eq.mp hd).symm) (fun heq => beq_iff_eq.mpr heq)
    refine ⟨(hp.congr hs').of_eofIndex, ?_, ?_⟩
    · exact ⟨hf'.bytesRead.trans hf.bytesRead, hf'.outCapacity.trans hf.outCapacity,
        hf'.error.trans hf.error, hf'.capacity.trans hf.capacity⟩
    · refine ⟨hend.eofIndex.trans (hee.trans he), fun h' => hend.ended_mono (hie.trans h'),
        fun h' => (hend.ended_new h').imp_left fun h2 => hie.symm.trans h2,
        hend.ended_of⟩

/-! ## The invariant holds after every operation -/

/-- The kept part of a merged block leaves the rest of the memory alone. -/
theorem keptLen_le_room {len index : Nat}
    (h : r.output.buffer.length + r.unassembledBytes ≤ r.capacity.toNat) :
    r.keptLen len index ≤ r.room := by
  rw [keptLen]
  rw [space_eq h]
  exact Nat.min_le_right _ _

theorem WellFormed.push (h : WellFormed r) (data : List Byte) (index : Nat)
    (eof : Bool) : WellFormed (r.pushSubstring data index eof) := by
  obtain ⟨hp, hf, -⟩ := pushed h data index eof
  have hacc := (r.pushSubstring data index eof).output.accounted
  have hacc0 := r.output.accounted
  have hw := h.written
  have hb : r.output.buffer.length + total r.unassembledSegments
      ≤ r.capacity.toNat := h.bounded
  refine ⟨?_, ?_, ?_, ?_⟩
  · rw [hf.outCapacity, hf.capacity, h.sameCapacity]
  · rw [hacc, hf.bytesRead]
    cases hp with
    | stale _ same => rw [same.buffer, same.firstUnassembled]; omega
    | inOrder w hle hlt hwr buffer first segments =>
        rw [buffer, first]
        simp only [List.length_append, List.length_take, List.length_drop]
        omega
    | covered b _ _ _ _ _ _ same => rw [same.buffer, same.firstUnassembled]; omega
    | inserted before after start merged _ _ _ buffer first _ =>
        rw [buffer, first]; omega
  · cases hp with
    | stale _ same => rw [same.segments, same.firstUnassembled]; exact h.packed
    | inOrder w hle hlt hwr buffer first segments =>
        rw [segments, first]
        exact absorb_packed (packed_trimFront h.packed)
    | covered b _ _ _ _ _ _ same =>
        rw [same.segments, same.firstUnassembled]; exact h.packed
    | inserted before after start merged _ _ hm _ first segments =>
        rw [segments, first]
        exact hm.packed.cut (List.length_take_le' ..)
  · rw [unassembledBytes]
    rw [hf.capacity]
    cases hp with
    | stale _ same => rw [same.segments, same.buffer]; exact hb
    | inOrder w hle hlt hwr buffer first segments =>
        have h1 := absorb_total (r.firstUnassembled + w)
          (trimFront (r.firstUnassembled + w) r.unassembledSegments)
        have h2 := total_trimFront_le (r.firstUnassembled + w) r.unassembledSegments
        have h3 : w ≤ r.capacity.toNat - r.output.buffer.length
            - total r.unassembledSegments := by
          rw [hwr]; exact Nat.min_le_right _ _
        rw [segments, buffer]
        simp only [List.length_append, List.length_take, List.length_drop]
        omega
    | covered b _ _ _ _ _ _ same => rw [same.segments, same.buffer]; exact hb
    | inserted before after start merged _ _ hm buffer _ segments =>
        have h1 := total_sublist hm.kept
        have h2 : ({ r with unassembledSegments := before ++ after } :
            StreamReassembler).keptLen merged.length start
            ≤ r.capacity.toNat - r.output.buffer.length - total (before ++ after) :=
          keptLen_le_room (by show _ + total (before ++ after) ≤ _; dsimp only; omega)
        rw [segments, buffer, total_append, total_append, total_keep, List.length_take]
        rw [total_append] at h1 h2
        omega

/-- The next index never moves back. -/
theorem firstUnassembled_le_push (h : WellFormed r) (data : List Byte) (index : Nat)
    (eof : Bool) :
    r.firstUnassembled ≤ (r.pushSubstring data index eof).firstUnassembled := by
  obtain ⟨hp, -, -⟩ := pushed h data index eof
  cases hp with
  | stale _ same => rw [same.firstUnassembled]
  | inOrder w _ _ _ _ first _ => rw [first]; omega
  | covered b _ _ _ _ _ _ same => rw [same.firstUnassembled]
  | inserted _ _ _ _ _ _ _ _ first _ => rw [first]

/-- What was assembled stays, and more is put behind it. -/
theorem buffer_prefix_push (h : WellFormed r) (data : List Byte) (index : Nat) (eof : Bool) :
    r.output.buffer <+: (r.pushSubstring data index eof).output.buffer := by
  obtain ⟨hp, -, -⟩ := pushed h data index eof
  cases hp with
  | stale _ same => rw [same.buffer]
  | inOrder w _ _ _ buffer _ _ =>
      rw [buffer, List.append_assoc]
      exact List.prefix_append _ _
  | covered b _ _ _ _ _ _ same => rw [same.buffer]
  | inserted _ _ _ _ _ _ _ buffer _ _ => rw [buffer]

theorem WellFormed.popOut (h : WellFormed r) (len : Nat) : WellFormed (r.popOut len) where
  sameCapacity := h.sameCapacity
  written := h.written
  packed := h.packed
  bounded := by
    have := h.bounded
    show (r.output.popOutput len).buffer.length + r.unassembledBytes ≤ r.capacity.toNat
    rw [ByteStream.popOutput_buffer, List.length_drop]
    omega

/-- A read is a pop of as many bytes as there are. -/
theorem readOut_eq_popOut (r : StreamReassembler) (len : Nat) :
    r.readOut len = r.popOut (r.output.buffer.take len).length := rfl

theorem WellFormed.readOut (h : WellFormed r) (len : Nat) :
    WellFormed (r.readOut len) := by
  rw [readOut_eq_popOut]
  exact h.popOut _

end StreamReassembler

end SpongeReassembler
