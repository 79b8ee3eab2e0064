import Sponge.ReassemblyProofs

/-! # What the reassembler stores

    Two laws of the reassembler over whole runs, whatever is pushed and read:

    * `storage_bounded` — what is buffered and what is parked fit into the capacity
      together; the parked blocks are not empty, lie apart and beyond a hole, so that the
      count of parked bytes counts every index once; and a push does nothing that must
      not happen.  For the last, `Checked` is the code once more, with every `substr` and
      every subtraction that is to stay above zero tested where the code runs it; all it
      needs is that buffer and map are within the capacity (`Bounded`), and every helper
      keeps that.  The distance to the window's edge in `truncate_data` is not one of
      these subtractions: it does wrap.
    * `ended_iff` — when slices of one byte string are pushed, the output ends exactly when
      its end was announced and everything up to it is written. -/

namespace SpongeStorage

open SpongeByteStream SpongeReassembler SpongeReassembly BlockMap Word64 RunRule
open StreamReassembler

/-! ## The code with its checks -/

/-- `substr(pos)`, which raises beyond the end of the string. -/
def substr (data : List Byte) (pos : Nat) : Option (List Byte) :=
  if pos ≤ data.length then some (data.drop pos) else none

/-- A subtraction that must not go below zero. -/
def minus (a b : Nat) : Option Nat := if b ≤ a then some (a - b) else none

theorem substr_of_le {data : List Byte} {pos : Nat} (h : pos ≤ data.length) :
    substr data pos = some (data.drop pos) := if_pos h

theorem minus_of_le {a b : Nat} (h : b ≤ a) : minus a b = some (a - b) := if_pos h

namespace Checked

def mergeLoop : Blocks Byte → Merge → Option (Blocks Byte × Merge)
  | [], t => some ([], t)
  | (segStart, segData) :: rest, t =>
      let segEnd := segStart + segData.length - 1
      if segEnd < t.tmpIndex then
        (mergeLoop rest t).map fun r => ((segStart, segData) :: r.1, r.2)
      else if segStart > t.tmpEnd then some ((segStart, segData) :: rest, t)
      else if t.tmpIndex ≤ segStart ∧ t.tmpEnd ≥ segEnd then mergeLoop rest t
      else if segStart ≤ t.tmpIndex ∧ segEnd ≥ t.tmpEnd then
        (mergeLoop rest { t with tmpData := [] }).map fun r =>
          ((segStart, segData) :: r.1, r.2)
      else if t.tmpIndex < segStart then do
        let extraLen ← minus segEnd t.tmpEnd
        let pos ← minus segData.length extraLen
        let extra ← substr segData pos
        let tmpData := if extraLen > 0 then t.tmpData ++ extra else t.tmpData
        mergeLoop rest ⟨tmpData, t.tmpIndex, t.tmpIndex + tmpData.length - 1⟩
      else do
        let len ← minus t.tmpIndex segStart
        let tmpData := segData.take len ++ t.tmpData
        mergeLoop rest ⟨tmpData, segStart, segStart + tmpData.length - 1⟩

def truncateData (r : StreamReassembler) (data : List Byte) (index : Nat) :
    Option (List Byte) := do
  let firstUnacceptable := (r.output.bytesRead + r.capacity.toNat) % 2 ^ 64
  let unbuffered ← minus r.capacity.toNat r.output.bufferSize
  let availableSpace ← minus unbuffered r.unassembledBytes
  let maxLen := min data.length (sub64 firstUnacceptable index)
  let maxLen := min maxLen availableSpace
  return data.take maxLen

def insertSegment (r : StreamReassembler) (data : List Byte) (index : Nat) :
    Option StreamReassembler := do
  let m ← mergeLoop r.unassembledSegments ⟨data, index, index + data.length - 1⟩
  let r := { r with unassembledSegments := m.1 }
  if m.2.tmpData.isEmpty then return r
  else
    let truncated ← truncateData r m.2.tmpData m.2.tmpIndex
    if truncated.isEmpty then return r
    else
      return { r with
        unassembledSegments := insertNew m.2.tmpIndex truncated r.unassembledSegments }

def trimEntry (r : StreamReassembler) (seg : Nat × List Byte) : Option StreamReassembler :=
  if seg.1 < r.firstUnassembled then
    let erased := { r with unassembledSegments := eraseKey seg.1 r.unassembledSegments }
    if seg.1 + seg.2.length > r.firstUnassembled then do
      let pos ← minus r.firstUnassembled seg.1
      let segData ← substr seg.2 pos
      insertSegment erased segData r.firstUnassembled
    else some erased
  else some r

def tryAssemble (r : StreamReassembler) : Option StreamReassembler :=
  r.unassembledSegments.foldlM trimEntry r

def assembleRound (r : StreamReassembler) : Option (Bool × StreamReassembler) := do
  let r ← tryAssemble r
  match r.unassembledSegments.lookup r.firstUnassembled with
  | none => return (false, r)
  | some segData =>
      let written := r.output.write segData
      return (true,
        { r with
          output := written.2
          firstUnassembled := r.firstUnassembled + written.1
          unassembledSegments := eraseKey r.firstUnassembled r.unassembledSegments })

/-- The `while (true)` of `push_substring`, with fuel. -/
def assemble : Nat → StreamReassembler → Option StreamReassembler
  | 0, r => some r
  | fuel + 1, r => do
      let round ← assembleRound r
      if round.1 then assemble fuel round.2 else return round.2

def writeInOrder (r : StreamReassembler) (data : List Byte) (index : Nat) :
    Option StreamReassembler := do
  let truncated ← truncateData r data index
  let written := r.output.write truncated
  assemble (r.unassembledSegments.length + 1)
    { r with
      output := written.2
      firstUnassembled := r.firstUnassembled + written.1 }

def storeSubstring (r : StreamReassembler) (writeData : List Byte) (adjustedIndex : Nat) :
    Option StreamReassembler :=
  if adjustedIndex = r.firstUnassembled then writeInOrder r writeData adjustedIndex
  else if adjustedIndex > r.firstUnassembled then insertSegment r writeData adjustedIndex
  else some r

/-- How much at the front of a substring is assembled already. -/
def assembledFront (r : StreamReassembler) (index : Nat) : Option Nat :=
  if index < r.firstUnassembled then minus r.firstUnassembled index else some 0

def pushSubstring (r : StreamReassembler) (data : List Byte) (index : Nat) (eof : Bool) :
    Option StreamReassembler := do
  let r := r.noteEof data index eof
  let startData ← assembledFront r index
  if startData ≥ data.length then
    return if r.empty && r.firstUnassembled ≥ r.eofIndex then r.endOutput else r
  else
    let writeData ← substr data startData
    let r ← storeSubstring r writeData (index + startData)
    return if r.empty && r.firstUnassembled == r.eofIndex then r.endOutput else r

end Checked

/-! ## No check fails -/

/-- Buffer and map stay within the capacity. -/
def Bounded (r : StreamReassembler) : Prop :=
  r.output.buffer.length + r.unassembledBytes ≤ r.capacity.toNat

variable {r : StreamReassembler}

/-- The checks of the merge loop follow from the branch it is in. -/
theorem mergeLoop_checked (m : Blocks Byte) :
    ∀ t, Checked.mergeLoop m t = some (mergeLoop m t) := by
  induction m with
  | nil => intro t; rfl
  | cons b rest ih =>
      obtain ⟨k, d⟩ := b
      intro t
      rw [Checked.mergeLoop, mergeLoop]
      dsimp only
      by_cases hbefore : k + d.length - 1 < t.tmpIndex
      · rw [if_pos hbefore, if_pos hbefore, ih, Option.map_some]
      rw [if_neg hbefore, if_neg hbefore]
      by_cases hafter : k > t.tmpEnd
      · rw [if_pos hafter, if_pos hafter]
      rw [if_neg hafter, if_neg hafter]
      by_cases hswallow : t.tmpIndex ≤ k ∧ t.tmpEnd ≥ k + d.length - 1
      · rw [if_pos hswallow, if_pos hswallow, ih]
      rw [if_neg hswallow, if_neg hswallow]
      by_cases hcover : k ≤ t.tmpIndex ∧ k + d.length - 1 ≥ t.tmpEnd
      · rw [if_pos hcover, if_pos hcover, ih, Option.map_some]
      rw [if_neg hcover, if_neg hcover]
      by_cases hright : t.tmpIndex < k
      · -- the block reaches past the substring, by less than its length
        have hend : t.tmpEnd ≤ k + d.length - 1 := by omega
        have hextra : k + d.length - 1 - t.tmpEnd ≤ d.length := by omega
        rw [if_pos hright, if_pos hright, minus_of_le hend]
        dsimp only [Option.bind_eq_bind, Option.bind_some]
        rw [minus_of_le hextra, Option.bind_some, substr_of_le (Nat.sub_le _ _)]
        exact ih _
      · rw [if_neg hright, if_neg hright, minus_of_le (Nat.le_of_not_lt hright)]
        exact ih _

theorem truncateData_checked (h : Bounded r) (data : List Byte) (index : Nat) :
    Checked.truncateData r data index = some (r.truncateData data index) := by
  have hbound : r.output.bufferSize + r.unassembledBytes ≤ r.capacity.toNat := h
  rw [Checked.truncateData, truncateData_eq, keptLen, space_eq h,
    minus_of_le (Nat.le_trans (Nat.le_add_right _ _) hbound)]
  dsimp only [Option.bind_eq_bind, Option.bind_some]
  rw [minus_of_le (by omega)]
  rfl

theorem truncateData_length_le (h : Bounded r) (data : List Byte) (index : Nat) :
    (r.truncateData data index).length ≤ r.room := by
  rw [truncateData_eq, List.length_take]
  exact Nat.le_trans (Nat.min_le_left _ _) (keptLen_le_room h)

/-- What the merge loop leaves in the map was there before. -/
theorem mergeLoop_sublist (m : Blocks Byte) : ∀ t, (mergeLoop m t).1.Sublist m := by
  induction m with
  | nil => intro t; exact List.Sublist.refl _
  | cons b rest ih =>
      obtain ⟨k, d⟩ := b
      intro t
      rw [mergeLoop]
      dsimp only
      split_ifs
      · exact (ih _).cons_cons _
      · exact List.Sublist.refl _
      · exact (ih _).cons _
      · exact (ih _).cons_cons _
      · exact (ih _).cons _
      · exact (ih _).cons _
      · exact (ih _).cons _

theorem Bounded.sublist {m : Blocks Byte} (h : Bounded r)
    (hm : m.Sublist r.unassembledSegments) : Bounded { r with unassembledSegments := m } :=
  Nat.le_trans (Nat.add_le_add_left (total_sublist hm) _) h

/-- Insertion is within the capacity, and what it checks holds. -/
theorem insertSegment_checked (h : Bounded r) (data : List Byte) (index : Nat) :
    Checked.insertSegment r data index = some (r.insertSegment data index)
      ∧ Bounded (r.insertSegment data index) := by
  rw [Checked.insertSegment, mergeLoop_checked, insertSegment]
  dsimp only [Option.bind_eq_bind, Option.bind_some]
  have hm := mergeLoop_sublist r.unassembledSegments ⟨data, index, index + data.length - 1⟩
  generalize mergeLoop r.unassembledSegments ⟨data, index, index + data.length - 1⟩ = m
    at hm ⊢
  have hkept := h.sublist hm
  rw [truncateData_checked hkept]
  split_ifs with hempty htruncated
  · exact ⟨rfl, hkept⟩
  · rw [Option.bind_some, if_pos htruncated]
    exact ⟨rfl, hkept⟩
  · rw [Option.bind_some, if_neg htruncated]
    refine ⟨rfl, ?_⟩
    have hcut := truncateData_length_le hkept m.2.tmpData m.2.tmpIndex
    have hroom : ({ r with unassembledSegments := m.1 } : StreamReassembler).room
        = r.capacity.toNat - r.output.buffer.length - total m.1 := rfl
    have htotal := total_insertNew_le m.2.tmpIndex
      ({ r with unassembledSegments := m.1 }.truncateData m.2.tmpData m.2.tmpIndex) m.1
    have hbound : r.output.buffer.length + total m.1 ≤ r.capacity.toNat := hkept
    show r.output.buffer.length + total (insertNew _ _ m.1) ≤ r.capacity.toNat
    omega

theorem trimEntry_checked (h : Bounded r) (seg : Nat × List Byte) :
    Checked.trimEntry r seg = some (r.trimEntry seg) ∧ Bounded (r.trimEntry seg) := by
  have herased := h.sublist (m := eraseKey seg.1 r.unassembledSegments) List.filter_sublist
  rw [Checked.trimEntry, trimEntry]
  split_ifs with hbelow hreaches
  · rw [minus_of_le (Nat.le_of_lt hbelow)]
    dsimp only [Option.bind_eq_bind, Option.bind_some]
    rw [substr_of_le (by omega), Option.bind_some]
    exact insertSegment_checked herased _ _
  · exact ⟨rfl, herased⟩
  · exact ⟨rfl, h⟩

theorem tryAssemble_checked (h : Bounded r) :
    Checked.tryAssemble r = some r.tryAssemble ∧ Bounded r.tryAssemble := by
  rw [Checked.tryAssemble, tryAssemble]
  -- over the entries the map had on entry
  generalize r.unassembledSegments = m
  induction m generalizing r with
  | nil => exact ⟨rfl, h⟩
  | cons seg m ih =>
      obtain ⟨heq, hnext⟩ := trimEntry_checked h seg
      rw [List.foldlM_cons, heq, List.foldl_cons]
      exact ih hnext

/-- A block that is written moves from the map to the buffer. -/
theorem Bounded.wrote {segData : List Byte} (h : Bounded r)
    (hfound : r.unassembledSegments.lookup r.firstUnassembled = some segData) :
    Bounded { r with
      output := (r.output.write segData).2
      firstUnassembled := r.firstUnassembled + (r.output.write segData).1
      unassembledSegments := eraseKey r.firstUnassembled r.unassembledSegments } := by
  have htotal := total_eraseKey_le hfound
  have hbuffer : (r.output.write segData).2.buffer.length
      ≤ r.output.buffer.length + segData.length := by
    rw [ByteStream.write_buffer, List.length_append, List.length_take]
    omega
  have hbound : r.output.buffer.length + total r.unassembledSegments ≤ r.capacity.toNat := h
  show (r.output.write segData).2.buffer.length + total (eraseKey _ r.unassembledSegments)
    ≤ r.capacity.toNat
  omega

theorem assembleRound_checked (h : Bounded r) :
    Checked.assembleRound r = some r.assembleRound ∧ Bounded r.assembleRound.2 := by
  obtain ⟨heq, htried⟩ := tryAssemble_checked h
  rw [Checked.assembleRound, heq, assembleRound]
  dsimp only [Option.bind_eq_bind, Option.bind_some]
  cases hfound : r.tryAssemble.unassembledSegments.lookup r.tryAssemble.firstUnassembled with
  | none => exact ⟨rfl, htried⟩
  | some segData => exact ⟨rfl, htried.wrote hfound⟩

theorem assemble_checked (fuel : Nat) : ∀ {r : StreamReassembler}, Bounded r →
    Checked.assemble fuel r = some (whileTrue assembleRound fuel r) := by
  induction fuel with
  | zero => intro r _; rfl
  | succ fuel ih =>
      intro r h
      obtain ⟨heq, hnext⟩ := assembleRound_checked h
      rw [Checked.assemble, heq]
      dsimp only [Option.bind_eq_bind, Option.bind_some]
      cases hgo : r.assembleRound.1 with
      | true =>
          rw [if_pos rfl, whileTrue_go fuel hgo]
          exact ih hnext
      | false =>
          rw [if_neg Bool.false_ne_true, whileTrue_stop fuel hgo]
          rfl

theorem writeInOrder_checked (h : Bounded r) (data : List Byte) (index : Nat) :
    Checked.writeInOrder r data index = some (r.writeInOrder data index) := by
  rw [Checked.writeInOrder, truncateData_checked h, writeInOrder]
  dsimp only [Option.bind_eq_bind, Option.bind_some]
  refine assemble_checked _ ?_
  have hcut := truncateData_length_le h data index
  have hroom : r.room
      = r.capacity.toNat - r.output.buffer.length - total r.unassembledSegments := rfl
  have hbound : r.output.buffer.length + total r.unassembledSegments ≤ r.capacity.toNat := h
  show (r.output.write (r.truncateData data index)).2.buffer.length
    + total r.unassembledSegments ≤ r.capacity.toNat
  rw [ByteStream.write_buffer, List.length_append, List.length_take]
  omega

theorem storeSubstring_checked (h : Bounded r) (writeData : List Byte) (adjustedIndex : Nat) :
    Checked.storeSubstring r writeData adjustedIndex
      = some (r.storeSubstring writeData adjustedIndex) := by
  rw [Checked.storeSubstring, storeSubstring]
  split_ifs
  · exact writeInOrder_checked h _ _
  · exact (insertSegment_checked h _ _).1
  · rfl

/-- **NO CHECK FAILS** in a push, as long as buffer and map are within the capacity. -/
theorem pushSubstring_checked (h : Bounded r) (data : List Byte) (index : Nat) (eof : Bool) :
    Checked.pushSubstring r data index eof = some (r.pushSubstring data index eof) := by
  have hnoted : Bounded (r.noteEof data index eof) := by
    cases eof with
    | true => exact h
    | false => exact h
  rw [Checked.pushSubstring, pushSubstring]
  generalize r.noteEof data index eof = q at hnoted ⊢
  dsimp only
  have hstart : Checked.assembledFront q index
      = some (if index < q.firstUnassembled then q.firstUnassembled - index else 0) := by
    rw [Checked.assembledFront]
    split_ifs with hbelow
    · exact minus_of_le (Nat.le_of_lt hbelow)
    · rfl
  rw [hstart]
  dsimp only [Option.bind_eq_bind, Option.bind_some]
  generalize (if index < q.firstUnassembled then q.firstUnassembled - index else 0) = startData
  by_cases hstale : startData ≥ data.length
  · rw [if_pos hstale, if_pos hstale]
    rfl
  · rw [if_neg hstale, if_neg hstale, substr_of_le (Nat.le_of_not_le hstale), Option.bind_some,
      storeSubstring_checked hnoted]
    rfl

/-! ## The bound over whole runs -/

/-- No call changes the capacity. -/
theorem step_capacity {x y : History} {op : Op} (hw : WellFormed x.reassembler)
    (hstep : step x op = some y) : y.reassembler.capacity = x.reassembler.capacity := by
  cases op with
  | push data index eof =>
      rw [← Option.some.inj hstep]
      obtain ⟨-, hframe, -⟩ := pushed hw data index eof
      exact hframe.capacity
  | read len => rw [← Option.some.inj hstep]; rfl
  | pop len => rw [← Option.some.inj hstep]; rfl

/-- **THE STORE IS BOUNDED**: after any run of pushes, reads and pops, buffer and parked
    blocks fit into the capacity; every parked block is not empty, starts beyond the next
    index and ends before the one after it starts; the parked bytes are as many as the
    indices they cover; and no check fails in a push that follows. -/
theorem storage_bounded (capacity : UInt64) (ops : List Op) (x : History)
    (hrun : run step (start capacity) ops = some x) :
    x.reassembler.output.bufferSize + x.reassembler.unassembledBytes ≤ capacity.toNat
      ∧ (∀ b ∈ x.reassembler.unassembledSegments,
        b.2 ≠ [] ∧ x.reassembler.firstUnassembled < b.1)
      ∧ (x.reassembler.unassembledSegments.Pairwise fun b c => b.1 + b.2.length ≤ c.1)
      ∧ x.reassembler.unassembledBytes
        = {k | Covers x.reassembler.unassembledSegments k}.ncard
      ∧ ∀ data index eof, Checked.pushSubstring x.reassembler data index eof
        = some (x.reassembler.pushSubstring data index eof) := by
  obtain ⟨hw, hcapacity⟩ : WellFormed x.reassembler ∧ x.reassembler.capacity = capacity := by
    refine run_keeps
      (I := fun x : History => WellFormed x.reassembler ∧ x.reassembler.capacity = capacity)
      ?_ ⟨wellFormed_new capacity, rfl⟩ hrun
    rintro y op z ⟨hy, hsame⟩ hstep
    exact ⟨step_wellFormed hy hstep, (step_capacity hy hstep).trans hsame⟩
  refine ⟨?_, ?_, hw.packed.pairwise, hw.packed.total_eq_ncard, ?_⟩
  · rw [← hcapacity]
    exact hw.bounded
  · intro b hb
    obtain ⟨hlo, hne⟩ := hw.packed.mem hb
    exact ⟨hne, hlo⟩
  · exact pushSubstring_checked hw.bounded

/-- Inconsistent data around a hole, with room for three: two bytes are parked. -/
theorem storage_bounded_inconsistent :
    ∃ x, run step (start 3) [.push [98] 1 false, .push [120, 121] 2 false,
        .push [122, 122] 1 true] = some x
      ∧ x.reassembler.unassembledBytes = 2
      ∧ {k | Covers x.reassembler.unassembledSegments k}.ncard = 2
      ∧ Checked.pushSubstring x.reassembler [97, 97] 0 false
        = some (x.reassembler.pushSubstring [97, 97] 0 false) := by
  have hreach : ∃ x, run step (start 3) [.push [98] 1 false, .push [120, 121] 2 false,
        .push [122, 122] 1 true] = some x
      ∧ x.reassembler.unassembledBytes = 2 := run_reaches (by decide)
  obtain ⟨x, hrun, htotal⟩ := hreach
  obtain ⟨-, -, -, hcount, hchecked⟩ := storage_bounded 3 _ x hrun
  exact ⟨x, hrun, htotal, hcount.symm.trans htotal, hchecked _ _ _⟩

/-! ## The end of the stream -/

/-- The call announces the end of the stream. -/
def Announces : Op → Prop
  | .push _ _ eof => eof = true
  | .read _ => False
  | .pop _ => False

instance : DecidablePred Announces
  | .push _ _ eof => inferInstanceAs (Decidable (eof = true))
  | .read _ => isFalse id
  | .pop _ => isFalse id

/-- With the end of `S` announced the output has ended iff all of `S` is written; before
    that it has not. -/
structure EndKnown (S : List Byte) (announced : Prop) (r : StreamReassembler) : Prop where
  known : announced → r.eofIndex = S.length
    ∧ (r.output.inputEnded = true ↔ r.firstUnassembled = S.length)
  unknown : ¬ announced → r.eofIndex = 2 ^ 64 - 1 ∧ r.output.inputEnded = false

variable {S : List Byte} {announced : Prop}

theorem EndKnown.congr {announced' : Prop} (h : EndKnown S announced r)
    (hiff : announced ↔ announced') : EndKnown S announced' r :=
  ⟨fun h' => h.known (hiff.mpr h'), fun h' => h.unknown fun ha => h' (hiff.mp ha)⟩

/-- The reader does not touch it. -/
theorem EndKnown.popOut (h : EndKnown S announced r) (len : Nat) :
    EndKnown S announced (r.popOut len) := ⟨h.known, h.unknown⟩

/-- When a push ends the output: if it had ended, or all of `S` is written and the
    end-of-stream index is its length. -/
theorem ended_push {popped data : List Byte} {index : Nat} {eof : Bool} (hw : WellFormed r)
    (hS : S.length < 2 ^ 63) (hholds : Holds S popped (r.pushSubstring data index eof))
    (heof : (r.pushSubstring data index eof).eofIndex = S.length
      ∨ (r.pushSubstring data index eof).eofIndex = 2 ^ 64 - 1) :
    (r.pushSubstring data index eof).output.inputEnded = true
      ↔ r.output.inputEnded = true
        ∨ ((r.pushSubstring data index eof).eofIndex = S.length
          ∧ (r.pushSubstring data index eof).firstUnassembled = S.length) := by
  obtain ⟨-, -, hend⟩ := pushed hw data index eof
  have hinside := hholds.inside
  constructor
  · intro hended
    refine (hend.ended_new hended).imp_right ?_
    rintro ⟨-, hreached⟩
    omega
  · rintro (hended | ⟨hlast, hall⟩)
    · exact hend.ended_mono hended
    · refine hend.ended_of (hholds.nil_of_whole (hw.push data index eof) hall) ?_
      rw [hall, hlast]

/-- A push that announces the end fixes its index, and any other leaves it. -/
theorem eofIndex_push {data : List Byte} {index : Nat} {eof : Bool} (hw : WellFormed r)
    (hS : S.length < 2 ^ 63) (hop : (Op.push data index eof).Genuine S) :
    (r.pushSubstring data index eof).eofIndex = if eof then S.length else r.eofIndex := by
  obtain ⟨-, -, hend⟩ := pushed hw data index eof
  rw [hend.eofIndex]
  cases eof with
  | true =>
      rw [if_pos rfl, if_pos rfl, hop.2.2 rfl]
      exact Nat.mod_eq_of_lt (by omega)
  | false => rfl

theorem EndKnown.push {popped data : List Byte} {index : Nat} {eof : Bool}
    (hw : WellFormed r) (hS : S.length < 2 ^ 63) (hholds : Holds S popped r)
    (h : EndKnown S announced r) (hop : (Op.push data index eof).Genuine S) :
    EndKnown S (announced ∨ eof = true) (r.pushSubstring data index eof) := by
  have hindex := eofIndex_push hw hS hop
  have hpushed : Holds S popped (r.pushSubstring data index eof) :=
    hholds.push hw (genuine_slice hop)
  have hended := ended_push hw hS hpushed
  refine ⟨fun hknown => ?_, fun hnot => ?_⟩
  · have hlast : (r.pushSubstring data index eof).eofIndex = S.length := by
      rw [hindex]
      split_ifs with heof
      · rfl
      · exact (h.known (hknown.resolve_right heof)).1
    refine ⟨hlast, ?_⟩
    rw [hended (Or.inl hlast), and_iff_right hlast]
    refine or_iff_right_of_imp fun hbefore => ?_
    -- it had ended, so the end was announced and all is written
    have hann : announced := by
      by_contra hnot
      rw [(h.unknown hnot).2] at hbefore
      exact Bool.false_ne_true hbefore
    have hall := (h.known hann).2.mp hbefore
    have hmono := firstUnassembled_le_push hw data index eof
    have hinside := hpushed.inside
    omega
  · have heof : eof = false := Bool.eq_false_iff.mpr fun ht => hnot (Or.inr ht)
    obtain ⟨hmax, hopen⟩ := h.unknown fun ha => hnot (Or.inl ha)
    rw [heof, if_neg Bool.false_ne_true, hmax] at hindex
    rw [heof] at hended ⊢
    refine ⟨hindex, Bool.eq_false_iff.mpr fun hend => ?_⟩
    rcases (hended (Or.inr hindex)).mp hend with hbefore | ⟨hlast, -⟩
    · rw [hopen] at hbefore
      exact Bool.false_ne_true hbefore
    · omega

theorem EndKnown.called {x y : History} {op : Op} (hS : S.length < 2 ^ 63)
    (hx : WellFormed x.reassembler ∧ Holds S x.popped x.reassembler)
    (h : EndKnown S announced x.reassembler) (hop : op.Genuine S)
    (hstep : step x op = some y) : EndKnown S (announced ∨ Announces op) y.reassembler := by
  cases op with
  | push data index eof =>
      rw [← Option.some.inj hstep]
      exact h.push hx.1 hS hx.2 hop
  | read len =>
      rw [← Option.some.inj hstep]
      exact (h.popOut _).congr (or_iff_left id).symm
  | pop len =>
      rw [← Option.some.inj hstep]
      exact (h.popOut len).congr (or_iff_left id).symm

/-- Over a run, from any state that holds slices of `S`. -/
theorem EndKnown.after (hS : S.length < 2 ^ 63) : ∀ (ops : List Op) {announced : Prop}
    {x y : History}, WellFormed x.reassembler ∧ Holds S x.popped x.reassembler →
    EndKnown S announced x.reassembler → (∀ op ∈ ops, op.Genuine S) →
    run step x ops = some y →
    EndKnown S (announced ∨ ∃ op ∈ ops, Announces op) y.reassembler := by
  intro ops
  induction ops with
  | nil =>
      intro announced x y _ h _ hrun
      rw [← Option.some.inj hrun]
      exact h.congr (or_iff_left (by simp)).symm
  | cons op ops ih =>
      intro announced x y hx h hops hrun
      obtain ⟨z, hz, hrest⟩ := Option.bind_eq_some_iff.mp hrun
      have hop := hops op (List.mem_cons_self ..)
      have hlater := ih (step_holds hx hop hz) (h.called hS hx hop hz)
        (fun op hmem => hops op (List.mem_cons_of_mem _ hmem)) hrest
      refine hlater.congr ?_
      rw [List.exists_mem_cons_iff, or_assoc]

/-- **THE END, EXACTLY**: after any run of pushes of slices of `S`, with the end announced
    only where a slice ends with `S`, the output has ended iff the end was announced and
    all of `S` is written. -/
theorem ended_iff (S : List Byte) (hS : S.length < 2 ^ 63) (capacity : UInt64)
    (ops : List Op) (hops : ∀ op ∈ ops, op.Genuine S) (x : History)
    (hrun : run step (start capacity) ops = some x) :
    x.reassembler.output.inputEnded = true
      ↔ (∃ op ∈ ops, Announces op) ∧ x.reassembler.firstUnassembled = S.length := by
  have hstart : EndKnown S False (start capacity).reassembler :=
    ⟨fun h => absurd h id, fun _ => ⟨rfl, rfl⟩⟩
  have h := (hstart.after hS ops ⟨wellFormed_new capacity, holds_new S capacity⟩ hops
    hrun).congr (or_iff_right id)
  by_cases hann : ∃ op ∈ ops, Announces op
  · rw [(h.known hann).2, and_iff_right hann]
  · rw [(h.unknown hann).2]
    exact iff_of_false Bool.false_ne_true fun hboth => hann hboth.1

/-- The end of `abc` is announced by an empty substring while `b` is missing. -/
theorem ended_iff_abc :
    ∃ x, run step (start 3)
        [.push [99] 2 false, .push [] 3 true, .push [97] 0 false, .push [98] 1 false] = some x
      ∧ x.reassembler.output.inputEnded = true := by
  have hreach : ∃ x, run step (start 3)
        [.push [99] 2 false, .push [] 3 true, .push [97] 0 false, .push [98] 1 false] = some x
      ∧ x.reassembler.firstUnassembled = 3 := run_reaches (by decide)
  obtain ⟨x, hrun, hall⟩ := hreach
  exact ⟨x, hrun, (ended_iff [97, 98, 99] (by decide) 3 _ (by decide) x hrun).mpr
    ⟨by decide, hall⟩⟩

end SpongeStorage
