import Sponge.ByteStreamProofs

/-! # Buffers — `buffer`

    A `Buffer` is a string that can discard bytes from the front: an offset into a
    shared storage, which is released once all of it is discarded.  The offset
    never passes the end of the storage; the structure carries that.  A
    `BufferList` is a string in pieces, a `BufferViewList` a view of one.  Both discard a
    prefix by the same loop over their pieces; `removePrefix_exact` says what it does. -/

namespace SpongeBuffer

open SpongeByteStream

structure Buffer where
  storage : Option (List Byte) := none
  startingOffset : Nat := 0
  inBounds : ∀ s ∈ storage, startingOffset ≤ s.length := by exact fun _ h => nomatch h
deriving DecidableEq, Repr

namespace Buffer

/-- The constructor that takes a string over. -/
def ofString (s : List Byte) : Buffer where
  storage := some s
  startingOffset := 0
  inBounds := fun _ _ => Nat.zero_le _

def str (b : Buffer) : List Byte :=
  match b.storage with
  | none => []
  | some s => s.drop b.startingOffset

def size (b : Buffer) : Nat := b.str.length

theorem size_of_storage {b : Buffer} {s : List Byte} (h : b.storage = some s) :
    b.size = s.length - b.startingOffset := by
  rw [size, str, h, List.length_drop]

/-- `remove_prefix` past its check; used where the size is known. -/
def advance (b : Buffer) (n : Nat) (hn : n ≤ b.size) : Buffer :=
  match hs : b.storage with
  | none => { storage := none, startingOffset := b.startingOffset + n }
  | some s =>
      if b.startingOffset + n = s.length then
        { storage := none, startingOffset := b.startingOffset + n }
      else
        { storage := some s
          startingOffset := b.startingOffset + n
          inBounds := by
            intro s' hs'
            have hle := b.inBounds s hs
            rw [size_of_storage hs] at hn
            rw [← Option.some.inj hs']
            omega }

def removePrefix (b : Buffer) (n : Nat) : Except String Buffer :=
  if h : n ≤ b.size then .ok (b.advance n h) else .error "Buffer::remove_prefix"

/-- **A PREFIX IS DISCARDED**, and nothing else. -/
theorem str_advance (b : Buffer) (n : Nat) (hn : n ≤ b.size) :
    (b.advance n hn).str = b.str.drop n := by
  obtain ⟨storage, offset, hbounds⟩ := b
  cases storage with
  | none => exact List.drop_nil.symm
  | some s =>
      show (if offset + n = s.length then _ else _ : Buffer).str = (s.drop offset).drop n
      rw [List.drop_drop]
      split_ifs with hend
      · exact (List.drop_of_length_le (Nat.le_of_eq hend.symm)).symm
      · rfl

end Buffer

/-- The sizes of pieces add up to the size of the whole. -/
theorem foldl_length {β : Type} (bytes : β → List Byte) (pieces : List β) (n : Nat) :
    pieces.foldl (fun ret piece => ret + (bytes piece).length) n
      = n + (pieces.flatMap bytes).length := by
  induction pieces generalizing n with
  | nil => rfl
  | cons piece pieces ih =>
      rw [List.foldl_cons, ih, List.flatMap_cons, List.length_append, Nat.add_assoc]

structure BufferList where
  buffers : List Buffer := []
deriving DecidableEq, Repr

namespace BufferList

def ofBuffer (b : Buffer) : BufferList := ⟨[b]⟩

def ofString (s : List Byte) : BufferList := ⟨[.ofString s]⟩

def append (l other : BufferList) : BufferList := ⟨l.buffers ++ other.buffers⟩

def size (l : BufferList) : Nat := l.buffers.foldl (fun ret buf => ret + buf.size) 0

/-- The pieces as one string. -/
def concatenate (l : BufferList) : List Byte :=
  l.buffers.foldl (fun ret buf => ret ++ buf.str) []

/-- `operator Buffer` -/
def toBuffer (l : BufferList) : Except String Buffer :=
  match l.buffers with
  | [] => .ok {}
  | [b] => .ok b
  | _ :: _ :: _ =>
      .error ("BufferList: please use concatenate() to combine a multi-Buffer "
        ++ "BufferList into one Buffer")

/-- A list in at most one piece is a buffer. -/
theorem toBuffer_of_single {l : BufferList} (h : l.buffers.length ≤ 1) :
    ∃ b, l.toBuffer = .ok b := by
  obtain ⟨buffers⟩ := l
  match buffers, h with
  | [], _ => exact ⟨{}, rfl⟩
  | [b], _ => exact ⟨b, rfl⟩

theorem concatenate_eq (l : BufferList) : l.concatenate = l.buffers.flatMap Buffer.str := by
  have hgo : ∀ (bs : List Buffer) (s : List Byte),
      bs.foldl (fun ret buf => ret ++ buf.str) s = s ++ bs.flatMap Buffer.str := by
    intro bs
    induction bs with
    | nil => simp
    | cons b bs ih => simp [ih]
  rw [concatenate, hgo, List.nil_append]

@[simp] theorem concatenate_append (l other : BufferList) :
    (l.append other).concatenate = l.concatenate ++ other.concatenate := by
  simp [concatenate_eq, append]

@[simp] theorem concatenate_ofString (s : List Byte) : (ofString s).concatenate = s := rfl

/-- The size is that of the whole. -/
theorem size_eq_length (l : BufferList) : l.size = l.concatenate.length := by
  rw [concatenate_eq]
  exact (foldl_length Buffer.str l.buffers 0).trans (Nat.zero_add _)

end BufferList

/-! ## Discarding a prefix of a string in pieces -/

section Pieces

variable {β : Type} (bytes : β → List Byte) (cut : β → Nat → Except String β) (text : String)

/-- The loop of both `remove_prefix`: a piece that is too long is cut, any other is dropped
    from the front, and it raises when there is none.  What was dropped stays dropped. -/
def removeLoop : List β → Nat → Except String Unit × List β
  | pieces, 0 => (.ok (), pieces)
  | [], _ + 1 => (.error text, [])
  | piece :: rest, n + 1 =>
      if n + 1 < (bytes piece).length then
        match cut piece (n + 1) with
        | .ok piece' => (.ok (), piece' :: rest)
        | .error text' => (.error text', piece :: rest)
      else removeLoop rest (n + 1 - (bytes piece).length)

theorem removeLoop_cut {piece piece' : β} {n : Nat} (rest : List β)
    (hn : n + 1 < (bytes piece).length) (hcut : cut piece (n + 1) = .ok piece') :
    removeLoop bytes cut text (piece :: rest) (n + 1) = (.ok (), piece' :: rest) := by
  rw [removeLoop, if_pos hn, hcut]

theorem removeLoop_drop {piece : β} {n : Nat} (rest : List β)
    (hn : ¬ n + 1 < (bytes piece).length) :
    removeLoop bytes cut text (piece :: rest) (n + 1)
      = removeLoop bytes cut text rest (n + 1 - (bytes piece).length) := by
  rw [removeLoop, if_neg hn]

variable {bytes cut} (hcut : ∀ piece n, n ≤ (bytes piece).length →
  ∃ piece', cut piece n = .ok piece' ∧ bytes piece' = (bytes piece).drop n)

include hcut

/-- **THE PREFIX IS DROPPED**, if there is as much; no round raises. -/
theorem removeLoop_of_le (pieces : List β) (n : Nat) (hn : n ≤ (pieces.flatMap bytes).length) :
    ∃ pieces', removeLoop bytes cut text pieces n = (.ok (), pieces')
      ∧ pieces'.flatMap bytes = (pieces.flatMap bytes).drop n := by
  -- every round but the last takes one piece away, also an empty one
  induction pieces generalizing n with
  | nil =>
      obtain rfl : n = 0 := Nat.le_zero.mp hn
      exact ⟨[], rfl, rfl⟩
  | cons piece rest ih =>
      cases n with
      | zero => exact ⟨piece :: rest, rfl, rfl⟩
      | succ n =>
          rw [List.flatMap_cons] at hn ⊢
          by_cases hlong : n + 1 < (bytes piece).length
          · obtain ⟨piece', hok, hbytes⟩ := hcut piece (n + 1) (Nat.le_of_lt hlong)
            refine ⟨piece' :: rest, removeLoop_cut bytes cut text rest hlong hok, ?_⟩
            rw [List.flatMap_cons, hbytes, List.drop_append_of_le_length (Nat.le_of_lt hlong)]
          · rw [List.length_append] at hn
            obtain ⟨pieces', hok, hrest⟩ := ih (n + 1 - (bytes piece).length) (by omega)
            refine ⟨pieces', (removeLoop_drop bytes cut text rest hlong).trans hok, ?_⟩
            rw [hrest, List.drop_append, List.drop_of_length_le (Nat.le_of_not_lt hlong),
              List.nil_append]

omit hcut in
/-- **TOO MUCH RAISES**, when all is dropped. -/
theorem removeLoop_of_gt (pieces : List β) (n : Nat) (hn : (pieces.flatMap bytes).length < n) :
    removeLoop bytes cut text pieces n = (.error text, []) := by
  induction pieces generalizing n with
  | nil =>
      obtain ⟨n, rfl⟩ := Nat.exists_eq_succ_of_ne_zero (Nat.ne_of_gt hn)
      rfl
  | cons piece rest ih =>
      obtain ⟨n, rfl⟩ := Nat.exists_eq_succ_of_ne_zero (Nat.ne_of_gt (Nat.zero_lt_of_lt hn))
      rw [List.flatMap_cons, List.length_append] at hn
      rw [removeLoop_drop bytes cut text rest (by omega)]
      exact ih _ (by omega)

/-- **THE SAME PIECES** are left, whatever holds their bytes. -/
theorem map_removeLoop (text' : String) (pieces : List β) (n : Nat) :
    (removeLoop id (fun s n => .ok (s.drop n)) text' (pieces.map bytes) n).2
      = (removeLoop bytes cut text pieces n).2.map bytes := by
  induction pieces generalizing n with
  | nil => cases n <;> rfl
  | cons piece rest ih =>
      cases n with
      | zero => rfl
      | succ n =>
          rw [List.map_cons]
          by_cases hlong : n + 1 < (bytes piece).length
          · obtain ⟨piece', hok, hbytes⟩ := hcut piece (n + 1) (Nat.le_of_lt hlong)
            rw [removeLoop_cut bytes cut text rest hlong hok,
              removeLoop_cut id _ text' _ hlong rfl, List.map_cons, hbytes]
          · rw [removeLoop_drop bytes cut text rest hlong, removeLoop_drop id _ text' _ hlong]
            exact ih _

end Pieces

/-- A buffer of its own can be cut up to its end. -/
theorem Buffer.removePrefix_ok (b : Buffer) (n : Nat) (hn : n ≤ b.str.length) :
    ∃ b', b.removePrefix n = .ok b' ∧ b'.str = b.str.drop n :=
  ⟨b.advance n hn, dif_pos hn, b.str_advance n hn⟩

namespace BufferList

def removePrefix (l : BufferList) (n : Nat) : Except String Unit × BufferList :=
  let removed := removeLoop Buffer.str Buffer.removePrefix "BufferList::remove_prefix" l.buffers n
  (removed.1, ⟨removed.2⟩)

end BufferList

/-- A non-owning view of a string in pieces. -/
structure BufferViewList where
  views : List (List Byte) := []
deriving DecidableEq, Repr

namespace BufferViewList

/-- The constructor that looks at the buffers of a list. -/
def ofBufferList (l : BufferList) : BufferViewList := ⟨l.buffers.map Buffer.str⟩

/-- The text is the source's. -/
def removePrefix (l : BufferViewList) (n : Nat) : Except String Unit × BufferViewList :=
  let removed :=
    removeLoop id (fun view n => .ok (view.drop n)) "BufferListView::remove_prefix" l.views n
  (removed.1, ⟨removed.2⟩)

def size (l : BufferViewList) : Nat := l.views.foldl (fun ret view => ret + view.length) 0

/-- `as_iovecs`: where each view starts, given by the bytes there, and its size. -/
def asIovecs (l : BufferViewList) : List (List Byte × Nat) :=
  l.views.map fun x => (x, x.length)

theorem size_eq_length (l : BufferViewList) : l.size = l.views.flatten.length := by
  rw [← List.flatMap_id]
  exact (foldl_length id l.views 0).trans (Nat.zero_add _)

theorem flatten_ofBufferList (l : BufferList) :
    (ofBufferList l).views.flatten = l.concatenate := by
  rw [ofBufferList, BufferList.concatenate_eq, List.flatMap_def]

theorem size_ofBufferList (l : BufferList) : (ofBufferList l).size = l.size := by
  rw [size_eq_length, flatten_ofBufferList, BufferList.size_eq_length]

/-- The view goes through the same pieces as the list it looks at. -/
theorem removePrefix_snd (l : BufferList) (n : Nat) :
    ((ofBufferList l).removePrefix n).2 = ofBufferList (l.removePrefix n).2 :=
  congrArg BufferViewList.mk
    (map_removeLoop "BufferList::remove_prefix" Buffer.removePrefix_ok
      "BufferListView::remove_prefix" l.buffers n)

end BufferViewList

/-- **A PREFIX OF A LIST OF BUFFERS**: what is there is discarded, and nothing else, in the
    list and in a view of it alike; what is not there raises in both. -/
theorem removePrefix_exact (l : BufferList) (n : Nat) :
    (n ≤ l.size →
      ∃ l' : BufferList, l.removePrefix n = (.ok (), l')
        ∧ l'.concatenate = l.concatenate.drop n ∧ l'.size = l.size - n
        ∧ (BufferViewList.ofBufferList l).removePrefix n = (.ok (), .ofBufferList l')
        ∧ (BufferViewList.ofBufferList l').size = l.size - n
        ∧ (BufferViewList.ofBufferList l').asIovecs = l'.buffers.map fun b => (b.str, b.size))
      ∧ (l.size < n →
        l.removePrefix n = (.error "BufferList::remove_prefix", {})
          ∧ (BufferViewList.ofBufferList l).removePrefix n
            = (.error "BufferListView::remove_prefix", {})) := by
  have hsize : l.size = (l.buffers.flatMap Buffer.str).length := by
    rw [BufferList.size_eq_length, BufferList.concatenate_eq]
  have hviews : l.size = ((BufferViewList.ofBufferList l).views.flatMap id).length := by
    rw [List.flatMap_id, BufferViewList.flatten_ofBufferList, BufferList.size_eq_length]
  constructor
  · intro hn
    obtain ⟨buffers, hok, hdrop⟩ := removeLoop_of_le "BufferList::remove_prefix"
      Buffer.removePrefix_ok l.buffers n (hsize ▸ hn)
    obtain ⟨views, hvok, -⟩ := removeLoop_of_le "BufferListView::remove_prefix"
      (fun view n _ => ⟨view.drop n, rfl, rfl⟩) (BufferViewList.ofBufferList l).views n
      (hviews ▸ hn)
    have hlist : l.removePrefix n = (.ok (), ⟨buffers⟩) := by
      rw [BufferList.removePrefix, hok]
    have hview : (BufferViewList.ofBufferList l).removePrefix n
        = (.ok (), .ofBufferList ⟨buffers⟩) := by
      refine Prod.ext ?_ ?_
      · rw [BufferViewList.removePrefix, hvok]
      · rw [BufferViewList.removePrefix_snd, hlist]
    have hconcat : BufferList.concatenate ⟨buffers⟩ = l.concatenate.drop n := by
      rw [BufferList.concatenate_eq, BufferList.concatenate_eq]
      exact hdrop
    have hleft : BufferList.size ⟨buffers⟩ = l.size - n := by
      rw [BufferList.size_eq_length, hconcat, List.length_drop, BufferList.size_eq_length]
    refine ⟨⟨buffers⟩, hlist, hconcat, hleft, hview, ?_, ?_⟩
    · rw [BufferViewList.size_ofBufferList, hleft]
    · rw [BufferViewList.asIovecs, BufferViewList.ofBufferList, List.map_map]
      rfl
  · intro hn
    constructor
    · rw [BufferList.removePrefix, removeLoop_of_gt _ l.buffers n (hsize ▸ hn)]
    · rw [BufferViewList.removePrefix, removeLoop_of_gt _ _ n (hviews ▸ hn)]

end SpongeBuffer
