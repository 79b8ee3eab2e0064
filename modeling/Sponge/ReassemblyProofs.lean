import Mathlib.Order.Bounds.Basic
import Sponge.ReassemblerProofs

/-! # Reassembly over whole runs

    A run pushes substrings, reads and pops in any order.  Three laws:

    * `reassembles_any_order` — whatever slices of a byte string are pushed,
      the output is always a front part of that string and everything parked
      is a slice of it;
    * `longest_iff_noLoss` — when every push lies inside the window, the next
      index is the length of the longest front part pushed so far exactly as
      long as no in-order push is cut short of bytes that are not parked yet:
      the space test counts the parked bytes against a substring that may
      contain them (`overlap_counted_twice`);
    * `edge_respected_iff` — no byte is kept at or beyond the window's right
      edge exactly as long as no push with room left starts strictly beyond
      it: there the distance to the edge wraps (`stored_beyond_edge`). -/

namespace SpongeReassembly

open SpongeByteStream SpongeReassembler BlockMap ListSlice Word64 RunRule
open StreamReassembler

/-- A call on the reassembler or on its output stream. -/
inductive Op where
  | push (data : List Byte) (index : Nat) (eof : Bool)
  | read (len : Nat)
  | pop (len : Nat)
deriving DecidableEq, Repr

/-- A reassembler with the history of its run: the bytes taken out of the
    output, and the ranges of the substrings pushed. -/
structure History where
  reassembler : StreamReassembler
  popped : List Byte
  pushes : List (Nat × Nat)
deriving DecidableEq, Repr

/-- A fresh reassembler. -/
def start (capacity : UInt64) : History := ⟨new capacity, [], []⟩

/-- One call.  Every call is possible in every state. -/
def step (x : History) : Op → Option History
  | .push data index eof => some
      { x with
        reassembler := x.reassembler.pushSubstring data index eof
        pushes := x.pushes ++ [(index, index + data.length)] }
  | .read len => some
      { x with
        reassembler := x.reassembler.readOut len
        popped := x.popped ++ (x.reassembler.output.read len).1 }
  | .pop len => some
      { x with
        reassembler := x.reassembler.popOut len
        popped := x.popped ++ x.reassembler.output.buffer.take len }

/-- The byte at position `k` has been pushed. -/
def History.Delivered (x : History) (k : Nat) : Prop :=
  ∃ p ∈ x.pushes, p.1 ≤ k ∧ k < p.2

/-- The position after the last byte the window has room for. -/
def History.edge (x : History) : Nat :=
  x.reassembler.output.bytesRead + x.reassembler.capacity.toNat

/-- The calls that push slices of `S`: a pushed substring is `S[index..j)`,
    and `eof` is given only with the last byte. -/
def Op.Genuine (S : List Byte) : Op → Prop
  | .push data index eof =>
      index + data.length ≤ S.length ∧ data = (S.drop index).take data.length
        ∧ (eof = true → index + data.length = S.length)
  | .read _ => True
  | .pop _ => True

instance (S : List Byte) : ∀ op : Op, Decidable (op.Genuine S)
  | .push data index eof =>
      inferInstanceAs (Decidable (index + data.length ≤ S.length
        ∧ data = (S.drop index).take data.length
        ∧ (eof = true → index + data.length = S.length)))
  | .read _ => isTrue trivial
  | .pop _ => isTrue trivial

theorem genuine_slice {S data : List Byte} {index : Nat} {eof : Bool}
    (h : (Op.push data index eof).Genuine S) : SliceAt S index data := by
  rw [h.2.1]
  exact sliceAt_take_drop S index data.length

/-- Every call keeps the reassembler well formed. -/
theorem step_wellFormed {x y : History} {op : Op}
    (hx : WellFormed x.reassembler) (hstep : step x op = some y) :
    WellFormed y.reassembler := by
  cases op with
  | push data index eof =>
      rw [← Option.some.inj hstep]
      exact hx.push data index eof
  | read len =>
      rw [← Option.some.inj hstep]
      exact hx.readOut len
  | pop len =>
      rw [← Option.some.inj hstep]
      exact hx.popOut len

/-- The edge is a matter of the bytes read alone. -/
theorem edge_push {x y : History} {data : List Byte} {index : Nat} {eof : Bool}
    (hw : WellFormed x.reassembler) (hstep : step x (.push data index eof) = some y) :
    y.edge = x.edge := by
  rw [← Option.some.inj hstep]
  obtain ⟨-, hf, -⟩ := pushed hw data index eof
  show (x.reassembler.pushSubstring data index eof).output.bytesRead
    + (x.reassembler.pushSubstring data index eof).capacity.toNat = x.edge
  rw [hf.bytesRead, hf.capacity]
  rfl

/-- What the reader does: the edge moves on, and what was pushed and where it is
    kept stay. -/
structure Consumed (x y : History) : Prop where
  pushes : y.pushes = x.pushes
  segments : y.reassembler.unassembledSegments = x.reassembler.unassembledSegments
  firstUnassembled : y.reassembler.firstUnassembled = x.reassembler.firstUnassembled
  edge : x.edge ≤ y.edge

theorem consumed_read {x y : History} {len : Nat} (hstep : step x (.read len) = some y) :
    Consumed x y := by
  rw [← Option.some.inj hstep]
  exact ⟨rfl, rfl, rfl, Nat.add_le_add_right (Nat.le_add_right _ _) _⟩

theorem consumed_pop {x y : History} {len : Nat} (hstep : step x (.pop len) = some y) :
    Consumed x y := by
  rw [← Option.some.inj hstep]
  exact ⟨rfl, rfl, rfl, Nat.add_le_add_right (Nat.le_add_right _ _) _⟩

/-! ## Any order, any overlap -/

/-- The reassembler holds nothing but `S`: out of it came, and in its buffer
    wait, the first bytes; parked are slices. -/
structure Holds (S popped : List Byte) (r : StreamReassembler) : Prop where
  assembled : popped ++ r.output.buffer = S.take r.firstUnassembled
  inside : r.firstUnassembled ≤ S.length
  slices : ∀ b ∈ r.unassembledSegments, SliceAt S b.1 b.2

/-- Only the store matters. -/
theorem Holds.congr {S popped : List Byte} {r r' : StreamReassembler}
    (h : Holds S popped r) (same : SameStore r r') : Holds S popped r' := by
  refine ⟨?_, ?_, ?_⟩
  · rw [same.buffer, same.firstUnassembled]; exact h.assembled
  · rw [same.firstUnassembled]; exact h.inside
  · rw [same.segments]; exact h.slices

/-- What is held of a string is held of every string it begins. -/
theorem Holds.mono {S T popped : List Byte} {r : StreamReassembler}
    (h : Holds S popped r) (hST : S <+: T) : Holds T popped r where
  assembled := by
    obtain ⟨rest, rfl⟩ := hST
    rw [List.take_append_of_le_length h.inside]
    exact h.assembled
  inside := Nat.le_trans h.inside hST.length_le
  slices := fun b hb => (h.slices b hb).mono hST

theorem Holds.push {S popped data : List Byte} {index : Nat} {eof : Bool}
    {r : StreamReassembler} (hw : WellFormed r) (h : Holds S popped r)
    (hdata : SliceAt S index data) :
    Holds S popped (r.pushSubstring data index eof) := by
  obtain ⟨hp, -, -⟩ := pushed hw data index eof
  cases hp with
  | stale _ same => exact h.congr same
  | covered b _ _ _ _ _ _ same => exact h.congr same
  | inOrder w hle hlt hwr buffer first segments =>
      -- what is written is a slice at the next index, and so is what follows on
      have hchunk : SliceAt S r.firstUnassembled
          ((data.drop (r.firstUnassembled - index)).take w) := by
        have hcut := (hdata.drop (r.firstUnassembled - index)).take w
        rw [show index + (r.firstUnassembled - index) = r.firstUnassembled by omega]
          at hcut
        exact hcut
      have hlen : ((data.drop (r.firstUnassembled - index)).take w).length = w := by
        rw [List.length_take, List.length_drop]; omega
      have htrim := trimFront_slices (f := r.firstUnassembled + w) h.slices
      have hfollow := absorb_slice (f := r.firstUnassembled + w) htrim
      have hin := hchunk.end_le_of_le h.inside
      rw [hlen] at hin
      refine ⟨?_, ?_, ?_⟩
      · rw [buffer, first, ← List.append_assoc, ← List.append_assoc, h.assembled,
          hchunk.take_append h.inside, hlen, hfollow.take_append hin]
      · rw [first]
        exact hfollow.end_le_of_le hin
      · rw [segments]
        exact fun b hb => htrim b (absorb_mem b hb)
  | inserted before after start merged hgt hne hm buffer first segments =>
      refine ⟨?_, ?_, ?_⟩
      · rw [buffer, first]; exact h.assembled
      · rw [first]; exact h.inside
      · intro b hb
        rw [segments] at hb
        rcases List.mem_append.mp hb with hb | hafter
        · rcases List.mem_append.mp hb with hbefore | hkeep
          · exact h.slices b (hm.kept.subset (List.mem_append.mpr (Or.inl hbefore)))
          · have hmerged := hm.slices S hdata h.slices
            cases htake : merged.take _ with
            | nil => rw [htake] at hkeep; exact nomatch hkeep
            | cons y ys =>
                rw [htake] at hkeep
                rw [List.mem_singleton.mp hkeep, ← htake]
                exact hmerged.take _
        · exact h.slices b (hm.kept.subset (List.mem_append.mpr (Or.inr hafter)))

/-- Popping moves bytes from the buffer to the popped ones. -/
theorem Holds.pop {S popped : List Byte} {r : StreamReassembler}
    (h : Holds S popped r) (len : Nat) :
    Holds S (popped ++ r.output.buffer.take len) (r.popOut len) where
  assembled := by
    show _ ++ (r.output.popOutput len).buffer = S.take r.firstUnassembled
    rw [ByteStream.popOutput_buffer, List.append_assoc, List.take_append_drop]
    exact h.assembled
  inside := h.inside
  slices := h.slices

theorem Holds.read {S popped : List Byte} {r : StreamReassembler}
    (h : Holds S popped r) (len : Nat) :
    Holds S (popped ++ (r.output.read len).1) (r.readOut len) where
  assembled := by
    show popped ++ (r.output.read len).1 ++ (r.output.read len).2.buffer
      = S.take r.firstUnassembled
    rw [List.append_assoc, ByteStream.read_append]
    exact h.assembled
  inside := h.inside
  slices := h.slices

theorem holds_new (S : List Byte) (capacity : UInt64) : Holds S [] (new capacity) where
  assembled := (List.take_zero).symm
  inside := Nat.zero_le _
  slices := fun _ hb => nomatch hb

/-- Nothing is parked once all of `S` is written. -/
theorem Holds.nil_of_whole {S popped : List Byte} {r : StreamReassembler}
    (hw : WellFormed r) (h : Holds S popped r) (hall : r.firstUnassembled = S.length) :
    r.unassembledSegments = [] := by
  by_contra hne
  obtain ⟨b, hb⟩ := List.exists_mem_of_ne_nil _ hne
  have hlo := (hw.packed.mem hb).1
  have hend := (h.slices b hb).end_le (hw.packed.mem hb).2
  omega

/-- One genuine call keeps `Holds`. -/
theorem step_holds {S : List Byte} {x y : History} {op : Op}
    (hx : WellFormed x.reassembler ∧ Holds S x.popped x.reassembler)
    (hop : op.Genuine S) (hstep : step x op = some y) :
    WellFormed y.reassembler ∧ Holds S y.popped y.reassembler := by
  refine ⟨step_wellFormed hx.1 hstep, ?_⟩
  cases op with
  | push data index eof =>
      rw [← Option.some.inj hstep]
      exact hx.2.push hx.1 (genuine_slice hop)
  | read len => rw [← Option.some.inj hstep]; exact hx.2.read len
  | pop len => rw [← Option.some.inj hstep]; exact hx.2.pop len

/-- **REASSEMBLY IN ANY ORDER**: after any run of genuine pushes, reads and
    pops, the bytes popped and then buffered are the string up to the next
    index, the bytes written are counted by it, and every parked block is the
    slice at its key. -/
theorem reassembles_any_order (S : List Byte) (capacity : UInt64) (ops : List Op)
    (hops : Along step (fun _ op => op.Genuine S) (start capacity) ops)
    (x : History) (hrun : run step (start capacity) ops = some x) :
    x.popped ++ x.reassembler.output.buffer = S.take x.reassembler.firstUnassembled
      ∧ x.reassembler.firstUnassembled ≤ S.length
      ∧ x.reassembler.output.bytesWritten = x.reassembler.firstUnassembled
      ∧ ∀ b ∈ x.reassembler.unassembledSegments,
          b.1 + b.2.length ≤ S.length ∧ b.2 = (S.drop b.1).take b.2.length := by
  have hinv : WellFormed x.reassembler ∧ Holds S x.popped x.reassembler := by
    refine run_invariant
      (I := fun x : History => WellFormed x.reassembler ∧ Holds S x.popped x.reassembler)
      (P := fun _ op => op.Genuine S)
      ?_ ops (start capacity) x ?_ hops hrun
    · intro s op s' hs hop hstep
      exact step_holds hs hop hstep
    · exact ⟨wellFormed_new capacity, holds_new S capacity⟩
  obtain ⟨hw, h⟩ := hinv
  refine ⟨h.assembled, h.inside, hw.written, ?_⟩
  intro b hb
  have hs := h.slices b hb
  exact ⟨hs.end_le (hw.packed.mem hb).2, hs.eq_take_drop⟩

/-- Three overlapping slices of `abc`, the middle one first. -/
theorem reassembles_any_order_abc :
    ∃ x, run step (start 3)
        [.push [98] 1 false, .push [97] 0 false, .read 1, .push [98, 99] 1 true] = some x
      ∧ x.popped ++ x.reassembler.output.buffer
          = List.take x.reassembler.firstUnassembled [97, 98, 99] := by
  refine ⟨_, rfl, ?_⟩
  exact (reassembles_any_order [97, 98, 99] 3
    [.push [98] 1 false, .push [97] 0 false, .read 1, .push [98, 99] 1 true]
    (by decide) _ rfl).1

/-! ## Nothing delivered inside the window is lost -/

/-- A genuine push that lies wholly inside the window. -/
def InWindow (S : List Byte) (x : History) : Op → Prop
  | .push data index eof =>
      (Op.push data index eof).Genuine S ∧ index + data.length ≤ x.edge
  | .read _ => True
  | .pop _ => True

instance (S : List Byte) (x : History) : ∀ op : Op, Decidable (InWindow S x op)
  | .push data index eof =>
      inferInstanceAs (Decidable ((Op.push data index eof).Genuine S
        ∧ index + data.length ≤ x.edge))
  | .read _ => isTrue trivial
  | .pop _ => isTrue trivial

/-- The next index is the length of the longest front part of `S` that has
    been pushed completely. -/
def Longest (S : List Byte) (x : History) : Prop :=
  IsGreatest {n | n ≤ S.length ∧ ∀ k < n, x.Delivered k} x.reassembler.firstUnassembled

/-- An in-order push is cut only where its bytes are parked already. -/
def NoLoss (x : History) : Op → Prop
  | .push data index _ =>
      index ≤ x.reassembler.firstUnassembled →
      x.reassembler.firstUnassembled < index + data.length →
      ∀ k < index + data.length,
        x.reassembler.firstUnassembled + x.reassembler.room ≤ k →
        Covers x.reassembler.unassembledSegments k
  | .read _ => True
  | .pop _ => True

instance (x : History) : ∀ op : Op, Decidable (NoLoss x op)
  | .push data index _ =>
      inferInstanceAs (Decidable (index ≤ x.reassembler.firstUnassembled →
        x.reassembler.firstUnassembled < index + data.length →
        ∀ k < index + data.length,
          x.reassembler.firstUnassembled + x.reassembler.room ≤ k →
          Covers x.reassembler.unassembledSegments k))
  | .read _ => isTrue trivial
  | .pop _ => isTrue trivial

/-- After an in-order push the reassembler holds what it held and what it
    wrote. -/
theorem held_inOrder {r r' : StreamReassembler} (hw : WellFormed r) {w : Nat}
    (first : r'.firstUnassembled
      = r.firstUnassembled + w
        + (absorb (r.firstUnassembled + w)
            (trimFront (r.firstUnassembled + w) r.unassembledSegments)).1.length)
    (segments : r'.unassembledSegments
      = (absorb (r.firstUnassembled + w)
          (trimFront (r.firstUnassembled + w) r.unassembledSegments)).2) (k : Nat) :
    (k < r'.firstUnassembled ∨ Covers r'.unassembledSegments k)
      ↔ (k < r.firstUnassembled + w ∨ Covers r.unassembledSegments k) := by
  rw [first, segments]
  by_cases hk : k < r.firstUnassembled + w
  · exact ⟨fun _ => Or.inl hk, fun _ => Or.inl (by omega)⟩
  · have hk' : r.firstUnassembled + w ≤ k := by omega
    rw [← absorb_covers (packed_trimFront hw.packed) hk', covers_trimFront hw.packed hk']
    exact ⟨Or.inr, fun h => h.resolve_left hk⟩

/-- What the invariant of in-window runs says beyond `Holds`. -/
structure Complete (S : List Byte) (x : History) : Prop where
  wellFormed : WellFormed x.reassembler
  holds : Holds S x.popped x.reassembler
  delivered : ∀ k, x.Delivered k ↔ k < x.reassembler.firstUnassembled
    ∨ Covers x.reassembler.unassembledSegments k
  inEdge : ∀ k, Covers x.reassembler.unassembledSegments k → k < x.edge

/-- While everything delivered is held, the next index is the longest front
    part. -/
theorem Complete.longest {S : List Byte} {x : History} (h : Complete S x) :
    Longest S x := by
  constructor
  · exact ⟨h.holds.inside, fun k hk => (h.delivered k).mpr (Or.inl hk)⟩
  · rintro n ⟨-, hn⟩
    by_contra hlt
    have hdel := hn x.reassembler.firstUnassembled (by omega)
    rcases (h.delivered _).mp hdel with h1 | h1
    · omega
    · have := h.wellFormed.packed.le_of_covers h1
      omega

/-- A push adds its range to what was delivered. -/
theorem delivered_push {x y : History} {data : List Byte} {index : Nat} {eof : Bool}
    (hstep : step x (.push data index eof) = some y) (k : Nat) :
    y.Delivered k ↔ x.Delivered k ∨ (index ≤ k ∧ k < index + data.length) := by
  rw [← Option.some.inj hstep]
  constructor
  · rintro ⟨p, hp, hk⟩
    rcases List.mem_append.mp hp with hold | hnew
    · exact Or.inl ⟨p, hold, hk⟩
    · rw [List.mem_singleton.mp hnew] at hk
      exact Or.inr hk
  · rintro (⟨p, hp, hk⟩ | hk)
    · exact ⟨p, List.mem_append.mpr (Or.inl hp), hk⟩
    · exact ⟨(index, index + data.length),
        List.mem_append.mpr (Or.inr (List.mem_singleton_self _)), hk⟩

/-- Inside the window a merged block is never cut. -/
theorem keptLen_inWindow {r : StreamReassembler} (hw : WellFormed r)
    {before after : Blocks Byte} {start : Nat} {merged : List Byte}
    (hp : Packed (r.firstUnassembled + 1) (before ++ (start, merged) :: after))
    (hedge : ∀ k, Covers (before ++ (start, merged) :: after) k →
      k < r.output.bytesRead + r.capacity.toNat) :
    merged.length ≤ ({ r with unassembledSegments := before ++ after } :
      StreamReassembler).keptLen merged.length start := by
  have hends : ∀ b ∈ before ++ (start, merged) :: after,
      b.1 + b.2.length ≤ r.output.bytesRead + r.capacity.toNat := by
    intro b hb
    have hpos := hp.length_pos hb
    have := hedge (b.1 + b.2.length - 1) ⟨b, hb, by omega, by omega⟩
    omega
  have hmem : (start, merged) ∈ before ++ (start, merged) :: after :=
    List.mem_append.mpr (Or.inr (List.mem_cons_self ..))
  have hstart := (hp.mem hmem).1
  have hend := hends _ hmem
  have hpos := hp.length_pos hmem
  have hacc := r.output.accounted
  have hwr := hw.written
  have hed := hw.edge
  dsimp only at hstart hend hpos
  -- the blocks lie side by side between the hole and the edge
  have hcount := hp.total_le (by omega) hends
  rw [total_append, total] at hcount
  have hbound : r.output.buffer.length + total (before ++ after) ≤ r.capacity.toNat := by
    rw [total_append]; omega
  have hspace : sub64 (sub64 r.capacity.toNat r.output.bufferSize) (total (before ++ after))
      = r.capacity.toNat - r.output.buffer.length - total (before ++ after) :=
    space_eq (r := { r with unassembledSegments := before ++ after }) hbound
  have hedge' : sub64 ((r.output.bytesRead + r.capacity.toNat) % 2 ^ 64) start
      = r.output.bytesRead + r.capacity.toNat - start := edge_eq (by omega) (by omega)
  show merged.length ≤ min (min merged.length
      (sub64 ((r.output.bytesRead + r.capacity.toNat) % 2 ^ 64) start))
    (sub64 (sub64 r.capacity.toNat r.output.bufferSize) (total (before ++ after)))
  rw [hspace, hedge', total_append]
  omega

/-- **WHAT A LOSSLESS PUSH HOLDS**: what was held, and what was pushed. -/
theorem Complete.held_push {S data : List Byte} {x : History} {index : Nat} {eof : Bool}
    (h : Complete S x) (hedge : index + data.length ≤ x.edge)
    (hloss : NoLoss x (.push data index eof)) (k : Nat) :
    (k < (x.reassembler.pushSubstring data index eof).firstUnassembled
        ∨ Covers (x.reassembler.pushSubstring data index eof).unassembledSegments k)
      ↔ (k < x.reassembler.firstUnassembled
          ∨ Covers x.reassembler.unassembledSegments k)
        ∨ (index ≤ k ∧ k < index + data.length) := by
  obtain ⟨hp, -, -⟩ := pushed h.wellFormed data index eof
  cases hp with
  | stale hstale same =>
      rw [same.firstUnassembled, same.segments]
      refine ⟨Or.inl, fun hk => hk.elim id fun hin => ?_⟩
      rcases hstale with hle | hnil
      · exact Or.inl (by omega)
      · rw [hnil, List.length_nil] at hin; omega
  | covered b hgt hne hb hb1 hb2 _ same =>
      rw [same.firstUnassembled, same.segments]
      refine ⟨Or.inl, fun hk => hk.elim id fun hin => ?_⟩
      exact Or.inr ⟨b, hb, by omega, by omega⟩
  | inOrder w hle hlt hwr buffer first segments =>
      rw [held_inOrder h.wellFormed first segments k]
      constructor
      · rintro (hk | hk)
        · by_cases hkf : k < x.reassembler.firstUnassembled
          · exact Or.inl (Or.inl hkf)
          · exact Or.inr (by omega)
        · exact Or.inl (Or.inr hk)
      · rintro ((hk | hk) | hk)
        · exact Or.inl (by omega)
        · exact Or.inr hk
        · -- what there was no room to write is parked
          by_cases hkw : k < x.reassembler.firstUnassembled + w
          · exact Or.inl hkw
          · exact Or.inr (hloss hle hlt k hk.2 (by omega))
  | inserted before after start merged hgt hne hm buffer first segments =>
      -- inside the window the merged block is not cut
      have hinside : ∀ j, Covers (before ++ (start, merged) :: after) j →
          j < x.reassembler.output.bytesRead + x.reassembler.capacity.toNat := by
        intro j hj
        rcases (hm.covers_iff j).mp hj with hold | hnew
        · exact h.inEdge j hold
        · rw [History.edge] at hedge
          omega
      have hfit := keptLen_inWindow h.wellFormed hm.packed hinside
      have hmne : merged ≠ [] := (packed_append.mp hm.packed).2.2.1
      rw [first, segments, List.take_of_length_le hfit, keep_of_ne hmne,
        List.append_assoc, List.singleton_append, hm.covers_iff k, or_assoc]

/-- Reading takes nothing away from what is held. -/
theorem Complete.consumed {S : List Byte} {x y : History} (h : Complete S x)
    (hwf : WellFormed y.reassembler) (hholds : Holds S y.popped y.reassembler)
    (hc : Consumed x y) : Complete S y := by
  refine ⟨hwf, hholds, ?_, ?_⟩
  · rw [hc.segments, hc.firstUnassembled]
    intro k
    rw [← h.delivered k, History.Delivered, hc.pushes]
    rfl
  · rw [hc.segments]
    exact fun k hk => Nat.lt_of_lt_of_le (h.inEdge k hk) hc.edge

/-- A lossless in-window step keeps everything delivered. -/
theorem Complete.lossless {S : List Byte} {x y : History} {op : Op} (h : Complete S x)
    (hwin : InWindow S x op) (hloss : NoLoss x op) (hstep : step x op = some y) :
    Complete S y := by
  have hgen : op.Genuine S := by
    cases op with
    | push data index eof => exact hwin.1
    | read len => exact trivial
    | pop len => exact trivial
  obtain ⟨hwf, hholds⟩ := step_holds ⟨h.wellFormed, h.holds⟩ hgen hstep
  cases op with
  | read len => exact h.consumed hwf hholds (consumed_read hstep)
  | pop len => exact h.consumed hwf hholds (consumed_pop hstep)
  | push data index eof =>
      have hedge : y.edge = x.edge := edge_push h.wellFormed hstep
      have hheld := h.held_push hwin.2 hloss
      have hy : y.reassembler = x.reassembler.pushSubstring data index eof := by
        rw [← Option.some.inj hstep]
      refine ⟨hwf, hholds, ?_, ?_⟩
      · intro k
        rw [delivered_push hstep k, hy, hheld k, h.delivered k]
      · intro k hk
        rw [hy] at hk
        rw [hedge]
        rcases (hheld k).mp (Or.inr hk) with (hlt | hold) | hnew
        · rw [History.edge, h.wellFormed.edge]
          omega
        · exact h.inEdge k hold
        · have : index + data.length ≤ x.edge := hwin.2
          omega

/-- A push that is cut where nothing is parked leaves the longest front part
    behind. -/
theorem Complete.loss {S : List Byte} {x y : History} {op : Op} (h : Complete S x)
    (hwin : InWindow S x op) (hloss : ¬ NoLoss x op) (hstep : step x op = some y) :
    ¬ Longest S y := by
  cases op with
  | read len => exact absurd trivial hloss
  | pop len => exact absurd trivial hloss
  | push data index eof =>
      intro hlongest
      rw [NoLoss] at hloss
      push Not at hloss
      obtain ⟨hle, hlt, j, hj, hroom, hnot⟩ := hloss
      -- the whole substring is now part of the delivered front
      have hfront : index + data.length ≤ y.reassembler.firstUnassembled := by
        refine hlongest.2 ⟨hwin.1.1, fun k hk => ?_⟩
        rw [delivered_push hstep k, h.delivered k]
        by_cases hki : index ≤ k
        · exact Or.inr ⟨hki, hk⟩
        · exact Or.inl (Or.inl (by omega))
      -- but position `j` was neither written nor parked
      have hy := Option.some.inj hstep
      obtain ⟨hp, -, -⟩ := pushed h.wellFormed data index eof
      rw [← hy] at hfront
      dsimp only at hfront
      cases hp with
      | stale hstale same =>
          rcases hstale with hle' | hnil
          · omega
          · rw [hnil, List.length_nil] at hlt; omega
      | covered b hgt _ _ _ _ _ _ => omega
      | inserted _ _ _ _ hgt _ _ _ _ _ => omega
      | inOrder w _ _ hwr buffer first segments =>
          have hheld := (held_inOrder h.wellFormed first segments j).mp
            (Or.inl (by omega))
          rcases hheld with hlt' | hcov
          · omega
          · exact hnot hcov

theorem complete_start (S : List Byte) (capacity : UInt64) :
    Complete S (start capacity) where
  wellFormed := wellFormed_new capacity
  holds := holds_new S capacity
  delivered := by
    intro k
    constructor
    · rintro ⟨p, hp, -⟩
      exact nomatch hp
    · rintro (hk | hk)
      · exact absurd hk (Nat.not_lt_zero k)
      · exact absurd hk (covers_nil k)
  inEdge := fun k hk => absurd hk (covers_nil k)

theorem step_enabled (x : History) (op : Op) : ∃ y, step x op = some y := by
  cases op <;> exact ⟨_, rfl⟩

/-- **COMPLETENESS, EXACTLY**: in a run of in-window pushes the next index is
    always the longest front part pushed so far iff no in-order push is cut
    where its bytes are not parked yet. -/
theorem longest_iff_noLoss (S : List Byte) (capacity : UInt64) (ops : List Op)
    (hops : Along step (InWindow S) (start capacity) ops) :
    Throughout step (Longest S) (start capacity) ops
      ↔ Along step NoLoss (start capacity) ops :=
  throughout_iff_along (I := Complete S) (fun _ h => h.longest)
    (fun x op _ _ _ => step_enabled x op)
    (fun _ _ _ h hwin hloss hstep => h.lossless hwin hloss hstep)
    (fun _ _ _ h hwin hloss hstep => h.loss hwin hloss hstep)
    ops (start capacity) (complete_start S capacity) hops

/-- A run that fills a hole from both sides and meets the condition. -/
theorem longest_iff_noLoss_abcd :
    Throughout step (Longest [97, 98, 99, 100]) (start 4)
      [.push [99] 2 false, .push [97, 98] 0 false, .pop 2, .push [99, 100] 2 true] :=
  (longest_iff_noLoss [97, 98, 99, 100] 4
    [.push [99] 2 false, .push [97, 98] 0 false, .pop 2, .push [99, 100] 2 true]
    (by decide)).mpr (by decide)

/-- **THE OVERLAP IS COUNTED TWICE**: with capacity 3 and `b` parked at 1, the
    push of `abc` at 0 is cut to two bytes although all three fit, and `c` is
    lost. -/
theorem overlap_counted_twice :
    ¬ ∀ (S : List Byte) (capacity : UInt64) (ops : List Op),
      Along step (InWindow S) (start capacity) ops →
      Throughout step (Longest S) (start capacity) ops := by
  intro hall
  have hthr := hall [97, 98, 99] 3 [.push [98] 1 false, .push [97, 98, 99] 0 false]
    (by decide)
  have hlast : Longest [97, 98, 99] _ := (hthr.2 _ rfl).2 _ rfl
  have hbound : 3 ≤ 2 := hlast.2 ⟨by decide, by
    intro k hk
    exact ⟨(0, 3), by decide, Nat.zero_le k, hk⟩⟩
  exact absurd hbound (by decide)

/-! ## The right edge of the window -/

/-- No byte is parked, and none has been written, at or beyond the edge. -/
def EdgeRespected (x : History) : Prop :=
  (∀ k, Covers x.reassembler.unassembledSegments k → k < x.edge)
    ∧ x.reassembler.firstUnassembled ≤ x.edge

/-- The substring's positions are 64-bit numbers. -/
def Fits64 (_ : History) : Op → Prop
  | .push data index _ => index + data.length < 2 ^ 64
  | .read _ => True
  | .pop _ => True

instance (x : History) : ∀ op : Op, Decidable (Fits64 x op)
  | .push data index _ => inferInstanceAs (Decidable (index + data.length < 2 ^ 64))
  | .read _ => isTrue trivial
  | .pop _ => isTrue trivial

/-- A push starts at or before the edge, unless it has nothing to store or
    there is no room to store it. -/
def StartsInside (x : History) : Op → Prop
  | .push data index _ => index ≤ x.edge ∨ data = [] ∨ x.reassembler.room = 0
  | .read _ => True
  | .pop _ => True

instance (x : History) : ∀ op : Op, Decidable (StartsInside x op)
  | .push data index _ =>
      inferInstanceAs (Decidable (index ≤ x.edge ∨ data = [] ∨ x.reassembler.room = 0))
  | .read _ => isTrue trivial
  | .pop _ => isTrue trivial

/-- What has been written never passes the edge. -/
theorem first_le_edge {x : History} (hw : WellFormed x.reassembler) :
    x.reassembler.firstUnassembled ≤ x.edge := by
  rw [History.edge, hw.edge]
  exact Nat.le_add_right _ _

/-- Blocks that end at or before the edge lie before a start beyond it. -/
theorem apart_of_beyond {r : StreamReassembler} {index e : Nat} {data : List Byte}
    (hw : WellFormed r) (hin : ∀ k, Covers r.unassembledSegments k → k < e)
    (hgt : e < index) : ∀ b ∈ r.unassembledSegments,
      b.1 + b.2.length ≤ index ∨ index + data.length ≤ b.1 := by
  intro b hb
  have hpos := hw.packed.length_pos hb
  have := hin (b.1 + b.2.length - 1) ⟨b, hb, by omega, by omega⟩
  exact Or.inl (by omega)

/-- A merged block that starts at or before the edge is cut at it. -/
theorem keptLen_le_edge {r : StreamReassembler} {start : Nat}
    (before after : Blocks Byte) (len : Nat) (hlo : r.output.bytesRead ≤ start)
    (hhi : start ≤ r.output.bytesRead + r.capacity.toNat) :
    ({ r with unassembledSegments := before ++ after } :
      StreamReassembler).keptLen len start
      ≤ r.output.bytesRead + r.capacity.toNat - start := by
  have hedge := edge_eq (r := { r with unassembledSegments := before ++ after }) hlo hhi
  rw [keptLen, hedge]
  exact Nat.le_trans (Nat.min_le_left _ _) (Nat.min_le_right _ _)

/-- Reading moves the edge to the right and parks nothing. -/
theorem edgeRespected_consumed {x y : History} (h : EdgeRespected x) (hc : Consumed x y) :
    EdgeRespected y := by
  rw [EdgeRespected, hc.segments, hc.firstUnassembled]
  exact ⟨fun k hk => Nat.lt_of_lt_of_le (h.1 k hk) hc.edge, Nat.le_trans h.2 hc.edge⟩

/-- A step that starts inside keeps the edge respected. -/
theorem edgeRespected_step {x y : History} {op : Op} (hw : WellFormed x.reassembler)
    (h : EdgeRespected x) (hin : StartsInside x op) (hstep : step x op = some y) :
    EdgeRespected y := by
  cases op with
  | read len => exact edgeRespected_consumed h (consumed_read hstep)
  | pop len => exact edgeRespected_consumed h (consumed_pop hstep)
  | push data index eof =>
      refine ⟨?_, first_le_edge (step_wellFormed hw hstep)⟩
      rw [edge_push hw hstep, ← Option.some.inj hstep]
      dsimp only
      obtain ⟨hp, -, -⟩ := pushed hw data index eof
      cases hp with
      | stale _ same => rw [same.segments]; exact h.1
      | covered b _ _ _ _ _ _ same => rw [same.segments]; exact h.1
      | inOrder w _ _ _ _ first segments =>
          intro k hk
          rcases (held_inOrder hw first segments k).mp (Or.inr hk) with hlt | hcov
          · -- a parked position is not below what was just written
            have hpk := (hw.push data index eof).packed.le_of_covers hk
            rw [first] at hpk
            omega
          · exact h.1 k hcov
      | inserted before after start merged hgt hne hm _ _ segments =>
          intro k hk
          rw [segments] at hk
          rcases covers_append.mp hk with hk | hafter
          · rcases covers_append.mp hk with hbefore | hkeep
            · exact h.1 k ((covers_append.mpr (Or.inl hbefore)).of_subset hm.kept.subset)
            · rw [covers_keep, List.length_take] at hkeep
              by_cases hedge : index ≤ x.edge
              · -- the merged block starts inside and is cut at the edge
                have hstart := (packed_append.mp hm.packed).2.1
                have hfirst := (packed_append.mp hm.packed).1.le_endOf
                have hacc := x.reassembler.output.accounted
                have hwr := hw.written
                have hc := hm.contains.1
                rw [History.edge] at hedge ⊢
                have hlo : x.reassembler.output.bytesRead ≤ start := by omega
                have hcut := keptLen_le_edge before after merged.length hlo
                  (by omega)
                omega
              · -- there was no room to park it
                have hroom : x.reassembler.room = 0 :=
                  (hin.resolve_left hedge).resolve_left hne
                obtain ⟨hsame, -, -⟩ := hm.untouched
                  (apart_of_beyond hw h.1 (by omega))
                have hcut : x.reassembler.keptLen merged.length start
                    ≤ x.reassembler.room := keptLen_le_room hw.bounded
                rw [hsame] at hkeep
                have hsame' : ({ x.reassembler with
                    unassembledSegments := x.reassembler.unassembledSegments } :
                    StreamReassembler) = x.reassembler := rfl
                rw [hsame'] at hkeep
                omega
          · exact h.1 k ((covers_append.mpr (Or.inr hafter)).of_subset hm.kept.subset)

/-- A push with room that starts beyond the edge is parked there: the distance
    to the edge wraps to a huge number. -/
theorem parked_beyond {x y : History} {op : Op} (hw : WellFormed x.reassembler)
    (h : EdgeRespected x) (h64 : Fits64 x op) (hout : ¬ StartsInside x op)
    (hstep : step x op = some y) : ¬ EdgeRespected y := by
  cases op with
  | read len => exact absurd trivial hout
  | pop len => exact absurd trivial hout
  | push data index eof =>
      rw [StartsInside] at hout
      push Not at hout
      obtain ⟨hgt, hne, hroom⟩ := hout
      have hle := h.2
      intro hy
      have hparked : Covers y.reassembler.unassembledSegments index := by
        rw [← Option.some.inj hstep]
        dsimp only
        obtain ⟨hp, -, -⟩ := pushed hw data index eof
        cases hp with
        | stale hstale _ =>
            rcases hstale with hstale | hnil
            · omega
            · exact absurd hnil hne
        | covered b _ _ hb hb1 hb2 _ _ =>
            have hpos : 0 < data.length := List.length_pos_iff.mpr hne
            have := h.1 index ⟨b, hb, hb1, by omega⟩
            omega
        | inOrder w hle' _ _ _ _ _ => omega
        | inserted before after start merged _ _ hm _ _ segments =>
            obtain ⟨hsame, hstart, hmerged⟩ := hm.untouched
              (apart_of_beyond hw h.1 hgt)
            have hpos : 0 < data.length := List.length_pos_iff.mpr hne
            have h64' : index + data.length < 2 ^ 64 := h64
            rw [History.edge] at hgt
            have hdist : sub64 ((x.reassembler.output.bytesRead
                + x.reassembler.capacity.toNat) % 2 ^ 64) index
                = 2 ^ 64 - (index - (x.reassembler.output.bytesRead
                  + x.reassembler.capacity.toNat)) := by
              rw [sub64_mod, sub64_of_lt hgt (by omega)]
            have hkept : 0 < x.reassembler.keptLen data.length index := by
              rw [keptLen, hdist, space_eq hw.bounded]
              omega
            rw [segments, hsame, hstart, hmerged]
            refine covers_append.mpr (Or.inl (covers_append.mpr (Or.inr ?_)))
            rw [covers_keep, List.length_take]
            have hsame' : ({ x.reassembler with
                unassembledSegments := x.reassembler.unassembledSegments } :
                StreamReassembler) = x.reassembler := rfl
            rw [hsame']
            omega
      have := hy.1 index hparked
      rw [edge_push hw hstep] at this
      omega

/-- **THE RIGHT EDGE, EXACTLY**: a run never keeps a byte at or beyond the
    edge iff none of its pushes starts beyond the edge while there is room. -/
theorem edge_respected_iff (capacity : UInt64) (ops : List Op)
    (hops : Along step Fits64 (start capacity) ops) :
    Throughout step EdgeRespected (start capacity) ops
      ↔ Along step StartsInside (start capacity) ops :=
  throughout_iff_along
    (I := fun x => WellFormed x.reassembler ∧ EdgeRespected x)
    (fun _ h => h.2)
    (fun x op _ _ _ => step_enabled x op)
    (fun _ _ _ h _ hin hstep =>
      ⟨step_wellFormed h.1 hstep, edgeRespected_step h.1 h.2 hin hstep⟩)
    (fun _ _ _ h h64 hout hstep => parked_beyond h.1 h.2 h64 hout hstep)
    ops (start capacity)
    ⟨wellFormed_new capacity, fun k hk => absurd hk (covers_nil k), Nat.zero_le _⟩ hops

/-- Pushes up to the edge, and one that starts right at it. -/
theorem edge_respected_iff_at_edge :
    Throughout step EdgeRespected (start 2)
      [.push [98, 99, 100] 1 false, .push [101] 2 false, .push [97] 0 false] :=
  (edge_respected_iff 2
    [.push [98, 99, 100] 1 false, .push [101] 2 false, .push [97] 0 false]
    (by decide)).mpr (by decide)

/-- **STORED BEYOND THE EDGE**: with capacity 1 the edge is 1, and the byte
    pushed at index 5 is parked at index 5. -/
theorem stored_beyond_edge :
    ¬ ∀ (capacity : UInt64) (ops : List Op),
      Along step Fits64 (start capacity) ops →
      Throughout step EdgeRespected (start capacity) ops := by
  intro hall
  have hthr := hall 1 [.push [120] 5 false] (by decide)
  have hlast : EdgeRespected _ := hthr.2 _ rfl
  have hbound := hlast.1 5 (by decide)
  exact absurd hbound (by decide)

end SpongeReassembly
