import Mathlib.Logic.Function.Basic
import Sponge.BufferProofs
import Sponge.RaiseProofs

/-! # File descriptors — `file_descriptor`, `socket`

    The calls that the library makes on a descriptor, against any kernel whatever:
    the kernel is a parameter with a state of its own, and every system call may
    fail, in which case the library raises.  A descriptor has flags and counters of
    its own, shared by all its duplicates.

    What a program reads and writes is observed at the kernel: `Kernel.recording` is
    a kernel that also notes every call that it has answered.

    A write with `write_all` goes round until the kernel has taken everything.
    `write_all_exact` says that the kernel then got every byte once and in order,
    however it cut the string up, and that the loop ends if the kernel makes
    progress. -/

namespace SpongeDescriptor

open SpongeByteStream SpongeBuffer RaiseRule

/-- `FDWrapper`; the descriptor is named by its index instead of a number. -/
structure FDWrapper where
  eof : Bool := false
  closed : Bool := false
  readCount : BitVec 32 := 0
  writeCount : BitVec 32 := 0
deriving DecidableEq, Repr

/-- The `how` of `shutdown`. -/
inductive How where
  | rd
  | wr
  | rdwr
deriving DecidableEq, Repr

/-- The system calls on descriptors `φ`, for a kernel with states `κ`. -/
structure Kernel (κ φ : Type) where
  read : κ → φ → Nat → Except String (List Byte × κ)
  writev : κ → φ → List (List Byte × Nat) → Except String (Nat × κ)
  shutdown : κ → φ → How → Except String κ
  close : κ → φ → Except String κ

/-- A kernel, and what the library keeps about each descriptor. -/
structure World (κ φ : Type) where
  kernel : κ
  fds : φ → FDWrapper

section Calls

variable {κ φ : Type} [DecidableEq φ] (K : Kernel κ φ)

namespace World

def update (w : World κ φ) (fd : φ) (f : FDWrapper → FDWrapper) : World κ φ :=
  { w with fds := Function.update w.fds fd (f (w.fds fd)) }

def registerRead (w : World κ φ) (fd : φ) : World κ φ :=
  w.update fd fun f => { f with readCount := f.readCount + 1 }

def registerWrite (w : World κ φ) (fd : φ) : World κ φ :=
  w.update fd fun f => { f with writeCount := f.writeCount + 1 }

@[simp] theorem kernel_update (w : World κ φ) (fd : φ) (f : FDWrapper → FDWrapper) :
    (w.update fd f).kernel = w.kernel := rfl

@[simp] theorem fds_update_self (w : World κ φ) (fd : φ) (f : FDWrapper → FDWrapper) :
    (w.update fd f).fds fd = f (w.fds fd) := Function.update_self ..

theorem fds_update_ne (w : World κ φ) {fd fd' : φ} (f : FDWrapper → FDWrapper) (h : fd' ≠ fd) :
    (w.update fd f).fds fd' = w.fds fd' := Function.update_of_ne h ..

end World

namespace FileDescriptor

/-- The most a single `read` asks for. -/
def bufferSize : Nat := 1024 * 1024

/-- `FileDescriptor::read`: nothing read, where something was asked for, is the end. -/
def read (w : World κ φ) (fd : φ) (limit : Nat) : Except String (List Byte × World κ φ) := do
  let sizeToRead := min bufferSize limit
  let (bytes, kernel) ← K.read w.kernel fd sizeToRead
  let w := { w with kernel := kernel }
  let w :=
    if limit > 0 ∧ bytes = [] then w.update fd fun f => { f with eof := true } else w
  if bytes.length > sizeToRead then .error "read() read more than requested"
  else .ok (bytes, w.registerRead fd)

/-- Where the loop of `write` stands. -/
structure Writing (κ φ : Type) where
  buffer : BufferViewList
  totalBytesWritten : Nat
  world : World κ φ

/-- One round of the loop of `write`. -/
def writeRound (fd : φ) (writeAll : Bool) (s : Writing κ φ) :
    Except String (Bool × Writing κ φ) := do
  let (bytesWritten, kernel) ← K.writev s.world.kernel fd s.buffer.asIovecs
  if bytesWritten = 0 ∧ s.buffer.size ≠ 0 then
    .error "write returned 0 given non-empty input buffer"
  else if bytesWritten > s.buffer.size then
    .error "write wrote more than length of input buffer"
  else
    let world := { s.world with kernel := kernel }.registerWrite fd
    match s.buffer.removePrefix bytesWritten with
    | (.error text, _) => .error text
    | (.ok (), buffer) =>
        .ok (writeAll && buffer.size != 0, ⟨buffer, s.totalBytesWritten + bytesWritten, world⟩)

/-- `FileDescriptor::write`.  Every round that goes on shortens the buffer. -/
def write (w : World κ φ) (fd : φ) (buffer : BufferViewList) (writeAll : Bool) :
    Except String (Nat × World κ φ) :=
  (doWhile (writeRound K fd writeAll) (buffer.size + 1) ⟨buffer, 0, w⟩).map fun s =>
    (s.totalBytesWritten, s.world)

/-- `FileDescriptor::close` -/
def close (w : World κ φ) (fd : φ) : Except String (World κ φ) := do
  let kernel ← K.close w.kernel fd
  .ok ({ w with kernel := kernel }.update fd fun f => { f with eof := true, closed := true })

end FileDescriptor

/-- `Socket::shutdown` -/
def shutdown (w : World κ φ) (fd : φ) (how : How) : Except String (World κ φ) := do
  let kernel ← K.shutdown w.kernel fd how
  let w := { w with kernel := kernel }
  match how with
  | .rd => .ok (w.registerRead fd)
  | .wr => .ok (w.registerWrite fd)
  | .rdwr => .ok ((w.registerRead fd).registerWrite fd)

end Calls

/-! ## What the kernel saw -/

/-- A system call that was answered, and the bytes that it moved. -/
inductive Call (φ : Type) where
  | read (fd : φ) (bytes : List Byte)
  | write (fd : φ) (bytes : List Byte)
  | shutdown (fd : φ) (how : How)
  | close (fd : φ)
deriving DecidableEq, Repr

/-- The kernel, with a record of the calls that it has answered. -/
def Kernel.recording {κ φ : Type} (K : Kernel κ φ) : Kernel (κ × List (Call φ)) φ where
  read k fd size :=
    (K.read k.1 fd size).map fun r => (r.1, r.2, k.2 ++ [.read fd r.1])
  writev k fd iovecs :=
    (K.writev k.1 fd iovecs).map fun r =>
      (r.1, r.2, k.2 ++ [.write fd ((iovecs.flatMap Prod.fst).take r.1)])
  shutdown k fd how := (K.shutdown k.1 fd how).map fun k' => (k', k.2 ++ [.shutdown fd how])
  close k fd := (K.close k.1 fd).map fun k' => (k', k.2 ++ [.close fd])

section Record

variable {φ : Type} [DecidableEq φ]

/-- The bytes that were read from a descriptor, in order. -/
def received (fd : φ) (calls : List (Call φ)) : List Byte :=
  calls.flatMap fun
    | .read fd' bytes => if fd' = fd then bytes else []
    | _ => []

/-- The bytes that were written to a descriptor, in order. -/
def sent (fd : φ) (calls : List (Call φ)) : List Byte :=
  calls.flatMap fun
    | .write fd' bytes => if fd' = fd then bytes else []
    | _ => []

variable (fd fd' : φ) (calls more : List (Call φ)) (bytes : List Byte) (how : How)

@[simp] theorem received_append :
    received fd (calls ++ more) = received fd calls ++ received fd more := by
  simp [received]

@[simp] theorem sent_append : sent fd (calls ++ more) = sent fd calls ++ sent fd more := by
  simp [sent]

@[simp] theorem received_read : received fd [.read fd' bytes] = if fd' = fd then bytes else [] := by
  simp [received]

@[simp] theorem received_write : received fd [.write fd' bytes] = [] := rfl

@[simp] theorem received_shutdown : received fd [.shutdown fd' how] = [] := rfl

@[simp] theorem received_close : received fd [.close fd'] = [] := rfl

@[simp] theorem sent_read : sent fd [.read fd' bytes] = [] := rfl

@[simp] theorem sent_write : sent fd [.write fd' bytes] = if fd' = fd then bytes else [] := by
  simp [sent]

@[simp] theorem sent_shutdown : sent fd [.shutdown fd' how] = [] := rfl

@[simp] theorem sent_close : sent fd [.close fd'] = [] := rfl

end Record

/-! ## What a call does -/

section Specs

variable {κ φ : Type} [DecidableEq φ] {K : Kernel κ φ} {w w' : World (κ × List (Call φ)) φ}
  {fd : φ}

/-- A read, inverted. -/
structure ReadDone (w : World (κ × List (Call φ)) φ) (fd : φ) (limit : Nat) (bytes : List Byte)
    (w' : World (κ × List (Call φ)) φ) : Prop where
  length : bytes.length ≤ limit
  calls : w'.kernel.2 = w.kernel.2 ++ [.read fd bytes]
  count : (w'.fds fd).readCount = (w.fds fd).readCount + 1
  eof : (w'.fds fd).eof = ((w.fds fd).eof || decide (0 < limit ∧ bytes = []))
  closed : (w'.fds fd).closed = (w.fds fd).closed
  others : ∀ fd', fd' ≠ fd → w'.fds fd' = w.fds fd'

theorem read_done {limit : Nat} {bytes : List Byte}
    (h : FileDescriptor.read K.recording w fd limit = .ok (bytes, w')) :
    ReadDone w fd limit bytes w' := by
  obtain ⟨⟨got, kernel⟩, hread, hrest⟩ := bind_eq_ok.mp h
  obtain ⟨⟨got', kernel'⟩, -, heq⟩ := map_eq_ok.mp hread
  obtain ⟨rfl, rfl⟩ := Prod.mk.inj heq
  dsimp only at hrest
  split_ifs at hrest with hlong hend
  · obtain ⟨rfl, rfl⟩ := Prod.mk.inj (Except.ok.inj hrest)
    refine ⟨?_, rfl, ?_, ?_, ?_, fun fd' hne => ?_⟩
    · rw [hend.2]
      exact Nat.zero_le _
    · simp [World.registerRead]
    · simp [World.registerRead, hend]
    · simp [World.registerRead]
    · rw [World.registerRead, World.fds_update_ne _ _ hne, World.fds_update_ne _ _ hne]
  · obtain ⟨rfl, rfl⟩ := Prod.mk.inj (Except.ok.inj hrest)
    refine ⟨by omega, rfl, ?_, ?_, ?_, fun fd' hne => ?_⟩
    · simp [World.registerRead]
    · have : decide (0 < limit ∧ got' = []) = false := decide_eq_false hend
      rw [this, Bool.or_false]
      simp [World.registerRead]
    · simp [World.registerRead]
    · rw [World.registerRead, World.fds_update_ne _ _ hne]

/-- One round of a write, inverted. -/
structure Round (fd : φ) (s : FileDescriptor.Writing (κ × List (Call φ)) φ) (n : Nat)
    (s' : FileDescriptor.Writing (κ × List (Call φ)) φ) : Prop where
  fits : n ≤ s.buffer.views.flatten.length
  progress : s.buffer.views.flatten ≠ [] → 0 < n
  total : s'.totalBytesWritten = s.totalBytesWritten + n
  buffer : s'.buffer.views.flatten = s.buffer.views.flatten.drop n
  calls : s'.world.kernel.2 = s.world.kernel.2 ++ [.write fd (s.buffer.views.flatten.take n)]
  fds : s'.world.fds = (s.world.registerWrite fd).fds

theorem flatMap_asIovecs (l : BufferViewList) :
    l.asIovecs.flatMap Prod.fst = l.views.flatten := by
  rw [BufferViewList.asIovecs, List.flatMap_map]
  exact List.flatMap_id

/-- As much as there is can be removed from a view. -/
theorem removePrefix_of_le (l : BufferViewList) (n : Nat) (hn : n ≤ l.views.flatten.length) :
    ∃ l', l.removePrefix n = (.ok (), l') ∧ l'.views.flatten = l.views.flatten.drop n := by
  have hbytes : n ≤ (l.views.flatMap id).length := by
    rw [List.flatMap_id]
    exact hn
  obtain ⟨views, hok, hdrop⟩ := removeLoop_of_le "BufferListView::remove_prefix"
    (fun view n _ => ⟨view.drop n, rfl, rfl⟩) l.views n hbytes
  rw [List.flatMap_id, List.flatMap_id] at hdrop
  refine ⟨⟨views⟩, ?_, hdrop⟩
  rw [BufferViewList.removePrefix, hok]

theorem writeRound_done {writeAll again : Bool}
    {s s' : FileDescriptor.Writing (κ × List (Call φ)) φ}
    (h : FileDescriptor.writeRound K.recording fd writeAll s = .ok (again, s')) :
    again = (writeAll && s'.buffer.size != 0) ∧ ∃ n,
      (∃ k, K.writev s.world.kernel.1 fd s.buffer.asIovecs = .ok (n, k)) ∧ Round fd s n s' := by
  obtain ⟨⟨n, kernel⟩, hwrite, hrest⟩ := bind_eq_ok.mp h
  obtain ⟨⟨n', kernel'⟩, hkernel, heq⟩ := map_eq_ok.mp hwrite
  obtain ⟨rfl, rfl⟩ := Prod.mk.inj heq
  dsimp only at hrest
  split_ifs at hrest with hzero hlong
  rw [BufferViewList.size_eq_length] at hzero hlong
  -- as much as was written is there to be removed
  obtain ⟨l, hremove, hdrop⟩ := removePrefix_of_le s.buffer n' (by omega)
  rw [hremove] at hrest
  obtain ⟨rfl, rfl⟩ := Prod.mk.inj (Except.ok.inj hrest)
  refine ⟨rfl, n', ⟨kernel', hkernel⟩, ⟨by omega, fun hne => ?_, rfl, ?_, ?_, rfl⟩⟩
  · by_contra hno
    refine hzero ⟨by omega, ?_⟩
    rw [ne_eq, List.length_eq_zero_iff]
    exact hne
  · exact hdrop
  · show _ ++ _ = _
    rw [flatMap_asIovecs]

/-- A write in one round, inverted. -/
structure WriteDone (w : World (κ × List (Call φ)) φ) (fd : φ) (bytes : List Byte) (n : Nat)
    (w' : World (κ × List (Call φ)) φ) : Prop where
  fits : n ≤ bytes.length
  progress : bytes ≠ [] → 0 < n
  calls : w'.kernel.2 = w.kernel.2 ++ [.write fd (bytes.take n)]
  fds : w'.fds = (w.registerWrite fd).fds

theorem write_done {buffer : BufferViewList} {n : Nat}
    (h : FileDescriptor.write K.recording w fd buffer false = .ok (n, w')) :
    WriteDone w fd buffer.views.flatten n w' := by
  obtain ⟨s, hloop, heq⟩ := map_eq_ok.mp h
  obtain ⟨rfl, rfl⟩ := Prod.mk.inj heq
  obtain ⟨⟨again, s'⟩, hround, hrest⟩ := bind_eq_ok.mp hloop
  obtain ⟨hagain, n, -, hdone⟩ := writeRound_done hround
  subst hagain
  obtain rfl := Except.ok.inj hrest
  rw [hdone.total, Nat.zero_add]
  exact ⟨hdone.fits, hdone.progress, hdone.calls, hdone.fds⟩

end Specs

/-! ## Writing everything -/

section All

variable {κ φ : Type} [DecidableEq φ]

/-- What the loop has written and what it still has to write are the whole. -/
def Wrote (w : World (κ × List (Call φ)) φ) (fd : φ) (bytes : List Byte)
    (s : FileDescriptor.Writing (κ × List (Call φ)) φ) : Prop :=
  s.totalBytesWritten + s.buffer.views.flatten.length = bytes.length
    ∧ sent fd s.world.kernel.2 ++ s.buffer.views.flatten = sent fd w.kernel.2 ++ bytes
    ∧ (∀ fd', fd' ≠ fd → sent fd' s.world.kernel.2 = sent fd' w.kernel.2)
    ∧ ∀ fd', received fd' s.world.kernel.2 = received fd' w.kernel.2

theorem Wrote.round {w : World (κ × List (Call φ)) φ} {fd : φ} {bytes : List Byte} {n : Nat}
    {s s' : FileDescriptor.Writing (κ × List (Call φ)) φ} (h : Wrote w fd bytes s)
    (hround : Round fd s n s') : Wrote w fd bytes s' := by
  obtain ⟨htotal, hsent, hothers, hreceived⟩ := h
  have hfits := hround.fits
  refine ⟨?_, ?_, fun fd' hne => ?_, fun fd' => ?_⟩
  · rw [hround.total, hround.buffer, List.length_drop]
    omega
  · rw [hround.calls, hround.buffer, sent_append, sent_write, if_pos rfl, List.append_assoc,
      List.take_append_drop]
    exact hsent
  · rw [hround.calls, sent_append, sent_write, if_neg hne.symm, List.append_nil]
    exact hothers fd' hne
  · rw [hround.calls, received_append, received_write, List.append_nil]
    exact hreceived fd'

/-- The kernel takes some of what it is given, and never more. -/
def Kernel.Progresses (K : Kernel κ φ) : Prop :=
  ∀ k fd iovecs, ∃ n k', K.writev k fd iovecs = .ok (n, k')
    ∧ n ≤ (iovecs.flatMap Prod.fst).length
    ∧ (iovecs.flatMap Prod.fst ≠ [] → 0 < n)

/-- No round raises if the kernel makes progress. -/
theorem writeRound_total {K : Kernel κ φ} (hK : K.Progresses) (fd : φ) (writeAll : Bool)
    (s : FileDescriptor.Writing (κ × List (Call φ)) φ) :
    ∃ r, FileDescriptor.writeRound K.recording fd writeAll s = .ok r := by
  obtain ⟨n, k', hok, hle, hpos⟩ := hK s.world.kernel.1 fd s.buffer.asIovecs
  rw [flatMap_asIovecs] at hle hpos
  obtain ⟨l, hremoved, -⟩ := removePrefix_of_le s.buffer n hle
  have hwritev : K.recording.writev s.world.kernel fd s.buffer.asIovecs
      = .ok (n, k', s.world.kernel.2
        ++ [.write fd ((s.buffer.asIovecs.flatMap Prod.fst).take n)]) := by
    rw [Kernel.recording]
    dsimp only
    rw [hok]
    rfl
  have hzero : ¬ (n = 0 ∧ s.buffer.size ≠ 0) := by
    rintro ⟨hn, hsize⟩
    rw [BufferViewList.size_eq_length, ne_eq, List.length_eq_zero_iff] at hsize
    have := hpos hsize
    omega
  have hlong : ¬ n > s.buffer.size := by
    rw [BufferViewList.size_eq_length]
    omega
  rw [FileDescriptor.writeRound, hwritev]
  dsimp only [bind, Except.bind]
  rw [if_neg hzero, if_neg hlong, hremoved]
  exact ⟨_, rfl⟩

/-- **A WRITE OF EVERYTHING**: when it returns, the kernel has got every byte of the
    pieces once and in order, and nothing else has moved; it returns if the kernel makes
    progress. -/
theorem write_all_exact (K : Kernel κ φ) (w : World (κ × List (Call φ)) φ) (fd : φ)
    (buffer : BufferViewList) :
    (∀ n w', FileDescriptor.write K.recording w fd buffer true = .ok (n, w') →
      n = buffer.size
        ∧ sent fd w'.kernel.2 = sent fd w.kernel.2 ++ buffer.views.flatten
        ∧ (∀ fd', fd' ≠ fd → sent fd' w'.kernel.2 = sent fd' w.kernel.2)
        ∧ ∀ fd', received fd' w'.kernel.2 = received fd' w.kernel.2)
      ∧ (K.Progresses →
        ∃ n w', FileDescriptor.write K.recording w fd buffer true = .ok (n, w')) := by
  -- the measure of the loop is what is left to write
  let μ (s : FileDescriptor.Writing (κ × List (Call φ)) φ) : Nat := s.buffer.views.flatten.length
  have hsmaller : ∀ s s' : FileDescriptor.Writing (κ × List (Call φ)) φ,
      FileDescriptor.writeRound K.recording fd true s = .ok (true, s') → μ s' < μ s := by
    intro s s' h
    obtain ⟨hagain, n, -, hround⟩ := writeRound_done h
    have hsize : s'.buffer.views.flatten.length ≠ 0 := by
      rw [← BufferViewList.size_eq_length]
      simpa using hagain.symm
    have hbuffer := congrArg List.length hround.buffer
    rw [List.length_drop] at hbuffer
    have hpos := hround.progress fun hnil => by
      rw [hnil, List.length_nil] at hbuffer
      omega
    have hfits := hround.fits
    show s'.buffer.views.flatten.length < s.buffer.views.flatten.length
    omega
  have hfuel : μ ⟨buffer, 0, w⟩ < buffer.size + 1 := by
    show buffer.views.flatten.length < buffer.size + 1
    rw [BufferViewList.size_eq_length]
    exact Nat.lt_succ_self _
  constructor
  · intro n w' h
    obtain ⟨s, hloop, heq⟩ := map_eq_ok.mp h
    obtain ⟨rfl, rfl⟩ := Prod.mk.inj heq
    have hpost := doWhile_post (I := Wrote w fd buffer.views.flatten)
      (Q := fun s => Wrote w fd buffer.views.flatten s ∧ s.buffer.views.flatten = [])
      (fun s s' hs hround => by
        obtain ⟨-, n, -, hdone⟩ := writeRound_done hround
        exact ⟨hs.round hdone, hsmaller s s' hround⟩)
      (fun s s' hs hround => by
        obtain ⟨hagain, n, -, hdone⟩ := writeRound_done hround
        refine ⟨hs.round hdone, ?_⟩
        rw [Bool.true_and] at hagain
        have hsize := bne_eq_false_iff_eq.mp hagain.symm
        rw [BufferViewList.size_eq_length] at hsize
        exact List.eq_nil_of_length_eq_zero hsize)
      _ _ s hfuel ⟨Nat.zero_add _, rfl, fun _ _ => rfl, fun _ => rfl⟩ hloop
    obtain ⟨⟨htotal, hsent, hothers, hreceived⟩, hnil⟩ := hpost
    rw [hnil, List.length_nil, Nat.add_zero] at htotal
    rw [hnil, List.append_nil] at hsent
    exact ⟨htotal.trans (BufferViewList.size_eq_length _).symm, hsent, hothers, hreceived⟩
  · intro hK
    obtain ⟨s, hs⟩ := doWhile_total (I := fun _ => True) (μ := μ)
      (fun s _ => writeRound_total hK fd true s)
      (fun s s' _ hround => ⟨trivial, hsmaller s s' hround⟩) _ ⟨buffer, 0, w⟩ hfuel trivial
    refine ⟨_, _, map_eq_ok.mpr ⟨s, hs, rfl⟩⟩

end All

end SpongeDescriptor
