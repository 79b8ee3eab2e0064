import Sponge.EventLoopProofs

/-! # Copying both ways — `bidirectional_stream_copy`

    The programs of the repository connect a socket to their standard input and output:
    two byte streams, and four rules of the event loop that fill and empty them.  The two
    directions are alike, except that at the end the outbound one shuts the socket down
    for writing and the inbound one closes the output.

    Nothing is lost or made up on the way, whatever the kernel answers and in whatever
    order the descriptors become ready (`copy_exact`).  When the loop is left, and neither
    target hung up before, everything was copied (`copy_complete`): a rule that is still
    there has then nothing to do, and a rule that is gone had done its part. -/

namespace SpongeCopy

open SpongeByteStream SpongeDescriptor SpongeEventLoop RaiseRule RunRule

inductive Fd where
  | input
  | output
  | socket
deriving DecidableEq, Repr

inductive Way where
  | outbound
  | inbound
deriving DecidableEq, Repr

namespace Way

def other : Way → Way
  | outbound => inbound
  | inbound => outbound

/-- Where the bytes are read. -/
def source : Way → Fd
  | outbound => .input
  | inbound => .socket

/-- Where they are written. -/
def target : Way → Fd
  | outbound => .socket
  | inbound => .output

end Way

/-- The variables of `bidirectional_stream_copy`, with one stream and one flag each way. -/
structure Copy (κ : Type) where
  world : World κ Fd
  stream : Way → ByteStream
  shutdown : Way → Bool

def maxCopyLength : Nat := 65536

def bufferSize : UInt64 := 1048576

section Rules

variable {κ : Type} (K : Kernel κ Fd)

/-- What is done when a stream has been copied whole. -/
def Way.finish : Way → World κ Fd → Except String (World κ Fd)
  | outbound, w => SpongeDescriptor.shutdown K w .socket .wr
  | inbound, w => FileDescriptor.close K w .output

namespace Copy

def setStream (s : Copy κ) (way : Way) (stream : ByteStream) : Copy κ :=
  { s with stream := Function.update s.stream way stream }

def endInput (s : Copy κ) (way : Way) : Copy κ := s.setStream way (s.stream way).endInput

theorem endInput_stream_self (s : Copy κ) (way : Way) :
    (s.endInput way).stream way = (s.stream way).endInput := Function.update_self ..

theorem endInput_stream_ne (s : Copy κ) {way way' : Way} (h : way' ≠ way) :
    (s.endInput way).stream way' = s.stream way' := Function.update_of_ne h ..

@[simp] theorem endInput_buffer (s : Copy κ) (way way' : Way) :
    ((s.endInput way).stream way').buffer = (s.stream way').buffer := by
  cases way <;> cases way' <;> rfl

@[simp] theorem endInput_capacity (s : Copy κ) (way way' : Way) :
    ((s.endInput way).stream way').capacity = (s.stream way').capacity := by
  cases way <;> cases way' <;> rfl

@[simp] theorem endInput_error (s : Copy κ) (way way' : Way) :
    ((s.endInput way).stream way').error = (s.stream way').error := by
  cases way <;> cases way' <;> rfl

end Copy

/-- Rules 1 and 3: read into the byte stream. -/
def readRule (way : Way) : Rule Fd (Copy κ) String where
  fd := way.source
  direction := .In
  callback s := do
    let (bytes, world) ← FileDescriptor.read K s.world way.source (s.stream way).remainingCapacity
    let stream := ((s.stream way).write bytes).2
    let stream := if (world.fds way.source).eof then stream.endInput else stream
    .ok ({ s with world := world }.setStream way stream)
  interest s :=
    !(s.stream way).error && decide ((s.stream way).remainingCapacity > 0)
      && !(s.stream way.other).error
  cancel s := .ok (s.endInput way)

/-- Rules 2 and 4: write out of the byte stream. -/
def writeRule (way : Way) : Rule Fd (Copy κ) String where
  fd := way.target
  direction := .Out
  callback s := do
    let bytesToWrite := min maxCopyLength (s.stream way).bufferSize
    let (bytesWritten, world) ←
      FileDescriptor.write K s.world way.target ⟨[(s.stream way).peekOutput bytesToWrite]⟩ false
    let stream := (s.stream way).popOutput bytesWritten
    if stream.eof then do
      let world ← way.finish K world
      .ok { s.setStream way stream with
            world := world, shutdown := Function.update s.shutdown way true }
    else .ok ({ s with world := world }.setStream way stream)
  interest s := !(s.stream way).bufferEmpty || ((s.stream way).eof && !s.shutdown way)
  cancel s := .ok (s.endInput way)

/-- The four rules, as they are added. -/
def copyRules : List (Rule Fd (Copy κ) String) :=
  [readRule K .outbound, writeRule K .outbound, readRule K .inbound, writeRule K .inbound]

/-- The variables as they are declared; the socket is the caller's. -/
def Copy.start (k : κ) (socket : FDWrapper) : Copy κ where
  world := ⟨k, Function.update (fun _ => {}) .socket socket⟩
  stream := fun _ => .new bufferSize
  shutdown := fun _ => false

/-- The descriptors, for the event loop. -/
def Copy.fds (s : Copy κ) : Fd → FDWrapper := s.world.fds

end Rules

/-! ## What the callbacks do -/

section Callbacks

variable {κ : Type} {K : Kernel κ Fd} {way : Way} {s s' : Copy (κ × List (Call Fd))}

/-- The calls that the kernel has answered. -/
def Copy.calls (s : Copy (κ × List (Call Fd))) : List (Call Fd) := s.world.kernel.2

/-- A callback that reads, inverted. -/
theorem readRule_callback (h : (readRule K.recording way).callback s = .ok s') :
    ∃ bytes, ReadDone s.world way.source (s.stream way).remainingCapacity bytes s'.world
      ∧ s'.shutdown = s.shutdown
      ∧ (∀ way', way' ≠ way → s'.stream way' = s.stream way')
      ∧ (s'.stream way).buffer = (s.stream way).buffer ++ bytes
      ∧ (s'.stream way).capacity = (s.stream way).capacity
      ∧ (s'.stream way).error = (s.stream way).error
      ∧ (s'.stream way).inputEnded
          = ((s'.world.fds way.source).eof || (s.stream way).inputEnded) := by
  obtain ⟨⟨bytes, world⟩, hread, heq⟩ := bind_eq_ok.mp h
  obtain rfl := Except.ok.inj heq
  have hdone := read_done hread
  have hfits : (s.stream way).buffer.length + bytes.length ≤ (s.stream way).capacity.toNat := by
    have hlength := hdone.length
    have := (s.stream way).fits
    rw [ByteStream.remainingCapacity] at hlength
    omega
  refine ⟨bytes, hdone, rfl, fun way' hne => Function.update_of_ne hne .., ?_⟩
  have hstream : ({ s with world := world }.setStream way
      (if (world.fds way.source).eof then ((s.stream way).write bytes).2.endInput
        else ((s.stream way).write bytes).2)).stream way
      = if (world.fds way.source).eof then ((s.stream way).write bytes).2.endInput
        else ((s.stream way).write bytes).2 := Function.update_self ..
  rw [hstream, ← ByteStream.write_buffer_of_fits _ hfits]
  cases heof : (world.fds way.source).eof with
  | true => exact ⟨rfl, rfl, rfl, by simp [Copy.setStream, heof, ByteStream.endInput]⟩
  | false => exact ⟨rfl, rfl, rfl, by simp [Copy.setStream, heof, ByteStream.write]⟩

/-- The call that ends a way. -/
def Way.lastCall : Way → Call Fd
  | outbound => .shutdown .socket .wr
  | inbound => .close .output

/-- Finishing a way, inverted. -/
structure Finished (way : Way) (w w' : World (κ × List (Call Fd)) Fd) : Prop where
  calls : w'.kernel.2 = w.kernel.2 ++ [way.lastCall]
  others : ∀ fd, fd ≠ way.target → w'.fds fd = w.fds fd
  source : ∀ way' : Way, (w'.fds way'.source).eof = (w.fds way'.source).eof
    ∧ (w'.fds way'.source).closed = (w.fds way'.source).closed
  count : (w'.fds way.target).writeCount = (w.fds way.target).writeCount
    ∨ (w'.fds way.target).writeCount = (w.fds way.target).writeCount + 1

theorem finish_done {w w' : World (κ × List (Call Fd)) Fd}
    (h : way.finish K.recording w = .ok w') : Finished way w w' := by
  cases way with
  | outbound =>
      obtain ⟨k, hk, heq⟩ := bind_eq_ok.mp h
      obtain ⟨k', -, rfl⟩ := map_eq_ok.mp hk
      obtain rfl := Except.ok.inj heq
      refine ⟨rfl, fun fd hne => World.fds_update_ne _ _ hne, fun way' => ?_, Or.inr ?_⟩
      · cases way' <;> exact ⟨rfl, rfl⟩
      · rfl
  | inbound =>
      obtain ⟨k, hk, heq⟩ := bind_eq_ok.mp h
      obtain ⟨k', -, rfl⟩ := map_eq_ok.mp hk
      obtain rfl := Except.ok.inj heq
      refine ⟨rfl, fun fd hne => World.fds_update_ne _ _ hne, fun way' => ?_, Or.inl ?_⟩
      · cases way' <;> exact ⟨rfl, rfl⟩
      · rfl

/-- A callback that writes, inverted. -/
structure WriteStep (way : Way) (s s' : Copy (κ × List (Call Fd))) (n : Nat)
    (w : World (κ × List (Call Fd)) Fd) : Prop where
  write : WriteDone s.world way.target ((s.stream way).buffer.take maxCopyLength) n w
  stream : s'.stream = Function.update s.stream way ((s.stream way).popOutput n)
  rest : (s'.world = w ∧ s'.shutdown = s.shutdown)
    ∨ ((s'.stream way).eof = true ∧ Finished way w s'.world
      ∧ s'.shutdown = Function.update s.shutdown way true)

theorem writeRule_callback (h : (writeRule K.recording way).callback s = .ok s') :
    ∃ n w, WriteStep way s s' n w := by
  obtain ⟨⟨n, w⟩, hwrite, hrest⟩ := bind_eq_ok.mp h
  have hdone := write_done hwrite
  have hpeek : [(s.stream way).peekOutput
      (min maxCopyLength (s.stream way).bufferSize)].flatten
      = (s.stream way).buffer.take maxCopyLength := by
    rw [List.flatten_singleton, ByteStream.peekOutput, ByteStream.bufferSize, List.take_eq_take_iff]
    omega
  dsimp only at hdone hrest
  rw [hpeek] at hdone
  refine ⟨n, w, ?_⟩
  split_ifs at hrest with heof
  · obtain ⟨w', hfinish, heq⟩ := bind_eq_ok.mp hrest
    obtain rfl := Except.ok.inj heq
    refine ⟨hdone, rfl, Or.inr ⟨?_, finish_done hfinish, rfl⟩⟩
    have hself : (s.setStream way ((s.stream way).popOutput n)).stream way
        = (s.stream way).popOutput n := Function.update_self ..
    exact (congrArg ByteStream.eof hself).trans heof
  · obtain rfl := Except.ok.inj hrest
    exact ⟨hdone, rfl, Or.inl ⟨rfl, rfl⟩⟩

/-- What a write took is gone from the stream. -/
theorem WriteStep.buffer {n : Nat} {w : World (κ × List (Call Fd)) Fd}
    (h : WriteStep way s s' n w) :
    ((s.stream way).buffer.take maxCopyLength).take n ++ (s'.stream way).buffer
      = (s.stream way).buffer := by
  have hfits := h.write.fits
  rw [List.length_take] at hfits
  rw [h.stream, Function.update_self, ByteStream.popOutput_buffer, List.take_take,
    Nat.min_eq_left (by omega), List.take_append_drop]

end Callbacks

/-! ## Nothing is lost or made up -/

section Exact

variable {κ : Type} {K : Kernel κ Fd}

/-- What was read each way is what was written, and what is in the stream. -/
def Accounted (s : Copy (κ × List (Call Fd))) : Prop :=
  ∀ way : Way,
    received way.source s.calls = sent way.target s.calls ++ (s.stream way).buffer

theorem Way.source_injective {way way' : Way} (h : way.source = way'.source) : way = way' := by
  cases way <;> cases way' <;> first | rfl | cases h

theorem Way.target_injective {way way' : Way} (h : way.target = way'.target) : way = way' := by
  cases way <;> cases way' <;> first | rfl | cases h

theorem Accounted.read {way : Way} {s s' : Copy (κ × List (Call Fd))} (h : Accounted s)
    (hcall : (readRule K.recording way).callback s = .ok s') : Accounted s' := by
  obtain ⟨bytes, hdone, -, hothers, hbuffer, -⟩ := readRule_callback hcall
  have hcalls : s'.calls = s.calls ++ [.read way.source bytes] := hdone.calls
  intro way'
  rw [hcalls, received_append, sent_append, received_read, sent_read, h way', List.append_nil]
  by_cases hway : way' = way
  · subst hway
    rw [if_pos rfl, hbuffer, List.append_assoc]
  · rw [if_neg fun heq => hway (Way.source_injective heq).symm, hothers way' hway, List.append_nil]

theorem Accounted.write {way : Way} {s s' : Copy (κ × List (Call Fd))} (h : Accounted s)
    (hcall : (writeRule K.recording way).callback s = .ok s') : Accounted s' := by
  obtain ⟨n, w, hstep⟩ := writeRule_callback hcall
  -- closing and shutting down move no bytes
  have hcalls : ∀ fd, received fd s'.calls = received fd w.kernel.2
      ∧ sent fd s'.calls = sent fd w.kernel.2 := by
    intro fd
    rw [Copy.calls]
    rcases hstep.rest with ⟨hw, -⟩ | ⟨-, hfinished, -⟩
    · rw [hw]
      exact ⟨rfl, rfl⟩
    · rw [hfinished.calls]
      cases way <;> simp [Way.lastCall]
  intro way'
  rw [(hcalls _).1, (hcalls _).2, hstep.write.calls, received_append, sent_append, received_write,
    sent_write, List.append_nil]
  refine (h way').trans ?_
  by_cases hway : way' = way
  · subst hway
    rw [if_pos rfl, List.append_assoc, hstep.buffer]
    rfl
  · rw [if_neg fun heq => hway (Way.target_injective heq).symm, hstep.stream,
      Function.update_of_ne hway, List.append_nil]
    rfl

theorem Accounted.endInput {s : Copy (κ × List (Call Fd))} (h : Accounted s) (way : Way) :
    Accounted (s.endInput way) := by
  intro way'
  rw [Copy.endInput_buffer]
  exact h way'

/-- A rule of the copy. -/
def OfCopy (K : Kernel κ Fd) (rule : Rule Fd (Copy κ) String) : Prop :=
  ∃ way, rule = readRule K way ∨ rule = writeRule K way

theorem ofCopy_of_mem {rule : Rule Fd (Copy κ) String} (h : rule ∈ copyRules K) :
    OfCopy K rule := by
  rw [copyRules, List.mem_cons, List.mem_cons, List.mem_cons, List.mem_singleton] at h
  rcases h with rfl | rfl | rfl | rfl
  · exact ⟨.outbound, Or.inl rfl⟩
  · exact ⟨.outbound, Or.inr rfl⟩
  · exact ⟨.inbound, Or.inl rfl⟩
  · exact ⟨.inbound, Or.inr rfl⟩

theorem Accounted.callback {rule : Rule Fd (Copy (κ × List (Call Fd))) String}
    {s s' : Copy (κ × List (Call Fd))} (h : Accounted s) (hrule : OfCopy K.recording rule)
    (hcall : rule.callback s = .ok s') : Accounted s' := by
  obtain ⟨way, rfl | rfl⟩ := hrule
  · exact h.read hcall
  · exact h.write hcall

theorem OfCopy.cancel {rule : Rule Fd (Copy κ) String} (h : OfCopy K rule) (s : Copy κ) :
    ∃ way, rule.cancel s = .ok (s.endInput way) := by
  obtain ⟨way, rfl | rfl⟩ := h
  · exact ⟨way, rfl⟩
  · exact ⟨way, rfl⟩

theorem keeps_accounted (K : Kernel κ Fd) (poll : Poll Fd) :
    Keeps Copy.fds poll
      (fun rules s => (∀ rule ∈ rules, OfCopy K.recording rule) ∧ Accounted s)
      (fun _ _ => True) where
  interest _ _ _ _ _ _ _ := trivial
  cancel pre r post s s' := by
    rintro ⟨hrules, h⟩ - hcancel
    obtain ⟨way, hway⟩ := (hrules r (by simp)).cancel s
    rw [hway] at hcancel
    obtain rfl := Except.ok.inj hcancel
    refine ⟨⟨fun rule hrule => hrules rule ?_, h.endInput way⟩, fun _ _ _ => trivial⟩
    rw [List.mem_append, List.mem_cons]
    exact (List.mem_append.mp hrule).imp id Or.inr
  callback pre r post s s' := by
    rintro ⟨hrules, h⟩ - hcall
    exact ⟨⟨hrules, h.callback (hrules r (by simp)) hcall⟩, fun _ _ _ => trivial⟩

theorem accounted_start (k : κ) (socket : FDWrapper) : Accounted (Copy.start (k, []) socket) :=
  fun _ => rfl

/-- A kernel whose descriptors hold given bytes, and that takes everything. -/
def pipes : Kernel (Fd → List Byte) Fd where
  read k fd size := .ok ((k fd).take size, Function.update k fd ((k fd).drop size))
  writev k _ iovecs := .ok ((iovecs.flatMap Prod.fst).length, k)
  shutdown k _ _ := .ok k
  close k _ := .ok k

/-- Two bytes to go out, and one to come in. -/
def piped : Fd → List Byte
  | .input => [1, 2]
  | .output => []
  | .socket => [3]

def allReady : Poll Fd := .answered fun _ _ => { pollin := true, pollout := true }

/-- A read or a write counts, so the loop never finds a callback that did neither. -/
theorem OfCopy.acts {rule : Rule Fd (Copy (κ × List (Call Fd))) String}
    (h : OfCopy K.recording rule) : rule.Acts Copy.fds := by
  have hone : ∀ count : BitVec 32, count + 1 ≠ count := by
    intro count
    bv_omega
  have htwo : ∀ count : BitVec 32, count + 1 + 1 ≠ count := by
    intro count
    bv_omega
  obtain ⟨way, rfl | rfl⟩ := h
  · intro s s' hcall
    obtain ⟨bytes, hdone, -⟩ := readRule_callback hcall
    refine Or.inl fun heq => hone (s.world.fds way.source).readCount ?_
    rw [← hdone.count]
    exact heq
  · intro s s' hcall
    obtain ⟨n, w, hstep⟩ := writeRule_callback hcall
    have hw : (w.fds way.target).writeCount = (s.world.fds way.target).writeCount + 1 := by
      rw [hstep.write.fds]
      exact congrArg FDWrapper.writeCount (World.fds_update_self ..)
    refine Or.inl fun heq => ?_
    have heq : (s'.world.fds way.target).writeCount = (s.world.fds way.target).writeCount := heq
    rcases hstep.rest with ⟨hworld, -⟩ | ⟨-, hfinished, -⟩
    · rw [hworld, hw] at heq
      exact hone _ heq
    · rcases hfinished.count with hcount | hcount
      · rw [hcount, hw] at heq
        exact hone _ heq
      · rw [hcount, hw] at heq
        exact htwo _ heq

theorem accounted_run {polls : List (Poll Fd)} {k : κ} {socket : FDWrapper}
    {rules : List (Rule Fd (Copy (κ × List (Call Fd))) String)} {s : Copy (κ × List (Call Fd))}
    (hrun : run (wait Copy.fds) (copyRules K.recording, Copy.start (k, []) socket) polls
      = some (rules, s)) :
    (∀ rule ∈ rules, OfCopy K.recording rule) ∧ Accounted s := by
  refine run_keeps
    (I := fun x : List (Rule Fd (Copy (κ × List (Call Fd))) String) × Copy (κ × List (Call Fd)) =>
      (∀ rule ∈ x.1, OfCopy K.recording rule) ∧ Accounted x.2)
    (fun x poll y hx hwait => ?_) ⟨fun _ => ofCopy_of_mem, accounted_start k socket⟩ hrun
  obtain ⟨result, hresult⟩ := wait_eq_some hwait
  exact (keeps_accounted K poll).wait hx hresult

/-- **THE COPY IS EXACT**, whatever the kernel and the order of events: at every moment the
    bytes read from the input are those written to the socket and those in the outbound
    stream, in order, and likewise from the socket to the output.  No wait ends in a busy
    wait. -/
theorem copy_exact (K : Kernel κ Fd) (k : κ) (socket : FDWrapper) (polls : List (Poll Fd))
    (rules : List (Rule Fd (Copy (κ × List (Call Fd))) String)) (s : Copy (κ × List (Call Fd)))
    (hrun : run (wait Copy.fds) (copyRules K.recording, Copy.start (k, []) socket) polls
      = some (rules, s)) :
    received .input s.calls = sent .socket s.calls ++ (s.stream .outbound).buffer
      ∧ received .socket s.calls = sent .output s.calls ++ (s.stream .inbound).buffer
      ∧ ∀ poll, waitNextEvent Copy.fds rules poll s ≠ .error .busyWait := by
  obtain ⟨hrules, h⟩ := accounted_run hrun
  exact ⟨h .outbound, h .inbound, fun poll => never_busy (fun rule hrule => (hrules rule hrule).acts)
    poll s⟩

/-- After one wait everything was read, and nothing written. -/
theorem copy_exact_pipes :
    ∃ rules s,
      run (wait Copy.fds) (copyRules pipes.recording, Copy.start (piped, []) {}) [allReady]
        = some (rules, s)
      ∧ s.calls = [.read .input [1, 2], .read .socket [3]]
      ∧ received .input s.calls = sent .socket s.calls ++ (s.stream .outbound).buffer := by
  refine ⟨_, _, rfl, rfl, ?_⟩
  exact (copy_exact pipes piped {} [allReady] _ _ rfl).1

end Exact

/-! ## Everything is copied -/

section Complete

variable {κ : Type} {K : Kernel κ Fd}

/-- How far one way has come, seen from the rules that are left. -/
structure Lane (K : Kernel κ Fd) (rules : List (Rule Fd (Copy (κ × List (Call Fd))) String))
    (s : Copy (κ × List (Call Fd))) (way : Way) : Prop where
  capacity : (s.stream way).capacity = bufferSize
  error : (s.stream way).error = false
  unread : readRule K.recording way ∉ rules → (s.stream way).inputEnded = true
  ended : readRule K.recording way ∈ rules → (s.stream way).inputEnded = true →
    (s.world.fds way.source).eof = true
  unwritten : writeRule K.recording way ∉ rules → s.shutdown way = true
  shut : s.shutdown way = true → (s.stream way).eof = true ∧ way.lastCall ∈ s.calls
  closed : (s.world.fds way.target).closed = true → s.shutdown way = true

/-- The rules that are left, and both ways. -/
structure Copying (K : Kernel κ Fd) (rules : List (Rule Fd (Copy (κ × List (Call Fd))) String))
    (s : Copy (κ × List (Call Fd))) : Prop where
  remain : rules.Sublist (copyRules K.recording)
  lane : ∀ way, Lane K rules s way

/-- The source of a rule that reads is not at its end. -/
def Open (rule : Rule Fd (Copy (κ × List (Call Fd))) String) (s : Copy (κ × List (Call Fd))) :
    Prop :=
  rule.direction = .In → (s.world.fds rule.fd).eof = false

/-- The answer does not say that a target hung up. -/
def Listens (poll : Poll Fd) : Prop :=
  ∀ revents, poll = .answered revents → ∀ fd, (revents fd .Out).pollhup = false

theorem Listens.not_hangs {poll : Poll Fd} (h : Listens poll) (way : Way) :
    ¬ poll.Hangs (writeRule K way) := by
  rintro ⟨revents, hpoll, hhup⟩
  exact Bool.false_ne_true ((h revents hpoll _).symm.trans hhup)

theorem readRule_injective {way way' : Way} (h : readRule K way = readRule K way') : way = way' :=
  Way.source_injective (congrArg Rule.fd h)

theorem writeRule_injective {way way' : Way} (h : writeRule K way = writeRule K way') :
    way = way' :=
  Way.target_injective (congrArg Rule.fd h)

theorem readRule_ne_writeRule (way way' : Way) : readRule K way ≠ writeRule K way' := by
  intro h
  cases congrArg Rule.direction h

theorem nodup_copyRules (K : Kernel κ Fd) : (copyRules K).Nodup := by
  have hkeys : ((copyRules K).map fun rule => (rule.fd, rule.direction)).Nodup := by
    show [(Fd.input, Direction.In), (.socket, .Out), (.socket, .In), (.output, .Out)].Nodup
    decide
  exact hkeys.of_map

section Steps

variable {pre post : List (Rule Fd (Copy (κ × List (Call Fd))) String)}
  {s s' : Copy (κ × List (Call Fd))} {way : Way}

/-- In the rules that are left no rule is there twice. -/
theorem Copying.not_mem {rule : Rule Fd (Copy (κ × List (Call Fd))) String}
    (h : Copying K (pre ++ rule :: post) s) : rule ∉ pre ++ post := by
  have hnodup := (nodup_copyRules K.recording).sublist h.remain
  exact (List.nodup_cons.mp (List.perm_middle.nodup_iff.mp hnodup)).1

theorem mem_middle {α : Type} {pre post : List α} {a b : α} (h : b ∈ pre ++ post) :
    b ∈ pre ++ a :: post := by
  rw [List.mem_append, List.mem_cons]
  exact (List.mem_append.mp h).imp id Or.inr

theorem not_mem_middle {α : Type} {pre post : List α} {a b : α} (h : b ∉ pre ++ post)
    (hne : b ≠ a) : b ∉ pre ++ a :: post := by
  intro hmem
  rcases List.mem_append.mp hmem with hpre | hcons
  · exact h (List.mem_append_left _ hpre)
  · rcases List.mem_cons.mp hcons with heq | hpost
    · exact hne heq
    · exact h (List.mem_append_right _ hpost)

theorem eof_iff {stream : ByteStream} :
    stream.eof = true ↔ stream.inputEnded = true ∧ stream.buffer = [] := by
  rw [ByteStream.eof, Bool.and_eq_true, ByteStream.bufferEmpty, List.isEmpty_iff]

/-- While a way still reads, nothing has ended. -/
theorem Lane.running {rules : List (Rule Fd (Copy (κ × List (Call Fd))) String)}
    (h : Lane K rules s way) (hmem : readRule K.recording way ∈ rules)
    (hopen : (s.world.fds way.source).eof = false) :
    (s.stream way).inputEnded = false ∧ s.shutdown way = false := by
  have hended : (s.stream way).inputEnded = false := by
    rw [← Bool.not_eq_true]
    intro hended
    exact Bool.false_ne_true (hopen.symm.trans (h.ended hmem hended))
  refine ⟨hended, ?_⟩
  rw [← Bool.not_eq_true]
  intro hshut
  exact Bool.false_ne_true (hended.symm.trans (eof_iff.mp (h.shut hshut).1).1)

/-- A way on which nothing happened. -/
theorem Lane.frame {rules : List (Rule Fd (Copy (κ × List (Call Fd))) String)}
    (h : Lane K rules s way) (hstream : s'.stream way = s.stream way)
    (hshutdown : s'.shutdown way = s.shutdown way)
    (heof : (s'.world.fds way.source).eof = (s.world.fds way.source).eof)
    (hclosed : (s'.world.fds way.target).closed = (s.world.fds way.target).closed)
    (hcalls : ∀ call ∈ s.calls, call ∈ s'.calls) : Lane K rules s' way where
  capacity := hstream ▸ h.capacity
  error := hstream ▸ h.error
  unread := hstream ▸ h.unread
  ended := hstream ▸ heof ▸ h.ended
  unwritten := hshutdown ▸ h.unwritten
  shut hshut := by
    rw [hshutdown] at hshut
    exact ⟨hstream ▸ (h.shut hshut).1, hcalls _ (h.shut hshut).2⟩
  closed := hclosed ▸ hshutdown ▸ h.closed

theorem Copying.read (h : Copying K (pre ++ readRule K.recording way :: post) s)
    (hopen : Open (readRule K.recording way) s)
    (hcall : (readRule K.recording way).callback s = .ok s') :
    Copying K (pre ++ readRule K.recording way :: post) s' := by
  obtain ⟨bytes, hdone, hshutdown, hothers, -, hcapacity, herror, hended⟩ := readRule_callback hcall
  have hmem : readRule K.recording way ∈ pre ++ readRule K.recording way :: post := by simp
  have hclosed : ∀ fd, (s'.world.fds fd).closed = (s.world.fds fd).closed := by
    intro fd
    by_cases hfd : fd = way.source
    · rw [hfd, hdone.closed]
    · rw [hdone.others fd hfd]
  refine ⟨h.remain, fun way' => ?_⟩
  have hlane := h.lane way'
  by_cases hway : way' = way
  · subst hway
    obtain ⟨hrunning, hnot⟩ := hlane.running hmem (hopen rfl)
    refine ⟨hcapacity.trans hlane.capacity, herror.trans hlane.error, absurd hmem, ?_, ?_, ?_, ?_⟩
    · intro _ hended'
      rwa [hended, hrunning, Bool.or_false] at hended'
    · rw [hshutdown]
      exact hlane.unwritten
    · intro hshut
      rw [hshutdown, hnot] at hshut
      cases hshut
    · rw [hclosed, hshutdown]
      exact hlane.closed
  · have hsource : way'.source ≠ way.source := fun heq => hway (Way.source_injective heq)
    refine hlane.frame (hothers way' hway) (congrFun hshutdown way') ?_ (hclosed _) fun call hmem => ?_
    · rw [hdone.others _ hsource]
    · rw [Copy.calls, hdone.calls]
      exact List.mem_append_left _ hmem

/-- What a callback that writes does to the descriptors. -/
theorem WriteStep.fds {n : Nat} {w : World (κ × List (Call Fd)) Fd} (h : WriteStep way s s' n w) :
    (∀ way' : Way, (s'.world.fds way'.source).eof = (s.world.fds way'.source).eof
        ∧ (s'.world.fds way'.source).closed = (s.world.fds way'.source).closed)
      ∧ (∀ fd, fd ≠ way.target → s'.world.fds fd = s.world.fds fd)
      ∧ ((s'.world.fds way.target).closed = true →
        (s.world.fds way.target).closed = true ∨ s'.shutdown way = true) := by
  have heof : ∀ fd, (w.fds fd).eof = (s.world.fds fd).eof
      ∧ (w.fds fd).closed = (s.world.fds fd).closed := by
    intro fd
    rw [h.write.fds]
    by_cases hfd : fd = way.target
    · rw [hfd, World.registerWrite, World.fds_update_self]
      exact ⟨rfl, rfl⟩
    · rw [World.registerWrite, World.fds_update_ne _ _ hfd]
      exact ⟨rfl, rfl⟩
  have hothers : ∀ fd, fd ≠ way.target → w.fds fd = s.world.fds fd := by
    intro fd hfd
    rw [h.write.fds]
    exact World.fds_update_ne _ _ hfd
  rcases h.rest with ⟨hworld, -⟩ | ⟨-, hfinished, hshutdown⟩
  · rw [hworld]
    exact ⟨fun way' => heof _, hothers, fun hclosed => Or.inl ((heof _).2 ▸ hclosed)⟩
  · refine ⟨fun way' => ⟨(hfinished.source way').1.trans (heof _).1,
        (hfinished.source way').2.trans (heof _).2⟩,
      fun fd hfd => (hfinished.others fd hfd).trans (hothers fd hfd), fun _ => Or.inr ?_⟩
    rw [hshutdown, Function.update_self]

/-- A callback that writes only adds to the record, and finishes its own way only. -/
theorem WriteStep.record {n : Nat} {w : World (κ × List (Call Fd)) Fd}
    (h : WriteStep way s s' n w) :
    (∀ call ∈ s.calls, call ∈ s'.calls)
      ∧ (∀ way', way' ≠ way → s'.shutdown way' = s.shutdown way')
      ∧ (s'.shutdown way = true → s.shutdown way = true
        ∨ ((s'.stream way).eof = true ∧ way.lastCall ∈ s'.calls))
      ∧ (s.shutdown way = true → s'.shutdown way = true) := by
  have hw : ∀ call ∈ s.calls, call ∈ w.kernel.2 := by
    intro call hcall
    rw [h.write.calls]
    exact List.mem_append_left _ hcall
  rcases h.rest with ⟨hworld, hshutdown⟩ | ⟨heof, hfinished, hshutdown⟩
  · have hcalls : s'.calls = w.kernel.2 := congrArg (fun w => w.kernel.2) hworld
    rw [hcalls, hshutdown]
    exact ⟨hw, fun _ _ => rfl, Or.inl, id⟩
  · have hcalls : s'.calls = w.kernel.2 ++ [way.lastCall] := hfinished.calls
    rw [hcalls, hshutdown]
    refine ⟨fun call hcall => List.mem_append_left _ (hw call hcall),
      fun way' hne => Function.update_of_ne hne .., fun _ => Or.inr ⟨heof, by simp⟩, fun _ => ?_⟩
    exact Function.update_self ..

theorem Copying.write (h : Copying K (pre ++ writeRule K.recording way :: post) s)
    (hcall : (writeRule K.recording way).callback s = .ok s') :
    Copying K (pre ++ writeRule K.recording way :: post) s' := by
  obtain ⟨n, w, hstep⟩ := writeRule_callback hcall
  obtain ⟨heof, hothers, hclosed⟩ := hstep.fds
  obtain ⟨hcalls, hshutdown, hnew, hold⟩ := hstep.record
  refine ⟨h.remain, fun way' => ?_⟩
  have hlane := h.lane way'
  by_cases hway : way' = way
  · subst hway
    have hself : s'.stream way' = (s.stream way').popOutput n := by
      rw [hstep.stream, Function.update_self]
    refine ⟨?_, ?_, ?_, ?_, absurd (by simp), fun hshut => ?_, fun hclosed' => ?_⟩
    · rw [hself]
      exact hlane.capacity
    · rw [hself]
      exact hlane.error
    · rw [hself]
      exact hlane.unread
    · rw [hself, (heof _).1]
      exact hlane.ended
    · rcases hnew hshut with hshut | hdone
      · obtain ⟨hend, hmem⟩ := hlane.shut hshut
        obtain ⟨hended, hnil⟩ := eof_iff.mp hend
        refine ⟨eof_iff.mpr ⟨?_, ?_⟩, hcalls _ hmem⟩
        · rw [hself]
          exact hended
        · rw [hself, ByteStream.popOutput_buffer, hnil, List.drop_nil]
      · exact hdone
    · rcases hclosed hclosed' with hclosed | hshut
      · exact hold (hlane.closed hclosed)
      · exact hshut
  · have hsame : s'.stream way' = s.stream way' := by
      rw [hstep.stream, Function.update_of_ne hway]
    have htarget : way'.target ≠ way.target := fun heq => hway (Way.target_injective heq)
    refine hlane.frame hsame (hshutdown way' hway) (heof way').1 ?_ hcalls
    rw [hothers _ htarget]

/-- A rule is dropped, and the input of its way ended. -/
theorem Copying.cancelled {rule : Rule Fd (Copy (κ × List (Call Fd))) String}
    (h : Copying K (pre ++ rule :: post) s)
    (hread : ∀ way', rule = readRule K.recording way' → way' = way)
    (hwrite : ∀ way', rule = writeRule K.recording way' → s.shutdown way' = true)
    (hended : readRule K.recording way ∈ pre ++ post → (s.stream way).inputEnded = true) :
    Copying K (pre ++ post) (s.endInput way) := by
  have hsub : (pre ++ post).Sublist (pre ++ rule :: post) :=
    (List.Sublist.refl pre).append (List.sublist_cons_self rule post)
  have hmono : ∀ way', (s.stream way').inputEnded = true →
      ((s.endInput way).stream way').inputEnded = true := by
    intro way' hended'
    by_cases hway : way' = way
    · rw [hway, Copy.endInput_stream_self]
      rfl
    · rw [Copy.endInput_stream_ne s hway]
      exact hended'
  refine ⟨hsub.trans h.remain, fun way' => ?_⟩
  have hlane := h.lane way'
  refine ⟨?_, ?_, fun hnot => ?_, fun hmem hended' => ?_, fun hnot => ?_, fun hshut => ?_,
    hlane.closed⟩
  · rw [Copy.endInput_capacity]
    exact hlane.capacity
  · rw [Copy.endInput_error]
    exact hlane.error
  · by_cases hway : way' = way
    · rw [hway, Copy.endInput_stream_self]
      rfl
    · exact hmono way' (hlane.unread (not_mem_middle hnot fun heq => hway (hread way' heq.symm)))
  · refine hlane.ended (mem_middle hmem) ?_
    by_cases hway : way' = way
    · rw [hway] at hmem ⊢
      exact hended hmem
    · rw [Copy.endInput_stream_ne s hway] at hended'
      exact hended'
  · by_cases hrule : rule = writeRule K.recording way'
    · exact hwrite way' hrule
    · exact hlane.unwritten (not_mem_middle hnot fun heq => hrule heq.symm)
  · obtain ⟨hend, hcall⟩ := hlane.shut hshut
    obtain ⟨hended', hnil⟩ := eof_iff.mp hend
    exact ⟨eof_iff.mpr ⟨hmono way' hended', (Copy.endInput_buffer s way way').trans hnil⟩, hcall⟩

/-- A rule that writes is dropped because its target was closed, and so when its way was
    finished. -/
theorem Copying.shut_of_dropped {poll : Poll Fd} (hpoll : Listens poll)
    (h : Copying K (pre ++ writeRule K.recording way :: post) s)
    (hreason : (writeRule K.recording way).ended Copy.fds s = true
      ∨ poll.Hangs (writeRule K.recording way)) :
    s.shutdown way = true ∧ (s.stream way).inputEnded = true := by
  have hclosed : (s.world.fds way.target).closed = true := by
    rcases hreason with hended | hhangs
    · rw [Rule.ended] at hended
      exact hended
    · exact absurd hhangs (hpoll.not_hangs way)
  have hshut := (h.lane way).closed hclosed
  exact ⟨hshut, (eof_iff.mp ((h.lane way).shut hshut).1).1⟩

theorem keeps_copying (K : Kernel κ Fd) {poll : Poll Fd} (hpoll : Listens poll) :
    Keeps Copy.fds poll (Copying K) Open where
  interest rules s r _ _ hended _ hIn := by
    rw [Rule.ended, Bool.or_eq_false_iff, Bool.and_eq_false_iff] at hended
    rcases hended.1 with hOut | heof
    · exact absurd hIn (of_decide_eq_false hOut)
    · exact heof
  cancel pre r post s s' h hreason hcancel := by
    obtain ⟨way, rfl | rfl⟩ := ofCopy_of_mem (h.remain.subset (by simp : r ∈ pre ++ r :: post))
    · obtain rfl := Except.ok.inj hcancel
      refine ⟨h.cancelled (fun way' heq => (readRule_injective heq).symm)
        (fun way' heq => absurd heq (readRule_ne_writeRule _ _))
        (fun hmem => absurd hmem h.not_mem), fun _ _ hopen => hopen⟩
    · obtain rfl := Except.ok.inj hcancel
      obtain ⟨hshut, hended⟩ := h.shut_of_dropped hpoll hreason
      refine ⟨h.cancelled (fun way' heq => absurd heq.symm (readRule_ne_writeRule _ _))
        (fun way' heq => writeRule_injective heq ▸ hshut) (fun _ => hended),
        fun _ _ hopen => hopen⟩
  callback pre r post s s' h hopen hcall := by
    obtain ⟨way, rfl | rfl⟩ := ofCopy_of_mem (h.remain.subset (by simp : r ∈ pre ++ r :: post))
    · refine ⟨h.read hopen hcall, fun r' hr' hopen' hIn => ?_⟩
      obtain ⟨bytes, hdone, -⟩ := readRule_callback hcall
      obtain ⟨way', rfl | rfl⟩ := ofCopy_of_mem (h.remain.subset (mem_middle hr'))
      · have hway : way' ≠ way := by
          rintro rfl
          exact h.not_mem hr'
        have hsource : way'.source ≠ way.source := fun heq => hway (Way.source_injective heq)
        exact (congrArg FDWrapper.eof (hdone.others _ hsource)).trans (hopen' hIn)
      · cases hIn
    · refine ⟨h.write hcall, fun r' hr' hopen' hIn => ?_⟩
      obtain ⟨n, w, hstep⟩ := writeRule_callback hcall
      obtain ⟨way', rfl | rfl⟩ := ofCopy_of_mem (h.remain.subset (mem_middle hr'))
      · exact (hstep.fds.1 way').1.trans (hopen' hIn)
      · cases hIn

theorem copying_start (K : Kernel κ Fd) (k : κ) {socket : FDWrapper}
    (hsocket : socket.closed = false) :
    Copying K (copyRules K.recording) (Copy.start (k, []) socket) where
  remain := .refl _
  lane way := by
    have hclosed : ((Copy.start (k, ([] : List (Call Fd))) socket).world.fds way.target).closed
        = false := by
      cases way with
      | outbound => exact hsocket
      | inbound => rfl
    refine ⟨rfl, rfl, absurd ?_, fun _ h => absurd h Bool.false_ne_true, absurd ?_,
      fun h => absurd h Bool.false_ne_true, fun h => absurd (hclosed.symm.trans h) Bool.false_ne_true⟩
    · cases way <;> simp [copyRules]
    · cases way <;> simp [copyRules]

/-- The source of a way has ended: its descriptor is at its end, or one of the answers said
    that it hung up. -/
def SourceOver (polls : List (Poll Fd)) (s : Copy (κ × List (Call Fd))) (way : Way) : Prop :=
  (s.world.fds way.source).eof = true
    ∨ ∃ revents, .answered revents ∈ polls ∧ (revents way.source .In).pollhup = true

/-- No source is closed, and no stream ends before its source. -/
structure EndsLate (polls : List (Poll Fd)) (s : Copy (κ × List (Call Fd))) : Prop where
  opened : ∀ way : Way, (s.world.fds way.source).closed = false
  ending : ∀ way, (s.stream way).inputEnded = true → SourceOver polls s way

namespace EndsLate

variable {polls : List (Poll Fd)}

theorem read (h : EndsLate polls s) (hcall : (readRule K.recording way).callback s = .ok s') :
    EndsLate polls s' := by
  obtain ⟨bytes, hdone, -, hothers, -, -, -, hended⟩ := readRule_callback hcall
  refine ⟨fun way' => ?_, fun way' hended' => ?_⟩
  · by_cases hfd : way'.source = way.source
    · rw [hfd, hdone.closed]
      exact h.opened way
    · rw [hdone.others _ hfd]
      exact h.opened way'
  · by_cases hway : way' = way
    · rw [hway] at hended' ⊢
      rw [hended, Bool.or_eq_true] at hended'
      rcases hended' with heof | hbefore
      · exact Or.inl heof
      · refine (h.ending way hbefore).imp_left fun heof => ?_
        rw [hdone.eof, heof, Bool.true_or]
    · rw [hothers way' hway] at hended'
      refine (h.ending way' hended').imp_left fun heof => ?_
      rw [hdone.others _ fun heq => hway (Way.source_injective heq)]
      exact heof

theorem write (h : EndsLate polls s) (hcall : (writeRule K.recording way).callback s = .ok s') :
    EndsLate polls s' := by
  obtain ⟨n, w, hstep⟩ := writeRule_callback hcall
  have hsource := hstep.fds.1
  refine ⟨fun way' => (hsource way').2.trans (h.opened way'), fun way' hended => ?_⟩
  refine (h.ending way' ?_).imp_left (hsource way').1.trans
  rw [hstep.stream] at hended
  by_cases hway : way' = way
  · rw [hway, Function.update_self] at hended
    rw [hway]
    exact hended
  · rwa [Function.update_of_ne hway] at hended

theorem endInput (h : EndsLate polls s) (hover : SourceOver polls s way) :
    EndsLate polls (s.endInput way) := by
  refine ⟨h.opened, fun way' hended => ?_⟩
  by_cases hway : way' = way
  · rw [hway]
    exact hover
  · rw [Copy.endInput_stream_ne s hway] at hended
    exact h.ending way' hended

end EndsLate

theorem keeps_endsLate (K : Kernel κ Fd) {poll : Poll Fd} {polls : List (Poll Fd)}
    (hmem : poll ∈ polls) (hpoll : Listens poll) :
    Keeps Copy.fds poll (fun rules s => Copying K rules s ∧ EndsLate polls s) Open where
  interest rules s r h := (keeps_copying K hpoll).interest rules s r h.1
  cancel pre r post s s' h hreason hcancel := by
    obtain ⟨hcopying, hopen⟩ :=
      (keeps_copying K hpoll).cancel pre r post s s' h.1 hreason hcancel
    refine ⟨⟨hcopying, ?_⟩, hopen⟩
    obtain ⟨way, rfl | rfl⟩ := ofCopy_of_mem (h.1.remain.subset (by simp : r ∈ pre ++ r :: post))
    · obtain rfl := Except.ok.inj hcancel
      refine h.2.endInput ?_
      rcases hreason with hended | ⟨revents, rfl, hhup⟩
      · have hclosed : (Copy.fds s (readRule K.recording way).fd).closed = false := h.2.opened way
        rw [Rule.ended, hclosed, Bool.or_false, Bool.and_eq_true] at hended
        exact Or.inl hended.2
      · exact Or.inr ⟨revents, hmem, hhup⟩
    · obtain rfl := Except.ok.inj hcancel
      exact h.2.endInput (h.2.ending way (h.1.shut_of_dropped hpoll hreason).2)
  callback pre r post s s' h hopen hcall := by
    obtain ⟨hcopying, hkeep⟩ := (keeps_copying K hpoll).callback pre r post s s' h.1 hopen hcall
    refine ⟨⟨hcopying, ?_⟩, hkeep⟩
    obtain ⟨way, rfl | rfl⟩ := ofCopy_of_mem (h.1.remain.subset (by simp : r ∈ pre ++ r :: post))
    · exact h.2.read hcall
    · exact h.2.write hcall

theorem endsLate_start (polls : List (Poll Fd)) (k : κ) {socket : FDWrapper}
    (hsocket : socket.closed = false) : EndsLate polls (Copy.start (k, []) socket) where
  opened way := by
    cases way with
    | outbound => rfl
    | inbound => exact hsocket
  ending _ hended := absurd hended Bool.false_ne_true

/-- A way whose rules have nothing to do is finished. -/
theorem Lane.finished {rules : List (Rule Fd (Copy (κ × List (Call Fd))) String)}
    (h : Lane K rules s way) (hother : (s.stream way.other).error = false)
    (hidle : ∀ rule ∈ rules, rule.interest s = false) :
    s.shutdown way = true := by
  by_contra hnot
  have hwrite : writeRule K.recording way ∈ rules := by
    by_contra hgone
    exact hnot (h.unwritten hgone)
  have hno := hidle _ hwrite
  rw [writeRule, Bool.or_eq_false_iff] at hno
  have hempty : (s.stream way).bufferEmpty = true := by simpa using hno.1
  have hread : readRule K.recording way ∉ rules := by
    intro hread
    -- there is room, so it would be interested
    have hroom : (s.stream way).remainingCapacity > 0 := by
      rw [ByteStream.remainingCapacity, h.capacity, List.isEmpty_iff.mp hempty]
      decide
    have hno := hidle _ hread
    simp [readRule, h.error, hother, hroom] at hno
  have heof : (s.stream way).eof = true := eof_iff.mpr ⟨h.unread hread, List.isEmpty_iff.mp hempty⟩
  exact hnot (by simpa [heof] using hno.2)

/-- A rule that reads is woken by no end of an input, and a rule that writes only by its
    own. -/
theorem quiet_readRule (way : Way) {rule : Rule Fd (Copy κ) String} (h : OfCopy K rule) :
    Quiet (readRule K way) rule := by
  intro s s' hcancel hno
  obtain ⟨way', hway'⟩ := h.cancel s
  rw [hway'] at hcancel
  obtain rfl := Except.ok.inj hcancel
  simpa [readRule, ByteStream.remainingCapacity] using hno

theorem quiet_writeRule {way way' : Way} (h : way ≠ way') {rule : Rule Fd (Copy κ) String}
    (hcancel : ∀ s, rule.cancel s = .ok (s.endInput way')) : Quiet (writeRule K way) rule := by
  intro s s' hs' hno
  rw [hcancel] at hs'
  obtain rfl := Except.ok.inj hs'
  simp only [writeRule, Copy.endInput_stream_ne s h] at hno ⊢
  exact hno

theorem quiet_copyRules (K : Kernel κ Fd) : (copyRules K).Pairwise Quiet := by
  have hread : ∀ way, ∀ rule ∈ copyRules K, Quiet (readRule K way) rule := fun way rule hrule =>
    quiet_readRule way (ofCopy_of_mem hrule)
  have hwrite : ∀ rule : Rule Fd (Copy κ) String, (∀ s, rule.cancel s = .ok (s.endInput .inbound)) →
      Quiet (writeRule K .outbound) rule := fun rule => quiet_writeRule (by decide)
  refine .cons (fun rule hrule => hread _ rule (by simp_all [copyRules])) (.cons ?_ (.cons ?_ ?_))
  · intro rule hrule
    rw [List.mem_cons, List.mem_singleton] at hrule
    rcases hrule with rfl | rfl
    · exact hwrite _ fun _ => rfl
    · exact hwrite _ fun _ => rfl
  · intro rule hrule
    exact hread _ rule (by simp_all [copyRules])
  · exact List.pairwise_singleton ..

end Steps

/-- **THE COPY IS COMPLETE** when the loop is left, and not by an interruption: if neither
    target hung up, both sources have ended, the socket got every byte read from the input and
    was then shut down for writing, and the output got every byte read from the socket and was
    then closed. -/
theorem copy_complete (K : Kernel κ Fd) (k : κ) (socket : FDWrapper)
    (hsocket : socket.closed = false) (polls : List (Poll Fd)) (last : Poll Fd)
    (rules rules' : List (Rule Fd (Copy (κ × List (Call Fd))) String))
    (s s' : Copy (κ × List (Call Fd))) (hlisten : ∀ poll ∈ polls, Listens poll)
    (hrun : run (wait Copy.fds) (copyRules K.recording, Copy.start (k, []) socket) polls
      = some (rules, s))
    (hlast : Listens last) (hnot : last ≠ .interrupted)
    (hexit : waitNextEvent Copy.fds rules last s = .ok (.exit, rules', s')) :
    sent .socket s'.calls = received .input s'.calls
      ∧ sent .output s'.calls = received .socket s'.calls
      ∧ .shutdown .socket .wr ∈ s'.calls ∧ .close .output ∈ s'.calls
      ∧ ∀ way, SourceOver (polls ++ [last]) s' way := by
  have hcopying : Copying K rules s ∧ EndsLate (polls ++ [last]) s := by
    refine run_invariant (I := fun x => Copying K x.1 x.2 ∧ EndsLate (polls ++ [last]) x.2)
      (P := fun _ poll => poll ∈ polls ++ [last] ∧ Listens poll)
      (fun x poll y hx hpoll hwait => ?_) polls _ (rules, s)
      ⟨copying_start K k hsocket, endsLate_start _ k hsocket⟩
      (along_of_mem polls _ fun poll hmem => ⟨List.mem_append_left _ hmem, hlisten poll hmem⟩) hrun
    obtain ⟨result, hresult⟩ := wait_eq_some hwait
    exact (keeps_endsLate K hpoll.1 hpoll.2).wait hx hresult
  have hmem : last ∈ polls ++ [last] := List.mem_append_right _ (List.mem_singleton_self last)
  obtain ⟨hdone, hlate⟩ := (keeps_endsLate K hmem hlast).wait hcopying hexit
  obtain ⟨hcopying, -⟩ := hcopying
  have hidle := exit_uninterested ((quiet_copyRules K.recording).sublist hcopying.remain) hnot hexit
  have haccounted : Accounted s' := by
    have hstep : wait Copy.fds (rules, s) last = some (rules', s') := by
      rw [wait, hexit]
    have hall : run (wait Copy.fds) (copyRules K.recording, Copy.start (k, []) socket) (polls ++ [last])
        = some (rules', s') := by
      rw [run_append, hrun]
      show (wait Copy.fds (rules, s) last).bind _ = _
      rw [hstep]
      rfl
    exact (accounted_run hall).2
  have hway : ∀ way : Way, sent way.target s'.calls = received way.source s'.calls
      ∧ way.lastCall ∈ s'.calls ∧ SourceOver (polls ++ [last]) s' way := by
    intro way
    have hlane := hdone.lane way
    obtain ⟨heof, hcall⟩ := hlane.shut (hlane.finished (hdone.lane way.other).error hidle)
    rw [haccounted way, (eof_iff.mp heof).2, List.append_nil]
    exact ⟨rfl, hcall, hlate.ending way (eof_iff.mp heof).1⟩
  exact ⟨(hway .outbound).1, (hway .inbound).1, (hway .outbound).2.1, (hway .inbound).2.1,
    fun way => (hway way).2.2⟩

/-- Two waits copy what there is, and the third is the last. -/
theorem copy_complete_pipes :
    ∃ rules s rules' s',
      run (wait Copy.fds) (copyRules pipes.recording, Copy.start (piped, []) {}) [allReady, allReady]
        = some (rules, s)
      ∧ waitNextEvent Copy.fds rules allReady s = .ok (.exit, rules', s')
      ∧ sent .socket s'.calls = received .input s'.calls
      ∧ received .input s'.calls = [1, 2] ∧ (s'.world.fds .input).eof = true := by
  have hlisten : Listens allReady := by
    intro revents hrevents fd
    rw [← Poll.answered.inj hrevents]
  refine ⟨_, _, _, _, rfl, rfl, ?_, rfl, rfl⟩
  exact (copy_complete pipes piped {} rfl [allReady, allReady] allReady _ _ _ _
    (fun poll hpoll => by simp_all) rfl hlisten (by simp [allReady]) rfl).1

end Complete

end SpongeCopy
