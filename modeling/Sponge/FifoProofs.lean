import Mathlib.Data.List.Induction
import Sponge.ByteStreamProofs
import Sponge.RunProofs
import Sponge.WordProofs

/-! # A stream over its whole life — `byte_stream`

    Any calls in any order.  Beside the stream stand the bytes that its writes
    accepted and the bytes that were taken out; the ones are always the others and the
    buffer (`Recorded`), so a stream is a bounded queue and its counters are exact
    (`bounded_fifo`).

    The end of the input is a flag that `write` does not look at.  So it is final only
    for a writer who keeps to it: `end_final_iff` says for which calls. -/

namespace SpongeFifo

open SpongeByteStream RunRule Word64

inductive Op where
  | write (data : List Byte)
  | peekOutput (len : Nat)
  | popOutput (len : Nat)
  | read (len : Nat)
  | endInput
deriving DecidableEq, Repr

/-- What a call does to the stream. -/
def perform (s : ByteStream) : Op → ByteStream
  | .write data => (s.write data).2
  | .peekOutput _ => s
  | .popOutput len => s.popOutput len
  | .read len => (s.read len).2
  | .endInput => s.endInput

/-- The stream after some calls. -/
def after (s : ByteStream) (ops : List Op) : ByteStream := ops.foldl perform s

theorem after_concat (s : ByteStream) (ops : List Op) (op : Op) :
    after s (ops ++ [op]) = perform (after s ops) op := by
  rw [after, List.foldl_append, List.foldl_cons, List.foldl_nil, after]

/-! ## A bounded queue -/

/-- The bytes that a call gets into the stream. -/
def accepted (s : ByteStream) : Op → List Byte
  | .write data => data.take (s.write data).1
  | _ => []

/-- The bytes that a call takes out of it. -/
def taken (s : ByteStream) : Op → List Byte
  | .popOutput len => s.buffer.take (min len s.bufferSize)
  | .read len => (s.read len).1
  | _ => []

/-- The stream, with all that went in and all that came out. -/
structure History where
  stream : ByteStream
  written : List Byte := []
  removed : List Byte := []
deriving DecidableEq

/-- A call, recorded. -/
def step (h : History) (op : Op) : History where
  stream := perform h.stream op
  written := h.written ++ accepted h.stream op
  removed := h.removed ++ taken h.stream op

/-- What came out, followed by what is there, is what went in; the counters count it. -/
structure Recorded (h : History) : Prop where
  order : h.removed ++ h.stream.buffer = h.written
  bytesWritten : h.stream.bytesWritten = h.written.length
  bytesRead : h.stream.bytesRead = h.removed.length

/-- One call, in the stream's own terms. -/
theorem perform_conserves (s : ByteStream) (op : Op) :
    taken s op ++ (perform s op).buffer = s.buffer ++ accepted s op
      ∧ (perform s op).bytesRead = s.bytesRead + (taken s op).length
      ∧ (perform s op).capacity = s.capacity := by
  cases op with
  | write data => exact ⟨s.write_buffer_count data, rfl, rfl⟩
  | peekOutput len => exact ⟨(List.append_nil _).symm, rfl, rfl⟩
  | popOutput len =>
      refine ⟨?_, ?_, rfl⟩
      · show s.buffer.take (min len s.buffer.length) ++ s.buffer.drop (min len s.buffer.length)
          = s.buffer ++ []
        rw [List.take_append_drop, List.append_nil]
      · show s.bytesRead + min len s.buffer.length
          = s.bytesRead + (s.buffer.take (min len s.buffer.length)).length
        rw [List.length_take, Nat.min_eq_left (Nat.min_le_right _ _)]
  | read len =>
      refine ⟨?_, ?_, rfl⟩
      · show (s.read len).1 ++ (s.read len).2.buffer = s.buffer ++ []
        rw [s.read_append, List.append_nil]
      · show s.bytesRead + min (s.buffer.take len).length s.buffer.length
          = s.bytesRead + (s.buffer.take len).length
        rw [List.length_take, Nat.min_eq_left (Nat.min_le_right _ _)]
  | endInput => exact ⟨(List.append_nil _).symm, rfl, rfl⟩

theorem Recorded.kept {h : History} (hr : Recorded h) (op : Op) : Recorded (step h op) := by
  obtain ⟨hbytes, hread, -⟩ := perform_conserves h.stream op
  have horder : (step h op).removed ++ (step h op).stream.buffer = (step h op).written := by
    show h.removed ++ taken h.stream op ++ (perform h.stream op).buffer
      = h.written ++ accepted h.stream op
    rw [List.append_assoc, hbytes, ← List.append_assoc, hr.order]
  have hremoved : (step h op).stream.bytesRead = (step h op).removed.length := by
    show (perform h.stream op).bytesRead = (h.removed ++ taken h.stream op).length
    rw [hread, hr.bytesRead, List.length_append]
  refine ⟨horder, ?_, hremoved⟩
  -- the stream's own accounting gives the third count from the other two
  rw [← horder, List.length_append, ← hremoved]
  exact (step h op).stream.accounted

theorem Recorded.run {h : History} (hr : Recorded h) (ops : List Op) :
    Recorded (ops.foldl step h) := by
  induction ops generalizing h with
  | nil => exact hr
  | cons op ops ih => exact ih (hr.kept op)

theorem capacity_run (ops : List Op) (h : History) :
    (ops.foldl step h).stream.capacity = h.stream.capacity := by
  induction ops generalizing h with
  | nil => rfl
  | cons op ops ih =>
      rw [List.foldl_cons, ih]
      exact (perform_conserves h.stream op).2.2

/-- A read takes what a look shows: the first bytes, as many as there are. -/
theorem read_eq (s : ByteStream) (n : Nat) :
    (s.read n).1 = s.peekOutput n
      ∧ s.peekOutput n = s.buffer.take (min n s.bufferSize)
      ∧ (s.read n).2 = s.popOutput n
      ∧ (s.read n).2.buffer = s.buffer.drop (min n s.bufferSize) := by
  have hlen : (s.buffer.take n).length = min n s.buffer.length := List.length_take
  have htake : s.buffer.take n = s.buffer.take (min n s.buffer.length) := by
    rw [List.take_eq_take_iff]
    omega
  have hsame : (s.read n).2 = s.popOutput n := by
    rw [s.read_snd, hlen, ByteStream.popOutput, ByteStream.popOutput]
    congr 2 <;> omega
  refine ⟨rfl, htake, hsame, ?_⟩
  rw [hsame]
  rfl

/-- **A BOUNDED QUEUE**: after any calls, what came out and what is in the buffer are the
    bytes that were accepted, in their order.  A write accepts the first bytes, as many as
    there is room for; the counters differ by what is in the buffer, also where they wrap
    around; and a read takes exactly what a look shows. -/
theorem bounded_fifo (capacity : UInt64) (ops : List Op) (h : History)
    (hrun : ops.foldl step { stream := .new capacity } = h) :
    h.removed ++ h.stream.buffer = h.written
      ∧ h.stream.bytesWritten = h.written.length ∧ h.stream.bytesRead = h.removed.length
      ∧ (∀ data, (h.stream.write data).1 = min data.length h.stream.remainingCapacity
        ∧ (h.stream.write data).2.buffer = h.stream.buffer ++ data.take (h.stream.write data).1)
      ∧ h.stream.bytesWritten - h.stream.bytesRead = h.stream.bufferSize
      ∧ sub64 (h.stream.bytesWritten % 2 ^ 64) (h.stream.bytesRead % 2 ^ 64)
        = h.stream.bufferSize
      ∧ h.stream.bufferSize ≤ capacity.toNat
      ∧ sub64 capacity.toNat h.stream.bufferSize = h.stream.remainingCapacity
      ∧ h.stream.remainingCapacity + h.stream.bufferSize = capacity.toNat
      ∧ ∀ n, (h.stream.read n).1 = h.stream.peekOutput n
        ∧ h.stream.peekOutput n = h.stream.buffer.take (min n h.stream.bufferSize)
        ∧ (h.stream.read n).2 = h.stream.popOutput n
        ∧ (h.stream.read n).2.buffer = h.stream.buffer.drop (min n h.stream.bufferSize)
        ∧ peekBytes n 0 h.stream.buffer [] = h.stream.peekOutput n
        ∧ popBytes (min n h.stream.bufferSize) 0 h.stream.buffer
          = (h.stream.popOutput n).buffer := by
  have hrec : Recorded h := by
    rw [← hrun]
    exact Recorded.run ⟨rfl, rfl, rfl⟩ ops
  have hcap : h.stream.capacity = capacity := by
    rw [← hrun, capacity_run]
    rfl
  have hfits : h.stream.buffer.length ≤ capacity.toNat := hcap ▸ h.stream.fits
  have hlt := capacity.toNat_lt
  have hcount := h.stream.accounted
  have hroom : h.stream.remainingCapacity = capacity.toNat - h.stream.buffer.length := by
    rw [ByteStream.remainingCapacity, hcap]
  refine ⟨hrec.order, hrec.bytesWritten, hrec.bytesRead, ?_, ?_, ?_, hfits, ?_, ?_, ?_⟩
  · exact fun data => ⟨h.stream.write_count data, h.stream.write_buffer_count data⟩
  · show _ = h.stream.buffer.length
    omega
  · rw [sub64, hcount]
    show _ = h.stream.buffer.length
    omega
  · rw [hroom]
    exact sub64_of_le hfits (by omega)
  · rw [hroom]
    exact Nat.sub_add_cancel hfits
  · intro n
    obtain ⟨hread, hpeek, hpop, hrest⟩ := read_eq h.stream n
    exact ⟨hread, hpeek, hpop, hrest, (h.stream.peekOutput_eq_peekBytes n).symm,
      (h.stream.popOutput_buffer_eq_popBytes n).symm⟩

/-- Three bytes are offered to a stream for two, and one is read. -/
theorem bounded_fifo_of_two :
    ([.write [1, 2, 3], .read 1, .endInput].foldl step { stream := .new 2 }).removed
        ++ ([.write [1, 2, 3], .read 1, .endInput].foldl step { stream := .new 2 }).stream.buffer
      = [1, 2] := by
  rw [(bounded_fifo 2 [.write [1, 2, 3], .read 1, .endInput] _ rfl).1]
  decide

/-! ## The end of the input -/

/-- A call that gets nothing in: any but a write, or a write of nothing or to a full buffer. -/
def Idle (s : ByteStream) (op : Op) : Prop :=
  ∀ data, op = .write data → data = [] ∨ s.remainingCapacity = 0

theorem write_zero_iff (s : ByteStream) (data : List Byte) :
    (s.write data).1 = 0 ↔ data = [] ∨ s.remainingCapacity = 0 := by
  rw [s.write_count, ← List.length_eq_zero_iff, ByteStream.remainingCapacity]
  omega

theorem eof_iff (s : ByteStream) : s.eof = true ↔ s.inputEnded = true ∧ s.buffer = [] := by
  rw [ByteStream.eof, ByteStream.bufferEmpty, Bool.and_eq_true, List.isEmpty_iff]

/-- **ONE IDLE CALL** writes nothing, and nothing comes behind the end. -/
theorem Idle.keeps {s : ByteStream} {op : Op} (h : Idle s op) :
    (perform s op).bytesWritten = s.bytesWritten ∧ (s.eof = true → (perform s op).eof = true) := by
  cases op with
  | write data =>
      have hnone := (write_zero_iff s data).mpr (h data rfl)
      have hbuffer : (s.write data).2.buffer = s.buffer := by
        rw [s.write_buffer_count, hnone, List.take_zero, List.append_nil]
      constructor
      · show (s.write data).2.bytesWritten = s.bytesWritten
        rw [s.write_bytesWritten, hnone, Nat.add_zero]
      · rw [eof_iff, eof_iff]
        rintro ⟨hended, hempty⟩
        exact ⟨hended, hbuffer.trans hempty⟩
  | peekOutput len => exact ⟨rfl, id⟩
  | popOutput len =>
      refine ⟨rfl, ?_⟩
      rw [eof_iff, eof_iff]
      rintro ⟨hended, hempty⟩
      refine ⟨hended, ?_⟩
      show (s.popOutput len).buffer = []
      rw [s.popOutput_buffer, hempty, List.drop_nil]
  | read len =>
      refine ⟨rfl, ?_⟩
      rw [eof_iff, eof_iff]
      rintro ⟨hended, hempty⟩
      refine ⟨hended, ?_⟩
      show (s.read len).2.buffer = []
      rw [(read_eq s len).2.2.2, hempty, List.drop_nil]
  | endInput =>
      refine ⟨rfl, ?_⟩
      rw [eof_iff, eof_iff]
      rintro ⟨-, hempty⟩
      exact ⟨rfl, hempty⟩

/-- From one point of a run of idle calls to a later one. -/
theorem idle_run {s : ByteStream} {ops : List Op}
    (hidle : AtEach (fun pre op => Idle (after s pre) op) ops) (pre mid : List Op)
    (hpart : pre ++ mid <+: ops) :
    (after s (pre ++ mid)).bytesWritten = (after s pre).bytesWritten
      ∧ ((after s pre).eof = true → (after s (pre ++ mid)).eof = true) := by
  induction mid using List.reverseRecOn with
  | nil =>
      rw [List.append_nil]
      exact ⟨rfl, id⟩
  | append_singleton mid op ih =>
      obtain ⟨post, hpost⟩ := hpart
      have hsplit : ops = pre ++ mid ++ op :: post := by
        rw [← hpost]
        simp
      obtain ⟨hwritten, heof⟩ := ih ⟨op :: post, hsplit.symm⟩
      obtain ⟨hwritten', heof'⟩ := (hidle (pre ++ mid) op post hsplit).keeps
      rw [← List.append_assoc, after_concat]
      exact ⟨hwritten'.trans hwritten, fun h => heof' (heof h)⟩

/-- **THE END IS FINAL, EXACTLY**: after `end_input` no write is accepted, the count of the
    bytes written stays, and the end of the output stays reached, iff every later write is
    empty or finds the buffer full. -/
theorem end_final_iff (s : ByteStream) (ops : List Op) :
    (AtEach (fun pre op => ∀ data, op = .write data →
          ((after s.endInput pre).write data).1 = 0) ops
        ∧ (∀ pre, pre <+: ops → (after s.endInput pre).bytesWritten = s.bytesWritten)
        ∧ ∀ pre mid, pre ++ mid <+: ops → (after s.endInput pre).eof = true →
          (after s.endInput (pre ++ mid)).eof = true)
      ↔ AtEach (fun pre op => ∀ data, op = .write data →
          data = [] ∨ (after s.endInput pre).remainingCapacity = 0) ops := by
  constructor
  · rintro ⟨hzero, -, -⟩ pre op post hsplit data hop
    exact (write_zero_iff _ data).mp (hzero pre op post hsplit data hop)
  · intro hidle
    refine ⟨?_, ?_, ?_⟩
    · intro pre op post hsplit data hop
      exact (write_zero_iff _ data).mpr (hidle pre op post hsplit data hop)
    · intro pre hpart
      exact (idle_run hidle [] pre hpart).1
    · intro pre mid hpart
      exact (idle_run hidle pre mid hpart).2

/-- **A WRITE AFTER THE END** is accepted. -/
theorem written_after_end :
    ¬ ∀ (s : ByteStream) (ops : List Op),
      AtEach (fun pre op => ∀ data, op = .write data →
          ((after s.endInput pre).write data).1 = 0) ops
        ∧ (∀ pre, pre <+: ops → (after s.endInput pre).bytesWritten = s.bytesWritten)
        ∧ ∀ pre mid, pre ++ mid <+: ops → (after s.endInput pre).eof = true →
          (after s.endInput (pre ++ mid)).eof = true := by
  intro hall
  obtain ⟨hzero, -, -⟩ := hall (.new 1) [.write [7]]
  exact absurd (hzero [] (.write [7]) [] rfl [7] rfl) (by decide)

/-- The same call takes the end of the output back. -/
example : (after (.new 1) [.endInput]).eof = true
    ∧ (after (.new 1) [.endInput, .write [7]]).eof = false := by decide

end SpongeFifo
