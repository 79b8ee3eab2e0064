import Mathlib.Tactic.Common
import Mathlib.Data.List.Basic

/-! # The in-order byte stream — `byte_stream`

    A bounded queue with a write side and a read side.  A stream carries its
    accounting as fields: the buffer never exceeds the capacity, and the bytes
    written are the bytes read plus the bytes still buffered.  Every operation
    re-establishes both, so nobody downstream has to.

    `write` keeps the source's byte-at-a-time loop; `pushBytes_eq` says what
    the loop amounts to.  `peekOutput` and `popOutput` say at once what their
    loops amount to; the loops stand at the end. -/

namespace SpongeByteStream

abbrev Byte := UInt8

/-- The loop of `write`: push bytes until the buffer is full, counting them. -/
def pushBytes (capacity : Nat) : List Byte → List Byte → Nat × List Byte
  | buffer, [] => (0, buffer)
  | buffer, ch :: data =>
      if buffer.length ≥ capacity then (0, buffer)
      else
        let rest := pushBytes capacity (buffer ++ [ch]) data
        (rest.1 + 1, rest.2)

/-- **THE WRITE LOOP**: it accepts the first bytes, as many as there is room
    for. -/
theorem pushBytes_eq (capacity : Nat) (buffer data : List Byte) :
    pushBytes capacity buffer data
      = (min data.length (capacity - buffer.length),
          buffer ++ data.take (capacity - buffer.length)) := by
  induction data generalizing buffer with
  | nil => simp [pushBytes]
  | cons ch data ih =>
      rw [pushBytes]
      by_cases hfull : buffer.length ≥ capacity
      · rw [if_pos hfull, show capacity - buffer.length = 0 by omega]
        simp
      · rw [if_neg hfull, ih]
        obtain ⟨n, hn⟩ : ∃ n, capacity - buffer.length = n + 1 :=
          ⟨capacity - buffer.length - 1, by omega⟩
        have hn' : capacity - (buffer ++ [ch]).length = n := by
          rw [List.length_append, List.length_singleton]; omega
        rw [hn, hn', List.take_succ_cons, List.length_cons]
        refine Prod.ext ?_ ?_
        · show min data.length n + 1 = min (data.length + 1) (n + 1)
          omega
        · show buffer ++ [ch] ++ data.take n = buffer ++ ch :: data.take n
          rw [List.append_assoc]
          rfl

/-- A stream, with its accounting. -/
structure ByteStream where
  buffer : List Byte
  bytesRead : Nat
  bytesWritten : Nat
  capacity : UInt64
  inputEnded : Bool
  error : Bool
  fits : buffer.length ≤ capacity.toNat
  accounted : bytesWritten = bytesRead + buffer.length
deriving DecidableEq, Repr

namespace ByteStream

/-- A stream with room for `capacity` bytes. -/
def new (capacity : UInt64) : ByteStream where
  buffer := []
  bytesRead := 0
  bytesWritten := 0
  capacity := capacity
  inputEnded := false
  error := false
  fits := Nat.zero_le _
  accounted := rfl

def bufferSize (s : ByteStream) : Nat := s.buffer.length

def bufferEmpty (s : ByteStream) : Bool := s.buffer.isEmpty

def eof (s : ByteStream) : Bool := s.inputEnded && s.bufferEmpty

def remainingCapacity (s : ByteStream) : Nat :=
  s.capacity.toNat - s.buffer.length

/-- Write as many bytes as fit; the first component is how many did. -/
def write (s : ByteStream) (data : List Byte) : Nat × ByteStream :=
  let pushed := pushBytes s.capacity.toNat s.buffer data
  (pushed.1,
    { s with
      buffer := pushed.2
      bytesWritten := s.bytesWritten + pushed.1
      fits := by
        have := s.fits
        simp only [pushed, pushBytes_eq, List.length_append, List.length_take]
        omega
      accounted := by
        have := s.accounted
        simp only [pushed, pushBytes_eq, List.length_append, List.length_take]
        omega })

/-- Copy the next `len` bytes. -/
def peekOutput (s : ByteStream) (len : Nat) : List Byte := s.buffer.take len

/-- Remove the next `len` bytes, or all of them when there are fewer. -/
def popOutput (s : ByteStream) (len : Nat) : ByteStream :=
  let actualBytesPopped := min len s.buffer.length
  { s with
    buffer := s.buffer.drop actualBytesPopped
    bytesRead := s.bytesRead + actualBytesPopped
    fits := by
      have := s.fits
      rw [List.length_drop]
      omega
    accounted := by
      have := s.accounted
      rw [List.length_drop]
      omega }

/-- Copy and then pop. -/
def read (s : ByteStream) (len : Nat) : List Byte × ByteStream :=
  let readString := s.peekOutput len
  (readString, s.popOutput readString.length)

def endInput (s : ByteStream) : ByteStream := { s with inputEnded := true }

def setError (s : ByteStream) : ByteStream := { s with error := true }

/-! ## What each operation does to each field -/

variable (s : ByteStream) (data : List Byte) (len : Nat)

theorem write_count :
    (s.write data).1 = min data.length (s.capacity.toNat - s.buffer.length) := by
  simp only [write, pushBytes_eq]

theorem write_buffer :
    (s.write data).2.buffer
      = s.buffer ++ data.take (s.capacity.toNat - s.buffer.length) := by
  simp only [write, pushBytes_eq]

theorem write_bytesWritten :
    (s.write data).2.bytesWritten = s.bytesWritten + (s.write data).1 := rfl

@[simp] theorem write_error : (s.write data).2.error = s.error := rfl

variable {data} in
/-- A write that fits is taken whole. -/
theorem write_buffer_of_fits
    (h : s.buffer.length + data.length ≤ s.capacity.toNat) :
    (s.write data).2.buffer = s.buffer ++ data := by
  rw [write_buffer, List.take_of_length_le (by omega)]

variable {data} in
theorem write_count_of_fits
    (h : s.buffer.length + data.length ≤ s.capacity.toNat) :
    (s.write data).1 = data.length := by
  rw [write_count]
  omega

/-- The accepted bytes are a front part of the data, as long as the count
    says. -/
theorem write_buffer_count :
    (s.write data).2.buffer = s.buffer ++ data.take (s.write data).1 := by
  rw [write_buffer, write_count]
  congr 1
  rw [List.take_eq_take_iff]
  omega

theorem popOutput_buffer : (s.popOutput len).buffer = s.buffer.drop len := by
  show s.buffer.drop (min len s.buffer.length) = s.buffer.drop len
  by_cases h : len ≤ s.buffer.length
  · rw [Nat.min_eq_left h]
  · rw [Nat.min_eq_right (by omega), List.drop_length,
      List.drop_of_length_le (by omega)]

/-- Reading takes the front of the buffer and leaves the rest. -/
theorem read_fst : (s.read len).1 = s.buffer.take len := rfl

theorem read_snd : (s.read len).2 = s.popOutput (s.buffer.take len).length := rfl

theorem read_append : (s.read len).1 ++ (s.read len).2.buffer = s.buffer := by
  rw [read_snd, popOutput_buffer, read_fst, List.length_take]
  by_cases h : len ≤ s.buffer.length
  · rw [Nat.min_eq_left h, List.take_append_drop]
  · rw [Nat.min_eq_right (by omega), List.drop_length,
      List.take_of_length_le (by omega), List.append_nil]

end ByteStream

/-! ## The loops of `peek_output` and `pop_output` -/

/-- The loop of `peek_output`: bytes move from a copy of the buffer to the string, while
    there are any and the count is below `len`. -/
def peekBytes (len : Nat) : Nat → List Byte → List Byte → List Byte
  | _, [], peekedString => peekedString
  | count, front :: tmp, peekedString =>
      if count < len then peekBytes len (count + 1) tmp (peekedString ++ [front])
      else peekedString

/-- The loop of `pop_output`: bytes leave the buffer, while there are any and the count is
    below `actualBytesPopped`. -/
def popBytes (actualBytesPopped : Nat) : Nat → List Byte → List Byte
  | _, [] => []
  | count, front :: buffer =>
      if count < actualBytesPopped then popBytes actualBytesPopped (count + 1) buffer
      else front :: buffer

theorem peekBytes_eq (len count : Nat) (tmp peekedString : List Byte) :
    peekBytes len count tmp peekedString = peekedString ++ tmp.take (len - count) := by
  induction tmp generalizing count peekedString with
  | nil => rw [peekBytes, List.take_nil, List.append_nil]
  | cons front tmp ih =>
      rw [peekBytes]
      by_cases hcount : count < len
      · rw [if_pos hcount, ih, show len - count = len - (count + 1) + 1 by omega,
          List.take_succ_cons, List.append_assoc, List.singleton_append]
      · rw [if_neg hcount, Nat.sub_eq_zero_of_le (Nat.le_of_not_lt hcount), List.take_zero,
          List.append_nil]

theorem popBytes_eq (actualBytesPopped count : Nat) (buffer : List Byte) :
    popBytes actualBytesPopped count buffer = buffer.drop (actualBytesPopped - count) := by
  induction buffer generalizing count with
  | nil => rw [popBytes, List.drop_nil]
  | cons front buffer ih =>
      rw [popBytes]
      by_cases hcount : count < actualBytesPopped
      · rw [if_pos hcount, ih,
          show actualBytesPopped - count = actualBytesPopped - (count + 1) + 1 by omega,
          List.drop_succ_cons]
      · rw [if_neg hcount, Nat.sub_eq_zero_of_le (Nat.le_of_not_lt hcount), List.drop_zero]

namespace ByteStream

/-- `peek_output` is its loop. -/
theorem peekOutput_eq_peekBytes (s : ByteStream) (len : Nat) :
    s.peekOutput len = peekBytes len 0 s.buffer [] := by
  rw [peekBytes_eq, Nat.sub_zero, List.nil_append, peekOutput]

/-- `pop_output` does to the buffer what its loop does. -/
theorem popOutput_buffer_eq_popBytes (s : ByteStream) (len : Nat) :
    (s.popOutput len).buffer = popBytes (min len s.buffer.length) 0 s.buffer := by
  rw [popBytes_eq, Nat.sub_zero]
  rfl

end ByteStream

end SpongeByteStream
