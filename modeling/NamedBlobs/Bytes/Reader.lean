import NamedBlobs.Bytes.FixedWidth
import NamedBlobs.DecodeError

/-!
# Reading bytes in order

A `Reader` is a position in a byte string together with the bytes from there
on, so that a read costs what it consumes and never depends on how far the
reader has come. `Reader.Over data` says that a reader stands in `data`: it is
the view in which reads are specified, and every read keeps it.

A `Decoder` is a computation that moves a reader and may fail. The reader
survives a failure, where the failing read left it: reads of a fixed number of
bytes fail without moving.
-/

namespace NamedBlobs

/-- A position in a byte string and the bytes that follow it. -/
structure Reader where
  position : Nat
  rest : Bytes
  deriving DecidableEq

namespace Reader

def ofBytes (data : Bytes) : Reader := ⟨0, data⟩

/-- The reader that has passed the first `position` bytes of `data`. -/
def startingAt (data : Bytes) (position : Nat) : Reader :=
  ⟨position, data.drop position⟩

def remaining (reader : Reader) : Nat := reader.rest.length

def length (reader : Reader) : Nat := reader.position + reader.rest.length

def isEmpty (reader : Reader) : Bool := reader.rest.isEmpty

theorem startingAt_length (data : Bytes) : startingAt data data.length = ⟨data.length, []⟩ := by
  rw [startingAt, List.drop_length]

/-- Behind the next bytes the reader has the rest before it. -/
theorem startingAt_add_length {data front rest : Bytes} {position : Nat}
    (h : data.drop position = front ++ rest) :
    startingAt data (position + front.length) = ⟨position + front.length, rest⟩ := by
  rw [startingAt, ← List.drop_drop, h, List.drop_left]

/-- The reader stands within `data`. -/
def Over (data : Bytes) (reader : Reader) : Prop :=
  reader.position ≤ data.length ∧ reader.rest = data.drop reader.position

theorem over_ofBytes (data : Bytes) : Over data (ofBytes data) :=
  ⟨Nat.zero_le _, rfl⟩

/-- A reader within `data` knows the length of `data`. -/
theorem Over.length_eq {data : Bytes} {reader : Reader} (h : Over data reader) :
    reader.length = data.length := by
  obtain ⟨hle, hrest⟩ := h
  simp only [length, hrest, List.length_drop]
  omega

/-- The next `n` bytes and the reader behind them, if that many are left. -/
def split? (reader : Reader) (n : Nat) : Option (Bytes × Reader) :=
  let front := reader.rest.take n
  if front.length = n then some (front, ⟨reader.position + n, reader.rest.drop n⟩) else none

theorem split?_eq_some (reader : Reader) (n : Nat) (h : n ≤ reader.remaining) :
    reader.split? n =
      some (reader.rest.take n, ⟨reader.position + n, reader.rest.drop n⟩) := by
  simp only [remaining] at h
  simp [split?, List.length_take, Nat.min_eq_left h]

theorem split?_eq_none (reader : Reader) (n : Nat) (h : reader.remaining < n) :
    reader.split? n = none := by
  simp only [remaining] at h
  simp only [split?, List.length_take, ite_eq_right_iff]
  omega

end Reader

/-- A computation that reads bytes in order and may fail. -/
abbrev Decoder := EStateM DecodeError Reader

namespace Decoder

def position : Decoder Nat := fun reader => .ok reader.position reader

def byte : Decoder UInt8 := fun reader =>
  match reader.rest with
  | [] => .error (.truncated reader.position 1 0) reader
  | byte :: rest => .ok byte ⟨reader.position + 1, rest⟩

/-- The next `n` bytes. Fails without moving when fewer are left. -/
def bytes (n : Nat) : Decoder Bytes := fun reader =>
  match reader.split? n with
  | some (front, reader) => .ok front reader
  | none => .error (.truncated reader.position n reader.remaining) reader

theorem run_bytes_of_le {reader : Reader} {n : Nat} (h : n ≤ reader.remaining) :
    (bytes n).run reader =
      .ok (reader.rest.take n) ⟨reader.position + n, reader.rest.drop n⟩ := by
  simp [bytes, EStateM.run, Reader.split?_eq_some reader n h]

theorem run_bytes_of_lt {reader : Reader} {n : Nat} (h : reader.remaining < n) :
    (bytes n).run reader =
      .error (.truncated reader.position n reader.remaining) reader := by
  simp [bytes, EStateM.run, Reader.split?_eq_none reader n h]

def fixed (width : FixedWidth) : Decoder Int := do
  let front ← bytes width.size
  return width.decode front

def int32 : Decoder Int32 := Int32.ofInt <$> fixed .i32

def int64 : Decoder Int64 := Int64.ofInt <$> fixed .i64

end Decoder

end NamedBlobs
