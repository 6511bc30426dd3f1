import Mathlib.Data.List.OfFn
import NamedBlobs.Proofs.Reading.Placement
import NamedBlobs.Proofs.SevenBit.Written

/-!
# Streams of values

Values of different kinds that are written one behind the other are read back by
the matching reads, wherever the stream stands and whatever comes behind it. A
value that was written is read by one read, which stops right behind its bytes
(`Written.perform_read`), so the next read starts where the next value does
(`Written.performAll_reads`).
-/

namespace NamedBlobs

namespace FixedWidth

/-- The integers that a format can hold. -/
def Holds (width : FixedWidth) (value : Int) : Prop :=
  if width.signed then
    -(LittleEndian.values width.size : Int) ≤ value * 2 ∧
      value * 2 < LittleEndian.values width.size
  else 0 ≤ value ∧ value < LittleEndian.values width.size

instance (width : FixedWidth) (value : Int) : Decidable (width.Holds value) :=
  inferInstanceAs (Decidable (if width.signed then
    -(LittleEndian.values width.size : Int) ≤ value * 2 ∧
      value * 2 < LittleEndian.values width.size
    else 0 ≤ value ∧ value < LittleEndian.values width.size))

theorem decode_encode_of_holds {width : FixedWidth} {value : Int} (h : width.Holds value) :
    width.decode (width.encode value) = value := by
  rw [decode_encode]
  rw [Holds] at h
  split
  · next hsigned =>
      rw [if_pos hsigned] at h
      exact Int.bmod_eq_of_le_mul_two h.1 h.2
  · next hunsigned =>
      rw [if_neg hunsigned] at h
      exact Int.emod_eq_of_lt h.1 h.2

end FixedWidth

/-- A value that is written into a stream, and how. -/
inductive Written where
  | fixed (width : FixedWidth) (value : Int) (h : width.Holds value)
  | sevenBit (value : Int32)
  | string (bytes : Bytes) (h : bytes.length < 2 ^ 31)
  | block (bytes : Bytes)

namespace Written

/-- The bytes that are written for a value. -/
def bytes : Written → Bytes
  | fixed width value _ => width.encode value
  | sevenBit value => SevenBit.encode value
  | string bytes _ => SevenBit.encodeString bytes
  | block bytes => bytes

/-- The read that a value is meant for. -/
def read : Written → Read
  | fixed width _ _ => .fixed width
  | sevenBit _ => .sevenBit
  | string _ _ => .string
  | block bytes => .bytes bytes.length

/-- What a read of the value comes to. -/
def item : Written → Item
  | fixed _ value _ => .integer value
  | sevenBit value => .word value
  | string bytes _ => .block bytes
  | block bytes => .block bytes

/-- The matching decoder gives a written value back and stops behind it. -/
theorem run_decoder (written : Written) (rest : Bytes) (position : Nat) :
    written.read.decoder.run ⟨position, written.bytes ++ rest⟩ =
      .ok written.item ⟨position + written.bytes.length, rest⟩ := by
  cases written with
  | fixed width value h =>
      have hlength : (width.encode value).length = width.size := width.length_encode value
      have hread := Decoder.run_map_fixed_append Item.integer width (width.encode value) rest
        position hlength
      rw [FixedWidth.decode_encode_of_holds h, ← hlength] at hread
      exact hread
  | sevenBit value =>
      have hread := SevenBit.run_sevenBit_of_complete (SevenBit.encode value) rest position
        (SevenBit.complete_encode value)
      rw [SevenBit.value_encode] at hread
      exact Decoder.run_map_of_ok hread Item.word
  | string bytes h =>
      have hvalue : (SevenBit.value (SevenBit.encode (Int32.ofNat bytes.length))).toInt =
          bytes.length := by
        rw [SevenBit.value_encode, Int32.toInt_ofNat_of_lt h]
      have hread := Decoder.run_string_append (SevenBit.encode (Int32.ofNat bytes.length)) bytes
        rest position (SevenBit.complete_encode _) hvalue
      rw [← List.append_assoc, Nat.add_assoc, ← List.length_append] at hread
      exact Decoder.run_map_of_ok hread Item.block
  | block bytes => exact Decoder.run_map_of_ok (Decoder.run_bytes_append bytes rest position) _

/-- The matching read finds a value where it was written. -/
theorem perform_read (written : Written) (front rest : Bytes) :
    written.read.perform (.startingAt (front ++ written.bytes ++ rest) front.length) =
      ⟨.ok written.item,
        .startingAt (front ++ written.bytes ++ rest) (front ++ written.bytes).length⟩ := by
  have hstart : Reader.startingAt (front ++ written.bytes ++ rest) front.length =
      ⟨front.length, written.bytes ++ rest⟩ := by
    rw [Reader.startingAt, List.append_assoc, List.drop_left]
  have hstop : Reader.startingAt (front ++ written.bytes ++ rest)
      (front ++ written.bytes).length = ⟨front.length + written.bytes.length, rest⟩ := by
    rw [Reader.startingAt, List.drop_left, List.length_append]
  rw [Read.perform, hstart, hstop, written.run_decoder rest front.length]

/-- The values of a stream stand behind the first one, which stands in front. -/
theorem append_flatMap_cons (front tail : Bytes) (written : Written) (stream : List Written) :
    front ++ (written :: stream).flatMap bytes ++ tail =
      front ++ written.bytes ++ stream.flatMap bytes ++ tail := by
  rw [List.flatMap_cons, ← List.append_assoc front]

end Written

/-- The reader that is left by reads one after the other. -/
def Read.readerAfter : List Read → Reader → Reader
  | [], reader => reader
  | read :: reads, reader => readerAfter reads (read.perform reader).reader

namespace Written

/-- The matching reads pass over a stream. -/
theorem readerAfter_reads (front tail : Bytes) (stream : List Written) :
    Read.readerAfter (stream.map read)
        (.startingAt (front ++ stream.flatMap bytes ++ tail) front.length) =
      .startingAt (front ++ stream.flatMap bytes ++ tail)
        (front.length + (stream.flatMap bytes).length) := by
  induction stream generalizing front with
  | nil => rfl
  | cons written stream ih =>
      have hread := written.perform_read front (stream.flatMap bytes ++ tail)
      rw [← List.append_assoc] at hread
      rw [append_flatMap_cons, List.map_cons, Read.readerAfter, hread, ih, List.flatMap_cons,
        List.length_append, List.length_append, Nat.add_assoc]

/-- What was written one behind the other is read back by the matching reads, between
any other bytes. Every read stops behind the value that it was to find, and the last
one in front of the tail. -/
theorem performAll_reads (front tail : Bytes) (stream : List Written) :
    Read.performAll (stream.map read)
        (.startingAt (front ++ stream.flatMap bytes ++ tail) front.length) =
      (List.ofFn fun index : Fin stream.length =>
        ⟨.ok stream[index].item, .startingAt (front ++ stream.flatMap bytes ++ tail)
          (front.length + ((stream.take (index + 1)).flatMap bytes).length)⟩) ∧
    (Read.readerAfter (stream.map read)
        (.startingAt (front ++ stream.flatMap bytes ++ tail) front.length)).remaining =
      tail.length := by
  constructor
  · -- the values that were read join the bytes in front
    induction stream generalizing front with
    | nil => rfl
    | cons written stream ih =>
        have hread := written.perform_read front (stream.flatMap bytes ++ tail)
        rw [← List.append_assoc] at hread
        rw [append_flatMap_cons, List.map_cons, Read.performAll, hread, ih, List.ofFn_succ]
        simp [List.length_append, Nat.add_assoc]
  · rw [readerAfter_reads, Reader.startingAt, Reader.remaining, ← List.length_append,
      List.drop_left]

/-- A negative word, an integer that is cut by its sign, an empty string and a block,
behind one byte and in front of another. -/
example : Read.performAll [.sevenBit, .fixed .i16, .string, .bytes 2]
    (.startingAt ([9] ++ [sevenBit (-1), fixed .i16 (-2) (by decide), string [] (by decide),
      block [7, 8]].flatMap bytes ++ [5]) 1) =
    [⟨.ok (.word (-1)), ⟨6, [0xFE, 0xFF, 0, 7, 8, 5]⟩⟩, ⟨.ok (.integer (-2)), ⟨8, [0, 7, 8, 5]⟩⟩,
      ⟨.ok (.block []), ⟨9, [7, 8, 5]⟩⟩, ⟨.ok (.block [7, 8]), ⟨11, [5]⟩⟩] := by
  decide +kernel

end Written

end NamedBlobs
