import Mathlib.Control.Monad.Basic
import NamedBlobs.Proofs.SevenBit.Strings

/-!
# Reads do not depend on where the bytes are

A read looks at the bytes in front of the reader and at no others. So it comes to
the same behind any further bytes, with its positions and the offsets of its
failures moved by their number, and in front of any further bytes, unless it
missed some (`Decoder.Movable`). Reads that are made one after the other, past
failures too, are moved in the same way (`Read.performAll_moved`).
-/

namespace NamedBlobs

/-- The reader with `shift` more bytes before it and `tail` behind all that is left. -/
def Reader.moved (shift : Nat) (tail : Bytes) (reader : Reader) : Reader :=
  ⟨shift + reader.position, reader.rest ++ tail⟩

namespace DecodeError

def moved (shift : Nat) : DecodeError → DecodeError
  | truncated offset need available => truncated (shift + offset) need available
  | overlongInteger offset => overlongInteger (shift + offset)
  | invalidLength offset length => invalidLength (shift + offset) length

/-- Whether the failure is for bytes that were missing. -/
def isTruncated : DecodeError → Bool
  | truncated _ _ _ => true
  | overlongInteger _ | invalidLength _ _ => false

end DecodeError

namespace Decoder

variable {α β : Type}

/-- The decoder comes to the same from a moved reader, unless it misses bytes that are
there now. -/
def Movable (x : Decoder α) : Prop :=
  ∀ (reader : Reader) (shift : Nat) (tail : Bytes),
    (∀ value reader', x.run reader = .ok value reader' →
      x.run (reader.moved shift tail) = .ok value (reader'.moved shift tail)) ∧
    ∀ failure reader', x.run reader = .error failure reader' →
      (failure.isTruncated = true → tail = []) →
        x.run (reader.moved shift tail) = .error (failure.moved shift) (reader'.moved shift tail)

theorem movable_bytes (count : Nat) : Movable (bytes count) := by
  rintro ⟨position, rest⟩ shift tail
  by_cases hle : count ≤ rest.length
  · have hremaining : count ≤ (Reader.mk position rest).remaining := hle
    have hremaining' : count ≤ (Reader.mk (shift + position) (rest ++ tail)).remaining := by
      rw [Reader.remaining, List.length_append]
      omega
    rw [run_bytes_of_le hremaining]
    refine ⟨?_, by simp⟩
    rintro _ _ ⟨⟩
    rw [Reader.moved, run_bytes_of_le hremaining', List.take_append_of_le_length hle,
      List.drop_append_of_le_length hle, Nat.add_assoc]
    rfl
  · have hlt : rest.length < count := Nat.lt_of_not_le hle
    rw [run_bytes_of_lt hlt]
    refine ⟨by simp, ?_⟩
    rintro _ _ ⟨⟩ htail
    obtain rfl := htail rfl
    rw [Reader.moved, List.append_nil]
    exact run_bytes_of_lt hlt

theorem Movable.map {x : Decoder α} (h : Movable x) (f : α → β) : Movable (f <$> x) := by
  intro reader shift tail
  obtain ⟨hok, herror⟩ := h reader shift tail
  rcases hrun : x.run reader with ⟨value, reader'⟩ | ⟨failure, reader'⟩
  · rw [run_map_of_ok hrun, run_map_of_ok (hok value reader' hrun)]
    refine ⟨?_, by simp⟩
    rintro _ _ ⟨⟩
    rfl
  · rw [run_map_of_error hrun]
    refine ⟨by simp, ?_⟩
    rintro _ _ ⟨⟩ htail
    exact run_map_of_error (herror failure reader' hrun htail) f

theorem movable_fixed (width : FixedWidth) : Movable (fixed width) := by
  have hfixed : fixed width = width.decode <$> bytes width.size := bind_pure_comp _ _
  rw [hfixed]
  exact (movable_bytes width.size).map width.decode

/-- A seven-bit integer opens the bytes in one of three ways, whatever is before and
behind. -/
theorem movable_sevenBit : Movable sevenBit := by
  rintro ⟨position, rest⟩ shift tail
  cases SevenBit.opening rest with
  | complete groups back hgroups =>
      rw [SevenBit.run_sevenBit_of_complete groups back position hgroups]
      refine ⟨?_, by simp⟩
      rintro _ _ ⟨⟩
      rw [Reader.moved, List.append_assoc,
        SevenBit.run_sevenBit_of_complete groups (back ++ tail) (shift + position) hgroups,
        Nat.add_assoc]
      rfl
  | overlong front back hlength hfront =>
      rw [SevenBit.run_sevenBit_of_overlong front back position hlength hfront]
      refine ⟨by simp, ?_⟩
      rintro _ _ ⟨⟩ -
      rw [Reader.moved, List.append_assoc,
        SevenBit.run_sevenBit_of_overlong front (back ++ tail) (shift + position) hlength hfront,
        Nat.add_assoc]
      rfl
  | unfinished _ hlength hfront =>
      rw [SevenBit.run_sevenBit_of_unfinished rest position hlength hfront]
      refine ⟨by simp, ?_⟩
      rintro _ _ ⟨⟩ htail
      obtain rfl := htail rfl
      rw [Reader.moved, List.append_nil,
        SevenBit.run_sevenBit_of_unfinished rest (shift + position) hlength hfront,
        Nat.add_assoc]
      rfl

theorem movable_string : Movable string := by
  intro reader shift tail
  obtain ⟨hok, herror⟩ := movable_sevenBit reader shift tail
  rcases hrun : sevenBit.run reader with ⟨length, reader'⟩ | ⟨failure, reader'⟩
  · rw [run_string_of_ok hrun, run_string_of_ok (hok length reader' hrun)]
    split
    · refine ⟨by simp, ?_⟩
      rintro _ _ ⟨⟩ -
      rfl
    · exact movable_bytes length.toInt.toNat reader' shift tail
  · rw [run_string_of_error hrun]
    refine ⟨by simp, ?_⟩
    rintro _ _ ⟨⟩ htail
    exact run_string_of_error (herror failure reader' hrun htail)

end Decoder

/-- What a read comes to. -/
inductive Item where
  | integer (value : Int)
  | word (value : Int32)
  | block (bytes : Bytes)
  deriving DecidableEq

/-- A read: of an integer of fixed width, of a block, of a seven-bit integer or of a
length-prefixed string. -/
inductive Read where
  | fixed (width : FixedWidth)
  | bytes (count : Nat)
  | sevenBit
  | string
  deriving DecidableEq

namespace Read

def decoder : Read → Decoder Item
  | fixed width => Item.integer <$> Decoder.fixed width
  | bytes count => Item.block <$> Decoder.bytes count
  | sevenBit => Item.word <$> Decoder.sevenBit
  | string => Item.block <$> Decoder.string

/-- How a read ended, and the reader that it left. -/
structure Outcome where
  result : Except DecodeError Item
  reader : Reader
  deriving DecidableEq

def perform (read : Read) (reader : Reader) : Outcome :=
  match read.decoder.run reader with
  | .ok item reader => ⟨.ok item, reader⟩
  | .error failure reader => ⟨.error failure, reader⟩

/-- Reads one after the other. After a failure the next one goes on from where the
failure left the reader. -/
def performAll : List Read → Reader → List Outcome
  | [], _ => []
  | read :: reads, reader =>
      read.perform reader :: performAll reads (read.perform reader).reader

namespace Outcome

def moved (shift : Nat) (tail : Bytes) (outcome : Outcome) : Outcome :=
  ⟨outcome.result.mapError (DecodeError.moved shift), outcome.reader.moved shift tail⟩

/-- Whether the read failed for bytes that were missing. -/
def isTruncated (outcome : Outcome) : Bool :=
  match outcome.result with
  | .ok _ => false
  | .error failure => failure.isTruncated

end Outcome

theorem movable_decoder (read : Read) : read.decoder.Movable := by
  cases read with
  | fixed width => exact (Decoder.movable_fixed width).map Item.integer
  | bytes count => exact (Decoder.movable_bytes count).map Item.block
  | sevenBit => exact Decoder.movable_sevenBit.map Item.word
  | string => exact Decoder.movable_string.map Item.block

theorem perform_moved (read : Read) (reader : Reader) (shift : Nat) (tail : Bytes)
    (h : (read.perform reader).isTruncated = true → tail = []) :
    read.perform (reader.moved shift tail) = (read.perform reader).moved shift tail := by
  obtain ⟨hok, herror⟩ := read.movable_decoder reader shift tail
  rw [perform] at h ⊢
  rw [perform]
  rcases hrun : read.decoder.run reader with ⟨item, reader'⟩ | ⟨failure, reader'⟩
  · rw [hok item reader' hrun]
    rfl
  · rw [hrun] at h
    rw [herror failure reader' hrun h]
    rfl

/-- Reads from a moved reader are moved, one by one. -/
theorem performAll_moved (reads : List Read) (reader : Reader) (shift : Nat) (tail : Bytes)
    (h : ∀ outcome ∈ performAll reads reader, outcome.isTruncated = true → tail = []) :
    performAll reads (reader.moved shift tail) =
      (performAll reads reader).map (Outcome.moved shift tail) := by
  induction reads generalizing reader with
  | nil => rfl
  | cons read reads ih =>
      rw [performAll, List.forall_mem_cons] at h
      have hread := read.perform_moved reader shift tail h.1
      rw [performAll, performAll, List.map_cons, hread]
      exact congrArg _ (ih (read.perform reader).reader h.2)

/-- Reads of `data` come to the same where `data` stands between other bytes. If none
of them misses bytes, what is before and behind does not matter, but that all
positions and offsets are moved. If nothing is behind, it does not matter either
whether bytes are missed. -/
theorem performAll_between (front data tail : Bytes) (reads : List Read) :
    ((∀ outcome ∈ performAll reads (.startingAt data 0), outcome.isTruncated = false) →
      performAll reads (.startingAt (front ++ data ++ tail) front.length) =
        (performAll reads (.startingAt data 0)).map (Outcome.moved front.length tail)) ∧
    performAll reads (.startingAt (front ++ data) front.length) =
      (performAll reads (.startingAt data 0)).map (Outcome.moved front.length []) := by
  have hplaced : ∀ tail, Reader.startingAt (front ++ data ++ tail) front.length =
      (Reader.startingAt data 0).moved front.length tail := by
    intro tail
    rw [Reader.startingAt, Reader.startingAt, Reader.moved, List.append_assoc, List.drop_left,
      List.drop_zero, Nat.add_zero]
  constructor
  · intro hread
    rw [hplaced]
    apply performAll_moved
    intro outcome hmem htruncated
    rw [hread outcome hmem] at htruncated
    cases htruncated
  · have hback := hplaced []
    rw [List.append_nil] at hback
    rw [hback]
    exact performAll_moved reads _ _ [] fun _ _ _ => rfl

/-- A seven-bit integer that does not end in time, read past, and a string with a
negative length, between two other bytes. -/
theorem performAll_between_overlong :
    (∀ outcome ∈ performAll [.sevenBit, .fixed .i16, .string, .bytes 1]
      (.startingAt [0x80, 0x80, 0x80, 0x80, 0x80, 2, 1, 0x80, 0x80, 0x80, 0x80, 8, 7] 0),
      outcome.isTruncated = false) ∧
    (performAll [.sevenBit, .fixed .i16, .string, .bytes 1]
        (.startingAt ([9] ++ [0x80, 0x80, 0x80, 0x80, 0x80, 2, 1, 0x80, 0x80, 0x80, 0x80, 8, 7] ++
          [5]) 1)).map Outcome.result =
      [.error (.overlongInteger 1), .ok (.integer 258), .error (.invalidLength 8 (-2147483648)),
        .ok (.block [7])] := by
  have hread : ∀ outcome ∈ performAll [.sevenBit, .fixed .i16, .string, .bytes 1]
      (.startingAt [0x80, 0x80, 0x80, 0x80, 0x80, 2, 1, 0x80, 0x80, 0x80, 0x80, 8, 7] 0),
      outcome.isTruncated = false := by
    decide +kernel
  have hbetween := (performAll_between [9]
    [0x80, 0x80, 0x80, 0x80, 0x80, 2, 1, 0x80, 0x80, 0x80, 0x80, 8, 7] [5]
    [.sevenBit, .fixed .i16, .string, .bytes 1]).1 hread
  exact ⟨hread, (congrArg _ hbetween).trans (by decide +kernel)⟩

end Read

end NamedBlobs
