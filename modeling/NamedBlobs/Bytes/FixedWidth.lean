import NamedBlobs.Bytes.LittleEndian

/-!
# Integers of a fixed width

Eight formats: unsigned and two's complement integers of one, two, four and
eight bytes, all little-endian. A value is an `Int`; the format says which
integers it can hold and how they are laid out. The values of `i32` and `i64`
are also available as machine words.
-/

namespace NamedBlobs

/-- An integer format of a fixed number of bytes. -/
inductive FixedWidth where
  | u8
  | i8
  | u16
  | i16
  | u32
  | i32
  | u64
  | i64
  deriving DecidableEq, Repr

namespace FixedWidth

def size : FixedWidth → Nat
  | u8 | i8 => 1
  | u16 | i16 => 2
  | u32 | i32 => 4
  | u64 | i64 => 8

/-- Whether the format holds negative values, in two's complement. -/
def signed : FixedWidth → Bool
  | u8 | u16 | u32 | u64 => false
  | i8 | i16 | i32 | i64 => true

/-- The integer that `bytes` hold in the format `width`. -/
def decode (width : FixedWidth) (bytes : Bytes) : Int :=
  if width.signed then
    (LittleEndian.decode bytes : Int).bmod (LittleEndian.values width.size)
  else
    LittleEndian.decode bytes

/-- The bytes of `value` in the format `width`, reduced to its range. -/
def encode (width : FixedWidth) (value : Int) : Bytes :=
  LittleEndian.encode width.size (value % LittleEndian.values width.size).toNat

@[simp] theorem length_encode (width : FixedWidth) (value : Int) :
    (width.encode value).length = width.size := by
  simp [encode]

end FixedWidth

end NamedBlobs
