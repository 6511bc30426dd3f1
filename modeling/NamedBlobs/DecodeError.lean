import NamedBlobs.Text.Numeral

/-!
# Decoding failures

The three ways in which a byte string can fail to be what a reader expects,
each with the offset of the defect. `DecodeError.message` is the text for
people and `DecodeError.describe` the structural text that names the fields.
-/

namespace NamedBlobs

/-- Why bytes could not be decoded. -/
inductive DecodeError where
  /-- More bytes were needed at `offset` than were left. -/
  | truncated (offset need available : Nat)
  /-- The seven-bit integer that starts at `offset` does not end in time. -/
  | overlongInteger (offset : Nat)
  /-- The length stored at `offset` is negative. -/
  | invalidLength (offset : Nat) (length : Int32)
  deriving DecidableEq

namespace DecodeError

def offset : DecodeError → Nat
  | truncated offset _ _ => offset
  | overlongInteger offset => offset
  | invalidLength offset _ => offset

def message : DecodeError → String
  | truncated offset need available =>
      s!"unexpected end of data at offset {Numeral.hex offset} (need {Numeral.decimal need} bytes, have {Numeral.decimal available})"
  | overlongInteger offset =>
      s!"7-bit encoded integer at offset {Numeral.hex offset} is longer than 5 bytes"
  | invalidLength offset length =>
      s!"invalid string length {Numeral.integer length.toInt} at offset {Numeral.hex offset}"

def describe : DecodeError → String
  | truncated offset need available =>
      s!"Truncated \x7b offset: {Numeral.decimal offset}, need: {Numeral.decimal need}, have: {Numeral.decimal available} \x7d"
  | overlongInteger offset =>
      s!"MalformedVarInt \x7b offset: {Numeral.decimal offset} \x7d"
  | invalidLength offset length =>
      s!"InvalidLength \x7b offset: {Numeral.decimal offset}, length: {Numeral.integer length.toInt} \x7d"

end DecodeError

end NamedBlobs
