import NamedBlobs.Bytes.Reader

/-!
# Seven-bit integers and length-prefixed strings

A seven-bit integer carries a 32-bit word in groups of seven bits, the lowest
first, one group a byte; the high bit of a byte says that another follows. A
writer needs at most five bytes. A reader accepts every sequence of at most
five bytes and drops the bits beyond the 32nd, so one word has many spellings;
`Canonical` singles out the one that is written.

`payload` is the number that the groups spell, before it is reduced to a word.
`write` writes into a buffer and comes to the same as `encode` (`write_eq`). A
string is a seven-bit length followed by that many bytes.
-/

namespace NamedBlobs

namespace SevenBit

/-- The most bytes a seven-bit integer may take. -/
def maxBytes : Nat := 5

/-- Whether a byte announces another one. -/
def continues (byte : UInt8) : Bool := byte &&& 0x80 != 0

theorem shiftRight_lt (word : UInt32) (h : word >>> 7 ≠ 0) :
    (word >>> 7).toNat < word.toNat := by
  have hne : (word >>> 7).toNat ≠ 0 := fun h0 => h (UInt32.toNat_inj.mp (by simpa using h0))
  simp only [UInt32.toNat_shiftRight, UInt32.reduceToNat, Nat.reduceMod,
    Nat.shiftRight_eq_div_pow] at hne ⊢
  omega

def ofWord (word : UInt32) : Bytes :=
  let group := (word &&& 0x7F).toUInt8
  let higher := word >>> 7
  if _h : higher = 0 then [group] else (group ||| 0x80) :: ofWord higher
termination_by word.toNat
decreasing_by exact shiftRight_lt word _h

def encode (value : Int32) : Bytes := ofWord value.toUInt32

/-- Writes the groups of a word behind the bytes of `buffer`, one after the other. -/
def writeWord (buffer : Bytes) (word : UInt32) : Bytes :=
  let group := (word &&& 0x7F).toUInt8
  let higher := word >>> 7
  if _h : higher = 0 then buffer ++ [group] else writeWord (buffer ++ [group ||| 0x80]) higher
termination_by word.toNat
decreasing_by exact shiftRight_lt word _h

def write (buffer : Bytes) (value : Int32) : Bytes := writeWord buffer value.toUInt32

theorem writeWord_eq (buffer : Bytes) (word : UInt32) :
    writeWord buffer word = buffer ++ ofWord word := by
  fun_induction writeWord buffer word with
  | case1 buffer word group higher hlast =>
      rw [ofWord, dif_pos hlast]
  | case2 buffer word group higher hmore ih =>
      have hword : ofWord word = (group ||| 0x80) :: ofWord higher := by
        rw [ofWord, dif_neg hmore]
      rw [ih, hword, List.append_assoc, List.singleton_append]

/-- What is in the buffer stays, and the written form goes behind it. -/
theorem write_eq (buffer : Bytes) (value : Int32) : write buffer value = buffer ++ encode value :=
  writeWord_eq buffer value.toUInt32

/-- The number that the groups of `bytes` spell. -/
def payload : Bytes → Nat
  | [] => 0
  | byte :: rest => byte.toNat % 128 + 128 * payload rest

/-- A complete sequence of groups: every byte but the last announces another,
and there are at most five. -/
def Complete (bytes : Bytes) : Prop :=
  ∃ init last, bytes = init ++ [last] ∧ (∀ byte ∈ init, continues byte) ∧
    continues last = false ∧ bytes.length ≤ maxBytes

def value (bytes : Bytes) : Int32 := (UInt32.ofNat (payload bytes)).toInt32

/-- No shorter sequence and no dropped bit: the last group is not zero unless it
is the only one, and a fifth group has at most four bits. -/
def Canonical (bytes : Bytes) : Prop :=
  Complete bytes ∧ (bytes.length = 1 ∨ bytes.getLast? ≠ some 0) ∧
    ∀ last, bytes[4]? = some last → last < 0x10

/-- Reads the groups from the one at bit `shift` on, at most `left` of them.
`start` is where the integer began and `word` what the lower groups hold. -/
def readGroups (start : Nat) : (left : Nat) → (shift word : UInt32) → Decoder Int32
  | 0, _, _ => throw (.overlongInteger start)
  | left + 1, shift, word => do
      let byte ← Decoder.byte
      let word := word ||| ((byte &&& 0x7F).toUInt32 <<< shift)
      if continues byte then readGroups start left (shift + 7) word else pure word.toInt32

end SevenBit

namespace Decoder

/-- The next seven-bit integer. A failure leaves the reader behind the last byte
that was looked at. -/
def sevenBit : Decoder Int32 := do
  let start ← position
  SevenBit.readGroups start SevenBit.maxBytes 0 0

/-- The next length-prefixed string, verbatim. -/
def string : Decoder Bytes := do
  let start ← position
  let length ← sevenBit
  if length < 0 then throw (.invalidLength start length) else bytes length.toInt.toNat

end Decoder

/-- The written form of a string: its length, then its bytes. -/
def SevenBit.encodeString (bytes : Bytes) : Bytes :=
  SevenBit.encode (Int32.ofNat bytes.length) ++ bytes

end NamedBlobs
