import NamedBlobs.Bytes.LittleEndian

/-!
# Bytes as text

Decoding of UTF-8 that never fails. The bytes are cut into units: a unit is
either a well-formed character, or a longest beginning of one that the next
byte does not continue, or a byte that begins no character. The lossy text has
U+FFFD for every unit of the last two kinds; a byte string is text exactly when
it has no such unit.
-/

namespace NamedBlobs

namespace Utf8

/-- What a lead byte promises: the bits it carries, the range of the byte behind
it, and the number of bytes that follow in all. -/
structure Lead where
  bits : Nat
  low : UInt8
  high : UInt8
  trailing : Nat

/-- The promise of a lead byte. The narrowed ranges rule out overlong forms,
surrogates and numbers beyond U+10FFFF. -/
def Lead.of? (byte : UInt8) : Option Lead :=
  if byte < 0x80 then some ⟨byte.toNat, 0x80, 0xBF, 0⟩
  else if byte < 0xC2 then none
  else if byte < 0xE0 then some ⟨byte.toNat % 32, 0x80, 0xBF, 1⟩
  else if byte = 0xE0 then some ⟨0, 0xA0, 0xBF, 2⟩
  else if byte = 0xED then some ⟨13, 0x80, 0x9F, 2⟩
  else if byte < 0xF0 then some ⟨byte.toNat % 16, 0x80, 0xBF, 2⟩
  else if byte = 0xF0 then some ⟨0, 0x90, 0xBF, 3⟩
  else if byte < 0xF4 then some ⟨byte.toNat % 8, 0x80, 0xBF, 3⟩
  else if byte = 0xF4 then some ⟨4, 0x80, 0x8F, 3⟩
  else none

/-- Takes the `count` bytes that are still to follow, the first of them between
`low` and `high`. Answers with the code point, or nothing if a byte does not
fit, and with the bytes that were not taken. -/
def trail : (count : Nat) → (low high : UInt8) → (bits : Nat) → Bytes → Option Nat × Bytes
  | 0, _, _, bits, rest => (some bits, rest)
  | _ + 1, _, _, _, [] => (none, [])
  | count + 1, low, high, bits, byte :: rest =>
      if low ≤ byte ∧ byte ≤ high then
        trail count 0x80 0xBF (bits * 64 + byte.toNat % 64) rest
      else
        (none, byte :: rest)

theorem length_trail_le (count : Nat) (low high : UInt8) (bits : Nat) (bytes : Bytes) :
    (trail count low high bits bytes).2.length ≤ bytes.length := by
  induction count generalizing low high bits bytes with
  | zero => simp [trail]
  | succ count ih =>
      cases bytes with
      | nil => simp [trail]
      | cons byte rest =>
          simp only [trail]
          split
          · exact Nat.le_succ_of_le (ih _ _ _ _)
          · simp

/-- The unit that begins with `byte`, and the bytes behind it. -/
def unit (byte : UInt8) (rest : Bytes) : Option Char × Bytes :=
  match Lead.of? byte with
  | none => (none, rest)
  | some lead =>
      let (code, rest) := trail lead.trailing lead.low lead.high lead.bits rest
      (code.map Char.ofNat, rest)

theorem length_unit_le (byte : UInt8) (rest : Bytes) :
    (unit byte rest).2.length ≤ rest.length := by
  unfold unit
  split
  · exact Nat.le_refl _
  · exact length_trail_le _ _ _ _ _

def unitsFrom (done : Array (Option Char)) : Bytes → Array (Option Char)
  | [] => done
  | byte :: rest => unitsFrom (done.push (unit byte rest).1) (unit byte rest).2
termination_by bytes => bytes.length
decreasing_by exact Nat.lt_succ_of_le (length_unit_le byte rest)

/-- The units of a byte string, `none` for one that is no character. -/
def units (bytes : Bytes) : List (Option Char) := (unitsFrom #[] bytes).toList

theorem toList_unitsFrom (done : Array (Option Char)) (bytes : Bytes) :
    (unitsFrom done bytes).toList = done.toList ++ units bytes := by
  induction h : bytes.length using Nat.strongRecOn generalizing bytes done with
  | ind n ih =>
      cases bytes with
      | nil => simp [units, unitsFrom]
      | cons byte rest =>
          have hlt : (unit byte rest).2.length < n :=
            h ▸ Nat.lt_succ_of_le (length_unit_le byte rest)
          rw [unitsFrom, units, unitsFrom, ih _ hlt _ _ rfl, ih _ hlt _ _ rfl]
          simp

@[simp] theorem units_nil : units [] = [] := by
  simp [units, unitsFrom]

theorem units_cons (byte : UInt8) (rest : Bytes) :
    units (byte :: rest) = (unit byte rest).1 :: units (unit byte rest).2 := by
  rw [units, unitsFrom, toList_unitsFrom]
  simp

/-- The characters of a byte string, U+FFFD for every unit that is none. -/
def chars (bytes : Bytes) : List Char := (units bytes).map (·.getD '\uFFFD')

def text (bytes : Bytes) : String := String.ofList (chars bytes)

/-- Whether nothing has to be replaced. -/
def isText (bytes : Bytes) : Bool := (units bytes).all (·.isSome)

def ofText (text : String) : Bytes := text.toUTF8.data.toList

def ofAscii (chars : List Char) : Bytes := chars.map fun c => UInt8.ofNat c.toNat

end Utf8

end NamedBlobs
