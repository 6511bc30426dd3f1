/-!
# Bytes and little-endian numbers

A byte string is a list of octets. `LittleEndian.encode n value` writes the `n`
low octets of a number, the least significant one first, and
`LittleEndian.decode` reads such a string back, so that the two are mutually
inverse on the numbers below `LittleEndian.values n`, the `n`-th power of 256.
-/

namespace NamedBlobs

abbrev Bytes := List UInt8

namespace LittleEndian

/-- How many values `n` bytes can hold. -/
def values : (n : Nat) → Nat
  | 0 => 1
  | n + 1 => 256 * values n

/-- The `n` low bytes of `value`, the least significant one first. -/
def encode : (n : Nat) → (value : Nat) → Bytes
  | 0, _ => []
  | n + 1, value => UInt8.ofNat value :: encode n (value / 256)

/-- The number whose digits to the base 256 are the given bytes, the least
significant one first. -/
def decode : Bytes → Nat
  | [] => 0
  | byte :: rest => byte.toNat + 256 * decode rest

@[simp] theorem decode_nil : decode [] = 0 := rfl

theorem decode_cons (byte : UInt8) (rest : Bytes) :
    decode (byte :: rest) = byte.toNat + 256 * decode rest := rfl

@[simp] theorem length_encode (n value : Nat) : (encode n value).length = n := by
  induction n generalizing value with
  | zero => rfl
  | succ n ih => simp [encode, ih]

@[simp] theorem values_zero : values 0 = 1 := rfl

theorem values_succ (n : Nat) : values (n + 1) = 256 * values n := rfl

theorem decode_lt (bytes : Bytes) : decode bytes < values bytes.length := by
  induction bytes with
  | nil => simp
  | cons byte rest ih =>
      have hbyte : byte.toNat < 256 := byte.toNat_lt
      rw [decode_cons, List.length_cons, values_succ]
      omega

theorem decode_encode (n value : Nat) : decode (encode n value) = value % values n := by
  induction n generalizing value with
  | zero => simp [encode, Nat.mod_one]
  | succ n ih =>
      rw [encode, decode_cons, ih, values_succ, Nat.mod_mul]
      simp

end LittleEndian

end NamedBlobs
