/-!
# Numerals

Decimal and hexadecimal numerals without padding. A negative integer is a minus
sign followed by the numeral of its magnitude, so no numeral but a negative one
contains anything besides digits.
-/

namespace NamedBlobs

namespace Numeral

def decimalDigits (n : Nat) : List Char := Nat.toDigits 10 n

/-- The digits of an integer, with a leading minus for a negative one. -/
def integerChars : Int → List Char
  | .ofNat n => decimalDigits n
  | .negSucc n => '-' :: decimalDigits (n + 1)

def decimal (n : Nat) : String := String.ofList (decimalDigits n)

def integer (value : Int) : String := String.ofList (integerChars value)

def hexDigits (n : Nat) : List Char := Nat.toDigits 16 n

/-- The hexadecimal numeral of a natural number, marked by `0x`. -/
def hex (n : Nat) : String := String.ofList ('0' :: 'x' :: hexDigits n)

end Numeral

end NamedBlobs
