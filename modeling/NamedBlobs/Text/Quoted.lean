import NamedBlobs.Text.Numeral

/-!
# Quoted text

Two ways to put a text between double quotes. `Quoted.literal` is the form for
people: control characters get a short escape or their number in braces.
`Quoted.json` is the string form of JSON.
-/

namespace NamedBlobs

namespace Quoted

/-- A character inside a literal. -/
def literalChar (c : Char) : List Char :=
  if c = '"' then ['\\', '"']
  else if c = '\\' then ['\\', '\\']
  else if c = '\x00' then ['\\', '0']
  else if c = '\t' then ['\\', 't']
  else if c = '\r' then ['\\', 'r']
  else if c = '\n' then ['\\', 'n']
  else if c.toNat < 0x20 ∨ c.toNat = 0x7F then
    ['\\', 'u', '\x7b'] ++ Numeral.hexDigits c.toNat ++ ['\x7d']
  else [c]

/-- A character inside a JSON string. -/
def jsonChar (c : Char) : List Char :=
  if c = '"' then ['\\', '"']
  else if c = '\\' then ['\\', '\\']
  else if c = '\x08' then ['\\', 'b']
  else if c = '\x0c' then ['\\', 'f']
  else if c = '\n' then ['\\', 'n']
  else if c = '\r' then ['\\', 'r']
  else if c = '\t' then ['\\', 't']
  else if c.toNat < 0x20 then
    ['\\', 'u', '0', '0', Nat.digitChar (c.toNat / 16), Nat.digitChar (c.toNat % 16)]
  else [c]

def wrap (escape : Char → List Char) (chars : List Char) : List Char :=
  '"' :: (chars.flatMap escape ++ ['"'])

def literal (chars : List Char) : String := String.ofList (wrap literalChar chars)

def json (chars : List Char) : String := String.ofList (wrap jsonChar chars)

end Quoted

end NamedBlobs
