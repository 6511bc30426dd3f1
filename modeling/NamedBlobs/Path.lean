import NamedBlobs.Text.Quoted
import NamedBlobs.Text.Utf8

/-!
# Paths

A path is a byte string of names between slashes. Joining puts one slash
between the parts unless one is there, and normalises nothing. Two paths are the
same when their components are: repeated and trailing slashes and single dots
after the first component do not count.
-/

namespace NamedBlobs

/-- A path as it is written. -/
structure Path where
  bytes : Bytes
  deriving DecidableEq

namespace Path

def separator : UInt8 := 0x2F

def ofText (text : String) : Path := ⟨Utf8.ofText text⟩

def splitNames : Bytes → List Bytes
  | [] => [[]]
  | byte :: rest =>
      if byte = separator then [] :: splitNames rest
      else
        match splitNames rest with
        | [] => [[byte]]
        | name :: names => (byte :: name) :: names

/-- The names between the separators, empty ones included. -/
def names (path : Path) : List Bytes := splitNames path.bytes

def isAbsolute (path : Path) : Bool := path.bytes.head? == some separator

/-- The path of the entry `name` under `directory`. -/
def join (directory : Path) (name : Bytes) : Path :=
  if directory.bytes.isEmpty ∨ directory.bytes.getLast? = some separator then
    ⟨directory.bytes ++ name⟩
  else
    ⟨directory.bytes ++ separator :: name⟩

inductive Component where
  | root
  | current
  | parent
  | name (bytes : Bytes)
  deriving DecidableEq

def Component.of (name : Bytes) : Component :=
  if name = [0x2E] then .current
  else if name = [0x2E, 0x2E] then .parent
  else .name name

/-- The steps of a path. A single dot is a step only where a relative path
begins with it. -/
def components (path : Path) : List Component :=
  let steps := (path.names.filter (!·.isEmpty)).map Component.of
  if path.isAbsolute then .root :: steps.filter (· != .current)
  else steps.take 1 ++ (steps.drop 1).filter (· != .current)

/-- Whether a name is a step. Empty names and single dots stay where they are. -/
def isStep (name : Bytes) : Bool := !name.isEmpty && Component.of name != .current

/-- The path without its last step and what follows that. -/
def outer (path : Path) : Path :=
  let before := (path.names.reverse.dropWhile (!isStep ·)).drop 1
  ⟨List.intercalate [separator] (before.dropWhile (!isStep ·)).reverse⟩

def same (p q : Path) : Bool := p.components == q.components

def text (path : Path) : String := Utf8.text path.bytes

def describe (path : Path) : String := Quoted.literal (Utf8.chars path.bytes)

end Path

end NamedBlobs
