import NamedBlobs.Text.Numeral

/-!
# Identifiers and classes of resources

A resource is known by a signed 64-bit number. Zero names nothing, the numbers
102 and 103 are set aside for the allocation counter and the lookup table, and
only the numbers from 1 to 65535 are ordinals that fit sixteen bits. A class is
the sixteen-bit kind that resources are stored under.
-/

namespace NamedBlobs

structure ResourceId where
  value : Int64
  deriving DecidableEq

namespace ResourceId

def unassigned : ResourceId := ⟨0⟩

/-- The first number that is handed out. -/
def first : ResourceId := ⟨101⟩

/-- Holds the last number that was handed out. -/
def lastAllocated : ResourceId := ⟨102⟩

/-- Holds the lookup table. -/
def table : ResourceId := ⟨103⟩

def isUnassigned (id : ResourceId) : Bool := id.value == 0

theorem isUnassigned_iff {id : ResourceId} : id.isUnassigned = true ↔ id = .unassigned := by
  obtain ⟨value⟩ := id
  simp [isUnassigned, unassigned]

/-- The sixteen-bit ordinal, for the numbers that have one. -/
def ordinal (id : ResourceId) : Option UInt16 :=
  if 0 < id.value ∧ id.value ≤ 0xFFFF then some (UInt16.ofInt id.value.toInt) else none

/-- Numbers are ordered as integers. -/
def order (a b : ResourceId) : Ordering := compare a.value.toInt b.value.toInt

def chars (id : ResourceId) : List Char := Numeral.integerChars id.value.toInt

def text (id : ResourceId) : String := Numeral.integer id.value.toInt

def describe (id : ResourceId) : String := s!"ResourceId({id.text})"

end ResourceId

/-- The kind that resources are stored under. -/
structure ResourceClass where
  value : UInt16
  deriving DecidableEq

namespace ResourceClass

/-- Raw data that the application defines. -/
def rawData : ResourceClass := ⟨10⟩

instance : Inhabited ResourceClass := ⟨rawData⟩

def describe (kind : ResourceClass) : String :=
  s!"ResourceClass({Numeral.decimal kind.value.toNat})"

end ResourceClass

end NamedBlobs
