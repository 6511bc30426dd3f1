/-!
# Entries by key

A list of pairs serves as a map when a key is looked up at its first entry.
Dropping every entry of a key removes that key and leaves all others as they
were.
-/

namespace NamedBlobs

namespace Entries

variable {κ ν : Type} [BEq κ] [LawfulBEq κ]

/-- The entries of all keys but one. -/
def without (entries : List (κ × ν)) (key : κ) : List (κ × ν) := entries.filter (·.1 != key)

theorem without_cons_self (key : κ) (value : ν) (entries : List (κ × ν)) :
    without ((key, value) :: entries) key = without entries key := by
  simp [without]

theorem without_cons_of_ne {key other : κ} (h : key ≠ other) (value : ν)
    (entries : List (κ × ν)) :
    without ((key, value) :: entries) other = (key, value) :: without entries other := by
  simp [without, h]

theorem lookup_cons_self (key : κ) (value : ν) (entries : List (κ × ν)) :
    ((key, value) :: entries).lookup key = some value := by
  simp

theorem lookup_cons_of_ne {key other : κ} (h : other ≠ key) (value : ν)
    (entries : List (κ × ν)) :
    ((key, value) :: entries).lookup other = entries.lookup other := by
  have hne : (other == key) = false := by simpa using h
  simp [List.lookup_cons, hne]

/-- A key that was dropped is not found. -/
theorem lookup_without_self (entries : List (κ × ν)) (key : κ) :
    (without entries key).lookup key = none := by
  induction entries with
  | nil => rfl
  | cons entry entries ih =>
      obtain ⟨first, value⟩ := entry
      by_cases h : first = key
      · subst h
        rw [without_cons_self, ih]
      · rw [without_cons_of_ne h, lookup_cons_of_ne (Ne.symm h), ih]

/-- The other keys are found as before. -/
theorem lookup_without_of_ne (entries : List (κ × ν)) {key other : κ} (h : other ≠ key) :
    (without entries key).lookup other = entries.lookup other := by
  induction entries with
  | nil => rfl
  | cons entry entries ih =>
      obtain ⟨first, value⟩ := entry
      by_cases hfirst : first = key
      · subst hfirst
        rw [without_cons_self, lookup_cons_of_ne h, ih]
      · rw [without_cons_of_ne hfirst]
        by_cases hother : other = first
        · subst hother
          rw [lookup_cons_self, lookup_cons_self]
        · rw [lookup_cons_of_ne hother, lookup_cons_of_ne hother, ih]

end Entries

end NamedBlobs
