import NamedBlobs.Table.Basic

/-!
# The first record of a name

`Table.First` is a record with a name and none of that name in front of it. Finding a
name comes to this record, and to nothing only where no record has the name.
-/

namespace NamedBlobs

namespace Table

/-- The record has the name, and no record in front of it does. -/
def First (table : Table) (name : Bytes) (record : Record) : Prop :=
  ∃ before after, table.records = before ++ record :: after ∧ record.name = name ∧
    ∀ earlier ∈ before, earlier.name ≠ name

variable {table : Table} {name : Bytes}

theorem find_eq_none_iff :
    table.find name = none ↔ ∀ record ∈ table.records, record.name ≠ name := by
  rw [find, List.find?_eq_none]
  simp only [beq_iff_eq, ne_eq]

theorem find_eq_some_iff {record : Record} :
    table.find name = some record ↔ table.First name record := by
  rw [find, List.find?_eq_some_iff_append, First]
  simp only [beq_iff_eq, Bool.not_eq_true', beq_eq_false_iff_ne]
  constructor
  · rintro ⟨hname, before, after, hrecords, hbefore⟩
    exact ⟨before, after, hrecords, hname, hbefore⟩
  · rintro ⟨before, after, hrecords, hname, hbefore⟩
    exact ⟨hname, before, after, hrecords, hbefore⟩

end Table

end NamedBlobs
