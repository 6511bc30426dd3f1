import NamedBlobs.Proofs.Reading.Progress
import NamedBlobs.Proofs.Table.Acceptance

/-!
# Room for records

Decoding makes room for as many records as the count declares, but not for more than
the bytes behind the count can hold, nine for each (`Table.capacity`). The room is
never too small: a record that was read has passed nine bytes at least, so the records
that are held and the bytes that were passed keep pace (`Table.Pace`), whatever the
count says and however the decoding ends. A count that is larger than what the bytes
can hold makes the decoding fail.
-/

namespace NamedBlobs

/-- The smallest entry has one group, no name and an identifier. -/
theorem Entry.minRecordSize_le_length (entry : Entry) :
    Table.minRecordSize ≤ entry.bytes.length := by
  have hgroups := entry.complete.length_bounds.1
  rw [entry.length_bytes, Table.minRecordSize]
  omega

namespace Table

/-- A record that is read within the data is that of an entry which stands there. -/
theorem exists_entry_of_run {data : Bytes} {reader stop : Reader} {record : Record}
    (hover : reader.Over data) (hread : Record.decoder.run reader = .ok record stop) :
    ∃ entry : Entry, entry.bytes.length ≤ reader.remaining ∧
      stop = reader.passing entry.bytes.length := by
  have hreader : reader = .startingAt data reader.position := by
    rw [Reader.startingAt, ← hover.2]
  rcases entry_or_defect data reader.position hover.1 with
    ⟨entry, rest, hrest⟩ | ⟨flaw, failure, hdefect⟩
  · have hrun := Record.run_decoder_entry entry rest reader.position
    rw [hrest, ← hover.2] at hrun
    rw [hrun] at hread
    cases hread
    refine ⟨entry, ?_, ?_⟩
    · rw [Reader.remaining, hover.2, ← hrest, List.length_append]
      exact Nat.le_add_right _ _
    · rw [Reader.passing, hover.2, ← hrest, List.drop_left]
  · obtain ⟨stop', hfails⟩ := hdefect.run_decoder hover.1
    rw [hreader, hfails] at hread
    cases hread

/-- The reader stands within the data, nine bytes or more behind the count for every
record that is held. -/
structure Pace (data : Bytes) (held : Array Record) (reader : Reader) : Prop where
  stands : reader.Over data
  passed : countSize + minRecordSize * held.size ≤ reader.position

namespace Pace

variable {data : Bytes} {held : Array Record} {reader : Reader}

/-- A record that is read keeps the pace. -/
theorem push (h : Pace data held reader) {record : Record} {stop : Reader}
    (hread : Record.decoder.run reader = .ok record stop) :
    reader.position + minRecordSize ≤ stop.position ∧ Pace data (held.push record) stop := by
  obtain ⟨entry, hlength, rfl⟩ := exists_entry_of_run h.stands hread
  have hpassed := h.passed
  have hmin := entry.minRecordSize_le_length
  have hposition : (reader.passing entry.bytes.length).position =
      reader.position + entry.bytes.length := rfl
  refine ⟨by omega, h.stands.passing hlength, ?_⟩
  rw [Array.size_push, Nat.mul_succ]
  omega

end Pace

variable {data : Bytes}

end Table

end NamedBlobs
