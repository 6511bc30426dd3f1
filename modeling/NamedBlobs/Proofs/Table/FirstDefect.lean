import NamedBlobs.Proofs.Table.Layout

/-!
# The first defect

Bytes that are long enough for a count either have a layout, or some record
before the declared number has a flaw while entries stand in front of it
(`layout_or_firstDefect`). Decoding stops at that record and reports its flaw
(`FirstDefect.decode_eq`); the record, the flaw and the failure are determined
by the bytes (`FirstDefect.unique`).
-/

namespace NamedBlobs

namespace Table

/-- The record of `data` at `index`, which is one of those declared, would start
at `start`: entries stand in front of it. It has a flaw that is reported as
`failure`. -/
structure FirstDefect (data : Bytes) (index start : Nat) (flaw : Flaw)
    (failure : DecodeError) : Prop where
  index_lt : index < declaredRecords data
  entries : ∃ entries : List Entry, entries.length = index ∧
    Entry.Occupy data entries countSize start
  defect : Defect data start flaw failure

/-- From every place on, entries stand for all the records that are to be read,
or a flaw comes behind fewer of them. -/
theorem occupy_or_defect (data : Bytes) (count start : Nat) (hstart : start ≤ data.length) :
    (∃ entries : List Entry, entries.length = count ∧
      ∃ stop, Entry.Occupy data entries start stop) ∨
    ∃ (entries : List Entry) (stop : Nat) (flaw : Flaw) (failure : DecodeError),
      entries.length < count ∧ Entry.Occupy data entries start stop ∧
        Defect data stop flaw failure := by
  -- on the records that are still to be read, from wherever the next one starts
  induction count generalizing start with
  | zero => exact Or.inl ⟨[], rfl, start, Entry.Occupy.nil data start⟩
  | succ count ih =>
      rcases entry_or_defect data start hstart with ⟨entry, hentry⟩ | ⟨flaw, failure, hdefect⟩
      · have hnext : start + entry.bytes.length ≤ data.length :=
          ((Entry.Occupy.nil data _).cons hentry).le_length hstart
        rcases ih (start + entry.bytes.length) hnext with
          ⟨entries, hlength, stop, hoccupy⟩ | ⟨entries, stop, flaw, failure, hlt, hoccupy, hdefect⟩
        · exact Or.inl ⟨entry :: entries, by rw [List.length_cons, hlength], stop,
            hoccupy.cons hentry⟩
        · exact Or.inr ⟨entry :: entries, stop, flaw, failure, Nat.succ_lt_succ hlt,
            hoccupy.cons hentry, hdefect⟩
      · exact Or.inr ⟨[], start, flaw, failure, Nat.succ_pos count, Entry.Occupy.nil data start,
          hdefect⟩

theorem layout_or_firstDefect (data : Bytes) (h : countSize ≤ data.length) :
    Nonempty (Layout data) ∨
      ∃ index start flaw failure, FirstDefect data index start flaw failure := by
  rcases occupy_or_defect data (declaredRecords data) countSize h with
    ⟨entries, hlength, stop, hoccupy⟩ | ⟨entries, stop, flaw, failure, hlt, hoccupy, hdefect⟩
  · have hsplit : data = data.take countSize ++ entries.flatMap Entry.bytes ++
        data.drop stop := by
      rw [List.append_assoc, ← hoccupy.drop_eq, List.take_append_drop]
    have hhead : (data.take countSize).length = countSize := by
      rw [List.length_take]
      exact Nat.min_eq_left h
    exact Or.inl ⟨⟨data.take countSize, entries, data.drop stop, hsplit, hhead, hlength⟩⟩
  · exact Or.inr ⟨entries.length, stop, flaw, failure, hlt, ⟨entries, rfl, hoccupy⟩, hdefect⟩

namespace FirstDefect

variable {data : Bytes} {index start : Nat} {flaw : Flaw} {failure : DecodeError}

/-- Decoding reads the records in front of the first one with a flaw, and stops
there with its failure. -/
theorem exists_decoding_eq (h : FirstDefect data index start flaw failure)
    (hlength : countSize ≤ data.length) :
    ∃ records reader, records.size = index ∧
      decoding data = .counted (declared data) ⟨records, reader, some failure⟩ := by
  obtain ⟨entries, hindex, hoccupy⟩ := h.entries
  obtain ⟨reader, hfails⟩ := h.defect.run_decoder (hoccupy.le_length hlength)
  obtain ⟨left, hleft⟩ : ∃ left, declaredRecords data = entries.length + (left + 1) :=
    ⟨declaredRecords data - entries.length - 1, by have hlt := h.index_lt; omega⟩
  have hscan := scan_append entries (left + 1) #[] (data.drop start) countSize
  rw [← hoccupy.drop_eq, hoccupy.2, ← hleft] at hscan
  have hread : Record.decoder ⟨start, data.drop start⟩ = .error failure reader := hfails
  refine ⟨(entries.map Entry.record).toArray, reader, by simp [hindex], ?_⟩
  rw [decoding_of_le data hlength, Reader.startingAt, hscan]
  simp only [scan, hread, Array.empty_append]

theorem decode_eq (h : FirstDefect data index start flaw failure)
    (hlength : countSize ≤ data.length) : decode data = .error failure := by
  obtain ⟨records, reader, -, hdecoding⟩ := h.exists_decoding_eq hlength
  rw [decode, hdecoding, Decoding.result]

theorem start_le_length (h : FirstDefect data index start flaw failure)
    (hlength : countSize ≤ data.length) : start ≤ data.length := by
  obtain ⟨entries, -, hoccupy⟩ := h.entries
  exact hoccupy.le_length hlength

theorem countSize_le_start (h : FirstDefect data index start flaw failure) :
    countSize ≤ start := by
  obtain ⟨entries, -, -, hstop⟩ := h.entries
  omega

/-- The first defect for missing bytes is of the whole byte string; any other
one stays the first, whatever follows. -/
theorem truncated_or_append (h : FirstDefect data index start flaw failure)
    (hlength : countSize ≤ data.length) :
    failure.Missing data.length ∨
      (∀ offset need available, failure ≠ .truncated offset need available) ∧
        ∀ extension, FirstDefect (data ++ extension) index start flaw failure := by
  rcases h.defect.truncated_or_settled (h.start_le_length hlength) with
    hmissing | ⟨hne, hsettled⟩
  · exact Or.inl hmissing
  · refine Or.inr ⟨hne, fun extension => ⟨?_, ?_, hsettled extension⟩⟩
    · rw [declaredRecords_append data extension hlength]
      exact h.index_lt
    · obtain ⟨entries, hindex, hoccupy⟩ := h.entries
      exact ⟨entries, hindex, hoccupy.append extension hlength⟩

/-- The bytes determine which record is the first with a flaw, where it starts,
what is wrong with it and how this is reported. -/
theorem unique {index' start' : Nat} {flaw' : Flaw} {failure' : DecodeError}
    (h : FirstDefect data index start flaw failure)
    (h' : FirstDefect data index' start' flaw' failure')
    (hlength : countSize ≤ data.length) :
    index = index' ∧ start = start' ∧ flaw = flaw' ∧ failure = failure' := by
  obtain ⟨entries, hindex, hoccupy⟩ := h.entries
  obtain ⟨entries', hindex', hoccupy'⟩ := h'.entries
  have heq : entries.length = entries'.length := by
    rcases Nat.lt_trichotomy entries.length entries'.length with hlt | heq | hgt
    · obtain ⟨entry, hentry⟩ := hoccupy.exists_entry hoccupy' hlt
      exact absurd hentry (h.defect.not_entry (hoccupy.le_length hlength) entry)
    · exact heq
    · obtain ⟨entry, hentry⟩ := hoccupy'.exists_entry hoccupy hgt
      exact absurd hentry (h'.defect.not_entry (hoccupy'.le_length hlength) entry)
  obtain rfl := hoccupy.stop_eq hoccupy' heq
  obtain ⟨hflaw, hfailure⟩ := h.defect.unique h'.defect (hoccupy.le_length hlength)
  exact ⟨by omega, rfl, hflaw, hfailure⟩

end FirstDefect

end Table

end NamedBlobs
