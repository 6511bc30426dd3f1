import NamedBlobs.Proofs.Table.FirstDefect

/-!
# Which byte strings are tables

Bytes that are too short for a count, or that declare none, are the empty table.
All others are accepted if they have a layout, as the table that the layout
spells (`decode_eq_ok_iff`), and otherwise refused for their first defect
(`decode_eq_error_iff`).
-/

namespace NamedBlobs

namespace Table

theorem decode_of_lt (data : Bytes) (h : data.length < countSize) : decode data = .ok empty := by
  rw [decode, decoding_of_lt data h, Decoding.result]

theorem decode_of_declared_nonpos (data : Bytes) (h : (declared data).toInt ≤ 0) :
    decode data = .ok empty := by
  rcases Nat.lt_or_ge data.length countSize with hlt | hle
  · exact decode_of_lt data hlt
  · have hnone : declaredRecords data = 0 := Int.toNat_of_nonpos h
    rw [decode, decoding_of_le data hle, hnone, scan, Decoding.result]
    rfl

/-- An accepted byte string that is long enough for a count has a layout. -/
theorem exists_layout_of_decode {data : Bytes} {table : Table}
    (h : decode data = .ok table) (hlength : countSize ≤ data.length) :
    ∃ layout : Layout data, layout.table = table := by
  rcases layout_or_firstDefect data hlength with
    ⟨⟨layout⟩⟩ | ⟨_, _, _, _, hdefect⟩
  · have hdecode := layout.decode_eq
    rw [h] at hdecode
    injection hdecode with htable
    exact ⟨layout, htable.symm⟩
  · rw [hdefect.decode_eq hlength] at h
    cases h

/-- A refused byte string has a first defect. -/
theorem exists_firstDefect_of_decode {data : Bytes} {failure : DecodeError}
    (h : decode data = .error failure) :
    countSize ≤ data.length ∧
      ∃ index start flaw, FirstDefect data index start flaw failure := by
  have hlength : countSize ≤ data.length := by
    by_contra hlt
    rw [decode_of_lt data (Nat.not_le.mp hlt)] at h
    cases h
  refine ⟨hlength, ?_⟩
  rcases layout_or_firstDefect data hlength with
    ⟨⟨layout⟩⟩ | ⟨index, start, flaw, _, hdefect⟩
  · rw [layout.decode_eq] at h
    cases h
  · have hdecode := hdefect.decode_eq hlength
    rw [h] at hdecode
    injection hdecode with hfailure
    subst hfailure
    exact ⟨index, start, flaw, hdefect⟩

/-- Decoding accepts exactly the byte strings that have a layout, each as the
table that its only layout spells. Without a positive count the bytes are the
empty table, whatever follows. -/
theorem decode_eq_ok_iff (data : Bytes) :
    (data.length < countSize ∨ (declared data).toInt ≤ 0 → decode data = .ok empty) ∧
      (countSize ≤ data.length → 0 < (declared data).toInt →
        (∀ table, decode data = .ok table ↔ ∃ layout : Layout data, layout.table = table) ∧
          ∀ layout layout' : Layout data, layout = layout') := by
  constructor
  · rintro (hlt | hnonpos)
    · exact decode_of_lt data hlt
    · exact decode_of_declared_nonpos data hnonpos
  · intro hlength _
    refine ⟨fun table => ⟨?_, ?_⟩, Layout.unique⟩
    · intro hdecode
      exact exists_layout_of_decode hdecode hlength
    · rintro ⟨layout, rfl⟩
      exact layout.decode_eq

/-- The lengths 3 and 1, the first with a group more than it needs and the second
with a bit beyond the 32nd, are accepted. -/
theorem decode_long_lengths :
    decode ([2, 0, 0, 0] ++
        ([0x83, 0x80, 0x00] ++ [0x61, 0x62, 0x63] ++ [200, 0, 0, 0, 0, 0, 0, 0] ++
          ([0x81, 0x80, 0x80, 0x80, 0x10] ++ [0x7A] ++
            [0xFF, 0xFF, 0xFF, 0xFF, 0xFF, 0xFF, 0xFF, 0xFF])) ++ [0x05]) =
      .ok ⟨[⟨[0x61, 0x62, 0x63], 200⟩, ⟨[0x7A], -1⟩]⟩ := by
  let first : Entry := ⟨[0x83, 0x80, 0x00], [0x61, 0x62, 0x63], [200, 0, 0, 0, 0, 0, 0, 0],
    ⟨[0x83, 0x80], 0x00, rfl, List.all_eq_true.mp rfl, rfl, by decide⟩, by decide, by decide,
    rfl⟩
  let second : Entry := ⟨[0x81, 0x80, 0x80, 0x80, 0x10], [0x7A],
    [0xFF, 0xFF, 0xFF, 0xFF, 0xFF, 0xFF, 0xFF, 0xFF],
    ⟨[0x81, 0x80, 0x80, 0x80], 0x10, rfl, List.all_eq_true.mp rfl, rfl, by decide⟩,
    by decide, by decide, rfl⟩
  refine (((decode_eq_ok_iff _).2 (by decide) (by decide)).1 _).mpr
    ⟨⟨[2, 0, 0, 0], [first, second], [0x05], rfl, rfl, by decide⟩, ?_⟩
  decide +kernel

/-- Decoding refuses exactly the byte strings with a first defect and reports
it. The record with the defect and the flaw are unique, and the failure lies
behind the count and within the bytes. -/
theorem decode_eq_error_iff (data : Bytes) (hlength : countSize ≤ data.length) :
    (∀ failure, decode data = .error failure ↔
      ∃ index start flaw, FirstDefect data index start flaw failure) ∧
    (∀ index start flaw failure index' start' flaw' failure',
      FirstDefect data index start flaw failure →
      FirstDefect data index' start' flaw' failure' →
        index = index' ∧ start = start' ∧ flaw = flaw' ∧ failure = failure') ∧
    ∀ failure, decode data = .error failure →
      countSize ≤ failure.offset ∧ failure.offset ≤ data.length := by
  refine ⟨fun failure => ⟨?_, ?_⟩, ?_, ?_⟩
  · intro hdecode
    exact (exists_firstDefect_of_decode hdecode).2
  · rintro ⟨index, start, flaw, hdefect⟩
    exact hdefect.decode_eq hlength
  · intro index start flaw failure index' start' flaw' failure' h h'
    exact h.unique h' hlength
  · intro failure hdecode
    obtain ⟨-, index, start, flaw, hdefect⟩ := exists_firstDefect_of_decode hdecode
    obtain ⟨hstart, hend⟩ := hdefect.defect.offset_bounds (hdefect.start_le_length hlength)
    exact ⟨Nat.le_trans hdefect.countSize_le_start hstart, hend⟩

/-- Behind one entry a length of minus one is reported where it starts. -/
theorem decode_negative_length :
    countSize ≤ [2, 0, 0, 0, 1, 0x61, 5, 0, 0, 0, 0, 0, 0, 0, 0xFF, 0xFF, 0xFF, 0xFF, 0x0F,
      (0x62 : UInt8)].length ∧
    decode [2, 0, 0, 0, 1, 0x61, 5, 0, 0, 0, 0, 0, 0, 0, 0xFF, 0xFF, 0xFF, 0xFF, 0x0F, 0x62] =
      .error (.invalidLength 14 (-1)) := by
  let entry : Entry := ⟨[1], [0x61], [5, 0, 0, 0, 0, 0, 0, 0],
    ⟨[], 1, rfl, by simp, by decide, by decide⟩, by decide, by decide, rfl⟩
  refine ⟨by decide, ((decode_eq_error_iff _ (by decide)).1 _).mpr ⟨1, 14, .negative, ?_⟩⟩
  refine ⟨by decide, ⟨[entry], rfl, ⟨_, rfl⟩, rfl⟩, ?_⟩
  exact Defect.negative [0xFF, 0xFF, 0xFF, 0xFF, 0x0F] [0x62]
    ⟨[0xFF, 0xFF, 0xFF, 0xFF], 0x0F, rfl, List.all_eq_true.mp rfl, rfl, by decide⟩ rfl
    (by decide)

end Table

end NamedBlobs
