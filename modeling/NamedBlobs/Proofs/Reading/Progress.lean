import NamedBlobs.Proofs.Reading.Placement

/-!
# Where reads leave the reader

A read passes some of the bytes that are left and none beyond them
(`Read.perform_cases`), so a reader that stands within some data stays there. Where
a read that fails leaves the reader depends on the read: blocks and integers of fixed
width fail where they start, a seven-bit integer where the bytes end or behind five of
them, a string where its length failed or right behind its length (`Read.Fails`).
-/

namespace NamedBlobs

namespace Reader

/-- The reader behind the next `count` bytes. -/
def passing (reader : Reader) (count : Nat) : Reader :=
  ⟨reader.position + count, reader.rest.drop count⟩

theorem passing_zero (reader : Reader) : reader.passing 0 = reader := rfl

theorem passing_passing (reader : Reader) (first second : Nat) :
    (reader.passing first).passing second = reader.passing (first + second) := by
  rw [passing, passing, passing, List.drop_drop, Nat.add_assoc]

theorem remaining_passing (reader : Reader) (count : Nat) :
    (reader.passing count).remaining = reader.remaining - count :=
  List.length_drop

theorem Over.remaining_eq {data : Bytes} {reader : Reader} (h : Over data reader) :
    reader.remaining = data.length - reader.position := by
  rw [remaining, h.2, List.length_drop]

theorem Over.passing {data : Bytes} {reader : Reader} (h : Over data reader) {count : Nat}
    (hcount : count ≤ reader.remaining) : Over data (reader.passing count) := by
  have hremaining := h.remaining_eq
  obtain ⟨hposition, hrest⟩ := h
  constructor
  · change reader.position + count ≤ data.length
    omega
  · rw [Reader.passing, hrest, List.drop_drop]

end Reader

namespace Read

open SevenBit

/-- A read from `reader` fails, with this failure, and leaves the reader there. -/
inductive Fails (reader : Reader) : Read → DecodeError → Reader → Prop where
  /-- An integer that is cut off leaves the reader where it was. -/
  | fixed (width : FixedWidth) (hshort : reader.remaining < width.size) :
      Fails reader (.fixed width)
        (.truncated reader.position width.size reader.remaining) reader
  /-- A block that is cut off leaves the reader where it was. -/
  | bytes (count : Nat) (hshort : reader.remaining < count) :
      Fails reader (.bytes count) (.truncated reader.position count reader.remaining) reader
  /-- Groups that are cut off are read to the end of the bytes. -/
  | unfinished (hshort : reader.remaining < maxBytes)
      (hall : ∀ byte ∈ reader.rest, continues byte) :
      Fails reader .sevenBit (.truncated (reader.position + reader.remaining) 1 0)
        (reader.passing reader.remaining)
  /-- Of groups that do not end in time five are read. -/
  | overlong (hlong : maxBytes ≤ reader.remaining)
      (hall : ∀ byte ∈ reader.rest.take maxBytes, continues byte) :
      Fails reader .sevenBit (.overlongInteger reader.position) (reader.passing maxBytes)
  /-- A string whose length cannot be read leaves the reader where that left it. -/
  | length (failure : DecodeError) (stop : Reader) (h : Fails reader .sevenBit failure stop) :
      Fails reader .string failure stop
  /-- A string of negative length leaves the reader behind the length. -/
  | negative (groups : Bytes) (hgroups : Complete groups) (hopens : groups <+: reader.rest)
      (hnegative : (value groups).toInt < 0) :
      Fails reader .string (.invalidLength reader.position (value groups))
        (reader.passing groups.length)
  /-- A string that is cut off leaves the reader behind the length. -/
  | short (groups : Bytes) (size : Nat) (hgroups : Complete groups)
      (hopens : groups <+: reader.rest) (hvalue : (value groups).toInt = size)
      (hshort : (reader.passing groups.length).remaining < size) :
      Fails reader .string
        (.truncated (reader.position + groups.length) size
          (reader.passing groups.length).remaining)
        (reader.passing groups.length)

/-- A failed read passes some of the bytes that are left. -/
theorem Fails.exists_passing {reader stop : Reader} {read : Read} {failure : DecodeError}
    (h : Fails reader read failure stop) :
    ∃ count ≤ reader.remaining, stop = reader.passing count := by
  induction h with
  | fixed _ _ => exact ⟨0, Nat.zero_le _, reader.passing_zero.symm⟩
  | bytes _ _ => exact ⟨0, Nat.zero_le _, reader.passing_zero.symm⟩
  | unfinished _ _ => exact ⟨reader.remaining, Nat.le_refl _, rfl⟩
  | overlong hlong _ => exact ⟨maxBytes, hlong, rfl⟩
  | length _ _ _ ih => exact ih
  | negative groups _ hopens _ => exact ⟨groups.length, hopens.length_le, rfl⟩
  | short groups _ _ hopens _ _ => exact ⟨groups.length, hopens.length_le, rfl⟩

theorem run_sevenBit_cases (reader : Reader) :
    (∃ groups, Complete groups ∧ groups <+: reader.rest ∧
      Decoder.sevenBit.run reader = .ok (value groups) (reader.passing groups.length)) ∨
    ∃ failure stop, Decoder.sevenBit.run reader = .error failure stop ∧
      Fails reader .sevenBit failure stop := by
  obtain ⟨position, rest⟩ := reader
  cases opening rest with
  | complete groups tail hgroups =>
      refine Or.inl ⟨groups, hgroups, List.prefix_append groups tail, ?_⟩
      rw [run_sevenBit_of_complete groups tail position hgroups, Reader.passing, List.drop_left]
  | overlong front tail hlength hfront =>
      refine Or.inr ⟨_, _, run_sevenBit_of_overlong front tail position hlength hfront, ?_⟩
      have hlong : maxBytes ≤ (Reader.mk position (front ++ tail)).remaining := by
        rw [Reader.remaining, List.length_append]
        omega
      have hfails := Fails.overlong hlong (by rwa [List.take_left' hlength])
      rwa [Reader.passing, List.drop_left' hlength] at hfails
  | unfinished _ hlength hfront =>
      refine Or.inr ⟨_, _, run_sevenBit_of_unfinished rest position hlength hfront, ?_⟩
      have hfails : Fails ⟨position, rest⟩ .sevenBit _ _ := Fails.unfinished hlength hfront
      rwa [Reader.passing, Reader.remaining, List.drop_length] at hfails

theorem perform_of_ok {read : Read} {reader stop : Reader} {item : Item}
    (h : read.decoder.run reader = .ok item stop) :
    read.perform reader = ⟨.ok item, stop⟩ := by
  rw [perform, h]

theorem perform_of_error {read : Read} {reader stop : Reader} {failure : DecodeError}
    (h : read.decoder.run reader = .error failure stop) :
    read.perform reader = ⟨.error failure, stop⟩ := by
  rw [perform, h]

/-- A read passes some of the bytes that are left, whether it comes to an item or fails. -/
theorem perform_cases (read : Read) (reader : Reader) :
    (∃ item, ∃ count ≤ reader.remaining,
      read.perform reader = ⟨.ok item, reader.passing count⟩) ∨
    ∃ failure stop, read.perform reader = ⟨.error failure, stop⟩ ∧
      Fails reader read failure stop := by
  cases read with
  | fixed width =>
      rcases Nat.lt_or_ge reader.remaining width.size with hlt | hle
      · have hrun := Decoder.run_map_fixed_of_lt Item.integer width hlt
        exact Or.inr ⟨_, _, perform_of_error hrun, Fails.fixed width hlt⟩
      · have hlength : (reader.rest.take width.size).length = width.size := by
          rw [List.length_take]
          exact Nat.min_eq_left hle
        have hrun := Decoder.run_map_fixed_append Item.integer width
          (reader.rest.take width.size) (reader.rest.drop width.size) reader.position hlength
        rw [List.take_append_drop] at hrun
        exact Or.inl ⟨_, width.size, hle, perform_of_ok hrun⟩
  | bytes count =>
      rcases Nat.lt_or_ge reader.remaining count with hlt | hle
      · have hrun := Decoder.run_map_of_error (Decoder.run_bytes_of_lt hlt) Item.block
        exact Or.inr ⟨_, _, perform_of_error hrun, Fails.bytes count hlt⟩
      · have hrun := Decoder.run_map_of_ok (Decoder.run_bytes_of_le hle) Item.block
        exact Or.inl ⟨_, count, hle, perform_of_ok hrun⟩
  | sevenBit =>
      rcases run_sevenBit_cases reader with ⟨groups, -, hopens, hrun⟩ | ⟨_, _, hrun, hfails⟩
      · have hitem := Decoder.run_map_of_ok hrun Item.word
        exact Or.inl ⟨_, groups.length, hopens.length_le, perform_of_ok hitem⟩
      · exact Or.inr ⟨_, _, perform_of_error (Decoder.run_map_of_error hrun Item.word), hfails⟩
  | string =>
      rcases run_sevenBit_cases reader with
        ⟨groups, hgroups, hopens, hrun⟩ | ⟨failure, stop, hrun, hfails⟩
      · have hstring := Decoder.run_string_of_ok hrun
        simp only [Int32.lt_iff_toInt_lt, Int32.toInt_zero] at hstring
        by_cases hnegative : (value groups).toInt < 0
        · rw [if_pos hnegative] at hstring
          exact Or.inr ⟨_, _, perform_of_error (Decoder.run_map_of_error hstring Item.block),
            Fails.negative groups hgroups hopens hnegative⟩
        obtain ⟨size, hvalue⟩ := Int.eq_ofNat_of_zero_le (Int.not_lt.mp hnegative)
        rw [if_neg hnegative, hvalue, Int.toNat_natCast] at hstring
        rcases Nat.lt_or_ge (reader.passing groups.length).remaining size with hlt | hle
        · rw [Decoder.run_bytes_of_lt hlt] at hstring
          exact Or.inr ⟨_, _, perform_of_error (Decoder.run_map_of_error hstring Item.block),
            Fails.short groups size hgroups hopens hvalue hlt⟩
        · rw [Decoder.run_bytes_of_le hle] at hstring
          have hcount : groups.length + size ≤ reader.remaining := by
            have hgroupsLe : groups.length ≤ reader.remaining := hopens.length_le
            rw [Reader.remaining_passing] at hle
            omega
          refine Or.inl ⟨.block ((reader.passing groups.length).rest.take size),
            groups.length + size, hcount, ?_⟩
          rw [← reader.passing_passing]
          exact perform_of_ok (Decoder.run_map_of_ok hstring Item.block)
      · exact Or.inr ⟨_, _, perform_of_error (Decoder.run_map_of_error
          (Decoder.run_string_of_error hrun) Item.block), Fails.length failure stop hfails⟩

/-- Wherever a read ends, it has passed some of the bytes that were left. -/
theorem exists_reader_perform (read : Read) (reader : Reader) :
    ∃ count ≤ reader.remaining, (read.perform reader).reader = reader.passing count := by
  rcases read.perform_cases reader with
    ⟨item, count, hcount, hperform⟩ | ⟨failure, stop, hperform, hfails⟩
  · exact ⟨count, hcount, congrArg Outcome.reader hperform⟩
  · obtain ⟨count, hcount, rfl⟩ := hfails.exists_passing
    exact ⟨count, hcount, congrArg Outcome.reader hperform⟩

theorem over_perform {data : Bytes} {reader : Reader} (h : reader.Over data) (read : Read) :
    (read.perform reader).reader.Over data := by
  obtain ⟨count, hcount, hstop⟩ := read.exists_reader_perform reader
  rw [hstop]
  exact h.passing hcount

theorem position_le_perform (read : Read) (reader : Reader) :
    reader.position ≤ (read.perform reader).reader.position := by
  obtain ⟨count, -, hstop⟩ := read.exists_reader_perform reader
  rw [hstop]
  exact Nat.le_add_right reader.position count

theorem fails_of_perform {read : Read} {reader : Reader} {failure : DecodeError}
    (h : (read.perform reader).result = .error failure) :
    Fails reader read failure (read.perform reader).reader := by
  rcases read.perform_cases reader with
    ⟨item, count, -, hperform⟩ | ⟨failure', stop, hperform, hfails⟩
  · rw [hperform] at h
    cases h
  · rw [hperform] at h ⊢
    cases h
    exact hfails

end Read

end NamedBlobs
