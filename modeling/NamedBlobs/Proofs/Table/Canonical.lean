import NamedBlobs.Proofs.SevenBit.Canonical
import NamedBlobs.Proofs.Table.Acceptance

/-!
# Writing down what was decoded

A decoded table that is written again takes no more bytes than it was decoded
from. Every entry is written anew (`Entry.rewritten`) with the same name and the
same identifier, so nothing but the lengths of the names can change, and an entry
comes back as it was exactly if its length is canonical
(`Entry.rewritten_eq_iff`). Entries are told apart by their bytes, hence a whole
layout comes back as it was exactly if all its lengths are canonical.
-/

namespace NamedBlobs

namespace Entry

/-- The entry that is written for the record of an entry. -/
def rewritten (entry : Entry) : Entry := ofRecord entry.record entry.length_lt

theorem bytes_rewritten (entry : Entry) : entry.rewritten.bytes = entry.record.encode :=
  bytes_ofRecord entry.record entry.length_lt

theorem name_rewritten (entry : Entry) : entry.rewritten.name = entry.name := rfl

theorem word_rewritten (entry : Entry) : entry.rewritten.word = entry.word := by
  have hword : entry.rewritten.word =
      FixedWidth.i64.encode (Int64.ofInt (FixedWidth.i64.decode entry.word)).toInt := rfl
  rw [hword, FixedWidth.encode_ofInt_i64, FixedWidth.encode_decode .i64 entry.length_word]

theorem groups_rewritten (entry : Entry) :
    entry.rewritten.groups = SevenBit.encode (SevenBit.value entry.groups) := by
  have hlength : Int32.ofNat entry.name.length = SevenBit.value entry.groups := by
    apply Int32.toInt_inj.mp
    rw [entry.toInt_value, Int32.toInt_ofNat_of_lt entry.length_lt]
  exact congrArg SevenBit.encode hlength

theorem length_bytes_rewritten_le (entry : Entry) :
    entry.rewritten.bytes.length ≤ entry.bytes.length := by
  have hgroups := SevenBit.length_encode_value_le entry.complete
  rw [length_bytes, length_bytes, groups_rewritten, name_rewritten]
  omega

/-- An entry is written as it was if and only if its length was canonical. -/
theorem rewritten_eq_iff (entry : Entry) :
    entry.rewritten = entry ↔ SevenBit.Canonical entry.groups := by
  rw [← SevenBit.encode_value_eq_iff, ← groups_rewritten]
  constructor
  · exact congrArg Entry.groups
  · intro hgroups
    exact Entry.ext hgroups entry.name_rewritten entry.word_rewritten

theorem flatMap_encode_record (entries : List Entry) :
    (entries.map record).flatMap Record.encode = (entries.map rewritten).flatMap bytes := by
  simp only [List.flatMap_map, bytes_rewritten]

theorem length_flatMap_rewritten_le (entries : List Entry) :
    ((entries.map rewritten).flatMap bytes).length ≤ (entries.flatMap bytes).length := by
  induction entries with
  | nil => exact Nat.le_refl _
  | cons entry entries ih =>
      simp only [List.map_cons, List.flatMap_cons, List.length_append]
      exact Nat.add_le_add entry.length_bytes_rewritten_le ih

/-- Entries one behind the other are written as they were if and only if all their
lengths were canonical. -/
theorem flatMap_rewritten_eq_iff (entries : List Entry) :
    entries.flatMap bytes = (entries.map rewritten).flatMap bytes ↔
      ∀ entry ∈ entries, SevenBit.Canonical entry.groups := by
  have hentries : (∀ entry ∈ entries, SevenBit.Canonical entry.groups) ↔
      entries.map rewritten = entries.map id := by
    simp only [List.map_inj_left, rewritten_eq_iff, id_eq]
  rw [hentries, List.map_id]
  constructor
  · intro heq
    have hsplit : (entries.map rewritten).flatMap bytes ++ [] = entries.flatMap bytes ++ [] := by
      rw [heq]
    exact (flatMap_bytes_inj (List.length_map rewritten) hsplit).1
  · intro heq
    rw [heq]

end Entry

namespace Table

namespace Layout

variable {data : Bytes}

/-- The count of a layout is written as it was, unless it was negative. -/
theorem encode_table (layout : Layout data) (hcount : 0 ≤ (declared data).toInt) :
    encode layout.table =
      layout.head ++ (layout.entries.map Entry.rewritten).flatMap Entry.bytes := by
  have hhead : data.take countSize = layout.head := by
    have htake := congrArg (List.take countSize) layout.data_eq
    rwa [List.append_assoc, List.take_left' layout.length_head] at htake
  have hdeclared : Int32.ofNat layout.table.records.length = declared data := by
    apply Int32.toInt_inj.mp
    have hrecords : (layout.table.records.length : Int) = (declared data).toInt := by
      rw [table, List.length_map, layout.length_entries, declaredRecords,
        Int.toNat_of_nonneg hcount]
    have hlt : (declared data).toInt < 2 ^ 31 := (declared data).toInt_lt
    rw [Int32.toInt_ofNat_of_lt (by omega), hrecords]
  have hwritten : FixedWidth.i32.encode (declared data).toInt = layout.head := by
    rw [declared, FixedWidth.encode_ofInt_i32, hhead,
      FixedWidth.encode_decode .i32 layout.length_head]
  rw [encode, encodeDeclaring, hdeclared, hwritten, table, Entry.flatMap_encode_record]

theorem take_size (layout : Layout data) :
    data.take layout.size = layout.head ++ layout.entries.flatMap Entry.bytes := by
  have hlength : (layout.head ++ layout.entries.flatMap Entry.bytes).length = layout.size := by
    rw [List.length_append, layout.length_head, size]
  have htake := congrArg (List.take layout.size) layout.data_eq
  rwa [List.take_left' hlength] at htake

theorem length_encode_table_le (layout : Layout data) (hcount : 0 ≤ (declared data).toInt) :
    (encode layout.table).length ≤ layout.size := by
  rw [layout.encode_table hcount, List.length_append, layout.length_head, size]
  exact Nat.add_le_add_left (Entry.length_flatMap_rewritten_le layout.entries) _

/-- A layout is written as it was if and only if all its lengths were canonical. -/
theorem take_size_eq_encode_iff (layout : Layout data) (hcount : 0 ≤ (declared data).toInt) :
    data.take layout.size = encode layout.table ↔
      ∀ entry ∈ layout.entries, SevenBit.Canonical entry.groups := by
  rw [layout.take_size, layout.encode_table hcount, List.append_cancel_left_eq]
  exact Entry.flatMap_rewritten_eq_iff layout.entries

end Layout

/-- The lengths in front of the names are canonical, all of them. -/
def CanonicalLengths (data : Bytes) : Prop :=
  ∃ layout : Layout data, ∀ entry ∈ layout.entries, SevenBit.Canonical entry.groups

/-- A table that was decoded under a count that is not negative is written in no more
bytes than were consumed, and in the very same bytes if and only if the lengths of
its names were canonical. So it has only one spelling with canonical lengths. -/
theorem take_consumed_eq_encode_iff {data : Bytes} {table : Table}
    (hlength : countSize ≤ data.length) (hcount : 0 ≤ (declared data).toInt)
    (hdecode : decode data = .ok table) :
    (∃ layout : Layout data, layout.table = table ∧ layout.size = consumed data) ∧
    (encode table).length ≤ consumed data ∧
    (data.take (consumed data) = encode table ↔ CanonicalLengths data) ∧
    ∀ data' : Bytes, countSize ≤ data'.length → 0 ≤ (declared data').toInt →
      decode data' = .ok table → CanonicalLengths data → CanonicalLengths data' →
        data.take (consumed data) = data'.take (consumed data') := by
  have hspelling : ∀ data' : Bytes, countSize ≤ data'.length → 0 ≤ (declared data').toInt →
      decode data' = .ok table → (encode table).length ≤ consumed data' ∧
        (data'.take (consumed data') = encode table ↔ CanonicalLengths data') := by
    intro data' hlength hcount hdecode
    obtain ⟨layout, rfl⟩ := exists_layout_of_decode hdecode hlength
    rw [layout.consumed_eq, layout.take_size_eq_encode_iff hcount]
    refine ⟨layout.length_encode_table_le hcount, fun hcanonical => ⟨layout, hcanonical⟩, ?_⟩
    rintro ⟨layout', hcanonical⟩
    rwa [layout.unique layout']
  obtain ⟨hle, hiff⟩ := hspelling data hlength hcount hdecode
  obtain ⟨layout, htable⟩ := exists_layout_of_decode hdecode hlength
  refine ⟨⟨layout, htable, layout.consumed_eq.symm⟩, hle, hiff, ?_⟩
  intro data' hlength' hcount' hdecode' hcanonical hcanonical'
  obtain ⟨-, hiff'⟩ := hspelling data' hlength' hcount' hdecode'
  rw [hiff.mpr hcanonical, hiff'.mpr hcanonical']

/-- The first length has a fifth group with a bit too many and the second a last group
of zero, so the table is written in five bytes less. -/
theorem take_consumed_eq_encode_iff_long_lengths :
    decode [2, 0, 0, 0, 0x81, 0x80, 0x80, 0x80, 0x10, 0x61, 200, 0, 0, 0, 0, 0, 0, 0,
        0x80, 0x00, 7, 0, 0, 0, 0, 0, 0, 0, 0xFF] = .ok ⟨[⟨[0x61], 200⟩, ⟨[], 7⟩]⟩ ∧
      ¬ CanonicalLengths [2, 0, 0, 0, 0x81, 0x80, 0x80, 0x80, 0x10, 0x61, 200, 0, 0, 0, 0, 0, 0,
        0, 0x80, 0x00, 7, 0, 0, 0, 0, 0, 0, 0, 0xFF] ∧
      consumed [2, 0, 0, 0, 0x81, 0x80, 0x80, 0x80, 0x10, 0x61, 200, 0, 0, 0, 0, 0, 0, 0,
        0x80, 0x00, 7, 0, 0, 0, 0, 0, 0, 0, 0xFF] =
          (encode ⟨[⟨[0x61], 200⟩, ⟨[], 7⟩]⟩).length + 5 := by
  have hdecode : decode [2, 0, 0, 0, 0x81, 0x80, 0x80, 0x80, 0x10, 0x61, 200, 0, 0, 0, 0, 0, 0, 0,
      0x80, 0x00, 7, 0, 0, 0, 0, 0, 0, 0, 0xFF] = .ok ⟨[⟨[0x61], 200⟩, ⟨[], 7⟩]⟩ := by
    decide +kernel
  obtain ⟨-, -, hiff, -⟩ := take_consumed_eq_encode_iff (by decide) (by decide) hdecode
  refine ⟨hdecode, ?_, by decide +kernel⟩
  rw [← hiff]
  decide +kernel

end Table

end NamedBlobs
