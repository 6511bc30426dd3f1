import NamedBlobs.Proofs.Table.FirstDefect

/-!
# Decoding what was encoded

Records that are written under some count have a layout for every tail, as long
as the count declares no more records than were written; the layout spells the
records that are declared. A larger count is missed right behind the last
record, where the length of the next name would start.
-/

namespace NamedBlobs

namespace Entry

/-- Records whose names are short enough for a length are written as entries. -/
theorem exists_of_records (records : List Record)
    (hnames : ∀ record ∈ records, record.name.length < 2 ^ 31) :
    ∃ entries : List Entry, entries.map record = records ∧
      entries.flatMap bytes = records.flatMap Record.encode := by
  induction records with
  | nil => exact ⟨[], rfl, rfl⟩
  | cons record records ih =>
      have hname : record.name.length < 2 ^ 31 := hnames record List.mem_cons_self
      obtain ⟨entries, hrecords, hbytes⟩ := ih fun record hmem =>
        hnames record (List.mem_cons_of_mem _ hmem)
      refine ⟨ofRecord record hname :: entries, ?_, ?_⟩
      · rw [List.map_cons, record_ofRecord, hrecords]
      · rw [List.flatMap_cons, List.flatMap_cons, bytes_ofRecord, hbytes]

end Entry

namespace Table

theorem length_encode_count (count : Int32) :
    (FixedWidth.i32.encode count.toInt).length = countSize :=
  FixedWidth.length_encode .i32 count.toInt

theorem declared_encode (count : Int32) (rest : Bytes) :
    declared (FixedWidth.i32.encode count.toInt ++ rest) = count := by
  rw [declared, List.take_left' (length_encode_count count), FixedWidth.ofInt_decode_encode_i32]

/-- As many records as the count declares come back, if that many were written. -/
theorem decode_encodeDeclaring_of_le (records : List Record) (count : Int32) (tail : Bytes)
    (hnames : ∀ record ∈ records, record.name.length < 2 ^ 31)
    (hcount : count.toInt ≤ records.length) :
    decode (encodeDeclaring count records ++ tail) = .ok ⟨records.take count.toInt.toNat⟩ := by
  obtain ⟨entries, hrecords, hbytes⟩ := Entry.exists_of_records
    (records.take count.toInt.toNat) fun record hmem => hnames record (List.mem_of_mem_take hmem)
  have hlength : entries.length = count.toInt.toNat := by
    rw [← List.length_map Entry.record, hrecords, List.length_take]
    omega
  have hwritten : records.flatMap Record.encode =
      entries.flatMap Entry.bytes ++
        (records.drop count.toInt.toNat).flatMap Record.encode := by
    rw [hbytes, ← List.flatMap_append, List.take_append_drop]
  have hsplit : encodeDeclaring count records ++ tail =
      FixedWidth.i32.encode count.toInt ++ entries.flatMap Entry.bytes ++
        ((records.drop count.toInt.toNat).flatMap Record.encode ++ tail) := by
    rw [encodeDeclaring, hwritten]
    simp only [List.append_assoc]
  have hdeclared : entries.length = declaredRecords (encodeDeclaring count records ++ tail) := by
    rw [declaredRecords, encodeDeclaring, List.append_assoc, declared_encode, hlength]
  have hdecode := Layout.decode_eq ⟨FixedWidth.i32.encode count.toInt, entries, _, hsplit,
    length_encode_count count, hdeclared⟩
  rw [hdecode, Layout.table, hrecords]

theorem decode_encode (records : List Record)
    (hnames : ∀ record ∈ records, record.name.length < 2 ^ 31)
    (hlength : records.length < 2 ^ 31) : decode (encode ⟨records⟩) = .ok ⟨records⟩ := by
  have hcount : (Int32.ofNat records.length).toInt = records.length :=
    Int32.toInt_ofNat_of_lt hlength
  have hdecode := decode_encodeDeclaring_of_le records (Int32.ofNat records.length) [] hnames
    (Int.le_of_eq hcount)
  rw [List.append_nil, hcount, Int.toNat_natCast, List.take_length] at hdecode
  exact hdecode

theorem encode_ne_nil (table : Table) : encode table ≠ [] := by
  intro hnil
  have hlength := congrArg List.length hnil
  rw [encode, encodeDeclaring, List.length_append, length_encode_count] at hlength
  simp [countSize] at hlength

/-- A record that is declared but was not written is missed at the end. -/
theorem decode_encodeDeclaring_of_lt (records : List Record) (count : Int32)
    (hnames : ∀ record ∈ records, record.name.length < 2 ^ 31)
    (hcount : records.length < count.toInt) :
    decode (encodeDeclaring count records) =
      .error (.truncated (encodeDeclaring count records).length 1 0) := by
  obtain ⟨entries, hrecords, hbytes⟩ := Entry.exists_of_records records hnames
  have hlength : entries.length = records.length := by
    rw [← List.length_map Entry.record, hrecords]
  have hbehind : (encodeDeclaring count records).drop countSize = entries.flatMap Entry.bytes := by
    rw [encodeDeclaring, List.drop_left' (length_encode_count count), hbytes]
  have hend : countSize + (entries.flatMap Entry.bytes).length =
      (encodeDeclaring count records).length := by
    rw [encodeDeclaring, List.length_append, length_encode_count, hbytes]
  have hoccupy : Entry.Occupy (encodeDeclaring count records) entries countSize
      (encodeDeclaring count records).length := by
    refine ⟨⟨[], ?_⟩, hend⟩
    rw [List.append_nil, hbehind]
  have hdefect : Defect (encodeDeclaring count records) (encodeDeclaring count records).length
      .unfinished (.truncated (encodeDeclaring count records).length 1 0) := by
    apply Defect.unfinished
    · rw [List.drop_length]
      decide
    · simp [List.drop_length]
  have hfirst : FirstDefect (encodeDeclaring count records) records.length
      (encodeDeclaring count records).length .unfinished
      (.truncated (encodeDeclaring count records).length 1 0) := by
    refine ⟨?_, ⟨entries, hlength, hoccupy⟩, hdefect⟩
    rw [declaredRecords, encodeDeclaring, declared_encode]
    omega
  exact hfirst.decode_eq (by omega)

/-- Decoding undoes encoding: of the records that were written come back as many
as the count declares, whatever follows them. A count that is not positive
declares none, and one that declares too many makes the decoding fail at the
end. -/
theorem decode_encodeDeclaring (records : List Record) (count : Int32)
    (hnames : ∀ record ∈ records, record.name.length < 2 ^ 31)
    (hlength : records.length < 2 ^ 31) :
    (count.toInt ≤ 0 →
      ∀ tail, decode (encodeDeclaring count records ++ tail) = .ok empty) ∧
    (0 < count.toInt → count.toInt ≤ records.length →
      ∀ tail, decode (encodeDeclaring count records ++ tail) =
        .ok ⟨records.take count.toInt.toNat⟩) ∧
    (records.length < count.toInt →
      decode (encodeDeclaring count records) =
        .error (.truncated (encodeDeclaring count records).length 1 0)) ∧
    ∀ tail, decode (encode ⟨records⟩ ++ tail) = .ok ⟨records⟩ := by
  refine ⟨?_, ?_, ?_, ?_⟩
  · intro hnonpos tail
    rw [decode_encodeDeclaring_of_le records count tail hnames (by omega),
      Int.toNat_of_nonpos hnonpos, List.take_zero]
    rfl
  · intro _ hle tail
    exact decode_encodeDeclaring_of_le records count tail hnames hle
  · exact decode_encodeDeclaring_of_lt records count hnames
  · intro tail
    have hcount : (Int32.ofNat records.length).toInt = records.length :=
      Int32.toInt_ofNat_of_lt hlength
    rw [encode, decode_encodeDeclaring_of_le records _ tail hnames (Int.le_of_eq hcount), hcount,
      Int.toNat_natCast, List.take_length]

/-- A name that needs two bytes of length, then an empty name, and a third record
that is not declared. -/
theorem decode_encodeDeclaring_two :
    (∀ record ∈ [Record.mk (List.replicate 200 0x6E) (-1), ⟨[], 7⟩, ⟨[], 8⟩],
      record.name.length < 2 ^ 31) ∧
    decode (encodeDeclaring 2 [⟨List.replicate 200 0x6E, -1⟩, ⟨[], 7⟩, ⟨[], 8⟩] ++ [0xFF]) =
      .ok ⟨[⟨List.replicate 200 0x6E, -1⟩, ⟨[], 7⟩]⟩ := by
  have hnames : ∀ record ∈ [Record.mk (List.replicate 200 0x6E) (-1), ⟨[], 7⟩, ⟨[], 8⟩],
      record.name.length < 2 ^ 31 := by
    simp only [List.forall_mem_cons, List.length_replicate]
    decide
  have hdecode := decode_encodeDeclaring _ 2 hnames (by decide)
  exact ⟨hnames, hdecode.2.1 (by decide) (by decide) [0xFF]⟩

end Table

end NamedBlobs
