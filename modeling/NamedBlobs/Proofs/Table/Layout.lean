import NamedBlobs.Proofs.Table.Defect

/-!
# Layouts

A `Layout` of a byte string divides it into four bytes of count, as many entries
as the count declares, and a tail. Decoding follows the layout: it reads the
entries one after the other and stops behind the last (`Layout.decoding_eq`). A
byte string has one layout at most, and one that is long enough for a count but
has no layout comes to a record with a flaw (`layout_or_firstDefect`). So the tables
that are accepted, and the bytes they are accepted from, are exactly those of
the layouts.
-/

namespace NamedBlobs

namespace Table

/-- The count that the first four bytes declare. -/
def declared (data : Bytes) : Int32 :=
  Int32.ofInt (FixedWidth.i32.decode (data.take countSize))

/-- The number of records that are read: a negative count declares none. -/
def declaredRecords (data : Bytes) : Nat := (declared data).toInt.toNat

/-- A division of a byte string into a count, entries and a tail. -/
structure Layout (data : Bytes) where
  head : Bytes
  entries : List Entry
  tail : Bytes
  data_eq : data = head ++ entries.flatMap Entry.bytes ++ tail
  length_head : head.length = countSize
  length_entries : entries.length = declaredRecords data

theorem declared_append (data extension : Bytes) (h : countSize ≤ data.length) :
    declared (data ++ extension) = declared data := by
  rw [declared, declared, List.take_append_of_le_length h]

theorem declaredRecords_append (data extension : Bytes) (h : countSize ≤ data.length) :
    declaredRecords (data ++ extension) = declaredRecords data := by
  rw [declaredRecords, declaredRecords, declared_append data extension h]

/-- Reading records passes over the entries that stand there. -/
theorem scan_append (entries : List Entry) (count : Nat) (held : Array Record)
    (rest : Bytes) (position : Nat) :
    scan (entries.length + count) held ⟨position, entries.flatMap Entry.bytes ++ rest⟩ =
      scan count (held ++ (entries.map Entry.record).toArray)
        ⟨position + (entries.flatMap Entry.bytes).length, rest⟩ := by
  induction entries generalizing held position with
  | nil => simp
  | cons entry entries ih =>
      have hread : Record.decoder ⟨position, entry.bytes ++
          (entries.flatMap Entry.bytes ++ rest)⟩ =
          .ok entry.record ⟨position + entry.bytes.length,
            entries.flatMap Entry.bytes ++ rest⟩ :=
        Record.run_decoder_entry entry _ position
      have hcount : (entry :: entries).length + count = entries.length + count + 1 := by
        rw [List.length_cons]
        omega
      have hheld : held.push entry.record ++ (entries.map Entry.record).toArray =
          held ++ ((entry :: entries).map Entry.record).toArray := by
        apply Array.toList_inj.mp
        simp
      rw [hcount, List.flatMap_cons, List.append_assoc, scan, hread]
      simp only [ih, hheld, List.length_append, Nat.add_assoc]

theorem decoding_of_lt (data : Bytes) (h : data.length < countSize) :
    decoding data = .short data.length := by
  have hread : Decoder.int32 (Reader.ofBytes data) =
      .error (.truncated 0 4 data.length) (Reader.ofBytes data) :=
    Decoder.run_map_fixed_of_lt Int32.ofInt .i32 h
  rw [decoding, hread]

/-- The count is read where there is room for one. -/
theorem int32_ofBytes (data : Bytes) (h : countSize ≤ data.length) :
    Decoder.int32 (Reader.ofBytes data) =
      .ok (declared data) (Reader.startingAt data countSize) := by
  have htake : (data.take countSize).length = FixedWidth.i32.size := by
    rw [List.length_take]
    exact Nat.min_eq_left h
  have hrun := Decoder.run_map_fixed_append Int32.ofInt .i32 (data.take countSize)
    (data.drop countSize) 0 htake
  rw [List.take_append_drop, Nat.zero_add] at hrun
  exact hrun

theorem decoding_of_le (data : Bytes) (h : countSize ≤ data.length) :
    decoding data = .counted (declared data)
      (scan (declaredRecords data) #[] (Reader.startingAt data countSize)) := by
  rw [decoding, int32_ofBytes data h, declaredRecords]
  simp only [Array.emptyWithCapacity_eq]

/-- The position that decoding stops at. -/
def consumed (data : Bytes) : Nat :=
  match decoding data with
  | .short _ => 0
  | .counted _ scan => scan.reader.position

namespace Layout

variable {data : Bytes}

/-- The table that a layout spells. -/
def table (layout : Layout data) : Table := ⟨layout.entries.map Entry.record⟩

/-- The number of bytes in front of the tail. -/
def size (layout : Layout data) : Nat :=
  countSize + (layout.entries.flatMap Entry.bytes).length

theorem countSize_le (layout : Layout data) : countSize ≤ data.length := by
  have hlength := congrArg List.length layout.data_eq
  rw [List.append_assoc, List.length_append, layout.length_head] at hlength
  omega

theorem drop_countSize (layout : Layout data) :
    data.drop countSize = layout.entries.flatMap Entry.bytes ++ layout.tail := by
  have hdrop := congrArg (List.drop countSize) layout.data_eq
  rw [List.append_assoc, List.drop_left' layout.length_head] at hdrop
  exact hdrop

/-- Decoding reads the entries of a layout and stops behind the last of them. -/
theorem decoding_eq (layout : Layout data) :
    decoding data = .counted (declared data)
      ⟨layout.table.records.toArray, ⟨layout.size, layout.tail⟩, none⟩ := by
  have hscan := scan_append layout.entries 0 #[] layout.tail countSize
  rw [Nat.add_zero, layout.length_entries, ← layout.drop_countSize] at hscan
  rw [decoding_of_le data layout.countSize_le, Reader.startingAt, hscan]
  simp only [scan, Array.empty_append]
  rfl

theorem decode_eq (layout : Layout data) : decode data = .ok layout.table := by
  rw [decode, layout.decoding_eq, Decoding.result]

theorem consumed_eq (layout : Layout data) : consumed data = layout.size := by
  rw [consumed, layout.decoding_eq]

theorem size_add_length_tail (layout : Layout data) :
    layout.size + layout.tail.length = data.length := by
  have hlength := congrArg List.length layout.data_eq
  rw [List.length_append, List.length_append, layout.length_head] at hlength
  exact hlength.symm

/-- The bytes in front of the tail have the same layout with any other tail. -/
theorem exists_of_eq_append (layout : Layout data) (data' tail : Bytes)
    (h : data' = layout.head ++ layout.entries.flatMap Entry.bytes ++ tail) :
    ∃ layout' : Layout data', layout'.entries = layout.entries := by
  have hle : countSize ≤ layout.head.length := Nat.le_of_eq layout.length_head.symm
  have hdata := congrArg declaredRecords layout.data_eq
  have hrecords : declaredRecords data' = declaredRecords data := by
    rw [List.append_assoc, declaredRecords_append _ _ hle] at hdata
    rw [h, List.append_assoc, declaredRecords_append _ _ hle, hdata]
  exact ⟨⟨layout.head, layout.entries, tail, h, layout.length_head,
    layout.length_entries.trans hrecords.symm⟩, rfl⟩

theorem exists_append (layout : Layout data) (extension : Bytes) :
    ∃ layout' : Layout (data ++ extension), layout'.entries = layout.entries := by
  refine layout.exists_of_eq_append _ (layout.tail ++ extension) ?_
  rw [← List.append_assoc, ← layout.data_eq]

theorem exists_take (layout : Layout data) (length : Nat) (h : layout.size ≤ length) :
    ∃ layout' : Layout (data.take length), layout'.entries = layout.entries := by
  refine layout.exists_of_eq_append _ (layout.tail.take (length - layout.size)) ?_
  have hfront : (layout.head ++ layout.entries.flatMap Entry.bytes).length = layout.size := by
    rw [List.length_append, layout.length_head, size]
  have hle : (layout.head ++ layout.entries.flatMap Entry.bytes).length ≤ length := by
    rw [hfront]
    exact h
  have htake := congrArg (List.take length) layout.data_eq
  rw [List.take_append, hfront, List.take_of_length_le hle] at htake
  exact htake

/-- A byte string has one layout at most. -/
theorem unique (layout layout' : Layout data) : layout = layout' := by
  have hlength : layout.entries.length = layout'.entries.length := by
    rw [layout.length_entries, layout'.length_entries]
  have hsplit := layout.drop_countSize.symm.trans layout'.drop_countSize
  obtain ⟨hentries, htail⟩ := Entry.flatMap_bytes_inj hlength hsplit
  have hhead : layout.head = layout'.head := by
    have heq := layout.data_eq.symm.trans layout'.data_eq
    rw [List.append_assoc, List.append_assoc] at heq
    exact (List.append_inj heq (by rw [layout.length_head, layout'.length_head])).1
  cases layout
  cases layout'
  simp only at hhead hentries htail
  simp only [hhead, hentries, htail]

end Layout

end Table

end NamedBlobs
