import Mathlib.Data.List.Nodup
import Mathlib.Data.List.Perm.Subperm
import NamedBlobs.Proofs.Table.RoundTrip
import NamedBlobs.Proofs.Table.Search

/-!
# The laws of first-match lookups

The record that is found under a name is the one of least index that has exactly this
name. So appending a table adds names and changes no name that was there
(`Table.find_append`), a record behind another one of its name can be deleted
(`Table.find_eraseIdx`), and where all names differ the order of the records does not
matter (`Table.find_perm`).

`Table.FirstMatch` states these laws of any way to look a name up in what is made of a
list of records. They hold of a table, and of the table that comes back from the
encoded records.
-/

namespace NamedBlobs

namespace Table

/-- The record at the index has the name, and none at a smaller index does. -/
def FirstAt (records : List Record) (name : Bytes) (index : Nat) (record : Record) : Prop :=
  records[index]? = some record ∧ record.name = name ∧
    ∀ earlier < index, ∀ other, records[earlier]? = some other → other.name ≠ name

/-- The first record of a name is the one of least index. -/
theorem first_iff_exists_firstAt {table : Table} {name : Bytes} {record : Record} :
    table.First name record ↔ ∃ index, FirstAt table.records name index record := by
  constructor
  · rintro ⟨before, after, hrecords, hname, hbefore⟩
    refine ⟨before.length, by simp [hrecords], hname, ?_⟩
    intro earlier hearlier other hother
    rw [hrecords, List.getElem?_append_left hearlier] at hother
    exact hbefore other (List.mem_of_getElem? hother)
  · rintro ⟨index, hrecord, hname, hfirst⟩
    obtain ⟨hindex, hget⟩ := List.getElem?_eq_some_iff.mp hrecord
    refine ⟨table.records.take index, table.records.drop (index + 1), ?_, hname, ?_⟩
    · rw [← hget, List.getElem_cons_drop hindex, List.take_append_drop]
    · intro earlier hmem
      obtain ⟨place, hplace, rfl⟩ := List.mem_take_iff_getElem.mp hmem
      exact hfirst place (by omega) _ (List.getElem?_eq_getElem (by omega))

/-- A name is looked for behind the first records only if it is not among them. -/
theorem find_append (first second : List Record) (name : Bytes) :
    find ⟨first ++ second⟩ name = (find ⟨first⟩ name).or (find ⟨second⟩ name) :=
  List.find?_append

/-- A record is not found if one in front of it has its name. -/
theorem find_append_cons {before after : List Record} {earlier record : Record}
    (hmem : earlier ∈ before) (hsame : earlier.name = record.name) (name : Bytes) :
    find ⟨before ++ record :: after⟩ name = find ⟨before ++ after⟩ name := by
  rw [find_append, find_append]
  by_cases hname : record.name = name
  · have hfound : find ⟨before⟩ name ≠ none := fun hnone =>
      find_eq_none_iff.mp hnone earlier hmem (hsame.trans hname)
    obtain ⟨found, hfound⟩ := Option.ne_none_iff_exists'.mp hfound
    rw [hfound, Option.some_or, Option.some_or]
  · have hskip : find ⟨record :: after⟩ name = find ⟨after⟩ name :=
      List.find?_cons_of_neg (by simpa using hname)
    rw [hskip]

/-- Deleting a record behind another one of its name changes no lookup. -/
theorem find_eraseIdx {records : List Record} {earlier later : Nat} {first record : Record}
    (hlt : earlier < later) (hfirst : records[earlier]? = some first)
    (hrecord : records[later]? = some record) (hsame : first.name = record.name)
    (name : Bytes) : find ⟨records.eraseIdx later⟩ name = find ⟨records⟩ name := by
  obtain ⟨hlater, hget⟩ := List.getElem?_eq_some_iff.mp hrecord
  have hmem : first ∈ records.take later := by
    rw [← List.getElem?_take_of_lt hlt] at hfirst
    exact List.mem_of_getElem? hfirst
  have hsplit : records = records.take later ++ record :: records.drop (later + 1) := by
    rw [← hget, List.getElem_cons_drop hlater, List.take_append_drop]
  calc
    find ⟨records.eraseIdx later⟩ name
      = find ⟨records.take later ++ records.drop (later + 1)⟩ name := by
        rw [List.eraseIdx_eq_take_drop_succ]
    _ = find ⟨records.take later ++ record :: records.drop (later + 1)⟩ name :=
        (find_append_cons hmem hsame name).symm
    _ = find ⟨records⟩ name := by rw [← hsplit]

/-- Where all names differ, the only record of a name is found. -/
theorem find_eq_some_iff_mem {records : List Record}
    (hnames : (records.map Record.name).Nodup) {name : Bytes} {record : Record} :
    find ⟨records⟩ name = some record ↔ record ∈ records ∧ record.name = name := by
  constructor
  · intro hfind
    obtain ⟨before, after, rfl, hname, -⟩ := find_eq_some_iff.mp hfind
    exact ⟨List.mem_append_right before List.mem_cons_self, hname⟩
  · rintro ⟨hmem, hname⟩
    rcases hfind : find ⟨records⟩ name with _ | found
    · exact absurd hname (find_eq_none_iff.mp hfind record hmem)
    · obtain ⟨before, after, rfl, hfound, -⟩ := find_eq_some_iff.mp hfind
      have hmem' : found ∈ before ++ found :: after :=
        List.mem_append_right before List.mem_cons_self
      rw [List.inj_on_of_nodup_map hnames hmem' hmem (hfound.trans hname.symm)]

/-- Where all names differ, records in another order answer every lookup alike. -/
theorem find_perm {records other : List Record} (hperm : records.Perm other)
    (hnames : (records.map Record.name).Nodup) (name : Bytes) :
    find ⟨other⟩ name = find ⟨records⟩ name := by
  have hnames' : (other.map Record.name).Nodup := (hperm.map Record.name).nodup_iff.mp hnames
  ext record
  rw [find_eq_some_iff_mem hnames, find_eq_some_iff_mem hnames', hperm.mem_iff]

/-- Looking a name up in what is made of a list of records, and taking a part of what is
found, follows the first record of the name. The lists are those that `among` admits. -/
structure FirstMatch {α : Type} (among : List Record → Prop) (part : Record → α)
    (look : List Record → Bytes → Except DecodeError (Option α)) : Prop where
  /-- The record of least index with exactly this name is found. -/
  some_iff {records : List Record} (h : among records) (name : Bytes) (value : α) :
    look records name = .ok (some value) ↔
      ∃ index record, FirstAt records name index record ∧ part record = value
  /-- Nothing is found if and only if no record has exactly this name. -/
  none_iff {records : List Record} (h : among records) (name : Bytes) :
    look records name = .ok none ↔ ∀ record ∈ records, record.name ≠ name
  /-- Records that are appended are found only under names that were not there. -/
  append {first second : List Record} (h : among (first ++ second)) (name : Bytes) :
    (∀ value, look first name = .ok (some value) →
      look (first ++ second) name = .ok (some value)) ∧
    (look first name = .ok none → look (first ++ second) name = look second name)
  /-- A record with an earlier one of its name can be deleted. -/
  eraseIdx {records : List Record} (h : among records) {earlier later : Nat}
    {first record : Record} (hlt : earlier < later) (hfirst : records[earlier]? = some first)
    (hrecord : records[later]? = some record) (hsame : first.name = record.name)
    (name : Bytes) : look (records.eraseIdx later) name = look records name
  /-- Records whose names all differ can be reordered. -/
  perm {records other : List Record} (h : among records) (hperm : records.Perm other)
    (hnames : (records.map Record.name).Nodup) (name : Bytes) :
    look other name = look records name

/-- A lookup has the laws if it takes its part of what `find` finds. -/
theorem FirstMatch.of_find {α : Type} {among : List Record → Prop} {part : Record → α}
    {look : List Record → Bytes → Except DecodeError (Option α)}
    (hamong : ∀ {records other : List Record}, other.Subperm records → among records →
      among other)
    (hlook : ∀ {records : List Record}, among records → ∀ name,
      look records name = .ok ((find ⟨records⟩ name).map part)) :
    FirstMatch among part look where
  some_iff {records} h name value := by
    rw [hlook h, Except.ok.injEq, Option.map_eq_some_iff]
    simp only [find_eq_some_iff, first_iff_exists_firstAt]
    constructor
    · rintro ⟨record, ⟨index, hfirst⟩, hpart⟩
      exact ⟨index, record, hfirst, hpart⟩
    · rintro ⟨index, record, hfirst, hpart⟩
      exact ⟨record, ⟨index, hfirst⟩, hpart⟩
  none_iff {records} h name := by
    rw [hlook h, Except.ok.injEq, Option.map_eq_none_iff, find_eq_none_iff]
  append {first second} h name := by
    have hfirst : among first := hamong (List.sublist_append_left first second).subperm h
    have hsecond : among second := hamong (List.sublist_append_right first second).subperm h
    rw [hlook h, hlook hfirst, hlook hsecond, find_append]
    cases find ⟨first⟩ name <;> simp
  eraseIdx {records} h {earlier later first record} hlt hfirst hrecord hsame name := by
    have hrest := hamong (List.eraseIdx_sublist records later).subperm h
    rw [hlook h, hlook hrest, find_eraseIdx hlt hfirst hrecord hsame]
  perm {records other} h hperm hnames name := by
    rw [hlook h, hlook (hamong hperm.symm.subperm h), find_perm hperm hnames]

/-- Records that can be encoded: a length is large enough for every name, and the count
for all of them. -/
structure Writable (records : List Record) : Prop where
  name_lt : ∀ record ∈ records, record.name.length < 2 ^ 31
  length_lt : records.length < 2 ^ 31

/-- Some of the records, in any order, can be encoded too. -/
theorem Writable.of_subperm {records other : List Record} (hsub : other.Subperm records)
    (h : Writable records) : Writable other where
  name_lt record hmem := h.name_lt record (hsub.subset hmem)
  length_lt := Nat.lt_of_le_of_lt hsub.length_le h.length_lt

theorem Writable.decode_eq {records : List Record} (h : Writable records) :
    decode (encode ⟨records⟩) = .ok ⟨records⟩ :=
  decode_encode records h.name_lt h.length_lt

/-- Lookups of a record and of an identifier have the laws of the first match, in the
table of any records and in the table that is decoded from records that were encoded. -/
theorem firstMatch_lookups :
    FirstMatch (fun _ => True) id (fun records name => .ok (find ⟨records⟩ name)) ∧
    FirstMatch (fun _ => True) Record.identifier
      (fun records name => .ok (identifierOf ⟨records⟩ name)) ∧
    FirstMatch Writable id
      (fun records name => (decode (encode ⟨records⟩)).map (find · name)) ∧
    FirstMatch Writable Record.identifier
      (fun records name => (decode (encode ⟨records⟩)).map (identifierOf · name)) := by
  refine ⟨.of_find (fun _ _ => trivial) ?_, .of_find (fun _ _ => trivial) ?_,
    .of_find Writable.of_subperm ?_, .of_find Writable.of_subperm ?_⟩
  · intro records _ name
    rw [Option.map_id, id_eq]
  · intro records _ name
    rfl
  · intro records h name
    rw [h.decode_eq, Option.map_id]
    rfl
  · intro records h name
    rw [h.decode_eq]
    rfl

/-- A name in small and in capital letters and the beginning of a third one. The last
record can be deleted, and what is left can be turned round. -/
theorem firstMatch_lookups_letters :
    Writable [⟨[0x61], 1⟩, ⟨[0x41], 2⟩, ⟨[0x61, 0x62], 3⟩, ⟨[0x61], 4⟩] ∧
    (decode (encode ⟨[⟨[0x61, 0x62], 3⟩, ⟨[0x41], 2⟩, ⟨[0x61], 1⟩]⟩)).map
        (identifierOf · [0x61]) =
      (decode (encode ⟨[⟨[0x61], 1⟩, ⟨[0x41], 2⟩, ⟨[0x61, 0x62], 3⟩, ⟨[0x61], 4⟩]⟩)).map
        (identifierOf · [0x61]) ∧
    (decode (encode ⟨[⟨[0x61], 1⟩, ⟨[0x41], 2⟩, ⟨[0x61, 0x62], 3⟩, ⟨[0x61], 4⟩]⟩)).map
        (identifierOf · [0x61]) = .ok (some 1) := by
  have hall : Writable [⟨[0x61], 1⟩, ⟨[0x41], 2⟩, ⟨[0x61, 0x62], 3⟩, ⟨[0x61], 4⟩] :=
    ⟨by simp, by simp⟩
  have hfront : Writable [⟨[0x61], 1⟩, ⟨[0x41], 2⟩, ⟨[0x61, 0x62], 3⟩] :=
    ⟨by simp, by simp⟩
  obtain ⟨-, -, -, hlaws⟩ := firstMatch_lookups
  have hdeleted := hlaws.eraseIdx hall (Nat.zero_lt_succ 2) rfl rfl rfl [0x61]
  have hturned := hlaws.perm hfront (List.reverse_perm _).symm (by decide) [0x61]
  refine ⟨hall, hturned.trans hdeleted, (hlaws.some_iff hall [0x61] 1).mpr ?_⟩
  exact ⟨0, ⟨[0x61], 1⟩, ⟨rfl, rfl, by simp⟩, rfl⟩

end Table

end NamedBlobs
