import NamedBlobs.Proofs.Table.Dump
import NamedBlobs.Proofs.Text.Json

/-!
# What the JSON rendering says

The JSON rendering of a table spells one value, the array of the values of its records
(`Table.spells_json`), in which every record can be read. So the tables with one rendering
are those whose records are alike, and where all names are text there is one such table
(`Table.json_reads`).
-/

namespace NamedBlobs

namespace Record

/-- The value of a record: its lossy name and its identifier. -/
def jsonValue (record : Record) : Json :=
  .object [("name".toList, .string record.nameChars),
    ("identifier".toList, .number record.identifier.toInt 0)]

theorem jsonValue_eq_iff (a b : Record) : a.jsonValue = b.jsonValue ↔ a.Alike b := by
  constructor
  · intro h
    simp only [jsonValue, Json.object.injEq, List.cons.injEq, Prod.mk.injEq, Json.string.injEq,
      Json.number.injEq, true_and, and_true] at h
    exact ⟨h.1, Int64.toInt_inj.mp h.2⟩
  · rintro ⟨hname, hidentifier⟩
    rw [jsonValue, jsonValue, hname, hidentifier]

theorem jsonObject_congr {a b : Record} (h : a.Alike b) : a.jsonObject = b.jsonObject := by
  unfold jsonObject
  rw [h.nameChars_eq, h.identifier_eq]

/-- The object of a record behind its indentation. -/
theorem skip_jsonObject_append (record : Record) (rest : List Char) :
    Json.skip (record.jsonObject ++ rest) =
      '\x7b' :: ("\n    ".toList ++ (Quoted.wrap Quoted.jsonChar "name".toList ++ ':' :: ' ' ::
        (Quoted.wrap Quoted.jsonChar record.nameChars ++ ',' :: ("\n    ".toList ++
          (Quoted.wrap Quoted.jsonChar "identifier".toList ++ ':' :: ' ' ::
            (Numeral.integerChars record.identifier.toInt ++ '\n' :: ' ' :: ' ' :: '\x7d' ::
              rest)))))) := by
  unfold jsonObject
  simp [Json.skip, Json.isBlank, Quoted.wrap, Quoted.jsonChar]

/-- The object of a record is read as its value, whatever follows. -/
theorem reads_jsonObject (record : Record) (rest : List Char) :
    Json.Reads .value (Json.skip (record.jsonObject ++ rest)) record.jsonValue rest := by
  have hmember (name : List Char) {text rest : List Char} {value : Json}
      (h : Json.Reads .value (Json.skip text) value rest) :
      Json.Reads .member (Json.skip ("\n    ".toList ++
        (Quoted.wrap Quoted.jsonChar name ++ ':' :: text))) (.object [(name, value)]) rest :=
    .wrap_member name h
  have hname (rest : List Char) : Json.Reads .value
      (Json.skip (' ' :: (Quoted.wrap Quoted.jsonChar record.nameChars ++ rest)))
      (.string record.nameChars) rest := .wrap record.nameChars rest
  have hidentifier (rest : List Char) : Json.Reads .value
      (Json.skip (' ' :: (Numeral.integerChars record.identifier.toInt ++ '\n' :: rest)))
      (.number record.identifier.toInt 0) ('\n' :: rest) := by
    rw [Json.skip_cons_of_blank rfl, Json.skip_integerChars]
    exact .number (Json.number?_integerChars rfl _ rest)
  rw [skip_jsonObject_append]
  exact .object (.moreMembers (hmember _ (hname _)) rfl
    (.lastMember (hmember _ (hidentifier _)) rfl))

/-- The objects of records, with a comma between any two, are read as the items of an
array. -/
theorem reads_jsonObjects (first : Record) (others : List Record) (rest : List Char) :
    Json.Reads .items ('\n' :: (first.jsonObject ++
      (others.flatMap (fun record => ',' :: '\n' :: record.jsonObject) ++ '\n' :: ']' :: rest)))
      (.array (first.jsonValue :: others.map jsonValue)) rest := by
  induction others generalizing first with
  | nil => exact .lastItem (first.reads_jsonObject _) rfl
  | cons second others ih =>
      rw [List.flatMap_cons, List.append_assoc]
      exact .moreItems (first.reads_jsonObject _) rfl (ih second)

/-- The name of the record is text. -/
def IsText (record : Record) : Prop := ∃ text : String, record.name = Utf8.ofText text

instance (record : Record) : Decidable record.IsText :=
  decidable_of_iff _ (Utf8.isText_iff record.name)

/-- Text is its own lossy form, so it is all in what the record shows. -/
theorem Alike.eq {a b : Record} (h : a.Alike b) (ha : a.IsText) (hb : b.IsText) : a = b := by
  obtain ⟨hchars, hidentifier⟩ := h
  obtain ⟨text, htext⟩ := ha
  obtain ⟨text', htext'⟩ := hb
  rw [nameChars, nameChars, htext, htext', Utf8.chars_ofText, Utf8.chars_ofText,
    String.toList_inj] at hchars
  have hname : a.name = b.name := by rw [htext, htext', hchars]
  cases a
  cases b
  cases hname
  cases hidentifier
  rfl

theorem eq_of_forall₂_alike {records others : List Record} (h : List.Forall₂ Alike records others)
    (htext : ∀ record ∈ records, record.IsText) (htext' : ∀ record ∈ others, record.IsText) :
    records = others := by
  induction h with
  | nil => rfl
  | cons halike _ ih =>
      rw [List.forall_mem_cons] at htext htext'
      rw [halike.eq htext.1 htext'.1, ih htext.2 htext'.2]

end Record

namespace Table

theorem jsonChars_cons (first : Record) (others : List Record) :
    (Table.mk (first :: others)).jsonChars =
      '[' :: '\n' :: (first.jsonObject ++
        (others.flatMap (fun record => ',' :: '\n' :: record.jsonObject) ++ ['\n', ']'])) := by
  simp [jsonChars]

/-- The JSON rendering spells the array of the values of the records. -/
theorem spells_json (table : Table) :
    Json.Spells table.json.toList (.array (table.records.map Record.jsonValue)) := by
  obtain ⟨records⟩ := table
  rw [json, String.toList_ofList]
  cases records with
  | nil => exact ⟨[], .noItems rfl, rfl⟩
  | cons first others =>
      rw [jsonChars_cons]
      exact ⟨[], .array (first.reads_jsonObjects others []), rfl⟩

theorem json_congr {table other : Table}
    (h : List.Forall₂ Record.Alike table.records other.records) : table.json = other.json := by
  obtain ⟨records⟩ := table
  obtain ⟨records'⟩ := other
  cases h with
  | nil => rfl
  | cons hfirst hothers =>
      have hobjects := Record.flatMap_congr (f := fun record => ',' :: '\n' :: record.jsonObject)
        (fun a b halike => by rw [Record.jsonObject_congr halike]) hothers
      rw [json, json, jsonChars_cons, jsonChars_cons, Record.jsonObject_congr hfirst, hobjects]

/-- Every name of the table is text. -/
def IsText (table : Table) : Prop := ∀ record ∈ table.records, record.IsText

instance (table : Table) : Decidable table.IsText :=
  inferInstanceAs (Decidable (∀ record ∈ table.records, record.IsText))

/-- The JSON rendering of a table spells the array of the values of its records and no other
value. So tables have the same rendering if and only if their records are alike, and tables
whose names are text have the same rendering only if they are the same. -/
theorem json_reads (table : Table) :
    (∀ value, Json.Spells table.json.toList value ↔
      value = .array (table.records.map Record.jsonValue)) ∧
    (∀ other : Table, table.json = other.json ↔
      List.Forall₂ Record.Alike table.records other.records) ∧
    (∀ other : Table, table.IsText → other.IsText → (table.json = other.json ↔ table = other)) := by
  have halike (other : Table) : table.json = other.json ↔
      List.Forall₂ Record.Alike table.records other.records := by
    refine ⟨?_, json_congr⟩
    intro heq
    have hspells := table.spells_json
    rw [heq] at hspells
    have hitems := Json.array.inj (hspells.unique other.spells_json)
    exact (Record.map_eq_map_iff_alike Record.jsonValue_eq_iff _ _).mp hitems
  refine ⟨?_, halike, ?_⟩
  · intro value
    constructor
    · intro hspells
      exact hspells.unique table.spells_json
    · rintro rfl
      exact table.spells_json
  · intro other h h'
    constructor
    · intro heq
      have hrecords := Record.eq_of_forall₂_alike ((halike other).mp heq) h h'
      cases table
      cases other
      exact congrArg Table.mk hrecords
    · rintro rfl
      rfl

/-- A name with quotes and a comma in it, like what is between two members. -/
theorem json_reads_quotes :
    Json.Spells (Table.mk [⟨Utf8.ofText "\", \"", -1⟩]).json.toList
      (.array [.object [("name".toList, .string "\", \"".toList),
        ("identifier".toList, .number (-1) 0)]]) ∧
    (Table.mk [⟨Utf8.ofText "\", \"", -1⟩]).json ≠
      (Table.mk [⟨Utf8.ofText "", -1⟩, ⟨Utf8.ofText "", -1⟩]).json := by
  obtain ⟨hspells, -, htext⟩ := json_reads ⟨[⟨Utf8.ofText "\", \"", -1⟩]⟩
  constructor
  · refine (hspells _).mpr ?_
    simp only [List.map_cons, List.map_nil, Record.jsonValue, Record.nameChars, Utf8.chars_ofText]
    rfl
  · intro heq
    have htables := (htext ⟨[⟨Utf8.ofText "", -1⟩, ⟨Utf8.ofText "", -1⟩]⟩
      (List.forall_mem_singleton.mpr ⟨_, rfl⟩)
      (List.forall_mem_cons.mpr ⟨⟨_, rfl⟩, List.forall_mem_singleton.mpr ⟨_, rfl⟩⟩)).mp heq
    exact absurd (congrArg (fun table => table.records.length) htables) (by decide)

end Table

end NamedBlobs
