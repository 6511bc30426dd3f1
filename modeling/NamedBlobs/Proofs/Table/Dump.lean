import Mathlib.Data.List.Forall2
import Mathlib.Data.List.TakeDrop
import NamedBlobs.Proofs.Text.Numeral
import NamedBlobs.Proofs.Text.Utf8
import NamedBlobs.Table.Dump

/-!
# Reading tables back from their text

Records are alike (`Record.Alike`) if they have the same lossy name and the same
identifier, which is all that a rendering shows of them.

Where no name has a line feed in it, the plain rendering is split at the line feeds into
the lines of the records, and each line at its first tab into the identifier and the name
(`Table.plain_reads`).
-/

namespace NamedBlobs

namespace Record

/-- The records have the same lossy name and the same identifier. -/
structure Alike (a b : Record) : Prop where
  nameChars_eq : a.nameChars = b.nameChars
  identifier_eq : a.identifier = b.identifier

/-- What tells apart just the records that are not alike does so for lists of records. -/
theorem map_eq_map_iff_alike {α : Type} {f : Record → α} (hf : ∀ a b, f a = f b ↔ a.Alike b)
    (records others : List Record) :
    records.map f = others.map f ↔ List.Forall₂ Alike records others := by
  have hforall : List.Forall₂ (fun a b => f a = f b) records others ↔
      List.Forall₂ Eq (records.map f) (others.map f) := by
    rw [List.forall₂_map_left_iff, List.forall₂_map_right_iff]
  rw [← List.forall₂_eq_eq_eq, ← hforall]
  simp only [hf]

theorem flatMap_congr {f : Record → List Char} (hf : ∀ a b, a.Alike b → f a = f b)
    {records others : List Record} (h : List.Forall₂ Alike records others) :
    records.flatMap f = others.flatMap f := by
  induction h with
  | nil => rfl
  | cons halike _ ih => rw [List.flatMap_cons, List.flatMap_cons, hf _ _ halike, ih]

/-- The line of a record without the line feed at its end. -/
def plainColumns (record : Record) : List Char :=
  (toString record.identifier.toInt).toList ++ '\t' :: record.nameChars

theorem plainLine_eq (record : Record) : record.plainLine = record.plainColumns ++ ['\n'] := by
  rw [plainLine, plainColumns, Numeral.toList_toString]

theorem span_plainColumns (record : Record) :
    record.plainColumns.span (· != '\t') =
      ((toString record.identifier.toInt).toList, '\t' :: record.nameChars) := by
  have hdigits : ∀ c ∈ (toString record.identifier.toInt).toList, (c != '\t') = true := by
    intro c hc
    rw [Numeral.toList_toString] at hc
    rw [bne_iff_ne]
    rintro rfl
    exact Numeral.notMem_integerChars rfl (by decide) _ hc
  rw [List.span_eq_takeWhile_dropWhile, plainColumns, List.takeWhile_append_of_pos hdigits,
    List.dropWhile_append_of_pos hdigits]
  simp

theorem plainColumns_eq_iff (a b : Record) : a.plainColumns = b.plainColumns ↔ a.Alike b := by
  constructor
  · intro h
    have hspan := congrArg (List.span (· != '\t')) h
    rw [span_plainColumns, span_plainColumns, Prod.mk.injEq, List.cons.injEq,
      Numeral.toList_toString, Numeral.toList_toString] at hspan
    obtain ⟨hdigits, -, hname⟩ := hspan
    exact ⟨hname, Int64.toInt_inj.mp (Numeral.integerChars_injective hdigits)⟩
  · rintro ⟨hname, hidentifier⟩
    rw [plainColumns, plainColumns, hname, hidentifier]

theorem plainLine_eq_iff (a b : Record) : a.plainLine = b.plainLine ↔ a.Alike b := by
  rw [plainLine_eq, plainLine_eq, List.append_cancel_right_eq, plainColumns_eq_iff]

theorem lineFeed_notMem_plainColumns {record : Record} (h : '\n' ∉ record.nameChars) :
    '\n' ∉ record.plainColumns := by
  rw [plainColumns, Numeral.toList_toString, List.mem_append, List.mem_cons, not_or, not_or]
  exact ⟨Numeral.notMem_integerChars rfl (by decide) _, by decide, h⟩

/-- The lines of records are split at their line feeds; nothing is behind the last. -/
theorem splitOn_flatMap_plainLine {records : List Record}
    (h : ∀ record ∈ records, '\n' ∉ record.nameChars) :
    (records.flatMap plainLine).splitOn '\n' = records.map plainColumns ++ [[]] := by
  induction records with
  | nil => rfl
  | cons record records ih =>
      have hrecord : ∀ c ∈ record.plainColumns, (c == '\n') = false := by
        intro c hc
        rw [beq_eq_false_iff_ne]
        rintro rfl
        exact lineFeed_notMem_plainColumns (h record List.mem_cons_self) hc
      have hrest := ih fun other hother => h other (List.mem_cons_of_mem record hother)
      rw [List.splitOn_eq_splitOnP] at hrest ⊢
      rw [List.flatMap_cons, plainLine_eq, List.append_assoc, List.singleton_append,
        List.splitOnP_append_cons_of_forall_mem hrecord '\n' (by simp), hrest, List.map_cons,
        List.cons_append]

end Record

namespace Table

/-- No lossy name of the table has a line feed in it. -/
def SingleLine (table : Table) : Prop := ∀ record ∈ table.records, '\n' ∉ record.nameChars

theorem splitOn_plain {table : Table} (h : table.SingleLine) :
    table.plain.toList.splitOn '\n' = table.records.map Record.plainColumns ++ [[]] := by
  rw [plain, String.toList_ofList, plainChars]
  exact Record.splitOn_flatMap_plainLine h

theorem plain_congr {table other : Table}
    (h : List.Forall₂ Record.Alike table.records other.records) : table.plain = other.plain := by
  have hlines := Record.flatMap_congr (fun a b => (Record.plainLine_eq_iff a b).mpr) h
  rw [plain, plain, plainChars, plainChars, hlines]

/-- The plain rendering has a line for each record, with the identifier up to the first
tab and the lossy name behind it, and nothing behind the last line, if no name has a line
feed in it. So tables with such names have the same rendering if and only if their records
are alike. Whatever the names, tables one behind the other are rendered so. -/
theorem plain_reads (table other : Table) :
    (table.SingleLine → ∃ lines, table.plain.toList.splitOn '\n' = lines ++ [[]] ∧
      lines.map (List.span (· != '\t')) = table.records.map fun record =>
        ((toString record.identifier.toInt).toList, '\t' :: record.nameChars)) ∧
    (table.SingleLine → other.SingleLine →
      (table.plain = other.plain ↔ List.Forall₂ Record.Alike table.records other.records)) ∧
    (Table.mk (table.records ++ other.records)).plain = table.plain ++ other.plain := by
  refine ⟨?_, ?_, ?_⟩
  · intro h
    refine ⟨_, splitOn_plain h, ?_⟩
    rw [List.map_map]
    exact List.map_congr_left fun record _ => record.span_plainColumns
  · intro h h'
    refine ⟨?_, plain_congr⟩
    intro heq
    have hlines := congrArg (fun text : String => text.toList.splitOn '\n') heq
    simp only [splitOn_plain h, splitOn_plain h', List.append_cancel_right_eq] at hlines
    exact (Record.map_eq_map_iff_alike Record.plainColumns_eq_iff _ _).mp hlines
  · simp only [plain, plainChars, List.flatMap_append, String.ofList_append]

/-- Tabs and a carriage return in a name, and an empty name. -/
theorem plain_reads_tabs :
    (∃ lines,
      (Table.mk [⟨Utf8.ofAscii ['\t', 'a', '\r'], -7⟩, ⟨[], 0⟩]).plain.toList.splitOn '\n' =
        lines ++ [[]] ∧
      lines.map (List.span (· != '\t')) =
        [(['-', '7'], ['\t', '\t', 'a', '\r']), (['0'], ['\t'])]) ∧
    (Table.mk [⟨Utf8.ofAscii ['\t', 'a', '\r'], -7⟩, ⟨[], 0⟩]).plain ≠
      (Table.mk [⟨[], 0⟩, ⟨Utf8.ofAscii ['\t', 'a', '\r'], -7⟩]).plain := by
  have hchars : Utf8.chars (Utf8.ofAscii ['\t', 'a', '\r']) = ['\t', 'a', '\r'] :=
    Utf8.chars_ofAscii (by simp)
  have hempty : Utf8.chars [] = [] := by simp [Utf8.chars]
  have hsingle :
      (Table.mk [⟨Utf8.ofAscii ['\t', 'a', '\r'], -7⟩, ⟨[], 0⟩]).SingleLine := by
    simp [SingleLine, Record.nameChars, hchars, hempty]
  have hswapped :
      (Table.mk [⟨[], 0⟩, ⟨Utf8.ofAscii ['\t', 'a', '\r'], -7⟩]).SingleLine := by
    simp [SingleLine, Record.nameChars, hchars, hempty]
  obtain ⟨hlines, hiff, -⟩ := plain_reads
    ⟨[⟨Utf8.ofAscii ['\t', 'a', '\r'], -7⟩, ⟨[], 0⟩]⟩
    ⟨[⟨[], 0⟩, ⟨Utf8.ofAscii ['\t', 'a', '\r'], -7⟩]⟩
  constructor
  · obtain ⟨lines, hsplit, hspans⟩ := hlines hsingle
    refine ⟨lines, hsplit, ?_⟩
    rw [hspans]
    simp only [List.map_cons, List.map_nil, Record.nameChars, hchars, hempty]
    rfl
  · intro heq
    cases (hiff hsingle hswapped).mp heq with
    | cons halike _ =>
        have hname := halike.nameChars_eq
        rw [Record.nameChars, Record.nameChars, hchars, hempty] at hname
        cases hname

end Table

end NamedBlobs
