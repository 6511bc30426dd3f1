import NamedBlobs.Proofs.SevenBit.Strings
import NamedBlobs.Proofs.SevenBit.Written
import NamedBlobs.Table.Basic

/-!
# Entries

An `Entry` is one spelling of a record: a complete sequence of groups that
stands for the length of the name, the name, and the eight bytes of the
identifier. A record has many entries, since its length may be written with
more groups than it needs or with bits beyond the 32nd; `Entry.ofRecord` is the
one that is written.

Reading an entry gives its record and stops behind it. A byte string opens with
one entry at most (`Entry.eq_of_append_eq`), and so it opens with one list of
entries of a given length at most. `Entry.Occupy` places a list of entries
within a byte string.
-/

namespace NamedBlobs

/-- A spelling of a record, as the bytes of its three parts. -/
@[ext] structure Entry where
  groups : Bytes
  name : Bytes
  word : Bytes
  complete : SevenBit.Complete groups
  payload_eq : SevenBit.payload groups % 2 ^ 32 = name.length
  length_lt : name.length < 2 ^ 31
  length_word : word.length = 8

namespace Entry

/-- The bytes of an entry. -/
def bytes (entry : Entry) : Bytes := entry.groups ++ entry.name ++ entry.word

/-- The record that an entry spells. -/
def record (entry : Entry) : Record :=
  ⟨entry.name, Int64.ofInt (FixedWidth.i64.decode entry.word)⟩

theorem length_bytes (entry : Entry) :
    entry.bytes.length = entry.groups.length + entry.name.length + 8 := by
  rw [bytes, List.length_append, List.length_append, entry.length_word]

theorem toInt_value (entry : Entry) :
    (SevenBit.value entry.groups).toInt = entry.name.length := by
  have hlt : SevenBit.payload entry.groups % 2 ^ 32 < 2 ^ 31 := by
    rw [entry.payload_eq]
    exact entry.length_lt
  rw [SevenBit.toInt_value_of_lt entry.groups hlt, entry.payload_eq]

/-- The entry of a complete sequence, the name that it announces, and eight
bytes. -/
def ofParts (groups name word : Bytes) (complete : SevenBit.Complete groups)
    (value_eq : (SevenBit.value groups).toInt = name.length)
    (length_word : word.length = 8) : Entry where
  groups := groups
  name := name
  word := word
  complete := complete
  payload_eq := by
    have hsmall : ¬ 2 ^ 31 ≤ SevenBit.payload groups % 2 ^ 32 := by
      rw [← SevenBit.value_neg_iff, value_eq]
      omega
    rw [SevenBit.toInt_value_of_lt groups (by omega)] at value_eq
    exact_mod_cast value_eq
  length_lt := by
    have hbound : (SevenBit.value groups).toInt < 2 ^ 31 := (SevenBit.value groups).toInt_lt
    omega
  length_word := length_word

/-- The entry that is written for a record. -/
def ofRecord (record : Record) (h : record.name.length < 2 ^ 31) : Entry :=
  ofParts (SevenBit.encode (Int32.ofNat record.name.length)) record.name
    (FixedWidth.i64.encode record.identifier.toInt)
    (SevenBit.complete_encode (Int32.ofNat record.name.length))
    (by rw [SevenBit.value_encode, Int32.toInt_ofNat_of_lt h])
    (FixedWidth.length_encode .i64 record.identifier.toInt)

@[simp] theorem bytes_ofRecord (record : Record) (h : record.name.length < 2 ^ 31) :
    (ofRecord record h).bytes = record.encode := rfl

@[simp] theorem record_ofRecord (record : Record) (h : record.name.length < 2 ^ 31) :
    (ofRecord record h).record = record := by
  rw [Entry.record]
  exact congrArg (Record.mk record.name)
    (FixedWidth.ofInt_decode_encode_i64 record.identifier)

end Entry

namespace Record

theorem run_decoder_of_error {reader reader' : Reader} {failure : DecodeError}
    (h : Decoder.string.run reader = .error failure reader') :
    decoder.run reader = .error failure reader' := by
  rw [decoder, Decoder.run_bind_of_error h]

/-- Reading an entry gives its record. -/
theorem run_decoder_entry (entry : Entry) (rest : Bytes) (position : Nat) :
    decoder.run ⟨position, entry.bytes ++ rest⟩ =
      .ok entry.record ⟨position + entry.bytes.length, rest⟩ := by
  have hname := Decoder.run_string_append entry.groups entry.name (entry.word ++ rest) position
    entry.complete entry.toInt_value
  have hword := Decoder.run_map_fixed_append Int64.ofInt .i64 entry.word rest
    (position + entry.groups.length + entry.name.length) entry.length_word
  have hend : position + entry.groups.length + entry.name.length + FixedWidth.i64.size =
      position + entry.bytes.length := by
    rw [entry.length_bytes, FixedWidth.size]
    omega
  have hsplit : entry.bytes ++ rest = entry.groups ++ (entry.name ++ (entry.word ++ rest)) := by
    rw [Entry.bytes, List.append_assoc, List.append_assoc]
  rw [hend] at hword
  rw [decoder, hsplit, Decoder.run_bind_of_ok hname, Decoder.int64,
    Decoder.run_bind_of_ok hword]
  rfl

end Record

namespace Entry

/-- A byte string opens with one entry at most. -/
theorem eq_of_append_eq {entry entry' : Entry} {rest rest' : Bytes}
    (heq : entry.bytes ++ rest = entry'.bytes ++ rest') : entry = entry' ∧ rest = rest' := by
  simp only [bytes, List.append_assoc] at heq
  obtain ⟨hgroups, heq⟩ := entry.complete.eq_of_append_eq entry'.complete heq
  have hlength : entry.name.length = entry'.name.length := by
    rw [← entry.payload_eq, ← entry'.payload_eq, hgroups]
  obtain ⟨hname, heq⟩ := List.append_inj heq hlength
  have hsize : entry.word.length = entry'.word.length := by
    rw [entry.length_word, entry'.length_word]
  obtain ⟨hword, hrest⟩ := List.append_inj heq hsize
  exact ⟨Entry.ext hgroups hname hword, hrest⟩

/-- A byte string opens with one list of entries of a given length at most. -/
theorem flatMap_bytes_inj {entries entries' : List Entry} {rest rest' : Bytes}
    (hlength : entries.length = entries'.length)
    (heq : entries.flatMap bytes ++ rest = entries'.flatMap bytes ++ rest') :
    entries = entries' ∧ rest = rest' := by
  induction entries generalizing entries' with
  | nil =>
      have hnil : entries' = [] := List.length_eq_zero_iff.mp hlength.symm
      subst hnil
      exact ⟨rfl, heq⟩
  | cons entry entries ih =>
      cases entries' with
      | nil => simp at hlength
      | cons entry' entries' =>
          simp only [List.flatMap_cons, List.append_assoc] at heq
          obtain ⟨rfl, htail⟩ := eq_of_append_eq heq
          obtain ⟨rfl, hrest⟩ := ih (Nat.succ.inj hlength) htail
          exact ⟨rfl, hrest⟩

/-- The entries stand in `data`, one behind the other, from `start` to `stop`. -/
def Occupy (data : Bytes) (entries : List Entry) (start stop : Nat) : Prop :=
  entries.flatMap bytes <+: data.drop start ∧ start + (entries.flatMap bytes).length = stop

namespace Occupy

variable {data : Bytes} {entries entries' : List Entry} {start stop stop' : Nat}

theorem nil (data : Bytes) (start : Nat) : Occupy data [] start start :=
  ⟨List.nil_prefix, rfl⟩

theorem cons {entry : Entry} (h : Occupy data entries (start + entry.bytes.length) stop)
    (hentry : entry.bytes <+: data.drop start) : Occupy data (entry :: entries) start stop := by
  obtain ⟨hopens, hstop⟩ := h
  obtain ⟨rest, hrest⟩ := hentry
  rw [← List.drop_drop, ← hrest, List.drop_left] at hopens
  constructor
  · rw [List.flatMap_cons, ← hrest]
    exact (List.prefix_append_right_inj entry.bytes).mpr hopens
  · rw [List.flatMap_cons, List.length_append, ← Nat.add_assoc]
    exact hstop

theorem le_length (h : Occupy data entries start stop) (hstart : start ≤ data.length) :
    stop ≤ data.length := by
  have hle := h.1.length_le
  rw [List.length_drop] at hle
  have hstop := h.2
  omega

theorem append (h : Occupy data entries start stop) (extension : Bytes)
    (hstart : start ≤ data.length) : Occupy (data ++ extension) entries start stop := by
  refine ⟨?_, h.2⟩
  rw [List.drop_append_of_le_length hstart]
  exact h.1.trans (List.prefix_append _ extension)

theorem drop_eq (h : Occupy data entries start stop) :
    data.drop start = entries.flatMap bytes ++ data.drop stop := by
  obtain ⟨⟨rest, hrest⟩, rfl⟩ := h
  rw [← List.drop_drop, ← hrest, List.drop_left]

theorem stop_eq (h : Occupy data entries start stop) (h' : Occupy data entries' start stop')
    (hlength : entries.length = entries'.length) : stop = stop' := by
  have heq := h.drop_eq.symm.trans h'.drop_eq
  obtain ⟨rfl, -⟩ := flatMap_bytes_inj hlength heq
  exact h.2.symm.trans h'.2

/-- Behind fewer entries than stand there another one stands. -/
theorem exists_entry (h : Occupy data entries start stop)
    (h' : Occupy data entries' start stop') (hlt : entries.length < entries'.length) :
    ∃ entry : Entry, entry.bytes <+: data.drop stop := by
  have heq := h.drop_eq.symm.trans h'.drop_eq
  rw [← List.take_append_drop entries.length entries', List.flatMap_append,
    List.append_assoc] at heq
  have hlength : entries.length = (entries'.take entries.length).length := by
    rw [List.length_take]
    omega
  obtain ⟨-, hrest⟩ := flatMap_bytes_inj hlength heq
  cases hback : entries'.drop entries.length with
  | nil =>
      have hle := List.drop_eq_nil_iff.mp hback
      omega
  | cons entry others =>
      rw [hback, List.flatMap_cons, List.append_assoc] at hrest
      exact ⟨entry, _, hrest.symm⟩

end Occupy

end Entry

end NamedBlobs
