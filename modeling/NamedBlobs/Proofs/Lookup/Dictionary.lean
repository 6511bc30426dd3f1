import NamedBlobs.Proofs.Lookup.Agreement
import NamedBlobs.Proofs.Lookup.Memory
import NamedBlobs.Proofs.Lookup.Outcome
import NamedBlobs.Proofs.Table.RoundTrip

/-!
# A memory with a table is a dictionary

Where the number of the table holds encoded records, a name stands for what is
held under the number of the first record with that name. The number that names
nothing stands for nothing, whatever is held there, and the number of the table
stands for the table's own bytes.
-/

namespace NamedBlobs

namespace Dialogue

theorem resolved_ne_none (id : ResourceId) (found : Except LocateError Blob) :
    resolved id found ≠ .ok none := by
  cases found <;> simp [resolved]

/-- A name has no number where its first record, if there is one, has none. -/
theorem registered_eq_unassigned_iff (records : List Record) (name : Bytes) :
    registered name ⟨records⟩ = .unassigned ↔
      ∀ before record after, records = before ++ record :: after → record.name = name →
        (∀ earlier ∈ before, earlier.name ≠ name) → record.identifier = 0 := by
  constructor
  · rintro h before record after rfl hname hbefore
    rw [registered_of_first hname hbefore] at h
    exact congrArg ResourceId.value h
  · intro h
    rcases hfind : Table.find ⟨records⟩ name with _ | record
    · exact registered_of_forall_ne (Table.find_eq_none_iff.mp hfind)
    · obtain ⟨before, after, rfl, hname, hbefore⟩ := Table.find_eq_some_iff.mp hfind
      rw [registered_of_first hname hbefore, h before record after rfl hname hbefore]
      rfl

end Dialogue

namespace Memory

open Dialogue (registered resolved fetched resolvedBlob)

/-- Looking `name` up in the memory comes to `found`, and the collapsing lookup
to the blob of `found`. -/
def LooksUp (memory : Memory) (name : Bytes)
    (found : Except ResolveError (Option Blob)) : Prop :=
  ((source.tryResolve name).run memory).result = .ok found ∧
    ((source.resolve name).run memory).result = .ok (resolvedBlob found)

/-- The memory holds bytes of `table` where a table is looked for. -/
def HoldsTable (memory : Memory) (table : Table) : Prop :=
  ∃ data, memory.get? .table = some data ∧ data ≠ [] ∧ Table.decode data = .ok table

variable {memory : Memory} {table : Table} {name : Bytes}

theorem looksUp_of_run {found : Except ResolveError (Option Blob)}
    (h : ((Dialogue.tryResolve name).run source memory).value = .ok found) :
    memory.LooksUp name found := by
  have htry : ((source.tryResolve name).run memory).result = .ok found :=
    (source.follows_tryResolve name memory).1.trans h
  refine ⟨htry, ?_⟩
  rw [(source.run_resolve_eq name memory).1, htry]
  rfl

namespace HoldsTable

theorem value_table (h : memory.HoldsTable table) :
    (Dialogue.table.run source memory).value = .ok (.ok table) := by
  obtain ⟨data, hdata, hne, hdecode⟩ := h
  exact Dialogue.value_table_of_gives ⟨data, ⟨answer_of_some hdata hne, hne⟩, hdecode⟩

theorem looksUp_none (h : memory.HoldsTable table)
    (hname : registered name table = .unassigned) : memory.LooksUp name (.ok none) :=
  looksUp_of_run (Dialogue.value_tryResolve_of_unassigned h.value_table hname)

theorem looksUp_resolved (h : memory.HoldsTable table) {id : ResourceId}
    (hname : registered name table = id) (hid : id ≠ .unassigned) :
    memory.LooksUp name (resolved id (fetched id ((memory.load id).map Loaded.bytes))) := by
  apply looksUp_of_run
  rw [Dialogue.value_tryResolve_of_registered h.value_table hname hid, after_source, answer_source]
  rfl

/-- Only a name without a number is not in the table. -/
theorem result_eq_none_iff (h : memory.HoldsTable table) (name : Bytes) :
    ((source.tryResolve name).run memory).result = .ok (.ok none) ↔
      registered name table = .unassigned := by
  constructor
  · intro hnone
    by_contra hid
    have hresult := (h.looksUp_resolved rfl hid).1
    rw [hnone, Except.ok.injEq] at hresult
    exact Dialogue.resolved_ne_none _ _ hresult.symm
  · intro hname
    exact (h.looksUp_none hname).1

end HoldsTable

theorem holdsTable_encode {records : List Record}
    (hnames : ∀ record ∈ records, record.name.length < 2 ^ 31)
    (hlength : records.length < 2 ^ 31)
    (h : memory.get? .table = some (Table.encode ⟨records⟩)) : memory.HoldsTable ⟨records⟩ :=
  ⟨_, h, Table.encode_ne_nil _, Table.decode_encode records hnames hlength⟩

/-- A memory that was changed so that the number of the table holds encoded
records is a dictionary. A name without a record, or whose first record has the
number that names nothing, is not found; any other name stands for the contents
that the last change of its first record's number left there. -/
theorem looksUp_ofChanges (records : List Record) (changes : List Change) (name : Bytes)
    (hnames : ∀ record ∈ records, record.name.length < 2 ^ 31)
    (hlength : records.length < 2 ^ 31)
    (htable : lastContents changes .table = some (Table.encode ⟨records⟩)) :
    ((∀ record ∈ records, record.name ≠ name) → (ofChanges changes).LooksUp name (.ok none)) ∧
    (∀ before record after id, records = before ++ record :: after → record.name = name →
      (∀ earlier ∈ before, earlier.name ≠ name) → id = ResourceId.mk record.identifier →
        (id = .unassigned → (ofChanges changes).LooksUp name (.ok none)) ∧
        (id ≠ .unassigned →
          (lastContents changes id = none →
            (ofChanges changes).LooksUp name (.error (.resourceMissing id (.notFound id)))) ∧
          (lastContents changes id = some [] →
            (ofChanges changes).LooksUp name (.error (.resourceMissing id (.empty id)))) ∧
          ∀ bytes, bytes ≠ [] → lastContents changes id = some bytes →
            (ofChanges changes).LooksUp name (.ok (some ⟨bytes⟩))) ∧
        (id = .table →
          (ofChanges changes).LooksUp name (.ok (some ⟨Table.encode ⟨records⟩⟩)))) ∧
    (((source.tryResolve name).run (ofChanges changes)).result = .ok (.ok none) ↔
      ∀ before record after, records = before ++ record :: after → record.name = name →
        (∀ earlier ∈ before, earlier.name ≠ name) → record.identifier = 0) := by
  have hget : ∀ id, (ofChanges changes).get? id = lastContents changes id :=
    get?_ofChanges changes
  have hholds : (ofChanges changes).HoldsTable ⟨records⟩ :=
    holdsTable_encode hnames hlength ((hget .table).trans htable)
  refine ⟨?_, ?_, ?_⟩
  · intro hnone
    exact hholds.looksUp_none (Dialogue.registered_of_forall_ne hnone)
  · rintro before record after id rfl hname hbefore rfl
    have hregistered : registered name ⟨before ++ record :: after⟩ = ⟨record.identifier⟩ :=
      Dialogue.registered_of_first hname hbefore
    have hfound : ∀ bytes, bytes ≠ [] → ResourceId.mk record.identifier ≠ .unassigned →
        lastContents changes ⟨record.identifier⟩ = some bytes →
          (ofChanges changes).LooksUp name (.ok (some ⟨bytes⟩)) := by
      intro bytes hbytes hid hlast
      have hlooksUp := hholds.looksUp_resolved hregistered hid
      rwa [fetched_load_of_some ((hget _).trans hlast) hbytes] at hlooksUp
    refine ⟨?_, ?_, ?_⟩
    · intro hid
      exact hholds.looksUp_none (hregistered.trans hid)
    · intro hid
      have hlooksUp := hholds.looksUp_resolved hregistered hid
      refine ⟨?_, ?_, fun bytes hbytes => hfound bytes hbytes hid⟩
      · intro hlast
        rwa [fetched_load_of_none ((hget _).trans hlast)] at hlooksUp
      · intro hlast
        rwa [fetched_load_of_nil ((hget _).trans hlast)] at hlooksUp
    · intro hid
      apply hfound _ (Table.encode_ne_nil _)
      · rw [hid]
        decide
      · rw [hid]
        exact htable
  · rw [hholds.result_eq_none_iff, Dialogue.registered_eq_unassigned_iff]

/-- Two records of one name, the first with the number of the table, and a record
without a number under which something is held. -/
theorem looksUp_ofChanges_table :
    lastContents [.insert ⟨200⟩ [1], .insert .table [9], .insert .unassigned [2], .remove ⟨200⟩,
        .insert .table (Table.encode ⟨[⟨[0x61], 103⟩, ⟨[0x61], 200⟩, ⟨[], 0⟩]⟩)] .table =
      some (Table.encode ⟨[⟨[0x61], 103⟩, ⟨[0x61], 200⟩, ⟨[], 0⟩]⟩) ∧
    (ofChanges [.insert ⟨200⟩ [1], .insert .table [9], .insert .unassigned [2], .remove ⟨200⟩,
        .insert .table (Table.encode ⟨[⟨[0x61], 103⟩, ⟨[0x61], 200⟩, ⟨[], 0⟩]⟩)]).LooksUp [0x61]
      (.ok (some ⟨Table.encode ⟨[⟨[0x61], 103⟩, ⟨[0x61], 200⟩, ⟨[], 0⟩]⟩⟩)) := by
  have hlast : lastContents [.insert ⟨200⟩ [1], .insert .table [9], .insert .unassigned [2],
      .remove ⟨200⟩, .insert .table (Table.encode ⟨[⟨[0x61], 103⟩, ⟨[0x61], 200⟩, ⟨[], 0⟩]⟩)]
        .table = some (Table.encode ⟨[⟨[0x61], 103⟩, ⟨[0x61], 200⟩, ⟨[], 0⟩]⟩) := rfl
  have hdictionary := looksUp_ofChanges [⟨[0x61], 103⟩, ⟨[0x61], 200⟩, ⟨[], 0⟩] _ [0x61]
    (by simp) (by simp) hlast
  have hfirst := hdictionary.2.1 [] ⟨[0x61], 103⟩ [⟨[0x61], 200⟩, ⟨[], 0⟩] .table rfl rfl
    (by simp) rfl
  exact ⟨hlast, hfirst.2.2 rfl⟩

end Memory

end NamedBlobs
