import Mathlib.Control.Monad.Basic
import NamedBlobs.Lookup.Script
import NamedBlobs.Proofs.Lookup.Conduct
import NamedBlobs.Proofs.Table.Acceptance

/-!
# What a lookup by name comes to

The answers to the two requests of a lookup by name say what it comes to
(`Dialogue.Outcome`), and it comes to nothing else (`Source.tryResolve_iff_outcome`).
Each failure carries its cause as the source or the decoding gave it. The number in the
failure of a resource is the one from the table, whatever number the source names.
-/

namespace NamedBlobs

namespace Dialogue

/-- The answer to a request for `id` is a failure, or it is no bytes, which is the failure
of an empty resource. -/
def Lacks (id : ResourceId) (answer : Answer) (cause : LocateError) : Prop :=
  answer = .ok (.error cause) ∨ answer = .ok (.ok []) ∧ cause = .empty id

/-- The answer to a request is bytes, and not none. -/
def Gives (answer : Answer) (bytes : Bytes) : Prop := answer = .ok (.ok bytes) ∧ bytes ≠ []

/-- The answer to the request for the table is bytes of `table`. -/
def GivesTable (answer : Answer) (table : Table) : Prop :=
  ∃ bytes, Gives answer bytes ∧ Table.decode bytes = .ok table

/-- What a lookup of `name` comes to, by the answer to the request for the table and the
answers `next` to the requests that can follow it. -/
inductive Outcome (name : Bytes) (answer : Answer) (next : ResourceId → Answer) :
    Except ResolveError (Option Blob) → Prop
  | tableMissing {cause : LocateError} (h : Lacks .table answer cause) :
      Outcome name answer next (.error (.tableMissing cause))
  | corruptTable {bytes : Bytes} {cause : DecodeError} (h : Gives answer bytes)
      (hdecode : Table.decode bytes = .error cause) :
      Outcome name answer next (.error (.corruptTable cause))
  | unregistered {table : Table} (h : GivesTable answer table)
      (hname : ∀ record ∈ table.records, record.name ≠ name) :
      Outcome name answer next (.ok none)
  | unassigned {table : Table} {record : Record} (h : GivesTable answer table)
      (hfirst : table.First name record) (hid : record.identifier = 0) :
      Outcome name answer next (.ok none)
  | resourceMissing {table : Table} {record : Record} {cause : LocateError}
      (h : GivesTable answer table) (hfirst : table.First name record)
      (hid : record.identifier ≠ 0)
      (hlacks : Lacks ⟨record.identifier⟩ (next ⟨record.identifier⟩) cause) :
      Outcome name answer next (.error (.resourceMissing ⟨record.identifier⟩ cause))
  | found {table : Table} {record : Record} {bytes : Bytes} (h : GivesTable answer table)
      (hfirst : table.First name record) (hid : record.identifier ≠ 0)
      (hgives : Gives (next ⟨record.identifier⟩) bytes) :
      Outcome name answer next (.ok (some ⟨bytes⟩))

theorem map_fetched_eq_error_iff {id : ResourceId} {answer : Answer} {cause : LocateError} :
    answer.map (fetched id) = .ok (.error cause) ↔ Lacks id answer cause := by
  rcases answer with panic | failure | _ | ⟨byte, rest⟩ <;>
    simp [Lacks, Except.map, fetched, eq_comm]

theorem map_fetched_eq_ok_iff {id : ResourceId} {answer : Answer} {bytes : Bytes} :
    answer.map (fetched id) = .ok (.ok ⟨bytes⟩) ↔ Gives answer bytes := by
  rcases answer with panic | failure | _ | ⟨byte, rest⟩
  · simp [Gives, Except.map]
  · simp [Gives, Except.map, fetched]
  · simp +contextual [Gives, Except.map, fetched]
  · simp only [Gives, Except.map, fetched]
    constructor
    · rintro ⟨rfl⟩
      simp
    · rintro ⟨⟨rfl⟩, -⟩
      rfl

variable {σ : Type} {source : Source (Traced σ)} {name : Bytes} {s : σ}

/-- A failure of the table is the failure of the lookup. -/
theorem value_tryResolve_of_failure {failure : ResolveError}
    (h : (table.run source s).value = .ok (.error failure)) :
    ((tryResolve name).run source s).value = .ok (.error failure) := by
  have hlookup : ((lookup name).run source s).value = .ok (.error failure) := by
    rw [lookup, run_map, h]
    rfl
  rw [tryResolve, run_andThen_of_ok hlookup]
  rfl

/-- A name without a number is not looked for any further. -/
theorem value_tryResolve_of_unassigned {found : Table}
    (h : (table.run source s).value = .ok (.ok found))
    (hname : registered name found = .unassigned) :
    ((tryResolve name).run source s).value = .ok (.ok none) := by
  have hlookup : ((lookup name).run source s).value = .ok (.ok .unassigned) := by
    rw [lookup, run_map, h, ← hname]
    rfl
  rw [tryResolve, run_andThen_of_ok hlookup]
  rfl

/-- The resource of a name with a number is fetched. -/
theorem value_tryResolve_of_registered {found : Table} {id : ResourceId}
    (h : (table.run source s).value = .ok (.ok found)) (hname : registered name found = id)
    (hid : id ≠ .unassigned) :
    ((tryResolve name).run source s).value =
      ((source.answer id (source.after .table s)).map (fetched id)).map (resolved id) := by
  have hassigned : ¬ id.isUnassigned = true := fun hzero =>
    hid (ResourceId.isUnassigned_iff.mp hzero)
  have hlookup : ((lookup name).run source s).value = .ok (.ok id) := by
    rw [lookup, run_map, h, ← hname]
    rfl
  rw [tryResolve, run_andThen_of_ok hlookup, run_lookup]
  simp only [if_neg hassigned, tryFetch_of_assigned hassigned, run_map, run_load]

theorem value_table :
    (table.run source s).value =
      ((source.answer .table s).map (fetched .table)).map tabled := by
  rw [run_table]
  cases source.answer .table s <;> rfl

theorem value_table_of_gives {found : Table} (h : GivesTable (source.answer .table s) found) :
    (table.run source s).value = .ok (.ok found) := by
  obtain ⟨bytes, hgives, hdecode⟩ := h
  rw [value_table, map_fetched_eq_ok_iff.mpr hgives]
  simp [Except.map, tabled, hdecode, Except.mapError]

theorem mk_ne_unassigned {identifier : Int64} (h : identifier ≠ 0) :
    ResourceId.mk identifier ≠ .unassigned := fun hid => h (congrArg ResourceId.value hid)

/-- A lookup comes to its outcome. -/
theorem Outcome.value_eq {found : Except ResolveError (Option Blob)}
    (h : Outcome name (source.answer .table s) (source.answer · (source.after .table s)) found) :
    ((tryResolve name).run source s).value = .ok found := by
  cases h with
  | tableMissing hlacks =>
      apply value_tryResolve_of_failure
      rw [value_table, map_fetched_eq_error_iff.mpr hlacks]
      rfl
  | corruptTable hgives hdecode =>
      apply value_tryResolve_of_failure
      rw [value_table, map_fetched_eq_ok_iff.mpr hgives]
      simp [Except.map, tabled, hdecode, Except.mapError]
  | unregistered htable hname =>
      exact value_tryResolve_of_unassigned (value_table_of_gives htable)
        (registered_of_forall_ne hname)
  | unassigned htable hfirst hid =>
      apply value_tryResolve_of_unassigned (value_table_of_gives htable)
      rw [registered_eq_of_first hfirst, hid]
      rfl
  | resourceMissing htable hfirst hid hlacks =>
      rw [value_tryResolve_of_registered (value_table_of_gives htable)
        (registered_eq_of_first hfirst) (mk_ne_unassigned hid), map_fetched_eq_error_iff.mpr hlacks]
      rfl
  | found htable hfirst hid hgives =>
      rw [value_tryResolve_of_registered (value_table_of_gives htable)
        (registered_eq_of_first hfirst) (mk_ne_unassigned hid), map_fetched_eq_ok_iff.mpr hgives]
      rfl

/-- Unless a load panics, a lookup comes to some outcome. -/
theorem exists_outcome (source : Source (Traced σ)) (name : Bytes) (s : σ) :
    (∃ panic, ((tryResolve name).run source s).value = .error panic) ∨
      ∃ found, Outcome name (source.answer .table s) (source.answer · (source.after .table s))
        found := by
  rcases hfetched : (source.answer .table s).map (fetched .table) with panic | cause | blob
  · left
    have hlookup : ((lookup name).run source s).value = .error panic := by
      rw [lookup, run_map, value_table, hfetched]
      rfl
    refine ⟨panic, ?_⟩
    rw [tryResolve, run_andThen_of_error hlookup]
  · exact Or.inr ⟨_, .tableMissing (map_fetched_eq_error_iff.mp hfetched)⟩
  · have hgives := map_fetched_eq_ok_iff.mp hfetched
    rcases hdecode : Table.decode blob.bytes with cause | table
    · exact Or.inr ⟨_, .corruptTable hgives hdecode⟩
    · have htable : GivesTable (source.answer .table s) table := ⟨_, hgives, hdecode⟩
      rcases hfind : table.find name with _ | record
      · exact Or.inr ⟨_, .unregistered htable (Table.find_eq_none_iff.mp hfind)⟩
      · have hfirst := Table.find_eq_some_iff.mp hfind
        by_cases hid : record.identifier = 0
        · exact Or.inr ⟨_, .unassigned htable hfirst hid⟩
        · have hvalue := value_tryResolve_of_registered (value_table_of_gives htable)
            (registered_eq_of_first hfirst) (mk_ne_unassigned hid)
          rcases hnext : (source.answer ⟨record.identifier⟩ (source.after .table s)).map
            (fetched ⟨record.identifier⟩) with panic | cause | blob
          · left
            rw [hnext] at hvalue
            exact ⟨panic, hvalue⟩
          · exact Or.inr ⟨_, .resourceMissing htable hfirst hid
              (map_fetched_eq_error_iff.mp hnext)⟩
          · exact Or.inr ⟨_, .found htable hfirst hid (map_fetched_eq_ok_iff.mp hnext)⟩

end Dialogue

/-- A source with no panic among its answers comes back from every load. -/
theorem Script.returns {σ : Type} {scripts : List (ResourceId × Script)}
    (h : ∀ id note, (id, .panic note) ∉ scripts) :
    (Script.source scripts : Source (Traced σ)).Returns := by
  intro id s
  simp only [source]
  rcases hscript : scripts.lookup id with _ | data | cause | note
  · exact ⟨_, rfl⟩
  · exact ⟨_, rfl⟩
  · exact ⟨_, rfl⟩
  · obtain ⟨front, back, rfl, -⟩ := List.lookup_eq_some_iff.mp hscript
    exact absurd (List.mem_append_right front List.mem_cons_self) (h id note)

namespace Source

open Dialogue (Outcome Gives)

variable {σ : Type}

/-- A lookup by name comes to an outcome if and only if the answers to its requests have
that outcome. -/
theorem tryResolve_iff_outcome (source : Source (Traced σ)) (name : Bytes) (s : σ)
    (found : Except ResolveError (Option Blob)) :
    ((source.tryResolve name).run s).result = .ok found ↔
      Outcome name (source.answer .table s) (source.answer · (source.after .table s)) found := by
  rw [(source.follows_tryResolve name s).1]
  constructor
  · intro hvalue
    rcases Dialogue.exists_outcome source name s with ⟨panic, hpanic⟩ | ⟨found', houtcome⟩
    · rw [hpanic] at hvalue
      cases hvalue
    · have hvalue' := houtcome.value_eq
      rw [hvalue] at hvalue'
      cases hvalue'
      exact houtcome
  · exact Outcome.value_eq

/-- A lookup by name, over a source whose loads come back, comes to the one outcome that
the answers to its requests have. It tells of corruption if and only if the bytes of the
table cannot be decoded. A table that is too short for a count is none of that: it is
empty, so that no name is found in it. -/
theorem tryResolve_tells_outcomes (source : Source (Traced σ)) (hreturns : source.Returns)
    (name : Bytes) (s : σ) :
    (∃ found, ((source.tryResolve name).run s).result = .ok found) ∧
    (∀ found, ((source.tryResolve name).run s).result = .ok found ↔
      Outcome name (source.answer .table s) (source.answer · (source.after .table s)) found) ∧
    ((∃ failure, ((source.tryResolve name).run s).result = .ok (.error failure) ∧
        failure.isCorruption = true) ↔
      ∃ bytes cause, Gives (source.answer .table s) bytes ∧ Table.decode bytes = .error cause) ∧
    ∀ bytes, Gives (source.answer .table s) bytes → bytes.length < Table.countSize →
      ((source.tryResolve name).run s).result = .ok (.ok none) := by
  refine ⟨?_, source.tryResolve_iff_outcome name s, ⟨?_, ?_⟩, ?_⟩
  · obtain ⟨found, hfound⟩ :=
      (Dialogue.passesPanics_tryResolve name).exists_value_of_returns hreturns s
    exact ⟨found, (source.follows_tryResolve name s).1.trans hfound⟩
  · rintro ⟨failure, hfailure, hcorruption⟩
    cases (source.tryResolve_iff_outcome name s _).mp hfailure with
    | tableMissing => cases hcorruption
    | corruptTable hgives hdecode => exact ⟨_, _, hgives, hdecode⟩
    | resourceMissing => cases hcorruption
  · rintro ⟨bytes, cause, hgives, hdecode⟩
    exact ⟨_, (source.tryResolve_iff_outcome name s _).mpr (.corruptTable hgives hdecode), rfl⟩
  · intro bytes hgives hshort
    have htable : Dialogue.GivesTable (source.answer .table s) .empty :=
      ⟨bytes, hgives, Table.decode_of_lt bytes hshort⟩
    refine (source.tryResolve_iff_outcome name s _).mpr (.unregistered htable ?_)
    simp [Table.empty]

/-- The source says that it has no resource 7 when it is asked for the resource 200. -/
theorem tryResolve_tells_outcomes_other_number :
    (Script.source [(.table, .bytes (Table.encode ⟨[⟨[0x70], 200⟩]⟩)),
        (⟨200⟩, .failure (.notFound ⟨7⟩))] : Source (Traced Unit)).Returns ∧
      (((Script.source [(.table, .bytes (Table.encode ⟨[⟨[0x70], 200⟩]⟩)),
          (⟨200⟩, .failure (.notFound ⟨7⟩))]).tryResolve [0x70]).run ()).result =
        .ok (.error (.resourceMissing ⟨200⟩ (.notFound ⟨7⟩))) := by
  have hreturns : (Script.source [(.table, .bytes (Table.encode ⟨[⟨[0x70], 200⟩]⟩)),
      (⟨200⟩, .failure (.notFound ⟨7⟩))] : Source (Traced Unit)).Returns :=
    Script.returns (by simp)
  obtain ⟨-, houtcome, -⟩ := tryResolve_tells_outcomes _ hreturns [0x70] ()
  refine ⟨hreturns, (houtcome _).mpr ?_⟩
  have htable : Dialogue.GivesTable
      (.ok (.ok (Table.encode ⟨[⟨[0x70], 200⟩]⟩))) ⟨[⟨[0x70], 200⟩]⟩ :=
    ⟨_, ⟨rfl, by decide +kernel⟩, by decide +kernel⟩
  exact .resourceMissing htable ⟨[], [], rfl, rfl, by simp⟩ (by decide) (Or.inl rfl)

end Source

end NamedBlobs
