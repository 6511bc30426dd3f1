import NamedBlobs.Lookup.Resolve
import NamedBlobs.Proofs.Lookup.Dialogue
import NamedBlobs.Proofs.Table.Search

/-!
# The dialogues of the lookups

Every lookup follows a dialogue, whatever the source (`Source.follows_tryFetch`
to `Source.follows_lastAllocated`). Fetching asks once or, for the number that
names nothing, not at all. Resolving asks for the table and then, if the name
has a number there, for the resource of that number. Answers are taken for
blobs, tables and numbers by functions that know of no source.

A panic of the source ends each of these dialogues, and nothing else does.
-/

namespace NamedBlobs

namespace Dialogue

variable {σ : Type}

/-- The answer to a request for `id`, taken for a blob. -/
def fetched (id : ResourceId) : Except LocateError Bytes → Except LocateError Blob
  | .error failure => .error failure
  | .ok bytes => if bytes.isEmpty then .error (.empty id) else .ok ⟨bytes⟩

/-- What was fetched under the number of the table, taken for a table. -/
def tabled : Except LocateError Blob → Except ResolveError Table
  | .error failure => .error (.tableMissing failure)
  | .ok blob => (Table.decode blob.bytes).mapError .corruptTable

/-- What was fetched under the number of the allocation counter, taken for a
number. -/
def counted : Except LocateError Blob → Except ResolveError (Option ResourceId)
  | .error failure =>
      if failure.isNotFound then .ok none else .error (.resourceMissing .lastAllocated failure)
  | .ok blob => Source.counterOf blob.bytes

/-- The number of `name` in a table: that of its first record, or the one that
names nothing. -/
def registered (name : Bytes) (table : Table) : ResourceId :=
  (table.identifierOf name).elim .unassigned ResourceId.mk

/-- What was fetched under the number `id` of a name. -/
def resolved (id : ResourceId) : Except LocateError Blob → Except ResolveError (Option Blob)
  | .error failure => .error (.resourceMissing id failure)
  | .ok blob => .ok (some blob)

/-- The blob of a fetch, empty where there is none. -/
def fetchedBlob : Except LocateError Blob → Blob
  | .ok blob => blob
  | .error _ => .empty

/-- The blob of a lookup by name, empty where there is none. -/
def resolvedBlob : Except ResolveError (Option Blob) → Blob
  | .ok (some blob) => blob
  | .ok none | .error _ => .empty

def tryFetch (id : ResourceId) : Dialogue (Except Panic (Except LocateError Blob)) :=
  if id.isUnassigned then done (.ok (.error .unassigned)) else load id (fetched id)

def fetch (id : ResourceId) : Dialogue (Except Panic Blob) :=
  (tryFetch id).map (Except.map fetchedBlob)

def table : Dialogue (Except Panic (Except ResolveError Table)) :=
  (tryFetch .table).map (Except.map tabled)

def lookup (name : Bytes) : Dialogue (Except Panic (Except ResolveError ResourceId)) :=
  table.map (Except.map (Except.map (registered name)))

def resolve (name : Bytes) : Dialogue (Except Panic Blob) :=
  (lookup name).andThen fun
    | .error _ => done (.ok .empty)
    | .ok id => fetch id

def tryResolve (name : Bytes) : Dialogue (Except Panic (Except ResolveError (Option Blob))) :=
  (lookup name).andThen fun
    | .error failure => done (.ok (.error failure))
    | .ok id =>
        if id.isUnassigned then done (.ok (.ok none))
        else (tryFetch id).map (Except.map (resolved id))

def lastAllocated : Dialogue (Except Panic (Except ResolveError (Option ResourceId))) :=
  (tryFetch .lastAllocated).map (Except.map counted)

theorem registered_of_forall_ne {records : List Record} {name : Bytes}
    (h : ∀ record ∈ records, record.name ≠ name) : registered name ⟨records⟩ = .unassigned := by
  rw [registered, Table.identifierOf, Table.find_eq_none_iff.mpr h]
  rfl

theorem registered_eq_of_first {table : Table} {name : Bytes} {record : Record}
    (h : table.First name record) : registered name table = ⟨record.identifier⟩ := by
  rw [registered, Table.identifierOf, Table.find_eq_some_iff.mpr h]
  rfl

/-- The first record with a name decides, whatever comes after it. -/
theorem registered_of_first {before after : List Record} {record : Record} {name : Bytes}
    (hname : record.name = name) (hbefore : ∀ earlier ∈ before, earlier.name ≠ name) :
    registered name ⟨before ++ record :: after⟩ = ⟨record.identifier⟩ :=
  registered_eq_of_first ⟨before, after, rfl, hname, hbefore⟩

theorem tryFetch_of_unassigned {id : ResourceId} (h : id.isUnassigned = true) :
    tryFetch id = done (.ok (.error .unassigned)) := if_pos h

theorem tryFetch_of_assigned {id : ResourceId} (h : ¬ id.isUnassigned = true) :
    tryFetch id = load id (fetched id) := if_neg h

/-- The table is what is made of the answer to one request. -/
theorem run_table (source : Source (Traced σ)) (s : σ) :
    table.run source s =
      ⟨(source.answer .table s).map fun answer => tabled (fetched .table answer),
        [.table], source.after .table s⟩ := by
  have hassigned : ¬ ResourceId.table.isUnassigned = true := by decide
  rw [table, tryFetch_of_assigned hassigned, map_load, run_load]

/-- A lookup of a number asks for the table and nothing else. -/
theorem run_lookup (source : Source (Traced σ)) (name : Bytes) (s : σ) :
    (lookup name).run source s =
      ⟨(source.answer .table s).map fun answer =>
          (tabled (fetched .table answer)).map (registered name),
        [.table], source.after .table s⟩ := by
  rw [lookup, run_map, run_table]
  cases source.answer .table s <;> rfl

theorem asked_tryFetch (source : Source (Traced σ)) (id : ResourceId) (s : σ) :
    ((tryFetch id).run source s).asked = if id.isUnassigned then [] else [id] := by
  rw [tryFetch]
  split
  · rfl
  · rfl

/-- The number of `name` in the answer to a request for the table: there is one if
the answer is bytes, and not none, that are a table whose first record of that
name has a number. -/
def pointed (name : Bytes) : Answer → Option ResourceId
  | .ok (.ok bytes) =>
      if bytes.isEmpty then none
      else
        match Table.decode bytes with
        | .ok table => ((table.identifierOf name).map ResourceId.mk).filter (!·.isUnassigned)
        | .error _ => none
  | .ok (.error _) | .error _ => none

theorem pointed_ne_unassigned {name : Bytes} {answer : Answer} {id : ResourceId}
    (h : pointed name answer = some id) : id ≠ .unassigned := by
  rintro rfl
  rcases answer with panic | failure | bytes
  · cases h
  · cases h
  · rw [pointed] at h
    split at h
    · cases h
    · split at h
      · have hassigned := (Option.filter_eq_some_iff.mp h).2
        exact absurd hassigned (by decide)
      · cases h

/-- A name that has a number is registered under it. -/
theorem filter_identifierOf (name : Bytes) (table : Table) :
    ((table.identifierOf name).map ResourceId.mk).filter (!·.isUnassigned) =
      if (registered name table).isUnassigned then none else some (registered name table) := by
  rw [registered]
  rcases table.identifierOf name with _ | identifier
  · rfl
  · rw [Option.map_some, Option.filter_some, Option.elim_some]
    by_cases hid : (ResourceId.mk identifier).isUnassigned = true <;> simp [hid]

theorem tabled_fetched_ok (bytes : Bytes) :
    tabled (fetched .table (.ok bytes)) =
      if bytes.isEmpty then .error (.tableMissing (.empty .table))
      else (Table.decode bytes).mapError .corruptTable := by
  rw [fetched]
  split
  · rfl
  · rfl

theorem asked_tryResolve_of_panic {source : Source (Traced σ)} {name : Bytes} {s : σ}
    {panic : Panic} (h : ((lookup name).run source s).value = .error panic) :
    ((tryResolve name).run source s).asked = [.table] := by
  rw [tryResolve, run_andThen_of_error h, run_lookup]

theorem asked_tryResolve_of_failure {source : Source (Traced σ)} {name : Bytes} {s : σ}
    {failure : ResolveError} (h : ((lookup name).run source s).value = .ok (.error failure)) :
    ((tryResolve name).run source s).asked = [.table] := by
  rw [tryResolve, run_andThen_of_ok h, run_lookup]
  rfl

theorem asked_tryResolve_of_number {source : Source (Traced σ)} {name : Bytes} {s : σ}
    {id : ResourceId} (h : ((lookup name).run source s).value = .ok (.ok id)) :
    ((tryResolve name).run source s).asked =
      .table :: if id.isUnassigned then [] else [id] := by
  rw [tryResolve, run_andThen_of_ok h, run_lookup]
  by_cases hid : id.isUnassigned = true
  · simp [hid]
  · simp [hid, asked_tryFetch]

/-- A lookup by name asks for the table and then for the resource that the table
points at, if there is one. -/
theorem asked_tryResolve (source : Source (Traced σ)) (name : Bytes) (s : σ) :
    ((tryResolve name).run source s).asked =
      .table :: (pointed name (source.answer .table s)).toList := by
  have hlookup := congrArg Course.value (run_lookup source name s)
  rcases hanswer : source.answer .table s with panic | failure | bytes
  · rw [hanswer] at hlookup
    exact asked_tryResolve_of_panic hlookup
  · rw [hanswer] at hlookup
    exact asked_tryResolve_of_failure hlookup
  · rw [hanswer, Except.map, tabled_fetched_ok] at hlookup
    rw [pointed]
    by_cases hempty : bytes.isEmpty = true
    · rw [if_pos hempty] at hlookup ⊢
      exact asked_tryResolve_of_failure hlookup
    · rw [if_neg hempty] at hlookup ⊢
      rcases hdecode : Table.decode bytes with failure | table
      · rw [hdecode] at hlookup
        exact asked_tryResolve_of_failure hlookup
      · rw [hdecode] at hlookup
        rw [asked_tryResolve_of_number hlookup]
        simp only [filter_identifierOf]
        split
        · rfl
        · rfl

/-- What was fetched was not empty. -/
theorem bytes_ne_nil_of_fetched {id : ResourceId} {answer : Except LocateError Bytes}
    {blob : Blob} (h : fetched id answer = .ok blob) : blob.bytes ≠ [] := by
  rcases answer with failure | bytes
  · cases h
  · rw [fetched] at h
    split at h
    · cases h
    · next hbytes =>
        injection h with hblob
        rw [← hblob]
        simpa using hbytes

theorem bytes_ne_nil_of_tryFetch {source : Source (Traced σ)} {s : σ} {id : ResourceId}
    {blob : Blob} (h : ((tryFetch id).run source s).value = .ok (.ok blob)) :
    blob.bytes ≠ [] := by
  by_cases hid : id.isUnassigned = true
  · rw [tryFetch_of_unassigned hid] at h
    cases h
  · rw [tryFetch_of_assigned hid, run_load] at h
    rcases hanswer : source.answer id s with panic | answer
    · rw [hanswer] at h
      cases h
    · rw [hanswer] at h
      injection h with hfetched
      exact bytes_ne_nil_of_fetched hfetched

theorem bytes_ne_nil_of_tryResolve {source : Source (Traced σ)} {s : σ} {name : Bytes}
    {blob : Blob} (h : ((tryResolve name).run source s).value = .ok (.ok (some blob))) :
    blob.bytes ≠ [] := by
  rw [tryResolve] at h
  rcases hlookup : ((lookup name).run source s).value with panic | failure | id
  · rw [run_andThen_of_error hlookup] at h
    cases h
  · rw [run_andThen_of_ok hlookup] at h
    cases h
  · rw [run_andThen_of_ok hlookup] at h
    dsimp only at h
    split at h
    · cases h
    · rw [run_map] at h
      rcases hfetch : ((tryFetch id).run source ((lookup name).run source s).state).value with
        panic | failure | fetched
      · rw [hfetch] at h
        cases h
      · rw [hfetch] at h
        cases h
      · rw [hfetch] at h
        cases h
        exact bytes_ne_nil_of_tryFetch hfetch

/-- Resolving comes to the blob that the reporting lookup finds, by the same
requests. -/
theorem resolve_eq_map_tryResolve (name : Bytes) :
    resolve name = (tryResolve name).map (Except.map resolvedBlob) := by
  rw [resolve, tryResolve, map_andThen]
  congr 1
  funext found
  rcases found with failure | id
  · rfl
  · dsimp only
    split
    · next hid =>
        rw [fetch, tryFetch_of_unassigned hid]
        rfl
    · next hid =>
        rw [fetch, tryFetch_of_assigned hid, map_load, map_load, map_load]
        congr 1
        funext answer
        cases fetched id answer <;> rfl

theorem passesPanics_tryFetch (id : ResourceId) : PassesPanics (tryFetch id) := by
  rw [tryFetch]
  split
  · exact .done _
  · exact .load id _

theorem passesPanics_lookup (name : Bytes) : PassesPanics (lookup name) :=
  ((passesPanics_tryFetch .table).map tabled).map _

theorem passesPanics_tryResolve (name : Bytes) : PassesPanics (tryResolve name) := by
  refine (passesPanics_lookup name).andThen fun found => ?_
  rcases found with failure | id
  · exact .done _
  · dsimp only
    split
    · exact .done _
    · exact (passesPanics_tryFetch id).map (resolved id)

theorem passesPanics_resolve (name : Bytes) : PassesPanics (resolve name) := by
  rw [resolve_eq_map_tryResolve]
  exact (passesPanics_tryResolve name).map resolvedBlob

end Dialogue

namespace Source

open Dialogue (fetched tabled)

variable {σ : Type} (source : Source (Traced σ))

theorem follows_tryFetch (id : ResourceId) :
    source.Follows (source.tryFetch id) (Dialogue.tryFetch id) := by
  rw [tryFetch, Dialogue.tryFetch]
  split
  · exact Follows.pure _
  · refine Follows.load_bind id fun found => ?_
    rcases found with failure | loaded
    · exact Follows.pure _
    · simp only [Except.map, fetched]
      split
      · exact Follows.pure _
      · exact Follows.emit_bind _ (Follows.pure _)

theorem follows_fetch (id : ResourceId) :
    source.Follows (source.fetch id) (Dialogue.fetch id) := by
  refine (source.follows_tryFetch id).bind_map fun found => ?_
  rcases found with failure | blob
  · cases failure
    case unassigned => exact Follows.pure _
    all_goals exact Follows.emit_bind _ (Follows.pure _)
  · exact Follows.pure blob

theorem follows_table : source.Follows source.table Dialogue.table := by
  refine (source.follows_tryFetch .table).bind_map fun found => ?_
  rcases found with failure | blob
  · exact Follows.pure _
  · refine Follows.forM_emit_bind _ ?_
    rw [tabled, Table.decode]
    rcases (Table.decoding blob.bytes).result with failure | table
    · exact Follows.pure _
    · exact Follows.emit_bind _ (Follows.pure _)

theorem follows_lookup (name : Bytes) :
    source.Follows (source.lookup name) (Dialogue.lookup name) := by
  refine source.follows_table.bind_map fun found => ?_
  cases found <;> exact Follows.pure _

theorem follows_resolve (name : Bytes) :
    source.Follows (source.resolve name) (Dialogue.resolve name) := by
  refine Follows.within _ ((source.follows_lookup name).bind fun found => ?_)
  rcases found with failure | id
  · dsimp only
    split
    · exact Follows.emit_bind _ (Follows.pure _)
    · exact Follows.emit_bind _ (Follows.pure _)
  · dsimp only
    split
    · exact Follows.emit_bind _ (source.follows_fetch id)
    · exact source.follows_fetch id

theorem follows_tryResolve (name : Bytes) :
    source.Follows (source.tryResolve name) (Dialogue.tryResolve name) := by
  refine (source.follows_lookup name).bind fun found => ?_
  rcases found with failure | id
  · exact Follows.pure _
  · dsimp only
    split
    · exact Follows.pure _
    · refine (source.follows_tryFetch id).bind_map fun found => ?_
      cases found <;> exact Follows.pure _

theorem follows_lastAllocated :
    source.Follows source.lastAllocated Dialogue.lastAllocated := by
  refine (source.follows_tryFetch .lastAllocated).bind_map fun found => ?_
  rcases found with failure | blob
  · rw [Dialogue.counted]
    dsimp only
    split
    · exact Follows.pure _
    · exact Follows.pure _
  · exact Follows.pure _

end Source

end NamedBlobs
