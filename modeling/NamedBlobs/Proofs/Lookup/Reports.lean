import NamedBlobs.Files.FileTree
import NamedBlobs.Proofs.Buffer.Containment
import NamedBlobs.Proofs.Journal
import NamedBlobs.Proofs.Lookup.Agreement
import NamedBlobs.Proofs.Lookup.Directory

/-!
# What a lookup reports

`Source.tryResolve` says why a name has no blob, and `Source.resolve` writes it to
the journal instead. Over a source that keeps quiet itself the two tell the same
(`Source.seen_resolve`): an observer at the debug level sees one event where there
is no blob, the one that belongs to the outcome, and none where there is one.

Fetching swallows the failure that a number names nothing, since it was looked up
before. So a source must not answer with it by itself; none of the library's does.
-/

namespace NamedBlobs

/-- The event that tells of a failure. -/
def ResolveError.report (failure : ResolveError) : Event :=
  match failure with
  | tableMissing _ => .make .debug "lookup table unavailable" [("error", failure.message)]
  | corruptTable _ | corruptCounter _ =>
      .make .warn "lookup table rejected" [("error", failure.message)]
  | resourceMissing id cause =>
      .make .debug "resource unavailable" [("id", id.text), ("error", cause.message)]

/-- The events that tell of the outcome of a lookup by name. -/
def reports : Except Panic (Except ResolveError (Option Blob)) → List Event
  | .ok (.ok (some _)) | .error _ => []
  | .ok (.ok none) => [.make .debug "name not present in lookup table" []]
  | .ok (.error failure) => [failure.report]

/-- What is seen of a panic that was caught. -/
def panicReport : Event := .make .error "panic while resolving" [("e", "Any \x7b .. \x7d")]

theorem Table.Decoding.level_of_mem_events {decoding : Table.Decoding} {event : Event}
    (h : event ∈ decoding.events) : event.level = .trace := by
  rcases decoding with length | ⟨count, _, reader, _ | failure⟩
  · rw [List.mem_singleton.mp h]
    rfl
  · rw [List.mem_singleton.mp h]
    rfl
  · cases h

namespace Source

open Dialogue (fetched tabled resolved resolvedBlob)
open Traced (SilentAt)

variable {σ : Type} {source : Source (Traced σ)}

/-- A source of which nothing is seen at the debug level, and which does not say of
a number that it names nothing. -/
structure Discreet (source : Source (Traced σ)) : Prop where
  silent : ∀ id, SilentAt .debug (source.load id)
  assigns : ∀ id s, id ≠ .unassigned →
    ((source.load id).run s).result ≠ .ok (.error .unassigned)

namespace Discreet

theorem recorded (h : source.Discreet) : source.recorded.Discreet where
  silent id := fun r => h.silent id r.state
  assigns id r hid := h.assigns id r.state hid

variable (h : source.Discreet)
include h

theorem silent_tryFetch (id : ResourceId) : SilentAt .debug (source.tryFetch id) := by
  rw [tryFetch]
  split
  · exact .pure _
  · refine (h.silent id).bind fun found => ?_
    rcases found with failure | loaded
    · exact .pure _
    · dsimp only
      split
      · exact .pure _
      · exact (SilentAt.emit rfl).bind fun _ => .pure _

theorem silent_table : SilentAt .debug source.table := by
  refine (h.silent_tryFetch .table).bind fun found => ?_
  rcases found with failure | blob
  · exact .pure _
  · refine (SilentAt.forM_emit ?_).bind fun _ => ?_
    · intro event hevent
      rw [Table.Decoding.level_of_mem_events hevent]
      rfl
    · rcases (Table.decoding blob.bytes).result with failure | table
      · exact .pure _
      · exact (SilentAt.emit rfl).bind fun _ => .pure _

theorem silent_lookup (name : Bytes) : SilentAt .debug (source.lookup name) := by
  refine h.silent_table.bind fun found => ?_
  cases found <;> exact .pure _

theorem tryFetch_ne_unassigned {id : ResourceId} (hid : ¬ id.isUnassigned = true) (s : σ) :
    ((source.tryFetch id).run s).result ≠ .ok (.error .unassigned) := by
  have hassigned : id ≠ .unassigned := by
    rintro rfl
    exact hid rfl
  have hload := h.assigns id s hassigned
  rw [(source.follows_tryFetch id s).1, Dialogue.tryFetch_of_assigned hid, Dialogue.run_load,
    answer]
  rcases hresult : ((source.load id).run s).result with panic | failure | loaded
  · simp [Except.map]
  · rw [hresult] at hload
    simpa [Except.map, fetched] using hload
  · simp only [Except.map, fetched]
    split <;> simp

end Discreet

/-- A lookup of a number fails for the table and for nothing else. -/
theorem lookup_failure {name : Bytes} {s : σ} {failure : ResolveError}
    (h : ((source.lookup name).run s).result = .ok (.error failure)) :
    (∃ cause, failure = .tableMissing cause) ∨ ∃ cause, failure = .corruptTable cause := by
  rw [(source.follows_lookup name s).1, Dialogue.run_lookup] at h
  rcases hanswer : source.answer .table s with panic | answer
  · rw [hanswer] at h
    cases h
  · rw [hanswer] at h
    rcases hfetched : fetched .table answer with cause | blob
    · simp only [Except.map, hfetched, tabled, Except.ok.injEq, Except.error.injEq] at h
      exact Or.inl ⟨cause, h.symm⟩
    · rcases hdecode : Table.decode blob.bytes with cause | table
      · simp only [Except.map, hfetched, tabled, hdecode, Except.mapError, Except.ok.injEq,
          Except.error.injEq] at h
        exact Or.inr ⟨cause, h.symm⟩
      · simp [Except.map, hfetched, tabled, hdecode, Except.mapError] at h

/-- A name that has a number comes to what is fetched under it. -/
theorem result_tryResolve_of_number {name : Bytes} {s t : σ} {id : ResourceId}
    {events : List Event}
    (hlookup : (source.lookup name).run s = ⟨.ok (.ok id), events, t⟩)
    (hid : ¬ id.isUnassigned = true) :
    ((source.tryResolve name).run s).result =
      ((source.tryFetch id).run t).result.map (resolved id) := by
  rw [tryResolve, Traced.run_bind_ok hlookup]
  simp only [if_neg hid]
  rcases hrun : (source.tryFetch id).run t with ⟨panic | failure | blob, events, u⟩
  · rw [Traced.run_bind_error hrun]
    rfl
  · rw [Traced.run_bind_ok hrun]
    rfl
  · rw [Traced.run_bind_ok hrun]
    rfl

theorem run_fetch_of_unassigned {id : ResourceId} (hid : id.isUnassigned = true) (s : σ) :
    (source.fetch id).run s = ⟨.ok .empty, [], s⟩ := by
  rw [fetch, tryFetch, if_pos hid]
  rfl

/-- Resolving a name never fails for the allocation counter. -/
theorem tryResolve_ne_corruptCounter (name : Bytes) (s : σ) (cause : DecodeError) :
    ((source.tryResolve name).run s).result ≠ .ok (.error (.corruptCounter cause)) := by
  rcases hlookup : (source.lookup name).run s with ⟨panic | failure | id, events, t⟩
  · rw [tryResolve, Traced.run_bind_error hlookup]
    simp
  · have hfailure := lookup_failure (congrArg Traced.Outcome.result hlookup)
    rw [tryResolve, Traced.run_bind_ok hlookup]
    rcases hfailure with ⟨_, rfl⟩ | ⟨_, rfl⟩ <;> simp
  · by_cases hid : id.isUnassigned = true
    · rw [tryResolve, Traced.run_bind_ok hlookup]
      simp [if_pos hid]
    · rw [result_tryResolve_of_number hlookup hid]
      rcases ((source.tryFetch id).run t).result with panic | failure | blob <;>
        simp [Except.map, resolved]

namespace Discreet

variable (h : source.Discreet)
include h

theorem seen_fetch {id : ResourceId} (hid : ¬ id.isUnassigned = true) (s : σ) :
    seenAt .debug ((source.fetch id).run s).events =
      reports (((source.tryFetch id).run s).result.map (resolved id)) := by
  have hne := h.tryFetch_ne_unassigned hid s
  rcases hrun : (source.tryFetch id).run s with ⟨panic | failure | blob, events, t⟩
  · exact (h.silent_tryFetch id).seenAt_bind_of_error hrun _
  · rw [fetch, (h.silent_tryFetch id).seenAt_bind_of_ok hrun]
    cases failure
    case unassigned =>
      rw [hrun] at hne
      exact absurd rfl hne
    all_goals rfl
  · exact (h.silent_tryFetch id).seenAt_bind_of_ok hrun _

/-- What is seen of the collapsing lookup is what the reporting one comes to. -/
theorem seen_resolve (name : Bytes) (s : σ) :
    seenAt .debug ((source.resolve name).run s).events =
      reports ((source.tryResolve name).run s).result := by
  rw [resolve, Traced.run_within, seenAt_within rfl]
  rcases hlookup : (source.lookup name).run s with ⟨panic | failure | id, events, t⟩
  · rw [(h.silent_lookup name).seenAt_bind_of_error hlookup, tryResolve,
      Traced.run_bind_error hlookup]
    rfl
  · have hfailure := lookup_failure (congrArg Traced.Outcome.result hlookup)
    rw [(h.silent_lookup name).seenAt_bind_of_ok hlookup, tryResolve,
      Traced.run_bind_ok hlookup]
    rcases hfailure with ⟨cause, rfl⟩ | ⟨cause, rfl⟩ <;> rfl
  · rw [(h.silent_lookup name).seenAt_bind_of_ok hlookup]
    by_cases hid : id.isUnassigned = true
    · -- the number that names nothing is told of here, and fetching it is silent
      rw [tryResolve, Traced.run_bind_ok hlookup]
      simp only [if_pos hid]
      rw [Traced.run_bind_ok (Traced.run_emit _ t), run_fetch_of_unassigned hid]
      rfl
    · rw [result_tryResolve_of_number hlookup hid]
      simp only [if_neg hid]
      exact h.seen_fetch hid t

end Discreet

/-- Whether there is an event of the given level and message. -/
def Shows (events : List Event) (level : Level) (message : String) : Prop :=
  ∃ event ∈ events, event.level = level ∧ event.message = message

@[simp] theorem not_shows_nil (level : Level) (message : String) : ¬ Shows [] level message := by
  simp [Shows]

@[simp] theorem shows_singleton (event : Event) (level : Level) (message : String) :
    Shows [event] level message ↔ event.level = level ∧ event.message = message := by
  simp [Shows]

/-- The events of a collapsing lookup that comes to `blob` tell of what the reporting
lookup has `found`. -/
structure Tells (events : List Event) (blob : Except Panic Blob)
    (found : Except Panic (Except ResolveError (Option Blob))) : Prop where
  seen : seenAt .debug events = reports found
  one_of_empty : blob = .ok .empty → ∃ event, seenAt .debug events = [event]
  none_of_blob : ∀ value, blob = .ok value → value ≠ .empty → seenAt .debug events = []
  rejected_iff : Shows (seenAt .debug events) .warn "lookup table rejected" ↔
    ∃ cause, found = .ok (.error (.corruptTable cause))
  unavailable_iff : Shows (seenAt .debug events) .debug "lookup table unavailable" ↔
    ∃ cause, found = .ok (.error (.tableMissing cause))
  absent_iff : Shows (seenAt .debug events) .debug "name not present in lookup table" ↔
    found = .ok (.ok none)
  resource_iff : Shows (seenAt .debug events) .debug "resource unavailable" ↔
    ∃ id cause, found = .ok (.error (.resourceMissing id cause))
  no_error : seenAt .error events = []

theorem seenAt_error_reports (found : Except Panic (Except ResolveError (Option Blob))) :
    seenAt .error (reports found) = [] := by
  rcases found with panic | failure | _ | blob
  · rfl
  · cases failure <;> rfl
  · rfl
  · rfl

/-- The reports of a lookup that is not of the allocation counter tell of it. -/
theorem tells_of_reports {events : List Event}
    {found : Except Panic (Except ResolveError (Option Blob))}
    (hseen : seenAt .debug events = reports found)
    (hcounter : ∀ cause, found ≠ .ok (.error (.corruptCounter cause)))
    (hblob : ∀ blob, found = .ok (.ok (some blob)) → blob.bytes ≠ []) :
    Tells events (found.map resolvedBlob) found := by
  have herror : seenAt .error events = [] := by
    have hdebug : seenAt .error (seenAt .debug events) = seenAt .error events :=
      seenAt_seenAt (by decide) events
    rw [← hdebug, hseen, seenAt_error_reports]
  rcases found with panic | failure | _ | blob
  · constructor <;> simp [hseen, herror, reports, Except.map]
  · cases failure
    case corruptCounter cause => exact absurd rfl (hcounter cause)
    all_goals
      constructor <;>
        simp [hseen, herror, reports, ResolveError.report, Event.make, Except.map, resolvedBlob]
  · constructor <;> simp [hseen, herror, reports, Event.make, Except.map, resolvedBlob]
  · have hne : blob ≠ .empty := by
      rintro rfl
      exact hblob _ rfl rfl
    constructor <;> simp [hseen, herror, reports, Except.map, resolvedBlob, hne]

namespace Discreet

theorem tells (h : source.Discreet) (name : Bytes) (s : σ) :
    Tells ((source.resolve name).run s).events ((source.resolve name).run s).result
      ((source.tryResolve name).run s).result := by
  rw [(source.run_resolve_eq name s).1]
  refine tells_of_reports (h.seen_resolve name s)
    (source.tryResolve_ne_corruptCounter name s) fun blob hblob => ?_
  rw [(source.follows_tryResolve name s).1] at hblob
  exact Dialogue.bytes_ne_nil_of_tryResolve hblob

end Discreet

/-- Whether a load panics in a call that resolves into a buffer. -/
def LoadPanics (source : Source (Traced σ)) (allocator : Allocator) (heap : Heap)
    (request : Request) (s : σ) : Prop :=
  ∃ panic, .error panic ∈ source.answers
    ((source.recorded.resolveInto allocator heap request).run ⟨s, []⟩).state.requests s

/-- A call that has a name and a destination for the size reports what the lookup
reports, and then a panic that it caught. -/
theorem events_resolveInto (allocator : Allocator) (heap : Heap) (name : Bytes) (held : Nat)
    (s : σ) :
    ((source.resolveInto allocator heap ⟨some name, some held⟩).run s).events =
      ((source.resolve (terminated name)).run s).events ++
        match ((source.resolve (terminated name)).run s).result with
        | .ok _ => []
        | .error _ => [panicReport] := by
  rw [resolveInto, Traced.run_bind_ok (Traced.run_attempt _ s)]
  rcases ((source.resolve (terminated name)).run s).result with panic | blob
  · rfl
  · rfl

/-- A call panics in a load if and only if the lookup behind it panics. -/
theorem loadPanics_iff (allocator : Allocator) (heap : Heap) (name : Bytes) (held : Nat)
    (s : σ) :
    source.LoadPanics allocator heap ⟨some name, some held⟩ s ↔
      ∃ panic, ((source.resolve (terminated name)).run s).result = .error panic := by
  have hblob := source.exists_blob_iff allocator heap name held s
  rw [LoadPanics, ← not_iff_not, not_exists, ← hblob]
  rcases ((source.resolve (terminated name)).run s).result with panic | blob <;> simp

/-- Nothing is loaded for a call without a name or a destination for the size. -/
theorem not_loadPanics {allocator : Allocator} {heap : Heap} {request : Request} {s : σ}
    (h : ((Dialogue.resolveInto allocator heap request).run source s).asked = []) :
    ¬ source.LoadPanics allocator heap request s := by
  rw [LoadPanics, requests_resolveInto, h]
  simp [answers]

/-- A call reports an error if and only if a load panics in it, one event at the
end of what the lookup reports. -/
theorem Discreet.seen_resolveInto (h : source.Discreet) (allocator : Allocator) (heap : Heap)
    (request : Request) (s : σ) :
    (source.LoadPanics allocator heap request s →
      seenAt .error ((source.resolveInto allocator heap request).run s).events =
        [panicReport]) ∧
    (¬ source.LoadPanics allocator heap request s →
      seenAt .error ((source.resolveInto allocator heap request).run s).events = []) ∧
    ∀ name held, request = ⟨some name, some held⟩ →
      seenAt .debug ((source.resolveInto allocator heap request).run s).events =
        seenAt .debug ((source.resolve (terminated name)).run s).events ++
          seenAt .error ((source.resolveInto allocator heap request).run s).events := by
  obtain ⟨_ | name, _ | held⟩ := request
  · exact ⟨fun hpanics => absurd hpanics (not_loadPanics rfl), fun _ => rfl, by simp⟩
  · exact ⟨fun hpanics => absurd hpanics (not_loadPanics rfl), fun _ => rfl, by simp⟩
  · exact ⟨fun hpanics => absurd hpanics (not_loadPanics rfl), fun _ => rfl, by simp⟩
  · have hlookup := (h.tells (terminated name) s).no_error
    rw [loadPanics_iff, events_resolveInto, seenAt_append, hlookup]
    rcases hresult : ((source.resolve (terminated name)).run s).result with panic | blob
    · refine ⟨fun _ => rfl, fun hnone => absurd ⟨panic, rfl⟩ hnone, ?_⟩
      rintro _ _ ⟨rfl⟩
      rw [seenAt_append]
      rfl
    · refine ⟨?_, fun _ => rfl, ?_⟩
      · rintro ⟨_, ⟨⟩⟩
      · rintro _ _ ⟨rfl⟩
        rw [seenAt_append]
        rfl

end Source

theorem Memory.discreet : Memory.source.Discreet where
  silent id := fun _ => rfl
  assigns id memory _ := by
    change Except.ok (memory.load id) ≠ _
    rw [load]
    rcases memory.get? id with _ | _ | ⟨byte, rest⟩ <;> simp

theorem Directory.discreet (directory : Directory) :
    (directory.source : Source (Traced FileTree)).Discreet where
  silent id := fun tree => by
    rw [run_load]
    rfl
  assigns id tree _ := by
    rw [run_load]
    change Except.ok (loaded id (tree.read (directory.pathOf id))) ≠ _
    rcases tree.read (directory.pathOf id) with failure | bytes
    · cases failure <;> simp [loaded]
    · simp only [loaded]
      split <;> simp

theorem Script.discreet {σ : Type} {scripts : List (ResourceId × Script)}
    (h : ∀ id, (id, .failure .unassigned) ∉ scripts) :
    (Script.source scripts : Source (Traced σ)).Discreet where
  silent id := fun s => by
    simp only [source]
    rcases scripts.lookup id with _ | data | cause | note <;> rfl
  assigns id s _ := by
    simp only [source]
    rcases hscript : scripts.lookup id with _ | data | cause | note
    · simp
    · simp
    · obtain ⟨front, back, hsplit, -⟩ := List.lookup_eq_some_iff.mp hscript
      simp only [Traced.run_pure, ne_eq, Except.ok.injEq, Except.error.injEq]
      rintro rfl
      refine h id ?_
      rw [hsplit]
      exact List.mem_append_right front List.mem_cons_self
    · simp

namespace Source

/-- The journal and the reporting lookup tell the same of every name, over a memory,
a directory, a source that is recorded and every other one that keeps quiet itself.
Handing the blob out adds an event for a panic and nothing else that is seen at the
debug level. -/
theorem journal_tells :
    Memory.source.Discreet ∧
    (∀ directory : Directory, (directory.source : Source (Traced FileTree)).Discreet) ∧
    ∀ {σ : Type} (source : Source (Traced σ)), source.Discreet → source.recorded.Discreet ∧
      ∀ s,
        (∀ name, Tells ((source.resolve name).run s).events
          ((source.resolve name).run s).result ((source.tryResolve name).run s).result) ∧
        ∀ allocator heap request,
          (source.LoadPanics allocator heap request s →
            seenAt .error ((source.resolveInto allocator heap request).run s).events =
              [panicReport]) ∧
          (¬ source.LoadPanics allocator heap request s →
            seenAt .error ((source.resolveInto allocator heap request).run s).events = []) ∧
          ∀ name held, request = ⟨some name, some held⟩ →
            seenAt .debug ((source.resolveInto allocator heap request).run s).events =
              seenAt .debug ((source.resolve (terminated name)).run s).events ++
                seenAt .error ((source.resolveInto allocator heap request).run s).events := by
  refine ⟨Memory.discreet, Directory.discreet, ?_⟩
  intro σ source h
  refine ⟨h.recorded, fun s => ⟨?_, ?_⟩⟩
  · intro name
    exact h.tells name s
  · intro allocator heap request
    exact h.seen_resolveInto allocator heap request s

/-- A source with a table of one name, whose resource panics. -/
def panicking : Source (Traced Unit) :=
  Script.source [(.table, .bytes (Table.encode ⟨[⟨[0x70], 200⟩]⟩)), (⟨200⟩, .panic "exploded")]

/-- One name is not in the table, and the load for the other one panics. -/
theorem journal_tells_panicking :
    seenAt .debug ((panicking.resolve [0x71]).run ()).events =
      [.make .debug "name not present in lookup table" []] ∧
    seenAt .error ((panicking.resolveInto .bump .empty ⟨some [0x70], some 7⟩).run ()).events =
      [panicReport] := by
  have hdiscreet : panicking.Discreet := Script.discreet (by simp)
  obtain ⟨-, hrun⟩ := journal_tells.2.2 panicking hdiscreet
  obtain ⟨htells, hinto⟩ := hrun ()
  have hfound : ((panicking.tryResolve [0x71]).run ()).result = .ok (.ok none) := by
    decide +kernel
  have hanswers : panicking.answers
      ((panicking.recorded.resolveInto .bump .empty ⟨some [0x70], some 7⟩).run
        ⟨(), []⟩).state.requests () =
      [.ok (.ok (Table.encode ⟨[⟨[0x70], 200⟩]⟩)), .error ⟨"exploded"⟩] := by
    decide +kernel
  refine ⟨?_, (hinto .bump .empty ⟨some [0x70], some 7⟩).1 ⟨⟨"exploded"⟩, ?_⟩⟩
  · rw [(htells [0x71]).seen, hfound]
    rfl
  · rw [hanswers]
    simp

end Source

end NamedBlobs
