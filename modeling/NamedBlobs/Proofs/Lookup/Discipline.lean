import NamedBlobs.Proofs.Buffer.Containment

/-!
# Which loads are made

A source is asked for a resource by calls of the library, and now and then
directly. The loads of a call depend on the answers to them and on nothing else:
`Call.loads` says which they are. Over any steps one after the other the loads
are those of the steps in their order, a recorded source remembers exactly these
since it was last cleared, and no call asks for the number that names nothing.

A step that panics is caught, so the steps behind it are made as well; steps that
end with a panic are those up to it.
-/

namespace NamedBlobs

/-- A call of the library that looks into a source. One that hands a buffer out
takes the heap as it finds it. -/
inductive Call where
  | fetch (id : ResourceId)
  | tryFetch (id : ResourceId)
  | resolve (name : Bytes)
  | tryResolve (name : Bytes)
  | table
  | lastAllocated
  | resolveInto (allocator : Allocator) (heap : Heap) (request : Request)

/-- What is done with a source that may be recorded. -/
inductive Step where
  | call (call : Call)
  | load (id : ResourceId)
  | clear

/-- What a step comes back with. -/
inductive Found where
  | blob (blob : Blob)
  | fetched (found : Except LocateError Blob)
  | resolved (found : Except ResolveError (Option Blob))
  | table (found : Except ResolveError Table)
  | counter (found : Except ResolveError (Option ResourceId))
  | buffer (found : Reply × Heap)
  | loaded (answer : Except LocateError Bytes)
  | cleared

variable {σ τ : Type}

namespace Call

def perform (source : Source (Traced σ)) : Call → Traced σ Found
  | fetch id => Found.blob <$> source.fetch id
  | tryFetch id => Found.fetched <$> source.tryFetch id
  | resolve name => Found.blob <$> source.resolve name
  | tryResolve name => Found.resolved <$> source.tryResolve name
  | table => Found.table <$> source.table
  | lastAllocated => Found.counter <$> source.lastAllocated
  | resolveInto allocator heap request => Found.buffer <$> source.resolveInto allocator heap request

def dialogue : Call → Dialogue (Except Panic Found)
  | fetch id => (Dialogue.fetch id).map (Except.map Found.blob)
  | tryFetch id => (Dialogue.tryFetch id).map (Except.map Found.fetched)
  | resolve name => (Dialogue.resolve name).map (Except.map Found.blob)
  | tryResolve name => (Dialogue.tryResolve name).map (Except.map Found.resolved)
  | table => Dialogue.table.map (Except.map Found.table)
  | lastAllocated => Dialogue.lastAllocated.map (Except.map Found.counter)
  | resolveInto allocator heap request =>
      (Dialogue.resolveInto allocator heap request).map (Except.map Found.buffer)

/-- The loads of a call that is made in the state `s`. A lookup by name loads the
table and then the resource that the table points at. -/
def loads (source : Source (Traced σ)) (s : σ) : Call → List ResourceId
  | fetch id | tryFetch id => if id.isUnassigned then [] else [id]
  | resolve name | tryResolve name =>
      .table :: (Dialogue.pointed name (source.answer .table s)).toList
  | table => [.table]
  | lastAllocated => [.lastAllocated]
  | resolveInto _ _ ⟨some name, some _⟩ =>
      .table :: (Dialogue.pointed (terminated name) (source.answer .table s)).toList
  | resolveInto _ _ ⟨_, _⟩ => []

theorem follows_perform (source : Source (Traced σ)) (call : Call) :
    source.Follows (call.perform source) call.dialogue := by
  cases call with
  | fetch id => exact (source.follows_fetch id).map Found.blob
  | tryFetch id => exact (source.follows_tryFetch id).map Found.fetched
  | resolve name => exact (source.follows_resolve name).map Found.blob
  | tryResolve name => exact (source.follows_tryResolve name).map Found.resolved
  | table => exact source.follows_table.map Found.table
  | lastAllocated => exact source.follows_lastAllocated.map Found.counter
  | resolveInto allocator heap request =>
      exact (source.follows_resolveInto allocator heap request).map Found.buffer

theorem asked_dialogue (source : Source (Traced σ)) (call : Call) (s : σ) :
    (call.dialogue.run source s).asked = call.loads source s := by
  cases call with
  | fetch id => simp [dialogue, loads, Dialogue.fetch, Dialogue.asked_tryFetch]
  | tryFetch id => simp [dialogue, loads, Dialogue.asked_tryFetch]
  | resolve name =>
      simp [dialogue, loads, Dialogue.resolve_eq_map_tryResolve, Dialogue.asked_tryResolve]
  | tryResolve name => simp [dialogue, loads, Dialogue.asked_tryResolve]
  | table =>
      simp only [dialogue, loads, Dialogue.table, Dialogue.run_map, Dialogue.asked_tryFetch]
      rfl
  | lastAllocated =>
      simp only [dialogue, loads, Dialogue.lastAllocated, Dialogue.run_map,
        Dialogue.asked_tryFetch]
      rfl
  | resolveInto allocator heap request =>
      rcases request with ⟨_ | name, _ | held⟩
      · rfl
      · rfl
      · rfl
      · simp [dialogue, loads, Dialogue.resolveInto, Dialogue.resolve_eq_map_tryResolve,
          Dialogue.asked_tryResolve]

/-- No call asks for the number that names nothing. -/
theorem unassigned_notMem_loads (source : Source (Traced σ)) (s : σ) (call : Call) :
    .unassigned ∉ call.loads source s := by
  have hpointed : ∀ name answer, .unassigned ∉
      ResourceId.table :: (Dialogue.pointed name answer).toList := by
    intro name answer hmem
    rcases List.mem_cons.mp hmem with htable | hpoint
    · exact absurd htable (by decide)
    · rw [Option.mem_toList] at hpoint
      exact Dialogue.pointed_ne_unassigned hpoint rfl
  have hfetch : ∀ id : ResourceId, .unassigned ∉ if id.isUnassigned then [] else [id] := by
    intro id
    split
    · simp
    · next hid =>
        intro hmem
        rw [List.mem_singleton] at hmem
        rw [← hmem] at hid
        exact hid rfl
  cases call with
  | fetch id => exact hfetch id
  | tryFetch id => exact hfetch id
  | resolve name => exact hpointed name _
  | tryResolve name => exact hpointed name _
  | table => simp [loads, ResourceId.unassigned, ResourceId.table]
  | lastAllocated => simp [loads, ResourceId.unassigned, ResourceId.lastAllocated]
  | resolveInto allocator heap request =>
      rcases request with ⟨_ | name, _ | held⟩
      · simp [loads]
      · simp [loads]
      · simp [loads]
      · exact hpointed _ _

end Call

namespace Step

/-- Does the step; `clear` is what clears the requests. -/
def perform (source : Source (Traced σ)) (clear : Traced σ Unit) : Step → Traced σ Found
  | call made => made.perform source
  | load id => (fun found => Found.loaded (found.map Loaded.bytes)) <$> source.load id
  | .clear => (fun _ => Found.cleared) <$> clear

def dialogue : Step → Dialogue (Except Panic Found)
  | call made => made.dialogue
  | load id => Dialogue.load id Found.loaded
  | clear => .done (.ok .cleared)

/-- The loads of a step that is made in the state `s`. -/
def loads (source : Source (Traced σ)) (s : σ) : Step → List ResourceId
  | call made => made.loads source s
  | load id => [id]
  | clear => []

theorem follows_perform (source : Source (Traced σ)) {clear : Traced σ Unit}
    (hclear : source.Follows clear (.done (.ok ()))) (step : Step) :
    source.Follows (step.perform source clear) step.dialogue := by
  cases step with
  | call call => exact call.follows_perform source
  | load id =>
      rw [perform, ← bind_pure_comp]
      exact Source.Follows.load_bind id fun found => Source.Follows.pure _
  | clear => exact hclear.map fun _ => Found.cleared

theorem asked_dialogue (source : Source (Traced σ)) (step : Step) (s : σ) :
    (step.dialogue.run source s).asked = step.loads source s := by
  cases step with
  | call call => exact call.asked_dialogue source s
  | load id => rfl
  | clear => rfl

/-- A step other than clearing, over a recorded source. -/
theorem run_perform_recorded (source : Source (Traced σ)) {step : Step} (h : step ≠ clear)
    (r : Recorded σ) :
    ((step.perform source.recorded Recorded.clear).run r).result =
        ((step.perform source (pure ())).run r.state).result ∧
      ((step.perform source.recorded Recorded.clear).run r).state =
        ⟨((step.perform source (pure ())).run r.state).state,
          r.requests ++ step.loads source r.state⟩ := by
  have hfollows : source.recorded.Follows (step.perform source.recorded Recorded.clear)
      step.dialogue := by
    cases step with
    | call call => exact call.follows_perform source.recorded
    | load id => exact follows_perform source.recorded (Source.Follows.pure ()) (load id)
    | clear => exact absurd rfl h
  obtain ⟨hresult, hstate⟩ := step.follows_perform source (Source.Follows.pure ()) r.state
  obtain ⟨hresult', hstate'⟩ := hfollows.run_recorded r
  rw [hresult, hstate, hresult', hstate', step.asked_dialogue]
  exact ⟨rfl, rfl⟩

/-- Does the steps one after the other. Each panic is caught. -/
def performAll (source : Source (Traced σ)) (clear : Traced σ Unit) :
    List Step → Traced σ (List (Except Panic Found))
  | [] => pure []
  | step :: steps => do
      let found ← Traced.attempt (step.perform source clear)
      let rest ← performAll source clear steps
      return found :: rest

def dialogueAll : List Step → Dialogue (Except Panic (List (Except Panic Found)))
  | [] => .done (.ok [])
  | step :: steps =>
      step.dialogue.bind fun found => (dialogueAll steps).map (Except.map (found :: ·))

/-- The loads of steps that are made from the state `s` on, each step in the state
that those before it left. -/
def loadsAll (source : Source (Traced σ)) : List Step → (s : σ) → List ResourceId
  | [], _ => []
  | step :: steps, s =>
      step.loads source s ++ loadsAll source steps ((step.perform source (pure ())).run s).state

/-- A step and those behind it, which go on from the state that it left. -/
theorem run_performAll_cons (source : Source (Traced σ)) (clear : Traced σ Unit) (step : Step)
    (steps : List Step) (s : σ) :
    ((performAll source clear (step :: steps)).run s).result =
        ((performAll source clear steps).run
          ((step.perform source clear).run s).state).result.map
            (((step.perform source clear).run s).result :: ·) ∧
      ((performAll source clear (step :: steps)).run s).state =
        ((performAll source clear steps).run ((step.perform source clear).run s).state).state := by
  rw [performAll, Traced.run_bind_ok (Traced.run_attempt (step.perform source clear) s)]
  rcases hrest : (performAll source clear steps).run ((step.perform source clear).run s).state with
    ⟨panic | rest, events, t⟩
  · rw [Traced.run_bind_error hrest]
    exact ⟨rfl, rfl⟩
  · rw [Traced.run_bind_ok hrest]
    exact ⟨rfl, rfl⟩

theorem unassigned_notMem_loadsAll (source : Source (Traced σ)) (calls : List Call) (s : σ) :
    .unassigned ∉ loadsAll source (calls.map .call) s := by
  induction calls generalizing s with
  | nil => simp [loadsAll]
  | cons made calls ih =>
      rw [List.map_cons, loadsAll, List.mem_append, not_or]
      exact ⟨made.unassigned_notMem_loads source s, ih _⟩

theorem state_performAll_append (source : Source (Traced σ)) (clear : Traced σ Unit)
    (before after : List Step) (s : σ) :
    ((performAll source clear (before ++ after)).run s).state =
      ((performAll source clear after).run
        ((performAll source clear before).run s).state).state := by
  induction before generalizing s with
  | nil => rfl
  | cons step steps ih =>
      rw [List.cons_append, (run_performAll_cons source clear step _ s).2,
        (run_performAll_cons source clear step _ s).2, ih]

theorem follows_performAll (source : Source (Traced σ)) (steps : List Step) :
    source.Follows (performAll source (pure ()) steps) (dialogueAll steps) := by
  induction steps with
  | nil => exact Source.Follows.pure []
  | cons step steps ih =>
      refine (step.follows_perform source (Source.Follows.pure ())).attempt_bind fun found => ?_
      exact ih.bind_map fun rest => Source.Follows.pure (found :: rest)

theorem asked_dialogueAll (source : Source (Traced σ)) (steps : List Step) (s : σ) :
    ((dialogueAll steps).run source s).asked = loadsAll source steps s := by
  induction steps generalizing s with
  | nil => rfl
  | cons step steps ih =>
      have hstate := (step.follows_perform source (Source.Follows.pure ()) s).2
      rw [dialogueAll, Dialogue.run_bind, Dialogue.run_map, step.asked_dialogue, ih, ← hstate,
        loadsAll]

/-- A recorded source answers as the source itself, through all steps. -/
theorem run_performAll_recorded (source : Source (Traced σ)) (steps : List Step)
    (r : Recorded σ) :
    ((performAll source.recorded Recorded.clear steps).run r).result =
        ((performAll source (pure ()) steps).run r.state).result ∧
      ((performAll source.recorded Recorded.clear steps).run r).state.state =
        ((performAll source (pure ()) steps).run r.state).state := by
  induction steps generalizing r with
  | nil => exact ⟨rfl, rfl⟩
  | cons step steps ih =>
      have hstep : ((step.perform source.recorded Recorded.clear).run r).result =
            ((step.perform source (pure ())).run r.state).result ∧
          ((step.perform source.recorded Recorded.clear).run r).state.state =
            ((step.perform source (pure ())).run r.state).state := by
        -- clearing changes what is remembered, never the source behind it
        by_cases hclear : step = .clear
        · subst hclear
          exact ⟨rfl, rfl⟩
        · obtain ⟨hresult, hstate⟩ := run_perform_recorded source hclear r
          exact ⟨hresult, congrArg Recorded.state hstate⟩
      obtain ⟨hresult, hstate⟩ := run_performAll_cons source.recorded Recorded.clear step steps r
      obtain ⟨hresult', hstate'⟩ := run_performAll_cons source (pure ()) step steps r.state
      obtain ⟨hrest, hrest'⟩ := ih ((step.perform source.recorded Recorded.clear).run r).state
      rw [hstep.2] at hrest hrest'
      constructor
      · rw [hresult, hresult', hrest, hstep.1]
      · rw [hstate, hstate', hrest']

/-- Through steps that do not clear, a recorded source remembers what it was asked
for on top of what it remembered. -/
theorem requests_performAll_recorded (source : Source (Traced σ)) {steps : List Step}
    (h : .clear ∉ steps) (r : Recorded σ) :
    ((performAll source.recorded Recorded.clear steps).run r).state.requests =
      r.requests ++ loadsAll source steps r.state := by
  induction steps generalizing r with
  | nil => exact (List.append_nil r.requests).symm
  | cons step steps ih =>
      rw [List.mem_cons, not_or] at h
      obtain ⟨-, hstate⟩ := run_perform_recorded source (Ne.symm h.1) r
      rw [(run_performAll_cons source.recorded Recorded.clear step steps r).2, hstate, ih h.2,
        loadsAll, List.append_assoc]

theorem requests_performAll_clear (source : Source (Traced σ)) (before : List Step)
    {after : List Step} (h : .clear ∉ after) (r : Recorded σ) :
    ((performAll source.recorded Recorded.clear (before ++ .clear :: after)).run
        r).state.requests =
      loadsAll source after ((performAll source (pure ()) before).run r.state).state := by
  rw [state_performAll_append, (run_performAll_cons source.recorded Recorded.clear .clear _ _).2,
    requests_performAll_recorded source h, ← (run_performAll_recorded source before r).2]
  rfl

/-- Whatever the source, the loads of steps are those that the steps make by
themselves, in their order. No call asks for the number that names nothing. A
recorded source answers as the source does and remembers the loads since it was
last cleared. A source that answers the same to these loads gives the same
results. -/
theorem load_discipline (source : Source (Traced σ)) (s : σ) :
    (∀ calls : List Call, .unassigned ∉
      ((performAll source.recorded Recorded.clear (calls.map .call)).run
        ⟨s, []⟩).state.requests) ∧
    (∀ (steps : List Step) (earlier : List ResourceId),
      ((performAll source.recorded Recorded.clear steps).run ⟨s, earlier⟩).result =
        ((performAll source (pure ()) steps).run s).result ∧
      (.clear ∉ steps →
        ((performAll source.recorded Recorded.clear steps).run ⟨s, earlier⟩).state.requests =
          earlier ++ loadsAll source steps s) ∧
      ∀ before after, steps = before ++ .clear :: after → .clear ∉ after →
        ((performAll source.recorded Recorded.clear steps).run ⟨s, earlier⟩).state.requests =
          loadsAll source after ((performAll source (pure ()) before).run s).state) ∧
    ∀ (τ : Type) (other : Source (Traced τ)) (t : τ) (steps : List Step),
      other.answers (loadsAll source steps s) t = source.answers (loadsAll source steps s) s →
        ((performAll other (pure ()) steps).run t).result =
            ((performAll source (pure ()) steps).run s).result ∧
          loadsAll other steps t = loadsAll source steps s := by
  refine ⟨?_, ?_, ?_⟩
  · intro calls
    rw [requests_performAll_recorded source (by simp)]
    exact unassigned_notMem_loadsAll source calls s
  · intro steps earlier
    refine ⟨(run_performAll_recorded source steps ⟨s, earlier⟩).1, ?_, ?_⟩
    · intro hclear
      exact requests_performAll_recorded source hclear ⟨s, earlier⟩
    · rintro before after rfl hclear
      exact requests_performAll_clear source before hclear ⟨s, earlier⟩
  · intro τ other t steps halike
    rw [← asked_dialogueAll] at halike
    obtain ⟨hvalue, hasked⟩ := Dialogue.run_alike source other (dialogueAll steps) s t halike
    rw [asked_dialogueAll, asked_dialogueAll] at hasked
    refine ⟨?_, hasked⟩
    rw [(follows_performAll other steps t).1, (follows_performAll source steps s).1, hvalue]

/-- A name that stands for the number of the table has the table loaded twice, and
fetching the number that names nothing loads nothing. -/
theorem load_discipline_table_twice :
    ((performAll (Script.source [(.table, .bytes (Table.encode ⟨[⟨[0x70], 103⟩]⟩))]).recorded
        Recorded.clear
        ([.load ⟨7⟩] ++ .clear :: [.call (.resolve [0x70]), .call (.fetch .unassigned),
          .load ⟨7⟩, .call .lastAllocated])).run ⟨(), []⟩).state.requests =
      [.table, .table, ⟨7⟩, .lastAllocated] := by
  obtain ⟨-, -, hcleared⟩ :=
    (load_discipline (Script.source [(.table, .bytes (Table.encode ⟨[⟨[0x70], 103⟩]⟩))]) ()).2.1
      ([.load ⟨7⟩] ++ .clear :: [.call (.resolve [0x70]), .call (.fetch .unassigned),
        .load ⟨7⟩, .call .lastAllocated]) []
  rw [hcleared _ _ rfl (by simp)]
  decide +kernel

end Step

end NamedBlobs
