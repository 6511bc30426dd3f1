import NamedBlobs.Journal

/-!
# Computations over a state that keep a journal

`Traced σ α` is a computation over a state `σ` that either ends with a value or
is stopped by a panic, and in both cases leaves a state and the events that
happened, in order. The events of a sequence are those of its parts one after
the other (`Traced.run_bind`), so what a computation reports does not depend on
what was reported before it.
-/

namespace NamedBlobs

/-- A computation was stopped by a fault of the code it called. -/
structure Panic where
  note : String
  deriving DecidableEq

namespace Traced

/-- How a computation ended, what it reported and the state it left. -/
structure Outcome (σ α : Type) where
  result : Except Panic α
  events : List Event
  state : σ

end Traced

/-- A computation over a state `σ` that keeps a journal and can be stopped by a
panic. -/
structure Traced (σ α : Type) where
  run : σ → Traced.Outcome σ α

namespace Traced

variable {σ τ α β : Type}

@[ext] theorem ext {x y : Traced σ α} (h : ∀ s, x.run s = y.run s) : x = y := by
  cases x
  cases y
  simp only [mk.injEq]
  exact funext h

/-- Runs `x` and then, unless it panicked, what `f` makes of its value. -/
protected def bind (x : Traced σ α) (f : α → Traced σ β) : Traced σ β where
  run s :=
    match x.run s with
    | ⟨.ok value, events, s⟩ =>
        let next := (f value).run s
        ⟨next.result, events ++ next.events, next.state⟩
    | ⟨.error panic, events, s⟩ => ⟨.error panic, events, s⟩

instance : Monad (Traced σ) where
  pure value := ⟨fun s => ⟨.ok value, [], s⟩⟩
  bind := Traced.bind

@[simp] theorem run_pure (value : α) (s : σ) :
    (pure value : Traced σ α).run s = ⟨.ok value, [], s⟩ := rfl

/-- What a sequence does after a first part that ended with a value. -/
theorem run_bind_ok {x : Traced σ α} {s t : σ} {value : α} {events : List Event}
    (h : x.run s = ⟨.ok value, events, t⟩) (f : α → Traced σ β) :
    (x >>= f).run s =
      ⟨((f value).run t).result, events ++ ((f value).run t).events,
        ((f value).run t).state⟩ := by
  change (Traced.bind x f).run s = _
  simp only [Traced.bind, h]

/-- A sequence stops where its first part panics. -/
theorem run_bind_error {x : Traced σ α} {s t : σ} {panic : Panic} {events : List Event}
    (h : x.run s = ⟨.error panic, events, t⟩) (f : α → Traced σ β) :
    (x >>= f).run s = ⟨.error panic, events, t⟩ := by
  change (Traced.bind x f).run s = _
  simp only [Traced.bind, h]

instance : LawfulMonad (Traced σ) := LawfulMonad.mk' (Traced σ)
  (by
    intro α x
    ext s
    rcases hx : x.run s with ⟨_ | value, events, t⟩
    · exact run_bind_error hx _
    · exact (run_bind_ok hx _).trans (by simp))
  (by
    intro α β value f
    ext s
    exact (run_bind_ok (run_pure value s) f).trans (by simp))
  (by
    intro α β γ x f g
    ext s
    rcases hx : x.run s with ⟨_ | value, events, t⟩
    · rw [run_bind_error (run_bind_error hx f) g, run_bind_error hx]
    · rw [run_bind_ok hx]
      rcases hf : (f value).run t with ⟨panic | value', events', t'⟩
      · have hxf : (x >>= f).run s = ⟨.error panic, events ++ events', t'⟩ := by
          rw [run_bind_ok hx, hf]
        rw [run_bind_error hxf, run_bind_error hf]
      · have hxf : (x >>= f).run s = ⟨.ok value', events ++ events', t'⟩ := by
          rw [run_bind_ok hx, hf]
        rw [run_bind_ok hxf, run_bind_ok hf]
        simp)

/-- A change of the value changes nothing else. -/
theorem run_map (f : α → β) (x : Traced σ α) (s : σ) :
    (f <$> x).run s = ⟨(x.run s).result.map f, (x.run s).events, (x.run s).state⟩ := by
  rw [← bind_pure_comp]
  rcases hx : x.run s with ⟨panic | value, events, t⟩
  · rw [run_bind_error hx]
    rfl
  · rw [run_bind_ok hx, run_pure, List.append_nil]
    rfl

def get : Traced σ σ := ⟨fun s => ⟨.ok s, [], s⟩⟩

def step (f : σ → α × σ) : Traced σ α := ⟨fun s => ⟨.ok (f s).1, [], (f s).2⟩⟩

def modify (f : σ → σ) : Traced σ Unit := step fun s => ((), f s)

def panic (note : String) : Traced σ α := ⟨fun s => ⟨.error ⟨note⟩, [], s⟩⟩

/-- Runs `x` and catches its panic. What happened before it stands. -/
def attempt (x : Traced σ α) : Traced σ (Except Panic α) where
  run s :=
    let outcome := x.run s
    ⟨.ok outcome.result, outcome.events, outcome.state⟩

def focus (part : σ → τ) (put : τ → σ → σ) (x : Traced τ α) : Traced σ α where
  run s :=
    let outcome := x.run (part s)
    ⟨outcome.result, outcome.events, put outcome.state s⟩

instance : MonadJournal (Traced σ) where
  emit event := ⟨fun s => ⟨.ok (), [event], s⟩⟩
  within span x :=
    ⟨fun s =>
      let outcome := x.run s
      ⟨outcome.result, outcome.events.map (Event.within span), outcome.state⟩⟩

@[simp] theorem run_emit (event : Event) (s : σ) :
    (emit event : Traced σ Unit).run s = ⟨.ok (), [event], s⟩ := rfl

@[simp] theorem run_get (s : σ) : (get : Traced σ σ).run s = ⟨.ok s, [], s⟩ := rfl

@[simp] theorem run_step (f : σ → α × σ) (s : σ) :
    (step f).run s = ⟨.ok (f s).1, [], (f s).2⟩ := rfl

@[simp] theorem run_attempt (x : Traced σ α) (s : σ) :
    (attempt x).run s = ⟨.ok (x.run s).result, (x.run s).events, (x.run s).state⟩ := rfl

@[simp] theorem run_focus (part : σ → τ) (put : τ → σ → σ) (x : Traced τ α) (s : σ) :
    (focus part put x).run s =
      ⟨(x.run (part s)).result, (x.run (part s)).events, put (x.run (part s)).state s⟩ := rfl

@[simp] theorem run_within (span : Span) (x : Traced σ α) (s : σ) :
    (MonadJournal.within span x : Traced σ α).run s =
      ⟨(x.run s).result, (x.run s).events.map (Event.within span), (x.run s).state⟩ := rfl

@[simp] theorem run_panic (note : String) (s : σ) :
    (panic note : Traced σ α).run s = ⟨.error ⟨note⟩, [], s⟩ := rfl

end Traced

end NamedBlobs
