import NamedBlobs.Traced

/-!
# What an observer sees

An observer at a level sees of a sequence what it sees of the parts
(`seenAt_append`), and a higher observer sees no more of a journal than of what
a lower one has seen of it (`seenAt_seenAt`). A span below the level changes
nothing that is seen (`seenAt_within`).

A computation is silent at a level if an observer there sees nothing of it, from
whatever state it runs. Sequences of silent computations are silent, and behind a
silent first part only the second part is seen.
-/

namespace NamedBlobs

theorem seenAt_append (threshold : Level) (first second : List Event) :
    seenAt threshold (first ++ second) = seenAt threshold first ++ seenAt threshold second :=
  List.filterMap_append

theorem seenAt_within {threshold : Level} {span : Span}
    (h : threshold.admits span.level = false) (events : List Event) :
    seenAt threshold (events.map (Event.within span)) = seenAt threshold events := by
  rw [seenAt, seenAt, List.filterMap_map]
  congr 1
  funext event
  simp [Event.seenAt, Event.within, h]

theorem Level.admits_of_le {lower higher level : Level} (h : lower.severity ≤ higher.severity)
    (hadmits : higher.admits level = true) : lower.admits level = true :=
  decide_eq_true (Nat.le_trans h (of_decide_eq_true hadmits))

/-- A higher observer misses nothing by looking at what a lower one has seen. -/
theorem seenAt_seenAt {lower higher : Level} (h : lower.severity ≤ higher.severity)
    (events : List Event) : seenAt higher (seenAt lower events) = seenAt higher events := by
  rw [seenAt, seenAt, seenAt, List.filterMap_filterMap]
  congr 1
  funext event
  by_cases hseen : higher.admits event.level = true
  · have hspans : (event.spans.filter (lower.admits ·.level)).filter (higher.admits ·.level) =
        event.spans.filter (higher.admits ·.level) := by
      rw [List.filter_filter]
      congr 1
      funext span
      by_cases hspan : higher.admits span.level = true
      · simp [hspan, Level.admits_of_le h hspan]
      · simp [hspan]
    simp [Event.seenAt, hseen, Level.admits_of_le h hseen, hspans]
  · by_cases hlower : lower.admits event.level = true <;> simp [Event.seenAt, hseen, hlower]

namespace Traced

variable {σ α β : Type} {threshold : Level}

/-- An observer at the level sees nothing of the computation. -/
def SilentAt (threshold : Level) (x : Traced σ α) : Prop :=
  ∀ s, seenAt threshold (x.run s).events = []

namespace SilentAt

theorem pure (value : α) : SilentAt threshold (Pure.pure value : Traced σ α) := fun _ => rfl

/-- Behind a silent first part that ends with a value, only the second part is
seen. -/
theorem seenAt_bind_of_ok {x : Traced σ α} (hx : SilentAt threshold x) {s t : σ} {value : α}
    {events : List Event} (h : x.run s = ⟨.ok value, events, t⟩) (f : α → Traced σ β) :
    seenAt threshold ((x >>= f).run s).events = seenAt threshold ((f value).run t).events := by
  have hfirst := hx s
  rw [h] at hfirst
  rw [run_bind_ok h, seenAt_append, hfirst, List.nil_append]

theorem seenAt_bind_of_error {x : Traced σ α} (hx : SilentAt threshold x) {s t : σ}
    {panic : Panic} {events : List Event} (h : x.run s = ⟨.error panic, events, t⟩)
    (f : α → Traced σ β) : seenAt threshold ((x >>= f).run s).events = [] := by
  have hfirst := hx s
  rw [h] at hfirst
  rw [run_bind_error h]
  exact hfirst

theorem bind {x : Traced σ α} {f : α → Traced σ β} (hx : SilentAt threshold x)
    (hf : ∀ value, SilentAt threshold (f value)) : SilentAt threshold (x >>= f) := by
  intro s
  rcases hrun : x.run s with ⟨panic | value, events, t⟩
  · exact hx.seenAt_bind_of_error hrun f
  · rw [hx.seenAt_bind_of_ok hrun]
    exact hf value t

theorem emit {event : Event} (h : threshold.admits event.level = false) :
    SilentAt threshold (NamedBlobs.emit event : Traced σ Unit) := by
  intro s
  simp [seenAt, Event.seenAt, h]

theorem forM_emit {events : List Event} (h : ∀ event ∈ events,
    threshold.admits event.level = false) :
    SilentAt threshold (events.forM NamedBlobs.emit : Traced σ PUnit) := by
  induction events with
  | nil => exact pure PUnit.unit
  | cons event events ih =>
      obtain ⟨hevent, hevents⟩ := List.forall_mem_cons.mp h
      exact bind (emit hevent) fun _ => ih hevents

end SilentAt

end Traced

end NamedBlobs
