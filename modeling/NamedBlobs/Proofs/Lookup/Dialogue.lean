import NamedBlobs.Lookup.Source
import NamedBlobs.Proofs.Traced

/-!
# Dialogues with a source

What a lookup asks a source for depends on the answers it got before. A
`Dialogue` is such a way of asking, without a source. Over a source it takes a
course (`Dialogue.run`): it comes to a value, it has asked for resources in some
order, and it leaves the source in some state. The course depends on the source
through the answers to what was asked and on nothing else
(`Dialogue.run_alike`), and over a recorded source it is the same
(`Dialogue.run_recorded`).

A computation follows a dialogue (`Source.Follows`) if it ends as the dialogue
does, from every state of the source. What it writes to the journal is left out.
-/

namespace NamedBlobs

/-- What a source makes of a request: a panic, a failure or bytes. -/
abbrev Answer := Except Panic (Except LocateError Bytes)

namespace Source

variable {σ : Type}

def answer (source : Source (Traced σ)) (id : ResourceId) (s : σ) : Answer :=
  ((source.load id).run s).result.map (Except.map Loaded.bytes)

/-- The state that a load leaves. -/
def after (source : Source (Traced σ)) (id : ResourceId) (s : σ) : σ :=
  ((source.load id).run s).state

/-- The answers to requests that are made one after the other from `s` on. -/
def answers (source : Source (Traced σ)) : (ids : List ResourceId) → (s : σ) → List Answer
  | [], _ => []
  | id :: ids, s => source.answer id s :: source.answers ids (source.after id s)

/-- Every load comes back. -/
def Returns (source : Source (Traced σ)) : Prop :=
  ∀ (id : ResourceId) (s : σ), ∃ loaded, ((source.load id).run s).result = .ok loaded

theorem Returns.exists_answer {source : Source (Traced σ)} (h : source.Returns)
    (id : ResourceId) (s : σ) : ∃ bytes, source.answer id s = .ok bytes := by
  obtain ⟨loaded, hloaded⟩ := h id s
  exact ⟨loaded.map Loaded.bytes, by rw [answer, hloaded]; rfl⟩

@[simp] theorem answer_recorded (source : Source (Traced σ)) (id : ResourceId)
    (r : Recorded σ) : source.recorded.answer id r = source.answer id r.state := rfl

@[simp] theorem after_recorded (source : Source (Traced σ)) (id : ResourceId)
    (r : Recorded σ) :
    source.recorded.after id r = ⟨source.after id r.state, r.requests ++ [id]⟩ := rfl

end Source

/-- A way of asking a source: it has come to a value, or it asks for a resource
and goes on as the answer says. -/
inductive Dialogue (α : Type) where
  | done (value : α)
  | ask (id : ResourceId) (next : Answer → Dialogue α)

namespace Dialogue

variable {σ τ α β γ : Type}

/-- The course of a dialogue over a source. -/
structure Course (σ α : Type) where
  value : α
  asked : List ResourceId
  state : σ

/-- The course that the dialogue takes from the state `s` on. -/
def run (source : Source (Traced σ)) : Dialogue α → σ → Course σ α
  | done value, s => ⟨value, [], s⟩
  | ask id next, s =>
      let rest := (next (source.answer id s)).run source (source.after id s)
      ⟨rest.value, id :: rest.asked, rest.state⟩

@[simp] theorem run_done (source : Source (Traced σ)) (value : α) (s : σ) :
    (done value).run source s = ⟨value, [], s⟩ := rfl

theorem run_ask (source : Source (Traced σ)) (id : ResourceId) (next : Answer → Dialogue α)
    (s : σ) :
    (ask id next).run source s =
      ⟨((next (source.answer id s)).run source (source.after id s)).value,
        id :: ((next (source.answer id s)).run source (source.after id s)).asked,
        ((next (source.answer id s)).run source (source.after id s)).state⟩ := rfl

/-- The course over a recorded source is the same, and the requests are those
that the dialogue asks for. -/
theorem run_recorded (source : Source (Traced σ)) (d : Dialogue α) (r : Recorded σ) :
    d.run source.recorded r =
      ⟨(d.run source r.state).value, (d.run source r.state).asked,
        ⟨(d.run source r.state).state, r.requests ++ (d.run source r.state).asked⟩⟩ := by
  induction d generalizing r with
  | done value => simp
  | ask id next ih =>
      rw [run_ask, run_ask, Source.answer_recorded, Source.after_recorded, ih]
      simp

/-- A source that gives the same answers to what a dialogue asks for is asked for
the same, and the dialogue comes to the same value. -/
theorem run_alike (source : Source (Traced σ)) (other : Source (Traced τ)) (d : Dialogue α)
    (s : σ) (t : τ)
    (h : other.answers (d.run source s).asked t = source.answers (d.run source s).asked s) :
    (d.run other t).value = (d.run source s).value ∧
      (d.run other t).asked = (d.run source s).asked := by
  -- equal first answers pick the same `next`, so the rest is one dialogue for both
  induction d generalizing s t with
  | done value => exact ⟨rfl, rfl⟩
  | ask id next ih =>
      rw [run_ask, Source.answers, Source.answers, List.cons.injEq] at h
      obtain ⟨hanswer, hanswers⟩ := h
      obtain ⟨hvalue, hasked⟩ := ih (source.answer id s) _ _ hanswers
      rw [run_ask, run_ask, hanswer]
      exact ⟨hvalue, congrArg (id :: ·) hasked⟩

/-- Where no load changes the state, no dialogue does. -/
theorem state_run {source : Source (Traced σ)} (h : ∀ id s, source.after id s = s)
    (d : Dialogue α) (s : σ) : (d.run source s).state = s := by
  induction d generalizing s with
  | done value => rfl
  | ask id next ih => exact (ih _ _).trans (h id s)

/-- Goes on from the value of a dialogue. -/
def bind : Dialogue α → (α → Dialogue β) → Dialogue β
  | done value, f => f value
  | ask id next, f => ask id fun answer => (next answer).bind f

def map (f : α → β) (d : Dialogue α) : Dialogue β := d.bind fun value => done (f value)

/-- Goes on from the value of a dialogue that no panic has ended. -/
def andThen (d : Dialogue (Except Panic α)) (f : α → Dialogue (Except Panic β)) :
    Dialogue (Except Panic β) :=
  d.bind fun
    | .ok value => f value
    | .error panic => done (.error panic)

/-- Asks for one resource and takes the answer for what `f` says. -/
def load (id : ResourceId) (f : Except LocateError Bytes → α) : Dialogue (Except Panic α) :=
  ask id fun answer => done (answer.map f)

theorem run_bind (source : Source (Traced σ)) (d : Dialogue α) (f : α → Dialogue β) (s : σ) :
    (d.bind f).run source s =
      ⟨((f (d.run source s).value).run source (d.run source s).state).value,
        (d.run source s).asked ++
          ((f (d.run source s).value).run source (d.run source s).state).asked,
        ((f (d.run source s).value).run source (d.run source s).state).state⟩ := by
  induction d generalizing s with
  | done value => rfl
  | ask id next ih =>
      rw [bind, run_ask, ih]
      rfl

@[simp] theorem run_map (source : Source (Traced σ)) (f : α → β) (d : Dialogue α) (s : σ) :
    (d.map f).run source s =
      ⟨f (d.run source s).value, (d.run source s).asked, (d.run source s).state⟩ := by
  rw [map, run_bind]
  simp

theorem run_andThen_of_ok {source : Source (Traced σ)} {d : Dialogue (Except Panic α)} {s : σ}
    {value : α} (h : (d.run source s).value = .ok value)
    (f : α → Dialogue (Except Panic β)) :
    (d.andThen f).run source s =
      ⟨((f value).run source (d.run source s).state).value,
        (d.run source s).asked ++ ((f value).run source (d.run source s).state).asked,
        ((f value).run source (d.run source s).state).state⟩ := by
  rw [andThen, run_bind, h]

theorem run_andThen_of_error {source : Source (Traced σ)} {d : Dialogue (Except Panic α)}
    {s : σ} {panic : Panic} (h : (d.run source s).value = .error panic)
    (f : α → Dialogue (Except Panic β)) :
    (d.andThen f).run source s =
      ⟨.error panic, (d.run source s).asked, (d.run source s).state⟩ := by
  rw [andThen, run_bind, h]
  simp

@[simp] theorem run_load (source : Source (Traced σ)) (id : ResourceId)
    (f : Except LocateError Bytes → α) (s : σ) :
    (load id f).run source s = ⟨(source.answer id s).map f, [id], source.after id s⟩ := rfl

theorem bind_assoc (d : Dialogue α) (f : α → Dialogue β) (g : β → Dialogue γ) :
    (d.bind f).bind g = d.bind fun value => (f value).bind g := by
  induction d with
  | done value => rfl
  | ask id next ih =>
      simp only [bind]
      congr 1
      funext answer
      exact ih answer

theorem map_load (f : Except LocateError Bytes → α) (g : α → β) (id : ResourceId) :
    (load id f).map (Except.map g) = load id fun answer => g (f answer) := by
  refine congrArg (ask id) (funext fun answer => ?_)
  cases answer <;> rfl

theorem map_andThen (d : Dialogue (Except Panic α)) (f : α → Dialogue (Except Panic β))
    (g : β → γ) :
    (d.andThen f).map (Except.map g) = d.andThen fun value => (f value).map (Except.map g) := by
  rw [andThen, map, bind_assoc, andThen]
  congr 1
  funext value
  cases value <;> rfl

/-- A panic of the source, and nothing else, ends the dialogue with a panic. -/
inductive PassesPanics : Dialogue (Except Panic α) → Prop
  | done (value : α) : PassesPanics (done (.ok value))
  | ask (id : ResourceId) (next : Answer → Dialogue (Except Panic α))
      (hpanic : ∀ panic, next (.error panic) = .done (.error panic))
      (hnext : ∀ answer, PassesPanics (next (.ok answer))) : PassesPanics (ask id next)

namespace PassesPanics

theorem load (id : ResourceId) (f : Except LocateError Bytes → α) :
    PassesPanics (load id f) :=
  .ask id _ (fun _ => rfl) fun answer => .done (f answer)

theorem andThen {d : Dialogue (Except Panic α)} {f : α → Dialogue (Except Panic β)}
    (h : PassesPanics d) (hf : ∀ value, PassesPanics (f value)) :
    PassesPanics (d.andThen f) := by
  induction h with
  | done value => exact hf value
  | ask id next hpanic _ ih =>
      refine .ask id _ (fun panic => ?_) ih
      rw [hpanic]
      rfl

theorem map {d : Dialogue (Except Panic α)} (h : PassesPanics d) (f : α → β) :
    PassesPanics (d.map (Except.map f)) := by
  induction h with
  | done value => exact .done (f value)
  | ask id next hpanic _ ih =>
      refine .ask id _ (fun panic => ?_) ih
      rw [hpanic]
      rfl

/-- The dialogue comes to a value where no load panics, and only there. -/
theorem exists_value_iff {d : Dialogue (Except Panic α)} (h : PassesPanics d)
    (source : Source (Traced σ)) (s : σ) :
    (∃ value, (d.run source s).value = .ok value) ↔
      ∀ panic, .error panic ∉ source.answers (d.run source s).asked s := by
  induction h generalizing s with
  | done value => simp [Source.answers]
  | ask id next hpanic _ ih =>
      rw [run_ask, Source.answers]
      rcases hanswer : source.answer id s with panic | bytes
      · -- the panic is both the value and the only answer
        rw [hpanic]
        simp [Source.answers]
      · rw [ih bytes]
        simp

theorem exists_value_of_returns {d : Dialogue (Except Panic α)} (h : PassesPanics d)
    {source : Source (Traced σ)} (hreturns : source.Returns) (s : σ) :
    ∃ value, (d.run source s).value = .ok value := by
  induction h generalizing s with
  | done value => exact ⟨value, rfl⟩
  | ask id next _ _ ih =>
      obtain ⟨bytes, hbytes⟩ := hreturns.exists_answer id s
      rw [run_ask, hbytes]
      exact ih bytes _

end PassesPanics

end Dialogue

/-- Over `source`, the computation ends as the dialogue does and leaves the same
state. -/
def Source.Follows {σ α : Type} (source : Source (Traced σ)) (x : Traced σ α)
    (d : Dialogue (Except Panic α)) : Prop :=
  ∀ s, (x.run s).result = (d.run source s).value ∧ (x.run s).state = (d.run source s).state

namespace Source.Follows

open Dialogue (done)

variable {σ α β : Type} {source : Source (Traced σ)}

theorem pure (value : α) : source.Follows (Pure.pure value) (done (.ok value)) :=
  fun _ => ⟨rfl, rfl⟩

theorem emit (event : Event) : source.Follows (emit event) (done (.ok ())) :=
  fun _ => ⟨rfl, rfl⟩

theorem bind {x : Traced σ α} {f : α → Traced σ β} {d : Dialogue (Except Panic α)}
    {e : α → Dialogue (Except Panic β)} (hx : source.Follows x d)
    (hf : ∀ value, source.Follows (f value) (e value)) :
    source.Follows (x >>= f) (d.andThen e) := by
  intro s
  obtain ⟨hresult, hstate⟩ := hx s
  rw [Dialogue.andThen, Dialogue.run_bind, ← hresult, ← hstate]
  rcases hrun : x.run s with ⟨panic | value, events, t⟩
  · rw [Traced.run_bind_error hrun]
    exact ⟨rfl, rfl⟩
  · rw [Traced.run_bind_ok hrun]
    exact hf value t

/-- What is made of a load without asking for more. -/
theorem load_bind (id : ResourceId) {f : Except LocateError Loaded → Traced σ α}
    {g : Except LocateError Bytes → α}
    (hf : ∀ found, source.Follows (f found) (done (.ok (g (found.map Loaded.bytes))))) :
    source.Follows (source.load id >>= f) (Dialogue.load id g) := by
  intro s
  rw [Dialogue.run_load, answer, after]
  rcases hload : (source.load id).run s with ⟨panic | found, events, t⟩
  · rw [Traced.run_bind_error hload]
    exact ⟨rfl, rfl⟩
  · rw [Traced.run_bind_ok hload]
    exact hf found t

/-- What follows a journal entry. -/
theorem emit_bind (event : Event) {f : Unit → Traced σ β} {d : Dialogue (Except Panic β)}
    (hf : source.Follows (f ()) d) : source.Follows (NamedBlobs.emit event >>= f) d :=
  bind (emit event) fun _ => hf

/-- What follows journal entries one after the other. -/
theorem forM_emit_bind (events : List Event) {f : Unit → Traced σ β}
    {d : Dialogue (Except Panic β)} (hf : source.Follows (f ()) d) :
    source.Follows (events.forM NamedBlobs.emit >>= f) d := by
  have hevents : source.Follows (events.forM NamedBlobs.emit) (done (.ok ())) := by
    induction events with
    | nil => exact pure ()
    | cons event events ih => exact emit_bind event ih
  exact bind hevents fun _ => hf

/-- A computation that asks for nothing more changes only the value. -/
theorem bind_map {x : Traced σ α} {f : α → Traced σ β} {d : Dialogue (Except Panic α)}
    {g : α → β} (hx : source.Follows x d)
    (hf : ∀ value, source.Follows (f value) (done (.ok (g value)))) :
    source.Follows (x >>= f) (d.map (Except.map g)) := by
  have h := bind hx hf
  rwa [show d.andThen (fun value => done (.ok (g value))) = d.map (Except.map g) by
    rw [Dialogue.andThen, Dialogue.map]
    congr 1
    funext value
    cases value <;> rfl] at h

theorem map {x : Traced σ α} {d : Dialogue (Except Panic α)} (f : α → β)
    (hx : source.Follows x d) : source.Follows (f <$> x) (d.map (Except.map f)) := by
  rw [← bind_pure_comp]
  exact bind_map hx fun value => pure (f value)

theorem within {x : Traced σ α} {d : Dialogue (Except Panic α)} (span : Span)
    (hx : source.Follows x d) : source.Follows (MonadJournal.within span x) d := hx

/-- What follows a computation whose panic is caught goes on from the panic too. -/
theorem attempt_bind {x : Traced σ α} {f : Except Panic α → Traced σ β}
    {d : Dialogue (Except Panic α)} {e : Except Panic α → Dialogue (Except Panic β)}
    (hx : source.Follows x d) (hf : ∀ found, source.Follows (f found) (e found)) :
    source.Follows (Traced.attempt x >>= f) (d.bind e) := by
  intro s
  obtain ⟨hresult, hstate⟩ := hx s
  rw [Dialogue.run_bind, ← hresult, ← hstate, Traced.run_bind_ok (Traced.run_attempt x s)]
  exact hf (x.run s).result (x.run s).state

/-- Two computations that follow one dialogue, the first up to a change of the
value. -/
theorem run_eq_of_map {x : Traced σ β} {y : Traced σ α} {d : Dialogue (Except Panic α)}
    {f : α → β} (hx : source.Follows x (d.map (Except.map f))) (hy : source.Follows y d)
    (s : σ) :
    (x.run s).result = (y.run s).result.map f ∧ (x.run s).state = (y.run s).state := by
  obtain ⟨hresult, hstate⟩ := hx s
  obtain ⟨hresult', hstate'⟩ := hy s
  rw [Dialogue.run_map] at hresult hstate
  constructor
  · rw [hresult, hresult']
  · rw [hstate, hstate']

/-- A computation over a recorded source ends as its dialogue does over the
source itself, and the requests are those of the dialogue. -/
theorem run_recorded {x : Traced (Recorded σ) α} {d : Dialogue (Except Panic α)}
    (hx : source.recorded.Follows x d) (r : Recorded σ) :
    (x.run r).result = (d.run source r.state).value ∧
      (x.run r).state =
        ⟨(d.run source r.state).state, r.requests ++ (d.run source r.state).asked⟩ := by
  obtain ⟨hresult, hstate⟩ := hx r
  rw [Dialogue.run_recorded] at hresult hstate
  exact ⟨hresult, hstate⟩

/-- Computations that follow one dialogue end alike over two sources that give the
same answers, whatever they are asked for. -/
theorem result_eq_of_answers {τ : Type} {other : Source (Traced τ)} {x : Traced σ α}
    {y : Traced τ α} {d : Dialogue (Except Panic α)} (hx : source.Follows x d)
    (hy : other.Follows y d) {s : σ} {t : τ}
    (h : ∀ ids, other.answers ids t = source.answers ids s) :
    (y.run t).result = (x.run s).result := by
  rw [(hx s).1, (hy t).1, (Dialogue.run_alike source other d s t (h _)).1]

/-- Over a source whose loads change nothing, the computation changes nothing. -/
theorem ends {x : Traced σ α} {d : Dialogue (Except Panic α)} (hx : source.Follows x d)
    (hafter : ∀ id s, source.after id s = s) {s : σ} {value : α}
    (h : (d.run source s).value = .ok value) : x.Ends s value s :=
  ⟨(hx s).1.trans h, (hx s).2.trans (Dialogue.state_run hafter d s)⟩

end Source.Follows

end NamedBlobs
