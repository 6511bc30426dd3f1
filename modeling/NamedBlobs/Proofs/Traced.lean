import NamedBlobs.Traced

/-!
# How computations end

`Traced.Ends` says what a computation comes to and which state it leaves, and
nothing of what it reports. There is a rule for every way of composing, so the
end of a computation follows from the ends of its parts.
-/

namespace NamedBlobs

namespace Traced

variable {σ τ α β : Type}

/-- From the state `s` on, the computation comes to `value` and leaves `t`. -/
def Ends (x : Traced σ α) (s : σ) (value : α) (t : σ) : Prop :=
  (x.run s).result = .ok value ∧ (x.run s).state = t

namespace Ends

variable {s t u : σ} {value : α}

theorem pure (value : α) (s : σ) : Ends (Pure.pure value) s value s := ⟨rfl, rfl⟩

theorem bind {x : Traced σ α} {f : α → Traced σ β} {value' : β} (hx : Ends x s value t)
    (hf : Ends (f value) t value' u) : Ends (x >>= f) s value' u := by
  obtain ⟨hresult, hstate⟩ := hx
  rcases hrun : x.run s with ⟨result, events, t'⟩
  rw [hrun] at hresult hstate
  subst hresult hstate
  rw [Ends, run_bind_ok hrun]
  exact hf

theorem emit_bind (event : Event) {f : Unit → Traced σ β} {value : β}
    (hf : Ends (f ()) s value u) : Ends (emit event >>= f) s value u :=
  bind ⟨rfl, rfl⟩ hf

/-- What follows journal entries one after the other. -/
theorem forM_emit_bind (events : List Event) {f : Unit → Traced σ β} {value : β}
    (hf : Ends (f ()) s value u) : Ends (events.forM emit >>= f) s value u := by
  have hevents : Ends (events.forM emit : Traced σ Unit) s () s := by
    induction events with
    | nil => exact pure () s
    | cons event events ih => exact emit_bind event ih
  exact bind hevents hf

theorem get_bind {f : σ → Traced σ β} {value : β} (hf : Ends (f s) s value u) :
    Ends (get >>= f) s value u :=
  bind ⟨rfl, rfl⟩ hf

theorem focus (part : σ → τ) (put : τ → σ → σ) {x : Traced τ α} {p : τ}
    (hx : Ends x (part s) value p) : Ends (focus part put x) s value (put p s) := by
  obtain ⟨hresult, hstate⟩ := hx
  subst hstate
  exact ⟨hresult, rfl⟩

theorem modify_bind (f : σ → σ) {g : Unit → Traced σ β} {value : β}
    (hg : Ends (g ()) (f s) value u) : Ends (modify f >>= g) s value u :=
  bind ⟨rfl, rfl⟩ hg

end Ends

end Traced

end NamedBlobs
