import Mathlib.Control.Monad.Basic
import NamedBlobs.Proofs.Lookup.Conduct

/-!
# Collapsing and reporting lookups

`Source.fetch` and `Source.resolve` are written apart from `Source.tryFetch` and
`Source.tryResolve`. They come to the blob that these find, and to the empty
blob where these find none, by the same loads. No blob that is found is empty,
so the empty blob always means that none was found.
-/

namespace NamedBlobs

namespace Source

open Dialogue (fetchedBlob resolvedBlob)

variable {σ : Type}

theorem run_fetch_eq (source : Source (Traced σ)) (id : ResourceId) (s : σ) :
    ((source.fetch id).run s).result =
        ((source.tryFetch id).run s).result.map fetchedBlob ∧
      ((source.fetch id).run s).state = ((source.tryFetch id).run s).state :=
  (source.follows_fetch id).run_eq_of_map (source.follows_tryFetch id) s

theorem run_resolve_eq (source : Source (Traced σ)) (name : Bytes) (s : σ) :
    ((source.resolve name).run s).result =
        ((source.tryResolve name).run s).result.map resolvedBlob ∧
      ((source.resolve name).run s).state = ((source.tryResolve name).run s).state := by
  have hresolve := source.follows_resolve name
  rw [Dialogue.resolve_eq_map_tryResolve] at hresolve
  exact hresolve.run_eq_of_map (source.follows_tryResolve name) s

theorem fetchedBlob_eq_empty_iff {found : Except LocateError Blob}
    (h : ∀ blob, found = .ok blob → blob.bytes ≠ []) :
    fetchedBlob found = .empty ↔ ∀ blob, found ≠ .ok blob := by
  rcases found with failure | blob
  · simp [fetchedBlob]
  · have hblob := h blob rfl
    simp only [fetchedBlob]
    constructor
    · rintro rfl
      exact absurd rfl hblob
    · intro hne
      exact absurd rfl (hne blob)

theorem resolvedBlob_eq_empty_iff {found : Except ResolveError (Option Blob)}
    (h : ∀ blob, found = .ok (some blob) → blob.bytes ≠ []) :
    resolvedBlob found = .empty ↔ ∀ blob, found ≠ .ok (some blob) := by
  rcases found with failure | _ | blob
  · simp [resolvedBlob]
  · simp [resolvedBlob]
  · have hblob := h blob rfl
    simp only [resolvedBlob]
    constructor
    · rintro rfl
      exact absurd rfl hblob
    · intro hne
      exact absurd rfl (hne blob)

/-- A computation that follows a dialogue comes back if the loads do, and so does
one that collapses what it finds. -/
theorem Returns.exists_found {source : Source (Traced σ)} (hreturns : source.Returns)
    {α : Type} {x : Traced σ Blob} {y : Traced σ α} {d : Dialogue (Except Panic α)}
    {blobOf : α → Blob} (hpanics : d.PassesPanics)
    (hx : ∀ s, (x.run s).result = (y.run s).result.map blobOf ∧
      (x.run s).state = (y.run s).state)
    (hy : source.Follows y d) (s : σ) :
    ∃ found, (d.run source s).value = .ok found ∧ (y.run s).result = .ok found ∧
      (x.run s).result = .ok (blobOf found) := by
  obtain ⟨found, hfound⟩ := hpanics.exists_value_of_returns hreturns s
  have hresult : (y.run s).result = .ok found := (hy s).1.trans hfound
  refine ⟨found, hfound, hresult, ?_⟩
  rw [(hx s).1, hresult]
  rfl

/-- A collapsing lookup and the reporting one, from the same state of a source
whose loads come back: both come back, the first with the blob that the second
found or else with the empty blob, and they make the same requests. A blob that
is found is not empty. -/
theorem collapse_eq_report (source : Source (Traced σ)) (hreturns : source.Returns) (s : σ) :
    (∀ name, ∃ found,
      ((source.tryResolve name).run s).result = .ok found ∧
      ((source.resolve name).run s).result = .ok (resolvedBlob found) ∧
      ((source.resolve name).run s).state = ((source.tryResolve name).run s).state ∧
      (∀ earlier, ((source.recorded.resolve name).run ⟨s, earlier⟩).state.requests =
        ((source.recorded.tryResolve name).run ⟨s, earlier⟩).state.requests) ∧
      (∀ blob, found = .ok (some blob) → blob.bytes ≠ []) ∧
      (resolvedBlob found = .empty ↔ ∀ blob, found ≠ .ok (some blob))) ∧
    ∀ id, ∃ found,
      ((source.tryFetch id).run s).result = .ok found ∧
      ((source.fetch id).run s).result = .ok (fetchedBlob found) ∧
      ((source.fetch id).run s).state = ((source.tryFetch id).run s).state ∧
      (∀ earlier, ((source.recorded.fetch id).run ⟨s, earlier⟩).state.requests =
        ((source.recorded.tryFetch id).run ⟨s, earlier⟩).state.requests) ∧
      (∀ blob, found = .ok blob → blob.bytes ≠ []) ∧
      (fetchedBlob found = .empty ↔ ∀ blob, found ≠ .ok blob) := by
  constructor
  · intro name
    obtain ⟨found, hfound, htry, hresolve⟩ := hreturns.exists_found
      (Dialogue.passesPanics_tryResolve name) (source.run_resolve_eq name)
      (source.follows_tryResolve name) s
    have hnonempty : ∀ blob, found = .ok (some blob) → blob.bytes ≠ [] := by
      rintro blob rfl
      exact Dialogue.bytes_ne_nil_of_tryResolve hfound
    refine ⟨found, htry, hresolve, (source.run_resolve_eq name s).2, ?_, hnonempty,
      resolvedBlob_eq_empty_iff hnonempty⟩
    intro earlier
    rw [(source.recorded.run_resolve_eq name ⟨s, earlier⟩).2]
  · intro id
    obtain ⟨found, hfound, htry, hfetch⟩ := hreturns.exists_found
      (Dialogue.passesPanics_tryFetch id) (source.run_fetch_eq id)
      (source.follows_tryFetch id) s
    have hnonempty : ∀ blob, found = .ok blob → blob.bytes ≠ [] := by
      rintro blob rfl
      exact Dialogue.bytes_ne_nil_of_tryFetch hfound
    refine ⟨found, htry, hfetch, (source.run_fetch_eq id s).2, ?_, hnonempty,
      fetchedBlob_eq_empty_iff hnonempty⟩
    intro earlier
    rw [(source.recorded.run_fetch_eq id ⟨s, earlier⟩).2]

/-- A source that gives a table to the first request and refuses all others. -/
def givingOnce (table : Table) : Source (Traced Nat) where
  load _ := .step fun served =>
    (if served = 0 then .ok ⟨table.encode, .given⟩ else .error .unassigned, served + 1)

/-- The name has a number, but the source says that this names nothing. -/
theorem collapse_eq_report_givingOnce :
    (givingOnce ⟨[⟨[0x70], 200⟩]⟩).Returns ∧
      (((givingOnce ⟨[⟨[0x70], 200⟩]⟩).tryResolve [0x70]).run 0).result =
        .ok (.error (.resourceMissing ⟨200⟩ .unassigned)) ∧
      (((givingOnce ⟨[⟨[0x70], 200⟩]⟩).resolve [0x70]).run 0).result = .ok .empty ∧
      (((givingOnce ⟨[⟨[0x70], 200⟩]⟩).resolve [0x70]).run 0).state = 2 := by
  have hreturns : (givingOnce ⟨[⟨[0x70], 200⟩]⟩).Returns := fun _ _ => ⟨_, rfl⟩
  have htry : (((givingOnce ⟨[⟨[0x70], 200⟩]⟩).tryResolve [0x70]).run 0).result =
      .ok (.error (.resourceMissing ⟨200⟩ .unassigned)) := by decide +kernel
  have hloads : (((givingOnce ⟨[⟨[0x70], 200⟩]⟩).tryResolve [0x70]).run 0).state = 2 := by
    decide +kernel
  obtain ⟨found, hfound, hresolve, hstate, -⟩ := (collapse_eq_report _ hreturns 0).1 [0x70]
  rw [htry] at hfound
  cases hfound
  exact ⟨hreturns, htry, hresolve, hstate.trans hloads⟩

end Source

end NamedBlobs
