import Mathlib.Control.Monad.Basic
import NamedBlobs.Buffer.ResolveInto
import NamedBlobs.Lookup.Script
import NamedBlobs.Proofs.Buffer.HandOut
import NamedBlobs.Proofs.Lookup.Conduct

/-!
# Resolving into a buffer never fails the caller

`Source.resolveInto` comes back whatever the source does, a panic at any load
included, and its buffer and its size tell the same: there is a buffer if and
only if the size is not zero, and then the buffer holds the blob that the lookup
finds. Without a destination for the size, or without a name, no load is made.
-/

namespace NamedBlobs

/-- What the caller finds after the lookup ended in some way, and the heap then. -/
def Reply.ofLookup (allocator : Allocator) (heap : Heap) : Except Panic Blob → Reply × Heap
  | .ok blob =>
      let (buffer, heap) := Loan.handOut allocator heap blob.bytes
      (⟨buffer.payload, some buffer.length⟩, heap)
  | .error _ => (⟨none, some 0⟩, heap)

/-- Either the caller finds nothing, because there was nothing to hand out or the
request for it was refused, or a buffer with the blob of the lookup. -/
theorem Reply.ofLookup_cases (allocator : Allocator) (heap : Heap) (found : Except Panic Blob) :
    (Reply.ofLookup allocator heap found = (⟨none, some 0⟩, heap) ∧
      ∀ blob, found = .ok blob → blob.bytes ≠ [] →
        allocator heap (blob.size + Loan.headerSize) Loan.alignment = none) ∨
    ∃ blob payload heap', found = .ok blob ∧ blob.bytes ≠ [] ∧
      allocator heap (blob.size + Loan.headerSize) Loan.alignment ≠ none ∧
      Reply.ofLookup allocator heap found = (⟨some payload, some blob.size⟩, heap') ∧
      heap'.read payload blob.size = some blob.bytes := by
  rcases found with panic | blob
  · exact Or.inl ⟨rfl, by simp⟩
  · obtain ⟨bytes⟩ := blob
    by_cases hbytes : bytes = []
    · subst hbytes
      exact Or.inl ⟨rfl, by simp⟩
    · rcases hgrant : allocator heap (bytes.length + Loan.headerSize) Loan.alignment with
        _ | base
      · refine Or.inl ⟨?_, ?_⟩
        · rw [Reply.ofLookup, Loan.handOut_of_refused hgrant]
          rfl
        · rintro blob ⟨rfl⟩ _
          exact hgrant
      · refine Or.inr ⟨⟨bytes⟩, base + Loan.headerSize, _, rfl, hbytes, ?_, ?_,
          Loan.read_handOut hbytes hgrant⟩
        · rw [Blob.size, hgrant]
          simp
        · rw [Reply.ofLookup, Loan.handOut_of_granted hbytes hgrant]
          rfl

namespace Dialogue

/-- Asks as the lookup does if there is a name and a destination for the size,
and else for nothing. -/
def resolveInto (allocator : Allocator) (heap : Heap) (request : Request) :
    Dialogue (Except Panic (Reply × Heap)) :=
  match request.size, request.name with
  | none, _ => done (.ok (⟨none, none⟩, heap))
  | some _, none => done (.ok (⟨none, some 0⟩, heap))
  | some _, some name =>
      (resolve (terminated name)).map fun found => .ok (Reply.ofLookup allocator heap found)

end Dialogue

namespace Source

variable {σ : Type} (source : Source (Traced σ))

theorem follows_resolveInto (allocator : Allocator) (heap : Heap) (request : Request) :
    source.Follows (source.resolveInto allocator heap request)
      (Dialogue.resolveInto allocator heap request) := by
  obtain ⟨name, size⟩ := request
  rcases size with _ | held
  · exact Follows.emit_bind _ (Follows.pure _)
  · rcases name with _ | name
    · exact Follows.emit_bind _ (Follows.pure _)
    · refine (source.follows_resolve (terminated name)).attempt_bind fun found => ?_
      rcases found with panic | blob
      · exact Follows.emit_bind _ (Follows.pure _)
      · exact Follows.pure _

theorem requests_resolveInto (allocator : Allocator) (heap : Heap) (request : Request) (s : σ)
    (earlier : List ResourceId) :
    ((source.recorded.resolveInto allocator heap request).run ⟨s, earlier⟩).state.requests =
      earlier ++ ((Dialogue.resolveInto allocator heap request).run source s).asked := by
  rw [((source.recorded.follows_resolveInto allocator heap request).run_recorded
    ⟨s, earlier⟩).2]

/-- With a name and a destination for the size, the call comes back with what is
made of the end of the lookup. -/
theorem result_resolveInto (allocator : Allocator) (heap : Heap) (name : Bytes) (held : Nat)
    (s : σ) :
    ((source.resolveInto allocator heap ⟨some name, some held⟩).run s).result =
      .ok (Reply.ofLookup allocator heap
        ((source.resolve (terminated name)).run s).result) := by
  rw [(source.follows_resolveInto allocator heap ⟨some name, some held⟩ s).1,
    (source.follows_resolve (terminated name) s).1]
  simp [Dialogue.resolveInto]

/-- The lookup behind the call comes to a blob if and only if none of the call's
loads panics. -/
theorem exists_blob_iff (allocator : Allocator) (heap : Heap) (name : Bytes) (held : Nat)
    (s : σ) :
    (∃ blob, ((source.resolve (terminated name)).run s).result = .ok blob) ↔
      ∀ panic, .error panic ∉ source.answers
        ((source.recorded.resolveInto allocator heap ⟨some name, some held⟩).run
          ⟨s, []⟩).state.requests s := by
  have hasked : ((Dialogue.resolveInto allocator heap ⟨some name, some held⟩).run
      source s).asked = ((Dialogue.resolve (terminated name)).run source s).asked := by
    simp [Dialogue.resolveInto]
  rw [requests_resolveInto, List.nil_append, hasked,
    (source.follows_resolve (terminated name) s).1]
  exact (Dialogue.passesPanics_resolve (terminated name)).exists_value_iff source s

/-- Resolving into a buffer comes back, whatever the source and the allocator do.
Without a destination for the size nothing is written and without a name no load
is made. A destination is always written, and there is a buffer if and only if
the size is not zero. There is one exactly if no load panics, the lookup comes to
a blob with bytes and the allocator grants the request; it then holds that blob
and the size is the blob's. -/
theorem resolveInto_contained (allocator : Allocator) (heap : Heap) (request : Request) (s : σ)
    (earlier : List ResourceId) :
    ∃ reply heap',
      ((source.resolveInto allocator heap request).run s).result = .ok (reply, heap') ∧
      (request.size = none → reply = ⟨none, none⟩ ∧ heap' = heap) ∧
      (request.size = none ∨ request.name = none →
        ((source.recorded.resolveInto allocator heap request).run ⟨s, earlier⟩).state.requests =
          earlier) ∧
      (request.size ≠ none → ∃ size,
        (∀ held, ((source.resolveInto allocator heap ⟨request.name, some held⟩).run s).result =
          .ok (⟨reply.buffer, some size⟩, heap')) ∧
        (reply.buffer = none ↔ size = 0)) ∧
      (reply.buffer ≠ none ↔
        request.size ≠ none ∧ ∃ name, request.name = some name ∧
          (∀ panic, .error panic ∉ source.answers
            ((source.recorded.resolveInto allocator heap request).run ⟨s, []⟩).state.requests s) ∧
          ∃ blob, ((source.resolve (terminated name)).run s).result = .ok blob ∧
            blob.bytes ≠ [] ∧
              allocator heap (blob.size + Loan.headerSize) Loan.alignment ≠ none) ∧
      ∀ payload name, reply.buffer = some payload → request.name = some name →
        ∃ blob, ((source.resolve (terminated name)).run s).result = .ok blob ∧
          reply.size = some blob.size ∧ heap'.read payload blob.size = some blob.bytes := by
  have hnothing : ∀ request,
      ((Dialogue.resolveInto allocator heap request).run source s).asked = [] →
        ((source.recorded.resolveInto allocator heap request).run
          ⟨s, earlier⟩).state.requests = earlier := by
    intro request hasked
    rw [requests_resolveInto, hasked, List.append_nil]
  obtain ⟨_ | name, _ | held⟩ := request
  · exact ⟨⟨none, none⟩, heap, rfl, fun _ => ⟨rfl, rfl⟩, fun _ => hnothing _ rfl, by simp, by simp,
      by simp⟩
  · exact ⟨⟨none, some 0⟩, heap, rfl, by simp, fun _ => hnothing _ rfl,
      fun _ => ⟨0, fun _ => rfl, by simp⟩, by simp, by simp⟩
  · exact ⟨⟨none, none⟩, heap, rfl, fun _ => ⟨rfl, rfl⟩, fun _ => hnothing _ rfl, by simp, by simp,
      by simp⟩
  · have hresult := fun held => source.result_resolveInto allocator heap name held s
    rcases Reply.ofLookup_cases allocator heap
        ((source.resolve (terminated name)).run s).result with
      ⟨hreply, hrefused⟩ | ⟨blob, payload, heap', hblob, hbytes, hgranted, hreply, hread⟩
    · rw [hreply] at hresult
      refine ⟨⟨none, some 0⟩, heap, hresult held, by simp, by simp,
        fun _ => ⟨0, hresult, by simp⟩, ?_, by simp⟩
      constructor
      · intro hnone
        exact absurd rfl hnone
      · rintro ⟨-, _, ⟨rfl⟩, -, blob, hblob, hbytes, hgranted⟩
        exact absurd (hrefused blob hblob hbytes) hgranted
    · rw [hreply] at hresult
      refine ⟨⟨some payload, some blob.size⟩, heap', hresult held, by simp, by simp, ?_, ?_, ?_⟩
      · intro _
        refine ⟨blob.size, hresult, ?_⟩
        simpa [Blob.size] using hbytes
      · refine ⟨fun _ => ⟨by simp, name, rfl, ?_, blob, hblob, hbytes, hgranted⟩, by simp⟩
        exact (source.exists_blob_iff allocator heap name held s).mp ⟨blob, hblob⟩
      · rintro _ _ ⟨rfl⟩ ⟨rfl⟩
        exact ⟨blob, hblob, rfl, hread⟩

/-- The name ends at its first NUL byte, and its blob is handed out. -/
theorem resolveInto_contained_granted :
    ∃ reply heap' payload,
      (((Script.source [(.table, .bytes (Table.encode ⟨[⟨[0x70], 200⟩]⟩)),
          (⟨200⟩, .bytes [1, 2])]).resolveInto .bump .empty
        ⟨some [0x70, 0, 0x71], some 7⟩).run ()).result = .ok (reply, heap') ∧
      reply = ⟨some payload, some 2⟩ ∧ heap'.read payload 2 = some [1, 2] := by
  obtain ⟨⟨buffer, size⟩, heap', hresult, -, -, -, hbuffer, hcontents⟩ :=
    resolveInto_contained (Script.source [(.table, .bytes (Table.encode ⟨[⟨[0x70], 200⟩]⟩)),
      (⟨200⟩, .bytes [1, 2])]) .bump .empty ⟨some [0x70, 0, 0x71], some 7⟩ () []
  have hlookup : (((Script.source [(.table, .bytes (Table.encode ⟨[⟨[0x70], 200⟩]⟩)),
      (⟨200⟩, .bytes [1, 2])]).resolve (terminated [0x70, 0, 0x71])).run ()).result =
        .ok ⟨[1, 2]⟩ := by decide +kernel
  have hanswers : ((Script.source [(.table, .bytes (Table.encode ⟨[⟨[0x70], 200⟩]⟩)),
      (⟨200⟩, .bytes [1, 2])]).answers
        (((Script.source [(.table, .bytes (Table.encode ⟨[⟨[0x70], 200⟩]⟩)),
            (⟨200⟩, .bytes [1, 2])]).recorded.resolveInto .bump .empty
          ⟨some [0x70, 0, 0x71], some 7⟩).run ⟨(), []⟩).state.requests ()) =
      [.ok (.ok (Table.encode ⟨[⟨[0x70], 200⟩]⟩)), .ok (.ok [1, 2])] := by decide +kernel
  have hsome : buffer ≠ none := by
    refine hbuffer.mpr ⟨by simp, _, rfl, ?_, _, hlookup, by simp, by simp [Allocator.bump]⟩
    rw [hanswers]
    simp
  obtain ⟨payload, rfl⟩ := Option.ne_none_iff_exists'.mp hsome
  obtain ⟨blob, hblob, rfl, hread⟩ := hcontents payload _ rfl rfl
  rw [hlookup] at hblob
  cases hblob
  exact ⟨_, heap', payload, hresult, rfl, hread⟩

/-- A panic at the second load leaves the caller without a buffer. -/
example : (((Script.source [(.table, .bytes (Table.encode ⟨[⟨[0x70], 200⟩]⟩)),
      (⟨200⟩, .panic "exploded")]).resolveInto .bump .empty
    ⟨some [0x70], some 7⟩).run ()).result.map Prod.fst = .ok ⟨none, some 0⟩ := by
  decide +kernel

end Source

end NamedBlobs
