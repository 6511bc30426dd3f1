import NamedBlobs.Buffer.Loan
import NamedBlobs.Lookup.Resolve

/-!
# Resolving into a buffer

The lookup as callers of another language see it. They pass a name that ends at
its first NUL byte and a destination for the size, either of which may be
missing, and get a buffer on loan. Nothing is reported to them: whatever goes
wrong, a panic included, there is no buffer and the size is zero.
-/

namespace NamedBlobs

/-- What a caller passes. -/
structure Request where
  /-- The bytes that the name starts with; nothing for a missing name. -/
  name : Option Bytes
  /-- What the destination for the size holds; nothing for a missing one. -/
  size : Option Nat

/-- What a caller finds afterwards. -/
structure Reply where
  buffer : Option Address
  /-- What the destination for the size holds; nothing for a missing one. -/
  size : Option Nat
  deriving DecidableEq

/-- The bytes before the first NUL byte. -/
def terminated (bytes : Bytes) : Bytes := bytes.takeWhile (· != 0)

def Source.resolveInto {σ : Type} (source : Source (Traced σ)) (allocator : Allocator)
    (heap : Heap) (request : Request) : Traced σ (Reply × Heap) :=
  match request.size, request.name with
  | none, _ => do
      emit (.make .debug "resolve called without a size destination" [])
      return (⟨none, none⟩, heap)
  | some _, none => do
      emit (.make .debug "resolve called without a name" [])
      return (⟨none, some 0⟩, heap)
  | some _, some name => do
      match ← Traced.attempt (source.resolve (terminated name)) with
      | .ok blob =>
          let (buffer, heap) := Loan.handOut allocator heap blob.bytes
          return (⟨buffer.payload, some buffer.length⟩, heap)
      | .error _ =>
          emit (.make .error "panic while resolving" [("e", "Any \x7b .. \x7d")])
          return (⟨none, some 0⟩, heap)

end NamedBlobs
