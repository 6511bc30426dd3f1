import NamedBlobs.Bytes.LittleEndian
import NamedBlobs.Resource.LocateError
import NamedBlobs.Traced

/-!
# Sources of resources

A source supplies the raw bytes of a resource, or says why it cannot. It works
inside a computation, so loading may look at a state, change it, report events
and be stopped by a panic.

`Source.recorded` makes a source remember what it was asked for, in order, and
answers as the source does: it is the view in which the loads of a computation
are counted.
-/

namespace NamedBlobs

/-- Whether bytes belong to the source or to whoever asked for them. -/
inductive Ownership where
  | lent
  | given
  deriving DecidableEq

/-- The bytes of a resource as a source supplies them. -/
structure Loaded where
  bytes : Bytes
  ownership : Ownership
  deriving DecidableEq

/-- Supplies the bytes of resources. -/
structure Source (m : Type → Type) where
  load : ResourceId → m (Except LocateError Loaded)

/-- A state together with the resources that were asked for so far. -/
structure Recorded (σ : Type) where
  state : σ
  requests : List ResourceId

namespace Recorded

variable {σ α : Type}

def ask (id : ResourceId) : Traced (Recorded σ) Unit :=
  .modify fun r => { r with requests := r.requests ++ [id] }

def clear : Traced (Recorded σ) Unit := .modify fun r => { r with requests := [] }

/-- A computation that leaves the requests alone. -/
def lift (x : Traced σ α) : Traced (Recorded σ) α :=
  .focus Recorded.state (fun s r => { r with state := s }) x

end Recorded

/-- The source that remembers every request and answers as `source` does. -/
def Source.recorded {σ : Type} (source : Source (Traced σ)) : Source (Traced (Recorded σ)) where
  load id := do
    Recorded.ask id
    Recorded.lift (source.load id)

end NamedBlobs
