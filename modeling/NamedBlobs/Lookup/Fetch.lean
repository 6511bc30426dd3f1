import NamedBlobs.Lookup.Source
import NamedBlobs.Resource.Blob

/-!
# Fetching blobs

Two ways to copy a resource out of a source. `Source.tryFetch` says why there is
no blob; `Source.fetch` answers with the empty blob and leaves the reason to the
journal. Neither asks the source for the number that names nothing, and neither
takes a resource without bytes for a blob.
-/

namespace NamedBlobs

namespace Source

variable {m : Type → Type} [Monad m] [MonadJournal m]

/-- The blob of resource `id`, or why there is none. -/
def tryFetch (source : Source m) (id : ResourceId) : m (Except LocateError Blob) :=
  if id.isUnassigned then pure (.error .unassigned)
  else do
    match ← source.load id with
    | .error failure => return .error failure
    | .ok loaded =>
        if loaded.bytes.isEmpty then return .error (.empty id)
        else
          emit (.make .trace "resource fetched"
            [("id", id.text), ("len", Numeral.decimal loaded.bytes.length)])
          return .ok ⟨loaded.bytes⟩

/-- The blob of resource `id`, empty if there is none. -/
def fetch (source : Source m) (id : ResourceId) : m Blob := do
  match ← source.tryFetch id with
  | .ok blob => return blob
  | .error .unassigned => return .empty
  | .error failure =>
      emit (.make .debug "resource unavailable" [("id", id.text), ("error", failure.message)])
      return .empty

end Source

end NamedBlobs
