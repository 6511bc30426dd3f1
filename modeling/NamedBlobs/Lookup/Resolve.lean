import NamedBlobs.Lookup.Fetch
import NamedBlobs.Lookup.ResolveError
import NamedBlobs.Table.Basic
import NamedBlobs.Text.Utf8

/-!
# Resolving names

A name is looked up in the table that a source holds, and the blob of the first
record with that name is fetched. Nothing is kept between lookups, so every
lookup loads the table afresh and, if the name has a number, one blob.

`Source.tryResolve` says what stood in the way; `Source.resolve` answers with
the empty blob and leaves the reason to the journal.
-/

namespace NamedBlobs

namespace Source

variable {m : Type → Type} [Monad m] [MonadJournal m]

def table (source : Source m) : m (Except ResolveError Table) := do
  match ← source.tryFetch .table with
  | .error failure => return .error (.tableMissing failure)
  | .ok blob =>
      let decoding := Table.decoding blob.bytes
      decoding.events.forM emit
      match decoding.result with
      | .error failure => return .error (.corruptTable failure)
      | .ok table =>
          emit (.make .trace "lookup table loaded" [("records", Numeral.decimal table.size)])
          return .ok table

/-- The number registered under `name`; a name that is not in the table has the
number that names nothing. -/
def lookup (source : Source m) (name : Bytes) : m (Except ResolveError ResourceId) := do
  match ← source.table with
  | .error failure => return .error failure
  | .ok table => return .ok ((table.identifierOf name).elim .unassigned ResourceId.mk)

def resolveSpan (name : Bytes) : Span := ⟨.trace, "resolve", [("name", Utf8.text name)]⟩

/-- The blob registered under `name`, empty if there is none. -/
def resolve (source : Source m) (name : Bytes) : m Blob :=
  MonadJournal.within (resolveSpan name) do
    match ← source.lookup name with
    | .error failure =>
        if failure.isCorruption then
          emit (.make .warn "lookup table rejected" [("error", failure.message)])
        else
          emit (.make .debug "lookup table unavailable" [("error", failure.message)])
        return .empty
    | .ok id =>
        if id.isUnassigned then emit (.make .debug "name not present in lookup table" [])
        source.fetch id

/-- The blob registered under `name`, nothing for a name without a number, or
what stood in the way. -/
def tryResolve (source : Source m) (name : Bytes) : m (Except ResolveError (Option Blob)) := do
  match ← source.lookup name with
  | .error failure => return .error failure
  | .ok id =>
      if id.isUnassigned then return .ok none
      else
        match ← source.tryFetch id with
        | .error failure => return .error (.resourceMissing id failure)
        | .ok blob => return .ok (some blob)

def counterOf (bytes : Bytes) : Except ResolveError (Option ResourceId) :=
  match Decoder.int32 (Reader.ofBytes bytes) with
  | .ok last _ => .ok (some ⟨Int64.ofInt last.toInt⟩)
  | .error failure _ => .error (.corruptCounter failure)

/-- The last number that was handed out, if one was recorded. -/
def lastAllocated (source : Source m) : m (Except ResolveError (Option ResourceId)) := do
  match ← source.tryFetch .lastAllocated with
  | .error failure =>
      if failure.isNotFound then return .ok none
      else return .error (.resourceMissing .lastAllocated failure)
  | .ok blob => return counterOf blob.bytes

end Source

end NamedBlobs
