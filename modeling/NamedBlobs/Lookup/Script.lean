import NamedBlobs.Lookup.Source

/-!
# Sources with set answers

A source that gives a set answer for each number: bytes just as they are, a
failure, or a panic. Numbers without an answer are not found.
-/

namespace NamedBlobs

inductive Script where
  | bytes (data : Bytes)
  | failure (cause : LocateError)
  | panic (note : String)

/-- The source that gives the answers in `scripts`. -/
def Script.source {σ : Type} (scripts : List (ResourceId × Script)) : Source (Traced σ) where
  load id :=
    match scripts.lookup id with
    | none => pure (.error (.notFound id))
    | some (.bytes data) => pure (.ok ⟨data, .given⟩)
    | some (.failure cause) => pure (.error cause)
    | some (.panic note) => .panic note

end NamedBlobs
