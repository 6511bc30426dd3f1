import NamedBlobs.DecodeError
import NamedBlobs.Resource.LocateError

/-!
# Why a name could not be resolved

A lookup needs two resources, the table and the blob that the table points at,
and the table has to make sense. Each failure carries the one that caused it.
Damage to what is stored is told apart from absence by
`ResolveError.isCorruption`.
-/

namespace NamedBlobs

/-- Why a name could not be resolved, or the counter not be read. -/
inductive ResolveError where
  /-- The lookup table could not be supplied. -/
  | tableMissing (cause : LocateError)
  /-- The lookup table could not be decoded. -/
  | corruptTable (cause : DecodeError)
  /-- The resource `id` could not be supplied. -/
  | resourceMissing (id : ResourceId) (cause : LocateError)
  /-- The allocation counter could not be decoded. -/
  | corruptCounter (cause : DecodeError)
  deriving DecidableEq

namespace ResolveError

def message : ResolveError → String
  | tableMissing _ => "lookup table is unavailable"
  | corruptTable _ => "lookup table is corrupt"
  | resourceMissing id _ => s!"resource {id.text} is unavailable"
  | corruptCounter _ => "allocation counter is corrupt"

/-- Whether what is stored is damaged, as opposed to absent. -/
def isCorruption : ResolveError → Bool
  | corruptTable _ | corruptCounter _ => true
  | tableMissing _ | resourceMissing _ _ => false

/-- The messages of the failures behind this one, the nearest first. -/
def causes : ResolveError → List String
  | tableMissing cause | resourceMissing _ cause => cause.message :: cause.causes
  | corruptTable cause | corruptCounter cause => [cause.message]

end ResolveError

end NamedBlobs
