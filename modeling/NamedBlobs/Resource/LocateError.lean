import NamedBlobs.Resource.Id
import NamedBlobs.Text.Quoted

/-!
# Why a resource could not be supplied

The causes range from a resource that does not exist to one that exists but
cannot be read; `LocateError.isNotFound` tells the two apart.
-/

namespace NamedBlobs

/-- Why a resource could not be supplied. -/
inductive LocateError where
  /-- The number names no resource. -/
  | unassigned
  /-- The module that should hold the resource cannot be used. -/
  | moduleUnavailable (reason : String)
  /-- There is no such resource. -/
  | notFound (id : ResourceId)
  /-- The resource has no bytes. -/
  | empty (id : ResourceId)
  /-- The resource exists but could not be loaded. -/
  | loadFailed (id : ResourceId)
  /-- The resource was loaded but its bytes could not be reached. -/
  | lockFailed (id : ResourceId)
  /-- The number is no sixteen-bit ordinal. -/
  | outOfRange (id : ResourceId)
  /-- Reading failed for the stated cause. -/
  | io (id : ResourceId) (cause : String)
  deriving DecidableEq

namespace LocateError

def message : LocateError → String
  | unassigned => "identifier 0 does not name a resource"
  | moduleUnavailable reason => s!"module is unavailable: {reason}"
  | notFound id => s!"resource {id.text} not found"
  | empty id => s!"resource {id.text} is empty"
  | loadFailed id => s!"resource {id.text} could not be loaded"
  | lockFailed id => s!"resource {id.text} could not be locked"
  | outOfRange id => s!"resource {id.text} is outside the 16-bit ordinal range"
  | io id cause => s!"resource {id.text}: {cause}"

/-- Whether the resource does not exist, as opposed to being unreadable. -/
def isNotFound : LocateError → Bool
  | unassigned | notFound _ | outOfRange _ => true
  | moduleUnavailable _ | empty _ | loadFailed _ | lockFailed _ | io _ _ => false

def cause? : LocateError → Option String
  | io _ cause => some cause
  | _ => none

def describe : LocateError → String
  | unassigned => "Unassigned"
  | moduleUnavailable reason =>
      s!"ModuleUnavailable \x7b reason: {Quoted.literal reason.toList} \x7d"
  | notFound id => s!"NotFound \x7b id: {id.describe} \x7d"
  | empty id => s!"Empty \x7b id: {id.describe} \x7d"
  | loadFailed id => s!"LoadFailed \x7b id: {id.describe} \x7d"
  | lockFailed id => s!"LockFailed \x7b id: {id.describe} \x7d"
  | outOfRange id => s!"OutOfRange \x7b id: {id.describe} \x7d"
  | io id cause => s!"Io \x7b id: {id.describe}, source: {Quoted.literal cause.toList} \x7d"

/-- The messages of the failures behind this one, the nearest first. -/
def causes (failure : LocateError) : List String := failure.cause?.toList

end LocateError

end NamedBlobs
