/-!
# The journal

What a computation reports while it runs: events of five levels, each with a
message, named fields and the spans it happened in. An observer that listens at
some level sees the events of that level and above, and of their spans those
that are themselves visible at the level.
-/

namespace NamedBlobs

inductive Level where
  | trace
  | debug
  | info
  | warn
  | error
  deriving DecidableEq, Repr

namespace Level

def severity : Level → Nat
  | trace => 0
  | debug => 1
  | info => 2
  | warn => 3
  | error => 4

/-- Whether an observer at the level `threshold` sees the level `level`. -/
def admits (threshold level : Level) : Bool := threshold.severity ≤ level.severity

end Level

abbrev Field := String × String

/-- A stretch of work that events can happen in. -/
structure Span where
  level : Level
  name : String
  fields : List Field
  deriving DecidableEq

/-- One entry of the journal. The spans are listed from the outermost on. -/
structure Event where
  level : Level
  message : String
  fields : List Field
  spans : List Span
  deriving DecidableEq

namespace Event

def make (level : Level) (message : String) (fields : List Field) : Event :=
  ⟨level, message, fields, []⟩

def within (span : Span) (event : Event) : Event :=
  { event with spans := span :: event.spans }

/-- What an observer at the level `threshold` sees of an event. -/
def seenAt (threshold : Level) (event : Event) : Option Event :=
  if threshold.admits event.level then
    some { event with spans := event.spans.filter (threshold.admits ·.level) }
  else
    none

end Event

/-- What an observer at the level `threshold` sees of a journal. -/
def seenAt (threshold : Level) (events : List Event) : List Event :=
  events.filterMap (Event.seenAt threshold)

/-- Computations that keep a journal. -/
class MonadJournal (m : Type → Type) where
  emit : Event → m Unit
  within : {α : Type} → Span → m α → m α

export MonadJournal (emit)

end NamedBlobs
