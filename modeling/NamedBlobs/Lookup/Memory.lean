import NamedBlobs.Entries
import NamedBlobs.Lookup.Source

/-!
# Resources in memory

Resources kept by number, at most one to a number. A resource that was stored
without bytes is known to be empty; one that was never stored, or was removed,
is not found.
-/

namespace NamedBlobs

structure Memory where
  entries : List (ResourceId × Bytes)

namespace Memory

def empty : Memory := ⟨[]⟩

def get? (memory : Memory) (id : ResourceId) : Option Bytes := memory.entries.lookup id

def erase (memory : Memory) (id : ResourceId) : Memory :=
  ⟨Entries.without memory.entries id⟩

/-- The memory with `bytes` under `id`, in place of what was there. -/
def insert (memory : Memory) (id : ResourceId) (bytes : Bytes) : Memory :=
  ⟨(id, bytes) :: (memory.erase id).entries⟩

@[simp] theorem get?_empty (id : ResourceId) : empty.get? id = none := rfl

@[simp] theorem get?_erase_self (memory : Memory) (id : ResourceId) :
    (memory.erase id).get? id = none :=
  Entries.lookup_without_self memory.entries id

theorem get?_erase_of_ne (memory : Memory) {id other : ResourceId} (h : other ≠ id) :
    (memory.erase id).get? other = memory.get? other :=
  Entries.lookup_without_of_ne memory.entries h

@[simp] theorem get?_insert_self (memory : Memory) (id : ResourceId) (bytes : Bytes) :
    (memory.insert id bytes).get? id = some bytes :=
  Entries.lookup_cons_self id bytes _

theorem get?_insert_of_ne (memory : Memory) {id other : ResourceId} (bytes : Bytes)
    (h : other ≠ id) : (memory.insert id bytes).get? other = memory.get? other :=
  (Entries.lookup_cons_of_ne h bytes _).trans (get?_erase_of_ne memory h)

def size (memory : Memory) : Nat := memory.entries.length

def isEmpty (memory : Memory) : Bool := memory.entries.isEmpty

/-- What the memory answers when it is asked for `id`. -/
def load (memory : Memory) (id : ResourceId) : Except LocateError Loaded :=
  match memory.get? id with
  | none => .error (.notFound id)
  | some bytes => if bytes.isEmpty then .error (.empty id) else .ok ⟨bytes, .lent⟩

def source : Source (Traced Memory) where
  load id := .step fun memory => (memory.load id, memory)

def nothing {m : Type → Type} [Monad m] : Source m where
  load id := pure (empty.load id)

end Memory

end NamedBlobs
