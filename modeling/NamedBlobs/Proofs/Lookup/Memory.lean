import Mathlib.Data.List.Induction
import NamedBlobs.Lookup.Memory
import NamedBlobs.Proofs.Lookup.Conduct

/-!
# What a memory holds after changes

A memory that is reached from the empty one by storing and removing holds under
each number what the last change of that number left there
(`Memory.get?_ofChanges`). As a source it answers each request from what it
holds and stays as it is.
-/

namespace NamedBlobs

namespace Memory

inductive Change where
  | insert (id : ResourceId) (bytes : Bytes)
  | remove (id : ResourceId)

namespace Change

/-- The number under which something changes. -/
def id : Change → ResourceId
  | insert id _ | remove id => id

/-- What the change leaves under its number. -/
def contents : Change → Option Bytes
  | insert _ bytes => some bytes
  | remove _ => none

def apply : Change → Memory → Memory
  | insert id bytes, memory => memory.insert id bytes
  | remove id, memory => memory.erase id

theorem get?_apply_self (change : Change) (memory : Memory) :
    (change.apply memory).get? change.id = change.contents := by
  cases change with
  | insert id bytes => exact get?_insert_self memory id bytes
  | remove id => exact get?_erase_self memory id

theorem get?_apply_of_ne (change : Change) (memory : Memory) {other : ResourceId}
    (h : change.id ≠ other) : (change.apply memory).get? other = memory.get? other := by
  cases change with
  | insert id bytes => exact get?_insert_of_ne memory bytes (Ne.symm h)
  | remove id => exact get?_erase_of_ne memory (Ne.symm h)

end Change

/-- The memory that changes, made one after the other, make of the empty one. -/
def ofChanges (changes : List Change) : Memory :=
  changes.foldl (fun memory change => change.apply memory) .empty

/-- What the last change of `id` left there; nothing if there was none. -/
def lastContents (changes : List Change) (id : ResourceId) : Option Bytes :=
  (changes.reverse.find? fun change => change.id == id).bind Change.contents

theorem get?_ofChanges (changes : List Change) (id : ResourceId) :
    (ofChanges changes).get? id = lastContents changes id := by
  -- on the changes from the last one on
  induction changes using List.reverseRecOn with
  | nil => rfl
  | append_singleton changes change ih =>
      rw [ofChanges, List.foldl_append, lastContents, List.reverse_append]
      simp only [List.foldl_cons, List.foldl_nil, List.reverse_singleton, List.singleton_append]
      by_cases hid : change.id = id
      · subst hid
        rw [Change.get?_apply_self, List.find?_cons_of_pos (by simp)]
        rfl
      · rw [Change.get?_apply_of_ne change _ hid, List.find?_cons_of_neg (by simpa using hid)]
        exact ih

theorem answer_source (id : ResourceId) (memory : Memory) :
    source.answer id memory = .ok ((memory.load id).map Loaded.bytes) := rfl

theorem after_source (id : ResourceId) (memory : Memory) : source.after id memory = memory := rfl

theorem load_of_some {memory : Memory} {id : ResourceId} {bytes : Bytes}
    (h : memory.get? id = some bytes) (hbytes : bytes ≠ []) :
    memory.load id = .ok ⟨bytes, .lent⟩ := by
  have hempty : ¬ bytes.isEmpty = true := by simpa using hbytes
  simp only [load, h, if_neg hempty]

theorem answer_of_some {memory : Memory} {id : ResourceId} {bytes : Bytes}
    (h : memory.get? id = some bytes) (hbytes : bytes ≠ []) :
    source.answer id memory = .ok (.ok bytes) := by
  rw [answer_source, load_of_some h hbytes]
  rfl

theorem fetched_load_of_none {memory : Memory} {id : ResourceId} (h : memory.get? id = none) :
    Dialogue.fetched id ((memory.load id).map Loaded.bytes) = .error (.notFound id) := by
  rw [load, h]
  rfl

theorem fetched_load_of_nil {memory : Memory} {id : ResourceId} (h : memory.get? id = some []) :
    Dialogue.fetched id ((memory.load id).map Loaded.bytes) = .error (.empty id) := by
  rw [load, h]
  rfl

theorem fetched_load_of_some {memory : Memory} {id : ResourceId} {bytes : Bytes}
    (h : memory.get? id = some bytes) (hbytes : bytes ≠ []) :
    Dialogue.fetched id ((memory.load id).map Loaded.bytes) = .ok ⟨bytes⟩ := by
  have hempty : ¬ bytes.isEmpty = true := by simpa using hbytes
  rw [load_of_some h hbytes]
  simp only [Except.map, Dialogue.fetched, if_neg hempty]

end Memory

end NamedBlobs
