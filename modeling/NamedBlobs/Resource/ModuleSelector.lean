import NamedBlobs.Path

/-!
# Which module to read resources from

A selector picks a loaded module or a file. Selectors of files are compared as
paths, so differently written selectors can be the same.
-/

namespace NamedBlobs

/-- A module whose resources are read. -/
inductive ModuleSelector where
  /-- The module that holds this library. -/
  | current
  /-- The executable of the process. -/
  | process
  /-- A loaded module, by its file name. -/
  | named (name : String)
  /-- A file that is mapped as data and never run. -/
  | dataFile (path : Path)

namespace ModuleSelector

instance : Inhabited ModuleSelector := ⟨current⟩

/-- Whether two selectors pick the same module. -/
def same : ModuleSelector → ModuleSelector → Bool
  | current, current => true
  | process, process => true
  | named a, named b => a == b
  | dataFile p, dataFile q => p.same q
  | _, _ => false

/-- The selector with its argument quoted. -/
def describe : ModuleSelector → String
  | current => "Current"
  | process => "Process"
  | named name => s!"Named({Quoted.literal name.toList})"
  | dataFile path => s!"DataFile({path.describe})"

end ModuleSelector

end NamedBlobs
