import NamedBlobs.Files.FileError
import NamedBlobs.Lookup.Source

/-!
# Resources in a directory

Each resource is a file in one directory, named by its number and `.bin`. A
missing file is a resource that is not found, an empty one an empty resource,
and every other trouble with the file is reported as it is.
-/

namespace NamedBlobs

structure Directory where
  root : Path

namespace Directory

/-- The file name of a resource: its number and an extension. -/
def fileName (id : ResourceId) : Bytes := Utf8.ofAscii (id.chars ++ ['.', 'b', 'i', 'n'])

def pathOf (directory : Directory) (id : ResourceId) : Path :=
  directory.root.join (fileName id)

/-- What reading the file of `id` says about the resource. -/
def loaded (id : ResourceId) : Except FileError Bytes → Except LocateError Loaded
  | .error .notFound => .error (.notFound id)
  | .error failure => .error (.io id failure.message)
  | .ok bytes => if bytes.isEmpty then .error (.empty id) else .ok ⟨bytes, .given⟩

def source {m : Type → Type} [Monad m] [MonadJournal m] [MonadFiles m]
    (directory : Directory) : Source m where
  load id := do
    let path := directory.pathOf id
    emit (.make .trace "reading resource file" [("path", path.text)])
    let contents ← MonadFiles.read path
    return loaded id contents

def store {m : Type → Type} [MonadFiles m] (directory : Directory) (id : ResourceId)
    (bytes : Bytes) : m (Except FileError Unit) :=
  MonadFiles.write (directory.pathOf id) bytes

/-- A directory as a source inside a resolver. -/
def describeResolver (directory : Directory) : String :=
  s!"Resolver \x7b locator: Locator \x7b source: DirectorySource \x7b root: {directory.root.describe} \x7d \x7d \x7d"

end Directory

end NamedBlobs
