import NamedBlobs.Path

/-!
# Access to files

What can go wrong when a file is read or written, and the interface of the
computations that can do so. A failure to find a file is told apart from all
others.
-/

namespace NamedBlobs

/-- Why a file could not be read or written. -/
inductive FileError where
  | notFound
  /-- A file stands where a directory is needed. -/
  | notDirectory
  /-- A directory stands where a file was to be read or written. -/
  | isDirectory
  /-- The path, or a name on it, is longer than any file's. -/
  | nameTooLong
  /-- The path has a NUL byte, which no file name has. -/
  | nulInPath
  /-- Any other cause, in words. -/
  | other (message : String)
  deriving DecidableEq

def FileError.message : FileError → String
  | notFound => "No such file or directory (os error 2)"
  | notDirectory => "Not a directory (os error 20)"
  | isDirectory => "Is a directory (os error 21)"
  | nameTooLong => "File name too long (os error 36)"
  | nulInPath => "file name contained an unexpected NUL byte"
  | other message => message

/-- Computations that read and write files. -/
class MonadFiles (m : Type → Type) where
  read : Path → m (Except FileError Bytes)
  /-- Makes a file hold exactly the given bytes. -/
  write : Path → Bytes → m (Except FileError Unit)

end NamedBlobs
