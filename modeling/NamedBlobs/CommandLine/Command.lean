import NamedBlobs.Path

/-!
# Commands

What the command line can be asked to do: list a table, resolve a name, or
print the allocation counter. Resources come from a directory or from a module
image; `dump` can also read a table from a file, and then needs neither.
-/

namespace NamedBlobs

namespace CommandLine

/-- Where resources are to be read from. -/
inductive Location where
  /-- A directory of extracted resources. -/
  | directory (path : Path)
  | image (path : Path)
  /-- Nothing was said. -/
  | unstated
  deriving DecidableEq

inductive Command where
  /-- List the records of the table in `file`, or else of the resources. -/
  | dump (file : Option Path) (location : Location) (json : Bool)
  /-- Write the blob registered under `name` to `out`, or tell its size. -/
  | resolve (name : Bytes) (location : Location) (out : Option Path)
  /-- Print the last number that was handed out. -/
  | counter (location : Location)
  deriving DecidableEq

inductive Invocation where
  | version
  | help
  | perform (command : Command) (logJson : Bool)
  deriving DecidableEq

end CommandLine

end NamedBlobs
