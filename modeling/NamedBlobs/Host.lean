import NamedBlobs.Buffer.ResolveInto
import NamedBlobs.Files.FileTree
import NamedBlobs.Lookup.Directory
import NamedBlobs.Lookup.Memory

/-!
# The library inside a host process

A process that calls the library by its exported names. The first lookup decides
once and for all where resources are read from: the directory that an
environment variable names then, or nowhere. Later changes of the variable have
no effect, while the files are read anew at every lookup. A log observer can be
installed once.
-/

namespace NamedBlobs

def resourceDirVariable : String := "RCBLOB_RESOURCE_DIR"

def logVariable : String := "RCBLOB_LOG"

/-- Where a process reads resources from. -/
inductive HostSource where
  | directory (directory : Directory)
  | nothing

namespace HostSource

def choose : Option Path → HostSource
  | some root => directory ⟨root⟩
  | none => nothing

def announcement : HostSource → Event
  | directory d => .make .debug "reading resources from directory" [("root", d.root.text)]
  | nothing => .make .debug s!"{resourceDirVariable} is not set, every lookup will be empty" []

def source : HostSource → Source (Traced FileTree)
  | directory d => d.source
  | nothing => Memory.nothing

end HostSource

/-- The state of a process. -/
structure Host where
  /-- The value of the variable. -/
  resourceDir : Option Path
  /-- The choice made by the first lookup. -/
  source : Option HostSource
  /-- Whether a log observer was installed. -/
  observed : Bool
  files : FileTree
  heap : Heap

namespace Host

def start (resourceDir : Option Path) (files : FileTree) : Host :=
  ⟨resourceDir, none, false, files, .empty⟩

/-- The source of the process, chosen now unless it was before. -/
def openSource : Traced Host HostSource := do
  let host ← Traced.get
  match host.source with
  | some source => return source
  | none =>
      let source := HostSource.choose host.resourceDir
      emit source.announcement
      Traced.modify fun host => { host with source := some source }
      return source

def resolve (allocator : Allocator) (request : Request) : Traced Host Reply := do
  let source ← openSource
  let host ← Traced.get
  let (reply, heap) ← Traced.focus Host.files (fun files host => { host with files })
    (source.source.resolveInto allocator host.heap request)
  Traced.modify fun host => { host with heap }
  return reply

def release (payload : Option Address) : Traced Host Unit :=
  .modify fun host => { host with heap := (Loan.release host.heap payload).getD host.heap }

/-- The lookup under its older name. -/
def resolveLegacy (allocator : Allocator) (request : Request) : Traced Host Reply :=
  resolve allocator request

/-- The release under its older name. -/
def releaseLegacy (payload : Option Address) : Traced Host Unit := release payload

/-- Installs the log observer. Answers whether it is the first one. -/
def installObserver : Traced Host Bool :=
  .step fun host => (!host.observed, { host with observed := true })

end Host

end NamedBlobs
