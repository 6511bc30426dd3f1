import NamedBlobs.CommandLine.Arguments
import NamedBlobs.Lookup.Directory
import NamedBlobs.Lookup.Resolve
import NamedBlobs.Table.Dump

/-!
# Running a command

A command either succeeds, with a text for the standard output, or fails, with a
message and the messages of the failures behind it. It writes a file only when a
lookup gave a blob, and prints only when nothing failed.
-/

namespace NamedBlobs

namespace CommandLine

structure Failure where
  message : String
  causes : List String
  deriving DecidableEq

namespace Failure

def numbered (index : Nat) (cause : String) : String :=
  s!"    {Numeral.decimal index}: {cause}\n"

/-- The lines for the standard error. A single cause has no number. -/
def report (failure : Failure) : String :=
  let causes :=
    match failure.causes with
    | [] => ""
    | [cause] => s!"\nCaused by:\n    {cause}\n"
    | causes =>
        let lines := String.join (causes.mapIdx numbered)
        s!"\nCaused by:\n{lines}"
  s!"Error: {failure.message}\n{causes}"

def ofResolve (failure : ResolveError) : Failure := ⟨failure.message, failure.causes⟩

end Failure

structure Exit where
  code : Nat
  stdout : String
  stderr : String
  deriving DecidableEq

namespace Exit

def success (stdout : String) : Exit := ⟨0, stdout, ""⟩

def failure (failure : Failure) : Exit := ⟨1, "", failure.report⟩

def usage (failure : UsageError) : Exit := ⟨2, "", s!"error: {failure.message}\n"⟩

end Exit

def versionLine : String := "rcblob 0.1.0\n"

def helpText : String :=
  "Inspect embedded resource lookup tables\n\n" ++
    "Usage: rcblob [--log-json] <COMMAND>\n\n" ++
    "Commands:\n" ++
    "  dump [--file FILE] [--dir DIR | --module FILE] [--json]\n" ++
    "  resolve NAME [--dir DIR | --module FILE] [--out FILE]\n" ++
    "  counter [--dir DIR | --module FILE]\n"

/-- The directory of a location. Module images cannot be read here. -/
def Location.directory? : Location → Except Failure Directory
  | directory path => .ok ⟨path⟩
  | image path =>
      .error ⟨s!"reading resources from {path.text} requires Windows, use --dir instead", []⟩
  | unstated => .error ⟨"either --dir or --module is required", []⟩

namespace Command

variable {m : Type → Type} [Monad m] [MonadJournal m] [MonadFiles m]

def openLocation (location : Location) : m (Except Failure Directory) := do
  match location.directory? with
  | .error failure => return .error failure
  | .ok directory =>
      emit (.make .debug "reading resources from directory" [("dir", directory.root.text)])
      return .ok directory

def withSource {α : Type} (location : Location)
    (use : Source m → m (Except Failure α)) : m (Except Failure α) := do
  match ← openLocation location with
  | .error failure => return .error failure
  | .ok directory => use directory.source

def tableOfFile (path : Path) : m (Except Failure Table) := do
  match ← MonadFiles.read path with
  | .error failure => return .error ⟨s!"failed to read {path.text}", [failure.message]⟩
  | .ok data =>
      let decoding := Table.decoding data
      decoding.events.forM emit
      match decoding.result with
      | .error failure => return .error ⟨s!"failed to decode {path.text}", [failure.message]⟩
      | .ok table => return .ok table

def tableOfLocation (location : Location) : m (Except Failure Table) :=
  withSource location fun source => return (← source.table).mapError Failure.ofResolve

def rendering (json : Bool) (table : Table) : String := if json then table.json else table.plain

def blobOfLocation (location : Location) (name : Bytes) : m (Except Failure Blob) :=
  withSource location fun source => do
    match ← source.tryResolve name with
    | .error failure => return .error (.ofResolve failure)
    | .ok none => return .error ⟨s!"no resource named {Quoted.literal (Utf8.chars name)}", []⟩
    | .ok (some blob) => return .ok blob

/-- Hands a blob over: to a file, or as a line that tells its size. -/
def deliver (name : Bytes) (blob : Blob) : Option Path → m (Except Failure String)
  | none => return .ok s!"{Utf8.text name}: {Numeral.decimal blob.size} bytes\n"
  | some path => do
      match ← MonadFiles.write path blob.bytes with
      | .error failure => return .error ⟨s!"failed to write {path.text}", [failure.message]⟩
      | .ok () =>
          emit (.make .info "blob written" [("name", Utf8.text name),
            ("bytes", Numeral.decimal blob.size), ("path", path.text)])
          return .ok ""

def counterLine (location : Location) : m (Except Failure String) :=
  withSource location fun source => do
    match ← source.lastAllocated with
    | .error failure => return .error (.ofResolve failure)
    | .ok none => return .error ⟨"no allocation counter recorded", []⟩
    | .ok (some id) => return .ok s!"{id.text}\n"

def run : Command → m (Except Failure String)
  | dump file location json => do
      let table ← match file with
        | some path => tableOfFile path
        | none => tableOfLocation location
      return table.map (rendering json)
  | resolve name location out => do
      match ← blobOfLocation location name with
      | .error failure => return .error failure
      | .ok blob => deliver name blob out
  | counter location => counterLine location

end Command

def Invocation.run {m : Type → Type} [Monad m] [MonadJournal m] [MonadFiles m] :
    Invocation → m Exit
  | version => return .success versionLine
  | help => return .success helpText
  | perform command _ => do
      match ← command.run with
      | .error failure => return .failure failure
      | .ok stdout => return .success stdout

/-- Runs the program on its arguments. -/
def run {m : Type → Type} [Monad m] [MonadJournal m] [MonadFiles m]
    (arguments : List Bytes) : m Exit :=
  match Invocation.ofArguments arguments with
  | .error failure => return .usage failure
  | .ok invocation => invocation.run

end CommandLine

end NamedBlobs
