import NamedBlobs.CommandLine.Run

/-!
# The program

The command line on the files of the system. The events of a run go to the
standard error, from the level on that an environment variable names.
-/

namespace NamedBlobs

namespace CommandLine

/-- What is shown of the journal. -/
structure Observer where
  /-- The level from which on events are shown; nothing shows none. -/
  threshold : Option Level
  /-- Whether events are shown as JSON. -/
  json : Bool

namespace Observer

def levelName : Level → String
  | .trace => "TRACE"
  | .debug => "DEBUG"
  | .info => "INFO"
  | .warn => "WARN"
  | .error => "ERROR"

def thresholdOf : Option String → Option Level
  | some "off" => none
  | some "trace" => some .trace
  | some "debug" => some .debug
  | some "warn" => some .warn
  | some "error" => some .error
  | _ => some .info

def line (observer : Observer) (event : Event) : String :=
  if observer.json then
    let field := fun (name, value) => [Quoted.json name.toList, Quoted.json value.toList]
    let members := [["level", levelName event.level], ["message", event.message]].map
      (·.map fun text => Quoted.json text.toList) ++ event.fields.map field
    "\x7b" ++ String.intercalate "," (members.map (String.intercalate ":")) ++ "\x7d"
  else
    let fields := event.fields.map fun (name, value) => s!" {name}={value}"
    s!"{levelName event.level} {event.message}" ++ String.join fields

end Observer

/-- Computations on the files of the system, watched by an observer. -/
abbrev System := ReaderT Observer IO

/-- The number of a system error, which may be reported with either sign. -/
def errorNumber (code : UInt32) : UInt32 := if code ≤ 0x7FFFFFFF then code else 0 - code

def fileError (failure : IO.Error) : FileError :=
  match failure with
  | .noFileOrDirectory .. => .notFound
  | .inappropriateType _ code _ =>
      if errorNumber code = 20 then .notDirectory
      else if errorNumber code = 21 then .isDirectory
      else .other failure.toString
  | .invalidArgument _ code _ =>
      if errorNumber code = 36 then .nameTooLong else .other failure.toString
  | _ => .other failure.toString

/-- Runs an access to a file and keeps its failure as a value. -/
def access {α : Type} (action : IO α) : System (Except FileError α) := do
  match ← action.toBaseIO with
  | .ok value => return .ok value
  | .error failure => return .error (fileError failure)

instance : MonadFiles System where
  read path := do return (← access (IO.FS.readBinFile path.text)).map (·.toList)
  write path contents := access (IO.FS.writeBinFile path.text ⟨contents.toArray⟩)

instance : MonadJournal System where
  emit event := do
    let observer ← read
    match observer.threshold.bind (event.seenAt ·) with
    | none => return
    | some event => IO.eprintln (observer.line event)
  within _ x := x

def asksJson (arguments : List Bytes) : Bool :=
  match Invocation.ofArguments arguments with
  | .ok (.perform _ logJson) => logJson
  | _ => false

end CommandLine

end NamedBlobs

open NamedBlobs NamedBlobs.CommandLine in
def main (arguments : List String) : IO UInt32 := do
  let words := arguments.map Utf8.ofText
  let threshold := Observer.thresholdOf (← IO.getEnv "RCBLOB_LOG")
  let exit ← (CommandLine.run words : System Exit).run ⟨threshold, asksJson words⟩
  IO.print exit.stdout
  IO.eprint exit.stderr
  return exit.code.toUInt32
