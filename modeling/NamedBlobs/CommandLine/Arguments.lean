import NamedBlobs.CommandLine.Command

/-!
# Reading the arguments

Arguments are read from the left, each as an option or as a plain word. The
first plain word chooses the subcommand, and from there on the subcommand's own
options hold. An option's value is attached to it or is the next argument; a
separate value must not look like an option, unless it is a lone dash. After a
double dash every argument is plain. No option may be given twice.

A request for help or for the version takes effect where it is met, so the
arguments behind it are not looked at. Every other argument is read in turn by
`Given.add`, which keeps what was given so far.
-/

namespace NamedBlobs

namespace CommandLine

/-- An argument, as it looks by itself. -/
inductive Word where
  /-- A double dash. -/
  | escape
  /-- Two dashes, a name, and what follows an equals sign. -/
  | long (name : Bytes) (value : Option Bytes)
  /-- A dash and at least one letter. -/
  | short (letter : UInt8) (attached : Bytes)
  /-- Anything else. -/
  | plain (bytes : Bytes)
  deriving DecidableEq

def dash : UInt8 := 0x2D

def equalsSign : UInt8 := 0x3D

def Word.of (argument : Bytes) : Word :=
  match argument with
  | first :: second :: rest =>
      if first = dash ∧ second = dash then
        if rest.isEmpty then .escape
        else
          let name := rest.takeWhile (· != equalsSign)
          .long name ((rest.drop name.length).tail?)
      else if first = dash then .short second rest
      else .plain argument
  | _ => .plain argument

/-- Whether an argument cannot be the separate value of an option. -/
def Word.looksLikeOption : Word → Bool
  | plain _ => false
  | escape | long _ _ | short _ _ => true

def spells (argument : Bytes) (word : String) : Bool := argument == Utf8.ofAscii word.toList

inductive Subcommand where
  | dump
  | resolve
  | counter
  deriving DecidableEq

def Subcommand.of? (name : Bytes) : Option Subcommand :=
  if spells name "dump" then some .dump
  else if spells name "resolve" then some .resolve
  else if spells name "counter" then some .counter
  else none

/-- The options that subcommands take. -/
inductive Key where
  | file
  | dir
  | image
  | out
  | json
  | logJson
  deriving DecidableEq

namespace Key

def takesValue : Key → Bool
  | file | dir | image | out => true
  | json | logJson => false

def longName : Key → String
  | file => "file"
  | dir => "dir"
  | image => "module"
  | out => "out"
  | json => "json"
  | logJson => "log-json"

end Key

def Subcommand.keys : Subcommand → List Key
  | dump => [.file, .dir, .image, .json, .logJson]
  | resolve => [.dir, .image, .out, .logJson]
  | counter => [.dir, .image, .logJson]

/-- The option that a subcommand knows by a long name. -/
def Subcommand.key? (subcommand : Subcommand) (name : Bytes) : Option Key :=
  subcommand.keys.find? fun key => spells name key.longName

def outLetter : UInt8 := 0x6F

def helpLetter : UInt8 := 0x68

def versionLetter : UInt8 := 0x56

/-- The value that is attached to a letter, with or without an equals sign. -/
def attachedValue : Bytes → Option Bytes
  | [] => none
  | first :: rest => some (if first = equalsSign then rest else first :: rest)

inductive UsageError where
  | unexpected (argument : Bytes)
  | missingValue (key : Key)
  | unexpectedValue (key : Key) (value : Bytes)
  | repeated (key : Key)
  | conflict
  | missingSubcommand
  | missingName
  | nameNotText
  deriving DecidableEq

/-- What was given to a subcommand so far. -/
structure Given where
  values : List (Key × Bytes)
  flags : List Key
  name : Option Bytes
  /-- The option that still waits for its value. -/
  pending : Option Key
  /-- Whether a double dash was met. -/
  escaped : Bool

namespace Given

def nothing : Given := ⟨[], [], none, none, false⟩

def path? (given : Given) (key : Key) : Option Path := (given.values.lookup key).map Path.mk

def addValue (given : Given) (key : Key) (value : Bytes) : Except UsageError Given :=
  if value.isEmpty then .error (.missingValue key)
  else if (given.values.lookup key).isSome then .error (.repeated key)
  else .ok { given with values := (key, value) :: given.values, pending := none }

def addFlag (given : Given) (key : Key) : Except UsageError Given :=
  if given.flags.contains key then .error (.repeated key)
  else .ok { given with flags := key :: given.flags }

/-- Adds a plain word, which only `resolve` takes, and only once. -/
def addName (given : Given) (subcommand : Subcommand) (name : Bytes) : Except UsageError Given :=
  if subcommand = .resolve ∧ given.name.isNone then
    if Utf8.isText name then .ok { given with name := some name } else .error .nameNotText
  else .error (.unexpected name)

/-- Adds an option that is known, with the value attached to it, if any. -/
def addKey (given : Given) (key : Key) (attached : Option Bytes) : Except UsageError Given :=
  match key.takesValue, attached with
  | true, some value => given.addValue key value
  | true, none => .ok { given with pending := some key }
  | false, some value => .error (.unexpectedValue key value)
  | false, none => given.addFlag key

/-- Where the resources are. A directory excludes a module image. -/
def location (given : Given) : Except UsageError Location :=
  match given.path? .dir, given.path? .image with
  | some _, some _ => .error .conflict
  | some path, none => .ok (.directory path)
  | none, some path => .ok (.image path)
  | none, none => .ok .unstated

/-- The command, when all arguments were read. -/
def command (given : Given) (subcommand : Subcommand) : Except UsageError Command :=
  match given.pending, subcommand, given.name, given.location with
  | some key, _, _, _ => .error (.missingValue key)
  | none, .resolve, none, _ => .error .missingName
  | none, _, _, .error failure => .error failure
  | none, .dump, _, .ok location =>
      .ok (.dump (given.path? .file) location (given.flags.contains .json))
  | none, .resolve, some name, .ok location => .ok (.resolve name location (given.path? .out))
  | none, .counter, _, .ok location => .ok (.counter location)

/-- Reads one argument of a subcommand; nothing is answered where it asks for
help. -/
def add (given : Given) (subcommand : Subcommand) (argument : Bytes) :
    Except UsageError (Option Given) :=
  match given.pending, given.escaped, Word.of argument with
  | some key, _, word =>
      if word.looksLikeOption then .error (.missingValue key)
      else some <$> given.addValue key argument
  | none, true, _ => some <$> given.addName subcommand argument
  | none, false, .escape => .ok (some { given with escaped := true })
  | none, false, .plain name => some <$> given.addName subcommand name
  | none, false, .long name attached =>
      if spells name "help" then
        if attached.isNone then .ok none else .error (.unexpected argument)
      else
        match subcommand.key? name with
        | some key => some <$> given.addKey key attached
        | none => .error (.unexpected argument)
  | none, false, .short letter attached =>
      if letter = helpLetter then .ok none
      else if letter = outLetter ∧ subcommand.keys.contains .out then
        some <$> given.addKey .out (attachedValue attached)
      else .error (.unexpected argument)

end Given

/-- Reads the arguments of a subcommand; nothing is answered where one asks for
help. -/
def readOptions (subcommand : Subcommand) :
    Given → List Bytes → Except UsageError (Option (Command × Given))
  | given, [] => (given.command subcommand).map fun command => some (command, given)
  | given, argument :: rest =>
      match given.add subcommand argument with
      | .error failure => .error failure
      | .ok none => .ok none
      | .ok (some given) => readOptions subcommand given rest

/-- What `help` and the words behind it ask for: help on one subcommand, or on
`help` itself, or on all. -/
def helpOn : List Bytes → Except UsageError Invocation
  | [] => .ok .help
  | [word] =>
      if (Subcommand.of? word).isSome ∨ spells word "help" then .ok .help
      else .error (.unexpected word)
  | _ :: word :: _ => .error (.unexpected word)

/-- Reads the arguments up to the subcommand, and then its own. `logJson` tells
whether the flag of that name was met. -/
def readFrom (logJson : Bool) : List Bytes → Except UsageError Invocation
  | [] => .error .missingSubcommand
  | argument :: rest =>
      match Word.of argument with
      | .escape => .error .missingSubcommand
      | .short letter _ =>
          if letter = helpLetter then .ok .help
          else if letter = versionLetter then .ok .version
          else .error (.unexpected argument)
      | .long name attached =>
          if attached.isSome then .error (.unexpected argument)
          else if spells name "help" then .ok .help
          else if spells name "version" then .ok .version
          else if spells name Key.logJson.longName then
            if logJson then .error (.repeated .logJson) else readFrom true rest
          else .error (.unexpected argument)
      | .plain word =>
          match Subcommand.of? word with
          | some subcommand =>
              match readOptions subcommand .nothing rest with
              | .error failure => .error failure
              | .ok none => .ok .help
              | .ok (some (command, given)) =>
                  .ok (.perform command (logJson || given.flags.contains .logJson))
          | none =>
              if spells word "help" then helpOn rest else .error (.unexpected word)

def Invocation.ofArguments (arguments : List Bytes) : Except UsageError Invocation :=
  readFrom false arguments

def UsageError.message : UsageError → String
  | unexpected argument => s!"unexpected argument '{Utf8.text argument}'"
  | missingValue key => s!"a value is required for '--{key.longName}'"
  | unexpectedValue key value =>
      s!"unexpected value '{Utf8.text value}' for '--{key.longName}'"
  | repeated key => s!"the argument '--{key.longName}' cannot be used multiple times"
  | conflict => "the argument '--dir' cannot be used with '--module'"
  | missingSubcommand => "a subcommand is required"
  | missingName => "the name to resolve is required"
  | nameNotText => "the name to resolve is not valid UTF-8"

end CommandLine

end NamedBlobs
