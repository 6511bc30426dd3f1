import NamedBlobs.CommandLine.Arguments

/-!
# Names that can be given

The name that `resolve` is given is text, however the arguments are written
(`isText_of_ofArguments`): no argument makes a name of bytes that are none
(`Given.NameIsText.add`), hence no arguments do. After a double dash every text can be
given (`ofArguments_resolveArguments`).
-/

namespace NamedBlobs

namespace CommandLine

namespace Given

variable {given given' : Given} {subcommand : Subcommand}

/-- The name that was given so far, if any, is text. -/
def NameIsText (given : Given) : Prop :=
  ∀ name, given.name = some name → Utf8.isText name = true

theorem map_some_eq_ok_iff {x : Except UsageError Given} :
    some <$> x = .ok (some given') ↔ x = .ok given' := by
  cases x <;> simp [Functor.map, Except.map]

theorem name_of_addValue {key : Key} {value : Bytes} (h : given.addValue key value = .ok given') :
    given'.name = given.name := by
  rw [addValue] at h
  split at h
  · cases h
  · split at h
    · cases h
    · cases h
      rfl

theorem name_of_addKey {key : Key} {attached : Option Bytes}
    (h : given.addKey key attached = .ok given') : given'.name = given.name := by
  unfold addKey at h
  split at h
  · exact name_of_addValue h
  · cases h
    rfl
  · cases h
  · rw [addFlag] at h
    split at h
    · cases h
    · cases h
      rfl

theorem NameIsText.of_addName {name : Bytes} (h : given.addName subcommand name = .ok given') :
    given'.NameIsText := by
  rw [addName] at h
  split at h
  · split at h
    · next htext =>
        cases h
        rintro _ ⟨rfl⟩
        exact htext
    · cases h
  · cases h

/-- One more argument leaves the name text. -/
theorem NameIsText.add {argument : Bytes} (hgiven : given.NameIsText)
    (h : given.add subcommand argument = .ok (some given')) : given'.NameIsText := by
  have hsame : given'.name = given.name → given'.NameIsText := fun hname name hsome =>
    hgiven name (hname ▸ hsome)
  rw [Given.add] at h
  split at h
  case h_1 =>
    split at h
    · cases h
    · exact hsame (name_of_addValue (map_some_eq_ok_iff.mp h))
  case h_2 => exact of_addName (map_some_eq_ok_iff.mp h)
  case h_3 =>
    cases h
    exact hgiven
  case h_4 => exact of_addName (map_some_eq_ok_iff.mp h)
  case h_5 =>
    split at h
    · split at h
      · cases h
      · cases h
    · split at h
      · exact hsame (name_of_addKey (map_some_eq_ok_iff.mp h))
      · cases h
  case h_6 =>
    split at h
    · cases h
    · split at h
      · exact hsame (name_of_addKey (map_some_eq_ok_iff.mp h))
      · cases h

theorem name_of_command {name : Bytes} {location : Location} {out : Option Path}
    (h : given.command subcommand = .ok (.resolve name location out)) :
    given.name = some name := by
  unfold command at h
  split at h
  all_goals cases h
  assumption

end Given

/-- Whatever the arguments are, the name that they give is text. -/
theorem isText_of_readOptions {subcommand : Subcommand} {given given' : Given}
    {arguments : List Bytes} {name : Bytes} {location : Location} {out : Option Path}
    (hgiven : given.NameIsText)
    (h : readOptions subcommand given arguments =
      .ok (some (.resolve name location out, given'))) : Utf8.isText name = true := by
  induction arguments generalizing given with
  | nil =>
      rw [readOptions] at h
      rcases hcommand : given.command subcommand with failure | command
      · rw [hcommand] at h
        cases h
      · rw [hcommand] at h
        cases h
        exact hgiven name (Given.name_of_command hcommand)
  | cons argument arguments ih =>
      rw [readOptions] at h
      split at h
      · cases h
      · cases h
      · next hadd => exact ih (hgiven.add hadd) h

theorem helpOn_ne_perform (words : List Bytes) (command : Command) (logJson : Bool) :
    helpOn words ≠ .ok (.perform command logJson) := by
  match words with
  | [] => simp [helpOn]
  | [word] =>
      rw [helpOn]
      split <;> simp
  | _ :: _ :: _ => simp [helpOn]

/-- A command is what the options of some subcommand say, behind what is read before it. -/
theorem exists_readOptions {arguments : List Bytes} {command : Command} {logJson given : Bool}
    (h : readFrom given arguments = .ok (.perform command logJson)) :
    ∃ subcommand rest options,
      readOptions subcommand .nothing rest = .ok (some (command, options)) := by
  induction arguments generalizing given with
  | nil => cases h
  | cons argument arguments ih =>
      rw [readFrom] at h
      split at h
      case h_1 => cases h
      case h_2 =>
        split at h
        · cases h
        · split at h <;> cases h
      case h_3 =>
        -- of the long options before the subcommand, only the flag is passed
        split at h
        · cases h
        split at h
        · cases h
        split at h
        · cases h
        split at h
        · split at h
          · cases h
          · exact ih h
        · cases h
      case h_4 =>
        split at h
        · split at h
          · cases h
          · cases h
          · next hoptions =>
              cases h
              exact ⟨_, _, _, hoptions⟩
        · split at h
          · exact absurd h (helpOn_ne_perform _ _ _)
          · cases h

theorem isText_of_ofArguments {arguments : List Bytes} {name : Bytes} {location : Location}
    {out : Option Path} {logJson : Bool}
    (h : Invocation.ofArguments arguments = .ok (.perform (.resolve name location out) logJson)) :
    Utf8.isText name = true := by
  obtain ⟨subcommand, rest, options, hoptions⟩ := exists_readOptions h
  exact isText_of_readOptions (fun name hname => by cases hname) hoptions

/-- The word that gives a path to an option. -/
def Key.assigned (key : Key) (path : Path) : Bytes :=
  Utf8.ofAscii ('-' :: '-' :: key.longName.toList ++ ['=']) ++ path.bytes

/-- The arguments that ask for the blob of a name in a directory, and maybe for it to be
written. The name stands behind a double dash. -/
def resolveArguments (name : Bytes) (root : Path) (out : Option Path) : List Bytes :=
  Utf8.ofAscii ['r', 'e', 's', 'o', 'l', 'v', 'e'] :: Key.dir.assigned root ::
    ((out.map Key.out.assigned).toList ++ [[dash, dash], name])

/-- An argument that is read is behind the others. -/
theorem readOptions_cons {subcommand : Subcommand} {given given' : Given} {argument : Bytes}
    (h : given.add subcommand argument = .ok (some given')) (arguments : List Bytes) :
    readOptions subcommand given (argument :: arguments) =
      readOptions subcommand given' arguments := by
  rw [readOptions, h]

/-- Every text can be given as a name. -/
theorem ofArguments_resolveArguments {name : Bytes} (hname : Utf8.isText name = true)
    {root : Path} (hroot : root.bytes ≠ []) {out : Option Path}
    (hout : ∀ path, out = some path → path.bytes ≠ []) :
    Invocation.ofArguments (resolveArguments name root out) =
      .ok (.perform (.resolve name (.directory root) out) false) := by
  have hescaped : ∀ values : List (Key × Bytes),
      readOptions .resolve ⟨values, [], none, none, false⟩ [[dash, dash], name] =
        readOptions .resolve ⟨values, [], some name, none, true⟩ [] := by
    intro values
    have hadd : Given.add ⟨values, [], none, none, true⟩ .resolve name =
        .ok (some ⟨values, [], some name, none, true⟩) := by
      simp [Given.add, Given.addName, hname, Functor.map, Except.map]
    exact (readOptions_cons rfl _).trans (readOptions_cons hadd _)
  have hread : readOptions .resolve .nothing (Key.dir.assigned root ::
      ((out.map Key.out.assigned).toList ++ [[dash, dash], name])) =
        .ok (some (.resolve name (.directory root) out,
          ⟨(out.map fun path => (Key.out, path.bytes)).toList ++ [(.dir, root.bytes)], [],
            some name, none, true⟩)) := by
    obtain ⟨_ | ⟨byte, bytes⟩⟩ := root
    · exact absurd rfl hroot
    obtain _ | ⟨_ | ⟨first, rest⟩⟩ := out
    · exact (readOptions_cons rfl _).trans (hescaped _)
    · exact absurd rfl (hout _ rfl)
    · exact (readOptions_cons rfl _).trans ((readOptions_cons rfl _).trans (hescaped _))
  have hword : Word.of (Utf8.ofAscii ['r', 'e', 's', 'o', 'l', 'v', 'e']) =
      .plain (Utf8.ofAscii ['r', 'e', 's', 'o', 'l', 'v', 'e']) := rfl
  have hsubcommand : Subcommand.of? (Utf8.ofAscii ['r', 'e', 's', 'o', 'l', 'v', 'e']) =
      some .resolve := rfl
  rw [Invocation.ofArguments, resolveArguments, readFrom, hword]
  simp only [hsubcommand, hread]
  rfl

end CommandLine

end NamedBlobs
