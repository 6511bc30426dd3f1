import NamedBlobs.Lookup.Directory
import NamedBlobs.Proofs.Files.Folder
import NamedBlobs.Proofs.Lookup.Discipline
import NamedBlobs.Proofs.Lookup.Memory
import NamedBlobs.Proofs.Text.Numeral
import NamedBlobs.Proofs.Text.Utf8

/-!
# A directory stands for a memory

Different resources are different files (`Directory.fileName_injective`), so a
directory into which resources are written mirrors the memory into which they
are stored in the same order. A mirror gives the memory's answer to every load
and is left a mirror by it, hence no sequence of lookups tells the two apart.
-/

namespace NamedBlobs

namespace ResourceId

theorem chars_injective : Function.Injective chars := by
  intro a b h
  obtain ⟨a⟩ := a
  obtain ⟨b⟩ := b
  rw [mk.injEq]
  exact Int64.toInt_inj.mp (Numeral.integerChars_injective h)

theorem length_chars_le (id : ResourceId) : id.chars.length ≤ 20 := by
  have hlow := id.value.le_toInt
  have hhigh := id.value.toInt_lt
  exact Numeral.length_integerChars_le (by decide) (by omega)

end ResourceId

namespace Memory

/-- The memory with all `entries` stored in it, one after the other. -/
def insertAll : Memory → List (ResourceId × Bytes) → Memory
  | memory, [] => memory
  | memory, (id, bytes) :: entries => (memory.insert id bytes).insertAll entries

/-- A memory gives bytes, or does not find the resource, or finds it empty. -/
theorem load_cases (memory : Memory) (id : ResourceId) :
    (memory.load id).map Loaded.bytes = .error (.notFound id) ∨
      (memory.load id).map Loaded.bytes = .error (.empty id) ∨
      ∃ bytes, bytes ≠ [] ∧ (memory.load id).map Loaded.bytes = .ok bytes := by
  rw [load]
  rcases memory.get? id with _ | _ | ⟨byte, rest⟩
  · exact Or.inl rfl
  · exact Or.inr (Or.inl rfl)
  · exact Or.inr (Or.inr ⟨byte :: rest, by simp, rfl⟩)

end Memory

namespace Directory

/-- A resource's file name has digits, a minus sign, a dot and three letters. -/
theorem toNat_of_mem_chars {id : ResourceId} {c : Char}
    (h : c ∈ id.chars ++ ['.', 'b', 'i', 'n']) :
    0x2D ≤ c.toNat ∧ c.toNat < 128 ∧ c.toNat ≠ 0x2F := by
  simp only [List.mem_append, List.mem_cons, List.not_mem_nil, or_false] at h
  rcases h with hdigits | rfl | rfl | rfl | rfl
  · rcases Numeral.isDigit_or_eq_minus_of_mem hdigits with hdigit | rfl
    · have hrange := Char.isDigit_iff_toNat.mp hdigit
      have hlow : '0'.toNat = 0x30 := rfl
      have hhigh : '9'.toNat = 0x39 := rfl
      omega
    · decide
  · decide
  · decide
  · decide
  · decide

theorem chars_fileName (id : ResourceId) :
    Utf8.chars (fileName id) = id.chars ++ ['.', 'b', 'i', 'n'] :=
  Utf8.chars_ofAscii fun _ hmem => (toNat_of_mem_chars hmem).2.1

theorem fileName_injective : Function.Injective fileName := by
  intro a b h
  have hchars := congrArg Utf8.chars h
  rw [chars_fileName, chars_fileName] at hchars
  exact ResourceId.chars_injective (List.append_cancel_right hchars)

theorem toNat_of_mem_fileName {id : ResourceId} {byte : UInt8} (h : byte ∈ fileName id) :
    0x2D ≤ byte.toNat ∧ byte.toNat ≠ 0x2F := by
  obtain ⟨c, hmem, rfl⟩ := List.mem_map.mp h
  have hrange := toNat_of_mem_chars hmem
  rw [UInt8.toNat_ofNat']
  omega

/-- The name of a resource's file is one that a directory can hold. -/
theorem fileName_isFileName (id : ResourceId) : FileName (fileName id) where
  ne_nil h := by
    have hchars := congrArg List.length h
    simp [fileName, Utf8.ofAscii] at hchars
  isName := by
    have hlength : 4 < (fileName id).length := by
      have hne : id.chars ≠ [] := Numeral.integerChars_ne_nil id.value.toInt
      have hpos := List.length_pos_iff.mpr hne
      simp only [fileName, Utf8.ofAscii, List.length_map, List.length_append, List.length_cons,
        List.length_nil]
      omega
    have hdot : fileName id ≠ [0x2E] := fun h => by
      rw [h] at hlength
      exact absurd hlength (by decide)
    have hdots : fileName id ≠ [0x2E, 0x2E] := fun h => by
      rw [h] at hlength
      exact absurd hlength (by decide)
    rw [Path.Component.of, if_neg hdot, if_neg hdots]
  separator_notMem h := (toNat_of_mem_fileName h).2 rfl
  nul_notMem h := absurd (toNat_of_mem_fileName h).1 (by decide)
  length_le := by
    have hdigits := id.length_chars_le
    simp only [fileName, Utf8.ofAscii, List.length_map, List.length_append, List.length_cons,
      List.length_nil, FileTree.maxName]
    omega

/-- Writes resources one after the other, up to one that cannot be written. -/
def storeAll {m : Type → Type} [Monad m] [MonadFiles m] (directory : Directory) :
    List (ResourceId × Bytes) → m (Except FileError Unit)
  | [] => pure (.ok ())
  | (id, bytes) :: entries => do
      match ← directory.store id bytes with
      | .error failure => return .error failure
      | .ok () => directory.storeAll entries

variable {σ : Type}

/-- A load reads one file and says what it makes of that. -/
theorem run_load [MonadFiles (Traced σ)] (directory : Directory) (id : ResourceId) (s : σ) :
    ((directory.source : Source (Traced σ)).load id).run s =
      ⟨((MonadFiles.read (directory.pathOf id) : Traced σ _).run s).result.map (loaded id),
        .make .trace "reading resource file" [("path", (directory.pathOf id).text)] ::
          ((MonadFiles.read (directory.pathOf id) : Traced σ _).run s).events,
        ((MonadFiles.read (directory.pathOf id) : Traced σ _).run s).state⟩ := by
  rw [source, Traced.run_bind_ok (Traced.run_emit _ s)]
  rcases hread : (MonadFiles.read (directory.pathOf id) : Traced σ _).run s with
    ⟨panic | contents, events, t⟩
  · rw [Traced.run_bind_error hread]
    rfl
  · rw [Traced.run_bind_ok hread, Traced.run_pure, List.append_nil]
    rfl

/-- What a file of the given contents, if there is one, is taken for is what a memory
with these contents answers. -/
theorem map_loaded_elim {memory : Memory} {id : ResourceId} {contents : Option Bytes}
    (h : contents = memory.get? id) :
    (loaded id (contents.elim (.error .notFound) .ok)).map Loaded.bytes =
      (memory.load id).map Loaded.bytes := by
  rw [Memory.load, ← h]
  rcases contents with _ | bytes
  · rfl
  · simp only [Option.elim_some, loaded]
    split <;> rfl

/-- The files in a state are the memory's resources: under a resource's file name
there is what the memory holds of it. -/
def Mirrors (Holds : σ → (Bytes → Option Bytes) → Prop) (s : σ) (memory : Memory) : Prop :=
  ∃ files, Holds s files ∧ ∀ id, files (fileName id) = memory.get? id

namespace Mirrors

variable [MonadFiles (Traced σ)] {directory : Directory}
  {Holds : σ → (Bytes → Option Bytes) → Prop} (hkeeps : KeepsFiles directory.root Holds)
  {s : σ} {memory : Memory}
include hkeeps

theorem store (h : Mirrors Holds s memory) (id : ResourceId) (bytes : Bytes) :
    ((directory.store id bytes : Traced σ _).run s).result = .ok (.ok ()) ∧
      Mirrors Holds ((directory.store id bytes : Traced σ _).run s).state
        (memory.insert id bytes) := by
  obtain ⟨files, hholds, hfiles⟩ := h
  obtain ⟨hresult, hstate⟩ := hkeeps.write bytes (fileName_isFileName id) hholds
  refine ⟨hresult, _, hstate, fun other => ?_⟩
  by_cases hid : other = id
  · subst hid
    rw [Function.update_self, Memory.get?_insert_self]
  · have hname : fileName other ≠ fileName id := fun heq => hid (fileName_injective heq)
    rw [Function.update_of_ne hname, hfiles, Memory.get?_insert_of_ne memory bytes hid]

/-- A mirror stays one through any writes. -/
theorem storeAll (h : Mirrors Holds s memory) (entries : List (ResourceId × Bytes)) :
    ((directory.storeAll entries : Traced σ _).run s).result = .ok (.ok ()) ∧
      Mirrors Holds ((directory.storeAll entries : Traced σ _).run s).state
        (memory.insertAll entries) := by
  induction entries generalizing s memory with
  | nil => exact ⟨rfl, h⟩
  | cons entry entries ih =>
      obtain ⟨id, bytes⟩ := entry
      obtain ⟨hresult, hstate⟩ := store hkeeps h id bytes
      rcases hrun : (directory.store id bytes : Traced σ _).run s with ⟨result, events, t⟩
      rw [hrun] at hresult hstate
      subst hresult
      rw [Directory.storeAll, Traced.run_bind_ok hrun]
      exact ih hstate

/-- A load from a mirror gives what the memory gives and leaves a mirror. -/
theorem load (h : Mirrors Holds s memory) (id : ResourceId) :
    directory.source.answer id s = Memory.source.answer id memory ∧
      Mirrors Holds (directory.source.after id s) memory := by
  obtain ⟨files, hholds, hfiles⟩ := h
  obtain ⟨hresult, hstate⟩ := hkeeps.read (fileName_isFileName id) hholds
  rw [Source.answer, Source.after, run_load, pathOf, hresult]
  exact ⟨congrArg Except.ok (map_loaded_elim (hfiles id)), files, hstate, hfiles⟩

/-- A mirror gives the memory's answers to any loads, one after the other. -/
theorem answers (h : Mirrors Holds s memory) (ids : List ResourceId) :
    directory.source.answers ids s = Memory.source.answers ids memory := by
  induction ids generalizing s with
  | nil => rfl
  | cons id ids ih =>
      obtain ⟨hanswer, hafter⟩ := load hkeeps h id
      rw [Source.answers, Source.answers, hanswer, ih hafter, Memory.after_source]

end Mirrors

/-- After the same resources were written into an empty directory and stored in an
empty memory, in the same order, a load from the one gives what a load from the
other gives: bytes, or that there is no such resource, or that it is empty. So
every call comes to the same on both, and so do any calls and loads one after the
other. -/
theorem interchangeable_with_memory [MonadFiles (Traced σ)] (directory : Directory)
    {Holds : σ → (Bytes → Option Bytes) → Prop} (hkeeps : KeepsFiles directory.root Holds)
    {s : σ} (hempty : Holds s fun _ => none) (entries : List (ResourceId × Bytes)) :
    ∃ events t, (directory.storeAll entries : Traced σ _).run s = ⟨.ok (.ok ()), events, t⟩ ∧
      (∀ id, ∃ found, directory.source.answer id t = .ok found ∧
        Memory.source.answer id (Memory.empty.insertAll entries) = .ok found ∧
        (found = .error (.notFound id) ∨ found = .error (.empty id) ∨
          ∃ bytes, bytes ≠ [] ∧ found = .ok bytes)) ∧
      (∀ call : Call, ((call.perform directory.source).run t).result =
        ((call.perform Memory.source).run (Memory.empty.insertAll entries)).result) ∧
      ∀ steps : List Step, ((Step.performAll directory.source (pure ()) steps).run t).result =
        ((Step.performAll Memory.source (pure ()) steps).run
          (Memory.empty.insertAll entries)).result := by
  have hmirrors : Mirrors Holds s .empty := ⟨_, hempty, fun _ => rfl⟩
  obtain ⟨hresult, hmirrors⟩ := hmirrors.storeAll hkeeps entries
  rcases hrun : (directory.storeAll entries : Traced σ _).run s with ⟨result, events, t⟩
  rw [hrun] at hresult hmirrors
  subst hresult
  refine ⟨events, t, rfl, fun id => ?_, fun call => ?_, fun steps => ?_⟩
  · have hload := (hmirrors.load hkeeps id).1
    exact ⟨_, hload, Memory.answer_source id _, Memory.load_cases _ id⟩
  · exact (call.follows_perform Memory.source).result_eq_of_answers
      (call.follows_perform directory.source) (hmirrors.answers hkeeps)
  · exact (Step.follows_performAll Memory.source steps).result_eq_of_answers
      (Step.follows_performAll directory.source steps) (hmirrors.answers hkeeps)

/-- A name stands for a resource with a negative number that was written twice. -/
theorem interchangeable_with_memory_negative :
    KeepsFiles ⟨[0x72]⟩ (FileTree.Holds ⟨[0x72]⟩) ∧
    FileTree.Holds ⟨[0x72]⟩ (FileTree.empty.put (.child .here [0x72]) .directory)
      (fun _ => none) ∧
    ∃ events t,
      ((Directory.mk ⟨[0x72]⟩).storeAll [(⟨-1⟩, [7]), (⟨5⟩, []),
          (.table, Table.encode ⟨[⟨[0x70], -1⟩]⟩), (⟨-1⟩, [1, 2])] :
        Traced FileTree _).run (FileTree.empty.put (.child .here [0x72]) .directory) =
          ⟨.ok (.ok ()), events, t⟩ ∧
      (((Directory.mk ⟨[0x72]⟩).source.resolve [0x70] : Traced FileTree _).run t).result =
        .ok ⟨[1, 2]⟩ := by
  have hkeeps : KeepsFiles ⟨[0x72]⟩ (FileTree.Holds ⟨[0x72]⟩) :=
    FileTree.keepsFiles (by decide) (by decide)
  have hempty : FileTree.Holds ⟨[0x72]⟩
      (FileTree.empty.put (.child .here [0x72]) .directory) (fun _ => none) := by
    refine ⟨.child .here [0x72], rfl, rfl, fun name _ => ?_⟩
    exact FileTree.node?_put_of_ne .empty .directory (by simp [FileTree.Place.child])
  have hmemory : ((Memory.source.resolve [0x70]).run (Memory.empty.insertAll [(⟨-1⟩, [7]),
      (⟨5⟩, []), (.table, Table.encode ⟨[⟨[0x70], -1⟩]⟩), (⟨-1⟩, [1, 2])])).result =
        .ok ⟨[1, 2]⟩ := by decide +kernel
  obtain ⟨events, t, hrun, -, hcalls, -⟩ := interchangeable_with_memory ⟨⟨[0x72]⟩⟩ hkeeps hempty
    [(⟨-1⟩, [7]), (⟨5⟩, []), (.table, Table.encode ⟨[⟨[0x70], -1⟩]⟩), (⟨-1⟩, [1, 2])]
  refine ⟨hkeeps, hempty, events, t, hrun, ?_⟩
  have hresolve := hcalls (.resolve [0x70])
  rw [Call.perform, Call.perform, Traced.run_map, Traced.run_map, hmemory] at hresolve
  rcases hfound : (((Directory.mk ⟨[0x72]⟩).source.resolve [0x70] : Traced FileTree _).run
      t).result with panic | blob
  · rw [hfound] at hresolve
    cases hresolve
  · rw [hfound] at hresolve
    cases hresolve
    rfl

end Directory

end NamedBlobs
