import Mathlib.Logic.Function.Basic
import NamedBlobs.Files.FileTree

/-!
# Files in one directory

What is relied on when files are kept in a directory (`KeepsFiles`): a file that
was written holds what was last written to it, a file that was never written is
not found, and files of different names are different files. It is said of any
files that can be read and written, by which files a state holds.

The tree of files keeps them so in every directory whose path leaves room for a
name (`FileTree.keepsFiles`). A path below a directory is the walk to the
directory and one more step (`exists_names_join`), and a file that is put where
no directory stood changes no other walk (`walk_put`).
-/

namespace NamedBlobs

/-- What a file in a directory may be called. -/
structure FileName (name : Bytes) : Prop where
  ne_nil : name ≠ []
  isName : Path.Component.of name = .name name
  separator_notMem : Path.separator ∉ name
  nul_notMem : 0 ∉ name
  length_le : name.length ≤ FileTree.maxName

/-- The files in the directory `root` are kept. In a state that `Holds files` the
directory is there and holds the given files, by name, and no others. -/
structure KeepsFiles {σ : Type} [MonadFiles (Traced σ)] (root : Path)
    (Holds : σ → (Bytes → Option Bytes) → Prop) : Prop where
  read {s : σ} {files : Bytes → Option Bytes} {name : Bytes} (hname : FileName name)
    (hs : Holds s files) :
    ((MonadFiles.read (root.join name) : Traced σ _).run s).result =
        .ok ((files name).elim (.error .notFound) .ok) ∧
      Holds ((MonadFiles.read (root.join name) : Traced σ _).run s).state files
  write {s : σ} {files : Bytes → Option Bytes} {name : Bytes} (bytes : Bytes)
    (hname : FileName name) (hs : Holds s files) :
    ((MonadFiles.write (root.join name) bytes : Traced σ _).run s).result = .ok (.ok ()) ∧
      Holds ((MonadFiles.write (root.join name) bytes : Traced σ _).run s).state
        (Function.update files name (some bytes))

namespace Path

theorem splitNames_of_notMem {name : Bytes} (h : separator ∉ name) :
    splitNames name = [name] := by
  induction name with
  | nil => rfl
  | cons byte rest ih =>
      rw [List.mem_cons, not_or] at h
      rw [splitNames, if_neg (Ne.symm h.1), ih h.2]

theorem splitNames_ne_nil (bytes : Bytes) : splitNames bytes ≠ [] := by
  cases bytes with
  | nil => simp [splitNames]
  | cons byte rest =>
      rw [splitNames]
      split
      · simp
      · split <;> simp

/-- What stands before a separator and what stands behind it are split apart from
each other. -/
theorem splitNames_append_separator (front rest : Bytes) :
    splitNames (front ++ separator :: rest) = splitNames front ++ splitNames rest := by
  induction front with
  | nil => simp [splitNames]
  | cons byte front ih =>
      rw [List.cons_append, splitNames, splitNames, ih]
      by_cases hbyte : byte = separator
      · rw [if_pos hbyte, if_pos hbyte, List.cons_append]
      · rw [if_neg hbyte, if_neg hbyte]
        obtain ⟨first, names, hfirst⟩ := List.exists_cons_of_ne_nil (splitNames_ne_nil front)
        simp only [hfirst, List.cons_append]

/-- The names on the way to a file in `root` are those on the way to `root`, where
an empty last one does not count, and then the file's own. -/
theorem exists_names_join (root : Path) :
    ∃ way, (root.names = way ∨ root.names = way ++ [[]]) ∧
      ∀ name, separator ∉ name → (root.join name).names = way ++ [name] := by
  obtain ⟨bytes⟩ := root
  rcases List.eq_nil_or_concat bytes with rfl | ⟨front, last, hbytes⟩
  · refine ⟨[], Or.inr rfl, fun name hname => ?_⟩
    exact splitNames_of_notMem hname
  · rw [List.concat_eq_append] at hbytes
    subst hbytes
    by_cases hlast : last = separator
    · subst hlast
      refine ⟨splitNames front, Or.inr ?_, fun name hname => ?_⟩
      · exact splitNames_append_separator front []
      · have hjoin : (Path.mk (front ++ [separator])).join name =
            ⟨front ++ separator :: name⟩ := by
          simp [join]
        rw [hjoin, names, splitNames_append_separator, splitNames_of_notMem hname]
    · refine ⟨splitNames (front ++ [last]), Or.inl rfl, fun name hname => ?_⟩
      have hjoin : (Path.mk (front ++ [last])).join name =
          ⟨(front ++ [last]) ++ separator :: name⟩ := by
        simp [join, hlast]
      rw [hjoin, names, splitNames_append_separator, splitNames_of_notMem hname]

theorem length_join_le (root : Path) (name : Bytes) :
    (root.join name).bytes.length ≤ root.bytes.length + 1 + name.length := by
  rw [join]
  split
  · rw [List.length_append]
    omega
  · rw [List.length_append, List.length_cons]
    omega

theorem mem_join {root : Path} {name : Bytes} {byte : UInt8}
    (h : byte ∈ (root.join name).bytes) :
    byte ∈ root.bytes ∨ byte = separator ∨ byte ∈ name := by
  rw [join] at h
  split at h
  · rcases List.mem_append.mp h with hroot | hname
    · exact Or.inl hroot
    · exact Or.inr (Or.inr hname)
  · rcases List.mem_append.mp h with hroot | hname
    · exact Or.inl hroot
    · exact Or.inr (List.mem_cons.mp hname)

theorem join_bytes_ne_nil (root : Path) {name : Bytes} (h : name ≠ []) :
    (root.join name).bytes ≠ [] := by
  rw [join]
  split <;> simp [h]

end Path

namespace FileTree

open NamedBlobs.Path (separator)

variable {tree : FileTree} {place : Place}

theorem start_join (root : Path) {name : Bytes} (h : separator ∉ name) :
    start (root.join name) = start root := by
  obtain ⟨bytes⟩ := root
  rw [start, start, Path.isAbsolute, Path.isAbsolute, Path.join]
  cases bytes with
  | nil =>
      cases name with
      | nil => rfl
      | cons first name =>
          have hfirst : first ≠ separator := fun heq => h (by simp [heq])
          simp [hfirst]
  | cons byte bytes => split <;> rfl

theorem check_join {root : Path} {name : Bytes} (hname : FileName name)
    (hnul : 0 ∉ root.bytes) (hroom : root.bytes.length + 1 + maxName < pathLimit) :
    check (root.join name) = .ok () := by
  have hfree : (root.join name).bytes.contains 0 = false := by
    rw [List.contains_eq_mem, decide_eq_false_iff_not]
    intro hmem
    rcases Path.mem_join hmem with hroot | hseparator | hmem
    · exact hnul hroot
    · exact absurd hseparator (by decide)
    · exact hname.nul_notMem hmem
  have hne : (root.join name).bytes.isEmpty = false := by
    simpa using Path.join_bytes_ne_nil root hname.ne_nil
  have hlength := Path.length_join_le root name
  have hshort := hname.length_le
  rw [check, hfree, hne]
  simp only [Bool.false_eq_true, if_false]
  rw [if_neg (by omega)]

/-- Only a directory is left by a step. -/
theorem node?_of_enter {name : Bytes} {next : Place} (h : tree.enter place name = .ok next) :
    tree.node? place = some .directory := by
  rw [enter] at h
  split at h
  · cases h
  · cases h
  · assumption

theorem enter_congr {other : FileTree} (h : other.node? place = tree.node? place)
    (name : Bytes) : other.enter place name = tree.enter place name := by
  rw [enter, enter, h]

theorem enter_fileName {name : Bytes} (hplace : tree.node? place = some .directory)
    (hname : FileName name) : tree.enter place name = .ok (place.child name) := by
  have hne : name.isEmpty = false := by simpa using hname.ne_nil
  have hlength : ¬ name.length > maxName := Nat.not_lt.mpr hname.length_le
  simp only [enter, hplace, hname.isName, hne, Bool.false_eq_true, if_false, if_neg hlength]

/-- An empty name leads nowhere else. -/
theorem enter_nil {next : Place} (h : tree.enter place [] = .ok next) : next = place := by
  have hplace := node?_of_enter h
  have hempty : Path.Component.of [] = .name [] := rfl
  simp only [enter, hplace, hempty, List.isEmpty_nil, if_true] at h
  exact (Except.ok.inj h).symm

theorem walk_cons_eq_ok {name : Bytes} {names : List Bytes} {goal : Place} :
    tree.walk place (name :: names) = .ok goal ↔
      ∃ next, tree.enter place name = .ok next ∧ tree.walk next names = .ok goal := by
  rw [walk]
  cases tree.enter place name with
  | error failure => simp
  | ok next => simp

theorem walk_append_eq_ok {way names : List Bytes} {goal : Place} :
    tree.walk place (way ++ names) = .ok goal ↔
      ∃ next, tree.walk place way = .ok next ∧ tree.walk next names = .ok goal := by
  induction way generalizing place with
  | nil => simp [walk]
  | cons name way ih =>
      simp only [List.cons_append, walk_cons_eq_ok, ih]
      constructor
      · rintro ⟨first, hfirst, next, hnext, hgoal⟩
        exact ⟨next, ⟨first, hfirst, hnext⟩, hgoal⟩
      · rintro ⟨next, ⟨first, hfirst, hnext⟩, hgoal⟩
        exact ⟨first, hfirst, next, hnext, hgoal⟩

/-- A walk that ends with an empty name was there before it. -/
theorem walk_of_walk_append_nil {way : List Bytes} {goal : Place}
    (h : tree.walk place (way ++ [[]]) = .ok goal) : tree.walk place way = .ok goal := by
  obtain ⟨next, hway, hstay⟩ := walk_append_eq_ok.mp h
  obtain ⟨last, hlast, hgoal⟩ := walk_cons_eq_ok.mp hstay
  rw [enter_nil hlast] at hgoal
  rw [hway, ← hgoal, walk]

/-- A file put where no directory stands is on no walk. -/
theorem walk_put {names : List Bytes} {goal filed : Place} (contents : Bytes)
    (hfiled : tree.node? filed ≠ some .directory) (h : tree.walk place names = .ok goal) :
    (tree.put filed (.file contents)).walk place names = .ok goal := by
  induction names generalizing place with
  | nil => exact h
  | cons name names ih =>
      obtain ⟨next, hnext, hgoal⟩ := walk_cons_eq_ok.mp h
      have hne : place ≠ filed := fun heq => hfiled (heq ▸ node?_of_enter hnext)
      have hsame := enter_congr (node?_put_of_ne tree (.file contents) hne) name
      exact walk_cons_eq_ok.mpr ⟨next, hsame.trans hnext, ih hgoal⟩

theorem child_inj {name other : Bytes} (h : place.child name = place.child other) :
    name = other := by
  injection h with _ hnames
  exact (List.cons.inj hnames).1

/-- The directory at `root` is there and holds the given files. -/
def Holds (root : Path) (tree : FileTree) (files : Bytes → Option Bytes) : Prop :=
  ∃ place, tree.walk (start root) root.names = .ok place ∧
    tree.node? place = some .directory ∧
    ∀ name, FileName name → tree.node? (place.child name) = (files name).map .file

/-- The walk to every file of a directory. -/
theorem Holds.exists_walk {root : Path} {files : Bytes → Option Bytes}
    (h : tree.Holds root files) :
    ∃ place way, tree.walk (start root) root.names = .ok place ∧
      tree.node? place = some .directory ∧ tree.walk (start root) way = .ok place ∧
      (∀ name, separator ∉ name → (root.join name).names = way ++ [name]) ∧
      ∀ name, FileName name → tree.node? (place.child name) = (files name).map .file := by
  obtain ⟨place, hwalk, hplace, hfiles⟩ := h
  obtain ⟨way, hway, hnames⟩ := root.exists_names_join
  refine ⟨place, way, hwalk, hplace, ?_, hnames, hfiles⟩
  rcases hway with hway | hway
  · rwa [hway] at hwalk
  · rw [hway] at hwalk
    exact walk_of_walk_append_nil hwalk

theorem Holds.put {root : Path} {files : Bytes → Option Bytes} {name : Bytes}
    (hname : FileName name) (hwalk : tree.walk (start root) root.names = .ok place)
    (hplace : tree.node? place = some .directory)
    (hfiles : ∀ name, FileName name → tree.node? (place.child name) = (files name).map .file)
    (contents : Bytes) :
    (tree.put (place.child name) (.file contents)).Holds root
      (Function.update files name (some contents)) := by
  have hchild : tree.node? (place.child name) ≠ some .directory := by
    rw [hfiles name hname]
    cases files name <;> simp
  have hne : place ≠ place.child name := fun heq => hchild (heq ▸ hplace)
  refine ⟨place, walk_put contents hchild hwalk, ?_, fun other hother => ?_⟩
  · rw [node?_put_of_ne tree _ hne, hplace]
  · by_cases hsame : other = name
    · subst hsame
      rw [node?_put_self tree _ _ rfl, Function.update_self]
      rfl
    · have hdiffers : place.child other ≠ place.child name := fun heq => hsame (child_inj heq)
      rw [node?_put_of_ne tree _ hdiffers, hfiles other hother, Function.update_of_ne hsame]

theorem splitLast_of_names {path : Path} {way : List Bytes} {name : Bytes}
    (hnames : path.names = way ++ [name]) (hname : name ≠ []) :
    splitLast path = (way, some name) := by
  have hne : name.isEmpty = false := by simpa using hname
  simp [splitLast, hnames, hne]

/-- A file is written where the walk to its directory and one more step end, unless the
path or what is there is a directory's. -/
theorem destination_eq_ok_iff {path : Path} :
    tree.destination path = .ok place ↔
      check path = .ok () ∧ namesDirectory path = false ∧
        tree.node? place ≠ some .directory ∧
        ∃ directory, tree.walk (start path) (splitLast path).1 = .ok directory ∧
          tree.enter directory ((splitLast path).2.getD []) = .ok place := by
  constructor
  · intro h
    rw [destination] at h
    split at h
    · cases h
    next hcheck =>
    split at h
    · cases h
    next directory hway =>
    split at h
    · cases h
    · cases h
    split at h
    · cases h
    next hnamed =>
    split at h
    · cases h
    next last hlast =>
    split at h
    · cases h
    next hfree =>
    cases h
    exact ⟨hcheck, eq_false_of_ne_true hnamed, hfree, directory, hway, hlast⟩
  · rintro ⟨hcheck, hnamed, hfree, directory, hway, hlast⟩
    simp only [destination, hcheck, hway, node?_of_enter hlast, hnamed, Bool.false_eq_true,
      if_false, hlast, if_neg hfree]

variable {root : Path} (hnul : 0 ∉ root.bytes)
  (hroom : root.bytes.length + 1 + maxName < pathLimit)
include hnul hroom

theorem read_join {files : Bytes → Option Bytes} {name : Bytes} (hname : FileName name)
    (h : tree.Holds root files) :
    tree.read (root.join name) = (files name).elim (.error .notFound) .ok := by
  obtain ⟨place, way, -, hplace, hway, hnames, hfiles⟩ := h.exists_walk
  have hwalk : tree.walk (start (root.join name)) (root.join name).names =
      .ok (place.child name) := by
    rw [start_join root hname.separator_notMem, hnames name hname.separator_notMem]
    have hlast : tree.walk place [name] = .ok (place.child name) :=
      walk_cons_eq_ok.mpr ⟨_, enter_fileName hplace hname, rfl⟩
    exact walk_append_eq_ok.mpr ⟨place, hway, hlast⟩
  have hnode := hfiles name hname
  simp only [read, check_join hname hnul hroom, hwalk, hnode]
  cases files name <;> rfl

theorem destination_join {files : Bytes → Option Bytes} {name : Bytes}
    (hname : FileName name) {way : List Bytes} (hway : tree.walk (start root) way = .ok place)
    (hplace : tree.node? place = some .directory)
    (hnames : (root.join name).names = way ++ [name])
    (hfile : tree.node? (place.child name) = (files name).map .file) :
    tree.destination (root.join name) = .ok (place.child name) := by
  have hne : name.isEmpty = false := by simpa using hname.ne_nil
  have hnamed : namesDirectory (root.join name) = false := by
    simp [namesDirectory, hnames, hname.isName, hne]
  have hfree : tree.node? (place.child name) ≠ some .directory := by
    rw [hfile]
    cases files name <;> simp
  rw [destination_eq_ok_iff, splitLast_of_names hnames hname.ne_nil,
    start_join root hname.separator_notMem]
  exact ⟨check_join hname hnul hroom, hnamed, hfree, place, hway, enter_fileName hplace hname⟩

theorem write_join {files : Bytes → Option Bytes} {name : Bytes} (hname : FileName name)
    (h : tree.Holds root files) (bytes : Bytes) :
    ∃ tree', tree.write (root.join name) bytes = .ok tree' ∧
      tree'.Holds root (Function.update files name (some bytes)) := by
  obtain ⟨place, way, hwalk, hplace, hway, hnames, hfiles⟩ := h.exists_walk
  have hdestination := destination_join hnul hroom hname hway hplace
    (hnames name hname.separator_notMem) (hfiles name hname)
  refine ⟨tree.put (place.child name) (.file bytes), ?_, Holds.put hname hwalk hplace hfiles bytes⟩
  rw [write, hdestination]

/-- The tree keeps the files of every directory whose path leaves room for a name. -/
theorem keepsFiles : KeepsFiles root (Holds root) where
  read {tree files name} hname h := by
    refine ⟨?_, h⟩
    exact congrArg Except.ok (read_join hnul hroom hname h)
  write {tree files name} bytes hname h := by
    obtain ⟨tree', hwrite, hholds⟩ := write_join hnul hroom hname h bytes
    simp only [MonadFiles.write, Traced.run_step, hwrite]
    exact ⟨trivial, hholds⟩

end FileTree

end NamedBlobs
