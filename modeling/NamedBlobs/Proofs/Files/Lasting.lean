import NamedBlobs.Proofs.Files.Folder
import NamedBlobs.Proofs.Traced

/-!
# Files last

What is relied on where a single file is written (`LastingFiles`): reading comes back
and changes nothing, and what was written to a path is what is read there, whatever was
there before.

The tree of files keeps both promises (`FileTree.lastingFiles`): a file is written where
the walk along its path ends (`FileTree.walk_of_destination`), and that walk is the same
before and after (`FileTree.read_of_write`).
-/

namespace NamedBlobs

open Traced (Ends)

/-- Reading a file comes back and changes nothing, and a file that was written holds
what was written. -/
structure LastingFiles (σ : Type) [MonadFiles (Traced σ)] : Prop where
  read (path : Path) (s : σ) : ∃ found, Ends (MonadFiles.read path) s found s
  read_write {path : Path} {bytes : Bytes} {s t : σ}
    (h : Ends (MonadFiles.write path bytes) s (.ok ()) t) :
    Ends (MonadFiles.read path) t (.ok bytes) t

namespace FileTree

variable {tree : FileTree} {place : Place} {path : Path}

/-- Only a path that ends in a name is not that of a directory. -/
theorem exists_names_of_file (h : namesDirectory path = false) :
    ∃ way name, path.names = way ++ [name] ∧ name ≠ [] := by
  rcases List.eq_nil_or_concat path.names with hnil | ⟨way, name, hnames⟩
  · rw [namesDirectory, hnil] at h
    cases h
  · rw [List.concat_eq_append] at hnames
    refine ⟨way, name, hnames, ?_⟩
    rintro rfl
    rw [namesDirectory, hnames, List.getLast?_concat] at h
    cases h

/-- A file is written where the walk along its path ends, if no directory is there. -/
theorem walk_of_destination (h : tree.destination path = .ok place) :
    check path = .ok () ∧ tree.walk (start path) path.names = .ok place ∧
      tree.node? place ≠ some .directory := by
  obtain ⟨hcheck, hnamed, hfree, directory, hway, hlast⟩ := destination_eq_ok_iff.mp h
  obtain ⟨way, name, hnames, hname⟩ := exists_names_of_file hnamed
  rw [splitLast_of_names hnames hname] at hway hlast
  refine ⟨hcheck, ?_, hfree⟩
  rw [hnames]
  exact walk_append_eq_ok.mpr ⟨directory, hway, walk_cons_eq_ok.mpr ⟨place, hlast, rfl⟩⟩

/-- Whatever was at the path, what was written to it is read there. -/
theorem read_of_write {tree' : FileTree} {contents : Bytes}
    (h : tree.write path contents = .ok tree') : tree'.read path = .ok contents := by
  rw [write] at h
  split at h
  · cases h
  next place hplace =>
  cases h
  obtain ⟨hcheck, hwalk, hfree⟩ := walk_of_destination hplace
  have hnamed : place.names.isEmpty = false := by
    rw [node?] at hfree
    by_contra hempty
    exact hfree (if_pos (eq_true_of_ne_false hempty))
  simp only [read, hcheck, walk_put contents hfree hwalk, node?_put_self tree place _ hnamed]

theorem lastingFiles : LastingFiles FileTree where
  read path tree := ⟨tree.read path, rfl, rfl⟩
  read_write {path bytes tree tree'} h := by
    obtain ⟨hresult, hstate⟩ := h
    simp only [MonadFiles.write, Traced.run_step] at hresult hstate
    rcases hwrite : tree.write path bytes with failure | written
    · rw [hwrite] at hresult
      cases hresult
    · rw [hwrite] at hstate
      cases hstate
      exact ⟨congrArg Except.ok (read_of_write hwrite), rfl⟩

end FileTree

end NamedBlobs
