import Mathlib.Control.Monad.Basic
import NamedBlobs.Proofs.CommandLine.Arguments
import NamedBlobs.Proofs.CommandLine.Exit
import NamedBlobs.Proofs.Files.Lasting
import NamedBlobs.Proofs.Lookup.Directory

/-!
# Resolving a name from the command line

The program prints the size of a blob, or writes the blob to a file, where a lookup of
the name in the directory has found one. Where none was found it prints nothing on the
standard output and leaves all files as they are. The file may be any, also one of those
that the lookup has read: by the time it is written nothing is read any more.
-/

namespace NamedBlobs

open Traced (Ends)

variable {σ : Type} [MonadFiles (Traced σ)]

namespace LastingFiles

theorem after_source (h : LastingFiles σ) (directory : Directory) (id : ResourceId) (s : σ) :
    directory.source.after id s = s := by
  obtain ⟨found, -, hstate⟩ := h.read (directory.pathOf id) s
  rw [Source.after, Directory.run_load]
  exact hstate

theorem returns (h : LastingFiles σ) (directory : Directory) :
    (directory.source : Source (Traced σ)).Returns := by
  intro id s
  obtain ⟨found, hresult, -⟩ := h.read (directory.pathOf id) s
  rw [Directory.run_load, hresult]
  exact ⟨_, rfl⟩

/-- A lookup in a directory comes back and changes nothing. -/
theorem exists_ends_tryResolve (h : LastingFiles σ) (directory : Directory) (name : Bytes)
    (s : σ) : ∃ found, Ends (directory.source.tryResolve name) s found s := by
  obtain ⟨found, hfound⟩ :=
    (Dialogue.passesPanics_tryResolve name).exists_value_of_returns (h.returns directory) s
  exact ⟨found, (directory.source.follows_tryResolve name).ends (h.after_source directory) hfound⟩

end LastingFiles

namespace CommandLine

namespace Command

/-- What a lookup of a name has found, for one who asked for a blob. -/
def demanded (name : Bytes) : Except ResolveError (Option Blob) → Except Failure Blob
  | .error failure => .error (.ofResolve failure)
  | .ok none => .error ⟨s!"no resource named {Quoted.literal (Utf8.chars name)}", []⟩
  | .ok (some blob) => .ok blob

theorem exists_demanded_error (name : Bytes) {found : Except ResolveError (Option Blob)}
    (h : ∀ blob, found ≠ .ok (some blob)) : ∃ failure, demanded name found = .error failure := by
  rcases found with failure | _ | blob
  · exact ⟨_, rfl⟩
  · exact ⟨_, rfl⟩
  · exact absurd rfl (h blob)

/-- The line that tells the size of a blob. -/
def sizeLine (name : Bytes) (blob : Blob) : String :=
  s!"{Utf8.text name}: {Numeral.decimal blob.size} bytes\n"

/-- The bytes of the line begin with those of the name. -/
theorem ofText_sizeLine {name : Bytes} (hname : Utf8.isText name = true) (blob : Blob) :
    Utf8.ofText (sizeLine name blob) =
      name ++ Utf8.ofText s!": {Numeral.decimal blob.size} bytes\n" := by
  simp only [sizeLine, Utf8.ofText_append, toString, Utf8.ofText_text hname, List.append_assoc]

variable {root : Path} {name : Bytes} {s t : σ} {found : Except ResolveError (Option Blob)}

theorem ends_blobOfLocation
    (h : Ends ((Directory.mk root).source.tryResolve name) s found t) :
    Ends (blobOfLocation (.directory root) name) s (demanded name found) t := by
  refine ends_withSource root (h.bind ?_)
  rcases found with failure | _ | blob
  · exact Ends.pure _ t
  · exact Ends.pure _ t
  · exact Ends.pure _ t

/-- Without a blob nothing else is done. -/
theorem ends_resolve_of_error {failure : Failure} (out : Option Path)
    (h : Ends ((Directory.mk root).source.tryResolve name) s found t)
    (hfound : demanded name found = .error failure) :
    Ends (resolve name (.directory root) out).run s (.error failure) t := by
  have hblob := ends_blobOfLocation h
  rw [hfound] at hblob
  exact hblob.bind (Ends.pure _ t)

theorem ends_resolve_none {blob : Blob}
    (h : Ends ((Directory.mk root).source.tryResolve name) s (.ok (some blob)) t) :
    Ends (resolve name (.directory root) none).run s (.ok (sizeLine name blob)) t :=
  (ends_blobOfLocation h).bind (Ends.pure _ t)

/-- A blob is written when the lookup is over. -/
theorem ends_resolve_some {blob : Blob} {path : Path} {u : σ}
    (h : Ends ((Directory.mk root).source.tryResolve name) s (.ok (some blob)) t)
    (hwrite : Ends (MonadFiles.write path blob.bytes) t (.ok ()) u) :
    Ends (resolve name (.directory root) (some path)).run s (.ok "") u :=
  (ends_blobOfLocation h).bind (hwrite.bind (Ends.emit_bind _ (Ends.pure _ u)))

end Command

/-- However a name and a directory are given, the program acts if and only if a lookup of
the name in the directory finds a blob, on any files that last. It then exits with 0, and
either prints the name and the size of the blob and changes no file, or, if a file can be
written, prints nothing and makes that file hold the blob. Without a blob it exits with
1, prints nothing and changes no file. -/
theorem resolve_acts_on_blob {arguments : List Bytes} {name : Bytes} {root : Path}
    {out : Option Path} {logJson : Bool}
    (harguments : Invocation.ofArguments arguments =
      .ok (.perform (.resolve name (.directory root) out) logJson)) :
    LastingFiles FileTree ∧
    ∀ {σ : Type} [MonadFiles (Traced σ)], LastingFiles σ → ∀ s : σ,
      ∃ found, Ends ((Directory.mk root).source.tryResolve name) s found s ∧
        (∀ blob, found = .ok (some blob) →
          (out = none → ∃ exit, Ends (run arguments) s exit s ∧ exit.code = 0 ∧
            Utf8.ofText exit.stdout =
              name ++ Utf8.ofText s!": {Numeral.decimal blob.size} bytes\n") ∧
          ∀ path t, out = some path → Ends (MonadFiles.write path blob.bytes) s (.ok ()) t →
            ∃ exit, Ends (run arguments) s exit t ∧ exit.code = 0 ∧ exit.stdout = "" ∧
              Ends (MonadFiles.read path) t (.ok blob.bytes) t) ∧
        ((∀ blob, found ≠ .ok (some blob)) →
          ∃ exit, Ends (run arguments) s exit s ∧ exit.code = 1 ∧ exit.stdout = "") := by
  refine ⟨FileTree.lastingFiles, fun {σ} _ hlasting s => ?_⟩
  have hname : Utf8.isText name = true := isText_of_ofArguments harguments
  obtain ⟨found, hfound⟩ := hlasting.exists_ends_tryResolve ⟨root⟩ name s
  rw [run, harguments]
  refine ⟨found, hfound, ?_, ?_⟩
  · rintro blob rfl
    refine ⟨?_, ?_⟩
    · rintro rfl
      have hends := Command.ends_perform logJson (Command.ends_resolve_none hfound)
      exact ⟨_, hends, rfl, Command.ofText_sizeLine hname blob⟩
    · rintro path t rfl hwrite
      have hends := Command.ends_perform logJson (Command.ends_resolve_some hfound hwrite)
      exact ⟨_, hends, rfl, rfl, hlasting.read_write hwrite⟩
  · intro hnone
    obtain ⟨failure, hfailure⟩ := Command.exists_demanded_error name hnone
    have hends := Command.ends_perform logJson
      (Command.ends_resolve_of_error out hfound hfailure)
    exact ⟨_, hends, Exit.ofResult_error failure⟩

/-- A directory with a table of one name, which looks like an option, and the resource
that the name stands for. -/
def optionLike : FileTree :=
  ((FileTree.empty.put (.child .here [0x64]) .directory).put
    (.child (.child .here [0x64]) (Directory.fileName .table))
      (.file (Table.encode ⟨[⟨[0x2D, 0x70], 200⟩]⟩))).put
    (.child (.child .here [0x64]) (Directory.fileName ⟨200⟩)) (.file [7, 8])

/-- The blob is written over the table, which is longer. -/
theorem resolve_acts_on_blob_table :
    Invocation.ofArguments (resolveArguments [0x2D, 0x70] ⟨[0x64]⟩
        (some ((Directory.mk ⟨[0x64]⟩).pathOf .table))) =
      .ok (.perform (.resolve [0x2D, 0x70] (.directory ⟨[0x64]⟩)
        (some ((Directory.mk ⟨[0x64]⟩).pathOf .table))) false) ∧
    ∃ exit tree,
      Ends (run (resolveArguments [0x2D, 0x70] ⟨[0x64]⟩
        (some ((Directory.mk ⟨[0x64]⟩).pathOf .table)))) optionLike exit tree ∧
      exit.code = 0 ∧ exit.stdout = "" ∧
      Ends (MonadFiles.read ((Directory.mk ⟨[0x64]⟩).pathOf .table)) tree (.ok [7, 8]) tree := by
  have harguments : Invocation.ofArguments (resolveArguments [0x2D, 0x70] ⟨[0x64]⟩
      (some ((Directory.mk ⟨[0x64]⟩).pathOf .table))) =
    .ok (.perform (.resolve [0x2D, 0x70] (.directory ⟨[0x64]⟩)
      (some ((Directory.mk ⟨[0x64]⟩).pathOf .table))) false) :=
    ofArguments_resolveArguments (by decide +kernel) (by decide)
      (by rintro _ ⟨rfl⟩; exact Path.join_bytes_ne_nil _ (Directory.fileName_isFileName _).ne_nil)
  obtain ⟨hlasting, hacts⟩ := resolve_acts_on_blob harguments
  obtain ⟨found, hfound, hblob, -⟩ := hacts hlasting optionLike
  have hresult : (((Directory.mk ⟨[0x64]⟩).source.tryResolve [0x2D, 0x70] :
      Traced FileTree _).run optionLike).result = .ok (.ok (some ⟨[7, 8]⟩)) := by
    decide +kernel
  have hwrite : Ends (MonadFiles.write ((Directory.mk ⟨[0x64]⟩).pathOf .table) [7, 8])
      optionLike (.ok ()) ((MonadFiles.write ((Directory.mk ⟨[0x64]⟩).pathOf .table) [7, 8] :
        Traced FileTree _).run optionLike).state :=
    ⟨by decide +kernel, rfl⟩
  have heq : found = .ok (some ⟨[7, 8]⟩) := Except.ok.inj (hfound.1.symm.trans hresult)
  obtain ⟨exit, hends, hcode, hstdout, hread⟩ := (hblob ⟨[7, 8]⟩ heq).2 _ _ rfl hwrite
  exact ⟨harguments, exit, _, hends, hcode, hstdout, hread⟩

end CommandLine

end NamedBlobs
