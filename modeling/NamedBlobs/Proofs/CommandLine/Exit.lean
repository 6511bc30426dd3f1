import NamedBlobs.CommandLine.Run
import NamedBlobs.Proofs.Traced

/-!
# How the program exits

What a command came to decides how the program exits (`Exit.ofResult`): with the code 0
and its text, or with the code 1 and nothing on the standard output. Nothing is done to
any file besides what the command did (`Command.ends_perform`), and opening a directory
does nothing at all (`Command.ends_withSource`).
-/

namespace NamedBlobs

open Traced (Ends)

namespace CommandLine

/-- How the program exits after a command. -/
def Exit.ofResult : Except Failure String → Exit
  | .error failure => .failure failure
  | .ok stdout => .success stdout

theorem Exit.ofResult_error (failure : Failure) :
    (ofResult (.error failure)).code = 1 ∧ (ofResult (.error failure)).stdout = "" := ⟨rfl, rfl⟩

namespace Command

variable {σ : Type} [MonadFiles (Traced σ)]

/-- What is done with the resources in a directory is done at once. -/
theorem ends_withSource {α : Type} (root : Path)
    {use : Source (Traced σ) → Traced σ (Except Failure α)} {s t : σ}
    {result : Except Failure α} (h : Ends (use (Directory.mk root).source) s result t) :
    Ends (withSource (.directory root) use) s result t := by
  have hopen : Ends (openLocation (.directory root)) s (.ok ⟨root⟩) s :=
    Ends.emit_bind _ (Ends.pure _ s)
  exact hopen.bind h

/-- A command that came to `result` makes the program exit by it. -/
theorem ends_perform {command : Command} {s t : σ} {result : Except Failure String}
    (logJson : Bool) (h : Ends command.run s result t) :
    Ends (Invocation.perform command logJson).run s (Exit.ofResult result) t := by
  refine h.bind ?_
  cases result with
  | error failure => exact Ends.pure _ t
  | ok stdout => exact Ends.pure _ t

end Command

end CommandLine

end NamedBlobs
