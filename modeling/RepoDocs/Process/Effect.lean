import RepoDocs.Documentation.Artifact
import RepoDocs.Process.Program
import RepoDocs.Store.Call

/-! What the programs of an analysis ask for: operations of the store, which reply at once, and calls
of the source of a repository and of the writer of documentation, which take their time.  The program
that starts analyses may also pause, start runs in the background and wait for their ends. -/

namespace RepoDocs

/-- A call of the source of a repository or of the writer of documentation. -/
inductive Call where
  | metadata (url : String)
  | file (url path : String)
  | readme (request : ReadmeRequest)
  | apiDocs (functions : List ApiFunction)
  | comments (source file : String)
  | quality (files : List SourceFile)

/-- How a call ends. -/
@[reducible] def Call.Reply : Call → Type
  | metadata _ => Except SourceError RepositoryMetadata
  | file _ _ => Except SourceError String
  | readme _ => Except SynthesisError ReadmeArtifact
  | apiDocs _ => Except SynthesisError String
  | comments _ _ => Except SynthesisError (List CommentSuggestion)
  | quality _ => Except SynthesisError QualityReport

/-- What a single run asks for.  A call may come with a deadline in milliseconds. -/
inductive Effect where
  | store (c : StoreCall)
  | call (c : Call) (deadline? : Option Nat)

/-- The reply to a call is missing when the deadline came first. -/
@[reducible] def Effect.Reply : Effect → Type
  | store c => Except StoreError c.Reply
  | call c _ => Option c.Reply

abbrev Effects : Signature := ⟨Effect, Effect.Reply⟩

/-- What the program that starts analyses asks for. -/
inductive Control where
  | effect (e : Effect)
  | pause (ms : Nat)
  /-- Start the run of a job in the background. -/
  | start (job : String)
  /-- How many background runs are registered. -/
  | running
  /-- Take the run of a job off the register and wait for its end. -/
  | join (job : String)

/-- The reply to a join says whether the run was registered. -/
@[reducible] def Control.Reply : Control → Type
  | effect e => e.Reply
  | pause _ | start _ => Unit
  | running => Nat
  | join _ => Bool

abbrev Controls : Signature := ⟨Control, Control.Reply⟩

/-- A run as part of the program that starts analyses. -/
def Program.lift (p : Program Effects α) : Program Controls α :=
  p.rename Control.effect fun _ x => x

instance : MonadLift (Program Effects) (Program Controls) := ⟨Program.lift⟩

/-- Carry out an operation of the store. -/
def stored (c : StoreCall) : Program Effects (Except StoreError c.Reply) :=
  Program.request (S := Effects) (.store c)

/-- Make a call, and fail with `late` when the deadline comes first. -/
def called (c : Call) (deadline? : Option Nat) (late : c.Reply) : Program Effects c.Reply := do
  let reply ← Program.request (S := Effects) (.call c deadline?)
  return reply.getD late

end RepoDocs
