import RepoDocs.Job.Basic

/-! The points that an analysis passes, and the changes of a job that are allowed there: a job only
moves forward, in its status and in its percentage. -/

namespace RepoDocs

/-- The points that an analysis passes, in their order. -/
inductive Checkpoint where
  | started
  | fileListReady
  | contentsFetched
  | qualityScanned
  | completed
  deriving DecidableEq, Repr

namespace Checkpoint

/-- The percentage of a job that is here. -/
def percent : Checkpoint → Nat
  | started => 10
  | fileListReady => 30
  | contentsFetched => 60
  | qualityScanned => 90
  | completed => 100

/-- What a job that is here is about to do. -/
def label : Checkpoint → String
  | started => "Fetching file structure..."
  | fileListReady => "Analyzing code structure..."
  | contentsFetched => "Running quality analysis..."
  | qualityScanned => "Finalizing analysis..."
  | completed => "Analysis complete"

/-- The status of a job that is here. -/
def status : Checkpoint → JobStatus
  | completed => .completed
  | _ => .processing

end Checkpoint

/-- New values for some fields of a job. -/
structure JobUpdate where
  status? : Option JobStatus := none
  percent? : Option Nat := none
  currentFile? : Option String := none
  error? : Option String := none
  deriving DecidableEq, Repr

/-- The job with the fields that the update has a value for replaced, as of a time. -/
def JobUpdate.apply (u : JobUpdate) (now : Instant) (j : Job) : Job :=
  { j with
    status := u.status?.getD j.status
    progress := (u.percent?.map toString).getD j.progress
    currentFile? := u.currentFile? <|> j.currentFile?
    error? := u.error? <|> j.error?
    updatedAt := now }

/-- Why a change of a job is refused. -/
inductive Refusal where
  | illegal (before after : JobStatus)
  | backwards (current requested : Nat)
  deriving DecidableEq, Repr

namespace Job

/-- The change that moves a job to a checkpoint. -/
def planCheckpoint (j : Job) (c : Checkpoint) : Except Refusal JobUpdate :=
  if !j.status.mayBecome c.status then .error (.illegal j.status c.status)
  else if c.percent < j.percent then .error (.backwards j.percent c.percent)
  else .ok { status? := some c.status, percent? := some c.percent, currentFile? := some c.label }

/-- The change that makes a job fail.  It keeps its percentage. -/
def planFailure (j : Job) (message : String) : Except Refusal JobUpdate :=
  if !j.status.mayBecome .failed then .error (.illegal j.status .failed)
  else .ok { status? := some .failed, error? := some message }

end Job

end RepoDocs
