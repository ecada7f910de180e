import RepoDocs.Time.Instant

/-! Analysis jobs as they are on record. -/

namespace RepoDocs

open Json

inductive JobStatus where
  | queued
  | processing
  | completed
  | failed
  deriving DecidableEq, Repr

namespace JobStatus

/-- Whether nothing comes after the status. -/
def isTerminal : JobStatus → Bool
  | completed | failed => true
  | queued | processing => false

/-- Whether a job may go from one status to another.  Jobs move forward only, and may fail at any
time before they end. -/
def mayBecome : JobStatus → JobStatus → Bool
  | queued, processing | queued, failed => true
  | processing, processing | processing, completed | processing, failed => true
  | _, _ => false

def name : JobStatus → String
  | queued => "queued"
  | processing => "processing"
  | completed => "completed"
  | failed => "failed"

end JobStatus

/-- The analysis of a repository: how far it has come, in percent, and what it is at. -/
structure Job where
  id : String
  repositoryId : String
  status : JobStatus := .queued
  progress : String := "0"
  currentFile? : Option String := none
  error? : Option String := none
  createdAt : Instant
  updatedAt : Instant
  deriving DecidableEq, Repr

/-- The percentage that a text gives: digits behind an optional plus sign, up to 255.  Any other text
counts as 0. -/
def percentOf (progress : String) : Nat :=
  let digits :=
    match progress.toList with
    | '+' :: rest => rest
    | cs => cs
  if digits.isEmpty || !digits.all Char.isDigit then 0
  else
    let n := digits.foldl (fun n c => n * 10 + (c.toNat - 48)) 0
    if n ≤ 255 then n else 0

def Job.percent (j : Job) : Nat := percentOf j.progress

def Job.isTerminal (j : Job) : Bool := j.status.isTerminal

/-! ### JSON -/

def JobStatus.decoder : Decoder JobStatus :=
  .oneOf ([.queued, .processing, .completed, .failed].map fun s : JobStatus => (s.name, s))

namespace Job

def toJson (j : Job) : Value :=
  .object [("id", .string j.id), ("repositoryId", .string j.repositoryId),
    ("status", .string j.status.name), ("progress", .string j.progress),
    ("currentFile", .ofOption .string j.currentFile?), ("error", .ofOption .string j.error?),
    ("createdAt", j.createdAt.toJson), ("updatedAt", j.updatedAt.toJson)]

def decoder : Decoder Job :=
  Fields.record "AnalysisJob" 8 <|
    .map (fun (id, repositoryId, status, progress, currentFile?, error?, createdAt, updatedAt) =>
      { id, repositoryId, status, progress, currentFile?, error?, createdAt, updatedAt }) <|
    (Fields.field "id" .string).both <| (Fields.field "repositoryId" .string).both <|
    (Fields.field "status" JobStatus.decoder).both <| (Fields.field "progress" .string).both <|
    (Fields.field "currentFile" (.option .string) (.optional none)).both <|
    (Fields.field "error" (.option .string) (.optional none)).both <|
    (Fields.field "createdAt" Instant.decoder).both (Fields.field "updatedAt" Instant.decoder)

end Job

end RepoDocs
