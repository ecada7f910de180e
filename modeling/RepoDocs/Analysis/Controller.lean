import RepoDocs.Analysis.Run
import RepoDocs.Repository.Coordinates

/-! Analyses as they are asked for from outside: submitted by the address of a repository, waited for,
watched and looked up.  A repository has at most one live job, which later submissions share. -/

namespace RepoDocs.Analysis

open Json

/-- What a submission led to: a job, which was started unless it was live already. -/
structure Submission where
  repository : Repository
  job : Job
  started : Bool

/-- All that is on record about a repository. -/
structure Detail where
  repository : Repository
  job? : Option Job
  documentation : List Documentation

/-- Carry out an operation of the store. -/
def recorded (c : StoreCall) : Attempt AnalysisError Controls c.Reply :=
  ExceptT.mk (onRecord c).run

/-- The repository with an address, which is put on record if it was not. -/
def ensureRepository (url : String) (c : Coordinates) :
    Attempt AnalysisError Controls Repository := do
  match ← recorded (.getRepositoryByUrl url) with
  | some r => return r
  | none => recorded (.createRepository { url, name := c.name, owner := c.owner })

/-- Start a new job of a repository. -/
def startJob (r : Repository) : Attempt AnalysisError Controls Submission := do
  let job ← recorded (.createJob r.id)
  Program.request (S := Controls) (.start job.id)
  return ⟨r, job, true⟩

/-- Submit the repository at an address for analysis, without waiting for it. -/
def submit (address : String) : Attempt AnalysisError Controls Submission := do
  match Coordinates.parse address with
  | .error f => throw (.invalidInput f.message)
  | .ok c =>
    let r ← ensureRepository (Text.trimmed address) c
    match ← recorded (.currentJob r.id) with
    | some job => if job.isTerminal then startJob r else return ⟨r, job, false⟩
    | none => startJob r

/-- The number of background runs that have not ended. -/
def activeRuns : Program Controls Nat := Program.request (S := Controls) .running

/-- Wait for the background run of a job.  Where there is none, the job must have ended. -/
def join (jobId : String) : Attempt AnalysisError Controls Unit := do
  if ← Program.request (S := Controls) (.join jobId) then return
  else
    match ← recorded (.getJob jobId) with
    | none => throw (.jobNotFound jobId)
    | some job => if job.isTerminal then return else throw (.jobNotFound jobId)

/-- The current job of a repository. -/
def jobStatus (repositoryId : String) : Attempt AnalysisError Controls Job := do
  match ← recorded (.currentJob repositoryId) with
  | some job => return job
  | none => throw (.jobNotFound repositoryId)

def detail (repositoryId : String) : Attempt AnalysisError Controls Detail := do
  match ← recorded (.getRepository repositoryId) with
  | none => throw (.repositoryNotFound repositoryId)
  | some repository =>
    let job? ← recorded (.currentJob repositoryId)
    let documentation ← recorded (.documentationOf repositoryId none)
    return { repository, job?, documentation }

/-! ### Watching a job -/

/-- How the watch on a job ended: with the job at its end, with a failure to read it, or with a job
that was still live when the reads were used up. -/
inductive Sighting where
  | ended (job : Job)
  | lost (error : AnalysisError)
  | live

/-- Whether two reads of a job show the same status and progress. -/
def sameProgress (a b : Job) : Bool := a.status = b.status && a.progress = b.progress

/-- Read the current job of a repository at intervals until it has ended, up to a number of reads.
The jobs that are reported are those that show another status or progress than the read before. -/
def watch (repositoryId : String) (interval : Nat) :
    (reads : Nat) → (last? : Option Job) → Program Controls (List Job × Sighting)
  | 0, _ => return ([], .live)
  | reads + 1, last? => do
    match ← (jobStatus repositoryId).run with
    | .error e => return ([], .lost e)
    | .ok job =>
      let news := if last?.any (sameProgress job) then [] else [job]
      if job.isTerminal then return (news, .ended job)
      else
        Program.request (S := Controls) (.pause interval)
        let (later, sighting) ← watch repositoryId interval reads (some job)
        return (news ++ later, sighting)

/-! ### JSON -/

def Submission.toJson (s : Submission) : Value :=
  .object [("repository", s.repository.toJson), ("job", s.job.toJson), ("started", .bool s.started)]

def Detail.toJson (d : Detail) : Value :=
  .object [("repository", d.repository.toJson), ("job", .ofOption Job.toJson d.job?),
    ("documentation", .array (d.documentation.map Documentation.toJson))]

end RepoDocs.Analysis
