import RepoDocs.Analysis.Fetch
import RepoDocs.Config
import RepoDocs.Outline.SourceKind
import RepoDocs.Tree.MainFiles
import RepoDocs.Tree.Order

/-! The run of an analysis: what the source tells about a repository goes on record, the main files
are fetched and outlined, and a report on their quality is written and kept.  The job passes a
checkpoint after each part.  A run that fails marks its job and its repository as failed. -/

namespace RepoDocs.Analysis

/-- What a run that succeeds has found out. -/
structure Outcome where
  repository : Repository
  mainFiles : List String
  outlines : List FileOutline
  quality : QualityReport
  qualityDocumentationId : String

/-- Carry out an operation of the store, whose failure is one of the analysis. -/
def onRecord (c : StoreCall) : Attempt AnalysisError Effects c.Reply := do
  match ← stored c with
  | .ok a => return a
  | .error e => throw (.store e)

/-- The job with an id. -/
def loadJob (id : String) : Attempt AnalysisError Effects Job := do
  match ← onRecord (.getJob id) with
  | some j => return j
  | none => throw (.jobNotFound id)

/-- The repository with an id. -/
def loadRepository (id : String) : Attempt AnalysisError Effects Repository := do
  match ← onRecord (.getRepository id) with
  | some r => return r
  | none => throw (.repositoryNotFound id)

/-- Move a job to a checkpoint. -/
def advance (jobId : String) (c : Checkpoint) : Attempt AnalysisError Effects Job := do
  let job ← loadJob jobId
  match job.planCheckpoint c with
  | .ok update => onRecord (.updateJob jobId update)
  | .error r => throw (.refused r)

/-- What the source tells about a repository. -/
def fetchMetadata (config : AnalysisConfig) (url : String) :
    Attempt AnalysisError Effects RepositoryMetadata := do
  let late := SourceError.timeout "fetching repository metadata"
  match ← called (.metadata url) config.deadline? (.error late) with
  | .ok m => return m
  | .error e => throw (.source .fetchStructure e)

/-- The report on the quality of some files. -/
def reportQuality (config : AnalysisConfig) (files : List SourceFile) :
    Attempt AnalysisError Effects QualityReport := do
  let late : SynthesisError := ⟨"analyze code quality", "timed out"⟩
  match ← called (.quality files) config.deadline? (.error late) with
  | .ok report => return report
  | .error e => throw (.synthesis .qualityScan e)

/-- What is put on record about a repository when its metadata are known. -/
def describe (m : RepositoryMetadata) : RepositoryUpdate :=
  { name? := some m.name, owner? := some m.owner, description? := m.description?
    language? := m.language?, files? := some (FileNode.sortForest m.files) }

/-- The outline of a fetched file. -/
def outlineOf (f : SourceFile) : FileOutline := outline f.name f.content

/-- Take a job through all parts of its analysis. -/
def execute (config : AnalysisConfig) (jobId : String) (repository : Repository) :
    Attempt AnalysisError Effects Outcome := do
  let _ ← advance jobId .started
  let _ ← onRecord (.updateRepository repository.id (.ofStatus .analyzing))
  let metadata ← fetchMetadata config repository.url
  let repository ← onRecord (.updateRepository repository.id (describe metadata))
  let mainFiles := FileNode.mainFiles config.maxMainFiles repository.files
  let _ ← advance jobId .fileListReady
  let files ← fetchMany repository.url config.deadline? (mainFiles.take config.analysisFiles)
  let outlines := files.map outlineOf
  let _ ← advance jobId .contentsFetched
  let quality ← reportQuality config files
  let _ ← advance jobId .qualityScanned
  let documentation ← onRecord <| .createDocumentation
    { repositoryId := repository.id, kind := .quality, content := quality.toJson.pretty
      metadata := quality.toJson.sorted }
  let repository ← onRecord (.updateRepository repository.id (.ofStatus .completed))
  let _ ← advance jobId .completed
  return { repository, mainFiles, outlines, quality, qualityDocumentationId := documentation.id }

/-- Mark a job and its repository as failed.  Where that fails too, nothing is done about it. -/
def fail (jobId repositoryId : String) (cause : AnalysisError) : Program Effects Unit := do
  match ← (loadJob jobId).run with
  | .error _ => return
  | .ok job =>
    match job.planFailure cause.message with
    | .error _ => return
    | .ok update =>
      let _ ← stored (.updateJob jobId update)
      let _ ← stored (.updateRepository repositoryId (.ofStatus .failed))

/-- Run the analysis of a job. -/
def run (config : AnalysisConfig) (jobId : String) : Attempt AnalysisError Effects Outcome := do
  let job ← loadJob jobId
  let repository ← loadRepository job.repositoryId
  try execute config jobId repository
  catch cause =>
    fail jobId repository.id cause
    throw cause

/-- Run the analysis of a job in the background, where nobody looks at how it ended. -/
def background (config : AnalysisConfig) (jobId : String) : Program Effects Unit := do
  let _ ← (run config jobId).run

end RepoDocs.Analysis
