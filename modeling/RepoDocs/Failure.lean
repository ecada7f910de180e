import RepoDocs.Job.Checkpoint

/-! What can go wrong: with a file, with the source of a repository, with the writer of documentation,
with the store, in an analysis, and when documentation is asked for. -/

namespace RepoDocs

/-- Why a file cannot be read or written. -/
inductive Files.Fault where
  | missing
  | directory
  | notDirectory
  /-- The content is no text. -/
  | undecodable
  /-- Any other reason, in words. -/
  | other (reason : String)
  deriving DecidableEq, Repr

def Files.Fault.message : Fault → String
  | missing => "No such file or directory (os error 2)"
  | directory => "Is a directory (os error 21)"
  | notDirectory => "Not a directory (os error 20)"
  | undecodable => "stream did not contain valid UTF-8"
  | other reason => reason

/-- A failure of the source of a repository. -/
inductive SourceError where
  | invalidUrl (message : String)
  | notFound (message : String)
  | accessDenied (message : String)
  | rateLimited (message : String)
  /-- What took too long. -/
  | timeout (activity : String)
  | other (message : String)
  deriving DecidableEq, Repr

def SourceError.message : SourceError → String
  | invalidUrl m | notFound m | accessDenied m | rateLimited m | other m => m
  | timeout activity => s!"Timed out while {activity}"

/-- A failure to have something written. -/
structure SynthesisError where
  operation : String
  reason : String
  deriving DecidableEq, Repr

def SynthesisError.message (e : SynthesisError) : String :=
  s!"Failed to {e.operation}: {e.reason}"

/-- A failure of the store. -/
structure StoreError where
  reason : String
  deriving DecidableEq, Repr

def StoreError.message (e : StoreError) : String := s!"store error: {e.reason}"

def Refusal.message : Refusal → String
  | illegal before after => s!"Illegal job transition from {before.name} to {after.name}"
  | backwards current requested =>
    s!"Job progress cannot move from {current} back to {requested}"

/-- The part of an analysis in which it failed. -/
inductive Stage where
  | fetchStructure
  | qualityScan
  | finalize
  deriving DecidableEq, Repr

def Stage.label : Stage → String
  | fetchStructure => "Fetching file structure"
  | qualityScan => "Running quality analysis"
  | finalize => "Finalizing analysis"

/-- A failure of an analysis. -/
inductive AnalysisError where
  | invalidInput (message : String)
  | repositoryNotFound (id : String)
  | jobNotFound (id : String)
  | refused (refusal : Refusal)
  | source (stage : Stage) (error : SourceError)
  | synthesis (stage : Stage) (error : SynthesisError)
  | store (error : StoreError)
  deriving DecidableEq, Repr

namespace AnalysisError

def message : AnalysisError → String
  | invalidInput m => m
  | repositoryNotFound id => s!"Repository not found: {id}"
  | jobNotFound id => s!"Analysis job not found: {id}"
  | refused r => r.message
  | source stage e => s!"{stage.label}: {e.message}"
  | synthesis stage e => s!"{stage.label}: {e.message}"
  | store e => e.message

/-- The message of the failure behind this one. -/
def cause? : AnalysisError → Option String
  | source _ e => some e.message
  | synthesis _ e => some e.message
  | store e => some e.message
  | _ => none

end AnalysisError

/-- A failure to make documentation that was asked for. -/
inductive GenerateError where
  | repositoryNotFound (id : String)
  | unsupportedKind (kind : String)
  | source (error : SourceError)
  | synthesis (error : SynthesisError)
  | store (error : StoreError)
  | encode (message : String)
  deriving DecidableEq, Repr

namespace GenerateError

def message : GenerateError → String
  | repositoryNotFound id => s!"Repository not found: {id}"
  | unsupportedKind kind => s!"Documentation type '{kind}' cannot be generated on demand"
  | source e => e.message
  | synthesis e => e.message
  | store e => e.message
  | encode m => s!"failed to encode documentation: {m}"

/-- The message of the failure behind this one. -/
def cause? : GenerateError → Option String
  | source e => some e.message
  | synthesis e => some e.message
  | store e => some e.message
  | _ => none

end GenerateError

end RepoDocs
