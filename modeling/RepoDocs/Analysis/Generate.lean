import RepoDocs.Analysis.Fetch
import RepoDocs.Config
import RepoDocs.Documentation.Api
import RepoDocs.Outline.SourceKind
import RepoDocs.Tree.MainFiles

/-! Documentation on demand for a repository on record.  It has nothing to do with the jobs of the
repository, and is put on record only when all of it was written. -/

namespace RepoDocs.Analysis

open Json

/-- Carry out an operation of the store, whose failure is one of the request. -/
def kept (c : StoreCall) : Attempt GenerateError Effects c.Reply := do
  match ← stored c with
  | .ok a => return a
  | .error e => throw (.store e)

/-- The repository that documentation is asked for. -/
def repositoryFor (id : String) : Attempt GenerateError Effects Repository := do
  match ← kept (.getRepository id) with
  | some r => return r
  | none => throw (.repositoryNotFound id)

/-- What came of a call that the deadline cut short. -/
def timedOut (operation : String) : Except SynthesisError α := .error ⟨operation, "timed out"⟩

/-- What was written, unless that failed. -/
def written : Except SynthesisError α → Attempt GenerateError Effects α
  | .ok a => return a
  | .error e => throw (.synthesis e)

/-- The text of a document and what is known about it. -/
structure Draft where
  content : String
  metadata : Value

/-- A readme from the main files and the file tree. -/
def draftReadme (config : AnalysisConfig) (r : Repository) (mainFiles : List String) :
    Attempt GenerateError Effects Draft := do
  let request : ReadmeRequest :=
    { name := r.name, description? := r.description?, files := mainFiles, tree := r.files }
  let artifact ← written
    (← called (.readme request) config.deadline? (timedOut "generate README"))
  return ⟨artifact.content,
    .object (Value.optionalField "bannerAssetPath" .string artifact.bannerAssetPath?)⟩

/-- An API reference of the functions in the first main files that can be fetched. -/
def draftApi (config : AnalysisConfig) (r : Repository) (mainFiles : List String) :
    Attempt GenerateError Effects Draft := do
  let files ← fetchMany r.url config.deadline? (mainFiles.take config.apiDocFiles)
  let functions := ApiFunction.ofFiles (files.map fun f => outline f.name f.content)
  let markdown ← written
    (← called (.apiDocs functions) config.deadline? (timedOut "generate API documentation"))
  return ⟨markdown, .object [("files", .ofStrings (files.map (·.name))),
    ("functionCount", .ofNat functions.length)]⟩

/-- The suggestions for each of some files, with the name of the file on each. -/
def suggestAll (config : AnalysisConfig) :
    List SourceFile → Attempt GenerateError Effects (List CommentSuggestion)
  | [] => return []
  | f :: rest => do
    let suggestions ← written
      (← called (.comments f.content f.name) config.deadline? (timedOut "generate comments"))
    let later ← suggestAll config rest
    return suggestions.map (fun s => { s with file? := some f.name }) ++ later

/-- Comment suggestions for the first main files that can be fetched. -/
def draftComments (config : AnalysisConfig) (r : Repository) (mainFiles : List String) :
    Attempt GenerateError Effects Draft := do
  let files ← fetchMany r.url config.deadline? (mainFiles.take config.commentFiles)
  let suggestions := Value.array ((← suggestAll config files).map CommentSuggestion.toJson)
  return ⟨suggestions.pretty, .object [("suggestions", suggestions.sorted)]⟩

/-- Have documentation of a kind written for a repository and put it on record. -/
def generate (config : AnalysisConfig) (repositoryId : String) (kind : DocumentationKind) :
    Attempt GenerateError Effects Documentation := do
  let r ← repositoryFor repositoryId
  let mainFiles := FileNode.mainFiles config.maxMainFiles r.files
  let draft ←
    match kind with
    | .readme => draftReadme config r mainFiles
    | .api => draftApi config r mainFiles
    | .comments => draftComments config r mainFiles
    | .quality => throw (.unsupportedKind kind.name)
  kept (.createDocumentation
    { repositoryId := r.id, kind, content := draft.content, metadata := draft.metadata })

/-- The content of a file of a repository on record. -/
def fileContent (config : AnalysisConfig) (repositoryId path : String) :
    Attempt GenerateError Effects String := do
  let r ← repositoryFor repositoryId
  match ← fetchFile r.url path config.deadline? with
  | .ok content => return content
  | .error e => throw (.source e)

end RepoDocs.Analysis
