import RepoDocs.Analysis.Controller
import RepoDocs.Analysis.Generate
import RepoDocs.CommandLine.Arguments
import RepoDocs.CommandLine.Configuration
import RepoDocs.Process.Engine

/-! What becomes of a command: the text for standard output, a file to write and the errors.  An
analysis runs in the background while its job is watched; its detail is printed however it ended, and
documentation is only generated once it has completed. -/

namespace RepoDocs.CommandLine

/-- What a command has to do with: files, the environment, the names of new records, the calendar and
the servers, whose behaviour may depend on a state. -/
structure Surroundings (σ : Type) where
  readText : String → Except Files.Fault String
  env? : String → Option String
  names : Naming
  now : σ → Instant
  exchange : Http.Request → σ → Conduct (Option Http.Response) × σ

/-- The end of a command: what is printed, the path and content of a file that is still to be written,
and the errors, the outermost first, of which there are none when the command succeeds. -/
structure Outcome where
  stdout : String := ""
  write? : Option (String × String) := none
  errors : List String := []

/-- A command that fails without having printed anything. -/
def Outcome.failed (message : String) (cause? : Option String := none) : Outcome :=
  { errors := message :: cause?.toList }

/-- A failure that may have another one behind it. -/
structure Trouble where
  message : String
  cause? : Option String := none

def Outcome.ofTrouble : Except Trouble Outcome → Outcome
  | .ok o => o
  | .error t => .failed t.message t.cause?

/-! ### Clients -/

/-- The clients of the two servers. -/
structure Clients where
  github : GitHub.Client
  model : LanguageModel.Client

/-- The requests that make up a call. -/
def Clients.program (c : Clients) : (call : Call) → Program Http.Exchange call.Reply
  | .metadata url => (GitHub.fetchMetadata c.github url).run
  | .file url path => (GitHub.fetchContent c.github url path).run
  | .readme r => (LanguageModel.readme c.model r).run
  | .apiDocs functions => (LanguageModel.apiDocs c.model functions).run
  | .comments source file => (LanguageModel.comments c.model source file).run
  | .quality files => (LanguageModel.quality c.model files).run

/-- The world of an analysis that calls the servers. -/
def Clients.world (c : Clients) (s : Surroundings σ) : World σ where
  names := s.names
  now := s.now
  begin call st := (c.program call).conduct s.exchange st
  storeFailure? _ st := (none, st)

/-- The clients that the environment admits. -/
def Clients.ofEnvironment (config : Configuration) (env? : String → Option String) :
    Except Trouble Clients :=
  match LanguageModel.Client.ofEnvironment? config.model env? with
  | some model => .ok { github := .ofEnvironment config.github env?, model }
  | none => .error { message := LanguageModel.missingKey }

/-! ### Analyses -/

/-- Analyze the repository at an address and wait for the end, with at most `reads` reads of the
job. -/
def analysis (pause reads : Nat) (url : String) :
    Attempt AnalysisError Controls Analysis.Detail := do
  let submission ← Analysis.submit url
  let repositoryId := submission.repository.id
  let (_, sighting) ← Analysis.watch repositoryId pause reads none
  match sighting with
  | .lost e => throw e
  | .ended _ | .live =>
    if submission.started then Analysis.join submission.job.id
    Analysis.detail repositoryId

/-- What is wrong with an analysis that has not completed. -/
def shortfall? (d : Analysis.Detail) : Option Trouble :=
  match d.job? with
  | some job =>
    if job.status = .completed then none
    else
      let reason := job.error?.getD "unknown error"
      some { message := s!"Analysis failed: {reason}" }
  | none => some { message := s!"No analysis job recorded for {d.repository.url}" }

def Trouble.ofAnalysis (e : AnalysisError) : Trouble := ⟨e.message, e.cause?⟩

def Trouble.ofGeneration (e : GenerateError) : Trouble := ⟨e.message, e.cause?⟩

/-- Print the detail of a repository once its analysis is over. -/
def analyzeProgram (config : Configuration) (reads : Nat) (url : String) :
    Program Controls Outcome := do
  match ← (analysis config.pause reads url).run with
  | .error e => return .ofTrouble (.error (.ofAnalysis e))
  | .ok detail =>
    return { stdout := detail.toJson.pretty ++ "\n"
             errors := (shortfall? detail).toList.map (·.message) }

/-- Print documentation, or leave it to be written to a file. -/
def deliver (output? : Option String) (content : String) : Outcome :=
  match output? with
  | some path => { write? := some (path, content) }
  | none => { stdout := content ++ "\n" }

/-- Generate documentation once the analysis has completed. -/
def generateProgram (config : Configuration) (reads : Nat) (url : String)
    (kind : DocumentationKind) (output? : Option String) : Program Controls Outcome := do
  match ← (analysis config.pause reads url).run with
  | .error e => return .ofTrouble (.error (.ofAnalysis e))
  | .ok detail =>
    match shortfall? detail with
    | some t => return .ofTrouble (.error t)
    | none =>
      let generation := (Analysis.generate config.analysis detail.repository.id kind).run
      match ← (generation : Program Effects (Except GenerateError Documentation)) with
      | .error e => return .ofTrouble (.error (.ofGeneration e))
      | .ok documentation => return deliver output? documentation.content

/-! ### Commands -/

/-- The paths of the files that a command may read. -/
def Invocation.inputs (i : Invocation) : List String :=
  match i.command with
  | .extract path => [path]
  | _ => i.config?.toList

/-- The address of a repository is judged before anything else is looked at. -/
def checkAddress (url : String) : Except Trouble Unit :=
  match Coordinates.parse url with
  | .ok _ => .ok ()
  | .error f => .error { message := f.message }

/-- The configuration that a command runs under. -/
def configure (s : Surroundings σ) (config? : Option String) : Except Trouble Configuration :=
  (Configuration.load s.readText config?).mapError fun f => { message := f.message }

/-- Print what is in a source file. -/
def extract (s : Surroundings σ) (path : String) : Outcome :=
  match s.readText path with
  | .error fault => .failed s!"Failed to read source file {path}" (some fault.message)
  | .ok source => { stdout := (outline path source).toJson.pretty ++ "\n" }

/-- Print one file of a repository. -/
def printFile (s : Surroundings σ) (config? : Option String) (url path : String) (st : σ) :
    Option Outcome × σ :=
  match configure s config? with
  | .error t => (some (.ofTrouble (.error t)), st)
  | .ok config =>
    let client := GitHub.Client.ofEnvironment config.github s.env?
    match (GitHub.fetchContent client url path).run.conduct s.exchange st with
    | (.never, st) => (none, st)
    | (.after _ (.ok content), st) => (some { stdout := content }, st)
    | (.after _ (.error e), st) => (some (.failed e.message), st)

/-- Run a program that analyzes a repository, unless its address, the configuration or the environment
rules that out. -/
def withAnalysis (s : Surroundings σ) (limit : Nat) (config? : Option String) (url : String)
    (program : Configuration → Program Controls Outcome) (st : σ) : Option Outcome × σ :=
  let prepared : Except Trouble (Configuration × Clients) := do
    checkAddress url
    let config ← configure s config?
    return (config, ← Clients.ofEnvironment config s.env?)
  match prepared with
  | .error t => (some (.ofTrouble (.error t)), st)
  | .ok (config, clients) =>
    let background := Analysis.background config.analysis
    let (outcome?, engine) :=
      Engine.run (clients.world s) background limit (program config) { world := st }
    (outcome?, engine.world)

/-- Carry out a command.  There is no outcome of a command that still waits when `limit` milliseconds
are over. -/
def Invocation.run (s : Surroundings σ) (limit : Nat) (i : Invocation) (st : σ) :
    Option Outcome × σ :=
  match i.command with
  | .extract path => (some (extract s path), st)
  | .file url path => printFile s i.config? url path st
  | .analyze url =>
    withAnalysis s limit i.config? url (fun config => analyzeProgram config (limit + 1) url) st
  | .generate _ .quality _ =>
    let message := "Quality reports are produced by `analyze`; choose readme, api or comments"
    (some (.failed message), st)
  | .generate url kind output? =>
    withAnalysis s limit i.config? url
      (fun config => generateProgram config (limit + 1) url kind output?) st

/-- The outcome when the file cannot be written. -/
def Outcome.unwritten (o : Outcome) (path : String) (fault : Files.Fault) : Outcome :=
  { o with errors := [s!"Failed to write {path}", fault.message] }

/-- The errors as they are reported. -/
def Outcome.report (o : Outcome) : String :=
  match o.errors with
  | [] => ""
  | [message] => s!"Error: {message}\n"
  | message :: causes =>
    let lines := String.join (causes.map fun c => s!"    {c}\n")
    s!"Error: {message}\n\nCaused by:\n{lines}"

end RepoDocs.CommandLine
