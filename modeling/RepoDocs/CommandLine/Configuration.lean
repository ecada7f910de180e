import RepoDocs.Config
import RepoDocs.Failure
import RepoDocs.GitHub.Client
import RepoDocs.LanguageModel.Client
import RepoDocs.Text.Quoted
import RepoDocs.Yaml.Decode

/-! The configuration file: YAML in which every section and every field may be left out.  Secrets are
no part of it. -/

namespace RepoDocs.CommandLine

open Yaml

structure Configuration where
  github : GitHub.Settings := {}
  model : LanguageModel.Settings := {}
  analysis : AnalysisConfig := {}
  /-- The milliseconds between two reads of a job. -/
  pollInterval : Nat := 500
  deriving DecidableEq, Repr

namespace Configuration

/-- The milliseconds between two reads of a job, of which there is at least one. -/
def pause (c : Configuration) : Nat := max c.pollInterval 1

/-! ### Sections -/

/-- The largest numbers of 64 and of 32 bits. -/
def wordMax : Nat := Nat.pow 2 64 - 1

def halfWordMax : Nat := Nat.pow 2 32 - 1

def githubDecoder : Decoder GitHub.Settings :=
  let default : GitHub.Settings := {}
  .record ["api_base", "user_agent"] fun field => do
    return { apiBase := ← field _ "api_base" .string default.apiBase
             userAgent := ← field _ "user_agent" .string default.userAgent }

def modelDecoder : Decoder LanguageModel.Settings :=
  let default : LanguageModel.Settings := {}
  .record ["base_url", "model", "max_tokens"] fun field => do
    return { baseUrl := ← field _ "base_url" .string default.baseUrl
             model := ← field _ "model" .string default.model
             maxTokens := ← field _ "max_tokens" (.number halfWordMax) default.maxTokens }

def analysisDecoder : Decoder AnalysisConfig :=
  let default : AnalysisConfig := {}
  let names := ["max_main_files", "analysis_files", "api_doc_files", "comment_files",
    "call_timeout_secs"]
  .record names fun field => do
    return { maxMainFiles := ← field _ "max_main_files" (.number wordMax) default.maxMainFiles
             analysisFiles := ← field _ "analysis_files" (.number wordMax) default.analysisFiles
             apiDocFiles := ← field _ "api_doc_files" (.number wordMax) default.apiDocFiles
             commentFiles := ← field _ "comment_files" (.number wordMax) default.commentFiles
             callTimeoutSecs? := ← field _ "call_timeout_secs" (.option (.number wordMax)) none }

def decoder : Decoder Configuration :=
  .record ["github", "llm", "analysis", "poll_interval_ms"] fun field => do
    return { github := ← field _ "github" githubDecoder {}
             model := ← field _ "llm" modelDecoder {}
             analysis := ← field _ "analysis" analysisDecoder {}
             pollInterval := ← field _ "poll_interval_ms" (.number wordMax) 500 }

/-- The configuration that a text holds.  A blank text holds the default one. -/
def ofYaml? (text : String) : Option Configuration :=
  if Text.isBlankText text then some {} else decode? decoder text

/-! ### Files -/

/-- Why a file holds no configuration. -/
inductive Fault where
  | unreadable (path : String) (fault : Files.Fault)
  | unparsable
  deriving DecidableEq, Repr

def Fault.message : Fault → String
  | unreadable path fault =>
    let shown := Text.quoted ['"', '\''] path
    s!"Failed to read config file {shown}: {fault.message}"
  | unparsable => "Failed to parse config YAML"

/-- The configuration in the file with a path, if there is one, or else the default one. -/
def load (readText : String → Except Files.Fault String) :
    (path? : Option String) → Except Fault Configuration
  | none => .ok {}
  | some path =>
    match readText path with
    | .error fault => .error (.unreadable path fault)
    | .ok text =>
      match ofYaml? text with
      | some c => .ok c
      | none => .error .unparsable

end Configuration

end RepoDocs.CommandLine
