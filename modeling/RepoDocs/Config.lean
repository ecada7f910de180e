import RepoDocs.Json.Decode

/-! How much of a repository an analysis looks at, and how long it waits. -/

namespace RepoDocs

open Json

/-- The limits of an analysis: how many main files it selects at most, how many of those it reads, how
many go into an API reference and how many get comments, and the seconds after which it gives up on a
call. -/
structure AnalysisConfig where
  maxMainFiles : Nat := 10
  analysisFiles : Nat := 5
  apiDocFiles : Nat := 5
  commentFiles : Nat := 3
  callTimeoutSecs? : Option Nat := none
  deriving DecidableEq, Repr

namespace AnalysisConfig

/-- The milliseconds after which a call is given up on. -/
def deadline? (c : AnalysisConfig) : Option Nat := c.callTimeoutSecs?.map (· * 1000)

def toJson (c : AnalysisConfig) : Value :=
  .object [("max_main_files", .ofNat c.maxMainFiles), ("analysis_files", .ofNat c.analysisFiles),
    ("api_doc_files", .ofNat c.apiDocFiles), ("comment_files", .ofNat c.commentFiles),
    ("call_timeout_secs", .ofOption .ofNat c.callTimeoutSecs?)]

/-- Every field may be left out. -/
def decoder : Decoder AnalysisConfig :=
  Fields.record "AnalysisConfig" 5 <|
    .map (fun (maxMainFiles, analysisFiles, apiDocFiles, commentFiles, callTimeoutSecs?) =>
      { maxMainFiles, analysisFiles, apiDocFiles, commentFiles, callTimeoutSecs? }) <|
    (Fields.field "max_main_files" .size (.default 10)).both <|
    (Fields.field "analysis_files" .size (.default 5)).both <|
    (Fields.field "api_doc_files" .size (.default 5)).both <|
    (Fields.field "comment_files" .size (.default 3)).both
      (Fields.field "call_timeout_secs" (.option .word) (.default none))

end AnalysisConfig

end RepoDocs
