import RepoDocs.Tree.Basic

/-! What is sent to and comes back from the writer of documentation: source files, functions to
document, readmes, comment suggestions and quality reports. -/

namespace RepoDocs

open Json

/-- A source file with its text. -/
structure SourceFile where
  name : String
  content : String
  deriving DecidableEq, Repr

/-- What a readme is written from: the repository, the paths of its main files and its file tree. -/
structure ReadmeRequest where
  name : String
  description? : Option String := none
  files : List String
  tree : List FileNode

/-- A readme, perhaps with a banner. -/
structure ReadmeArtifact where
  content : String
  bannerAssetPath? : Option String := none
  deriving DecidableEq, Repr

/-- A function or method to document. -/
structure ApiFunction where
  name : String
  parameters : List String
  returnType? : Option String := none
  description? : Option String := none
  deriving DecidableEq, Repr

inductive CommentCategory where
  | improvement
  | explanation
  | warning
  deriving DecidableEq, Repr

/-- A comment that a line of a file should have. -/
structure CommentSuggestion where
  line : Nat
  comment : String
  category : CommentCategory
  file? : Option String := none
  deriving DecidableEq, Repr

inductive IssueKind where
  | error
  | warning
  | suggestion
  deriving DecidableEq, Repr

/-- Something that is wrong with a file. -/
structure QualityIssue where
  file : String
  line? : Option Nat := none
  kind : IssueKind
  message : String
  deriving DecidableEq, Repr

/-- What is thought of the quality of some files, with a score from 0 to 100. -/
structure QualityReport where
  score : Float
  issues : List QualityIssue := []
  suggestions : List String := []

/-! ### JSON -/

namespace SourceFile

def toJson (f : SourceFile) : Value :=
  .object [("name", .string f.name), ("content", .string f.content)]

def decoder : Decoder SourceFile :=
  Fields.record "SourceFile" 2 <| .map (fun (name, content) => { name, content }) <|
    (Fields.field "name" .string).both (Fields.field "content" .string)

end SourceFile

namespace ReadmeArtifact

def toJson (r : ReadmeArtifact) : Value :=
  .object (("content", .string r.content) ::
    Value.optionalField "bannerAssetPath" .string r.bannerAssetPath?)

def decoder : Decoder ReadmeArtifact :=
  Fields.record "ReadmeArtifact" 2 <|
    .map (fun (content, bannerAssetPath?) => { content, bannerAssetPath? }) <|
    (Fields.field "content" .string).both
      (Fields.field "bannerAssetPath" (.option .string) (.default none))

end ReadmeArtifact

namespace ApiFunction

def toJson (f : ApiFunction) : Value :=
  .object (("name", .string f.name) :: ("parameters", .ofStrings f.parameters) ::
    (Value.optionalField "returnType" .string f.returnType? ++
      Value.optionalField "description" .string f.description?))

def decoder : Decoder ApiFunction :=
  Fields.record "ApiFunction" 4 <|
    .map (fun (name, parameters, returnType?, description?) =>
      { name, parameters, returnType?, description? }) <|
    (Fields.field "name" .string).both <| (Fields.field "parameters" (.list .string)).both <|
    (Fields.field "returnType" (.option .string) (.default none)).both
      (Fields.field "description" (.option .string) (.default none))

end ApiFunction

namespace CommentCategory

def name : CommentCategory → String
  | improvement => "improvement"
  | explanation => "explanation"
  | warning => "warning"

def decoder : Decoder CommentCategory :=
  .oneOf ([improvement, explanation, warning].map fun c => (c.name, c))

end CommentCategory

namespace CommentSuggestion

def toJson (s : CommentSuggestion) : Value :=
  .object (("line", .ofNat s.line) :: ("comment", .string s.comment) ::
    ("category", .string s.category.name) :: Value.optionalField "file" .string s.file?)

/-- The category may also be called the type of a suggestion. -/
def decoder : Decoder CommentSuggestion :=
  Fields.record "CommentSuggestion" 4 <|
    .map (fun (line, comment, category, file?) => { line, comment, category, file? }) <|
    (Fields.field "line" .size).both <| (Fields.field "comment" .string).both <|
    (Fields.field "category" CommentCategory.decoder .required ["type"]).both
      (Fields.field "file" (.option .string) (.default none))

/-- The suggestions in a text: a list, or an object that holds it as its `suggestions`. -/
def parseList (text : String) : Except Fault (List CommentSuggestion) := do
  let v ← parse text
  decodeValue (.list decoder) ((v.field? "suggestions").getD v)

end CommentSuggestion

namespace IssueKind

def name : IssueKind → String
  | error => "error"
  | warning => "warning"
  | suggestion => "suggestion"

def decoder : Decoder IssueKind :=
  .oneOf ([error, warning, suggestion].map fun k => (k.name, k))

end IssueKind

namespace QualityIssue

def toJson (i : QualityIssue) : Value :=
  .object [("file", .string i.file), ("line", .ofOption .ofNat i.line?),
    ("type", .string i.kind.name), ("message", .string i.message)]

def decoder : Decoder QualityIssue :=
  Fields.record "QualityIssue" 4 <|
    .map (fun (file, line?, kind, message) => { file, line?, kind, message }) <|
    (Fields.field "file" .string).both <|
    (Fields.field "line" (.option .size) (.default none)).both <|
    (Fields.field "type" IssueKind.decoder).both (Fields.field "message" .string)

end QualityIssue

namespace QualityReport

def toJson (r : QualityReport) : Value :=
  .object [("score", .ofFloat r.score),
    ("issues", .array (r.issues.map QualityIssue.toJson)), ("suggestions", .ofStrings r.suggestions)]

def decoder : Decoder QualityReport :=
  Fields.record "QualityReport" 3 <|
    .map (fun (score, issues, suggestions) => { score, issues, suggestions }) <|
    (Fields.field "score" .float).both <|
    (Fields.field "issues" (.list QualityIssue.decoder) (.default [])).both
      (Fields.field "suggestions" (.list .string) (.default []))

/-- A score, brought into the range from 0 to 100. -/
def clamp (score : Float) : Float :=
  if score < 0.0 then 0.0 else if 100.0 < score then 100.0 else score

/-- The report in a text. -/
def parse (text : String) : Except Fault QualityReport :=
  (decodeText decoder text).map fun r => { r with score := clamp r.score }

end QualityReport

end RepoDocs
