import RepoDocs.Text.Blank
import RepoDocs.Time.Instant

/-! Documentation as it is on record. -/

namespace RepoDocs

open Json

inductive DocumentationKind where
  | readme
  | api
  | comments
  | quality
  deriving DecidableEq, Repr

namespace DocumentationKind

def name : DocumentationKind → String
  | readme => "readme"
  | api => "api"
  | comments => "comments"
  | quality => "quality"

def all : List (String × DocumentationKind) :=
  [readme, api, comments, quality].map fun k => (k.name, k)

/-- The kind that a text names in letters of either case, or what is wrong with it. -/
def ofText (text : String) : Except String DocumentationKind :=
  let name := Text.asciiLower text
  match all.lookup name with
  | some k => .ok k
  | none => .error s!"unknown documentation type: {name}"

def decoder : Decoder DocumentationKind := .oneOf all

end DocumentationKind

/-- A piece of documentation of a repository, with what is known about it. -/
structure Documentation where
  id : String
  repositoryId : String
  kind : DocumentationKind
  content : String
  metadata : Value
  createdAt : Instant

namespace Documentation

def toJson (d : Documentation) : Value :=
  .object [("id", .string d.id), ("repositoryId", .string d.repositoryId),
    ("kind", .string d.kind.name), ("content", .string d.content), ("metadata", d.metadata),
    ("createdAt", d.createdAt.toJson)]

def decoder : Decoder Documentation :=
  Fields.record "Documentation" 6 <|
    .map (fun (id, repositoryId, kind, content, metadata, createdAt) =>
      { id, repositoryId, kind, content, metadata, createdAt }) <|
    (Fields.field "id" .string).both <| (Fields.field "repositoryId" .string).both <|
    (Fields.field "kind" DocumentationKind.decoder).both <| (Fields.field "content" .string).both <|
    (Fields.field "metadata" .any).both (Fields.field "createdAt" Instant.decoder)

end Documentation

end RepoDocs
