import RepoDocs.Time.Instant
import RepoDocs.Tree.Basic

/-! Repositories as they are on record. -/

namespace RepoDocs

open Json

/-- How far the analysis of a repository has come. -/
inductive AnalysisStatus where
  | pending
  | analyzing
  | completed
  | failed
  deriving DecidableEq, Repr

/-- A repository with what its source told about it. -/
structure Repository where
  id : String
  url : String
  name : String
  owner : String
  description? : Option String := none
  language? : Option String := none
  files : List FileNode := []
  status : AnalysisStatus := .pending
  createdAt : Instant

/-- What the source of a repository tells about it. -/
structure RepositoryMetadata where
  name : String
  owner : String
  description? : Option String := none
  language? : Option String := none
  files : List FileNode := []

/-- New values for some fields of a repository. -/
structure RepositoryUpdate where
  name? : Option String := none
  owner? : Option String := none
  description? : Option String := none
  language? : Option String := none
  files? : Option (List FileNode) := none
  status? : Option AnalysisStatus := none

/-- The update that only sets the status. -/
def RepositoryUpdate.ofStatus (s : AnalysisStatus) : RepositoryUpdate := { status? := some s }

/-- The repository with the fields that the update has a value for replaced. -/
def RepositoryUpdate.apply (u : RepositoryUpdate) (r : Repository) : Repository :=
  { r with
    name := u.name?.getD r.name
    owner := u.owner?.getD r.owner
    description? := u.description? <|> r.description?
    language? := u.language? <|> r.language?
    files := u.files?.getD r.files
    status := u.status?.getD r.status }

/-! ### JSON -/

namespace AnalysisStatus

def name : AnalysisStatus → String
  | pending => "pending"
  | analyzing => "analyzing"
  | completed => "completed"
  | failed => "failed"

def decoder : Decoder AnalysisStatus :=
  .oneOf ([pending, analyzing, completed, failed].map fun s => (s.name, s))

end AnalysisStatus

namespace Repository

def toJson (r : Repository) : Value :=
  .object [("id", .string r.id), ("url", .string r.url), ("name", .string r.name),
    ("owner", .string r.owner), ("description", .ofOption .string r.description?),
    ("language", .ofOption .string r.language?),
    ("fileStructure", .array (FileNode.listToJson r.files)),
    ("analysisStatus", .string r.status.name), ("createdAt", r.createdAt.toJson)]

def decoder : Decoder Repository :=
  Fields.record "Repository" 9 <|
    .map (fun (id, url, name, owner, description?, language?, files, status, createdAt) =>
      { id, url, name, owner, description?, language?, files, status, createdAt }) <|
    (Fields.field "id" .string).both <| (Fields.field "url" .string).both <|
    (Fields.field "name" .string).both <| (Fields.field "owner" .string).both <|
    (Fields.field "description" (.option .string) (.optional none)).both <|
    (Fields.field "language" (.option .string) (.optional none)).both <|
    (Fields.field "fileStructure" (.list FileNode.decoder)).both <|
    (Fields.field "analysisStatus" AnalysisStatus.decoder).both
      (Fields.field "createdAt" Instant.decoder)

end Repository

end RepoDocs
