import RepoDocs.Documentation.Basic
import RepoDocs.Failure
import RepoDocs.Repository.Basic

/-! A store of repositories, jobs and documentation.  Records are kept in the order in which they were
created and never leave; no two repositories have one address.  An operation that fails changes
nothing. -/

namespace RepoDocs

structure Store where
  repositories : List Repository := []
  documentation : List Documentation := []
  jobs : List Job := []

/-- The ids of new records: of each kind, the name of the record before which there were so many. -/
structure Naming where
  repository : Nat → String
  documentation : Nat → String
  job : Nat → String

/-- A repository that is to be put on record. -/
structure NewRepository where
  url : String
  name : String
  owner : String
  description? : Option String := none
  language? : Option String := none
  files : List FileNode := []
  status : AnalysisStatus := .pending

/-- Documentation that is to be put on record. -/
structure NewDocumentation where
  repositoryId : String
  kind : DocumentationKind
  content : String
  metadata : Json.Value

namespace Store

/-- Change the elements of a list that satisfy `p`. -/
def modifyWhere (p : α → Bool) (f : α → α) (as : List α) : List α :=
  as.map fun a => if p a then f a else a

/-! ### Repositories -/

def repository? (s : Store) (id : String) : Option Repository :=
  s.repositories.find? (·.id == id)

def repositoryByUrl? (s : Store) (url : String) : Option Repository :=
  s.repositories.find? (·.url == url)

/-- A new repository, unless its address is already on record. -/
def createRepository (s : Store) (id : String) (now : Instant) (new : NewRepository) :
    Except StoreError Repository × Store :=
  match s.repositoryByUrl? new.url with
  | some r => (.error ⟨s!"repository already exists: {r.url}"⟩, s)
  | none =>
    let r : Repository :=
      { id, url := new.url, name := new.name, owner := new.owner, description? := new.description?
        language? := new.language?, files := new.files, status := new.status, createdAt := now }
    (.ok r, { s with repositories := s.repositories ++ [r] })

def updateRepository (s : Store) (id : String) (u : RepositoryUpdate) :
    Except StoreError Repository × Store :=
  match s.repository? id with
  | none => (.error ⟨s!"repository not found: {id}"⟩, s)
  | some r =>
    (.ok (u.apply r), { s with repositories := modifyWhere (·.id == id) u.apply s.repositories })

/-! ### Documentation -/

def createDocumentation (s : Store) (id : String) (now : Instant) (new : NewDocumentation) :
    Documentation × Store :=
  let d : Documentation :=
    { id, repositoryId := new.repositoryId, kind := new.kind, content := new.content
      metadata := new.metadata, createdAt := now }
  (d, { s with documentation := s.documentation ++ [d] })

def documentation? (s : Store) (id : String) : Option Documentation :=
  s.documentation.find? (·.id == id)

/-- The documentation of a repository, of one kind or of all. -/
def documentationOf (s : Store) (repositoryId : String) (kind? : Option DocumentationKind) :
    List Documentation :=
  s.documentation.filter fun d =>
    d.repositoryId == repositoryId && kind?.all (· = d.kind)

/-! ### Jobs -/

/-- A new job, which is queued. -/
def createJob (s : Store) (id : String) (now : Instant) (repositoryId : String) : Job × Store :=
  let j : Job := { id, repositoryId, createdAt := now, updatedAt := now }
  (j, { s with jobs := s.jobs ++ [j] })

def job? (s : Store) (id : String) : Option Job :=
  s.jobs.find? (·.id == id)

/-- The job of a repository that was created last. -/
def currentJob? (s : Store) (repositoryId : String) : Option Job :=
  s.jobs.findRev? (·.repositoryId == repositoryId)

def updateJob (s : Store) (id : String) (now : Instant) (u : JobUpdate) :
    Except StoreError Job × Store :=
  match s.job? id with
  | none => (.error ⟨s!"analysis job not found: {id}"⟩, s)
  | some j => (.ok (u.apply now j), { s with jobs := modifyWhere (·.id == id) (u.apply now) s.jobs })

end Store

end RepoDocs
