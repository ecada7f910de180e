import RepoDocs.Store.Basic

/-! The operations of a store as values, and what they reply. -/

namespace RepoDocs

/-- An operation of a store. -/
inductive StoreCall where
  | createRepository (new : NewRepository)
  | getRepository (id : String)
  | getRepositoryByUrl (url : String)
  | updateRepository (id : String) (update : RepositoryUpdate)
  | createDocumentation (new : NewDocumentation)
  | getDocumentation (id : String)
  | documentationOf (repositoryId : String) (kind? : Option DocumentationKind)
  | createJob (repositoryId : String)
  | getJob (id : String)
  | currentJob (repositoryId : String)
  | updateJob (id : String) (update : JobUpdate)

/-- What an operation that succeeds replies. -/
@[reducible] def StoreCall.Reply : StoreCall → Type
  | createRepository _ | updateRepository _ _ => Repository
  | getRepository _ | getRepositoryByUrl _ => Option Repository
  | createDocumentation _ => Documentation
  | getDocumentation _ => Option Documentation
  | documentationOf _ _ => List Documentation
  | createJob _ | updateJob _ _ => Job
  | getJob _ | currentJob _ => Option Job

/-- Carry out an operation. -/
def Store.perform (s : Store) (names : Naming) (now : Instant) :
    (c : StoreCall) → Except StoreError c.Reply × Store
  | .createRepository new => s.createRepository (names.repository s.repositories.length) now new
  | .getRepository id => (.ok (s.repository? id), s)
  | .getRepositoryByUrl url => (.ok (s.repositoryByUrl? url), s)
  | .updateRepository id u => s.updateRepository id u
  | .createDocumentation new =>
    let (d, s) := s.createDocumentation (names.documentation s.documentation.length) now new
    (.ok d, s)
  | .getDocumentation id => (.ok (s.documentation? id), s)
  | .documentationOf repositoryId kind? => (.ok (s.documentationOf repositoryId kind?), s)
  | .createJob repositoryId =>
    let (j, s) := s.createJob (names.job s.jobs.length) now repositoryId
    (.ok j, s)
  | .getJob id => (.ok (s.job? id), s)
  | .currentJob repositoryId => (.ok (s.currentJob? repositoryId), s)
  | .updateJob id u => s.updateJob id now u

end RepoDocs
