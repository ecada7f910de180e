import RepoDocs.GitHub.Rejection
import RepoDocs.Http.Exchange
import RepoDocs.Repository.Basic
import RepoDocs.Repository.Coordinates
import RepoDocs.Tree.Listing

/-! Repositories read through the GitHub API: what it tells about a repository, the file tree of its
default branch and the contents of its files. -/

namespace RepoDocs.GitHub

open Http Json

structure Settings where
  apiBase : String := "https://api.github.com"
  userAgent : String := "DocuMind-AI"
  deriving DecidableEq, Repr

/-- A user of the API, who may have a token. -/
structure Client where
  settings : Settings
  token? : Option String

/-- The client with a token, unless that is blank. -/
def Client.new (settings : Settings) (token? : Option String) : Client :=
  { settings, token? := token?.filter (!Text.isBlankText ·) }

/-- The client with the token that the environment holds, under its first name or else its second. -/
def Client.ofEnvironment (settings : Settings) (env? : String → Option String) : Client :=
  .new settings (env? "GITHUB_TOKEN" <|> env? "GITHUB_API_KEY")

/-! ### What the API tells -/

/-- What the API tells about a repository. -/
structure RepositoryReply where
  name : String
  owner : String
  description? : Option String
  language? : Option String
  defaultBranch : String

def RepositoryReply.decoder : Decoder RepositoryReply :=
  Fields.record "RepoResponse" 5 <|
    .map (fun (name, owner, description?, language?, defaultBranch) =>
      { name, owner, description?, language?, defaultBranch }) <|
    (Fields.field "name" .string).both <|
    (Fields.field "owner" (Fields.record "OwnerResponse" 1 (Fields.field "login" .string))).both <|
    (Fields.field "description" (.option .string) (.optional none)).both <|
    (Fields.field "language" (.option .string) (.optional none)).both
      (Fields.field "default_branch" .string)

/-- One item of a tree. -/
structure TreeItem where
  path : String
  kind : String
  size? : Option Nat

def TreeItem.decoder : Decoder TreeItem :=
  Fields.record "TreeItem" 3 <| .map (fun (path, kind, size?) => { path, kind, size? }) <|
    (Fields.field "path" .string).both <| (Fields.field "type" .string).both
      (Fields.field "size" (.option .word) (.optional none))

/-- The items of a tree. -/
def treeDecoder : Decoder (List TreeItem) :=
  Fields.record "TreeResponse" 2 <| .map (·.1) <|
    (Fields.field "tree" (.list TreeItem.decoder)).both
      (Fields.field "truncated" .bool (.default false))

/-- The row of a listing that an item is.  Only files and directories make one. -/
def TreeItem.entry? (i : TreeItem) : Option TreeEntry :=
  match i.kind with
  | "blob" => some { path := i.path, kind := .file, size? := i.size? }
  | "tree" => some { path := i.path, kind := .directory, size? := i.size? }
  | _ => none

/-! ### Requests -/

/-- The address of a repository in the API. -/
def repositoryAddress (s : Settings) (c : Coordinates) : String :=
  s!"{withoutEndSlashes s.apiBase}/repos/{c.owner}/{c.name}"

/-- The address of a file in the API. -/
def contentAddress (s : Settings) (c : Coordinates) (path : String) : String :=
  let path := String.ofList (path.toList.dropWhile (· = '/'))
  s!"{repositoryAddress s c}/contents/{path}"

/-- The coordinates that the address of a repository gives. -/
def coordinatesOf (url : String) : Except SourceError Coordinates :=
  (Coordinates.parse url).mapError fun f => .invalidUrl f.message

/-- Get what is at an address in the API. -/
def get (client : Client) (address accept : String) :
    Program Exchange (Except SourceError Response) := do
  let token := (client.token?.map fun t => ("authorization", s!"token {t}")).toList
  let headers := ("user-agent", client.settings.userAgent) :: ("accept", accept) :: token
  match ← send .get address headers with
  | .error e => return .error (.other s!"GitHub request failed: {e.message}")
  | .ok r =>
    if r.status.isSuccess then return .ok r
    else return .error (rejection r.status (r.header? "x-ratelimit-remaining" == some "0"))

/-- Get a value that the API describes in JSON. -/
def getJson (client : Client) (address : String) (dec : Decoder α) :
    Attempt SourceError Exchange α := do
  let r ← ExceptT.mk (get client address "application/vnd.github.v3+json")
  match r.decode? dec with
  | some a => return a
  | none => throw (.other s!"Unexpected GitHub response: {undecodable}")

/-- What there is to tell about a repository before any of its files is read. -/
def fetchMetadata (client : Client) (url : String) :
    Attempt SourceError Exchange RepositoryMetadata := do
  let c ← ExceptT.mk (pure (coordinatesOf url))
  let address := repositoryAddress client.settings c
  let r ← getJson client address RepositoryReply.decoder
  let items ← getJson client s!"{address}/git/trees/{r.defaultBranch}?recursive=1" treeDecoder
  return { name := r.name, owner := r.owner, description? := r.description?, language? := r.language?
           files := TreeEntry.forest (items.filterMap TreeItem.entry?) }

/-- The content of a file. -/
def fetchContent (client : Client) (url path : String) : Attempt SourceError Exchange String := do
  let c ← ExceptT.mk (pure (coordinatesOf url))
  try
    let address := contentAddress client.settings c path
    let r ← ExceptT.mk (get client address "application/vnd.github.raw")
    return r.text
  catch
    | .notFound _ => throw (.notFound s!"File not found: {path}")
    | e => throw e

end RepoDocs.GitHub
