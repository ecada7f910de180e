import RepoDocs.Tree.Basic

/-! Flat listings of a repository, and the trees that they describe.  The entries are put in order of
their paths, so that a directory comes before what it holds.  Going through them from the last to the
first, each directory gathers the nodes below it.  What no listed directory gathers is dropped. -/

namespace RepoDocs

/-- One row of a flat listing. -/
structure TreeEntry where
  path : String
  kind : FileKind
  size? : Option Nat := none
  deriving DecidableEq, Repr

namespace TreeEntry

def precedes (a b : TreeEntry) : Bool := a.path ≤ b.path

/-- The first of each run of entries with one path. -/
def firstOfEach (entries : List TreeEntry) : List TreeEntry :=
  entries.foldr (fun e rest => e :: rest.dropWhile (·.path == e.path)) []

/-- The entries in order of their paths, of each path the one listed first. -/
def arranged (entries : List TreeEntry) : List TreeEntry :=
  firstOfEach (entries.mergeSort precedes)

/-- A node with the path of the directory that it belongs to. -/
structure Placed where
  parent? : Option String
  node : FileNode

/-- Put an entry before the nodes behind it in the listing: a directory takes those that belong to it
as its children. -/
def gather (e : TreeEntry) (behind : List Placed) : List Placed :=
  match e.kind with
  | .file => ⟨parentPath? e.path, .file e.path e.size?⟩ :: behind
  | .directory =>
    let (below, others) := behind.partition (·.parent? == some e.path)
    ⟨parentPath? e.path, .directory e.path (below.map (·.node))⟩ :: others

/-- The trees that a listing describes. -/
def forest (entries : List TreeEntry) : List FileNode :=
  let placed := (arranged entries).foldr gather []
  (placed.filter (·.parent?.isNone)).map (·.node)

end TreeEntry

end RepoDocs
