import RepoDocs.Tree.Basic

/-! File trees in order: the siblings at every level sorted by path. -/

namespace RepoDocs.FileNode

/-- Whether a node may stand before another among its siblings. -/
def precedes (a b : FileNode) : Bool := a.path ≤ b.path

mutual

/-- The node with its children in order, at every level. -/
def sorted : FileNode → FileNode
  | ⟨name, path, kind, some children, size?⟩ =>
    ⟨name, path, kind, some ((sortedEach children).mergeSort precedes), size?⟩
  | ⟨name, path, kind, none, size?⟩ => ⟨name, path, kind, none, size?⟩

def sortedEach : List FileNode → List FileNode
  | [] => []
  | n :: rest => sorted n :: sortedEach rest

end

/-- The trees in order, each with its children in order. -/
def sortForest (nodes : List FileNode) : List FileNode :=
  (sortedEach nodes).mergeSort precedes

end RepoDocs.FileNode
