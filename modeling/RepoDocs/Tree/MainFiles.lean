import RepoDocs.Text.Blank
import RepoDocs.Tree.Basic

/-! The main files of a repository: the files worth reading first, in the order of the tree. -/

namespace RepoDocs.FileNode

/-- Names of files that a reader of a repository starts with. -/
def entryPoints : List String :=
  ["readme.md", "index.js", "index.ts", "main.py", "app.py", "package.json"]

/-- Endings of the names of files that hold code. -/
def codeEndings : List String := [".py", ".js", ".ts"]

/-- Whether a node has the name of a main file, in letters of either case. -/
def hasMainName (n : FileNode) : Bool :=
  let name := Text.asciiLower n.name
  entryPoints.contains name || codeEndings.any (·.toList.isSuffixOf name.toList)

mutual

/-- The paths of the main files in a tree, but no more than `limit`. -/
def mainFilesIn (limit : Nat) : FileNode → List String
  | ⟨name, path, kind, children?, size?⟩ =>
    if limit = 0 then []
    else if kind = .file then
      if hasMainName ⟨name, path, kind, children?, size?⟩ then [path] else []
    else
      match children? with
      | some children => mainFiles limit children
      | none => []

/-- The paths of the main files in some trees, but no more than `limit`.  What stands below a file is
not looked at. -/
def mainFiles (limit : Nat) : List FileNode → List String
  | [] => []
  | n :: rest =>
    let here := mainFilesIn limit n
    here ++ mainFiles (limit - here.length) rest

end

end RepoDocs.FileNode
