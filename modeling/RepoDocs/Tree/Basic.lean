import RepoDocs.Json.Decode
import RepoDocs.Text.Split

/-! File trees: the files and directories of a repository, each with its path from the root. -/

namespace RepoDocs

open Json

inductive FileKind where
  | file
  | directory
  deriving DecidableEq, Repr

/-- A file or directory.  Nothing keeps a file from having children or a directory from having
none. -/
structure FileNode where
  name : String
  path : String
  kind : FileKind
  children? : Option (List FileNode) := none
  size? : Option Nat := none

/-- The last segment of a path. -/
def leafName (path : String) : String :=
  match Text.splitLast? '/' path with
  | some (_, leaf) => leaf
  | none => path

/-- The path of the directory that a path leads through last. -/
def parentPath? (path : String) : Option String :=
  (Text.splitLast? '/' path).map (·.1)

namespace FileNode

/-- The file at a path. -/
def file (path : String) (size? : Option Nat) : FileNode :=
  { name := leafName path, path, kind := .file, size? }

/-- The directory at a path. -/
def directory (path : String) (children : List FileNode) : FileNode :=
  { name := leafName path, path, kind := .directory, children? := some children }

def isFile (n : FileNode) : Bool := n.kind = .file

end FileNode

/-! ### JSON -/

def FileKind.name : FileKind → String
  | file => "file"
  | directory => "directory"

def FileKind.decoder : Decoder FileKind :=
  .oneOf ([.file, .directory].map fun k : FileKind => (k.name, k))

namespace FileNode

mutual

/-- The fields of a node that are there. -/
def toJson : FileNode → Value
  | ⟨name, path, kind, some children, size?⟩ =>
    .object (("name", .string name) :: ("path", .string path) :: ("kind", .string kind.name) ::
      ("children", .array (listToJson children)) :: Value.optionalField "size" Value.ofNat size?)
  | ⟨name, path, kind, none, size?⟩ =>
    .object (("name", .string name) :: ("path", .string path) :: ("kind", .string kind.name) ::
      Value.optionalField "size" Value.ofNat size?)

def listToJson : List FileNode → List Value
  | [] => []
  | n :: rest => toJson n :: listToJson rest

end

/-- A node with at most `levels` levels of nodes below it. -/
def decoderTo : Nat → Decoder FileNode
  | 0 => fun _ d => .error ⟨.recursionLimit, d.start⟩
  | levels + 1 =>
    Fields.record "FileNode" 5 <|
      .map (fun (name, path, kind, children?, size?) => { name, path, kind, children?, size? }) <|
      (Fields.field "name" .string).both <| (Fields.field "path" .string).both <|
      (Fields.field "kind" FileKind.decoder).both <|
      (Fields.field "children" (.option (.list (decoderTo levels))) (.default none)).both
        (Fields.field "size" (.option .word) (.default none))

/-- A node.  Texts nest too little to reach the bound on the levels. -/
def decoder : Decoder FileNode := decoderTo 128

end FileNode

end RepoDocs
