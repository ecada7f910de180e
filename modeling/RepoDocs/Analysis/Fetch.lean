import RepoDocs.Process.Effect

/-! The contents of files, fetched one after the other. -/

namespace RepoDocs.Analysis

/-- The content of a file. -/
def fetchFile (url path : String) (deadline? : Option Nat) :
    Program Effects (Except SourceError String) :=
  called (.file url path) deadline? (.error (.timeout s!"fetching {path}"))

/-- The files at the paths that can be fetched, in the order of the paths.  Each path is tried,
whatever became of those before it. -/
def fetchMany (url : String) (deadline? : Option Nat) :
    List String → Program Effects (List SourceFile)
  | [] => return []
  | path :: rest => do
    let content ← fetchFile url path deadline?
    let files ← fetchMany url deadline? rest
    match content with
    | .ok content => return ⟨path, content⟩ :: files
    | .error _ => return files

end RepoDocs.Analysis
