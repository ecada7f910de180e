import RepoDocs.Documentation.Artifact
import RepoDocs.Outline.Basic

/-! The functions that an API reference covers. -/

namespace RepoDocs

/-- A parameter with its default behind an equals sign. -/
def Parameter.signature (p : Parameter) : String :=
  match p.default? with
  | some v => s!"{p.name} = {v.compact}"
  | none => p.name

/-- The entry of a function under a name. -/
def ApiFunction.ofFunction (name : String) (f : FunctionOutline) : ApiFunction :=
  { name, parameters := f.parameters.map Parameter.signature }

/-- The entries of a file: its functions, and the methods of its classes behind the names of these. -/
def ApiFunction.ofFile (f : FileOutline) : List ApiFunction :=
  f.functions.map (fun g => ofFunction g.name g) ++
    f.classes.flatMap fun c => c.methods.map fun m => ofFunction s!"{c.name}.{m.name}" m

/-- The entries of some files. -/
def ApiFunction.ofFiles (files : List FileOutline) : List ApiFunction :=
  files.flatMap ofFile

end RepoDocs
