import RepoDocs.Json.Decode

/-! Outlines of source files: the functions, classes, imports and exports of one file. -/

namespace RepoDocs

open Json

/-- The language of an outlined file.  A file in a language that is not outlined counts as
JavaScript. -/
inductive Language where
  | javascript
  | typescript
  | python
  deriving DecidableEq, Repr

def Language.name : Language → String
  | javascript => "javascript"
  | typescript => "typescript"
  | python => "python"

/-- A parameter with its default, if that is a constant. -/
structure Parameter where
  name : String
  default? : Option Value := none

/-- A function or method with the lines that it takes up, counted from 1. -/
structure FunctionOutline where
  name : String
  startLine : Nat
  endLine : Nat
  parameters : List Parameter
  isAsync : Bool
  isExported : Bool

/-- A field of a class. -/
structure Property where
  name : String
  isStatic : Bool
  deriving DecidableEq, Repr

/-- A class with its methods and fields. -/
structure ClassOutline where
  name : String
  startLine : Nat
  endLine : Nat
  methods : List FunctionOutline
  properties : List Property
  isExported : Bool

/-- The names that one import binds, and the module that they come from. -/
structure ImportOutline where
  source : String
  importedNames : List String
  deriving DecidableEq, Repr

/-- The outline of one file. -/
structure FileOutline where
  fileName : String
  language : Language
  functions : List FunctionOutline := []
  classes : List ClassOutline := []
  imports : List ImportOutline := []
  exports : List String := []

/-- Whether there is nothing in the outline. -/
def FileOutline.isEmpty (f : FileOutline) : Bool :=
  f.functions.isEmpty && f.classes.isEmpty && f.imports.isEmpty && f.exports.isEmpty

/-! ### JSON -/

def Language.all : List (String × Language) :=
  [javascript, typescript, python].map fun l => (l.name, l)

def Language.decoder : Decoder Language := .oneOf Language.all

namespace Parameter

def toJson (p : Parameter) : Value :=
  .object (("name", .string p.name) :: Value.optionalField "defaultValue" id p.default?)

def decoder : Decoder Parameter :=
  Fields.record "Parameter" 2 <| .map (fun (name, default?) => { name, default? }) <|
    (Fields.field "name" .string).both
      (Fields.field "defaultValue" (.option .any) (.default none))

end Parameter

namespace FunctionOutline

def toJson (f : FunctionOutline) : Value :=
  .object [("name", .string f.name), ("startLine", .ofNat f.startLine),
    ("endLine", .ofNat f.endLine), ("parameters", .array (f.parameters.map Parameter.toJson)),
    ("isAsync", .bool f.isAsync), ("isExported", .bool f.isExported)]

def decoder : Decoder FunctionOutline :=
  Fields.record "ParsedFunction" 6 <|
    .map (fun (name, startLine, endLine, parameters, isAsync, isExported) =>
      { name, startLine, endLine, parameters, isAsync, isExported }) <|
    (Fields.field "name" .string).both <| (Fields.field "startLine" .size).both <|
    (Fields.field "endLine" .size).both <|
    (Fields.field "parameters" (.list Parameter.decoder)).both <|
    (Fields.field "isAsync" .bool).both (Fields.field "isExported" .bool)

end FunctionOutline

namespace Property

def toJson (p : Property) : Value :=
  .object [("name", .string p.name), ("isStatic", .bool p.isStatic)]

def decoder : Decoder Property :=
  Fields.record "Property" 2 <| .map (fun (name, isStatic) => { name, isStatic }) <|
    (Fields.field "name" .string).both (Fields.field "isStatic" .bool)

end Property

namespace ClassOutline

def toJson (c : ClassOutline) : Value :=
  .object [("name", .string c.name), ("startLine", .ofNat c.startLine),
    ("endLine", .ofNat c.endLine), ("methods", .array (c.methods.map FunctionOutline.toJson)),
    ("properties", .array (c.properties.map Property.toJson)), ("isExported", .bool c.isExported)]

def decoder : Decoder ClassOutline :=
  Fields.record "ParsedClass" 6 <|
    .map (fun (name, startLine, endLine, methods, properties, isExported) =>
      { name, startLine, endLine, methods, properties, isExported }) <|
    (Fields.field "name" .string).both <| (Fields.field "startLine" .size).both <|
    (Fields.field "endLine" .size).both <|
    (Fields.field "methods" (.list FunctionOutline.decoder)).both <|
    (Fields.field "properties" (.list Property.decoder)).both (Fields.field "isExported" .bool)

end ClassOutline

namespace ImportOutline

def toJson (i : ImportOutline) : Value :=
  .object [("source", .string i.source), ("importedNames", .ofStrings i.importedNames)]

def decoder : Decoder ImportOutline :=
  Fields.record "ImportInfo" 2 <| .map (fun (source, importedNames) => { source, importedNames }) <|
    (Fields.field "source" .string).both (Fields.field "importedNames" (.list .string))

end ImportOutline

namespace FileOutline

def toJson (f : FileOutline) : Value :=
  .object [("fileName", .string f.fileName), ("language", .string f.language.name),
    ("functions", .array (f.functions.map FunctionOutline.toJson)),
    ("classes", .array (f.classes.map ClassOutline.toJson)),
    ("imports", .array (f.imports.map ImportOutline.toJson)), ("exports", .ofStrings f.exports)]

def decoder : Decoder FileOutline :=
  Fields.record "ParsedFile" 6 <|
    .map (fun (fileName, language, functions, classes, imports, exports) =>
      { fileName, language, functions, classes, imports, exports }) <|
    (Fields.field "fileName" .string).both <| (Fields.field "language" Language.decoder).both <|
    (Fields.field "functions" (.list FunctionOutline.decoder)).both <|
    (Fields.field "classes" (.list ClassOutline.decoder)).both <|
    (Fields.field "imports" (.list ImportOutline.decoder)).both
      (Fields.field "exports" (.list .string))

end FileOutline

end RepoDocs
