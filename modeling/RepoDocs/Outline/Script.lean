import RepoDocs.Outline.Literal
import RepoDocs.Script.Statements

/-! Outlines of JavaScript and TypeScript files, read off their syntax trees.  The outline has the
named functions that stand in no other function, the arrow functions that a variable is declared
with, the classes, the imports, and the names of the functions and classes that are exported where
they are declared. -/

namespace RepoDocs.Outline

open Grammar Json

/-- What was found in a tree, in the order of the text. -/
structure Findings where
  functions : List FunctionOutline := []
  classes : List ClassOutline := []
  imports : List ImportOutline := []
  exports : List String := []

def Findings.append (a b : Findings) : Findings :=
  ⟨a.functions ++ b.functions, a.classes ++ b.classes, a.imports ++ b.imports,
    a.exports ++ b.exports⟩

instance : Append Findings := ⟨Findings.append⟩

/-! ### Parameters -/

/-- The value of a constant expression. -/
def constant? (n : Node) : Option Value :=
  match n.kind with
  | .stringLiteral => some (.string (Literal.unquote n.text))
  | .numberLiteral => Literal.number? n.text
  | .trueLiteral => some (.bool true)
  | .falseLiteral => some (.bool false)
  | .nullLiteral => some .null
  | _ => none

/-- A named parameter with the default that `value` gives, if it is a constant. -/
def defaulted (name : String) (value : Option Node) : Parameter :=
  ⟨name, value.bind constant?⟩

/-- The parameter that a node declares.  Only an identifier gives it its own name. -/
def parameter (n : Node) : Parameter :=
  match n.kind with
  | .identifier => ⟨n.text, none⟩
  | .objectPattern => ⟨"destructured", none⟩
  | .arrayPattern => ⟨"arrayDestructured", none⟩
  | .assignmentPattern =>
    match n.child? .left with
    | some left =>
      if left.kind = .identifier then defaulted left.text (n.child? .right) else ⟨"unknown", none⟩
    | none => ⟨"unknown", none⟩
  | .requiredParameter | .optionalParameter =>
    match n.child? .pattern with
    | some pattern =>
      match pattern.kind, n.child? .value with
      | .identifier, value => defaulted pattern.text value
      | .objectPattern, none => ⟨"destructured", none⟩
      | .arrayPattern, none => ⟨"arrayDestructured", none⟩
      | _, _ => ⟨"unknown", none⟩
    | none => ⟨"unknown", none⟩
  | _ => ⟨"unknown", none⟩

/-- The parameters of anything that can be called: a list in parentheses, or the one that stands
alone before an arrow. -/
def parameters (n : Node) : List Parameter :=
  match n.child? .parameters with
  | some list => (list.namedChildren.filter (·.kind ≠ .comment)).map parameter
  | none =>
    match n.child? .parameter with
    | some single => [parameter single]
    | none => []

/-- The record of anything that can be called. -/
def callable (n : Node) (name : String) : FunctionOutline :=
  { name, startLine := n.startRow + 1, endLine := n.endRow + 1, parameters := parameters n
    isAsync := n.hasToken "async", isExported := false }

/-! ### Declarations -/

/-- The method that a member of a class is, if its name is a plain one. -/
def method? (member : Node) : Option FunctionOutline :=
  match member.kind, member.child? .name with
  | .methodDefinition, some key =>
    if key.kind = .propertyIdentifier then some (callable member key.text) else none
  | _, _ => none

/-- The field that a member of a class is, if its name is a plain one. -/
def property? (member : Node) : Option Property :=
  if member.kind = .publicFieldDefinition ∨ member.kind = .fieldDefinition then
    match member.child? .name <|> member.child? .property with
    | some key =>
      if key.kind = .propertyIdentifier then some ⟨key.text, member.hasToken "static"⟩ else none
    | none => none
  else none

/-- The members of the body of a class. -/
def members (n : Node) : List Node :=
  ((n.child? .body).map Node.namedChildren).getD []

/-- The class that a node declares, if it has a name. -/
def class? (n : Node) : Option ClassOutline :=
  (n.child? .name).map fun name =>
    { name := name.text, startLine := n.startRow + 1, endLine := n.endRow + 1
      methods := (members n).filterMap method?, properties := (members n).filterMap property?
      isExported := false }

/-- The arrow function that a variable is declared with. -/
def declaredArrow? (n : Node) : Option FunctionOutline :=
  match n.child? .name, n.child? .value with
  | some name, some value =>
    if name.kind = .identifier ∧ value.kind = .arrowFunction then some (callable value name.text)
    else none
  | _, _ => none

/-- The name that an import specifier binds. -/
def specifierName? (spec : Node) : Option String :=
  (spec.child? .localName <|> spec.child? .name).map (·.text)

/-- The names that a part of an import clause binds. -/
def bindingNames (binding : Node) : List String :=
  match binding.kind with
  | .identifier => [binding.text]
  | .namespaceImport =>
    ((binding.namedChildren.find? (·.kind = .identifier)).map (·.text)).toList
  | .namedImports =>
    (binding.namedChildren.filter (·.kind = .importSpecifier)).filterMap specifierName?
  | _ => []

/-- The import that a statement is, if it names its source. -/
def import? (n : Node) : Option ImportOutline :=
  (n.child? .source).map fun source =>
    { source := Literal.unquote source.text
      importedNames := (n.namedChildren.filter (·.kind = .importClause)).flatMap fun clause =>
        clause.namedChildren.flatMap bindingNames }

/-- Whether a declaration gives its name to an export of it. -/
def isExportable (k : Kind) : Bool :=
  k = .functionDeclaration || k = .generatorFunctionDeclaration || k = .classDeclaration ||
    k = .abstractClassDeclaration

/-- The name that an export statement declares and exports. -/
def exportedName? (n : Node) : Option String :=
  if n.hasToken "default" then none
  else
    match n.child? .declaration with
    | some declaration =>
      if isExportable declaration.kind then (declaration.child? .name).map (·.text) else none
    | none => none

/-! ### The walk -/

/-- Whether what stands below a node stands in a function. -/
def opensFunction (k : Kind) : Bool :=
  k = .functionDeclaration || k = .generatorFunctionDeclaration || k = .arrowFunction ||
    k = .functionExpression || k = .generatorFunction || k = .methodDefinition

/-- What a node itself adds, inside a function or not. -/
def ownFindings (nested : Bool) (n : Node) : Findings :=
  match n.kind with
  | .functionDeclaration | .generatorFunctionDeclaration =>
    if nested then {}
    else { functions := ((n.child? .name).map fun name => callable n name.text).toList }
  | .classDeclaration | .abstractClassDeclaration => { classes := (class? n).toList }
  | .variableDeclarator => { functions := (declaredArrow? n).toList }
  | .importStatement => { imports := (import? n).toList }
  | .exportStatement => { exports := (exportedName? n).toList }
  | _ => {}

mutual

/-- What a tree adds, inside a function or not.  Nothing is looked for below an import. -/
def visit (nested : Bool) : Node → Findings
  | ⟨kind, label, startRow, endRow, text, children⟩ =>
    let own := ownFindings nested ⟨kind, label, startRow, endRow, text, children⟩
    if kind = .importStatement then own
    else own ++ visitAll (nested || opensFunction kind) children

/-- What the named nodes of a forest add. -/
def visitAll (nested : Bool) : List Node → Findings
  | [] => {}
  | n :: rest =>
    if n.kind.isNamed then visit nested n ++ visitAll nested rest else visitAll nested rest

end

/-- The language that a dialect counts as. -/
def dialectLanguage : Script.Dialect → Language
  | .javascript => .javascript
  | .typescript | .tsx => .typescript

/-- The outline of a tree without errors. -/
def ofTree (fileName : String) (language : Language) (root : Node) : FileOutline :=
  let found := visit false root
  { fileName, language, functions := found.functions, classes := found.classes
    imports := found.imports, exports := found.exports }

/-- The outline of a script file; nothing but its language is known of a file that has an error. -/
def ofScript (fileName source : String) (d : Script.Dialect) : FileOutline :=
  let root := Script.parse d source
  if root.hasError then { fileName, language := dialectLanguage d }
  else ofTree fileName (dialectLanguage d) root

/-- The line of the first error of a script file. -/
def scriptErrorLine? (source : String) (d : Script.Dialect) : Option Nat :=
  let root := Script.parse d source
  if root.hasError then some root.firstErrorLine else none

end RepoDocs.Outline
