import RepoDocs.Grammar.Node
import RepoDocs.Script.Rule

/-! Programs of the constructs that all dialects share, and the trees that their grammars build of them.
The plain grammar writes a parameter as the bare pattern, or as an assignment to it when it has a default,
and the key of a field in the role of a property.  The typed grammars wrap every parameter, write the key of
a field in the role of a name, and have nodes of their own for the name and the heritage of a class. -/

namespace RepoDocs.Script

open Grammar

/-- What a parameter binds. -/
inductive Shape where
  | name
  | object
  | array
  | rest

def Shape.kind : Shape → Kind
  | .name => .identifier
  | .object => .objectPattern
  | .array => .arrayPattern
  | .rest => .other "rest_pattern"

/-- The kinds of the nodes that the grammars do not build alike. -/
def divergentKinds : List Kind :=
  [.classDeclaration, .abstractClassDeclaration, .fieldDefinition, .publicFieldDefinition,
    .requiredParameter, .optionalParameter]

mutual

/-- A part of a program. -/
inductive Part where
  /-- A token, a leaf, or a node that all grammars build alike of its parts. -/
  | node (kind : Kind) (shared : kind ∉ divergentKinds) (role : Option Label) (startRow endRow : Nat)
      (text : String) (parts : List Part)
  /-- Parameters in parentheses. -/
  | parameters (startRow endRow : Nat) (items : List Item)
  /-- A field of a class, with its modifiers before the key. -/
  | field (startRow endRow : Nat) (modifiers : List Part) (key : Part) (value : Option Part)
  /-- A class, as a declaration or as an expression, with its name and its row. -/
  | class (isDeclaration : Bool) (role : Option Label) (placed : role ≠ some .parameters)
      (startRow endRow : Nat) (name : Option (String × Nat)) (heritage : Option Part)
      (members : List Part)

/-- What stands between the parentheses of a list of parameters. -/
inductive Item where
  | mark (text : String) (row : Nat)
  | comment (startRow endRow : Nat) (text : String)
  | parameter (shape : Shape) (startRow endRow : Nat) (text : String) (parts : List Part)
      (value : Option Part)

end

/-! ### Trees -/

def token (text : String) (row : Nat) : Node :=
  { kind := .token text, startRow := row, endRow := row, text }

/-- The node in the role `l` and in no other. -/
def inRole (l : Option Label) (n : Node) : Node := { n with label := l }

@[simp] theorem inRole_kind (l : Option Label) (n : Node) : (inRole l n).kind = n.kind := rfl

@[simp] theorem inRole_label (l : Option Label) (n : Node) : (inRole l n).label = l := rfl

@[simp] theorem inRole_text (l : Option Label) (n : Node) : (inRole l n).text = n.text := rfl

@[simp] theorem inRole_children (l : Option Label) (n : Node) :
    (inRole l n).children = n.children := rfl

/-- An equals sign and a value in the role `l`. -/
def initializer (l : Label) : Option Node → List Node
  | none => []
  | some v => [token "=" v.startRow, inRole (some l) v]

def parameterTree (d : Dialect) (bound : Node) (value : Option Node) : Node :=
  let endRow := (value.map Node.endRow).getD bound.endRow
  if d.typed then
    { kind := .requiredParameter, startRow := bound.startRow, endRow
      children := inRole (some .pattern) bound :: initializer .value value }
  else if value.isSome then
    { kind := .assignmentPattern, startRow := bound.startRow, endRow
      children := inRole (some .left) bound :: initializer .right value }
  else bound

def fieldTree (d : Dialect) (startRow endRow : Nat) (modifiers : List Node) (key : Node)
    (value : Option Node) : Node :=
  { kind := if d.typed then .publicFieldDefinition else .fieldDefinition, startRow, endRow
    children := modifiers.map (inRole none) ++
      inRole (some (if d.typed then .name else .property)) key :: initializer .value value }

def heritageTree (d : Dialect) (parent : Node) : Node :=
  let row := parent.startRow
  if d.typed then
    .spanning (.other "class_heritage") row
      [.spanning (.other "extends_clause") row [token "extends" row, inRole (some .value) parent]]
  else .spanning (.other "class_heritage") row [token "extends" row, inRole none parent]

def classNameTree (d : Dialect) (name : String × Nat) : Node :=
  { kind := if d.typed then .other "type_identifier" else .identifier, label := some .name
    startRow := name.2, endRow := name.2, text := name.1 }

def classTree (d : Dialect) (isDeclaration : Bool) (role : Option Label) (startRow endRow : Nat)
    (name : Option (String × Nat)) (heritage : Option Node) (members : List Node) : Node :=
  { kind := if isDeclaration then .classDeclaration else .other "class", label := role, startRow, endRow
    children := token "class" startRow :: (name.map (classNameTree d)).toList ++
      (heritage.map (heritageTree d)).toList ++
      [⟨.other "class_body", some .body, startRow, endRow, "", members⟩] }

mutual

def Part.tree (d : Dialect) : Part → Node
  | .node kind _ role startRow endRow text parts =>
    ⟨kind, role, startRow, endRow, text, trees d parts⟩
  | .parameters startRow endRow items =>
    ⟨.other "formal_parameters", some .parameters, startRow, endRow, "", itemTrees d items⟩
  | .field startRow endRow modifiers key value =>
    fieldTree d startRow endRow (trees d modifiers) (key.tree d) (tree? d value)
  | .class isDeclaration role _ startRow endRow name heritage members =>
    classTree d isDeclaration role startRow endRow name (tree? d heritage) (trees d members)

def trees (d : Dialect) : List Part → List Node
  | [] => []
  | p :: rest => p.tree d :: trees d rest

def tree? (d : Dialect) : Option Part → Option Node
  | none => none
  | some p => some (p.tree d)

def Item.tree (d : Dialect) : Item → Node
  | .mark text row => token text row
  | .comment startRow endRow text => { kind := .comment, startRow, endRow, text }
  | .parameter shape startRow endRow text parts value =>
    parameterTree d ⟨shape.kind, none, startRow, endRow, text, trees d parts⟩ (tree? d value)

def itemTrees (d : Dialect) : List Item → List Node
  | [] => []
  | i :: rest => i.tree d :: itemTrees d rest

end

/-- A program of the shared constructs. -/
structure Program where
  startRow : Nat
  endRow : Nat
  parts : List Part

def Program.tree (d : Dialect) (p : Program) : Node :=
  ⟨.other "program", none, p.startRow, p.endRow, "", trees d p.parts⟩

end RepoDocs.Script
