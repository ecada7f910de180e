/-! Syntax trees of source files.  A tree has named nodes, each of a kind and perhaps playing a
labelled role in its parent, and the bare tokens between them.  A place where the text does not fit
the grammar is an error node, and a token that had to be supposed is a missing node. -/

namespace RepoDocs.Grammar

/-- What a node is.  The kinds that an outline depends on have constructors of their own. -/
inductive Kind where
  | token (text : String)
  | error
  | missing
  | comment
  | identifier
  | propertyIdentifier
  | stringLiteral
  | numberLiteral
  | trueLiteral
  | falseLiteral
  | nullLiteral
  | functionDeclaration
  | generatorFunctionDeclaration
  | functionExpression
  | generatorFunction
  | arrowFunction
  | methodDefinition
  | classDeclaration
  | abstractClassDeclaration
  | fieldDefinition
  | publicFieldDefinition
  | variableDeclarator
  | importStatement
  | importClause
  | namespaceImport
  | namedImports
  | importSpecifier
  | exportStatement
  | objectPattern
  | arrayPattern
  | assignmentPattern
  | requiredParameter
  | optionalParameter
  | other (name : String)
  deriving DecidableEq, Repr, Inhabited

/-- Tokens are anonymous; every other node is named. -/
def Kind.isNamed : Kind → Bool
  | .token _ => false
  | _ => true

/-- The role of a node in its parent. -/
inductive Label where
  | name
  | body
  | parameters
  | parameter
  | value
  | left
  | right
  | pattern
  | property
  | declaration
  | source
  | localName
  deriving DecidableEq, Repr

/-- A node with the rows, counted from 0, of its first and last character, its text if it is a leaf,
and its children from left to right. -/
structure Node where
  kind : Kind
  label : Option Label := none
  startRow : Nat
  endRow : Nat
  text : String := ""
  children : List Node := []
  deriving Inhabited

namespace Node

/-- The node in the role `l`, unless it has a role already. -/
def withLabel (l : Label) (n : Node) : Node :=
  { n with label := n.label <|> some l }

/-- A node over `children`, from the first row of the first to the last row of the last. -/
def spanning (kind : Kind) (row : Nat) (children : List Node) : Node :=
  { kind
    startRow := (children.head?.map Node.startRow).getD row
    endRow := (children.getLast?.map Node.endRow).getD row
    children }

/-- The node with `first` before its children, from the row where `first` starts. -/
def adopt (first n : Node) : Node :=
  { n with startRow := first.startRow, children := first :: n.children }

/-- The children that are not bare tokens. -/
def namedChildren (n : Node) : List Node :=
  n.children.filter (·.kind.isNamed)

/-- The first child in the role `l`. -/
def child? (n : Node) (l : Label) : Option Node :=
  n.children.find? (·.label = some l)

/-- Whether one of the children is the bare token `t`. -/
def hasToken (n : Node) (t : String) : Bool :=
  n.children.any (·.kind = .token t)

/-- Whether the node itself marks a fault. -/
def isFault (n : Node) : Bool :=
  n.kind = .error || n.kind = .missing

mutual

/-- Whether the node or anything below it is an error or a missing token. -/
def hasError : Node → Bool
  | ⟨kind, _, _, _, _, children⟩ => kind = .error || kind = .missing || anyError children

/-- Whether one of the trees has an error. -/
def anyError : List Node → Bool
  | [] => false
  | n :: rest => hasError n || anyError rest

end

mutual

/-- The number of nodes of a tree. -/
def count : Node → Nat
  | ⟨_, _, _, _, _, children⟩ => 1 + countAll children

/-- The number of nodes of a forest. -/
def countAll : List Node → Nat
  | [] => 0
  | n :: rest => count n + countAll rest

end

theorem countAll_append (a b : List Node) : countAll (a ++ b) = countAll a + countAll b := by
  induction a with
  | nil => simp [countAll]
  | cons n a ih => simp [countAll, ih]; omega

theorem countAll_filter_le (p : Node → Bool) (ns : List Node) :
    countAll (ns.filter p) ≤ countAll ns := by
  induction ns with
  | nil => simp
  | cons n ns ih =>
    by_cases h : p n
    · simp [h, countAll]; omega
    · simp [h, countAll]; omega

theorem countAll_cons_eq (n : Node) (rest : List Node) :
    countAll (n :: rest) = 1 + countAll n.children + countAll rest := by
  cases n; simp [countAll, count]

/-- The children that have an error, in order. -/
def suspects (n : Node) : List Node :=
  n.children.filter hasError

/-- The row of the first fault that a search of the pending trees meets.  The search takes the first
pending tree and goes on with those of its children that have an error. -/
def firstFaultRow? : List Node → Option Nat
  | [] => none
  | n :: pending => if n.isFault then some n.startRow else firstFaultRow? (n.suspects ++ pending)
termination_by pending => countAll pending
decreasing_by
  have h := countAll_filter_le hasError n.children
  rw [countAll_append, countAll_cons_eq, suspects]
  omega

/-- The line, counted from 1, of the first fault of a tree, and 0 for a tree without one. -/
def firstErrorLine (root : Node) : Nat :=
  match firstFaultRow? [root] with
  | some row => row + 1
  | none => 0

end Node

end RepoDocs.Grammar
