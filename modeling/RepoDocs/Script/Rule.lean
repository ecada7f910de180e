import RepoDocs.Script.LineEnd

/-! The dialects of script files, the names of the grammar's rules, and the terminals that the rules
are made of. -/

namespace RepoDocs.Script

open RepoDocs.Grammar

/-- The language of a script file. -/
inductive Dialect where
  | javascript
  | typescript
  | tsx
  deriving DecidableEq, Repr

/-- Whether the dialect has type annotations. -/
def Dialect.typed : Dialect → Bool
  | .javascript => false
  | _ => true

/-- Whether the dialect has markup elements in expressions. -/
def Dialect.markup : Dialect → Bool
  | .typescript => false
  | _ => true

/-- Where an expression stands. -/
structure Place where
  /-- A statement may end behind the expression. -/
  ends : Bool := false
  /-- `in` is not an operator here but ends the expression. -/
  noIn : Bool := false
  /-- The parameters of an arrow function are not followed by a return type here. -/
  noReturnType : Bool := false
  deriving DecidableEq, Hashable

/-- Inside brackets of any kind. -/
def Place.inside : Place := {}

/-- At the end of a statement. -/
def Place.closing : Place := { ends := true }

/-- The rules of the grammar. -/
inductive Rule where
  | program
  | statement (inSwitch : Bool)
  | block
  | expressions (p : Place)
  | expression (p : Place)
  | combined (p : Place)
  | operand (p : Place)
  | assignment (p : Place)
  | postfixed (p : Place)
  | primary (p : Place)
  | arrow (p : Place)
  | newExpression (p : Place)
  | parenthesized
  | arguments
  | object
  | array
  | template
  | pattern
  | objectPattern
  | arrayPattern
  | parameters
  | signature
  | functionExpression (p : Place)
  | classExpression
  | classBody
  | method
  | propertyName
  | decorator
  | element
  | typed (ends : Bool)
  | typeOperand (ends : Bool)
  | typePrimary (ends : Bool)
  | typeArguments
  | typeParameters
  | objectType
  | returnType (ends : Bool)
  | declaration
  | variableDeclarator (p : Place)
  deriving DecidableEq, Hashable

/-- A pattern of the grammar. -/
abbrev Syn := Pattern Rule

/-! ### Terminals -/

/-- The leaf over the next `n` characters. -/
def leafOf (kind : String → Kind) (n : Nat) (c : Cursor) : Found :=
  let text := String.ofList (c.rest.take n)
  let next := c.advance n
  ([{ kind := kind text, startRow := c.row, endRow := next.row, text }], next)

/-- A leaf that starts right here. -/
def immediate (kind : Kind) (length : List Char → Nat) : Syn :=
  .read fun c =>
    match length c.rest with
    | 0 => none
    | n => some (leafOf (fun _ => kind) n c)

/-- A leaf behind blanks and comments. -/
def lexeme (kind : Kind) (length : List Char → Nat) : Syn :=
  .read fun c =>
    let c := skipTrivia c
    match length c.rest with
    | 0 => none
    | n => some (leafOf (fun _ => kind) n c)

/-- The bare token `t`, right here. -/
def immediateMark (t : String) : Syn :=
  .read fun c =>
    if t.toList.isPrefixOf c.rest then some (leafOf .token t.length c) else none

/-- The bare token `t`, whatever follows it. -/
def mark (t : String) : Syn :=
  .read fun c =>
    let c := skipTrivia c
    if t.toList.isPrefixOf c.rest then some (leafOf .token t.length c) else none

/-- One of the operators `ts`, when it is the longest operator that stands here. -/
def operator (ts : List String) : Syn :=
  .read fun c =>
    let c := skipTrivia c
    match operatorAt c.rest with
    | some t => if ts.contains t then some (leafOf .token t.length c) else none
    | none => none

/-- One of the keywords `ws`. -/
def keyword (ws : List String) : Syn :=
  .read fun c =>
    let c := skipTrivia c
    let n := wordLength c.rest
    if n == 0 then none
    else if ws.contains (String.ofList (c.rest.take n)) then some (leafOf .token n c)
    else none

/-- The keyword `w`. -/
def word (w : String) : Syn := keyword [w]

/-- A word that is none of the `reserved` ones. -/
def nameBut (kind : Kind) (reserved : List String) : Syn :=
  .read fun c =>
    let c := skipTrivia c
    let n := wordLength c.rest
    if n == 0 then none
    else if reserved.contains (String.ofList (c.rest.take n)) then none
    else some (leafOf (fun _ => kind) n c)

/-- Any word, as an identifier. -/
def anyName : Syn := nameBut .identifier []

/-- Any word, as the name of a property. -/
def anyPropertyName : Syn := nameBut .propertyIdentifier []

def privateName : Syn := lexeme (.other "private_property_identifier") privateNameLength

def quoted : Syn := lexeme .stringLiteral quotedLength

def number : Syn := lexeme .numberLiteral numberLength

/-- The end of a statement that lacks its semicolon: an empty token where the statement ends. -/
def lineEnd (e : LineEnd) : Syn :=
  .read fun c => (e.place? c).map (leafOf .token 0)

/-- Where a new line may start a new statement, it does: nothing goes on across it. -/
def goesOn (d : Dialect) (p : Place) : Syn :=
  if p.ends then .notAhead (lineEnd { typed := d.typed, afterOperand := true }) else .nothing

/-- The end of a statement behind an operand. -/
def semicolon (d : Dialect) : Syn :=
  .oneOf [lineEnd { typed := d.typed, afterOperand := true }, mark ";"]

/-- The end of a statement where no operator could follow. -/
def bareSemicolon (d : Dialect) : Syn :=
  .oneOf [lineEnd { typed := d.typed, afterOperand := false }, mark ";"]

/-- The end of the line behind a body, which belongs to the body if a statement may end there. -/
def bodyEnd (d : Dialect) : Syn :=
  .opt (lineEnd { typed := d.typed, afterOperand := true })

def openBrace : Syn := mark "\x7b"

def closeBrace : Syn := mark "\x7d"

/-- Items with commas between them; any of them may be left out. -/
def sparse (item : Syn) : Syn :=
  .seq [.opt item, .many (.seq [mark ",", .opt item])]

/-- The words that cannot be identifiers at the start of an operand. -/
def operandKeywords : List String :=
  ["function", "class", "new", "this", "super", "true", "false", "null", "undefined", "import",
    "typeof", "void", "delete", "await", "yield"]

end RepoDocs.Script
