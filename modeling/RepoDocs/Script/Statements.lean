import RepoDocs.Script.Expressions

/-! The rules for statements and declarations. -/

namespace RepoDocs.Script

open RepoDocs.Grammar

namespace Statements

open Expressions (expression expressions)

def statement : Syn := .rule (.statement false)

def condition : Syn := .rule .parenthesized

/-- A name or pattern that a declaration binds. -/
def binding : Syn := .oneOf [.rule .objectPattern, .rule .arrayPattern, anyName]

/-- One variable with its type and initial value. -/
def declarator (d : Dialect) (p : Place) : Syn :=
  let initial : Syn := .opt (.seq [operator ["="], .label .value (expression p)])
  if d.typed then
    .oneOf [
      .node .variableDeclarator (.seq [.label .name anyName, mark "!", Types.ascription true]),
      .node .variableDeclarator (.seq [.label .name binding, .opt (Types.ascription p.ends),
        initial])]
  else .node .variableDeclarator (.seq [.label .name binding, initial])

/-- The word that starts a lexical declaration; `let` may also be a name, and is one where the line
ends behind it. -/
def lexicalWord (d : Dialect) : Syn :=
  .oneOf [
    word "const",
    .seq [word "let", .notAhead (lineEnd { typed := d.typed, afterOperand := true })]]

/-- Variables declared with commas between them. -/
def declarators (p : Place) : Syn :=
  .sepBy1 (mark ",") (.rule (.variableDeclarator p))

def lexicalDeclaration (d : Dialect) : Syn :=
  .node (.other "lexical_declaration") (.seq [lexicalWord d, declarators .closing, semicolon d])

def variableDeclaration (d : Dialect) : Syn :=
  .node (.other "variable_declaration") (.seq [word "var", declarators .closing, semicolon d])

/-- A function declaration, or in typed dialects its signature alone. -/
def functionDeclaration (d : Dialect) : Syn :=
  let start : Syn := .seq [.opt (.seq [word "async",
    .notAhead (lineEnd { typed := d.typed, afterOperand := true })]), word "function"]
  let header : Syn := .seq [.label .name anyName, Expressions.signature d]
  .oneOf [
    .node .generatorFunctionDeclaration (.seq [start, mark "*", header,
      .label .body (.rule .block)]),
    .node .functionDeclaration (.seq [start, header, .label .body (.rule .block)]),
    .when d.typed (.node (.other "function_signature") (.seq [start, .label .name anyName,
      Expressions.signature d true,
      .oneOf [lineEnd { typed := true, afterOperand := false, afterHeader := true }, mark ";"]]))]

/-- A class declaration. -/
def classDeclaration (d : Dialect) : Syn :=
  .oneOf [
    .node .classDeclaration (.seq [.many (.rule .decorator), word "class",
      Expressions.classRest d true, bodyEnd d]),
    .when d.typed (.node .abstractClassDeclaration (.seq [.many (.rule .decorator),
      word "abstract", word "class", Expressions.classRest d true]))]

/-- A module or namespace with its body. -/
def moduleDeclaration (d : Dialect) : Syn :=
  .node (.other "internal_module") (.seq [keyword ["namespace", "module"],
    .notAhead (lineEnd { typed := d.typed, afterOperand := true }),
    .label .name (.oneOf [quoted, Types.dotted anyName]), .opt (.label .body (.rule .block))])

/-- A type alias. -/
def typeAlias (d : Dialect) : Syn :=
  .node (.other "type_alias_declaration") (.seq [word "type",
    .notAhead (lineEnd { typed := d.typed, afterOperand := true }),
    .label .name (nameBut (.other "type_identifier") []), .opt (.rule .typeParameters),
    operator ["="], .label .value (Types.typed true), bareSemicolon d])

/-- A list of names with initial values, in braces. -/
def enumDeclaration : Syn :=
  let item : Syn := .oneOf [
    .node (.other "enum_assignment") (.seq [.label .name (.rule .propertyName), operator ["="],
      .label .value (expression .inside)]),
    .label .name (.rule .propertyName)]
  .node (.other "enum_declaration") (.seq [.opt (word "const"), word "enum", .label .name anyName,
    .label .body (.node (.other "enum_body") (.seq [openBrace,
      .opt (.seq [.sepBy1 (mark ",") item, .opt (mark ",")]), closeBrace]))])

def interfaceDeclaration : Syn :=
  let extended : Syn := .seq [Types.dotted (nameBut (.other "type_identifier") []),
    .opt (.rule .typeArguments)]
  .node (.other "interface_declaration") (.seq [word "interface",
    .label .name (nameBut (.other "type_identifier") []), .opt (.rule .typeParameters),
    .opt (.seq [word "extends", .sepBy1 (mark ",") extended]), .label .body (.rule .objectType)])

/-- Another name for a member of a namespace. -/
def importAlias (d : Dialect) : Syn :=
  .node (.other "import_alias") (.seq [word "import", anyName, operator ["="],
    .notAhead (.seq [word "require", mark "("]), Types.dotted anyName, semicolon d])

/-- A declaration of something defined elsewhere. -/
def ambientDeclaration (d : Dialect) : Syn :=
  .node (.other "ambient_declaration") (.seq [word "declare",
    .notAhead (lineEnd { typed := d.typed, afterOperand := true }),
    .oneOf [
      .rule .declaration,
      .seq [word "global", .rule .block],
      .seq [word "module", mark ".", anyPropertyName, mark ":", Types.typed true,
        bareSemicolon d]]])

/-- The declarations. -/
def declaration (d : Dialect) : Syn :=
  .oneOf [
    functionDeclaration d,
    classDeclaration d,
    .when d.typed enumDeclaration,
    lexicalDeclaration d,
    variableDeclaration d,
    .when d.typed (.oneOf [
      interfaceDeclaration,
      typeAlias d,
      ambientDeclaration d,
      moduleDeclaration d,
      importAlias d])]

/-! ### Imports and exports -/

/-- The name of an export: a word or a string. -/
def exportedName : Syn := .oneOf [anyName, quoted]

/-- `type` or `typeof` before what is imported or exported, when something is. -/
def typeOnly (d : Dialect) : Syn :=
  .whenOrNothing d.typed (.opt (.seq [keyword ["type", "typeof"],
    .notAhead (.oneOf [mark ",", closeBrace, word "from", operator ["="],
      .seq [word "as", .notAhead (.oneOf [word "as", mark ",", closeBrace])]])]))

/-- The module that names come from. -/
def fromClause : Syn := .seq [word "from", .label .source quoted]

def attributes : Syn :=
  .opt (.node (.other "import_attribute") (.seq [keyword ["with", "assert"], .rule .object]))

/-- Imported names in braces. -/
def namedImports (d : Dialect) : Syn :=
  let one : Syn := .node .importSpecifier (.seq [typeOnly d, .oneOf [
    .seq [.label .name exportedName, word "as", .label .localName anyName],
    .label .name anyName]])
  .node .namedImports (.seq [openBrace,
    .opt (.seq [.sepBy1 (mark ",") one, .opt (mark ",")]), closeBrace])

/-- What an import binds. -/
def importClause (d : Dialect) : Syn :=
  let many : Syn := .oneOf [
    .node .namespaceImport (.seq [mark "*", word "as", anyName]),
    namedImports d]
  .node .importClause (.oneOf [many, .seq [anyName, .opt (.seq [mark ",", many])]])

def importStatement (d : Dialect) : Syn :=
  let required : Syn := .node (.other "import_require_clause") (.seq [anyName, operator ["="],
    word "require", mark "(", .label .source quoted, mark ")"])
  let kindWord : Syn :=
    .whenOrNothing d.typed (.opt (.seq [keyword ["type", "typeof"],
      .notAhead (.oneOf [mark ",", operator ["="], .seq [word "from", .notAhead (word "from")]])]))
  .node .importStatement (.seq [word "import", kindWord, .oneOf [
      .seq [importClause d, fromClause],
      .when d.typed required,
      .label .source quoted],
    attributes, bareSemicolon d])

/-- Exported names in braces. -/
def exportClause (d : Dialect) : Syn :=
  let one : Syn := .node (.other "export_specifier") (.seq [typeOnly d,
    .label .name exportedName, .opt (.seq [word "as", .label .localName exportedName])])
  .node (.other "export_clause") (.seq [openBrace,
    .opt (.seq [.sepBy1 (mark ",") one, .opt (mark ",")]), closeBrace])

def exportStatement (d : Dialect) : Syn :=
  let start : Syn := .seq [word "export",
    .notAhead (lineEnd { typed := d.typed, afterOperand := true })]
  .oneOf [
    .node .exportStatement (.seq [start, .oneOf [
        .seq [mark "*", fromClause],
        .seq [mark "*", word "as", exportedName, fromClause],
        .seq [exportClause d, fromClause],
        exportClause d],
      .whenOrNothing d.typed attributes, bareSemicolon d]),
    .when d.typed (.oneOf [
      .node .exportStatement (.seq [start, word "type", exportClause d, .opt fromClause,
        bareSemicolon d]),
      .node .exportStatement (.seq [start, operator ["="], expression .closing, semicolon d]),
      .node .exportStatement (.seq [start, word "as", word "namespace", anyName, bareSemicolon d]),
      .node .exportStatement (.seq [start, .ahead (word "import"), importAlias d])]),
    .node .exportStatement (.seq [.many (.rule .decorator), start, .oneOf [
      .seq [word "default", .oneOf [
        .label .declaration (.rule .declaration),
        .seq [.label .value (expression .closing), semicolon d]]],
      .label .declaration (.rule .declaration)]])]

/-! ### Control flow -/

def block (d : Dialect) : Syn :=
  .node (.other "statement_block") (.seq [openBrace, .many statement, closeBrace, bodyEnd d])

/-- What stands in the parentheses of a loop over the members of something. -/
def loopHeader : Syn :=
  let noIn : Place := { noIn := true }
  let members : Syn := .seq [keyword ["in", "of"], .label .right (expressions .inside), mark ")"]
  .seq [mark "(", .oneOf [
    .seq [word "var", .label .left binding, .opt (.seq [operator ["="], expression noIn]), members],
    .seq [keyword ["let", "const"], .label .left binding, members],
    .seq [.label .left (.oneOf [.rule .objectPattern, .rule .arrayPattern]), members],
    .seq [.label .left (.only Expressions.isTarget (.rule (.postfixed .inside))), members]]]

def forStatement (d : Dialect) : Syn :=
  let condition : Syn := .oneOf [mark ";", .seq [expressions .inside, mark ";"]]
  .oneOf [
    .node (.other "for_in_statement") (.seq [word "for", .opt (word "await"), loopHeader,
      .label .body statement]),
    .node (.other "for_statement") (.seq [word "for", mark "(", .oneOf [
        lexicalDeclaration d,
        variableDeclaration d,
        condition],
      condition, .opt (expressions .inside), mark ")", .label .body statement])]

def switchBody : Syn :=
  let statements : Syn := .many (.rule (.statement true))
  .node (.other "switch_body") (.seq [openBrace,
    .many (.oneOf [
      .node (.other "switch_case") (.seq [word "case", .label .value (expressions .inside),
        mark ":", statements]),
      .node (.other "switch_default") (.seq [word "default", mark ":", statements])]),
    closeBrace])

def tryStatement (d : Dialect) : Syn :=
  let caught : Syn := .seq [mark "(", binding, .whenOrNothing d.typed (.opt Types.ascription),
    mark ")"]
  .node (.other "try_statement") (.seq [word "try", .label .body (.rule .block),
    .opt (.node (.other "catch_clause") (.seq [word "catch", .opt caught,
      .label .body (.rule .block)])),
    .opt (.node (.other "finally_clause") (.seq [word "finally", .label .body (.rule .block)]))])

/-- The words that start statements of their own, so that no expression starts with them. -/
def statementKeywords (d : Dialect) (inSwitch : Bool) : List String :=
  ["if", "for", "while", "do", "switch", "try", "with", "break", "continue", "debugger", "return",
    "throw", "var", "const"] ++
    (if inSwitch then ["case", "default"] else []) ++
    (if d.typed then ["enum", "interface", "abstract"] else [])

/-- A comment of the old markup kind between statements. -/
def markupComment : Syn :=
  .read fun c =>
    let c := skipTrivia c
    match markupCommentLength c.rest with
    | 0 => none
    | n => some ([], c.advance n)

def anyStatement (d : Dialect) (inSwitch : Bool) : Syn :=
  let label : Syn := nameBut (.other "statement_identifier") (statementKeywords d inSwitch)
  let jump (kind w : String) : Syn :=
    .node (.other kind) (.seq [word w,
      .notAhead (lineEnd { typed := d.typed, afterOperand := false }),
      .opt (nameBut (.other "statement_identifier") []), bareSemicolon d])
  let plainJump (kind w : String) : Syn :=
    .node (.other kind) (.seq [word w, bareSemicolon d])
  .seq [.many markupComment, .oneOf [
    .node (.other "empty_statement") (mark ";"),
    .rule .block,
    exportStatement d,
    importStatement d,
    .rule .declaration,
    .node (.other "if_statement") (.seq [word "if", condition, statement,
      .opt (.node (.other "else_clause") (.seq [word "else", statement]))]),
    forStatement d,
    .node (.other "while_statement") (.seq [word "while", condition, .label .body statement]),
    .node (.other "do_statement") (.seq [word "do", .label .body statement, word "while", condition,
      .opt (semicolon d)]),
    .node (.other "switch_statement") (.seq [word "switch", condition, .label .body switchBody]),
    tryStatement d,
    .node (.other "with_statement") (.seq [word "with", condition, .label .body statement]),
    .node (.other "return_statement") (.seq [word "return", .oneOf [
      bareSemicolon d,
      .seq [expressions .closing, semicolon d]]]),
    .node (.other "throw_statement") (.seq [word "throw", expressions .closing, semicolon d]),
    .oneOf [plainJump "break_statement" "break", jump "break_statement" "break"],
    .oneOf [plainJump "continue_statement" "continue", jump "continue_statement" "continue"],
    plainJump "debugger_statement" "debugger",
    .node (.other "labeled_statement") (.seq [label, mark ":", .label .body statement]),
    .node (.other "expression_statement") (.seq [
      .notAhead (keyword (statementKeywords d inSwitch)), expressions .closing, semicolon d])]]

/-- A whole file: perhaps a line that names its interpreter, and statements. -/
def program : Syn :=
  let interpreterLine (s : List Char) : Nat :=
    match s with
    | '#' :: '!' :: _ => spanLength (· != '\n') s
    | _ => 0
  .seq [.opt (lexeme (.other "hash_bang_line") interpreterLine), .many statement,
    .many markupComment]

end Statements

/-- The grammar of a dialect. -/
def rules (d : Dialect) : Rule → Syn
  | .program => Statements.program
  | .statement inSwitch => Statements.anyStatement d inSwitch
  | .block => Statements.block d
  | .expressions p => Expressions.list d p
  | .expression p => Expressions.whole d p
  | .combined p => Expressions.combined d p
  | .operand p => Expressions.operand d p
  | .assignment p => Expressions.assignment d p
  | .postfixed p => Expressions.postfixed d p
  | .primary p => Expressions.primary d p
  | .arrow p => Expressions.arrow d p
  | .newExpression p => Expressions.newExpression d p
  | .parenthesized => Expressions.parenthesized d
  | .arguments => Expressions.arguments
  | .object => Expressions.object
  | .array => Expressions.array
  | .template => Expressions.template
  | .pattern => Expressions.pattern
  | .objectPattern => Expressions.objectPattern
  | .arrayPattern => Expressions.arrayPattern
  | .parameters => Expressions.parameters d
  | .signature => Expressions.signature d
  | .functionExpression p => Expressions.functionExpression d p
  | .classExpression => Expressions.classExpression d
  | .classBody => Expressions.classBody d
  | .method => Expressions.method d
  | .propertyName => Expressions.propertyName
  | .decorator => Expressions.decorator d
  | .element => Expressions.element d
  | .typed ends => Types.type ends
  | .typeOperand ends => Types.operand ends
  | .typePrimary ends => Types.primary ends
  | .typeArguments => Types.arguments
  | .typeParameters => Types.parameters
  | .objectType => Types.object
  | .returnType ends => Types.returnType ends
  | .declaration => Statements.declaration d
  | .variableDeclarator p => Statements.declarator d p

/-- The syntax tree of a file on which the grammar came so far.  Where the text stops fitting the
grammar the tree ends with an error node, in the row of the last place that a reader of the text
reached. -/
def treeOf (attempt : Grammar.Attempt) : Node :=
  match attempt.found with
  | some (nodes, c) =>
    if (skipTrivia c).rest.isEmpty then Node.spanning (.other "program") 0 nodes
    else
      let row := attempt.furthestRow
      Node.spanning (.other "program") 0 (nodes ++ [{ kind := .error, startRow := row, endRow := row }])
  | none => { kind := .error, startRow := 0, endRow := 0 }

/-- The syntax tree of a file. -/
def parse (d : Dialect) (source : String) : Node :=
  treeOf (Grammar.parse (rules d) skipTrivia .program source.toList)

end RepoDocs.Script
