import RepoDocs.Script.Types

/-! The rules for expressions and patterns. -/

namespace RepoDocs.Script

open RepoDocs.Grammar

namespace Expressions

def expression (p : Place) : Syn := .rule (.expression p)

def expressions (p : Place) : Syn := .rule (.expressions p)

/-- The operators between two operands, besides the words among them. -/
def binaryOperators : List String :=
  ["&&", "||", ">>", ">>>", "<<", "&", "^", "|", "+", "-", "*", "/", "%", "**", "<", "<=", "==",
    "===", "!=", "!==", ">=", ">", "??"]

/-- The operators that assign the value of an operation. -/
def assigningOperators : List String :=
  ["+=", "-=", "*=", "/=", "%=", "^=", "&=", "|=", ">>=", ">>>=", "<<=", "**=", "&&=", "||=", "??="]

/-- One expression, or several with commas between them. -/
def list (d : Dialect) (p : Place) : Syn :=
  .oneOf [
    .node (.other "sequence_expression") (.seq [expression p, goesOn d p, mark ",", expression p,
      .many (.seq [goesOn d p, mark ",", expression p])]),
    expression p]

/-- The question mark of a condition: not the start of another operator, nor, with annotations, of
an optional parameter's type. -/
def questionMark (d : Dialect) : Syn :=
  .read fun c =>
    let c := skipTrivia c
    let isCondition : Bool :=
      match c.rest with
      | '?' :: '?' :: _ => false
      | '?' :: '.' :: r => !d.typed && (r.head?.map Char.isDigit).getD false
      | '?' :: r =>
        if d.typed then
          match r.dropWhile isAsciiBlank with
          | ':' :: _ | ')' :: _ | ',' :: _ => false
          | _ => true
        else true
      | _ => false
    if isCondition then some (leafOf .token 1 c) else none

/-- An expression: operands joined by operators, and perhaps a choice that depends on them. -/
def whole (d : Dialect) (p : Place) : Syn :=
  let choice (p' : Place) : Syn :=
    .node (.other "ternary_expression") (.seq [.rule (.combined p), goesOn d p, questionMark d,
      expression p', mark ":", expression p])
  .oneOf [
    choice .inside,
    .when d.typed (choice { noReturnType := true }),
    .rule (.combined p)]

/-- Operands joined by operators. -/
def combined (d : Dialect) (p : Place) : Syn :=
  let words := if p.noIn then ["instanceof"] else ["instanceof", "in"]
  let tail : Syn := .seq [goesOn d p, .oneOf [
    .seq [.oneOf [operator binaryOperators, keyword words], .rule (.operand p)],
    .when d.typed (.seq [keyword ["as", "satisfies"], Types.typed p.ends])]]
  let first : Syn := .oneOf [.seq [privateName, .ahead (word "in")], .rule (.operand p)]
  .oneOf [.node (.other "binary_expression") (.seq [first, tail, .many tail]), .rule (.operand p)]

/-- The kinds of expression that may stand to the left of an assignment, besides patterns. -/
def isTarget (n : Node) : Bool :=
  n.kind = .identifier || n.kind = .other "undefined" || n.kind = .other "member_expression" ||
    n.kind = .other "subscript_expression" || n.kind = .other "parenthesized_expression" ||
    n.kind = .other "non_null_expression"

/-- The same without parentheses, which patterns do not have. -/
def isPlainTarget (n : Node) : Bool :=
  isTarget n && n.kind ≠ .other "parenthesized_expression"

/-- One operand with the operators before and behind it. -/
def operand (d : Dialect) (p : Place) : Syn :=
  let argument : Syn := .rule (.operand p)
  .oneOf [
    .node (.other "unary_expression") (.seq [
      .oneOf [operator ["!", "~", "-", "+"], keyword ["typeof", "void", "delete"]], argument]),
    .node (.other "update_expression") (.seq [operator ["++", "--"], argument]),
    .node (.other "await_expression") (.seq [word "await", argument]),
    .node (.other "yield_expression") (.seq [word "yield", .oneOf [
      .seq [mark "*", expression p],
      .seq [goesOn d p, expression p],
      .nothing]]),
    .rule (.assignment p),
    .node (.other "update_expression") (.seq [.rule (.postfixed p), goesOn d p,
      operator ["++", "--"]]),
    .rule (.postfixed p),
    .when (d.typed && !d.markup)
      (.node (.other "type_assertion") (.seq [.rule .typeArguments, argument]))]

/-- An assignment, plain or by an operator. -/
def assignment (d : Dialect) (p : Place) : Syn :=
  .oneOf [
    .node (.other "assignment_expression") (.seq [
      .label .left (.oneOf [.rule .objectPattern, .rule .arrayPattern]), goesOn d p, operator ["="],
      .label .right (expression p)]),
    .node (.other "assignment_expression") (.seq [
      .label .left (.only isTarget (.rule (.postfixed p))), goesOn d p,
      operator ("=" :: assigningOperators), .label .right (expression p)])]

/-- What may start an operand, so that an angle bracket before it was a comparison. -/
def operandStart : Syn :=
  .oneOf [
    nameBut .identifier ["as", "satisfies", "instanceof", "in", "of", "extends", "implements"],
    number, quoted, mark "(", mark "[", mark "\x7b", mark "\x60", mark "/", operator ["!", "~", "-", "+",
      "++", "--"]]

/-- An operand with its accesses, calls and templates. -/
def postfixed (d : Dialect) (p : Place) : Syn :=
  let optionalDot : Syn := .seq [operator ["?."], .notAhead (.read fun c =>
    if (c.rest.head?.map Char.isDigit).getD false then some ([], c) else none)]
  let propertyKey : Syn := .label .property (.oneOf [privateName, anyPropertyName])
  let subscript : Syn := .seq [mark "[", expressions .inside, mark "]"]
  let typeArguments : Syn := if d.typed then .opt (.rule .typeArguments) else .nothing
  let step : Syn := .seq [goesOn d p, .oneOf [
    .node (.other "member_expression") (.seq [operator ["."], propertyKey]),
    .node (.other "member_expression") (.seq [optionalDot, propertyKey]),
    .node (.other "subscript_expression") (.seq [optionalDot, subscript]),
    .node (.other "subscript_expression") subscript,
    .node (.other "call_expression") (.seq [optionalDot, typeArguments, .rule .arguments]),
    .node (.other "call_expression") (.seq [typeArguments, .rule .arguments]),
    .node (.other "call_expression") (.seq [typeArguments, .rule .template]),
    .when d.typed (.node (.other "non_null_expression") (operator ["!"])),
    .when d.typed (.node (.other "instantiation_expression") (.seq [.rule .typeArguments,
      .notAhead operandStart]))]]
  .chain (.rule (.primary p)) step

/-- An operand without accesses. -/
def primary (d : Dialect) (p : Place) : Syn :=
  .oneOf [
    .rule (.arrow p),
    .rule .parenthesized,
    .rule .object,
    .rule .array,
    .rule .template,
    quoted,
    number,
    .when d.markup (.rule .element),
    lexeme (.other "regex") regexLength,
    .rule (.functionExpression p),
    .rule .classExpression,
    .rule (.newExpression p),
    .node (.other "meta_property") (.seq [word "import", operator ["."], word "meta"]),
    .seq [.node (.other "import") (word "import"), .ahead (.oneOf [mark "(", operator ["."]])],
    .node (.other "this") (word "this"),
    .node (.other "super") (word "super"),
    nameLiteral .trueLiteral "true",
    nameLiteral .falseLiteral "false",
    nameLiteral .nullLiteral "null",
    nameLiteral (.other "undefined") "undefined",
    nameBut .identifier operandKeywords]
where
  nameLiteral (kind : Kind) (w : String) : Syn :=
    .seq [.ahead (word w), nameBut kind []]

/-- The constructor after `new`, with its arguments. -/
def newExpression (d : Dialect) (p : Place) : Syn :=
  let step : Syn := .oneOf [
    .node (.other "member_expression") (.seq [operator [".", "?."],
      .label .property (.oneOf [privateName, anyPropertyName])]),
    .node (.other "subscript_expression") (.seq [mark "[", expressions .inside, mark "]"]),
    .when d.typed (.node (.other "non_null_expression") (operator ["!"])),
    .node (.other "call_expression") (.rule .template)]
  let typeArguments : Syn := if d.typed then .opt (.rule .typeArguments) else .nothing
  .oneOf [
    .node (.other "meta_property") (.seq [word "new", operator ["."], word "target"]),
    .node (.other "new_expression") (.seq [word "new",
      .chain (.rule (.primary { p with ends := false })) step,
      .oneOf [.seq [typeArguments, .rule .arguments], .seq [typeArguments, .notAhead operandStart],
        .nothing]])]

/-- Expressions in parentheses. -/
def parenthesized (d : Dialect) : Syn :=
  .node (.other "parenthesized_expression") (.seq [mark "(", expressions .inside,
    .whenOrNothing d.typed (.opt Types.ascription), mark ")"])

/-- The arguments of a call. -/
def arguments : Syn :=
  .node (.other "arguments") (.seq [mark "(",
    sparse (.oneOf [
      .node (.other "spread_element") (.seq [mark "...", expression .inside]),
      expression .inside]),
    mark ")"])

def array : Syn :=
  .node (.other "array") (.seq [mark "[",
    sparse (.oneOf [
      .node (.other "spread_element") (.seq [mark "...", expression .inside]),
      expression .inside]),
    mark "]"])

def object : Syn :=
  .node (.other "object") (.seq [openBrace,
    sparse (.oneOf [
      .node (.other "spread_element") (.seq [mark "...", expression .inside]),
      .rule .method,
      .node (.other "pair") (.seq [.label .name (.rule .propertyName), mark ":",
        .label .value (expression .inside)]),
      nameBut (.other "shorthand_property_identifier") []]),
    closeBrace])

/-- A template with its substitutions. -/
def template : Syn :=
  .node (.other "template_string") (.seq [mark "\x60",
    .many (.oneOf [
      immediate (.other "string_fragment") templateTextLength,
      immediate (.other "escape_sequence") escapeLength,
      .node (.other "template_substitution") (.seq [immediateMark "$\x7b", expressions .inside,
        closeBrace])]),
    immediateMark "\x60"])

/-! ### Patterns -/

/-- What one value can be bound or assigned to. -/
def target : Syn :=
  .oneOf [
    .rule .objectPattern,
    .rule .arrayPattern,
    .only isPlainTarget (.rule (.postfixed .inside))]

/-- What is left of several values. -/
def restPattern : Syn :=
  .node (.other "rest_pattern") (.seq [mark "...", target])

def pattern : Syn := .oneOf [restPattern, target]

/-- A pattern with or without a default. -/
def defaulted : Syn :=
  .oneOf [
    .node .assignmentPattern (.seq [.label .left (.rule .pattern), operator ["="],
      .label .right (expression .inside)]),
    .rule .pattern]

def arrayPattern : Syn :=
  .node .arrayPattern (.seq [mark "[", sparse defaulted, mark "]"])

def objectPattern : Syn :=
  let shorthand := nameBut (.other "shorthand_property_identifier_pattern") []
  .node .objectPattern (.seq [openBrace,
    sparse (.oneOf [
      restPattern,
      .node (.other "pair_pattern") (.seq [.rule .propertyName, mark ":", defaulted]),
      .node (.other "object_assignment_pattern") (.seq [
        .oneOf [.rule .objectPattern, .rule .arrayPattern, shorthand], operator ["="],
        expression .inside]),
      shorthand]),
    closeBrace])

/-! ### Functions -/

/-- One parameter. -/
def parameter (d : Dialect) : Syn :=
  if d.typed then
    let bound : Syn := .label .pattern (.oneOf [.seq [.node (.other "this") (word "this")],
      .rule .pattern])
    let modifierWord (ws : List String) : Syn :=
      .seq [keyword ws, .notAhead (.oneOf [mark ",", mark ")", mark "=", mark ":", mark "?"])]
    let name : Syn := .seq [.many (.rule .decorator),
      .opt (modifierWord ["public", "private", "protected"]), .opt (modifierWord ["override"]),
      .opt (modifierWord ["readonly"]), bound]
    let rest : Syn := .seq [.opt Types.ascription,
      .opt (.seq [operator ["="], .label .value (expression .inside)])]
    .oneOf [
      .node .optionalParameter (.seq [name, mark "?", rest]),
      .node .requiredParameter (.seq [name, rest])]
  else defaulted

/-- Parameters in parentheses. -/
def parameters (d : Dialect) : Syn :=
  .node (.other "formal_parameters") (.seq [mark "(",
    .opt (.seq [.sepBy1 (mark ",") (parameter d), .opt (mark ",")]), mark ")"])

/-- What stands between the name and the body of a function. -/
def signature (d : Dialect) (ends : Bool := false) : Syn :=
  .seq [.whenOrNothing d.typed (.opt (.rule .typeParameters)), .label .parameters (.rule .parameters),
    .whenOrNothing d.typed (.opt (.rule (.returnType ends)))]

/-- An arrow function. -/
def arrow (d : Dialect) (p : Place) : Syn :=
  let body : Syn := .label .body (.oneOf [
    .rule .block, expression p])
  let reserved := operandKeywords.filter fun w => w ≠ "undefined"
  let head : Syn := .oneOf [
    .label .parameter (nameBut .identifier ("async" :: "undefined" :: reserved)),
    .label .parameter (.seq [.ahead (word "async"), anyName]),
    .seq [.whenOrNothing d.typed (.opt (.rule .typeParameters)), .label .parameters (.rule .parameters),
      .whenOrNothing (d.typed && !p.noReturnType) (.opt (.rule (.returnType false)))]]
  .node .arrowFunction (.oneOf [
    .seq [word "async", goesOn d p, head, operator ["=>"], body],
    .seq [head, operator ["=>"], body]])

/-- A function without a place in a declaration. -/
def functionExpression (d : Dialect) (p : Place) : Syn :=
  let start : Syn := .seq [.opt (.seq [word "async", goesOn d p]), word "function"]
  .oneOf [
    .node .generatorFunction (.seq [start, mark "*", .opt (.label .name anyName), signature d,
      .label .body (.rule .block)]),
    .node .functionExpression (.seq [start, .opt (.label .name anyName), signature d,
      .label .body (.rule .block)])]

/-! ### Classes -/

/-- The words that follow the name of a class. -/
def heritageWords (d : Dialect) : List String :=
  if d.typed then ["extends", "implements"] else ["extends"]

/-- What a class extends and implements. -/
def heritage (d : Dialect) : Syn :=
  if d.typed then
    let plain : Syn := .seq [.rule (.postfixed .inside), .opt (.rule .typeArguments),
      .ahead (.oneOf [openBrace, mark ",", word "implements"])]
    let extended : Syn := .oneOf [plain, .seq [expression .inside, .opt (.rule .typeArguments)]]
    let implemented : Syn := .seq [word "implements", .sepBy1 (mark ",") Types.typed]
    .oneOf [
      .seq [word "extends", .sepBy1 (mark ",") extended, .opt implemented],
      implemented]
  else .seq [word "extends", expression .inside]

/-- The name, type parameters, heritage and body of a class. -/
def classRest (d : Dialect) (named : Bool) : Syn :=
  let kind : Kind := if d.typed then .other "type_identifier" else .identifier
  let name : Syn := .label .name (nameBut kind (heritageWords d))
  .seq [if named then name else .opt name, .whenOrNothing d.typed (.opt (.rule .typeParameters)),
    .opt (.node (.other "class_heritage") (heritage d)), .label .body (.rule .classBody)]

def classExpression (d : Dialect) : Syn :=
  .node (.other "class") (.seq [.many (.rule .decorator), word "class", classRest d false])

/-- A decorator: a name with its accesses, and perhaps a call. -/
def decorator (d : Dialect) : Syn :=
  let named : Syn := .chain anyName (.node (.other "member_expression") (.seq [operator ["."],
    .label .property anyPropertyName]))
  let typeArguments : Syn := if d.typed then .opt (.rule .typeArguments) else .nothing
  let target : Syn := .seq [named, .opt (.seq [typeArguments, .rule .arguments])]
  .node (.other "decorator") (.seq [mark "@", .oneOf [
    target,
    .when d.typed (.seq [mark "(", target, mark ")"])]])

/-- The name of a property or method. -/
def propertyName : Syn :=
  .oneOf [
    anyPropertyName,
    privateName,
    quoted,
    number,
    .node (.other "computed_property_name") (.seq [mark "[", expression .inside, mark "]"])]

/-- A word before the name of a member, when a name does follow it. -/
def modifier (d : Dialect) (ws : List String) : Syn :=
  .seq [keyword ws, .notAhead Types.nameEnds,
    .notAhead (lineEnd { typed := d.typed, afterOperand := false })]

/-- A method with its body. -/
def method (d : Dialect) : Syn :=
  let accessor : Syn := .oneOf [modifier d ["get", "set"], mark "*"]
  let body : Syn := .label .body (.rule .block)
  if d.typed then
    .node .methodDefinition (.seq [
      .opt (modifier d ["public", "private", "protected"]), .opt (modifier d ["static"]),
      .opt (modifier d ["override"]), .opt (modifier d ["readonly"]), .opt (modifier d ["async"]),
      .opt accessor, .label .name (.rule .propertyName), .opt (mark "?"), signature d, body])
  else
    let staticGet : Syn := .seq [.ahead (.seq [word "static", word "get"]), word "static",
      word "get"]
    .node .methodDefinition (.seq [.many (.rule .decorator),
      .oneOf [
        .seq [.opt (modifier d ["static"]), .opt (modifier d ["async"]), .opt accessor,
          .label .name (.rule .propertyName), signature d],
        .seq [staticGet, .label .name (.rule .propertyName), signature d]],
      body])

/-- A static block of a class. -/
def staticBlock : Syn :=
  .node (.other "class_static_block") (.seq [word "static", .label .body (.rule .block)])

/-- The members of a class, in braces. -/
def classBody (d : Dialect) : Syn :=
  let ending : Syn := semicolon d
  let bareEnding : Syn := bareSemicolon d
  let plainField (head : Syn) : Syn :=
    .oneOf [
      .seq [.node .fieldDefinition (.seq [head, operator ["="], .label .value (expression .closing)]),
        ending],
      .seq [.node .fieldDefinition head, bareEnding]]
  if d.typed then
    let comma : Syn := mark ","
    let access : Syn := modifier d ["public", "private", "protected"]
    let flags : Syn := .seq [.opt (modifier d ["static"]), .opt (modifier d ["override"]),
      .opt (modifier d ["abstract"]), .opt (modifier d ["readonly"]), .opt (modifier d ["abstract"]),
      .opt (modifier d ["accessor"])]
    let fieldHead : Syn := .seq [.many (.rule .decorator),
      .opt (.oneOf [
        .seq [modifier d ["declare"], .opt access],
        .seq [access, .opt (modifier d ["declare"])]]),
      flags, .label .name (.rule .propertyName), .opt (operator ["?", "!"]),
      .opt (Types.ascription true)]
    let field : Syn := .oneOf [
      .seq [.node .publicFieldDefinition (.seq [fieldHead, operator ["="],
        .label .value (expression .closing)]), .oneOf [ending, comma]],
      .seq [.node .publicFieldDefinition fieldHead, .oneOf [bareEnding, comma]]]
    let abstractMethod : Syn := .node (.other "abstract_method_signature") (.seq [.opt access,
      modifier d ["abstract"], .opt (modifier d ["override"]),
      .opt (.oneOf [modifier d ["get", "set"], mark "*"]),
      .label .name (.rule .propertyName), .opt (mark "?"),
      .opt (.rule .typeParameters), .rule .parameters, .opt (.rule (.returnType true))])
    let headerEnd : Syn := .oneOf [
      lineEnd { typed := true, afterOperand := false, afterHeader := true }, mark ";", comma]
    .node (.other "class_body") (.seq [openBrace,
      .many (.oneOf [
        mark ";",
        staticBlock,
        .seq [.many (.rule .decorator), .rule .method, .opt (mark ";")],
        .seq [Types.indexSignature true, .oneOf [bareEnding, comma]],
        .seq [abstractMethod, headerEnd],
        .seq [.many (.rule .decorator), .node (.other "method_signature")
          (Types.methodSignature true), headerEnd],
        field]),
      closeBrace])
  else
    .node (.other "class_body") (.seq [openBrace,
      .many (.oneOf [
        mark ";",
        staticBlock,
        .seq [.rule .method, .opt (mark ";")],
        plainField (.seq [.many (.rule .decorator), .opt (modifier d ["static"]),
          .label .property (.rule .propertyName)])]),
      closeBrace])

/-! ### Markup -/

/-- A name in markup, perhaps with a hyphen. -/
def markupName : Syn :=
  .oneOf [lexeme .identifier hyphenatedNameLength, anyName]

/-- The name of an element: one name, a qualified one, or an access. -/
def elementName : Syn :=
  .oneOf [
    .node (.other "jsx_namespace_name") (.seq [markupName, mark ":", markupName]),
    .chain markupName (.node (.other "member_expression") (.seq [operator ["."], anyPropertyName]))]

/-- An expression in braces inside markup. -/
def markupExpression : Syn :=
  .node (.other "jsx_expression") (.seq [openBrace,
    .opt (.oneOf [
      .node (.other "spread_element") (.seq [mark "...", expression .inside]),
      expressions .inside]),
    closeBrace])

def markupAttribute : Syn :=
  let name : Syn := .oneOf [
    .node (.other "jsx_namespace_name") (.seq [markupName, mark ":", markupName]),
    markupName]
  .oneOf [
    .node (.other "jsx_attribute") (.seq [name,
      .opt (.seq [mark "=", .oneOf [lexeme .stringLiteral attributeStringLength, markupExpression,
        .rule .element]])]),
    markupExpression]

/-- An element with what it contains. -/
def element (d : Dialect) : Syn :=
  let typeArguments : Syn := if d.typed then .opt (.rule .typeArguments) else .nothing
  let opening : Syn := .seq [mark "<", .opt (.seq [elementName, typeArguments, .many markupAttribute])]
  let child : Syn := .oneOf [
    immediate (.other "jsx_text") markupTextLength,
    lexeme (.other "html_character_reference") characterReferenceLength,
    .seq [.notAhead (mark "</"), .rule .element],
    markupExpression]
  .oneOf [
    .node (.other "jsx_self_closing_element") (.seq [mark "<", elementName, typeArguments,
      .many markupAttribute, mark "/>"]),
    .node (.other "jsx_element") (.seq [
      .node (.other "jsx_opening_element") (.seq [opening, mark ">"]),
      .many child,
      .node (.other "jsx_closing_element") (.seq [mark "</", .opt elementName, mark ">"])])]

end Expressions

end RepoDocs.Script
