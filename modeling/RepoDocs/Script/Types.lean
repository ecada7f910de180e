import RepoDocs.Script.Rule

/-! The rules for types. -/

namespace RepoDocs.Script

open RepoDocs.Grammar

namespace Types

def typed (ends : Bool := false) : Syn := .rule (.typed ends)

/-- Inside a type nothing goes on across the end of a statement. -/
def goesOn (ends : Bool) : Syn :=
  if ends then .notAhead (lineEnd { typed := true, afterOperand := false }) else .nothing

/-- A type behind a colon. -/
def ascription (ends : Bool := false) : Syn :=
  .node (.other "type_annotation") (.seq [mark ":", typed ends])

/-- The words that name a type of the language. -/
def predefined : List String :=
  ["any", "number", "boolean", "string", "symbol", "void", "unknown", "never", "object"]

/-- The words that cannot name a type. -/
def reserved : List String :=
  predefined ++ ["keyof", "typeof", "readonly", "infer", "new", "abstract", "this", "true", "false",
    "null", "undefined", "const", "import", "unique"]

/-- A name of a type. -/
def typeName : Syn := nameBut (.other "type_identifier") reserved

/-- Words joined by dots. -/
def dotted (first : Syn) : Syn :=
  .chain first (.node (.other "nested_identifier") (.seq [operator ["."], anyPropertyName]))

/-- What a function returns: a type, a predicate on a parameter, or an assertion. -/
def returned (ends : Bool) : Syn :=
  let subject := nameBut .identifier []
  let predicate := .node (.other "type_predicate") (.seq [subject, goesOn ends, word "is", typed ends])
  .oneOf [
    .node (.other "asserts") (.seq [word "asserts", goesOn ends, .oneOf [predicate, subject]]),
    predicate,
    typed ends]

/-- A return type behind a colon. -/
def returnType (ends : Bool) : Syn :=
  .node (.other "type_annotation") (.seq [mark ":", returned ends])

/-- A function or constructor type. -/
def functionType (ends : Bool) : Syn :=
  .oneOf [
    .node (.other "constructor_type") (.seq [.opt (word "abstract"), word "new",
      .opt (.rule .typeParameters), .rule .parameters, operator ["=>"], typed ends]),
    .node (.other "function_type") (.seq [.opt (.rule .typeParameters), .rule .parameters,
      operator ["=>"], returned ends])]

/-- One operand of a union or intersection. -/
def operand (ends : Bool) : Syn :=
  .oneOf [
    functionType ends,
    .node (.other "readonly_type") (.seq [word "readonly", .rule (.typeOperand ends)]),
    .node (.other "infer_type") (.seq [word "infer", typeName,
      .opt (.seq [word "extends", typed ends])]),
    .node (.other "index_type_query") (.seq [word "keyof", .rule (.typeOperand ends)]),
    .node (.other "flow_maybe_type") (.seq [operator ["?"], .rule (.typeOperand ends)]),
    .chain (.rule (.typePrimary ends)) (.seq [goesOn ends, .oneOf [
      .node (.other "array_type") (.seq [mark "[", mark "]"]),
      .node (.other "lookup_type") (.seq [mark "[", typed, mark "]"])]])]

/-- A type: operands joined by `|` and `&`, and perhaps a condition on it. -/
def type (ends : Bool) : Syn :=
  let joint : Syn := operator ["|", "&"]
  let union : Syn := .seq [.opt joint, .rule (.typeOperand ends),
    .many (.seq [goesOn ends, joint, .rule (.typeOperand ends)])]
  .oneOf [
    .node (.other "conditional_type") (.seq [union, goesOn ends, word "extends", typed ends,
      mark "?", typed, mark ":", typed ends]),
    union]

/-- What a `typeof` in a type asks about. -/
def query (ends : Bool) : Syn :=
  let step : Syn := .seq [goesOn ends, .oneOf [
    .node (.other "member_expression") (.seq [operator [".", "?."],
      .oneOf [privateName, anyPropertyName]]),
    .node (.other "subscript_expression") (.seq [mark "[", .oneOf [quoted, number], mark "]"]),
    .node (.other "instantiation_expression") (.rule .typeArguments),
    .node (.other "call_expression") (.rule .arguments)]]
  .chain (.oneOf [word "this", word "import", anyName]) step

/-- A member of a tuple type. -/
def tupleMember : Syn :=
  .oneOf [
    .node (.other "tuple_parameter") (.seq [
      .oneOf [.seq [mark "...", anyName], .seq [anyName, .opt (operator ["?"])]], ascription]),
    .node (.other "rest_type") (.seq [mark "...", typed]),
    .node (.other "optional_type") (.seq [typed, operator ["?"]]),
    typed]

/-- The types that need no parentheses before square brackets. -/
def primary (ends : Bool) : Syn :=
  let templateHole : Syn := .seq [immediateMark "$\x7b", typed, closeBrace]
  .oneOf [
    .node (.other "parenthesized_type") (.seq [mark "(", typed, mark ")"]),
    .node (.other "tuple_type") (.seq [mark "[",
      .opt (.seq [.sepBy1 (mark ",") tupleMember, .opt (mark ",")]), mark "]"]),
    .rule .objectType,
    quoted,
    number,
    .node (.other "unary_expression") (.seq [operator ["-", "+"], number]),
    .node (.other "template_literal_type") (.seq [mark "\x60",
      .many (.oneOf [immediate (.other "string_fragment") templateTextLength, templateHole]),
      immediateMark "\x60"]),
    keyword ["true", "false", "null", "undefined", "const"],
    lexeme (.other "existential_type") (fun s => if s.head? == some '*' then 1 else 0),
    .node (.other "type_query") (.seq [word "typeof", query ends]),
    .node (.other "predefined_type") (.seq [word "unique", word "symbol"]),
    .chain (word "import") (.seq [goesOn ends, .oneOf [
      .node (.other "member_expression") (.seq [operator ["."], anyPropertyName]),
      .node (.other "generic_type") (.rule .typeArguments),
      .node (.other "call_expression") (.rule .arguments)]]),
    .seq [dotted (.oneOf [nameBut (.other "type_identifier") reserved, word "this"]),
      .opt (.seq [goesOn ends, .rule .typeArguments])],
    .seq [dotted (keyword predefined), .notAhead (operator ["."])]]

/-- Types in angle brackets, as arguments. -/
def arguments : Syn :=
  .node (.other "type_arguments") (.seq [mark "<", .sepBy1 (mark ",") typed, .opt (mark ","),
    mark ">"])

/-- Type variables in angle brackets. -/
def parameters : Syn :=
  let one : Syn := .node (.other "type_parameter") (.seq [
    .oneOf [.seq [word "const", typeName], typeName],
    .opt (.seq [.oneOf [word "extends", mark ":"], typed]),
    .opt (.seq [operator ["="], typed])])
  .node (.other "type_parameters") (.seq [mark "<", .sepBy1 (mark ",") one, .opt (mark ","),
    mark ">"])

/-- What cannot follow a modifier: the modifier is then a name itself. -/
def nameEnds : Syn :=
  .oneOf [mark "(", mark ",", mark ":", mark "?", mark "!", mark "=", mark ";", mark "<", closeBrace]

/-- One of the words `ws` as a modifier of the member whose name follows. -/
def modifier (ws : List String) : Syn :=
  .seq [keyword ws, .notAhead nameEnds,
    .notAhead (lineEnd { typed := true, afterOperand := false })]

/-- The signature of a method: its modifiers, name and call signature. -/
def methodSignature (ends : Bool) : Syn :=
  .seq [
    .opt (modifier ["public", "private", "protected"]), .opt (modifier ["static"]),
    .opt (modifier ["override"]), .opt (modifier ["readonly"]), .opt (modifier ["async"]),
    .opt (.oneOf [modifier ["get", "set"], mark "*"]),
    .label .name (.rule .propertyName), .opt (operator ["?"]),
    .opt (.rule .typeParameters), .rule .parameters, .opt (.rule (.returnType ends))]

/-- An index signature or a mapped type clause in square brackets, with its type. -/
def indexSignature (ends : Bool) : Syn :=
  .node (.other "index_signature") (.seq [
    .opt (.seq [.opt (operator ["-", "+"]), word "readonly"]),
    mark "[",
    .oneOf [
      .seq [anyName, mark ":", typed],
      .seq [typeName, word "in", typed, .opt (.seq [word "as", typed])]],
    mark "]",
    .oneOf [
      .seq [mark "-?:", typed ends],
      .seq [mark "+?:", typed ends],
      .seq [mark "?:", typed ends],
      ascription ends]])

/-- One member of an object type. -/
def member : Syn :=
  .oneOf [
    .node (.other "construct_signature") (.seq [.opt (word "abstract"), word "new",
      .opt (.rule .typeParameters), .rule .parameters, .opt (ascription true)]),
    .node (.other "call_signature") (.seq [.opt (.rule .typeParameters), .rule .parameters,
      .opt (.rule (.returnType true))]),
    indexSignature true,
    .node (.other "method_signature") (methodSignature true),
    .node (.other "property_signature") (.seq [
      .opt (modifier ["public", "private", "protected"]), .opt (modifier ["static"]),
      .opt (modifier ["override"]), .opt (modifier ["readonly"]),
      .label .name (.rule .propertyName), .opt (operator ["?"]), .opt (ascription true)]),
    .seq [.ahead (word "export"), .rule (.statement false)]]

/-- Members in braces, with commas or the ends of statements between them. -/
def object : Syn :=
  let sep : Syn := .oneOf [mark ",", bareSemicolon .typescript]
  .node (.other "object_type") (.seq [
    .oneOf [mark "\x7b|", openBrace],
    .opt (.oneOf [mark ",", mark ";"]),
    .opt (.seq [.sepBy1 sep member, .opt sep]),
    .oneOf [mark "|\x7d", closeBrace]])

end Types

end RepoDocs.Script
