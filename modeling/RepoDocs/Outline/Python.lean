import RepoDocs.Outline.Basic
import RepoDocs.Text.Blank
import RepoDocs.Text.Split
import RepoDocs.Text.Word

/-! Outlines of Python files, read line by line.  A line that starts with `def`, `class` or `import`
is a header, and the block of a header reaches up to the next line that is not blank and not indented
deeper. -/

namespace RepoDocs.Outline.Python

open RepoDocs.Text

/-- A line of a file. -/
abbrev Line := List Char

/-! ### Headers -/

/-- What follows `w` at the start of a text. -/
def after? (w : String) (s : Line) : Option Line :=
  if w.toList.isPrefixOf s then some (s.drop w.length) else none

/-- What follows one or more blanks. -/
def afterBlanks? : Line → Option Line
  | c :: r => if isBlank c then some (r.dropWhile isBlank) else none
  | [] => none

/-- A word of at least one character, and what follows it. -/
def word? (s : Line) : Option (Line × Line) :=
  match s.takeWhile isWord with
  | [] => none
  | w => some (w, s.dropWhile isWord)

/-- The header of a function. -/
structure DefHeader where
  isAsync : Bool
  name : Line
  parameters : Line

/-- Whether a function header ends here: at a colon, or behind a return annotation of at least one
character without a colon in it. -/
def endsDef (s : Line) : Bool :=
  match s with
  | ':' :: _ => true
  | '-' :: '>' :: c :: r => c != ':' && r.contains ':'
  | _ => false

/-- The function header that a trimmed line is. -/
def defHeader? (line : Line) : Option DefHeader := do
  let (isAsync, s) : Bool × Line :=
    match (after? "async" line).bind afterBlanks? with
    | some r => (true, r)
    | none => (false, line)
  let s ← (after? "def" s).bind afterBlanks?
  let (name, s) ← word? s
  match s.dropWhile isBlank with
  | '(' :: s =>
    match s.dropWhile (· != ')') with
    | ')' :: r =>
      if endsDef (r.dropWhile isBlank) then some ⟨isAsync, name, s.takeWhile (· != ')')⟩ else none
    | _ => none
  | _ => none

/-- The name in the class header that a trimmed line is. -/
def className? (line : Line) : Option Line := do
  let s ← (after? "class" line).bind afterBlanks?
  let (name, r) ← word? s
  if r.contains ':' then some name else none

/-- What an `import` at the start of a line is followed by. -/
def imported? (s : Line) : Option Line := do
  let r ← (after? "import" s).bind afterBlanks?
  if r.isEmpty then none else some r

/-- The module, if one is named, and the names of the import that a trimmed line is. -/
def importParts? (line : Line) : Option (Option Line × Line) :=
  let fromModule : Option (Option Line × Line) := do
    let s ← (after? "from" line).bind afterBlanks?
    let module := s.takeWhile (!isBlank ·)
    if module.isEmpty then none
    else
      let r ← afterBlanks? (s.dropWhile (!isBlank ·))
      let names ← imported? r
      some (some module, names)
  fromModule <|> (imported? line).map (none, ·)

/-! ### Blocks -/

/-- The bytes of the blanks that a line starts with. -/
def indentation (line : Line) : Nat :=
  ((line.takeWhile isBlank).map Char.utf8Size).foldr (· + ·) 0

/-- Whether a line ends a block whose header is indented by `indent`. -/
def endsBlock (indent : Nat) (line : Line) : Bool :=
  !line.all isBlank && indentation line ≤ indent

/-- The number of lines up to the first that ends the block, or of all. -/
def blockLength (indent : Nat) (lines : List Line) : Nat :=
  (lines.takeWhile (!endsBlock indent ·)).length

/-- The last line, counted from 1, of the block with its header at index `header`; the number of
lines for a header that is not there. -/
def blockEnd (lines : List Line) (header : Nat) : Nat :=
  match lines[header]? with
  | none => lines.length
  | some line => header + 1 + blockLength (indentation line) (lines.drop (header + 1))

/-! ### Parts of headers -/

/-- The parameters between the parentheses: what stands before the equals sign of each part between
commas. -/
def parametersOf (s : Line) : List Parameter :=
  if (trim s).isEmpty then []
  else
    (splitAtEach (· == ',') s).filterMap fun part =>
      let name := trim (part.takeWhile (· != '='))
      if name.isEmpty then none else some ⟨String.ofList name, none⟩

/-- The text without the parentheses at either end. -/
def dropParentheses (s : Line) : Line :=
  let isParenthesis (c : Char) : Bool := c == '(' || c == ')'
  dropEndWhile isParenthesis (s.dropWhile isParenthesis)

/-- The names that an import lists. -/
def namesOf (s : Line) : List String :=
  (splitAtEach (· == ',') s).filterMap fun part =>
    let name := trim (dropParentheses (trim part))
    if name.isEmpty then none else some (String.ofList name)

/-! ### Files -/

/-- The function that the line at an index declares, with the lines of its file. -/
def functionAt (lines : List Line) (index : Nat) (line : Line) : Option FunctionOutline :=
  (defHeader? (trim line)).map fun h =>
    { name := String.ofList h.name, startLine := index + 1, endLine := blockEnd lines index
      parameters := parametersOf h.parameters, isAsync := h.isAsync, isExported := true }

/-- The class that the line at an index declares. -/
def classAt (lines : List Line) (index : Nat) (line : Line) : Option ClassOutline :=
  (className? (trim line)).map fun name =>
    { name := String.ofList name, startLine := index + 1, endLine := blockEnd lines index
      methods := [], properties := [], isExported := true }

/-- The import that a line is.  What is imported without naming a module is built in. -/
def importOf (line : Line) : Option ImportOutline :=
  (importParts? (trim line)).map fun (module, names) =>
    { source := (module.map String.ofList).getD "builtin", importedNames := namesOf names }

/-- What `f` finds at each line of a file and its index. -/
def scan (f : Nat → Line → Option α) : Nat → List Line → List α
  | _, [] => []
  | index, line :: rest => (f index line).toList ++ scan f (index + 1) rest

/-- The outline of a Python file.  It exports its functions and classes. -/
def outline (fileName source : String) : FileOutline :=
  let lines := lines source.toList
  let functions := scan (functionAt lines) 0 lines
  let classes := scan (classAt lines) 0 lines
  { fileName, language := .python, functions, classes, imports := lines.filterMap importOf
    exports := functions.map (·.name) ++ classes.map (·.name) }

end RepoDocs.Outline.Python
