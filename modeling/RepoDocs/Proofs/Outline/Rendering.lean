import RepoDocs.Outline.Python
import RepoDocs.Proofs.Text.Pieces

/-! Python files that are rendered from what they declare, one line for each header, import or other
line, and the outlines that are to be read off them. -/

namespace RepoDocs.Outline.Python

open RepoDocs.Text

/-! ### What a file consists of -/

/-- A parameter: its name and perhaps a default, with the blanks in front of the equals sign. -/
structure ParameterText where
  name : Line
  default? : Option (Line × Line) := none

/-- What the header of a block declares. -/
inductive Heading where
  | function (isAsync : Bool) (name : Line) (parameters : List ParameterText)
      (result? : Option Line)
  | class (name : Line) (bases? : Option Line)

/-- What a line without a block holds. -/
inductive Leaf where
  | blank
  | import (module? : Option Line) (names : List Line) (inParentheses : Bool)
  | other (text : Line)

/-- The lines of a file or a block, each behind a margin, and each header with the lines of its
block. -/
inductive Forest where
  | nil
  | line (margin : Line) (leaf : Leaf) (rest : Forest)
  | declaration (margin : Line) (heading : Heading) (body rest : Forest)

/-! ### Texts -/

def commaSeparated (parts : List Line) : Line := [',', ' '].intercalate parts

def ParameterText.text (p : ParameterText) : Line :=
  match p.default? with
  | none => p.name
  | some (gap, value) => p.name ++ gap ++ '=' :: value

/-- A keyword in front of a text. -/
def keyword (w : String) (s : Line) : Line := w.toList ++ ' ' :: s

/-- What stands behind the closing parenthesis of the header of a function. -/
def annotated : Option Line → Line
  | none => [':']
  | some result => ' ' :: '-' :: '>' :: ' ' :: (result ++ [':'])

/-- The header of a function from its keyword on. -/
def signature (name parameters ending : Line) : Line :=
  keyword "def" (name ++ '(' :: (parameters ++ ')' :: ending))

/-- What stands behind the name in the header of a class. -/
def derived : Option Line → Line
  | none => [':']
  | some bases => '(' :: (bases ++ [')', ':'])

def Heading.text : Heading → Line
  | .function isAsync name parameters result? =>
    let s := signature name (commaSeparated (parameters.map (·.text))) (annotated result?)
    if isAsync then keyword "async" s else s
  | .class name bases? => keyword "class" (name ++ derived bases?)

/-- The names of an import. -/
def listed (names : List Line) (inParentheses : Bool) : Line :=
  if inParentheses then '(' :: (commaSeparated names ++ [')']) else commaSeparated names

def Leaf.text : Leaf → Line
  | .blank => []
  | .import none names inParentheses => keyword "import" (listed names inParentheses)
  | .import (some module) names inParentheses =>
    keyword "from" (module ++ ' ' :: keyword "import" (listed names inParentheses))
  | .other text => text

/-- One line of a file, with the number of blocks that it is in. -/
structure Row where
  level : Nat
  margin : Line
  entry : Leaf ⊕ Heading

namespace Row

def text (r : Row) : Line := r.entry.elim Leaf.text Heading.text

def line (r : Row) : Line := r.margin ++ r.text

def isBlank (r : Row) : Bool :=
  match r.entry with
  | .inl .blank => true
  | _ => false

end Row

/-- The lines of a forest whose roots are in `level` blocks. -/
def Forest.rows (level : Nat) : Forest → List Row
  | .nil => []
  | .line margin leaf rest => ⟨level, margin, .inl leaf⟩ :: rest.rows level
  | .declaration margin heading body rest =>
    ⟨level, margin, .inr heading⟩ :: (body.rows (level + 1) ++ rest.rows level)

/-- The text of a file, in which a line feed ends each line. -/
def Forest.text (f : Forest) : String :=
  String.ofList (((f.rows 0).map Row.line).flatMap (· ++ ['\n']))

/-! ### Well-formed files -/

/-- The text is made of blanks within a line. -/
def IsMargin (m : Line) : Prop := ∀ c ∈ m, Text.isBlank c = true ∧ c ≠ '\n'

instance (m : Line) : Decidable (IsMargin m) :=
  decidable_of_iff (m.all fun c => Text.isBlank c && c != '\n') (by simp [IsMargin])

structure ParameterText.WellFormed (p : ParameterText) : Prop where
  tight : Tight p.name
  name : ∀ c ∈ p.name, c ≠ ',' ∧ c ≠ '=' ∧ c ≠ ')' ∧ c ≠ '\n'
  default : ∀ gap value, p.default? = some (gap, value) →
    IsMargin gap ∧ ∀ c ∈ value, c ≠ ',' ∧ c ≠ ')' ∧ c ≠ '\n'

def Heading.WellFormed : Heading → Prop
  | .function _ name parameters result? =>
    IsName name ∧ (∀ p ∈ parameters, p.WellFormed) ∧
      ∀ result, result? = some result →
        result ≠ [] ∧ ':' ∉ result ∧ '\n' ∉ result
  | .class name bases? => IsName name ∧ ∀ bases, bases? = some bases → '\n' ∉ bases

/-- A line that is neither blank nor an import starts behind its margin and is no header at all. -/
def Leaf.WellFormed : Leaf → Prop
  | .blank => True
  | .import module? names _ =>
    (∀ module, module? = some module → module ≠ [] ∧ ∀ c ∈ module, Text.isBlank c = false) ∧
      names ≠ [] ∧ ∀ name ∈ names, IsName name
  | .other text =>
    Flush text ∧ '\n' ∉ text ∧ defHeader? (trim text) = none ∧
      className? (trim text) = none ∧ importParts? (trim text) = none

/-- The margin of the first line of a forest that is not blank. -/
def Forest.margin? : Forest → Option Line
  | .nil => none
  | .line _ .blank rest => rest.margin?
  | .line margin _ _ => some margin
  | .declaration margin _ _ _ => some margin

/-- The lines are well formed, and those that are not blank are indented by `floor` at least.  The
lines of a block are indented deeper than its header, and the next line of the block around it is not,
whether or not it has the margin of the header. -/
inductive Laid : Nat → Forest → Prop
  | nil {floor} : Laid floor .nil
  | line {floor margin leaf rest} (blanks : IsMargin margin) (wellFormed : leaf.WellFormed)
      (deep : leaf ≠ .blank → floor ≤ indentation margin) (behind : Laid floor rest) :
      Laid floor (.line margin leaf rest)
  | declaration {floor margin heading body rest} (blanks : IsMargin margin)
      (wellFormed : heading.WellFormed) (deep : floor ≤ indentation margin)
      (inside : Laid (indentation margin + 1) body)
      (next : ∀ m, rest.margin? = some m → indentation m ≤ indentation margin)
      (behind : Laid floor rest) : Laid floor (.declaration margin heading body rest)

/-! ### The outline of a file -/

/-- The number of lines that belong to a block with its header in `level` blocks: those in front of
the next line that is not blank and in no more blocks. -/
def blockRows (level : Nat) (behind : List Row) : Nat :=
  (behind.takeWhile fun r => r.isBlank || level < r.level).length

/-- What `f` gives of each header, with the numbers of its line and of the last line of its block. -/
def declared (f : Nat → Nat → Heading → Option α) : Nat → List Row → List α
  | _, [] => []
  | index, ⟨_, _, .inl _⟩ :: behind => declared f (index + 1) behind
  | index, ⟨level, _, .inr heading⟩ :: behind =>
    (f (index + 1) (index + 1 + blockRows level behind) heading).toList ++ declared f (index + 1) behind

def Heading.function? (startLine endLine : Nat) : Heading → Option FunctionOutline
  | .function isAsync name parameters _ =>
    some { name := String.ofList name, startLine, endLine, isAsync, isExported := true
           parameters := parameters.map fun p => ⟨String.ofList p.name, none⟩ }
  | .class .. => none

def Heading.class? (startLine endLine : Nat) : Heading → Option ClassOutline
  | .function .. => none
  | .class name _ =>
    some { name := String.ofList name, startLine, endLine, methods := [], properties := []
           isExported := true }

def Leaf.import? : Leaf → Option ImportOutline
  | .import module? names _ =>
    some { source := (module?.map String.ofList).getD "builtin"
           importedNames := names.map String.ofList }
  | _ => none

def Row.import? (r : Row) : Option ImportOutline := r.entry.elim Leaf.import? fun _ => none

/-- What a file declares and imports, in the order of its lines. -/
def Forest.outline (fileName : String) (f : Forest) : FileOutline :=
  let functions := declared Heading.function? 0 (f.rows 0)
  let classes := declared Heading.class? 0 (f.rows 0)
  { fileName, language := .python, functions, classes, imports := (f.rows 0).filterMap Row.import?
    exports := functions.map (·.name) ++ classes.map (·.name) }

end RepoDocs.Outline.Python
