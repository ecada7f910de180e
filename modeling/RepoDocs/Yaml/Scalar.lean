import RepoDocs.Yaml.Character

/-! Scalars in their five styles.  Inside a plain or quoted scalar the breaks between two lines are
folded: one break becomes a space, and of several the first is dropped.  Separators are no line feeds
and are kept. -/

namespace RepoDocs.Yaml

inductive Style where
  | plain
  | singleQuoted
  | doubleQuoted
  | literal
  | folded
  deriving DecidableEq, Repr

/-! ### Gaps -/

/-- What stands between the words of a scalar: blanks, or breaks with the blanks around them left
out.  The first break is missing where it was escaped. -/
inductive Gap where
  | blanks (s : List Char)
  | breaks (first? : Option Char) (more : List Char)
  deriving DecidableEq, Repr

namespace Gap

def empty : Gap := blanks []

def isBroken : Gap → Bool
  | blanks _ => false
  | breaks _ _ => true

/-- The gap with one more blank or break at its end. -/
def push (c : Char) : Gap → Gap
  | blanks s => if isBreak c then breaks (some c) [] else blanks (s ++ [c])
  | breaks first? more => breaks first? (if isBreak c then more ++ [c] else more)

/-- What a gap stands for. -/
def text : Gap → List Char
  | blanks s => s
  | breaks none more => more
  | breaks (some '\n') [] => [' ']
  | breaks (some '\n') more => more
  | breaks (some c) more => c :: more

end Gap

/-! ### Plain scalars -/

/-- A scalar without quotes, and whether breaks follow it. -/
structure PlainScalar where
  text : List Char
  breaksFollow : Bool

/-- Whether a plain scalar is over at a character that stands behind a gap: the line belongs to an
outer block, is a mark between documents or is a comment. -/
def startsElsewhere (flow : Bool) (indent : Nat) (s : List Char) (p : Place) : Bool :=
  (!flow && p.column < indent) ||
    (p.column = 0 && (startsMark '-' s || startsMark '.' s)) || s.head? = some '#'

/-- Whether a plain scalar is over at a character. -/
def endsPlain (flow : Bool) (c : Char) (rest : List Char) : Bool :=
  (c = ':' && endsWord rest) || (flow && [',', '[', ']', '{', '}'].contains c)

/-- Whether a colon stands where it can be neither part of a plain scalar nor its end. -/
def isStrayColon (flow : Bool) (c : Char) (rest : List Char) : Bool :=
  flow && c = ':' && rest.head?.any [',', '?', '[', ']', '{', '}'].contains

/-- The rest of a plain scalar, of which `done` is read, reversed, and then `gap`.  Its lines are
indented by `indent` or more, and not with tabs. -/
def plainFrom (flow : Bool) (indent : Nat) (done : List Char) (gap : Gap) :
    List Char → Place → Option (PlainScalar × Cursor)
  | [], p => some (⟨done.reverse, gap.isBroken⟩, ⟨[], p⟩)
  | c :: rest, p =>
    if isGap c then
      if c = '\t' && gap.isBroken && p.column < indent then none
      else plainFrom flow indent done (gap.push c) rest (p.after c)
    else if gap != Gap.empty && startsElsewhere flow indent (c :: rest) p then
      some (⟨done.reverse, gap.isBroken⟩, ⟨c :: rest, p⟩)
    else if isStrayColon flow c rest then none
    else if endsPlain flow c rest then some (⟨done.reverse, gap.isBroken⟩, ⟨c :: rest, p⟩)
    else plainFrom flow indent (c :: gap.text.reverse ++ done) .empty rest (p.after c)

/-- The plain scalar at the start of a text. -/
def readPlain (flow : Bool) (indent : Nat) (c : Cursor) : Option (PlainScalar × Cursor) :=
  plainFrom flow indent [] .empty c.rest c.place

/-! ### Quoted scalars -/

/-- The number that hexadecimal digits give. -/
def hexNumber (digits : List Char) : Nat :=
  digits.foldl (fun n c =>
    let digit :=
      if c.isDigit then c.toNat - '0'.toNat
      else if 'a' ≤ c then c.toNat - 'a'.toNat + 10
      else c.toNat - 'A'.toNat + 10
    n * 16 + digit) 0

/-- The character whose code some hexadecimal digits give. -/
def charOfHex? (digits : List Char) : Option Char :=
  let n := hexNumber digits
  if digits.all isHexDigit && n.isValidChar then some (Char.ofNat n) else none

/-- The characters that a letter behind a backslash stands for. -/
def escapes : List (Char × Char) :=
  [('0', '\x00'), ('a', '\x07'), ('b', '\x08'), ('t', '\t'), ('\t', '\t'), ('n', '\n'), ('v', '\x0b'),
    ('f', '\x0c'), ('r', '\r'), ('e', '\x1b'), (' ', ' '), ('"', '"'), ('/', '/'), ('\\', '\\'),
    ('N', '\u0085'), ('_', '\u00a0'), ('L', '\u2028'), ('P', '\u2029')]

/-- The number of hexadecimal digits that follow a letter behind a backslash. -/
def escapeLengths : List (Char × Nat) := [('x', 2), ('u', 4), ('U', 8)]

/-- The character that is escaped by what follows a backslash, and how many characters that are. -/
def escaped? : List Char → Option (Char × Nat)
  | [] => none
  | c :: rest =>
    match escapes.lookup c, escapeLengths.lookup c with
    | some x, _ => some (x, 1)
    | none, some n =>
      if (rest.take n).length = n then (charOfHex? (rest.take n)).map fun x => (x, n + 1) else none
    | none, none => none

/-- The rest of a quoted scalar, of which `done` is read, reversed, and then `gap`. -/
def quotedFrom (quote : Char) (done : List Char) (gap : Gap) (s : List Char) (p : Place) :
    Option (List Char × Cursor) :=
  match s with
  | [] => none
  | c :: rest =>
    if isGap c then quotedFrom quote done (gap.push c) rest (p.after c)
    else if p.column = 0 && (startsMark '-' (c :: rest) || startsMark '.' (c :: rest)) then none
    else
      let done := gap.text.reverse ++ done
      if c = quote then
        if quote = '\'' && rest.head? = some '\'' then
          quotedFrom quote ('\'' :: done) .empty (rest.drop 1) (p.advance 2)
        else some (done.reverse, ⟨rest, p.advance 1⟩)
      else if c = '\\' && quote = '"' then
        if rest.head?.any isBreak then
          quotedFrom quote done (.breaks none []) (rest.drop 1) ((p.advance 1).after '\n')
        else
          match escaped? rest with
          | some (x, n) => quotedFrom quote (x :: done) .empty (rest.drop n) (p.advance (n + 1))
          | none => none
      else quotedFrom quote (c :: done) .empty rest (p.advance 1)
termination_by s.length
decreasing_by all_goals simp [List.length_drop]; try omega

/-- The quoted scalar at the start of a text, which starts with the quote. -/
def readQuoted (quote : Char) (c : Cursor) : Option (List Char × Cursor) :=
  let c := c.skip 1
  quotedFrom quote [] .empty c.rest c.place

/-! ### Block scalars -/

/-- What becomes of the breaks at the end of a block scalar: all of them go, one stays or all stay. -/
inductive Chomping where
  | strip
  | clip
  | keep
  deriving DecidableEq, Repr

/-- What the first line of a block scalar tells. -/
structure BlockHeader where
  chomping : Chomping := .clip
  indent? : Option Nat := none

/-- The mark at the start of a text that tells how to treat the breaks at the end. -/
def readChomping (c : Cursor) : Option Chomping × Cursor :=
  match c.rest.head? with
  | some '+' => (some .keep, c.skip 1)
  | some '-' => (some .strip, c.skip 1)
  | _ => (none, c)

/-- The digit at the start of a text that tells the indent, which is not 0. -/
def readIndent? (c : Cursor) : Option (Option Nat × Cursor) :=
  match c.rest.head? with
  | some d =>
    if d = '0' then none
    else if d.isDigit then some (some (d.toNat - '0'.toNat), c.skip 1)
    else some (none, c)
  | none => some (none, c)

/-- The first line of a block scalar behind its mark. -/
def readHeader (c : Cursor) : Option (BlockHeader × Cursor) := do
  let (before?, c) := readChomping c
  let (indent?, c) ← readIndent? c
  let (after?, c) := if before?.isNone && indent?.isSome then readChomping c else (none, c)
  return (⟨((before? <|> after?).getD .clip), indent?⟩, ← c.skipLineEnd?)

/-- The indent of a block scalar that does not tell it: that of its first line that is not blank, or
of a blank line before if it is larger. -/
def findIndent (largest : Nat) : List Char → Place → Option Nat
  | [], p => some (max largest p.column)
  | c :: rest, p =>
    if c = ' ' then findIndent largest rest (p.after c)
    else if c = '\t' then none
    else if isBreak c then findIndent (max largest p.column) rest (p.after c)
    else some (max largest p.column)

/-- What is read of a block scalar: its text, reversed; the break behind its last line and the breaks
that follow; whether that line starts with a blank; and whether it is still being read. -/
structure BlockText where
  done : List Char := []
  first? : Option Char := none
  more : List Char := []
  wasBlank : Bool := false
  inLine : Bool := false

namespace BlockText

/-- Begin a line with its first character.  A folded scalar joins it to the line before unless one of
them starts with a blank. -/
def beginLine (style : Style) (c : Char) (b : BlockText) : BlockText :=
  let between :=
    if style = .folded && b.first? = some '\n' && !b.wasBlank && !isBlank c then
      if b.more.isEmpty then [' '] else b.more
    else b.first?.toList ++ b.more
  { done := c :: between.reverse ++ b.done, wasBlank := isBlank c, inLine := true }

/-- The text in the end. -/
def text (chomping : Chomping) (b : BlockText) : List Char :=
  b.done.reverse ++
    match chomping with
    | .strip => []
    | .clip => b.first?.toList
    | .keep => b.first?.toList ++ b.more

end BlockText

/-- The rest of a block scalar with lines indented by `indent`. -/
def blockFrom (style : Style) (indent : Nat) (b : BlockText) :
    List Char → Place → Option (BlockText × Cursor)
  | [], p => some (b, ⟨[], p⟩)
  | c :: rest, p =>
    let again (b : BlockText) := blockFrom style indent b rest (p.after c)
    if b.inLine then
      if isBreak c then again { b with first? := some c, inLine := false }
      else again { b with done := c :: b.done }
    else if p.column < indent && c = ' ' then again b
    else if p.column < indent && c = '\t' then none
    else if isBreak c then again { b with more := b.more ++ [c] }
    else if p.column = indent then again (b.beginLine style c)
    else some (b, ⟨c :: rest, p⟩)

/-- The block scalar at the start of a text, which starts with its mark, in a block whose lines are
indented by `outer?`. -/
def readBlock (style : Style) (outer? : Option Nat) (c : Cursor) :
    Option (List Char × Cursor) := do
  let (header, c) ← readHeader (c.skip 1)
  let indent ←
    match header.indent? with
    | some n => pure (outer?.getD 0 + n)
    | none => do
      let found ← findIndent 0 c.rest c.place
      pure (max (max found ((outer?.map (· + 1)).getD 0)) 1)
  let (b, c) ← blockFrom style indent {} c.rest c.place
  return (b.text header.chomping, c)

end RepoDocs.Yaml
