import RepoDocs.Yaml.Tag

/-! The tokens of a text.  In blocks, the columns of the lines take the place of brackets: a token that
stands further right than the block around it opens a block, and one further left closes those that
it leaves.  A key is recognised by the colon behind it, so the tokens that make it a key are put in
front of it later. -/

namespace RepoDocs.Yaml

inductive Token where
  | directive (d : Directive)
  | documentStart
  | documentEnd
  | blockSequence
  | blockMapping
  | blockEnd
  | flowSequence
  | flowSequenceEnd
  | flowMapping
  | flowMappingEnd
  /-- The mark in front of an item of a block sequence. -/
  | item
  | comma
  | key
  | value
  | reference (name : String)
  | anchor (name : String)
  | tag (t : Tag)
  | scalar (style : Style) (text : String)
  deriving DecidableEq, Repr

/-- A node that is a key if a colon follows it: its place and the number of tokens in front of it.
Where the node stands at the indent of its block, it must be a key. -/
structure PossibleKey where
  place : Place
  position : Nat
  required : Bool

/-- The tokens that are read, the indents of the open blocks and the possible keys of the open
brackets, innermost first. -/
structure Layout where
  cursor : Cursor
  tokens : Array Token := #[]
  indents : List Nat := []
  /-- Whether a key may begin here. -/
  keyAllowed : Bool := true
  key? : Option PossibleKey := none
  outerKeys : List (Option PossibleKey) := []

namespace Layout

/-- Whether a bracket is open. -/
def inFlow (l : Layout) : Bool := !l.outerKeys.isEmpty

def column (l : Layout) : Nat := l.cursor.place.column

def push (t : Token) (l : Layout) : Layout := { l with tokens := l.tokens.push t }

/-- Go on behind some characters that are a token. -/
def pushShort (t : Token) (length : Nat) (l : Layout) : Layout :=
  { l.push t with cursor := l.cursor.skip length }

/-! ### Indents -/

/-- Close the blocks that are indented further than `column`.  Brackets hold their blocks open. -/
def closeTo (column : Nat) (l : Layout) : Layout :=
  if l.inFlow then l
  else
    let closed := l.indents.takeWhile (column < ·)
    { l with
      indents := l.indents.drop closed.length
      tokens := l.tokens ++ closed.toArray.map fun _ => Token.blockEnd }

/-- Close all blocks. -/
def closeAll (l : Layout) : Layout :=
  if l.inFlow then l
  else { l with indents := [], tokens := l.tokens ++ l.indents.toArray.map fun _ => Token.blockEnd }

/-- Open a block at a column, with its token in front of the one at `position`, unless there is one
already. -/
def openAt (t : Token) (column position : Nat) (l : Layout) : Layout :=
  if !l.inFlow && l.indents.head?.all (· < column) then
    { l with
      indents := column :: l.indents
      tokens := l.tokens.insertIdxIfInBounds position t }
  else l

/-! ### Possible keys -/

/-- Give up the possible key of the innermost bracket. -/
def dropKey (l : Layout) : Option Layout :=
  if l.key?.any (·.required) then none else some { l with key? := none }

/-- Take what begins here for a possible key if one is allowed. -/
def saveKey (l : Layout) : Option Layout :=
  if l.keyAllowed then do
    let key : PossibleKey :=
      { place := l.cursor.place, position := l.tokens.size
        required := !l.inFlow && l.indents.head? = some l.column }
    return { ← l.dropKey with key? := some key }
  else some l

/-- Whether a possible key began too far back: on another line or more than 1024 characters before. -/
def isStale (here : Place) (k : PossibleKey) : Bool :=
  k.place.line < here.line || k.place.index + 1024 < here.index

/-- Give up a possible key that is too far back. -/
def refreshed (here : Place) (key? : Option PossibleKey) : Option (Option PossibleKey) :=
  match key? with
  | none => some none
  | some k =>
    if !isStale here k then some (some k) else if k.required then none else some none

/-- Give up the possible keys that are too far back. -/
def dropStale (l : Layout) : Option Layout := do
  let here := l.cursor.place
  return { l with
    key? := ← refreshed here l.key?
    outerKeys := ← l.outerKeys.mapM (refreshed here) }

/-! ### Tokens one by one -/

/-- Skip blanks, comments and breaks up to the next token.  A line may begin with a key, unless it
stands in brackets, and where a key may begin, no tab may stand. -/
def skipGap (flow : Bool) (keyAllowed inComment : Bool) :
    List Char → Place → Bool × Cursor
  | [], p => (keyAllowed, ⟨[], p⟩)
  | c :: rest, p =>
    if isBreak c then skipGap flow (keyAllowed || !flow) false rest (p.after c)
    else if inComment || c = ' ' || (c = '\t' && (flow || !keyAllowed)) then
      skipGap flow keyAllowed inComment rest (p.after c)
    else if c = '#' then skipGap flow keyAllowed true rest (p.after c)
    else (keyAllowed, ⟨c :: rest, p⟩)

/-- Skip up to the next token. -/
def toToken (l : Layout) : Layout :=
  let (keyAllowed, cursor) := skipGap l.inFlow l.keyAllowed false l.cursor.rest l.cursor.place
  { l with keyAllowed, cursor }

/-- A directive or a mark between documents. -/
def betweenDocuments (l : Layout) : Option Layout := do
  return { ← l.closeAll.dropKey with keyAllowed := false }

def directive (l : Layout) : Option Layout := do
  let l ← l.betweenDocuments
  let (d, cursor) ← readDirective l.cursor
  return { l.push (.directive d) with cursor }

def openBracket (t : Token) (l : Layout) : Option Layout := do
  let l ← l.saveKey
  return { l.pushShort t 1 with keyAllowed := true, key? := none, outerKeys := l.key? :: l.outerKeys }

def closeBracket (t : Token) (l : Layout) : Option Layout := do
  let l ← l.dropKey
  let (key?, outerKeys) :=
    match l.outerKeys with
    | [] => (none, [])
    | key? :: outer => (key?, outer)
  return { l.pushShort t 1 with keyAllowed := false, key?, outerKeys }

def comma (l : Layout) : Option Layout := do
  return { (← l.dropKey).pushShort .comma 1 with keyAllowed := true }

/-- Open a block with an indicator, which in blocks may stand only where a key may. -/
def openWith (t : Token) (l : Layout) : Option Layout :=
  if l.inFlow then some l
  else if l.keyAllowed then some (l.openAt t l.column l.tokens.size)
  else none

def item (l : Layout) : Option Layout := do
  let l ← (← l.openWith .blockSequence).dropKey
  return { l.pushShort .item 1 with keyAllowed := true }

def explicitKey (l : Layout) : Option Layout := do
  let l ← (← l.openWith .blockMapping).dropKey
  return { l.pushShort .key 1 with keyAllowed := !l.inFlow }

/-- A colon makes a key of what begins at the possible key; without one, it follows a key that is
marked as such. -/
def value (l : Layout) : Option Layout :=
  match l.key? with
  | some k =>
    let l := { l with tokens := l.tokens.insertIdxIfInBounds k.position .key }
    let l := l.openAt .blockMapping k.place.column k.position
    some { l.pushShort .value 1 with keyAllowed := false, key? := none }
  | none => do
    let l ← l.openWith .blockMapping
    return { l.pushShort .value 1 with keyAllowed := !l.inFlow }

/-- A token that is or stands in front of a node, at which a key may begin. -/
def node (read : Cursor → Option (Token × Cursor)) (l : Layout) : Option Layout := do
  let l ← l.saveKey
  let (t, cursor) ← read l.cursor
  return { l.push t with cursor, keyAllowed := false }

def quoted (quote : Char) (style : Style) : Layout → Option Layout :=
  node fun c => (readQuoted quote c).map fun (s, c) => (.scalar style (String.ofList s), c)

def plain (l : Layout) : Option Layout := do
  let l ← l.saveKey
  let indent := (l.indents.head?.map (· + 1)).getD 0
  let (s, cursor) ← readPlain l.inFlow indent l.cursor
  return { l.push (.scalar .plain (String.ofList s.text)) with cursor, keyAllowed := s.breaksFollow }

def block (style : Style) (l : Layout) : Option Layout := do
  let l ← l.dropKey
  let (s, cursor) ← readBlock style l.indents.head? l.cursor
  return { l.push (.scalar style (String.ofList s)) with cursor, keyAllowed := true }

/-- The characters at which no plain scalar begins, though some may if no blank follows. -/
def indicators : List Char := "-?:,[]\x7b\x7d#&*!|>'\"%@`".toList

/-- Whether a plain scalar begins with a character. -/
def startsPlain (flow : Bool) (c : Char) (rest : List Char) : Bool :=
  (!isGap c && !indicators.contains c) || (c = '-' && !rest.head?.any isBlank) ||
    (!flow && (c = '?' || c = ':') && !endsWord rest)

/-- Read the token that begins here. -/
def fetch (l : Layout) : Option Layout :=
  let l := l.closeTo l.column
  match l.cursor.rest with
  | [] => none
  | c :: rest =>
    let atStart := l.column = 0
    let single := l.inFlow || endsWord rest
    if atStart && c = '%' then l.directive
    else if atStart && startsMark '-' (c :: rest) then
      l.betweenDocuments.map (·.pushShort .documentStart 3)
    else if atStart && startsMark '.' (c :: rest) then
      l.betweenDocuments.map (·.pushShort .documentEnd 3)
    else if c = '[' then l.openBracket .flowSequence
    else if c = '\x7b' then l.openBracket .flowMapping
    else if c = ']' then l.closeBracket .flowSequenceEnd
    else if c = '\x7d' then l.closeBracket .flowMappingEnd
    else if c = ',' then l.comma
    else if c = '-' && endsWord rest then l.item
    else if c = '?' && single then l.explicitKey
    else if c = ':' && single then l.value
    else if c = '*' then l.node fun c => (readAnchor c).map fun (n, c) => (.reference n, c)
    else if c = '&' then l.node fun c => (readAnchor c).map fun (n, c) => (.anchor n, c)
    else if c = '!' then l.node fun c => (readTag l.inFlow c).map fun (t, c) => (.tag t, c)
    else if c = '|' && !l.inFlow then l.block .literal
    else if c = '>' && !l.inFlow then l.block .folded
    else if c = '\'' then l.quoted '\'' .singleQuoted
    else if c = '"' then l.quoted '"' .doubleQuoted
    else if startsPlain l.inFlow c rest then l.plain
    else none

/-- Read the rest of a text.  The number bounds the tokens in it. -/
def readAll : Nat → Layout → Option Layout
  | 0, _ => none
  | n + 1, l => do
    let l ← l.toToken.dropStale
    if l.cursor.rest.isEmpty then l.closeAll.dropKey
    else readAll n (← l.fetch)

end Layout

/-- The tokens of a text.  A byte order mark in front of it is skipped. -/
def tokens? (text : String) : Option (List Token) :=
  if !text.toList.all isAllowed then none
  else
    let chars := unifyBreaks text.toList
    let start : Cursor := ⟨chars, {}⟩
    let start := if chars.head? = some '\ufeff' then start.skip 1 else start
    (Layout.readAll (chars.length + 1) { cursor := start }).map (·.tokens.toList)

end RepoDocs.Yaml
