import RepoDocs.Script.Lexeme

/-! Statements that end without a semicolon.  A statement may end at a closing brace, at the end of
the text, and at the end of a line unless what follows goes on with the expression or type. -/

namespace RepoDocs.Script

open RepoDocs.Grammar

/-- What may stand where a semicolon is missing. -/
structure LineEnd where
  /-- The rules for texts with type annotations. -/
  typed : Bool
  /-- An operand was just completed, so that a binary operator could follow. -/
  afterOperand : Bool
  /-- A function header was just completed, so that its body could follow. -/
  afterHeader : Bool := false

/-- The blanks that end a line or stand in it. -/
def isAsciiBlank (c : Char) : Bool :=
  c == ' ' || ('\t' ≤ c && c ≤ '\r')

/-- The line separators. -/
def isLineFeed (c : Char) : Bool :=
  c == '\n' || c == '\u2028' || c == '\u2029'

/-- What follows blanks and comments, or `none` before a slash that starts no comment. -/
def afterComments : TriviaMode → List Char → Option (List Char)
  | _, [] => some []
  | .between, '/' :: '/' :: r => afterComments .inLine r
  | .between, '/' :: '*' :: r => afterComments (.inBlock 0) r
  | .between, '/' :: _ => none
  | .between, c :: r => if isAsciiBlank c then afterComments .between r else some (c :: r)
  | .inLine, c :: r =>
    if c == '\n' then afterComments .between r
    else if isLineFeed c then some (c :: r)
    else afterComments .inLine r
  | .inBlock _, '*' :: '/' :: r => afterComments .between r
  | .inBlock n, _ :: r => afterComments (.inBlock n) r

/-- Whether a new line that starts so starts a new statement. -/
def LineEnd.startsStatement (e : LineEnd) (s : List Char) : Bool :=
  match s with
  | [] => true
  | '\x60' :: _ | ',' :: _ | ';' :: _ | '*' :: _ | '%' :: _ | '>' :: _ | '<' :: _ | '=' :: _
  | '?' :: _ | '^' :: _ | '|' :: _ | '&' :: _ | '/' :: _ | ':' :: _ => false
  | '(' :: _ | '[' :: _ => e.typed && !e.afterOperand
  | '{' :: _ => !(e.typed && e.afterHeader)
  | '.' :: r =>
    match r with
    | d :: _ => !e.typed && d.isDigit
    | [] => false
  | '+' :: r => r.head? == some '+'
  | '-' :: r => r.head? == some '-'
  | '!' :: r => r.head? != some '='
  | 'i' :: 'n' :: r =>
    match r with
    | [] => false
    | c :: _ =>
      if !c.isAlpha then false
      else if "stanceof".toList.isPrefixOf r then
        match r.drop 8 with
        | d :: _ => d.isAlpha
        | [] => false
      else true
  | _ => true

/-- Whether a typed statement may end here.  It may end before a brace unless a colon follows that,
which makes it the brace of a pattern with a type. -/
def LineEnd.typedHolds (e : LineEnd) : List Char → Bool
  | [] => true
  | '\x00' :: _ => true
  | '}' :: r =>
    match r.dropWhile isAsciiBlank with
    | ':' :: _ => e.afterOperand
    | _ => true
  | c :: r =>
    if c == '\n' then ((afterComments .between r).map e.startsStatement).getD false
    else isAsciiBlank c && e.typedHolds r

/-- Whether a comment in which or behind which a line ends is enough where no operator could follow. -/
def LineEnd.suffices (e : LineEnd) (s : List Char) : Bool :=
  !e.afterOperand && s.head? != some ',' && s.head? != some '='

/-- Whether an untyped statement may end at a character that is no blank of its line. -/
def LineEnd.endsAt (e : LineEnd) : List Char → Bool
  | [] => false
  | '}' :: _ => true
  | c :: r => isLineFeed c && ((afterComments .between r).map e.startsStatement).getD false

/-- Where the reader of the rest of a line is. -/
inductive LineMode where
  /-- Where a comment may stand. -/
  | onLine
  | inBlock (fed : Bool)
  | behindBlock

/-- Whether an untyped statement may end here, where comments may stand on the line. -/
def LineEnd.untypedHolds (e : LineEnd) : LineMode → List Char → Bool
  | .onLine, [] => true
  | .onLine, '\x00' :: _ => true
  | .onLine, '/' :: '/' :: r =>
    match afterComments .inLine r with
    | some t => e.suffices t || e.endsAt t
    | none => false
  | .onLine, '/' :: '*' :: r => e.untypedHolds (.inBlock false) r
  | .inBlock fed, [] => fed && e.suffices []
  | .inBlock fed, '*' :: '/' :: r => (fed && e.suffices r) || e.untypedHolds .behindBlock r
  | .inBlock fed, c :: r => e.untypedHolds (.inBlock (fed || isLineFeed c)) r
  | .behindBlock, [] => false
  | _, c :: r =>
    if isAsciiBlank c && !isLineFeed c then e.untypedHolds .onLine r else e.endsAt (c :: r)

/-- Whether a statement may end here, before the comments that follow are taken for blanks. -/
def LineEnd.holdsAt (e : LineEnd) (s : List Char) : Bool :=
  if e.typed then e.typedHolds s else e.untypedHolds .onLine s

/-- The number of characters up to the end of the first comment, if only blanks stand before it. -/
def commentLength (s : List Char) : Nat :=
  let blanks := spanLength isSpacing s
  match s.drop blanks with
  | '/' :: '/' :: r => blanks + 2 + spanLength (fun c => !endsLine c) r
  | '/' :: '*' :: r =>
    let n := piecesLength (fun t =>
      match t with
      | '*' :: '/' :: _ => 0
      | _ :: _ => 1
      | [] => 0) 0 0 r
    if (r.drop n).isEmpty then 0 else blanks + 2 + n + 2
  | _ => 0

/-- The place where a statement that lacks its semicolon may end: here, or behind one of the comments
that follow. -/
def LineEnd.place? (e : LineEnd) (c : Cursor) : Option Cursor :=
  if e.holdsAt c.rest then some c
  else
    match h : commentLength c.rest with
    | 0 => none
    | n + 1 => e.place? (c.advance (n + 1))
termination_by c.rest.length
decreasing_by
  have nonempty : c.rest ≠ [] := fun empty => by simp [empty, commentLength, spanLength] at h
  have := List.length_pos_iff.mpr nonempty
  rw [Cursor.length_rest_advance]
  omega

end RepoDocs.Script
