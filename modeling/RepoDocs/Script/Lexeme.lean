import RepoDocs.Text.Blank
import RepoDocs.Grammar.Pattern

/-! The lexemes of JavaScript and TypeScript, each as the number of characters that it takes at the
start of a text, and the blanks and comments between lexemes. -/

namespace RepoDocs.Script

open RepoDocs.Text RepoDocs.Grammar

/-! ### Blanks and comments -/

/-- Blanks between lexemes: white space, the byte order mark and the zero-width spaces. -/
def isSpacing (c : Char) : Bool :=
  isBlank c || c == '\uFEFF' || c == '\u2060' || c == '\u200B'

/-- The characters that end a line comment. -/
def endsLine (c : Char) : Bool :=
  c == '\n' || c == '\r' || c == '\u2028' || c == '\u2029'

/-- Where the reader of blanks and comments is. -/
inductive TriviaMode where
  | between
  | inLine
  /-- Inside a block comment that starts after so many characters of the text. -/
  | inBlock (start : Nat)

/-- The number of characters of the blanks and comments at the start of a text, after `done`
characters.  A block comment that does not end is none. -/
def triviaLength : TriviaMode → Nat → List Char → Nat
  | .inBlock start, _, [] => start
  | _, done, [] => done
  | .between, done, '/' :: '/' :: r => triviaLength .inLine (done + 2) r
  | .between, done, '/' :: '*' :: r => triviaLength (.inBlock done) (done + 2) r
  | .between, done, c :: r => if isSpacing c then triviaLength .between (done + 1) r else done
  | .inLine, done, c :: r =>
    if c == '\n' || c == '\r' || c == '\u2028' || c == '\u2029' then
      triviaLength .between (done + 1) r
    else triviaLength .inLine (done + 1) r
  | .inBlock _, done, '*' :: '/' :: r => triviaLength .between (done + 2) r
  | .inBlock start, done, _ :: r => triviaLength (.inBlock start) (done + 1) r

/-- The place behind the blanks and comments. -/
def skipTrivia (c : Cursor) : Cursor :=
  c.advance (triviaLength .between 0 c.rest)

/-! ### Runs of pieces -/

/-- The number of characters of the pieces at the start of a text, where `piece` gives the length of
one piece and 0 for none, after `done` characters and `pending` more of a piece under way. -/
def piecesLength (piece : List Char → Nat) : Nat → Nat → List Char → Nat
  | done, _, [] => done
  | done, n + 1, _ :: r => piecesLength piece (done + 1) n r
  | done, 0, c :: r =>
    match piece (c :: r) with
    | 0 => done
    | n + 1 => piecesLength piece (done + 1) n r

/-- The number of characters at the start of a text that satisfy `p`. -/
def spanLength (p : Char → Bool) (s : List Char) : Nat :=
  (s.takeWhile p).length

def isHexDigit (c : Char) : Bool :=
  c.isDigit || ('a' ≤ c && c ≤ 'f') || ('A' ≤ c && c ≤ 'F')

/-! ### Words -/

/-- A hexadecimal escape of a character: four digits after `\u`, or digits in braces. -/
def codePointEscapeLength : List Char → Nat
  | '\\' :: 'u' :: '{' :: r =>
    let n := spanLength isHexDigit r
    if n == 0 then 0
    else
      match r.drop n with
      | '}' :: _ => n + 4
      | _ => 0
  | '\\' :: 'u' :: a :: b :: c :: d :: _ => if [a, b, c, d].all isHexDigit then 6 else 0
  | _ => 0

/-- The ASCII punctuation that no word contains. -/
def wordPunctuation : List Char :=
  [':', ';', '\x60', '"', '\'', '@', '#', '.', ',', '|', '^', '&', '<', '=', '>', '+', '-', '*', '/',
    '\\', '%', '?', '!', '~', '(', ')', '[', ']', '{', '}']

/-- Whether a word may go on with the character. -/
def isWordChar (c : Char) : Bool :=
  !(c.toNat < 0x20 || isSpacing c || wordPunctuation.contains c)

/-- A word: word characters and escapes, not starting with a digit. -/
def wordLength (s : List Char) : Nat :=
  match s with
  | [] => 0
  | c :: _ =>
    if c.isDigit then 0
    else
      piecesLength (fun r =>
        match r with
        | c :: _ => if isWordChar c then 1 else codePointEscapeLength r
        | [] => 0) 0 0 s

/-- A private name: a number sign and a word. -/
def privateNameLength : List Char → Nat
  | '#' :: r =>
    match wordLength r with
    | 0 => 0
    | n + 1 => n + 2
  | _ => 0

/-! ### Numbers -/

/-- Digits of a kind, single underscores between them. -/
def digitsLength (isDigit : Char → Bool) (s : List Char) : Nat :=
  match s with
  | c :: _ =>
    if isDigit c then
      piecesLength (fun r =>
        match r with
        | '_' :: d :: _ => if isDigit d then 2 else 0
        | d :: _ => if isDigit d then 1 else 0
        | [] => 0) 0 0 s
    else 0
  | [] => 0

/-- An exponent with its sign. -/
def exponentLength : List Char → Nat
  | e :: s =>
    if e == 'e' || e == 'E' then
      match s with
      | '+' :: r | '-' :: r =>
        match digitsLength Char.isDigit r with
        | 0 => 0
        | n + 1 => n + 3
      | r =>
        match digitsLength Char.isDigit r with
        | 0 => 0
        | n + 1 => n + 2
    else 0
  | [] => 0

/-- A prefixed literal: the prefix letter in either case and digits of its base. -/
def radixLength (letter : Char) (isDigit : Char → Bool) : List Char → Nat
  | '0' :: x :: r =>
    if x.toLower == letter then
      match digitsLength isDigit r with
      | 0 => 0
      | n + 1 => n + 3
    else 0
  | _ => 0

/-- The whole part of a literal with a fraction or an exponent: a lone zero, or digits that do not
start with two zeros. -/
def wholeLength (s : List Char) : Nat :=
  match s with
  | '0' :: '_' :: _ => 1
  | '0' :: '0' :: _ => 1
  | c :: _ => if c.isDigit then digitsLength Char.isDigit s else 0
  | [] => 0

/-- A decimal literal with a fraction or an exponent. -/
def fractionalLength (s : List Char) : Nat :=
  let withDot (n : Nat) (r : List Char) : Nat :=
    let m := digitsLength Char.isDigit r
    n + 1 + m + exponentLength (r.drop m)
  match s with
  | '.' :: r => if digitsLength Char.isDigit r == 0 then 0 else withDot 0 r
  | _ =>
    let n := wholeLength s
    if n == 0 then 0
    else
      match s.drop n with
      | '.' :: r => withDot n r
      | r =>
        match exponentLength r with
        | 0 => 0
        | k + 1 => n + k + 1

/-- A number literal: the longest of its forms. -/
def numberLength (s : List Char) : Nat :=
  let isBinary (c : Char) := c == '0' || c == '1'
  let isOctal (c : Char) := '0' ≤ c && c ≤ '7'
  let whole := [radixLength 'x' isHexDigit s, radixLength 'b' isBinary s, radixLength 'o' isOctal s,
    digitsLength Char.isDigit s]
  let big := whole.map fun n =>
    if n == 0 then 0
    else
      match s.drop n with
      | 'n' :: _ => n + 1
      | _ => 0
  (fractionalLength s :: (whole ++ big)).foldl max 0

/-! ### Strings, templates and regular expressions -/

/-- An escape in a string or template. -/
def escapeLength : List Char → Nat
  | '\\' :: '\r' :: '\n' :: _ => 3
  | '\\' :: 'x' :: a :: b :: _ => if isHexDigit a && isHexDigit b then 4 else 0
  | '\\' :: 'u' :: r => codePointEscapeLength ('\\' :: 'u' :: r)
  | '\\' :: c :: r =>
    if '0' ≤ c && c ≤ '7' then
      1 + min 3 (spanLength (fun d => '0' ≤ d && d ≤ '7') (c :: r))
    else if c == 'x' || c == '\x00' then 0
    else 2
  | _ => 0

/-- A string between two of the quotes `q`, on one line but for escapes. -/
def stringLength (q : Char) : List Char → Nat
  | c :: r =>
    if c == q then
      let n := piecesLength (fun s =>
        match s with
        | '\\' :: _ => escapeLength s
        | d :: _ => if d == q || d == '\n' || d == '\r' || d == '\x00' then 0 else 1
        | [] => 0) 0 0 r
      match r.drop n with
      | d :: _ => if d == q then n + 2 else 0
      | [] => 0
    else 0
  | [] => 0

/-- A string in single or double quotes. -/
def quotedLength (s : List Char) : Nat :=
  max (stringLength '"' s) (stringLength '\'' s)

/-- The plain characters of a template up to a backtick, an escape or a substitution. -/
def templateTextLength (s : List Char) : Nat :=
  let n := piecesLength (fun r =>
    match r with
    | '\x60' :: _ => 0
    | '\\' :: _ => 0
    | '$' :: '{' :: _ => 0
    | '\x00' :: _ => 0
    | _ :: _ => 1
    | [] => 0) 0 0 s
  match s.drop n with
  | '\x00' :: _ | [] => 0
  | _ => n

/-- A character class of a regular expression, in square brackets. -/
def characterClassLength : List Char → Nat
  | '[' :: r =>
    let n := piecesLength (fun s =>
      match s with
      | '\\' :: c :: _ => if c == '\n' then 0 else 2
      | c :: _ => if c == ']' || c == '\n' || c == '\\' then 0 else 1
      | [] => 0) 0 0 r
    match r.drop n with
    | ']' :: _ => n + 2
    | _ => 0
  | _ => 0

/-- A regular expression literal with its flags. -/
def regexLength : List Char → Nat
  | '/' :: r =>
    let n := piecesLength (fun s =>
      match s with
      | '[' :: _ => characterClassLength s
      | '\\' :: c :: _ => if c == '\n' then 0 else 2
      | c :: _ => if c == '/' || c == '\n' || c == '\\' then 0 else 1
      | [] => 0) 0 0 r
    match r.drop n with
    | '/' :: flags => if n == 0 then 0 else n + 2 + spanLength (fun c => 'a' ≤ c && c ≤ 'z') flags
    | _ => 0
  | _ => 0

/-! ### Markup inside expressions -/

/-- The text between two tags: empty where only blanks at the turn of a line stand. -/
def markupTextLength (s : List Char) : Nat :=
  let text := s.takeWhile fun c =>
    !(c == '<' || c == '>' || c == '{' || c == '}' || c == '&' || c == '\x00')
  let isSpace (c : Char) := c == ' ' || ('\t' ≤ c && c ≤ '\r')
  -- A blank counts as text unless it stands in the blanks that follow a line feed.
  let scan := text.foldl (fun (st : Bool × Bool) c =>
    if c == '\n' then (true, st.2)
    else
      let atTurn := st.1 && isSpace c
      (atTurn, st.2 || !atTurn)) (false, false)
  if scan.2 then text.length else 0

/-- A character reference: a decimal or hexadecimal number, or a name, between `&` and `;`. -/
def characterReferenceLength : List Char → Nat
  | '&' :: '#' :: r =>
    let hex := match r with
      | 'x' :: t | 'X' :: t =>
        let n := spanLength isHexDigit t
        if 1 ≤ n && n ≤ 6 && (t.drop n).head? == some ';' then n + 4 else 0
      | _ => 0
    let n := spanLength Char.isDigit r
    let decimal := if 1 ≤ n && n ≤ 5 && (r.drop n).head? == some ';' then n + 3 else 0
    max hex decimal
  | '&' :: r =>
    let n := spanLength Char.isAlpha r
    if 1 ≤ n && n ≤ 30 && (r.drop n).head? == some ';' then n + 2 else 0
  | _ => 0

/-- A name of a tag or attribute with a hyphen in it. -/
def hyphenatedNameLength (s : List Char) : Nat :=
  let isNameChar (c : Char) := c.isAlphanum || c == '_' || c == '$'
  match s with
  | c :: _ =>
    if isNameChar c && !c.isDigit then
      let n := spanLength isNameChar s
      match s.drop n with
      | '-' :: r => n + 1 + spanLength (fun c => isNameChar c || c == '-') r
      | _ => 0
    else 0
  | [] => 0

/-- A quoted attribute value: any text without the quote in which every `&` either starts a
character reference or stands before a character that could not start one. -/
def attributeStringLength : List Char → Nat
  | q :: r =>
    if q == '"' || q == '\'' then
      let n := piecesLength (fun s =>
        match s with
        | '&' :: d :: _ =>
          match characterReferenceLength s with
          | 0 => if d == '#' || d.isAlpha || d == q then 0 else 2
          | n + 1 => n + 1
        | c :: _ => if c == q || c == '&' then 0 else 1
        | [] => 0) 0 0 r
      match r.drop n with
      | d :: _ => if d == q then n + 2 else 0
      | [] => 0
    else 0
  | [] => 0

/-- A comment of the old markup kind: from an opening or closing comment mark to the end of the
line. -/
def markupCommentLength (s : List Char) : Nat :=
  let toLineEnd (r : List Char) : Nat :=
    spanLength (fun c => !(c == '\n' || c == '\u2028' || c == '\u2029')) r
  match s with
  | '<' :: '!' :: '-' :: '-' :: r => 4 + toLineEnd r
  | '-' :: '-' :: '>' :: r => 3 + toLineEnd r
  | _ => 0

/-! ### Operators -/

/-- All operators, in an order in which none follows one of its own beginnings. -/
def operators : List String :=
  [">>>=", "===", "!==", "**=", "&&=", "||=", "??=", ">>>", "<<=", ">>=", "...", "=>", "==", "!=",
    "<=", ">=", "&&", "||", "??", "?.", "++", "--", "+=", "-=", "*=", "/=", "%=", "&=", "|=", "^=",
    "<<", ">>", "**", "+", "-", "*", "/", "%", "&", "|", "^", "!", "~", "<", ">", "=", "?", ":", ",",
    ".", ";"]

/-- The longest operator at the start of a text. -/
def operatorAt (s : List Char) : Option String :=
  operators.find? fun op => op.toList.isPrefixOf s

end RepoDocs.Script
