import RepoDocs.Yaml.Scalar

/-! What may stand in front of a node, its anchor and its tag, and the directives in front of a
document, which say what the handles of tags stand for. -/

namespace RepoDocs.Yaml

/-! ### Anchors -/

/-- The name of an anchor or an alias at the start of a text, which starts with its mark. -/
def readAnchor (c : Cursor) : Option (String × Cursor) :=
  let (name, c) := (c.skip 1).split isWordChar
  let ends := endsWord c.rest || c.rest.head?.any ['?', ':', ',', ']', '}', '%', '@', '`'].contains
  if !name.isEmpty && ends then some (String.ofList name, c) else none

/-! ### Tags -/

/-- A tag as it is written: a handle, which is empty where the tag is written in full, and what
follows it. -/
structure Tag where
  handle : String
  suffix : String
  deriving DecidableEq, Repr

/-- Whether a character may stand in a tag.  Commas and brackets may only between angle brackets. -/
def isTagChar (bracketed : Bool) (c : Char) : Bool :=
  isWordChar c || ";/?:@&=+$.%!~*'()".toList.contains c || (bracketed && [',', '[', ']'].contains c)

/-- The octet that is written as a percent sign and two digits. -/
def octet? : List Char → Option Nat
  | '%' :: x :: y :: _ => if isHexDigit x && isHexDigit y then some (hexNumber [x, y]) else none
  | _ => none

/-- How many octets a character has, and what the first of them tells of its code. -/
def leadingOctet? (n : Nat) : Option (Nat × Nat) :=
  if n < 0x80 then some (1, n)
  else if n / 0x20 = 6 then some (2, n % 0x20)
  else if n / 0x10 = 0xe then some (3, n % 0x10)
  else if n / 8 = 0x1e then some (4, n % 8)
  else none

/-- The code of a character of which `code` is read, with the octets that are still to come. -/
def trailingOctets (code : Nat) : Nat → List Char → Option Nat
  | 0, _ => some code
  | n + 1, s => do
    let octet ← octet? s
    if octet / 0x40 = 2 then trailingOctets (code * 0x40 + octet % 0x40) n (s.drop 3) else none

/-- The character that is written in octets, and how many there are. -/
def octetChar? (s : List Char) : Option (Char × Nat) := do
  let (n, code) ← leadingOctet? (← octet? s)
  let code ← trailingOctets code (n - 1) (s.drop 3)
  return (Char.ofNat code, n)

/-- The characters of a tag at the start of a text, and how much of the text they are. -/
def tagChars (bracketed : Bool) (s : List Char) : Option (List Char × Nat) :=
  match s with
  | [] => some ([], 0)
  | c :: rest =>
    if c = '%' then do
      let (x, octets) ← octetChar? (c :: rest)
      let more := 3 * octets - 1
      let (xs, n) ← tagChars bracketed (rest.drop more)
      return (x :: xs, n + more + 1)
    else if isTagChar bracketed c then do
      let (xs, n) ← tagChars bracketed rest
      return (c :: xs, n + 1)
    else some ([], 0)
termination_by s.length
decreasing_by all_goals simp [List.length_drop]; try omega

/-- The end of a tag, behind what is read of it already. -/
def readTagChars (bracketed : Bool) (before : List Char) (c : Cursor) :
    Option (String × Cursor) := do
  let (chars, n) ← tagChars bracketed c.rest
  if n = 0 && before.isEmpty then none
  else return (String.ofList (before.drop 1 ++ chars), c.skip n)

/-- The start of a tag: an exclamation mark, and a word with another one if there are such. -/
def readHandle (c : Cursor) : Option (List Char × Cursor) :=
  if c.rest.head? != some '!' then none
  else
    let (word, c) := (c.skip 1).split isWordChar
    if c.rest.head? = some '!' then some ('!' :: word ++ ['!'], c.skip 1) else some ('!' :: word, c)

/-- Whether the start of a tag is the handle of one. -/
def isHandle (s : List Char) : Bool := 1 < s.length && s.getLast? = some '!'

/-- The tag at the start of a text.  A tag between angle brackets is written in full, and so is the
tag that is but an exclamation mark. -/
def readTag (flow : Bool) (c : Cursor) : Option (Tag × Cursor) := do
  let (tag, c) ←
    if (c.rest.drop 1).head? = some '<' then do
      let (suffix, c) ← readTagChars true [] (c.skip 2)
      if c.rest.head? = some '>' then pure (⟨"", suffix⟩, c.skip 1) else none
    else do
      let (start, c) ← readHandle c
      if isHandle start then
        let (suffix, c) ← readTagChars false [] c
        pure (Tag.mk (String.ofList start) suffix, c)
      else
        let (suffix, c) ← readTagChars false start c
        pure (if suffix.isEmpty then ⟨"", "!"⟩ else ⟨"!", suffix⟩, c)
  if endsWord c.rest || (flow && c.rest.head? = some ',') then return (tag, c) else none

/-! ### Directives -/

inductive Directive where
  | version (major minor : Nat)
  /-- A handle, and what it stands for. -/
  | handle (handle replacement : String)
  deriving DecidableEq, Repr

/-- A number of up to nine digits. -/
def readVersionNumber (c : Cursor) : Option (Nat × Cursor) :=
  let (digits, c) := c.split Char.isDigit
  let number := digits.foldl (fun n d => n * 10 + (d.toNat - '0'.toNat)) 0
  if !digits.isEmpty && digits.length ≤ 9 then some (number, c) else none

def readVersion (c : Cursor) : Option (Directive × Cursor) := do
  let (major, c) ← readVersionNumber c.skipBlanks
  if c.rest.head? != some '.' then none
  else
    let (minor, c) ← readVersionNumber (c.skip 1)
    return (.version major minor, c)

def readReplacement (c : Cursor) : Option (Directive × Cursor) := do
  let (start, c) ← readHandle c.skipBlanks
  if !(start = ['!'] || isHandle start) || !c.rest.head?.any isBlank then none
  else
    let (chars, n) ← tagChars true c.skipBlanks.rest
    let c := c.skipBlanks.skip n
    if n = 0 || !endsWord c.rest then none
    else return (.handle (String.ofList start) (String.ofList chars), c)

/-- The directive at the start of a text, and its line. -/
def readDirective (c : Cursor) : Option (Directive × Cursor) := do
  let (name, c) := (c.skip 1).split isWordChar
  if !endsWord c.rest then none
  else
    let (directive, c) ←
      if name = "YAML".toList then readVersion c
      else if name = "TAG".toList then readReplacement c
      else none
    return (directive, ← c.skipLineEnd?)

end RepoDocs.Yaml
