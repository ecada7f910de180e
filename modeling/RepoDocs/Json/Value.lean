import RepoDocs.Decimal.Shortest

/-! JSON values and their text. -/

namespace RepoDocs.Json

open RepoDocs.Decimal

/-- A JSON number: a whole number or a double. -/
inductive Number where
  | whole (n : Int)
  | float (x : Float)
  deriving BEq, Repr

/-- A JSON value.  The fields of an object keep their order. -/
inductive Value where
  | null
  | bool (b : Bool)
  | number (n : Number)
  | string (s : String)
  | array (items : List Value)
  | object (fields : List (String × Value))
  deriving Inhabited

/-- Doubles are written positionally from `1e-5` up to `1e15`. -/
def floatStyle : Style := ⟨-5, 15⟩

/-- The text of a finite double; JSON has none for the others, which become `null`. -/
def floatText (x : Float) : String :=
  if x.isNaN || x.isInf then "null"
  else
    let magnitude := String.ofList ((shortest (Binary.ofFloat x)).write floatStyle)
    if x.toBits.toNat / Nat.pow 2 63 = 1 then "-" ++ magnitude else magnitude

/-- The decimal digits of a whole number. -/
def wholeText (n : Int) : String :=
  if n < 0 then "-" ++ String.ofList (Nat.toDigits 10 n.natAbs)
  else String.ofList (Nat.toDigits 10 n.natAbs)

def Number.text : Number → String
  | .whole n => wholeText n
  | .float x => floatText x

/-- One lowercase hexadecimal digit. -/
def hexDigit (n : Nat) : Char := Nat.digitChar (n % 16)

/-- A character as it stands in a string: quotes, backslashes and control characters are escaped. -/
def escapeChar (c : Char) : List Char :=
  if c = '"' then ['\\', '"']
  else if c = '\\' then ['\\', '\\']
  else if c = '\x08' then ['\\', 'b']
  else if c = '\x0c' then ['\\', 'f']
  else if c = '\n' then ['\\', 'n']
  else if c = '\r' then ['\\', 'r']
  else if c = '\t' then ['\\', 't']
  else if c.toNat < 32 then
    ['\\', 'u', '0', '0', hexDigit (c.toNat / 16), hexDigit c.toNat]
  else [c]

/-- A string between quotes. -/
def quote (s : String) : List Char :=
  '"' :: (s.toList.flatMap escapeChar ++ ['"'])

/-- Texts with commas between them. -/
def joinCommas : List (List Char) → List Char
  | [] => []
  | [t] => t
  | t :: rest => t ++ ',' :: joinCommas rest

namespace Value

mutual

/-- The text of a value without blanks. -/
def compactChars : Value → List Char
  | null => "null".toList
  | bool true => "true".toList
  | bool false => "false".toList
  | number n => n.text.toList
  | string s => quote s
  | array items => '[' :: (joinCommas (compactItems items) ++ [']'])
  | object fields => '{' :: (joinCommas (compactFields fields) ++ ['}'])

def compactItems : List Value → List (List Char)
  | [] => []
  | v :: rest => compactChars v :: compactItems rest

def compactFields : List (String × Value) → List (List Char)
  | [] => []
  | (k, v) :: rest => (quote k ++ ':' :: compactChars v) :: compactFields rest

end

/-- The text of a value without blanks. -/
def compact (v : Value) : String := String.ofList v.compactChars

/-- A new line at an indentation of `depth` steps of two blanks. -/
def newLine (depth : Nat) : List Char := '\n' :: List.replicate (2 * depth) ' '

/-- Items on lines of their own, between brackets. -/
def bracketed (opening closing : Char) (depth : Nat) : List (List Char) → List Char
  | [] => [opening, closing]
  | items =>
    opening :: (joinCommas (items.map (newLine (depth + 1) ++ ·)) ++ newLine depth ++ [closing])

mutual

/-- The text of a value on indented lines, at a depth of nesting. -/
def prettyChars (depth : Nat) : Value → List Char
  | array items => bracketed '[' ']' depth (prettyItems (depth + 1) items)
  | object fields => bracketed '{' '}' depth (prettyFields (depth + 1) fields)
  | null => "null".toList
  | bool true => "true".toList
  | bool false => "false".toList
  | number n => n.text.toList
  | string s => quote s

def prettyItems (depth : Nat) : List Value → List (List Char)
  | [] => []
  | v :: rest => prettyChars depth v :: prettyItems depth rest

def prettyFields (depth : Nat) : List (String × Value) → List (List Char)
  | [] => []
  | (k, v) :: rest => (quote k ++ ':' :: ' ' :: prettyChars depth v) :: prettyFields depth rest

end

/-- The text of a value on lines indented by two blanks for every level. -/
def pretty (v : Value) : String := String.ofList (v.prettyChars 0)

/-- The field named `k` of an object. -/
def field? (v : Value) (k : String) : Option Value :=
  match v with
  | object fields => fields.lookup k
  | _ => none

/-- Put a field into an object sorted by key; a later field takes the place of an earlier one. -/
def insertField (k : String) (v : Value) : List (String × Value) → List (String × Value)
  | [] => [(k, v)]
  | (k', v') :: rest =>
    if k < k' then (k, v) :: (k', v') :: rest
    else if k = k' then (k, v) :: rest
    else (k', v') :: insertField k v rest

/-- Fields sorted by key, the last of each key. -/
def sortFields (fields : List (String × Value)) : List (String × Value) :=
  fields.foldl (fun done (k, v) => insertField k v done) []

mutual

/-- The value with the fields of its objects sorted by key. -/
def sorted : Value → Value
  | array items => array (sortedItems items)
  | object fields => object (sortFields (sortedFields fields))
  | v => v

def sortedItems : List Value → List Value
  | [] => []
  | v :: rest => sorted v :: sortedItems rest

def sortedFields : List (String × Value) → List (String × Value)
  | [] => []
  | (k, v) :: rest => (k, sorted v) :: sortedFields rest

end

/-- A whole number. -/
def ofNat (n : Nat) : Value := .number (.whole n)

/-- A double, or `null` for one that has no text. -/
def ofFloat (x : Float) : Value := if x.isNaN || x.isInf then .null else .number (.float x)

/-- A string, or `null` for none. -/
def ofOption (f : α → Value) : Option α → Value
  | none => .null
  | some a => f a

/-- A list of strings. -/
def ofStrings (ss : List String) : Value := .array (ss.map .string)

/-- A field that is there only for a value that is. -/
def optionalField (k : String) (f : α → Value) : Option α → List (String × Value)
  | none => []
  | some a => [(k, f a)]

end Value

end RepoDocs.Json
