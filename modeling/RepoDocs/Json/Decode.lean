import RepoDocs.Json.Document
import RepoDocs.Text.Quoted

/-! Values of domain types out of JSON documents.  A decoder says what it takes and blames the first
place that does not fit.  Records are decoded from objects, in which unknown fields are skipped, and
from arrays that give the fields in order. -/

namespace RepoDocs.Json

/-- What a decoder is told: how many more levels of brackets a text may open, or that the document
stands for a value that is already in memory. -/
structure Setting where
  depth : Option Nat

/-- Texts may nest 127 levels deep. -/
def Setting.ofText : Setting := ⟨some 127⟩

def Setting.ofMemory : Setting := ⟨none⟩

/-- Whether the document is a text. -/
def Setting.isText (s : Setting) : Bool := s.depth.isSome

/-- The setting inside a pair of brackets that opens at `start`. -/
def Setting.inside (s : Setting) (start : Mark) : Except Fault Setting :=
  match s.depth with
  | none => .ok s
  | some 0 => .error ⟨.recursionLimit, ⟨start.line, start.column + 1⟩⟩
  | some (n + 1) => .ok ⟨some n⟩

/-- How a value of a type is taken out of a document. -/
abbrev Decoder (α : Type) := Setting → Doc → Except Fault α

/-- What an error message calls a number. -/
def Number.name : Number → String
  | .whole n => s!"integer `{wholeText n}`"
  | .float x => s!"floating point `{floatText x}`"

/-- A string the way an error message shows it. -/
def shownString (s : String) : String := Text.quoted ['"'] s

namespace Doc

/-- The fault of a document that is not `expected`. -/
def mismatch (expected : String) : Doc → Fault
  | null _ stop => ⟨.invalidType "null" expected, stop⟩
  | bool b _ stop => ⟨.invalidType s!"boolean `{b}`" expected, stop⟩
  | number n _ stop => ⟨.invalidType n.name expected, stop⟩
  | string s _ stop => ⟨.invalidType s!"string {shownString s}" expected, stop⟩
  | array _ start _ => ⟨.invalidType "sequence" expected, start⟩
  | object _ start _ => ⟨.invalidType "map" expected, start⟩
  | unreadable f => f
  | broken f _ => f

/-- Where a document starts. -/
def start : Doc → Mark
  | null start _ | bool _ start _ | number _ start _ | string _ start _ | array _ start _
  | object _ start _ => start
  | unreadable f => f.mark
  | broken f _ => f.mark

mutual

/-- Skip a document: only text that is not JSON at all is a fault. -/
def skip : Doc → Except Fault Unit
  | array items _ ending => do
    skipItems items
    match ending with
    | .closed _ => pure ()
    | .broken _ f => .error f
  | object fields _ ending => do
    skipFields fields
    match ending with
    | .closed _ => pure ()
    | .broken _ f => .error f
  | broken _ f => .error f
  | _ => .ok ()

def skipItems : List Doc → Except Fault Unit
  | [] => .ok ()
  | d :: rest => do skip d; skipItems rest

def skipFields : List (String × Mark × Doc) → Except Fault Unit
  | [] => .ok ()
  | (_, _, d) :: rest => do skip d; skipFields rest

end

mutual

/-- Any value, the fields of its objects sorted by key. -/
def toValue (s : Setting) : Doc → Except Fault Value
  | null _ _ => .ok .null
  | bool b _ _ => .ok (.bool b)
  | number n _ _ => .ok (.number n)
  | string t _ _ => .ok (.string t)
  | array items start ending => do
    let inner ← s.inside start
    let vs ← toValues inner items
    match ending with
    | .closed _ => pure (.array vs)
    | .broken f _ => .error f
  | object fields start ending => do
    let inner ← s.inside start
    let fs ← toFields inner fields
    match ending with
    | .closed _ => pure (.object (Value.sortFields fs))
    | .broken f _ => .error f
  | unreadable f => .error f
  | broken f _ => .error f

def toValues (s : Setting) : List Doc → Except Fault (List Value)
  | [] => .ok []
  | d :: rest => do
    let v ← toValue s d
    let vs ← toValues s rest
    pure (v :: vs)

def toFields (s : Setting) : List (String × Mark × Doc) → Except Fault (List (String × Value))
  | [] => .ok []
  | (k, _, d) :: rest => do
    let v ← toValue s d
    let vs ← toFields s rest
    pure ((k, v) :: vs)

end

end Doc

/-- What a fault at the end of a list is called once no more items are asked for. -/
def Cause.atEnd : Cause → Cause
  | .expectedListCommaOrEnd => .trailingCharacters
  | .eofInValue => .trailingCharacters
  | c => c

namespace Decoder

variable {α β σ τ : Type}

/-- Any value. -/
def any : Decoder Value := fun s d => d.toValue s

def string : Decoder String := fun _ d =>
  match d with
  | .string s _ _ => .ok s
  | d => .error (d.mismatch "a string")

def bool : Decoder Bool := fun _ d =>
  match d with
  | .bool b _ _ => .ok b
  | d => .error (d.mismatch "a boolean")

/-- A whole number from 0 to `max`, called `name` in messages. -/
def unsigned (max : Nat) (name : String) : Decoder Nat := fun _ d =>
  match d with
  | .number (.whole n) _ stop =>
    if 0 ≤ n && n ≤ max then .ok n.toNat
    else .error ⟨.invalidValue (Number.whole n).name name, stop⟩
  | d => .error (d.mismatch name)

/-- A number of lines or files. -/
def size : Decoder Nat := unsigned (Nat.pow 2 64 - 1) "usize"

/-- A whole number of 64 bits. -/
def word : Decoder Nat := unsigned (Nat.pow 2 64 - 1) "u64"

/-- A whole number as a double. -/
def floatOfInt (n : Int) : Float :=
  if n < 0 then -(UInt64.ofNat n.natAbs).toFloat else (UInt64.ofNat n.natAbs).toFloat

def float : Decoder Float := fun _ d =>
  match d with
  | .number (.whole n) _ _ => .ok (floatOfInt n)
  | .number (.float x) _ _ => .ok x
  | d => .error (d.mismatch "f64")

/-- `null`, or a value. -/
def option (dec : Decoder α) : Decoder (Option α) := fun s d =>
  match d with
  | .null _ _ => .ok none
  | d => (dec s d).map some

/-- The items of an array. -/
def list (dec : Decoder α) : Decoder (List α) := fun s d =>
  match d with
  | .array items start ending => do
    let inner ← s.inside start
    let as ← items.mapM (dec inner)
    match ending with
    | .closed _ => pure as
    | .broken f _ => .error f
  | d => .error (d.mismatch "a sequence")

/-- One of the named values, given by its name or as the only key of an object. -/
def oneOf (names : List (String × α)) : Decoder α := fun s d =>
  let known (n : String) (mark : Mark) : Except Fault α :=
    match names.lookup n with
    | some a => .ok a
    | none => .error ⟨.unknownVariant n (names.map (·.1)), mark⟩
  match d with
  | .string n _ stop => known n stop
  | .object fields start ending =>
    match fields with
    | (n, after, d) :: rest => do
      let inner ← s.inside start
      if !s.isText && !rest.isEmpty then
        .error ⟨.invalidValue "map" "map with a single key", .none⟩
      let a ← known n after
      match d with
      | .null _ _ => pure ()
      | d => .error (d.mismatch "unit")
      match rest, ending with
      | [], .closed _ => let _ := inner; pure a
      | [], .broken f _ => .error { f with cause := .expectedValue }
      | _, _ => .error ⟨.expectedValue, after⟩
    | [] =>
      if s.isText then
        match ending with
        | .closed stop => .error ⟨.expectedValue, stop⟩
        | .broken f _ => .error f
      else .error ⟨.invalidValue "map" "map with a single key", .none⟩
  | .unreadable f => .error (if s.isText then ⟨.expectedValue, f.mark⟩ else f)
  | .broken f _ => .error f
  | d =>
    if s.isText then .error ⟨.expectedValue, ⟨d.start.line, d.start.column + 1⟩⟩
    else .error (d.mismatch "string or map")

end Decoder

/-! ### Records -/

/-- What to do about a field that is not there. -/
inductive Absence (α : Type) where
  /-- It has to be there. -/
  | required
  /-- An object may leave it out; an array may not. -/
  | optional (value : α)
  /-- It may be left out. -/
  | default (value : α)

/-- The fields of a record while they are collected in `σ`, for a record `α`. -/
structure Fields (σ α : Type) where
  empty : σ
  /-- Take the value of a field by its name; `none` for a name that is no field. -/
  take : Setting → String → Mark → Doc → σ → Option (Except Fault σ)
  /-- The record, once all fields were seen. -/
  finish : σ → Except Cause α
  /-- Take fields in order off a list, where so many were taken before. -/
  takeInOrder : Setting → Nat → List Doc → Except (Fault ⊕ Nat) (α × Nat × List Doc)

namespace Fields

variable {α β σ τ : Type}

/-- One field, under a name or any of its aliases. -/
def field (name : String) (dec : Decoder α) (absence : Absence α := .required)
    (aliases : List String := []) : Fields (Option α) α where
  empty := none
  take s key mark d
    | some _ => if key = name || aliases.contains key then some (.error ⟨.duplicateField name, mark⟩)
      else none
    | none => if key = name || aliases.contains key then some ((dec s d).map some) else none
  finish
    | some a => .ok a
    | none =>
      match absence with
      | .required => .error (.missingField name)
      | .optional a | .default a => .ok a
  takeInOrder s n
    | d :: rest =>
      match dec s d with
      | .ok a => .ok (a, n + 1, rest)
      | .error f => .error (.inl f)
    | [] =>
      match absence with
      | .default a => .ok (a, n + 1, [])
      | _ => .error (.inr n)

/-- The fields of `f`, and then those of `g`. -/
def both (f : Fields σ α) (g : Fields τ β) : Fields (σ × τ) (α × β) where
  empty := (f.empty, g.empty)
  take s key mark d
    | (x, y) =>
      match f.take s key mark d x with
      | some r => some (r.map (·, y))
      | none => (g.take s key mark d y).map fun r => r.map (x, ·)
  finish
    | (x, y) => do
      let a ← f.finish x
      let b ← g.finish y
      pure (a, b)
  takeInOrder s n ds := do
    let (a, n, ds) ← f.takeInOrder s n ds
    let (b, n, ds) ← g.takeInOrder s n ds
    pure ((a, b), n, ds)

/-- The fields of `f`, made into another value. -/
def map (h : α → β) (f : Fields σ α) : Fields σ β where
  empty := f.empty
  take := f.take
  finish x := (f.finish x).map h
  takeInOrder s n ds := (f.takeInOrder s n ds).map fun (a, rest) => (h a, rest)

/-- Take the fields of an object in the order of the text. -/
def collect (f : Fields σ α) (s : Setting) : List (String × Mark × Doc) → σ → Except Fault σ
  | [], x => .ok x
  | (k, mark, d) :: rest, x =>
    match f.take s k mark d x with
    | some r => r.bind fun x => f.collect s rest x
    | none => d.skip.bind fun _ => f.collect s rest x

/-- A record called `name` with `count` fields. -/
def record (name : String) (count : Nat) (f : Fields σ α) : Decoder α := fun s d =>
  match d with
  | .object fields start ending => do
    let inner ← s.inside start
    let x ← f.collect inner fields f.empty
    match ending with
    | .broken fault _ => .error fault
    | .closed stop =>
      match f.finish x with
      | .ok a => pure a
      | .error cause => .error ⟨cause, stop⟩
  | .array items start ending => do
    let inner ← s.inside start
    match f.takeInOrder inner 0 items with
    | .error (.inl fault) => .error fault
    | .error (.inr n) =>
      match ending with
      | .broken fault _ => .error fault
      | .closed stop =>
        let plural := if count = 1 then "element" else "elements"
        .error ⟨.invalidLength n s!"struct {name} with {count} {plural}", stop⟩
    | .ok (a, _, []) =>
      match ending with
      | .closed _ => pure a
      | .broken fault _ => .error { fault with cause := fault.cause.atEnd }
    | .ok (_, _, extra :: _) =>
      if s.isText then
        let m := extra.start
        .error ⟨.trailingCharacters, ⟨m.line, m.column + 1⟩⟩
      else .error ⟨.invalidLength items.length "fewer elements in array", .none⟩
  | d => .error (d.mismatch s!"struct {name}")

end Fields

/-! ### Whole texts -/

/-- Take a value out of a text that holds nothing else. -/
def decodeText (dec : Decoder α) (text : String) : Except Fault α := do
  let (doc, rest) := readDocument text.toList
  let a ← dec .ofText doc
  match rest with
  | none => .error ⟨.eofInValue, .none⟩
  | some r =>
    let r := r.skipBlanks
    if r.rest.isEmpty then pure a else .error (r.peekFault .trailingCharacters)

/-- Take a value out of one that is already in memory. -/
def decodeValue (dec : Decoder α) (v : Value) : Except Fault α := dec .ofMemory (Doc.ofValue v)

/-- The value of a text. -/
def parse (text : String) : Except Fault Value := decodeText Decoder.any text

end RepoDocs.Json
