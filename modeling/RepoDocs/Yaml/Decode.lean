import RepoDocs.Yaml.Node

/-! Values out of YAML documents.  A record is a mapping, or nothing at all, which is a mapping without
entries; entries with other names than its fields are skipped. -/

namespace RepoDocs.Yaml

/-! ### Aliases -/

mutual

/-- The nodes with anchors in the order in which they begin. -/
def Node.anchored : Node → List (Nat × Node)
  | scalar props style text => (props.anchor?.map (·, scalar props style text)).toList
  | sequence props items =>
    (props.anchor?.map (·, sequence props items)).toList ++ Node.anchoredItems items
  | mapping props entries =>
    (props.anchor?.map (·, mapping props entries)).toList ++ Node.anchoredEntries entries
  | reference _ => []

def Node.anchoredItems : List Node → List (Nat × Node)
  | [] => []
  | n :: rest => n.anchored ++ Node.anchoredItems rest

def Node.anchoredEntries : List (Node × Node) → List (Nat × Node)
  | [] => []
  | (k, v) :: rest => k.anchored ++ (v.anchored ++ Node.anchoredEntries rest)

end

/-- The nodes that bear anchors. -/
abbrev Anchors := List (Nat × Node)

/-- What a node stands for: an alias for the last node with its number. -/
def Node.target? (anchors : Anchors) : Node → Option Node
  | reference n => (anchors.reverse.lookup n)
  | node => some node

/-! ### Decoders -/

/-- How a value of a type is taken out of a node that is no alias. -/
abbrev Decoder (α : Type) := Anchors → Node → Option α

namespace Decoder

/-- The tags of the types that are told apart. -/
def nullTag : String := "tag:yaml.org,2002:null"

def intTag : String := "tag:yaml.org,2002:int"

/-- The digits of a number in a base, which is at most 16. -/
def digits? (base : Nat) (s : List Char) : Option Nat :=
  if s.isEmpty then none
  else
    s.foldlM (fun n c =>
      if isHexDigit c && hexNumber [c] < base then some (n * base + hexNumber [c]) else none) 0

/-- The number that a text gives: in hexadecimal, octal or binary digits behind a mark, or in decimal
digits without zeros in front. -/
def unsigned? (s : List Char) : Option Nat :=
  let s := if s.head? = some '+' then s.tail else s
  match s with
  | '0' :: 'x' :: rest => digits? 16 rest
  | '0' :: 'o' :: rest => digits? 8 rest
  | '0' :: 'b' :: rest => digits? 2 rest
  | '0' :: _ :: _ => none
  | s => digits? 10 s

/-- A number up to `max`, which is not quoted. -/
def number (max : Nat) : Decoder Nat := fun _ node =>
  match node with
  | .scalar props style text =>
    if style = .plain || (style = .literal && props.tag? = some intTag) then
      (unsigned? text.toList).filter (· ≤ max)
    else none
  | _ => none

/-- The text of a scalar. -/
def string : Decoder String := fun _ node =>
  match node with
  | .scalar _ _ text => some text
  | _ => none

/-- Whether a text says that there is no value. -/
def isNull (text : String) : Bool := ["null", "Null", "NULL", "~"].contains text

/-- A value that may be missing. -/
def option (dec : Decoder α) : Decoder (Option α) := fun anchors node =>
  match node with
  | .scalar { tag? := none, .. } .plain text =>
    if text.isEmpty || isNull text then some none else (dec anchors node).map some
  | .scalar { tag? := some tag, .. } .plain text =>
    if tag = nullTag then if isNull text then some none else none
    else (dec anchors node).map some
  | _ => (dec anchors node).map some

/-- The names and nodes of the entries of a mapping; names are scalars. -/
def entries? (anchors : Anchors) : Node → Option (List (String × Node))
  | .mapping _ entries =>
    entries.mapM fun (key, value) => do
      let key ← key.target? anchors
      return (← string anchors key, ← value.target? anchors)
  | .scalar _ .plain "" => some []
  | _ => none

/-- A record with some fields, none of which may be given twice.  `make` is told how to decode a
field, for which there is a value where it is not given. -/
def record (names : List String)
    (make : ((α : Type) → String → Decoder α → α → Option α) → Option β) : Decoder β :=
  fun anchors node => do
    let entries ← entries? anchors node
    let isTwice (name : String) : Bool := 1 < entries.countP (·.1 == name)
    if names.any isTwice then none
    else
      make fun _ name dec default =>
        match entries.lookup name with
        | some node => dec anchors node
        | none => some default

end Decoder

/-- The value that a text holds. -/
def decode? (dec : Decoder α) (text : String) : Option α := do
  let root := (← Document.parse? text).root?.getD Node.nothing
  let anchors := root.anchored
  dec anchors (← root.target? anchors)

end RepoDocs.Yaml
