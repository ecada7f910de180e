import RepoDocs.Yaml.Token

/-! Documents as trees of nodes.  An alias stands for the node that bears its anchor.  Anchors are
numbered as they come up: a new one gets the number of names that are known by then, so that a name
that comes up again takes a number that a later name may take from it. -/

namespace RepoDocs.Yaml

/-- What stands in front of a node: the number of its anchor, and its tag in full. -/
structure Properties where
  anchor? : Option Nat := none
  tag? : Option String := none
  deriving DecidableEq, Repr

inductive Node where
  | scalar (props : Properties) (style : Style) (text : String)
  | sequence (props : Properties) (items : List Node)
  | mapping (props : Properties) (entries : List (Node × Node))
  | reference (anchor : Nat)

/-- The contents of a text, which may have no document at all. -/
structure Document where
  root? : Option Node

namespace Node

/-! ### Reading nodes -/

/-- What is left of the tokens, what the handles of tags stand for and the numbers of anchors. -/
structure Reader where
  tokens : List Token
  handles : List (String × String)
  anchors : List (String × Nat) := []

abbrev Read := StateT Reader Option

/-- The next token, which is not taken. -/
def peek? : Read (Option Token) := return (← get).tokens.head?

/-- Take the next token. -/
def advance : Read Unit := modify fun r => { r with tokens := r.tokens.tail }

/-- Whether the next token is one of some. -/
def isNext (ts : List Token) : Read Bool := return (← peek?).any ts.contains

/-- Take the next token if it is `t`; says whether it is. -/
def takes (t : Token) : Read Bool := do
  if ← isNext [t] then
    advance
    return true
  else return false

/-- Take the next token, which must be `t`. -/
def expect (t : Token) : Read Unit := do
  if ← takes t then return else failure

/-- Give the next number to an anchor. -/
def addAnchor (name : String) : Read Nat := do
  let r ← get
  let n := r.anchors.length
  set { r with anchors := (name, n) :: r.anchors.filter (·.1 != name) }
  return n

/-- The tag in full. -/
def resolveTag (t : Tag) : Read String := do
  if t.handle.isEmpty then return t.suffix
  else
    match (← get).handles.lookup t.handle with
    | some replacement => return replacement ++ t.suffix
    | none => failure

/-- Take an anchor if it is next. -/
def anchorName? : Read (Option String) := do
  match ← peek? with
  | some (.anchor name) =>
    advance
    return some name
  | _ => return none

/-- Take a tag if it is next. -/
def tagText? : Read (Option String) := do
  match ← peek? with
  | some (.tag t) =>
    advance
    return some (← resolveTag t)
  | _ => return none

/-- An anchor and a tag, of which each may be missing and either may come first. -/
def properties : Read (Option String × Option String) := do
  let before? ← anchorName?
  let tag? ← tagText?
  let after? ← if before?.isNone && tag?.isSome then anchorName? else pure none
  return (before? <|> after?, tag?)

/-- The tag of a scalar.  An exclamation mark alone is none. -/
def scalarTag? (tag? : Option String) : Option String := tag?.filter (· != "!")

/-- The node where nothing is written. -/
def nothing : Node := .scalar {} .plain ""

mutual

/-- The node that begins here.  `inBlock` says whether it may be a block, and `indentless` whether it
may be a block sequence whose items stand at the indent of the mapping around it.  The number bounds
the depth of the reading. -/
def read : (fuel : Nat) → (inBlock indentless : Bool) → Read Node
  | 0, _, _ => failure
  | fuel + 1, inBlock, indentless => do
    match ← peek? with
    | some (.reference name) =>
      advance
      match (← get).anchors.lookup name with
      | some n => return .reference n
      | none => failure
    | _ =>
      let (name?, tag?) ← properties
      let next? ← peek?
      let begins :=
        match next? with
        | some .item => indentless
        | some (.scalar _ _) | some .flowSequence | some .flowMapping => true
        | some .blockSequence | some .blockMapping => inBlock
        | _ => false
      if !begins && name?.isNone && tag?.isNone then failure
      else
        let anchor? ← name?.mapM addAnchor
        let props : Properties := { anchor?, tag? }
        match next? with
        | some (.scalar style text) =>
          advance
          return .scalar { props with tag? := scalarTag? tag? } style text
        | some .item =>
          if indentless then return .sequence props (← indentlessItems fuel)
          else return .scalar props .plain ""
        | some .flowSequence =>
          advance
          return .sequence props (← flowItems fuel true)
        | some .flowMapping =>
          advance
          return .mapping props (← flowEntries fuel true)
        | some .blockSequence =>
          if inBlock then
            advance
            return .sequence props (← blockItems fuel)
          else return .scalar props .plain ""
        | some .blockMapping =>
          if inBlock then
            advance
            return .mapping props (← blockEntries fuel)
          else return .scalar props .plain ""
        | _ => return .scalar props .plain ""

/-- The node that begins here, or nothing if one of some tokens comes next. -/
def readUnless : (fuel : Nat) → List Token → (inBlock indentless : Bool) → Read Node
  | 0, _, _, _ => failure
  | fuel + 1, ends, inBlock, indentless => do
    if ← isNext ends then return nothing else read fuel inBlock indentless

/-- The items of a block sequence up to its end. -/
def blockItems : (fuel : Nat) → Read (List Node)
  | 0 => failure
  | fuel + 1 => do
    if ← takes .blockEnd then return []
    else
      expect .item
      let node ← readUnless fuel [.item, .blockEnd] true false
      return node :: (← blockItems fuel)

/-- The items of a block sequence that has no indent of its own. -/
def indentlessItems : (fuel : Nat) → Read (List Node)
  | 0 => failure
  | fuel + 1 => do
    if ← takes .item then
      let node ← readUnless fuel [.item, .key, .value, .blockEnd] true false
      return node :: (← indentlessItems fuel)
    else return []

/-- The entries of a block mapping up to its end. -/
def blockEntries : (fuel : Nat) → Read (List (Node × Node))
  | 0 => failure
  | fuel + 1 => do
    if ← takes .blockEnd then return []
    else
      expect .key
      let ends := [Token.key, .value, .blockEnd]
      let key ← readUnless fuel ends true true
      let value ← if ← takes .value then readUnless fuel ends true true else pure nothing
      return (key, value) :: (← blockEntries fuel)

/-- The items of a flow sequence up to its end.  A key makes an item that is a mapping with one
entry; the token behind a key without a node is skipped. -/
def flowItems : (fuel : Nat) → (isFirst : Bool) → Read (List Node)
  | 0, _ => failure
  | fuel + 1, isFirst => do
    if ← takes .flowSequenceEnd then return []
    else
      if !isFirst then expect .comma
      if ← takes .key then
        let key ←
          if ← isNext [.value, .comma, .flowSequenceEnd] then do
            advance
            pure nothing
          else read fuel false false
        let value ←
          if ← takes .value then readUnless fuel [.comma, .flowSequenceEnd] false false
          else pure nothing
        return .mapping {} [(key, value)] :: (← flowItems fuel false)
      else if ← takes .flowSequenceEnd then return []
      else
        let node ← read fuel false false
        return node :: (← flowItems fuel false)

/-- The entries of a flow mapping up to its end.  An item without a key is one whose value is
missing. -/
def flowEntries : (fuel : Nat) → (isFirst : Bool) → Read (List (Node × Node))
  | 0, _ => failure
  | fuel + 1, isFirst => do
    if ← takes .flowMappingEnd then return []
    else
      if !isFirst then expect .comma
      if ← takes .key then
        let key ← readUnless fuel [.value, .comma, .flowMappingEnd] false false
        let value ←
          if ← takes .value then readUnless fuel [.comma, .flowMappingEnd] false false
          else pure nothing
        return (key, value) :: (← flowEntries fuel false)
      else if ← takes .flowMappingEnd then return []
      else
        let key ← read fuel false false
        return (key, nothing) :: (← flowEntries fuel false)

end

end Node

/-! ### Documents -/

/-- What the handles of tags stand for where no directive says so. -/
def defaultHandles : List (String × String) := [("!", "!"), ("!!", "tag:yaml.org,2002:")]

/-- Whether directives may stand together: at most one version, which is 1.1 or 1.2, and no handle
twice. -/
def Directive.compatible : List Directive → Bool
  | [] => true
  | .version major minor :: rest =>
    major = 1 && (minor = 1 || minor = 2) &&
      rest.all (fun | .version _ _ => false | .handle _ _ => true) && compatible rest
  | .handle h _ :: rest =>
    rest.all (fun | .version _ _ => true | .handle h' _ => h' != h) && compatible rest

/-- What the handles of tags stand for under some directives. -/
def Directive.handles (ds : List Directive) : List (String × String) :=
  ds.filterMap fun
    | .version _ _ => none
    | .handle h replacement => some (h, replacement)

/-- The directives at the start of some tokens, and the tokens behind them. -/
def splitDirectives : List Token → List Directive × List Token
  | .directive d :: rest =>
    let (ds, rest) := splitDirectives rest
    (d :: ds, rest)
  | ts => ([], ts)

/-- The root of a document, which is empty when the document ends at once. -/
def readRoot (explicit : Bool) (fuel : Nat) : Node.Read Node := do
  match ← Node.peek? with
  | none | some .documentStart | some .documentEnd | some (.directive _) =>
    if explicit then return Node.nothing else failure
  | _ => Node.read fuel true false

/-- The document that some tokens make.  Directives need a mark behind them, and behind a document
there is nothing but marks of its end. -/
def documentOfTokens? (tokens : List Token) : Option Document := do
  if tokens.isEmpty then return ⟨none⟩
  else
    let (directives, rest) := splitDirectives tokens
    let explicit := rest.head? = some .documentStart
    if !Directive.compatible directives || (!directives.isEmpty && !explicit) then none
    else
      let tokens := if explicit then rest.tail else rest
      let handles := Directive.handles directives ++ defaultHandles
      let (root, r) ← (readRoot explicit (4 * tokens.length + 4)).run { tokens, handles }
      if r.tokens.all (· == .documentEnd) then return ⟨some root⟩ else none

/-- The document that a text holds; none if the text is no YAML or holds several documents. -/
def Document.parse? (text : String) : Option Document := do documentOfTokens? (← tokens? text)

end RepoDocs.Yaml
