import RepoDocs.Documentation.Api
import RepoDocs.Proofs.Json.Reading
import RepoDocs.Proofs.Outline.Extent
import RepoDocs.Proofs.Outline.Quotations

/-! The string defaults of a script's parameters, from the tree to the API reference.  What is on record is
the text between the quotes of the literal, so it is the string that the literal denotes just when nothing
in it is escaped. -/

namespace RepoDocs

open Json

/-! ### Rendering -/

/-- Strings have different texts in JSON. -/
theorem Json.compact_string_inj {a b : String} :
    (Value.string a).compact = (Value.string b).compact ↔ a = b := by
  refine ⟨fun same => ?_, fun same => same ▸ rfl⟩
  have read (s : String) : parse (Value.string s).compact = .ok (.string s) :=
    (writes_compact (.string s)).parse trivial (Nat.zero_le 127)
  have := (read a).symm.trans (same ▸ read b)
  simpa using this

theorem Parameter.signature_string (x s : String) :
    Parameter.signature ⟨x, some (.string s)⟩ = x ++ " = " ++ (Value.string s).compact := rfl

namespace Outline

open Grammar Literal

/-! ### What has a record -/

/-- The node `n` is recorded under `name`, and an API reference calls it `title`: it is a function of the
tree, an arrow function that a variable is declared with, or a method of a class. -/
inductive Declares (root n : Node) : String → String → Prop
  | function {a key} (stands : Stands root a n)
      (kind : n.kind = .functionDeclaration ∨ n.kind = .generatorFunctionDeclaration)
      (outermost : ∀ m, root.Above a m → m.kind ∉ functionKinds)
      (named : n.child? .name = some key) : Declares root n key.text key.text
  | arrow {a v key} (stands : Stands root a v) (kind : v.kind = .variableDeclarator)
      (named : v.child? .name = some key) (plain : key.kind = .identifier)
      (value : v.child? .value = some n) (isArrow : n.kind = .arrowFunction) :
      Declares root n key.text key.text
  | method {a c i className key} (stands : Stands root a c)
      (isClass : c.kind = .classDeclaration ∨ c.kind = .abstractClassDeclaration)
      (classNamed : c.child? .name = some className) (isMember : Member c i n)
      (kind : n.kind = .methodDefinition) (named : n.child? .name = some key)
      (plain : key.kind = .propertyIdentifier) :
      Declares root n key.text (className.text ++ "." ++ key.text)

section Records

variable {nested inside : Bool} {root n m : Node} {a : List Nat} {name title fileName : String}
  {language : Language}

/-- Whatever a node adds that the walk comes to is found. -/
theorem Selects.mem_visit {β : Type} {get : Findings → List β} (h : Selects get) {y : β}
    (reaches : Reaches nested n a inside m) (hy : y ∈ get (ownFindings inside m)) :
    y ∈ get (Outline.visit nested n) := by
  induction reaches with
  | here =>
    rw [h.visit]
    exact List.mem_append_left _ hy
  | down kind child _ ih =>
    rw [h.visit, if_neg kind]
    exact List.mem_append_right _ (List.mem_flatMap.2 ⟨_, List.mem_of_getElem? child, ih hy⟩)

theorem DeclaresFunction.mem {f : FunctionOutline} (h : DeclaresFunction root a f) :
    f ∈ (ofTree fileName language root).functions := by
  obtain ⟨inside, m, reaches, hf⟩ := declaresFunction_iff.1 h
  exact selects_functions.mem_visit reaches hf

theorem entry_of_function {f : FunctionOutline} {o : FileOutline} (hf : f ∈ o.functions) :
    f ∈ o.callables ∧ ApiFunction.ofFunction f.name f ∈ ApiFunction.ofFile o :=
  ⟨List.mem_append_left _ hf, List.mem_append_left _ (List.mem_map_of_mem hf)⟩

theorem entry_of_method {c : ClassOutline} {f : FunctionOutline} {o : FileOutline}
    (hc : c ∈ o.classes) (hf : f ∈ c.methods) : f ∈ o.callables ∧
      ApiFunction.ofFunction (c.name ++ "." ++ f.name) f ∈ ApiFunction.ofFile o :=
  ⟨List.mem_append_right _ (List.mem_flatMap.2 ⟨c, hc, hf⟩),
    List.mem_append_right _ (List.mem_flatMap.2 ⟨c, hc, List.mem_map_of_mem hf⟩)⟩

/-- A node that declares something has its record and its entry. -/
theorem Declares.recorded (fileName : String) (language : Language) (h : Declares root n name title) :
    callable n name ∈ (ofTree fileName language root).callables ∧
      ApiFunction.ofFunction title (callable n name) ∈
        ApiFunction.ofFile (ofTree fileName language root) := by
  cases h with
  | function stands kind outermost named =>
    have declared := DeclaresFunction.declaration stands kind outermost named (describes_iff.2 rfl)
    exact entry_of_function declared.mem
  | arrow stands kind named plain value isArrow =>
    have declared := DeclaresFunction.arrow stands kind named plain value isArrow (describes_iff.2 rfl)
    exact entry_of_function declared.mem
  | @method a c i className key stands isClass classNamed isMember kind named plain =>
    obtain ⟨inside, reaches⟩ := stands_iff_reaches.1 stands
    have isMethod : method? n = some (callable n key.text) := by
      simp [method?, kind, named, plain]
    obtain ⟨record, found, recordName, methods⟩ : ∃ r, class? c = some r ∧ r.name = className.text ∧
        r.methods = (members c).filterMap method? := by
      rw [class?, classNamed]
      exact ⟨_, rfl, rfl, rfl⟩
    have listed : record ∈ (ofTree fileName language root).classes :=
      selects_classes.mem_visit reaches (mem_classes.2 ⟨isClass, found⟩)
    have isListed : callable n key.text ∈ record.methods := by
      rw [methods]
      exact List.mem_filterMap.2 ⟨n, List.mem_of_getElem? (member_iff.1 isMember), isMethod⟩
    rw [← recordName]
    exact entry_of_method listed isListed

end Records

/-! ### Defaults -/

/-- The node `p` is the `i`-th parameter of the callable `n`. -/
inductive Takes (n : Node) : Nat → Node → Prop
  | listed {list i p} (parameters : n.child? .parameters = some list)
      (position : (list.namedChildren.filter (·.kind ≠ .comment))[i]? = some p) : Takes n i p
  | alone {p} (unlisted : n.child? .parameters = none) (single : n.child? .parameter = some p) :
      Takes n 0 p

/-- The node `p` is a parameter `x`, with or without a type, that the value is the default of. -/
inductive DefaultsTo (p : Node) : String → Node → Prop
  | assigned {x value} (kind : p.kind = .assignmentPattern) (left : p.child? .left = some x)
      (plain : x.kind = .identifier) (right : p.child? .right = some value) : DefaultsTo p x.text value
  | typed {x value} (kind : p.kind = .requiredParameter ∨ p.kind = .optionalParameter)
      (pattern : p.child? .pattern = some x) (plain : x.kind = .identifier)
      (right : p.child? .value = some value) : DefaultsTo p x.text value

/-- The `i`-th parameter of the callable `n` is `x`, and its default is a literal for the string `s`, with
`body` between its quotes. -/
inductive DefaultsToString (n : Node) (i : Nat) (x : String) (body s : List Char) : Prop
  | mk {p literal} (takes : Takes n i p) (default : DefaultsTo p x literal)
      (kind : literal.kind = .stringLiteral) (quotes : Quotes body s literal.text.toList)

variable {root n p value : Node} {i : Nat} {x name title : String} {body s : List Char}

theorem Takes.getElem? (h : Takes n i p) : (parameters n)[i]? = some (parameter p) := by
  cases h with
  | listed parameters position =>
    simp only [Outline.parameters, parameters, List.getElem?_map, position, Option.map_some]
  | alone unlisted single => simp [Outline.parameters, unlisted, single]

theorem DefaultsTo.parameter (h : DefaultsTo p x value) : parameter p = ⟨x, constant? value⟩ := by
  cases h with
  | assigned kind left plain right => simp [Outline.parameter, kind, left, plain, right, defaulted]
  | typed kind pattern plain right =>
    rcases kind with kind | kind <;> simp [Outline.parameter, kind, pattern, plain, right, defaulted]

/-- The default on record is what stands between the quotes. -/
theorem DefaultsToString.getElem? (h : DefaultsToString n i x body s) :
    (parameters n)[i]? = some ⟨x, some (.string (.ofList body))⟩ := by
  obtain ⟨takes, default, kind, quotes⟩ := h
  rw [takes.getElem?, default.parameter, constant?, kind]
  simp only
  rw [quotes.unquote]

theorem DefaultsToString.eq_iff (h : DefaultsToString n i x body s) : body = s ↔ '\\' ∉ body := by
  obtain ⟨-, -, -, quotes⟩ := h
  exact quotes.eq_iff

/-- A parameter that defaults to a string is recorded with what stands between the quotes of the literal, and
shown with the JSON text of that.  Both are those of the string itself just when nothing in it is escaped. -/
theorem string_default_as_written (fileName : String) (language : Language) {files : List FileOutline}
    (declares : Declares root n name title) (default : DefaultsToString n i x body s)
    (listed : ofTree fileName language root ∈ files) :
    ∃ f ∈ (ofTree fileName language root).callables, Describes n name f ∧
      f.parameters[i]? = some ⟨x, some (.string (.ofList body))⟩ ∧
      (f.parameters[i]? = some ⟨x, some (.string (.ofList s))⟩ ↔ '\\' ∉ body) ∧
      ∃ e ∈ ApiFunction.ofFiles files, e = ApiFunction.ofFunction title f ∧
        e.parameters[i]? = some (x ++ " = " ++ (Value.string (.ofList body)).compact) ∧
        (e.parameters[i]? = some (x ++ " = " ++ (Value.string (.ofList s)).compact) ↔ '\\' ∉ body) := by
  obtain ⟨recorded, entered⟩ := declares.recorded fileName language
  have parameter : (callable n name).parameters[i]? = some ⟨x, some (.string (.ofList body))⟩ :=
    default.getElem?
  have shown : (ApiFunction.ofFunction title (callable n name)).parameters[i]? =
      some (x ++ " = " ++ (Value.string (.ofList body)).compact) := by
    rw [ApiFunction.ofFunction, List.getElem?_map, parameter, Option.map_some, Parameter.signature_string]
  refine ⟨_, recorded, describes_iff.2 rfl, parameter, ?_, _,
    List.mem_flatMap.2 ⟨_, listed, entered⟩, rfl, shown, ?_⟩
  · rw [parameter, ← default.eq_iff]
    simp [String.ofList_inj]
  · rw [shown, ← default.eq_iff, Option.some.injEq, String.append_right_inj, compact_string_inj,
      String.ofList_inj]

/-- A leaf in the first row. -/
def rowLeaf (kind : Kind) (label : Option Label) (text : String) : Node :=
  { kind, label, startRow := 0, endRow := 0, text }

/-- A bare token in the first row. -/
def rowToken (text : String) : Node :=
  rowLeaf (.token text) none text

/-- The parameter `a = 'it\'s'`. -/
def escapedDefault : Node :=
  .spanning .assignmentPattern 0
    [rowLeaf .identifier (some .left) "a", rowToken "=", rowLeaf .stringLiteral (some .right) "'it\\'s'"]

/-- The function `f` of that parameter, with an empty body. -/
def escapedFunction : Node :=
  .spanning .functionDeclaration 0
    [rowToken "function", rowLeaf .identifier (some .name) "f",
      .withLabel .parameters (.spanning (.other "formal_parameters") 0
        [rowToken "(", escapedDefault, rowToken ")"]),
      .withLabel .body (.spanning (.other "statement_block") 0
        [rowToken "\x7b", rowToken "\x7d", rowToken ""])]

/-- The tree of a file with that function alone. -/
def escapedFile : Node :=
  .spanning (.other "program") 0 [escapedFunction]

/-- The string is `it's`, but the backslash is kept, and escaped once more in the reference. -/
theorem string_default_as_written_escaped :
    ∃ f ∈ (ofTree "a.js" .javascript escapedFile).callables,
      f.parameters[0]? = some ⟨"a", some (.string "it\\'s")⟩ ∧
      f.parameters[0]? ≠ some ⟨"a", some (.string "it's")⟩ ∧
      ∃ e ∈ ApiFunction.ofFiles [ofTree "a.js" .javascript escapedFile],
        e.parameters[0]? = some "a = \"it\\\\'s\"" ∧ e.parameters[0]? ≠ some "a = \"it's\"" := by
  have outermost : ∀ m, escapedFile.Above [0] m → m.kind ∉ functionKinds := by
    intro m above
    rcases Node.above_cons.1 above with rfl | ⟨c, -, above⟩
    · decide
    · exact absurd above Node.not_above_nil
  have named : escapedFunction.child? .name = some (rowLeaf .identifier (some .name) "f") := rfl
  have declares : Declares escapedFile escapedFunction "f" "f" :=
    .function (stands_cons.2 ⟨by decide, _, rfl, stands_nil.2 rfl⟩) (.inl rfl) outermost named
  have left : escapedDefault.child? .left = some (rowLeaf .identifier (some .left) "a") := rfl
  have right : escapedDefault.child? .right =
    some (rowLeaf .stringLiteral (some .right) "'it\\'s'") := rfl
  have denotes : Denotes '\'' "it\\'s".toList "it's".toList :=
    .plain (by decide) (.plain (by decide) (.escape (.itself (by decide)) (.plain (by decide) .nil)))
  have default : DefaultsToString escapedFunction 0 "a" "it\\'s".toList "it's".toList :=
    .mk (.listed rfl rfl) (.assigned rfl left rfl right) rfl (.mk (.inr rfl) denotes)
  obtain ⟨f, hf, -, recorded, escaped, e, he, -, shown, shownEscaped⟩ :=
    string_default_as_written "a.js" .javascript declares default (List.mem_singleton_self _)
  refine ⟨f, hf, recorded, fun h => ?_, e, he, shown, fun h => ?_⟩
  · exact escaped.1 h (by decide)
  · exact shownEscaped.1 h (by decide)

end Outline

end RepoDocs
