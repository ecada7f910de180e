import Mathlib.Data.List.Forall2
import RepoDocs.Outline.Script
import RepoDocs.Proofs.Script.Program

/-! The outline of a program does not depend on the dialect that it is parsed in.  Two trees are alike when
everything that an outline reads off them is the same; nodes that the grammars build alike are alike when
their children are, and each construct that they build differently is looked at once. -/

namespace RepoDocs.Outline

open Grammar Script

/-! ### Lists with related entries -/

section Related

variable {α γ : Type} {R : α → α → Prop} {xs ys : List α}

theorem map_of_related {f : α → γ} (h : List.Forall₂ R xs ys) (same : ∀ x y, R x y → f x = f y) :
    xs.map f = ys.map f := by
  induction h with
  | nil => rfl
  | cons hxy _ ih => rw [List.map_cons, List.map_cons, same _ _ hxy, ih]

theorem filterMap_of_related {f : α → Option γ} (h : List.Forall₂ R xs ys)
    (same : ∀ x y, R x y → f x = f y) : xs.filterMap f = ys.filterMap f := by
  have maps := congrArg (List.filterMap id) (map_of_related h same)
  simpa [List.filterMap_map] using maps

theorem flatMap_of_related {f : α → List γ} (h : List.Forall₂ R xs ys)
    (same : ∀ x y, R x y → f x = f y) : xs.flatMap f = ys.flatMap f := by
  rw [List.flatMap_def, List.flatMap_def, map_of_related h same]

theorem filter_of_related {p : α → Bool} (h : List.Forall₂ R xs ys)
    (same : ∀ x y, R x y → p x = p y) :
    List.Forall₂ (fun x y => R x y ∧ p x = true) (xs.filter p) (ys.filter p) := by
  induction h with
  | nil => exact .nil
  | @cons x y xs ys hxy _ ih =>
    rw [List.filter_cons, List.filter_cons, ← same x y hxy]
    split
    · next kept => exact .cons ⟨hxy, kept⟩ ih
    · exact ih

theorem find?_of_related {p : α → Bool} (h : List.Forall₂ R xs ys)
    (same : ∀ x y, R x y → p x = p y) : xs.find? p = none ∧ ys.find? p = none ∨
      ∃ x y, xs.find? p = some x ∧ ys.find? p = some y ∧ R x y ∧ p x = true := by
  induction h with
  | nil => exact .inl ⟨rfl, rfl⟩
  | @cons x y xs ys hxy _ ih =>
    rw [List.find?_cons, List.find?_cons, ← same x y hxy]
    cases here : p x with
    | true => exact .inr ⟨x, y, rfl, rfl, hxy, here⟩
    | false => exact ih

end Related

/-! ### Alike nodes -/

def fieldKinds : List Kind := [.fieldDefinition, .publicFieldDefinition]

def listed (n : Node) : List Parameter :=
  (n.namedChildren.filter (·.kind ≠ .comment)).map parameter

/-- The kinds are the same, or both are those of fields. -/
def SameKind (k k' : Kind) : Prop := k = k' ∨ k ∈ fieldKinds ∧ k' ∈ fieldKinds

theorem SameKind.iff {k₁ k₂ k : Kind} (h : SameKind k₁ k₂) (plain : k ∉ fieldKinds) :
    k₁ = k ↔ k₂ = k := by
  rcases h with rfl | ⟨ha, hb⟩
  · rfl
  · constructor
    · rintro rfl
      exact absurd ha plain
    · rintro rfl
      exact absurd hb plain

theorem SameKind.of_field {γ : Type} {f : Kind → γ} {k₁ k₂ : Kind} (h : SameKind k₁ k₂)
    (same : f .fieldDefinition = f .publicFieldDefinition) : f k₁ = f k₂ := by
  rcases h with rfl | ⟨ha, hb⟩
  · rfl
  · simp only [fieldKinds, List.mem_cons, List.not_mem_nil, or_false] at ha hb
    rcases ha with rfl | rfl <;> rcases hb with rfl | rfl <;> simp [same]

/-- The walk finds the same in two nodes, and they are the same token if they are tokens. -/
structure Matches (a b : Node) : Prop where
  token : ∀ t, a.kind = .token t ↔ b.kind = .token t
  hasError : a.hasError = b.hasError
  visit : ∀ nested, visit nested a = visit nested b

/-- The nodes match and are the same parameter of a list, or both comments in it. -/
structure Counterpart (a b : Node) : Prop extends Matches a b where
  comment : a.kind = .comment ↔ b.kind = .comment
  parameter : parameter a = parameter b

/-- Whatever an outline reads off two nodes is the same.  What it reads only off nodes of some kinds or in
one role has to be the same only there. -/
structure Alike (a b : Node) : Prop extends Matches a b where
  label : a.label = b.label
  startRow : a.startRow = b.startRow
  endRow : a.endRow = b.endRow
  text : a.text = b.text
  kind : SameKind a.kind b.kind
  record : opensFunction a.kind = true → ∀ name, callable a name = callable b name
  name : isExportable a.kind = true → (a.child? .name).map (·.text) = (b.child? .name).map (·.text)
  parameter : parameter a = parameter b
  method? : method? a = method? b
  property? : property? a = property? b
  bindingNames : bindingNames a = bindingNames b
  specifierName? : a.kind = .importSpecifier → specifierName? a = specifierName? b
  listed : a.label = some .parameters → listed a = listed b
  clause : a.kind = .importClause →
    a.namedChildren.flatMap Outline.bindingNames = b.namedChildren.flatMap Outline.bindingNames

variable {a b n m : Node} {as bs : List Node}

theorem isNamed_iff {k : Kind} : k.isNamed = true ↔ ∀ t, k ≠ .token t := by
  cases k <;> simp [Kind.isNamed]

theorem Matches.isNamed (h : Matches a b) : a.kind.isNamed = b.kind.isNamed := by
  rw [Bool.eq_iff_iff, isNamed_iff, isNamed_iff]
  exact forall_congr' fun t => not_congr (h.token t)

theorem Alike.counterpart (h : Alike a b) : Counterpart a b :=
  ⟨h.toMatches, h.kind.iff (by simp [fieldKinds]), h.parameter⟩

theorem Alike.constant? (h : Alike a b) : constant? a = constant? b := by
  have sameKind : Outline.constant? { b with kind := a.kind } =
      Outline.constant? { b with kind := b.kind } :=
    h.kind.of_field (f := fun k => Outline.constant? { b with kind := k }) rfl
  unfold Outline.constant? at sameKind ⊢
  rw [h.text]
  exact sameKind

/-! ### Nodes with matching children -/

theorem anyError_of_matches (h : List.Forall₂ Matches as bs) :
    Node.anyError as = Node.anyError bs := by
  induction h with
  | nil => rfl
  | cons hxy _ ih => rw [Node.anyError, Node.anyError, hxy.hasError, ih]

theorem visitAll_of_matches (h : List.Forall₂ Matches as bs) (nested : Bool) :
    visitAll nested as = visitAll nested bs := by
  induction h with
  | nil => rfl
  | cons hxy _ ih => rw [visitAll, visitAll, hxy.isNamed, hxy.visit, ih]

theorem namedChildren_of_related {R : Node → Node → Prop} (h : List.Forall₂ R n.children m.children)
    (same : ∀ a b, R a b → Matches a b) : List.Forall₂ R n.namedChildren m.namedChildren :=
  (filter_of_related h fun a b hab => (same a b hab).isNamed).imp fun _ _ => And.left

theorem listed_of_counterparts (h : List.Forall₂ Counterpart n.children m.children) :
    listed n = listed m := by
  have kept := filter_of_related (p := fun c => decide (c.kind ≠ .comment))
    (namedChildren_of_related h fun _ _ => Counterpart.toMatches)
    fun a b hab => decide_eq_decide.2 (not_congr hab.comment)
  exact map_of_related kept fun _ _ hab => hab.1.parameter

theorem hasToken_of_matches (h : List.Forall₂ Matches n.children m.children) (t : String) :
    n.hasToken t = m.hasToken t := by
  have tokens := map_of_related (f := fun c => decide (c.kind = .token t)) h fun a b hab =>
    decide_eq_decide.2 (hab.token t)
  simpa [Node.hasToken, List.any_map] using congrArg (List.any · id) tokens

theorem visit_eq (nested : Bool) (n : Node) : visit nested n =
    if n.kind = .importStatement then ownFindings nested n
    else ownFindings nested n ++ visitAll (nested || opensFunction n.kind) n.children := by
  cases n
  rfl

theorem hasError_eq (n : Node) : n.hasError =
    (decide (n.kind = .error) || decide (n.kind = .missing) || Node.anyError n.children) := by
  cases n
  rfl

theorem Matches.of_children (kind : SameKind n.kind m.kind)
    (own : ∀ nested, ownFindings nested n = ownFindings nested m)
    (h : List.Forall₂ Matches n.children m.children) : Matches n m where
  token t := kind.iff (by simp [fieldKinds])
  hasError := by
    rw [hasError_eq, hasError_eq, anyError_of_matches h,
      decide_eq_decide.2 (kind.iff (k := .error) (by simp [fieldKinds])),
      decide_eq_decide.2 (kind.iff (k := .missing) (by simp [fieldKinds]))]
  visit nested := by
    have isImport := kind.iff (k := .importStatement) (by simp [fieldKinds])
    simp only [visit_eq, own, visitAll_of_matches h, isImport, kind.of_field (f := opensFunction) rfl]

/-! ### Nodes with alike children -/

section Children

variable (h : List.Forall₂ Alike n.children m.children)
include h

theorem child?_cases (l : Label) : n.child? l = none ∧ m.child? l = none ∨
    ∃ x y, n.child? l = some x ∧ m.child? l = some y ∧ Alike x y ∧ x.label = some l := by
  have found := find?_of_related (p := fun c => decide (c.label = some l)) h fun a b hab => by
    rw [hab.label]
  simp only [decide_eq_true_eq] at found
  exact found

theorem child?_text (l : Label) : (n.child? l).map (·.text) = (m.child? l).map (·.text) := by
  rcases child?_cases h l with ⟨hn, hm⟩ | ⟨x, y, hn, hm, hxy, -⟩
  · rw [hn, hm]
  · rw [hn, hm, Option.map_some, Option.map_some, hxy.text]

theorem matches_alike : List.Forall₂ Matches n.children m.children :=
  h.imp fun _ _ => Alike.toMatches

theorem namedChildren_alike : List.Forall₂ Alike n.namedChildren m.namedChildren :=
  namedChildren_of_related h fun _ _ => Alike.toMatches

theorem parameters_alike : parameters n = parameters m := by
  unfold parameters
  rcases child?_cases h .parameters with ⟨hn, hm⟩ | ⟨x, y, hn, hm, hxy, role⟩
  · rw [hn, hm]
    rcases child?_cases h .parameter with ⟨hn, hm⟩ | ⟨x, y, hn, hm, hxy, -⟩
    · rw [hn, hm]
    · rw [hn, hm]
      simp only [hxy.parameter]
  · rw [hn, hm]
    exact hxy.listed role

theorem callable_alike (start : n.startRow = m.startRow) (ends : n.endRow = m.endRow)
    (name : String) : callable n name = callable m name := by
  simp only [callable, start, ends, parameters_alike h, hasToken_of_matches (matches_alike h)]

theorem child?_constant (l : Label) :
    (n.child? l).bind constant? = (m.child? l).bind constant? := by
  rcases child?_cases h l with ⟨hn, hm⟩ | ⟨x, y, hn, hm, hxy, -⟩
  · rw [hn, hm]
  · rw [hn, hm, Option.bind_some, Option.bind_some, hxy.constant?]

theorem parameter_alike (kind : n.kind = m.kind) (shared : n.kind ∉ divergentKinds)
    (text : n.text = m.text) : parameter n = parameter m := by
  unfold parameter
  rw [← kind, ← text]
  split <;> try rfl
  · rcases child?_cases h .left with ⟨hn, hm⟩ | ⟨x, y, hn, hm, hxy, -⟩
    · rw [hn, hm]
    · have plain := hxy.kind.iff (k := .identifier) (by simp [fieldKinds])
      simp only [hn, hm, defaulted, child?_constant h, plain, hxy.text]
  all_goals simp_all [divergentKinds]

theorem method?_alike (kind : n.kind = m.kind) (record : ∀ name, callable n name = callable m name) :
    method? n = method? m := by
  unfold method?
  by_cases isMethod : n.kind = .methodDefinition
  · rw [← kind, isMethod]
    rcases child?_cases h .name with ⟨hn, hm⟩ | ⟨x, y, hn, hm, hxy, -⟩
    · rw [hn, hm]
    · have plain := hxy.kind.iff (k := .propertyIdentifier) (by simp [fieldKinds])
      simp only [hn, hm, plain, hxy.text, record]
  · simp [isMethod, ← kind]

theorem declaredArrow?_alike : declaredArrow? n = declaredArrow? m := by
  unfold declaredArrow?
  rcases child?_cases h .name with ⟨hn, hm⟩ | ⟨x, y, hn, hm, hxy, -⟩
  · rw [hn, hm]
  · rcases child?_cases h .value with ⟨hn', hm'⟩ | ⟨x', y', hn', hm', hxy', -⟩
    · rw [hn, hm, hn', hm']
    · have plain := hxy.kind.iff (k := .identifier) (by simp [fieldKinds])
      have arrow := hxy'.kind.iff (k := .arrowFunction) (by simp [fieldKinds])
      by_cases isArrow : x'.kind = .arrowFunction
      · have record := hxy'.record (isArrow ▸ rfl)
        simp only [hn, hm, hn', hm', plain, arrow.1 isArrow, isArrow, hxy.text, record]
      · simp [hn, hm, hn', hm', isArrow, mt arrow.2 isArrow]

theorem specifierName?_alike : specifierName? n = specifierName? m := by
  unfold specifierName?
  rcases child?_cases h .localName with ⟨hn, hm⟩ | ⟨x, y, hn, hm, hxy, -⟩
  · simpa [hn, hm] using child?_text h .name
  · simp [hn, hm, hxy.text]

theorem bindingNames_alike (kind : n.kind = m.kind) (text : n.text = m.text) :
    bindingNames n = bindingNames m := by
  unfold bindingNames
  rw [← kind, ← text]
  split
  · rfl
  · have found := find?_of_related (p := fun c => decide (c.kind = .identifier)) (namedChildren_alike h)
      fun a b hab => decide_eq_decide.2 (hab.kind.iff (by simp [fieldKinds]))
    rcases found with ⟨hn, hm⟩ | ⟨x, y, hn, hm, hxy, -⟩
    · rw [hn, hm]
    · rw [hn, hm, Option.map_some, Option.map_some, hxy.text]
  · have specifiers := filter_of_related (p := fun c => decide (c.kind = .importSpecifier))
      (namedChildren_alike h) fun a b hab => decide_eq_decide.2 (hab.kind.iff (by simp [fieldKinds]))
    exact filterMap_of_related specifiers fun a b hab =>
      hab.1.specifierName? (of_decide_eq_true hab.2)
  · rfl

theorem clause_alike : n.namedChildren.flatMap bindingNames = m.namedChildren.flatMap bindingNames :=
  flatMap_of_related (namedChildren_alike h) fun _ _ hab => hab.bindingNames

theorem import?_alike : import? n = import? m := by
  unfold import?
  have clauses := filter_of_related (p := fun c => decide (c.kind = .importClause))
    (namedChildren_alike h) fun a b hab => decide_eq_decide.2 (hab.kind.iff (by simp [fieldKinds]))
  rw [flatMap_of_related clauses fun a b hab => hab.1.clause (of_decide_eq_true hab.2)]
  rcases child?_cases h .source with ⟨hn, hm⟩ | ⟨x, y, hn, hm, hxy, -⟩
  · rw [hn, hm]
  · simp only [hn, hm, Option.map_some, hxy.text]

theorem exportedName?_alike : exportedName? n = exportedName? m := by
  unfold exportedName?
  rw [hasToken_of_matches (matches_alike h)]
  rcases child?_cases h .declaration with ⟨hn, hm⟩ | ⟨x, y, hn, hm, hxy, -⟩
  · rw [hn, hm]
  · simp only [hn, hm, ← hxy.kind.of_field (f := isExportable) rfl]
    by_cases exportable : isExportable x.kind = true
    · simp only [exportable, hxy.name exportable]
    · simp only [Bool.not_eq_true] at exportable
      simp [exportable]

end Children

theorem ownFindings_alike (h : List.Forall₂ Alike n.children m.children) (kind : n.kind = m.kind)
    (shared : n.kind ∉ divergentKinds) (record : ∀ name, callable n name = callable m name)
    (nested : Bool) : ownFindings nested n = ownFindings nested m := by
  have named : (n.child? .name).map (fun key => callable n key.text) =
      (m.child? .name).map fun key => callable m key.text := by
    have texts := congrArg (Option.map (callable m)) (child?_text h .name)
    simpa only [Option.map_map, Function.comp_def, record] using texts
  unfold ownFindings
  rw [← kind, named, declaredArrow?_alike h, import?_alike h, exportedName?_alike h]
  split <;> try rfl
  all_goals simp_all [divergentKinds]

theorem property?_of_shared (shared : n.kind ∉ divergentKinds) : property? n = none := by
  unfold property?
  rw [if_neg]
  rintro (h | h) <;> simp [h, divergentKinds] at shared

/-- Nodes that the grammars build alike are alike when their children are. -/
theorem Alike.of_children {kind : Kind} {label : Option Label} {startRow endRow : Nat} {text : String}
    (shared : kind ∉ divergentKinds) (h : List.Forall₂ Alike as bs) :
    Alike ⟨kind, label, startRow, endRow, text, as⟩ ⟨kind, label, startRow, endRow, text, bs⟩ := by
  generalize hn : (⟨kind, label, startRow, endRow, text, as⟩ : Node) = n
  generalize hm : (⟨kind, label, startRow, endRow, text, bs⟩ : Node) = m
  have children : List.Forall₂ Alike n.children m.children := by
    rw [← hn, ← hm]
    exact h
  have same : n.kind = m.kind ∧ n.label = m.label ∧ n.startRow = m.startRow ∧ n.endRow = m.endRow ∧
      n.text = m.text := by
    simp [← hn, ← hm]
  have sharedKind : n.kind ∉ divergentKinds := by
    rw [← hn]
    exact shared
  obtain ⟨sameKind, sameLabel, sameStart, sameEnd, sameText⟩ := same
  have record := callable_alike children sameStart sameEnd
  exact {
    Matches.of_children (.inl sameKind)
      (ownFindings_alike children sameKind sharedKind record) (matches_alike children) with
    label := sameLabel
    startRow := sameStart
    endRow := sameEnd
    text := sameText
    kind := .inl sameKind
    record := fun _ => record
    name := fun _ => child?_text children .name
    parameter := parameter_alike children sameKind sharedKind sameText
    method? := method?_alike children sameKind record
    property? := by
      rw [property?_of_shared sharedKind, property?_of_shared (sameKind ▸ sharedKind)]
    bindingNames := bindingNames_alike children sameKind sameText
    specifierName? := fun _ => specifierName?_alike children
    listed := fun _ => listed_of_counterparts (children.imp fun _ _ => Alike.counterpart)
    clause := fun _ => clause_alike children }

theorem matches_inRole (l l' : Option Label) (h : Matches a b) : Matches (inRole l a) (inRole l' b) where
  token := h.token
  hasError := by
    have same := h.hasError
    rw [hasError_eq, hasError_eq] at same ⊢
    exact same
  visit nested := by
    have same := h.visit nested
    rw [visit_eq, visit_eq] at same ⊢
    exact same

theorem Alike.inRole (h : Alike a b) {l : Option Label} (placed : l ≠ some .parameters) :
    Alike (inRole l a) (inRole l b) where
  toMatches := matches_inRole l l h.toMatches
  label := rfl
  startRow := h.startRow
  endRow := h.endRow
  text := h.text
  kind := h.kind
  record := h.record
  name := h.name
  parameter := h.parameter
  method? := h.method?
  property? := h.property?
  bindingNames := h.bindingNames
  specifierName? := h.specifierName?
  listed role := absurd role placed
  clause := h.clause

/-! ### Nodes that the grammars build differently -/

variable {d e : Dialect} {v w : Option Node}

theorem Matches.refl (n : Node) : Matches n n := ⟨fun _ => .rfl, rfl, fun _ => rfl⟩

theorem initializer_matches (l l' : Label) (h : Option.Rel Alike v w) :
    List.Forall₂ Matches (initializer l v) (initializer l' w) := by
  cases h with
  | none => exact .nil
  | some hxy =>
    refine .cons ?_ (.cons (matches_inRole _ _ hxy.toMatches) .nil)
    rw [hxy.startRow]
    exact .refl _

theorem find?_initializer {l l' : Label} (other : l ≠ l') (v : Option Node) :
    (initializer l v).find? (fun c => decide (c.label = some l')) = none := by
  cases v <;> simp [initializer, token, inRole, other]

theorem Findings.empty_append (f : Findings) : {} ++ f = f := rfl

theorem Findings.append_empty (f : Findings) : f ++ {} = f := by
  show Findings.append f {} = f
  simp [Findings.append]

theorem visit_inRole (nested : Bool) (l : Option Label) (n : Node) :
    visit nested (inRole l n) = visit nested n := by
  rw [visit_eq, visit_eq]
  rfl

theorem hasError_inRole (l : Option Label) (n : Node) : (inRole l n).hasError = n.hasError := by
  rw [hasError_eq, hasError_eq]
  rfl

theorem visitAll_initializer (nested : Bool) (l : Label) (v : Option Node) :
    visitAll nested (initializer l v) = visitAll nested v.toList := by
  cases v with
  | none => rfl
  | some v =>
    rw [initializer, visitAll, if_neg (by simp [token, Kind.isNamed])]
    simp only [visitAll, inRole_kind, visit_inRole, Option.toList_some]

theorem anyError_initializer (l : Label) (v : Option Node) :
    Node.anyError (initializer l v) = Node.anyError v.toList := by
  cases v with
  | none => rfl
  | some v => simp [initializer, token, Node.anyError, Node.hasError, hasError_inRole]

/-- The parameter that binds a pattern of a shape, with what is behind its equals sign. -/
def boundParameter (shape : Shape) (text : String) (value : Option Node) : Parameter :=
  match shape, value with
  | .name, value => defaulted text value
  | .object, none => ⟨"destructured", none⟩
  | .array, none => ⟨"arrayDestructured", none⟩
  | _, _ => ⟨"unknown", none⟩

variable {shape : Shape} {bound : Node}

theorem Shape.isNamed (shape : Shape) : shape.kind.isNamed = true := by
  cases shape <;> rfl

theorem constant?_inRole (l : Option Label) (n : Node) : constant? (inRole l n) = constant? n := rfl

theorem parameter_parameterTree (d : Dialect) (kind : bound.kind = shape.kind) (v : Option Node) :
    parameter (parameterTree d bound v) = boundParameter shape bound.text v := by
  cases typed : d.typed <;> cases shape <;> cases v <;>
    simp_all [parameterTree, parameter, boundParameter, Shape.kind, Node.child?, initializer, token,
      defaulted, constant?_inRole]

theorem visit_parameterTree (d : Dialect) (kind : bound.kind = shape.kind) (v : Option Node)
    (nested : Bool) :
    visit nested (parameterTree d bound v) = visit nested bound ++ visitAll nested v.toList := by
  have named := Shape.isNamed shape
  unfold parameterTree
  split
  · rw [visit_eq]
    simp [ownFindings, opensFunction, visitAll, visitAll_initializer, visit_inRole, kind, named,
      Findings.empty_append]
  · split
    · rw [visit_eq]
      simp [ownFindings, opensFunction, visitAll, visitAll_initializer, visit_inRole, kind, named,
        Findings.empty_append]
    · next absent =>
      obtain rfl : v = none := by simpa using absent
      exact (Findings.append_empty _).symm

theorem hasError_parameterTree (d : Dialect) (v : Option Node) :
    (parameterTree d bound v).hasError = (bound.hasError || Node.anyError v.toList) := by
  unfold parameterTree
  split
  · rw [hasError_eq]
    simp [Node.anyError, hasError_inRole, anyError_initializer]
  · split
    · rw [hasError_eq]
      simp [Node.anyError, hasError_inRole, anyError_initializer]
    · next absent =>
      obtain rfl : v = none := by simpa using absent
      exact (Bool.or_false _).symm

theorem kind_parameterTree (d : Dialect) (v : Option Node) :
    (parameterTree d bound v).kind = .requiredParameter ∨
      (parameterTree d bound v).kind = .assignmentPattern ∨
      (parameterTree d bound v).kind = bound.kind := by
  unfold parameterTree
  split
  · exact .inl rfl
  · split
    · exact .inr (.inl rfl)
    · exact .inr (.inr rfl)

theorem isNamed_parameterTree (d : Dialect) (kind : bound.kind = shape.kind) (v : Option Node) :
    (parameterTree d bound v).kind.isNamed = true ∧ (parameterTree d bound v).kind ≠ .comment := by
  rcases kind_parameterTree d v with h | h | h <;> rw [h]
  · exact ⟨rfl, by simp⟩
  · exact ⟨rfl, by simp⟩
  · rw [kind]
    cases shape <;> exact ⟨rfl, by simp [Shape.kind]⟩

theorem boundParameter_congr (text : String) (hv : Option.Rel Alike v w) :
    boundParameter shape text v = boundParameter shape text w := by
  cases hv with
  | none => rfl
  | some hxy => cases shape <;> simp [boundParameter, defaulted, hxy.constant?]

theorem toList_of_rel (hv : Option.Rel Alike v w) : List.Forall₂ Matches v.toList w.toList := by
  cases hv with
  | none => exact .nil
  | some hxy => exact .cons hxy.toMatches .nil

theorem parameterTree_counterpart (d e : Dialect) (h : Alike a b) (kind : a.kind = shape.kind)
    (hv : Option.Rel Alike v w) : Counterpart (parameterTree d a v) (parameterTree e b w) := by
  have kind' : b.kind = shape.kind :=
    (h.kind.iff (by cases shape <;> simp [Shape.kind, fieldKinds])).1 kind
  have named := isNamed_parameterTree d kind v
  have named' := isNamed_parameterTree e kind' w
  exact {
    token := fun t => iff_of_false (isNamed_iff.1 named.1 t) (isNamed_iff.1 named'.1 t)
    hasError := by
      rw [hasError_parameterTree, hasError_parameterTree, h.hasError,
        anyError_of_matches (toList_of_rel hv)]
    visit := fun nested => by
      rw [visit_parameterTree d kind, visit_parameterTree e kind', h.visit,
        visitAll_of_matches (toList_of_rel hv)]
    comment := iff_of_false named.2 named'.2
    parameter := by
      rw [parameter_parameterTree d kind, parameter_parameterTree e kind', h.text,
        boundParameter_congr _ hv] }

theorem parameters_tree_alike {startRow endRow : Nat} (h : List.Forall₂ Counterpart as bs) :
    Alike ⟨.other "formal_parameters", some .parameters, startRow, endRow, "", as⟩
      ⟨.other "formal_parameters", some .parameters, startRow, endRow, "", bs⟩ where
  toMatches := .of_children (.inl rfl) (fun _ => rfl) (h.imp fun _ _ => Counterpart.toMatches)
  label := rfl
  startRow := rfl
  endRow := rfl
  text := rfl
  kind := .inl rfl
  record opens := by simp [opensFunction] at opens
  name exportable := by simp [isExportable] at exportable
  parameter := rfl
  method? := rfl
  property? := rfl
  bindingNames := rfl
  specifierName? kind := by simp at kind
  listed _ := listed_of_counterparts h
  clause kind := by simp at kind

/-! ### Fields -/

variable {startRow endRow : Nat}

theorem kind_fieldTree (d : Dialect) (modifiers : List Node) (key : Node) (v : Option Node) :
    (fieldTree d startRow endRow modifiers key v).kind ∈ fieldKinds := by
  unfold fieldTree
  split <;> simp [fieldKinds]

theorem key_fieldTree (d : Dialect) (modifiers : List Node) (key : Node) (v : Option Node) :
    ((fieldTree d startRow endRow modifiers key v).child? .name <|>
      (fieldTree d startRow endRow modifiers key v).child? .property) =
      some (inRole (some (if d.typed then .name else .property)) key) := by
  have unlabelled (l : Label) :
      (modifiers.map (inRole none)).find? (fun c => decide (c.label = some l)) = none := by
    simp
  cases typed : d.typed <;>
    simp [fieldTree, Node.child?, List.find?_append, unlabelled, find?_initializer, typed]

theorem property?_fieldTree (d : Dialect) (modifiers : List Node) (key : Node) (v : Option Node) :
    property? (fieldTree d startRow endRow modifiers key v) =
      if key.kind = .propertyIdentifier then
        some ⟨key.text, (fieldTree d startRow endRow modifiers key v).hasToken "static"⟩
      else none := by
  have isField : (fieldTree d startRow endRow modifiers key v).kind = .publicFieldDefinition ∨
      (fieldTree d startRow endRow modifiers key v).kind = .fieldDefinition := by
    unfold fieldTree
    split <;> simp
  rw [property?, if_pos isField, key_fieldTree]
  rfl

theorem fieldTree_alike (d e : Dialect) (modifiers : List.Forall₂ Alike as bs) (key : Alike a b)
    (value : Option.Rel Alike v w) :
    Alike (fieldTree d startRow endRow as a v) (fieldTree e startRow endRow bs b w) := by
  have kind : (fieldTree d startRow endRow as a v).kind ∈ fieldKinds := kind_fieldTree d as a v
  have kind' : (fieldTree e startRow endRow bs b w).kind ∈ fieldKinds := kind_fieldTree e bs b w
  have children : List.Forall₂ Matches (fieldTree d startRow endRow as a v).children
      (fieldTree e startRow endRow bs b w).children := by
    refine List.rel_append ?_ (.cons (matches_inRole _ _ key.toMatches) (initializer_matches _ _ value))
    rw [List.forall₂_map_left_iff, List.forall₂_map_right_iff]
    exact modifiers.imp fun _ _ h => matches_inRole _ _ h.toMatches
  -- No reader but that of fields looks at a field, so the two kinds are alike to all others.
  have other {γ : Type} (f : Kind → γ) (same : f .fieldDefinition = f .publicFieldDefinition) :
      f (fieldTree d startRow endRow as a v).kind = f .fieldDefinition :=
    SameKind.of_field (.inr ⟨kind, by simp [fieldKinds]⟩) same
  exact {
    Matches.of_children (.inr ⟨kind, kind'⟩) (fun nested => by
      unfold fieldTree
      cases d.typed <;> cases e.typed <;> rfl) children with
    label := rfl
    startRow := rfl
    endRow := rfl
    text := rfl
    kind := .inr ⟨kind, kind'⟩
    record := fun opens => absurd ((other opensFunction rfl).symm.trans opens) (by decide)
    name := fun exportable => absurd ((other isExportable rfl).symm.trans exportable) (by decide)
    parameter := by
      unfold fieldTree
      cases d.typed <;> cases e.typed <;> rfl
    method? := by
      unfold fieldTree
      cases d.typed <;> cases e.typed <;> rfl
    property? := by
      rw [property?_fieldTree, property?_fieldTree, key.text, hasToken_of_matches children]
      simp only [key.kind.iff (k := .propertyIdentifier) (by simp [fieldKinds])]
    bindingNames := by
      unfold fieldTree
      cases d.typed <;> cases e.typed <;> rfl
    specifierName? := fun isSpecifier => by simp [isSpecifier, fieldKinds] at kind
    listed := fun role => by simp [fieldTree] at role
    clause := fun isClause => by simp [isClause, fieldKinds] at kind }

/-! ### Classes -/

variable {isDeclaration : Bool} {role : Option Label} {name : Option (String × Nat)}

theorem visit_spanning (nested : Bool) (kind : String) (row : Nat) (children : List Node) :
    visit nested (.spanning (.other kind) row children) = visitAll nested children := by
  rw [visit_eq]
  simp [Node.spanning, ownFindings, opensFunction, Findings.empty_append]

theorem hasError_spanning (kind : String) (row : Nat) (children : List Node) :
    (Node.spanning (.other kind) row children).hasError = Node.anyError children := by
  rw [hasError_eq]
  simp [Node.spanning]

theorem visit_heritageTree (d : Dialect) (parent : Node) (nested : Bool) :
    visit nested (heritageTree d parent) = visitAll nested [parent] := by
  have skip (l : Option Label) : visitAll nested [token "extends" parent.startRow, inRole l parent] =
      visitAll nested [parent] := by
    rw [visitAll, if_neg (by simp [token, Kind.isNamed])]
    simp only [visitAll, inRole_kind, visit_inRole]
  unfold heritageTree
  split
  · rw [visit_spanning, visitAll, if_pos (by rfl), visit_spanning, skip]
    exact Findings.append_empty _
  · rw [visit_spanning, skip]

theorem hasError_heritageTree (d : Dialect) (parent : Node) :
    (heritageTree d parent).hasError = parent.hasError := by
  unfold heritageTree
  split <;> simp [hasError_spanning, Node.anyError, Node.hasError, token, hasError_inRole]

theorem heritageTree_matches (d e : Dialect) (h : Alike a b) :
    Matches (heritageTree d a) (heritageTree e b) where
  token t := by
    unfold heritageTree
    split <;> split <;> simp [Node.spanning]
  hasError := by rw [hasError_heritageTree, hasError_heritageTree, h.hasError]
  visit nested := by
    rw [visit_heritageTree, visit_heritageTree, visitAll_of_matches (.cons h.toMatches .nil)]

theorem classNameTree_matches (d e : Dialect) (name : String × Nat) :
    Matches (classNameTree d name) (classNameTree e name) := by
  unfold classNameTree
  cases d.typed <;> cases e.typed <;> exact ⟨fun t => by simp, rfl, fun _ => rfl⟩

theorem class?_classTree (d : Dialect) (ms : List Node) :
    class? (classTree d isDeclaration role startRow endRow name v ms) =
      name.map fun (text, _) =>
        { name := text, startLine := startRow + 1, endLine := endRow + 1
          methods := (ms.filter (·.kind.isNamed)).filterMap method?
          properties := (ms.filter (·.kind.isNamed)).filterMap property?
          isExported := false } := by
  have unlabelled (l : Label) :
      ((v.map (heritageTree d)).toList).find? (fun c => decide (c.label = some l)) = none := by
    cases v <;> simp [heritageTree]
    split <;> simp [Node.spanning]
  cases name <;>
    simp [class?, classTree, members, Node.child?, Node.namedChildren, List.find?_append, unlabelled, token, classNameTree]

theorem classTree_children (d e : Dialect) (heritage : Option.Rel Alike v w)
    (members : List.Forall₂ Alike as bs) :
    List.Forall₂ Matches (classTree d isDeclaration role startRow endRow name v as).children
      (classTree e isDeclaration role startRow endRow name w bs).children := by
  have body : Alike ⟨.other "class_body", some .body, startRow, endRow, "", as⟩
      ⟨.other "class_body", some .body, startRow, endRow, "", bs⟩ :=
    .of_children (by simp [divergentKinds]) members
  have names : List.Forall₂ Matches (name.map (classNameTree d)).toList
      (name.map (classNameTree e)).toList := by
    cases name with
    | none => exact .nil
    | some name => exact .cons (classNameTree_matches d e name) .nil
  have parents : List.Forall₂ Matches (v.map (heritageTree d)).toList
      (w.map (heritageTree e)).toList := by
    cases heritage with
    | none => exact .nil
    | some h => exact .cons (heritageTree_matches d e h) .nil
  exact List.rel_append (.cons (.refl _) (List.rel_append names parents)) (.cons body.toMatches .nil)

theorem classTree_alike (d e : Dialect) (placed : role ≠ some .parameters)
    (heritage : Option.Rel Alike v w) (members : List.Forall₂ Alike as bs) :
    Alike (classTree d isDeclaration role startRow endRow name v as)
      (classTree e isDeclaration role startRow endRow name w bs) := by
  have named := (filter_of_related members fun _ _ h => h.isNamed).imp fun _ _ => And.left
  have record : class? (classTree d isDeclaration role startRow endRow name v as) =
      class? (classTree e isDeclaration role startRow endRow name w bs) := by
    rw [class?_classTree, class?_classTree, filterMap_of_related named fun _ _ h => h.method?,
      filterMap_of_related named fun _ _ h => h.property?]
  have own (nested : Bool) : ownFindings nested (classTree d isDeclaration role startRow endRow name v as) =
      ownFindings nested (classTree e isDeclaration role startRow endRow name w bs) := by
    cases isDeclaration
    · rfl
    · show ({ classes := (class? _).toList } : Findings) = { classes := (class? _).toList }
      rw [record]
  have kind : (classTree d isDeclaration role startRow endRow name v as).kind =
      (classTree e isDeclaration role startRow endRow name w bs).kind := rfl
  exact {
    Matches.of_children (.inl kind) own (classTree_children d e heritage members) with
    label := rfl
    startRow := rfl
    endRow := rfl
    text := rfl
    kind := .inl rfl
    record := fun opens => by cases isDeclaration <;> simp [classTree, opensFunction] at opens
    name := fun _ => by
      have names := congrArg (Option.map ClassOutline.name) record
      simpa [class?, Option.map_map, Function.comp_def] using names
    parameter := by cases isDeclaration <;> rfl
    method? := by cases isDeclaration <;> rfl
    property? := by cases isDeclaration <;> rfl
    bindingNames := by cases isDeclaration <;> rfl
    specifierName? := fun kind => by cases isDeclaration <;> simp [classTree] at kind
    listed := fun inList => absurd inList placed
    clause := fun kind => by cases isDeclaration <;> simp [classTree] at kind }

/-! ### Parts -/

mutual

theorem tree_alike (d e : Dialect) : ∀ p : Part, Alike (p.tree d) (p.tree e)
  | .node _ shared _ _ _ _ parts => .of_children shared (trees_alike d e parts)
  | .parameters _ _ items => parameters_tree_alike (itemTrees_counterpart d e items)
  | .field _ _ modifiers key value =>
    fieldTree_alike d e (trees_alike d e modifiers) (tree_alike d e key) (tree?_alike d e value)
  | .class _ _ placed _ _ _ heritage members =>
    classTree_alike d e placed (tree?_alike d e heritage) (trees_alike d e members)

theorem trees_alike (d e : Dialect) : ∀ ps : List Part, List.Forall₂ Alike (trees d ps) (trees e ps)
  | [] => .nil
  | p :: rest => .cons (tree_alike d e p) (trees_alike d e rest)

theorem tree?_alike (d e : Dialect) : ∀ p : Option Part, Option.Rel Alike (tree? d p) (tree? e p)
  | none => .none
  | some p => .some (tree_alike d e p)

theorem item_counterpart (d e : Dialect) : ∀ i : Item, Counterpart (i.tree d) (i.tree e)
  | .mark _ _ => ⟨.refl _, .rfl, rfl⟩
  | .comment _ _ _ => ⟨.refl _, .rfl, rfl⟩
  | .parameter shape _ _ _ parts value =>
    parameterTree_counterpart d e
      (.of_children (by cases shape <;> simp [Shape.kind, divergentKinds]) (trees_alike d e parts)) rfl
      (tree?_alike d e value)

theorem itemTrees_counterpart (d e : Dialect) :
    ∀ is : List Item, List.Forall₂ Counterpart (itemTrees d is) (itemTrees e is)
  | [] => .nil
  | i :: rest => .cons (item_counterpart d e i) (itemTrees_counterpart d e rest)

end

/-- The outline of a program of the shared constructs is the same in all dialects, but for the language
that it names. -/
theorem outline_of_program (fileName : String) (d e : Dialect) (p : Script.Program) :
    (p.tree e).hasError = (p.tree d).hasError ∧
      ofTree fileName (dialectLanguage e) (p.tree e) =
        { ofTree fileName (dialectLanguage d) (p.tree d) with language := dialectLanguage e } := by
  have same : Alike (p.tree e) (p.tree d) := .of_children (by simp [divergentKinds]) (trees_alike e d p.parts)
  refine ⟨same.hasError, ?_⟩
  simp only [ofTree, same.visit]

end RepoDocs.Outline
