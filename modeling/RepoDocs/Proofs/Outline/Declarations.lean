import RepoDocs.Outline.Script
import RepoDocs.Proofs.Grammar.Places

/-! What the outline of a script says of the tree it is read off.  Every record stands for one node, at
any depth but not below an import, and a function declaration has one only when it is in no other
function.  The records come in the order of the nodes they stand for, and there are no others. -/

namespace RepoDocs.Outline

open Grammar

/-! ### The declarations of a tree -/

/-- The kinds of the nodes that are functions. -/
def functionKinds : List Kind :=
  [.functionDeclaration, .generatorFunctionDeclaration, .arrowFunction, .functionExpression,
    .generatorFunction, .methodDefinition]

/-- The node `n` is at the place `a`, and no import is above it. -/
def Stands (root : Node) (a : List Nat) (n : Node) : Prop :=
  root.at? a = some n ∧ ∀ m, root.Above a m → m.kind ≠ .importStatement

/-- The record of a function is that of the node `n` under the given name. -/
structure Describes (n : Node) (name : String) (f : FunctionOutline) : Prop where
  name : f.name = name
  startLine : f.startLine = n.startRow + 1
  endLine : f.endLine = n.endRow + 1
  parameters : f.parameters = parameters n
  isAsync : f.isAsync = true ↔ ∃ c ∈ n.children, c.kind = .token "async"
  isExported : f.isExported = false

/-- What is at the place `a` declares a function: by its own name when it is in no other function, or as
a variable that an arrow function is the value of. -/
inductive DeclaresFunction (root : Node) (a : List Nat) : FunctionOutline → Prop
  | declaration {n key f} (stands : Stands root a n)
      (kind : n.kind = .functionDeclaration ∨ n.kind = .generatorFunctionDeclaration)
      (outermost : ∀ m, root.Above a m → m.kind ∉ functionKinds)
      (named : n.child? .name = some key) (record : Describes n key.text f) : DeclaresFunction root a f
  | arrow {n key arrow f} (stands : Stands root a n) (kind : n.kind = .variableDeclarator)
      (named : n.child? .name = some key) (plain : key.kind = .identifier)
      (value : n.child? .value = some arrow) (isArrow : arrow.kind = .arrowFunction)
      (record : Describes arrow key.text f) : DeclaresFunction root a f

/-- The node `m` is the `i`-th in the body of the class `n`. -/
def Member (n : Node) (i : Nat) (m : Node) : Prop :=
  ∃ body, n.child? .body = some body ∧ body.namedChildren[i]? = some m

/-- The `i`-th member of a class is a method with a plain name. -/
inductive HasMethod (n : Node) (i : Nat) (f : FunctionOutline) : Prop
  | mk {m key} (isMember : Member n i m) (kind : m.kind = .methodDefinition)
      (named : m.child? .name = some key) (plain : key.kind = .propertyIdentifier)
      (record : Describes m key.text f)

/-- The `i`-th member of a class is a field with a plain name, which is in the role of a name or of a
property. -/
inductive HasField (n : Node) (i : Nat) (p : Property) : Prop
  | mk {m key} (isMember : Member n i m)
      (kind : m.kind = .publicFieldDefinition ∨ m.kind = .fieldDefinition)
      (named : (m.child? .name <|> m.child? .property) = some key)
      (plain : key.kind = .propertyIdentifier) (name : p.name = key.text)
      (isStatic : p.isStatic = true ↔ ∃ c ∈ m.children, c.kind = .token "static")

/-- What is at the place `a` declares a class with a name. -/
inductive DeclaresClass (root : Node) (a : List Nat) (c : ClassOutline) : Prop
  | mk {n key} (stands : Stands root a n)
      (kind : n.kind = .classDeclaration ∨ n.kind = .abstractClassDeclaration)
      (named : n.child? .name = some key) (name : c.name = key.text)
      (startLine : c.startLine = n.startRow + 1) (endLine : c.endLine = n.endRow + 1)
      (methods : Gathers (HasMethod n) c.methods) (properties : Gathers (HasField n) c.properties)
      (isExported : c.isExported = false)

/-- A part of an import clause binds a name: the one of the default export, the one of the whole module,
or that of a specifier, which is its alias if it has one. -/
inductive BindsIn (binding : Node) : List Nat → String → Prop
  | whole (plain : binding.kind = .identifier) : BindsIn binding [] binding.text
  | module {x} (isModule : binding.kind = .namespaceImport)
      (first : binding.namedChildren.find? (·.kind = .identifier) = some x) : BindsIn binding [] x.text
  | specifier {k spec x} (isList : binding.kind = .namedImports)
      (element : binding.namedChildren[k]? = some spec) (kind : spec.kind = .importSpecifier)
      (named : (spec.child? .localName <|> spec.child? .name) = some x) : BindsIn binding [k] x.text

/-- An import statement binds a name in a part of its clause, at a place below it. -/
inductive Binds (n : Node) : List Nat → String → Prop
  | mk {i j clause binding rest name} (isClause : n.namedChildren[i]? = some clause)
      (kind : clause.kind = .importClause) (isPart : clause.namedChildren[j]? = some binding)
      (bound : BindsIn binding rest name) : Binds n (i :: j :: rest) name

/-- What is at the place `a` is an import statement with a source. -/
inductive DeclaresImport (root : Node) (a : List Nat) (i : ImportOutline) : Prop
  | mk {n source} (stands : Stands root a n) (kind : n.kind = .importStatement)
      (named : n.child? .source = some source) (name : i.source = Literal.unquote source.text)
      (names : Gathers (Binds n) i.importedNames)

/-- What is at the place `a` exports the function or class that it declares, under its own name. -/
inductive DeclaresExport (root : Node) (a : List Nat) : String → Prop
  | mk {n declaration key} (stands : Stands root a n) (kind : n.kind = .exportStatement)
      (own : ∀ c ∈ n.children, c.kind ≠ .token "default")
      (declares : n.child? .declaration = some declaration)
      (declared : declaration.kind ∈ [.functionDeclaration, .generatorFunctionDeclaration,
        .classDeclaration, .abstractClassDeclaration])
      (named : declaration.child? .name = some key) : DeclaresExport root a key.text

/-- The outline has a record for everything that the tree declares and for nothing else, in the order of
the nodes. -/
structure Reads (root : Node) (o : FileOutline) : Prop where
  functions : Gathers (DeclaresFunction root) o.functions
  classes : Gathers (DeclaresClass root) o.classes
  imports : Gathers (DeclaresImport root) o.imports
  exports : Gathers (DeclaresExport root) o.exports

/-! ### The nodes that the walk comes to -/

/-- The walk that starts at `n` comes to the node `m` at the place `a`, each inside a function or not. -/
inductive Reaches : Bool → Node → List Nat → Bool → Node → Prop
  | here {nested n} : Reaches nested n [] nested n
  | down {nested n i c a inside m} (kind : n.kind ≠ .importStatement)
      (child : n.namedChildren[i]? = some c)
      (rest : Reaches (nested || opensFunction n.kind) c a inside m) :
      Reaches nested n (i :: a) inside m

variable {nested inside : Bool} {root n m c : Node} {a : List Nat} {i : Nat}

theorem reaches_cons : Reaches nested n (i :: a) inside m ↔ n.kind ≠ .importStatement ∧
    ∃ c, n.namedChildren[i]? = some c ∧ Reaches (nested || opensFunction n.kind) c a inside m := by
  constructor
  · rintro (_ | ⟨kind, child, rest⟩)
    exact ⟨kind, _, child, rest⟩
  · rintro ⟨kind, c, child, rest⟩
    exact .down kind child rest

theorem stands_nil : Stands root [] n ↔ root = n := by
  simp [Stands, Node.not_above_nil]

theorem stands_cons : Stands n (i :: a) m ↔ n.kind ≠ .importStatement ∧
    ∃ c, n.namedChildren[i]? = some c ∧ Stands c a m := by
  unfold Stands
  rw [Node.at?_cons_eq_some]
  constructor
  · rintro ⟨⟨c, child, found⟩, outside⟩
    refine ⟨outside n (Node.above_cons.2 (.inl rfl)), c, child, found, fun f above => ?_⟩
    exact outside f (Node.above_cons.2 (.inr ⟨c, child, above⟩))
  · rintro ⟨kind, c, child, found, outside⟩
    refine ⟨⟨c, child, found⟩, fun f above => ?_⟩
    rcases Node.above_cons.1 above with rfl | ⟨c', child', above⟩
    · exact kind
    · obtain rfl := Option.some.inj (child.symm.trans child')
      exact outside f above

theorem opensFunction_iff {k : Kind} : opensFunction k = true ↔ k ∈ functionKinds := by
  simp [opensFunction, functionKinds, or_assoc]

/-- The flag of the walk says whether a function stands above the node. -/
theorem reaches_iff : Reaches nested root a inside m ↔ Stands root a m ∧
    (inside = true ↔ nested = true ∨ ∃ f, root.Above a f ∧ f.kind ∈ functionKinds) := by
  induction a generalizing root nested with
  | nil =>
    simp only [stands_nil, Node.not_above_nil, false_and, exists_false, or_false]
    constructor
    · rintro ⟨⟩
      exact ⟨rfl, .rfl⟩
    · rintro ⟨rfl, same⟩
      obtain rfl : inside = nested := Bool.eq_iff_iff.2 same
      exact .here
  | cons i a ih =>
    rw [reaches_cons, stands_cons, and_assoc]
    refine and_congr_right fun _ => ?_
    rw [← exists_and_right]
    refine exists_congr fun c => ?_
    rw [ih, and_assoc]
    refine and_congr_right fun child => and_congr_right fun _ => ?_
    -- The nodes above the place are the root and those above the rest of the place in the child.
    have above : (∃ f, root.Above (i :: a) f ∧ f.kind ∈ functionKinds) ↔
        root.kind ∈ functionKinds ∨ ∃ f, c.Above a f ∧ f.kind ∈ functionKinds := by
      simp [Node.above_cons, child, or_and_right, exists_or]
    rw [above, Bool.or_eq_true, opensFunction_iff, or_assoc]

theorem stands_iff_reaches : Stands root a m ↔ ∃ inside, Reaches nested root a inside m := by
  classical
  refine ⟨fun stands => ⟨decide (nested = true ∨ ∃ f, root.Above a f ∧ f.kind ∈ functionKinds), ?_⟩,
    fun ⟨_, reaches⟩ => (reaches_iff.1 reaches).1⟩
  exact reaches_iff.2 ⟨stands, decide_eq_true_iff⟩

/-! ### What the walk gathers -/

/-- A list of findings, which is built from left to right. -/
structure Selects {β : Type} (get : Findings → List β) : Prop where
  none : get {} = []
  append : ∀ a b, get (a ++ b) = get a ++ get b
  own : ∀ nested n, (get (ownFindings nested n)).length ≤ 1

section Selects

variable {β : Type} {get : Findings → List β}

theorem Selects.visitAll (h : Selects get) (ns : List Node) :
    get (visitAll nested ns) = (ns.filter (·.kind.isNamed)).flatMap fun c => get (visit nested c) := by
  induction ns with
  | nil => exact h.none
  | cons n ns ih =>
    rw [Outline.visitAll, List.filter_cons]
    split
    · rw [h.append, ih, List.flatMap_cons]
    · exact ih

theorem Selects.visit (h : Selects get) (n : Node) :
    get (visit nested n) = get (ownFindings nested n) ++
      if n.kind = .importStatement then []
      else n.namedChildren.flatMap fun c => get (visit (nested || opensFunction n.kind) c) := by
  obtain ⟨kind, label, startRow, endRow, text, children⟩ := n
  rw [Outline.visit]
  simp only
  split
  · rw [List.append_nil]
  · rw [h.append, h.visitAll, Node.namedChildren]

theorem gathers_own (h : Selects get) : Gathers
    (fun a y => a = ([] : List Nat) ∧ y ∈ get (ownFindings nested n)) (get (ownFindings nested n)) := by
  have short := h.own nested n
  match hget : get (ownFindings nested n), short with
  | [], _ => exact .nil fun a y => by simp
  | [y], _ => exact .one ⟨rfl, List.mem_singleton_self y⟩ fun b z hb => hb.1

theorem gathers_visit (h : Selects get) (nested : Bool) (n : Node) :
    Gathers (fun a y => ∃ inside m, Reaches nested n a inside m ∧ y ∈ get (ownFindings inside m))
      (get (visit nested n)) := by
  induction n using Node.induction generalizing nested with
  | step n ih =>
    rw [h.visit]
    by_cases kind : n.kind = .importStatement
    · rw [if_pos kind, List.append_nil]
      refine (gathers_own h).congr fun a y => ?_
      constructor
      · rintro ⟨rfl, hy⟩
        exact ⟨nested, n, .here, hy⟩
      · rintro ⟨inside, m, _ | ⟨other, -, -⟩, hy⟩
        · exact ⟨rfl, hy⟩
        · exact absurd kind other
    · rw [if_neg kind]
      have below := gathers_flatMap n.namedChildren fun c hc =>
        ih c hc (nested || opensFunction n.kind)
      refine ((gathers_own h).append below fun a x b y ha hb => ?_).congr fun a y => ?_
      · obtain ⟨i, c, b, rfl, -⟩ := hb
        rw [ha.1]
        exact List.nil_lt_cons i b
      · constructor
        · rintro (⟨rfl, hy⟩ | ⟨i, c, b, rfl, child, inside, m, rest, hy⟩)
          · exact ⟨nested, n, .here, hy⟩
          · exact ⟨inside, m, .down kind child rest, hy⟩
        · rintro ⟨inside, m, _ | ⟨-, child, rest⟩, hy⟩
          · exact .inl ⟨rfl, hy⟩
          · exact .inr ⟨_, _, _, rfl, child, inside, m, rest, hy⟩

/-- What the nodes that the walk comes to add is all there is to gather. -/
theorem gathers_iff_visit (h : Selects get) {ys : List β} {R : List Nat → β → Prop}
    (same : ∀ a y, R a y ↔ ∃ inside m, Reaches nested n a inside m ∧ y ∈ get (ownFindings inside m)) :
    Gathers R ys ↔ get (visit nested n) = ys := by
  have gathered := (gathers_visit h nested n).congr fun a y => (same a y).symm
  refine ⟨fun hys => gathered.unique hys ?_, fun hys => hys ▸ gathered⟩
  intro a y z hy hz
  obtain ⟨inside, m, reaches, hy⟩ := (same a y).1 hy
  obtain ⟨inside', m', reaches', hz⟩ := (same a z).1 hz
  obtain ⟨stands, flag⟩ := reaches_iff.1 reaches
  obtain ⟨stands', flag'⟩ := reaches_iff.1 reaches'
  obtain rfl := Option.some.inj (stands.1.symm.trans stands'.1)
  obtain rfl := Bool.eq_iff_iff.2 (flag.trans flag'.symm)
  have short := h.own inside m
  match hget : get (ownFindings inside m), short with
  | [], _ => simp [hget] at hy
  | [x], _ =>
    rw [hget, List.mem_singleton] at hy hz
    exact hy.trans hz.symm

end Selects

/-! ### What a node adds -/

theorem ownFindings_short (nested : Bool) (n : Node) :
    (ownFindings nested n).functions.length ≤ 1 ∧ (ownFindings nested n).classes.length ≤ 1 ∧
      (ownFindings nested n).imports.length ≤ 1 ∧ (ownFindings nested n).exports.length ≤ 1 := by
  unfold ownFindings
  split <;> try split
  all_goals simp [Option.length_toList_le]

theorem selects_functions : Selects Findings.functions :=
  ⟨rfl, fun _ _ => rfl, fun nested n => (ownFindings_short nested n).1⟩

theorem selects_classes : Selects Findings.classes :=
  ⟨rfl, fun _ _ => rfl, fun nested n => (ownFindings_short nested n).2.1⟩

theorem selects_imports : Selects Findings.imports :=
  ⟨rfl, fun _ _ => rfl, fun nested n => (ownFindings_short nested n).2.2.1⟩

theorem selects_exports : Selects Findings.exports :=
  ⟨rfl, fun _ _ => rfl, fun nested n => (ownFindings_short nested n).2.2.2⟩

theorem hasToken_iff {t : String} : n.hasToken t = true ↔ ∃ c ∈ n.children, c.kind = .token t := by
  simp [Node.hasToken]

theorem describes_iff {name : String} {f : FunctionOutline} :
    Describes n name f ↔ callable n name = f := by
  constructor
  · rintro ⟨rfl, start, ends, params, async, exported⟩
    obtain ⟨name, startLine, endLine, ps, isAsync, isExported⟩ := f
    simp only at start ends params async exported
    have flag : n.hasToken "async" = isAsync := Bool.eq_iff_iff.2 (hasToken_iff.trans async.symm)
    simp [callable, start, ends, params, flag, exported]
  · rintro rfl
    exact ⟨rfl, rfl, rfl, rfl, hasToken_iff, rfl⟩

theorem mem_functions {f : FunctionOutline} : f ∈ (ownFindings inside n).functions ↔
    ((n.kind = .functionDeclaration ∨ n.kind = .generatorFunctionDeclaration) ∧ inside = false ∧
      ∃ key, n.child? .name = some key ∧ callable n key.text = f) ∨
    (n.kind = .variableDeclarator ∧ declaredArrow? n = some f) := by
  unfold ownFindings
  split <;> try split
  all_goals simp_all

theorem declaredArrow?_eq_some {f : FunctionOutline} : declaredArrow? n = some f ↔
    ∃ key arrow, n.child? .name = some key ∧ key.kind = .identifier ∧
      n.child? .value = some arrow ∧ arrow.kind = .arrowFunction ∧ callable arrow key.text = f := by
  unfold declaredArrow?
  split <;> simp_all [and_assoc]

theorem mem_classes {c : ClassOutline} : c ∈ (ownFindings inside n).classes ↔
    (n.kind = .classDeclaration ∨ n.kind = .abstractClassDeclaration) ∧ class? n = some c := by
  unfold ownFindings
  split <;> try split
  all_goals simp_all

theorem mem_imports {i : ImportOutline} : i ∈ (ownFindings inside n).imports ↔
    n.kind = .importStatement ∧ import? n = some i := by
  unfold ownFindings
  split <;> try split
  all_goals simp_all

theorem mem_exports {name : String} : name ∈ (ownFindings inside n).exports ↔
    n.kind = .exportStatement ∧ exportedName? n = some name := by
  unfold ownFindings
  split <;> try split
  all_goals simp_all

/-! ### The members of a class -/

theorem member_iff : Member n i m ↔ (members n)[i]? = some m := by
  unfold Member members
  cases n.child? .body <;> simp

theorem hasMethod_iff {f : FunctionOutline} :
    HasMethod n i f ↔ ∃ m, (members n)[i]? = some m ∧ method? m = some f := by
  constructor
  · rintro ⟨isMember, kind, named, plain, record⟩
    refine ⟨_, member_iff.1 isMember, ?_⟩
    simp [method?, kind, named, plain, describes_iff.1 record]
  · rintro ⟨m, isMember, found⟩
    unfold method? at found
    split at found
    · next key kind named =>
      split at found
      · next plain =>
        exact ⟨member_iff.2 isMember, kind, named, plain, describes_iff.2 (Option.some.inj found)⟩
      · cases found
    · cases found

theorem hasField_iff {p : Property} :
    HasField n i p ↔ ∃ m, (members n)[i]? = some m ∧ property? m = some p := by
  constructor
  · rintro ⟨isMember, kind, named, plain, name, isStatic⟩
    refine ⟨_, member_iff.1 isMember, ?_⟩
    obtain ⟨name', isStatic'⟩ := p
    simp only at name isStatic
    have flag := Bool.eq_iff_iff.2 (hasToken_iff.trans isStatic.symm)
    simp [property?, kind, named, plain, name, flag]
  · rintro ⟨m, isMember, found⟩
    unfold property? at found
    split at found
    · next kind =>
      split at found
      · next key named =>
        split at found
        · next plain =>
          obtain rfl := Option.some.inj found
          exact ⟨member_iff.2 isMember, kind, named, plain, rfl, hasToken_iff⟩
        · cases found
      · cases found
    · cases found

/-! ### The names that an import binds -/

theorem gathers_bindingNames (binding : Node) :
    Gathers (BindsIn binding) (bindingNames binding) := by
  unfold bindingNames
  split
  · next kind =>
    refine .one (.whole kind) fun b z hb => ?_
    cases hb <;> simp_all
  · next kind =>
    cases first : binding.namedChildren.find? (·.kind = .identifier) with
    | none =>
      refine .nil fun a y bound => ?_
      cases bound <;> simp_all
    | some x =>
      refine .one (.module kind first) fun b z hb => ?_
      cases hb <;> simp_all
  · next kind =>
    rw [List.filterMap_filter]
    refine ((gathers_filterMap _ _).map (fun k => [k]) fun i j hij => ?_).congr fun a y => ?_
    · exact List.cons_lt_cons_iff.2 (.inl hij)
    · constructor
      · rintro ⟨k, rfl, spec, element, found⟩
        split at found
        · next isSpecifier =>
          obtain ⟨x, named, rfl⟩ := Option.map_eq_some_iff.1 found
          exact .specifier kind element (by simpa using isSpecifier) named
        · cases found
      · rintro (plain | ⟨isModule, -⟩ | ⟨-, element, isSpecifier, named⟩)
        · simp [kind] at plain
        · simp [kind] at isModule
        · refine ⟨_, rfl, _, element, ?_⟩
          rw [if_pos (by simpa using isSpecifier)]
          exact Option.map_eq_some_iff.2 ⟨_, named, rfl⟩
  · refine .nil fun a y bound => ?_
    cases bound <;> simp_all

theorem bindsIn_unique {binding : Node} : Relator.RightUnique (BindsIn binding) := by
  rintro a x y hx hy
  cases hx with
  | whole plain => cases hy <;> simp_all
  | module isModule first => cases hy <;> simp_all
  | specifier isList element kind named =>
    cases hy with
    | specifier _ element' _ named' =>
      obtain rfl := Option.some.inj (element.symm.trans element')
      rw [Option.some.inj (named.symm.trans named')]

theorem binds_unique : Relator.RightUnique (Binds n) := by
  rintro a x y ⟨isClause, kind, isPart, bound⟩ hy
  cases hy with
  | mk isClause' _ isPart' bound' =>
    obtain rfl := Option.some.inj (isClause.symm.trans isClause')
    obtain rfl := Option.some.inj (isPart.symm.trans isPart')
    exact bindsIn_unique bound bound'

theorem flatMap_filter {α β : Type} (p : α → Bool) (f : α → List β) (xs : List α) :
    (xs.filter p).flatMap f = xs.flatMap fun x => if p x then f x else [] := by
  induction xs with
  | nil => rfl
  | cons x xs ih =>
    rw [List.filter_cons, List.flatMap_cons, ← ih]
    split <;> simp

/-- The names that an import statement binds are those of its clauses, part by part. -/
theorem gathers_binds_iff {names : List String} : Gathers (Binds n) names ↔
    ((n.namedChildren.filter (·.kind = .importClause)).flatMap fun clause =>
      clause.namedChildren.flatMap bindingNames) = names := by
  rw [flatMap_filter]
  have inClause (clause : Node) : Gathers
      (fun a y => clause.kind = .importClause ∧ ∃ j binding rest, a = j :: rest ∧
        clause.namedChildren[j]? = some binding ∧ BindsIn binding rest y)
      (if decide (clause.kind = .importClause) then clause.namedChildren.flatMap bindingNames
        else []) := by
    by_cases kind : clause.kind = .importClause
    · simpa [kind] using gathers_flatMap clause.namedChildren fun b _ => gathers_bindingNames b
    · simpa [kind] using Gathers.nil fun a y => by simp
  have gathered : Gathers (Binds n) _ :=
    (gathers_flatMap n.namedChildren fun c _ => inClause c).congr fun a y => by
      constructor
      · rintro ⟨i, clause, _, rfl, isClause, kind, j, binding, rest, rfl, isPart, bound⟩
        exact ⟨isClause, kind, isPart, bound⟩
      · rintro ⟨isClause, kind, isPart, bound⟩
        exact ⟨_, _, _, rfl, isClause, kind, _, _, _, rfl, isPart, bound⟩
  exact ⟨fun h => gathered.unique h binds_unique, fun h => h ▸ gathered⟩

/-! ### The outline of a tree -/

theorem declaresFunction_iff {f : FunctionOutline} : DeclaresFunction root a f ↔
    ∃ inside m, Reaches false root a inside m ∧ f ∈ (ownFindings inside m).functions := by
  simp only [mem_functions]
  constructor
  · rintro (⟨stands, kind, outermost, named, record⟩ |
      ⟨stands, kind, named, plain, value, isArrow, record⟩)
    · refine ⟨false, _, reaches_iff.2 ⟨stands, ?_⟩,
        .inl ⟨kind, rfl, _, named, describes_iff.1 record⟩⟩
      simpa using outermost
    · obtain ⟨inside, reaches⟩ := stands_iff_reaches.1 stands
      exact ⟨inside, _, reaches, .inr ⟨kind, declaredArrow?_eq_some.2
        ⟨_, _, named, plain, value, isArrow, describes_iff.1 record⟩⟩⟩
  · rintro ⟨inside, m, reaches, ⟨kind, rfl, key, named, record⟩ | ⟨kind, found⟩⟩
    · obtain ⟨stands, flag⟩ := reaches_iff.1 reaches
      refine .declaration stands kind (fun f above isFunction => ?_) named (describes_iff.2 record)
      exact absurd (flag.2 (.inr ⟨f, above, isFunction⟩)) (by simp)
    · obtain ⟨key, arrow, named, plain, value, isArrow, record⟩ := declaredArrow?_eq_some.1 found
      exact .arrow (stands_iff_reaches.2 ⟨inside, reaches⟩) kind named plain value isArrow
        (describes_iff.2 record)

theorem declaresClass_iff {c : ClassOutline} : DeclaresClass root a c ↔
    ∃ inside m, Reaches false root a inside m ∧ c ∈ (ownFindings inside m).classes := by
  simp only [mem_classes, class?, Option.map_eq_some_iff]
  constructor
  · rintro ⟨stands, kind, named, name, startLine, endLine, methods, properties, isExported⟩
    obtain ⟨inside, reaches⟩ := stands_iff_reaches.1 stands
    refine ⟨inside, _, reaches, kind, _, named, ?_⟩
    rw [(gathers_iff_filterMap fun _ _ => hasMethod_iff).1 methods,
      (gathers_iff_filterMap fun _ _ => hasField_iff).1 properties, ← name, ← startLine, ← endLine,
      ← isExported]
  · rintro ⟨inside, m, reaches, kind, key, named, rfl⟩
    exact ⟨stands_iff_reaches.2 ⟨inside, reaches⟩, kind, named, rfl, rfl, rfl,
      (gathers_iff_filterMap fun _ _ => hasMethod_iff).2 rfl,
      (gathers_iff_filterMap fun _ _ => hasField_iff).2 rfl, rfl⟩

theorem declaresImport_iff {i : ImportOutline} : DeclaresImport root a i ↔
    ∃ inside m, Reaches false root a inside m ∧ i ∈ (ownFindings inside m).imports := by
  simp only [mem_imports, import?, Option.map_eq_some_iff]
  constructor
  · rintro ⟨stands, kind, named, name, names⟩
    obtain ⟨inside, reaches⟩ := stands_iff_reaches.1 stands
    refine ⟨inside, _, reaches, kind, _, named, ?_⟩
    rw [gathers_binds_iff.1 names, ← name]
  · rintro ⟨inside, m, reaches, kind, source, named, rfl⟩
    exact ⟨stands_iff_reaches.2 ⟨inside, reaches⟩, kind, named, rfl, gathers_binds_iff.2 rfl⟩

theorem exportedName?_eq_some {name : String} : exportedName? n = some name ↔
    n.hasToken "default" = false ∧ ∃ d, n.child? .declaration = some d ∧ isExportable d.kind = true ∧
      ∃ key, d.child? .name = some key ∧ key.text = name := by
  unfold exportedName?
  cases n.hasToken "default" <;> cases n.child? .declaration <;> simp

theorem declaresExport_iff {name : String} : DeclaresExport root a name ↔
    ∃ inside m, Reaches false root a inside m ∧ name ∈ (ownFindings inside m).exports := by
  simp only [mem_exports, exportedName?_eq_some, ← Bool.not_eq_true, hasToken_iff]
  constructor
  · rintro ⟨stands, kind, own, declares, declared, named⟩
    obtain ⟨inside, reaches⟩ := stands_iff_reaches.1 stands
    refine ⟨inside, _, reaches, kind, by simpa using own, _, declares, ?_, _, named, rfl⟩
    simpa [isExportable, or_assoc] using declared
  · rintro ⟨inside, m, reaches, kind, own, d, declares, declared, key, named, rfl⟩
    refine .mk (stands_iff_reaches.2 ⟨inside, reaches⟩) kind (by simpa using own) declares ?_ named
    simpa [isExportable, or_assoc] using declared

/-- The outline that is read off a tree is the only one that reads it: it has one record for each
declaration, in the order of the nodes, nothing of what is below an import, and no record says that it is
exported. -/
theorem ofTree_eq_iff_reads (fileName : String) (language : Language) (root : Node) (o : FileOutline) :
    ofTree fileName language root = o ↔
      o.fileName = fileName ∧ o.language = language ∧ Reads root o := by
  have functions : Gathers (DeclaresFunction root) o.functions ↔ _ :=
    gathers_iff_visit selects_functions fun _ _ => declaresFunction_iff
  have classes : Gathers (DeclaresClass root) o.classes ↔ _ :=
    gathers_iff_visit selects_classes fun _ _ => declaresClass_iff
  have imports : Gathers (DeclaresImport root) o.imports ↔ _ :=
    gathers_iff_visit selects_imports fun _ _ => declaresImport_iff
  have exports : Gathers (DeclaresExport root) o.exports ↔ _ :=
    gathers_iff_visit selects_exports fun _ _ => declaresExport_iff
  constructor
  · rintro rfl
    exact ⟨rfl, rfl, functions.2 rfl, classes.2 rfl, imports.2 rfl, exports.2 rfl⟩
  · rintro ⟨rfl, rfl, reads⟩
    simp only [ofTree, functions.1 reads.functions, classes.1 reads.classes, imports.1 reads.imports,
      exports.1 reads.exports]

end RepoDocs.Outline
