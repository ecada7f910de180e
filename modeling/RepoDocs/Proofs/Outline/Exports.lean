import RepoDocs.Outline.Python
import RepoDocs.Proofs.Grammar.Notes
import RepoDocs.Proofs.Outline.Declarations

/-! What an outline exports, as against what it records.  In a script, an export names the function or the
class that its statement declares, and where no export statement stands in a function there is a record of
that; in a Python file, all that is recorded is exported. -/

namespace RepoDocs.Outline

open Grammar

/-- The statement at the place `a` exports what is declared right below it at the place `b`, and not by
default. -/
inductive ExportsDirectly (root : Node) (a b : List Nat) : Prop
  | mk {n d i} (found : root.at? a = some n) (kind : n.kind = .exportStatement)
      (own : ∀ c ∈ n.children, c.kind ≠ .token "default") (declares : n.child? .declaration = some d)
      (child : n.namedChildren[i]? = some d) (below : b = a ++ [i])

/-- The outline has a record, under a name, of the function or the class that the tree declares at the
place `b`. -/
inductive Records (root : Node) (o : FileOutline) (b : List Nat) : String → Prop
  | function {f} (declares : DeclaresFunction root b f) (recorded : f ∈ o.functions) :
      Records root o b f.name
  | class {c} (declares : DeclaresClass root b c) (recorded : c ∈ o.classes) : Records root o b c.name

/-- No export statement stands in a function. -/
def ExportsOutside (root : Node) : Prop :=
  ∀ a n, root.at? a = some n → n.kind = .exportStatement → ∀ m, root.Above a m → m.kind ∉ functionKinds

/-- The grammar lets an export statement declare variables in a declaration of their own only. -/
def ExportsDeclarations (root : Node) : Prop :=
  ∀ a n d, root.at? a = some n → n.kind = .exportStatement → n.child? .declaration = some d →
    d.kind ≠ .variableDeclarator

variable {root n d : Node} {a b : List Nat} {i : Nat} {name fileName : String} {language : Language}

theorem stands_concat (found : root.at? a = some n) (child : n.namedChildren[i]? = some d) :
    Stands root (a ++ [i]) d ↔ Stands root a n ∧ n.kind ≠ .importStatement := by
  simp only [Stands, found, Node.at?_concat_eq_some, Node.above_concat, child, Option.some.injEq,
    exists_eq_left', true_and]
  constructor
  · exact fun outside => ⟨fun m above => outside m (.inl above), outside n (.inr rfl)⟩
  · rintro ⟨outside, kind⟩ m (above | rfl)
    · exact outside m above
    · exact kind

theorem gathers_functions (fileName : String) (language : Language) (root : Node) :
    Gathers (DeclaresFunction root) (ofTree fileName language root).functions :=
  (gathers_iff_visit selects_functions fun _ _ => declaresFunction_iff).2 rfl

theorem gathers_classes (fileName : String) (language : Language) (root : Node) :
    Gathers (DeclaresClass root) (ofTree fileName language root).classes :=
  (gathers_iff_visit selects_classes fun _ _ => declaresClass_iff).2 rfl

theorem gathers_exports (fileName : String) (language : Language) (root : Node) :
    Gathers (DeclaresExport root) (ofTree fileName language root).exports :=
  (gathers_iff_visit selects_exports fun _ _ => declaresExport_iff).2 rfl

/-- A record of what is at a place is under the name of the node there, if that is no variable. -/
theorem Records.of_node {o : FileOutline} (records : Records root o b name) (found : root.at? b = some d)
    (kind : d.kind ≠ .variableDeclarator) :
    isExportable d.kind = true ∧ Stands root b d ∧ ∃ key, d.child? .name = some key ∧ key.text = name := by
  have same {m : Node} (stands : Stands root b m) : m = d := Option.some.inj (stands.1.symm.trans found)
  cases records with
  | function declares _ =>
    cases declares with
    | declaration stands isFunction _ named record =>
      obtain rfl := same stands
      refine ⟨?_, stands, _, named, record.name.symm⟩
      rcases isFunction with h | h <;> rw [h] <;> rfl
    | arrow stands isVariable =>
      obtain rfl := same stands
      exact absurd isVariable kind
  | «class» declares _ =>
    obtain ⟨stands, isClass, named, name⟩ := declares
    obtain rfl := same stands
    refine ⟨?_, stands, _, named, name.symm⟩
    rcases isClass with h | h <;> rw [h] <;> rfl

/-- What a tree declares at a place is recorded under its name, if it is a class or is in no function. -/
theorem records_of_stands (fileName : String) (language : Language) (stands : Stands root b d)
    (outermost : ∀ m, root.Above b m → m.kind ∉ functionKinds) (exportable : isExportable d.kind = true)
    {key : Node} (named : d.child? .name = some key) :
    Records root (ofTree fileName language root) b key.text := by
  simp only [isExportable, Bool.or_eq_true, decide_eq_true_eq, or_assoc] at exportable
  have whole : d.kind ≠ .variableDeclarator := by
    rintro h
    simp [h] at exportable
  have underName {name : String} (records : Records root (ofTree fileName language root) b name) :
      Records root (ofTree fileName language root) b key.text := by
    obtain ⟨-, -, key', h, rfl⟩ := records.of_node stands.1 whole
    exact Option.some.inj (h.symm.trans named) ▸ records
  rw [← or_assoc] at exportable
  rcases exportable with isFunction | isClass
  · have declares : DeclaresFunction root b (callable d key.text) :=
      .declaration stands isFunction outermost named (describes_iff.2 rfl)
    obtain ⟨f, recorded, declares⟩ := (gathers_functions fileName language root).exists_mem declares
    exact underName (.function declares recorded)
  · obtain ⟨inside, reaches⟩ := stands_iff_reaches.1 stands
    have found : ∃ c, class? d = some c := by
      rw [class?, named]
      exact ⟨_, rfl⟩
    obtain ⟨c, found⟩ := found
    have declares : DeclaresClass root b c :=
      declaresClass_iff.2 ⟨inside, d, reaches, mem_classes.2 ⟨isClass, found⟩⟩
    obtain ⟨c', recorded, declares⟩ := (gathers_classes fileName language root).exists_mem declares
    exact underName (.class declares recorded)

theorem declaresExport_iff_records (outside : ExportsOutside root) (whole : ExportsDeclarations root) :
    DeclaresExport root a name ↔
      ∃ b, ExportsDirectly root a b ∧ Records root (ofTree fileName language root) b name := by
  constructor
  · rintro ⟨stands, kind, own, declares, declared, named⟩
    rename_i n d key
    have exportable : isExportable d.kind = true := by simpa [isExportable, or_assoc] using declared
    have isNamed : d.kind.isNamed = true := by
      simp only [isExportable, Bool.or_eq_true, decide_eq_true_eq, or_assoc] at exportable
      rcases exportable with h | h | h | h <;> rw [h] <;> rfl
    obtain ⟨i, child⟩ := List.mem_iff_getElem?.1
      (List.mem_filter.2 ⟨List.mem_of_find?_eq_some declares, isNamed⟩ : d ∈ n.namedChildren)
    have below : Stands root (a ++ [i]) d :=
      (stands_concat stands.1 child).2 ⟨stands, by simp [kind]⟩
    refine ⟨a ++ [i], ⟨stands.1, kind, own, declares, child, rfl⟩,
      records_of_stands fileName language below (fun m above => ?_) exportable named⟩
    rcases Node.above_concat.1 above with above | found
    · exact outside a n stands.1 kind m above
    · obtain rfl := Option.some.inj (found.symm.trans stands.1)
      simp [kind, functionKinds]
  · rintro ⟨b, ⟨found, kind, own, declares, child, rfl⟩, records⟩
    obtain ⟨exportable, stands, key, named, rfl⟩ := records.of_node
      (Node.at?_concat_eq_some.2 ⟨_, found, child⟩) (whole a _ _ found kind declares)
    refine .mk ((stands_concat found child).1 stands).1 kind own declares ?_ named
    simpa [isExportable, or_assoc] using exportable

/-- In a script without export statements in its functions, the exports are the names of those functions
and classes on record that an export statement declares right below it and not by default, one for each
such statement and in their order.  In a Python file, they are the names of all functions and then of all
classes. -/
theorem exports_are_recorded (fileName : String) (language : Language) (root : Node)
    (outside : ExportsOutside root) (whole : ExportsDeclarations root) :
    Gathers (fun a name => ∃ b, ExportsDirectly root a b ∧
        Records root (ofTree fileName language root) b name)
      (ofTree fileName language root).exports ∧
    ∀ source, (Python.outline fileName source).exports =
      (Python.outline fileName source).functions.map (·.name) ++
        (Python.outline fileName source).classes.map (·.name) :=
  ⟨(gathers_exports fileName language root).congr fun _ _ => declaresExport_iff_records outside whole,
    fun _ => rfl⟩

/-! ### An export in a class -/

/-- Below a function there is no export statement. -/
theorem exportsOutside_iff : ExportsOutside root ↔
    ∀ a f, root.at? a = some f → f.kind ∈ functionKinds → ∀ c ∈ f.namedChildren,
      ∀ b n, c.at? b = some n → n.kind ≠ .exportStatement := by
  constructor
  · intro outside a f found isFunction c mem b n below isExport
    obtain ⟨i, child⟩ := List.mem_iff_getElem?.1 mem
    have inner := Node.at?_append_eq_some.2 ⟨f, found, Node.at?_cons_eq_some.2 ⟨c, child, below⟩⟩
    exact outside (a ++ i :: b) n inner isExport f ⟨a, List.prefix_append .., by simp, found⟩ isFunction
  · rintro free a n found isExport f ⟨front, ⟨rest, rfl⟩, proper, above⟩ isFunction
    obtain ⟨f', above', below⟩ := Node.at?_append_eq_some.1 found
    obtain rfl := Option.some.inj (above.symm.trans above')
    cases rest with
    | nil => exact proper (List.append_nil front).symm
    | cons i rest =>
      obtain ⟨c, child, below⟩ := Node.at?_cons_eq_some.1 below
      exact free front f above isFunction c (List.mem_of_getElem? child) rest n below isExport

instance (root : Node) : Decidable (ExportsOutside root) :=
  decidable_of_iff (root.everywhere (fun f => decide (f.kind ∈ functionKinds →
      ∀ c ∈ f.namedChildren, c.everywhere (·.kind ≠ .exportStatement) = true)) = true) <| by
    simp only [exportsOutside_iff, Node.everywhere_iff, decide_eq_true_eq]

instance (root : Node) : Decidable (ExportsDeclarations root) :=
  decidable_of_iff (root.everywhere (fun n => decide (n.kind = .exportStatement →
      ∀ d ∈ n.child? .declaration, d.kind ≠ .variableDeclarator)) = true) <| by
    simp only [Node.everywhere_iff, decide_eq_true_eq]
    exact ⟨fun h a n d found isExport declares => h a n found isExport d declares,
      fun h a n found isExport d declares => h a n d found isExport declares⟩

/-- A class that is exported, with a block in which a function is exported, and a function that is so by
default. -/
def exportedWithin : Node :=
  Script.parse .javascript
    "export class A\x7bstatic\x7bexport function f()\x7b\x7d\x7d\x7dexport default function g()\x7b\x7d"

/-- The default export is recorded and not named. -/
theorem exports_are_recorded_within :
    exportedWithin.hasError = false ∧
    (∃ a b, ExportsDirectly exportedWithin a b ∧
      Records exportedWithin (ofTree "a.js" .javascript exportedWithin) b "f") ∧
    (ofTree "a.js" .javascript exportedWithin).exports = ["A", "f"] ∧
    (ofTree "a.js" .javascript exportedWithin).functions.map (·.name) = ["f", "g"] := by
  have read : exportedWithin.hasError = false ∧ ExportsOutside exportedWithin ∧
      ExportsDeclarations exportedWithin ∧
      (ofTree "a.js" .javascript exportedWithin).exports = ["A", "f"] ∧
      (ofTree "a.js" .javascript exportedWithin).functions.map (·.name) = ["f", "g"] := by
    rw [exportedWithin, Script.parse, parse_eq_parseNoted]
    decide +kernel
  obtain ⟨sound, outside, whole, exports, functions⟩ := read
  obtain ⟨gathers, -⟩ := exports_are_recorded "a.js" .javascript exportedWithin outside whole
  refine ⟨sound, gathers.exists_of_mem ?_, exports, functions⟩
  rw [exports]
  decide

end RepoDocs.Outline
