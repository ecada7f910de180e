import RepoDocs.Outline.SourceKind
import RepoDocs.Proofs.Outline.Blocks
import RepoDocs.Proofs.Outline.Declarations
import RepoDocs.Proofs.Script.Rows
import RepoDocs.Proofs.Text.Lines

/-! Where the records of an outline lie and what they take as defaults, whatever the file.  They take up
lines of the file, and each default is the value of a constant expression in it. -/

namespace RepoDocs

/-! ### Lines -/

/-- The lines are among the first `last`. -/
structure Span.Within (last : Nat) (s : Span) : Prop where
  first : s.first ≤ last
  last : s.last ≤ last

/-- The functions of a file and the methods of its classes. -/
def FileOutline.callables (f : FileOutline) : List FunctionOutline :=
  f.functions ++ f.classes.flatMap (·.methods)

/-- The parameters of all that can be called. -/
def FileOutline.parameters (f : FileOutline) : List Parameter :=
  f.callables.flatMap (·.parameters)

/-- Everything in the outline takes up lines among the first `last`. -/
structure FileOutline.Within (last : Nat) (f : FileOutline) : Prop where
  callables : ∀ g ∈ f.callables, g.span.Within last
  classes : ∀ c ∈ f.classes, c.span.Within last

namespace Outline

open Grammar Json

/-! ### Scripts -/

section Tree

variable {last : Nat} {root n m : Node} {nested inside : Bool} {a : List Nat} {fileName : String}
  {language : Language}

theorem Reaches.within (h : Reaches nested root a inside m) (within : root.Within last) :
    m.Within last := by
  induction h with
  | here => exact within
  | down _ child _ ih => exact ih (within.namedChild (List.mem_of_getElem? child))

theorem within_callable (h : n.Within last) (name : String) :
    (callable n name).span.Within (last + 1) := by
  obtain ⟨starts, ends, -⟩ := Node.within_iff.1 h
  exact ⟨Nat.succ_le_succ starts, Nat.succ_le_succ ends⟩

/-- The record of a class is that of a node of the tree. -/
theorem exists_class {c : ClassOutline} (within : root.Within last)
    (hc : c ∈ (ofTree fileName language root).classes) : ∃ n, n.Within last ∧ class? n = some c := by
  obtain ⟨a, inside, m, reaches, hc⟩ := (gathers_visit selects_classes false root).exists_of_mem hc
  exact ⟨m, reaches.within within, (mem_classes.1 hc).2⟩

theorem exists_function {f : FunctionOutline} (within : root.Within last)
    (hf : f ∈ (ofTree fileName language root).functions) :
    ∃ n name, n.Within last ∧ callable n name = f := by
  obtain ⟨a, inside, m, reaches, hf⟩ := (gathers_visit selects_functions false root).exists_of_mem hf
  have place := reaches.within within
  rcases mem_functions.1 hf with ⟨-, -, key, -, record⟩ | ⟨-, found⟩
  · exact ⟨m, key.text, place, record⟩
  · obtain ⟨key, arrow, -, -, value, -, record⟩ := declaredArrow?_eq_some.1 found
    exact ⟨arrow, key.text, place.child? value, record⟩

theorem within_of_mem_members (within : n.Within last) (hm : m ∈ members n) : m.Within last := by
  unfold members at hm
  cases body : n.child? .body with
  | none => simp [body] at hm
  | some b =>
    rw [body] at hm
    exact (within.child? body).namedChild hm

theorem exists_method {c : ClassOutline} {f : FunctionOutline} (within : n.Within last)
    (hc : class? n = some c) (hf : f ∈ c.methods) : ∃ m name, m.Within last ∧ callable m name = f := by
  obtain ⟨key, -, rfl⟩ := Option.map_eq_some_iff.1 hc
  obtain ⟨m, hm, found⟩ := List.mem_filterMap.1 hf
  have place := within_of_mem_members within hm
  unfold method? at found
  split at found
  · split at found
    · exact ⟨m, _, place, Option.some.inj found⟩
    · cases found
  · cases found

/-- The record of anything that can be called is that of a node of the tree. -/
theorem exists_callable {f : FunctionOutline} (within : root.Within last)
    (hf : f ∈ (ofTree fileName language root).callables) :
    ∃ n name, n.Within last ∧ callable n name = f := by
  rcases List.mem_append.1 hf with hf | hf
  · exact exists_function within hf
  · obtain ⟨c, hc, hf⟩ := List.mem_flatMap.1 hf
    obtain ⟨n, place, hc⟩ := exists_class within hc
    exact exists_method place hc hf

theorem within_ofTree (within : root.Within last) :
    (ofTree fileName language root).Within (last + 1) := by
  refine ⟨fun f hf => ?_, fun c hc => ?_⟩
  · obtain ⟨n, name, place, rfl⟩ := exists_callable within hf
    exact within_callable place name
  · obtain ⟨n, place, hc⟩ := exists_class within hc
    obtain ⟨key, -, rfl⟩ := Option.map_eq_some_iff.1 hc
    exact within_callable place key.text

/-- A file with a fault has no records. -/
theorem within_readTree (within : root.Within last) :
    (if root.hasError then { fileName, language } else ofTree fileName language root :
      FileOutline).Within (last + 1) := by
  split
  · exact ⟨nofun, nofun⟩
  · exact within_ofTree within

/-! ### Constants -/

theorem exists_constant_of_default {v : Value} (h : (parameter n).default? = some v) :
    ∃ m, constant? m = some v := by
  have bound {name : String} {value : Option Node} (h : (defaulted name value).default? = some v) :
      ∃ m, constant? m = some v := by
    obtain ⟨m, -, hm⟩ := Option.bind_eq_some_iff.1 h
    exact ⟨m, hm⟩
  unfold parameter at h
  split at h
  -- Only an assignment and the parameters of the typed dialects carry a value beside the name.
  case h_4 =>
    split at h
    · split at h
      · exact bound h
      · cases h
    · cases h
  case h_5 | h_6 =>
    split at h
    · split at h
      · exact bound h
      all_goals cases h
    · cases h
  all_goals cases h

/-- The default of a parameter is the value of a constant expression. -/
theorem exists_constant {p : Parameter} {v : Value} (hp : p ∈ parameters n)
    (h : p.default? = some v) : ∃ m, constant? m = some v := by
  unfold parameters at hp
  split at hp
  · obtain ⟨c, -, rfl⟩ := List.mem_map.1 hp
    exact exists_constant_of_default h
  · split at hp
    · obtain rfl := List.mem_singleton.1 hp
      exact exists_constant_of_default h
    · cases hp

theorem exists_constant_of_readTree {p : Parameter} {v : Value} (within : root.Within last)
    (hp : p ∈ (if root.hasError then { fileName, language } else ofTree fileName language root :
      FileOutline).parameters) (h : p.default? = some v) : ∃ m, constant? m = some v := by
  obtain ⟨f, hf, hp⟩ := List.mem_flatMap.1 hp
  split at hf
  · cases hf
  · obtain ⟨n, name, -, rfl⟩ := exists_callable within hf
    exact exists_constant hp h

end Tree

/-! ### Files -/

/-- The classes of these files are taken without their methods. -/
theorem Python.mem_functions_of_callables {fileName source : String} {f : FunctionOutline}
    (hf : f ∈ (Python.outline fileName source).callables) :
    f ∈ (Python.outline fileName source).functions := by
  rcases List.mem_append.1 hf with hf | hf
  · exact hf
  · obtain ⟨c, hc, hf⟩ := List.mem_flatMap.1 hf
    obtain ⟨i, line, -, found⟩ := mem_scan.1 hc
    obtain ⟨name, -, rfl⟩ := Option.map_eq_some_iff.1 found
    cases hf

theorem Python.within_outline (fileName source : String) :
    (Python.outline fileName source).Within (source.toList.count '\n' + 1) := by
  have few := Text.length_lines_le source.toList
  have block {s : Span} (hs : s ∈ (Python.outline fileName source).spans) :
      s.Within (source.toList.count '\n' + 1) := by
    have := Python.isBlock_of_mem_spans hs
    have ordered := this.first_le_last
    have ends := this.last_le_length
    exact ⟨by omega, by omega⟩
  refine ⟨fun f hf => block ?_, fun c hc => block ?_⟩
  · exact List.mem_append_left _ (List.mem_map_of_mem (mem_functions_of_callables hf))
  · exact List.mem_append_right _ (List.mem_map_of_mem hc)

end Outline

open Outline

/-- The functions, methods and classes of an outline take up lines of the file: there are no more than one
behind the last line feed. -/
theorem within_outline (fileName source : String) :
    (outline fileName source).Within (source.toList.count '\n' + 1) := by
  unfold outline
  split
  · exact within_readTree (Script.within_parse _ source)
  · exact Python.within_outline fileName source
  · exact ⟨nofun, nofun⟩

theorem Outline.Python.default?_eq_none {fileName source : String} {p : Parameter}
    (hp : p ∈ (Python.outline fileName source).parameters) : p.default? = none := by
  obtain ⟨f, hf, hp⟩ := List.mem_flatMap.1 hp
  obtain ⟨i, line, -, found⟩ := mem_scan.1 (mem_functions_of_callables hf)
  obtain ⟨header, -, rfl⟩ := Option.map_eq_some_iff.1 found
  unfold parametersOf at hp
  split at hp
  · cases hp
  · obtain ⟨part, -, named⟩ := List.mem_filterMap.1 hp
    obtain ⟨-, named⟩ := Option.ite_none_left_eq_some.1 named
    cases named
    rfl

/-- The default of a parameter is the value of a constant expression. -/
theorem exists_constant_of_outline {fileName source : String} {p : Parameter} {v : Json.Value}
    (hp : p ∈ (outline fileName source).parameters) (h : p.default? = some v) :
    ∃ n, constant? n = some v := by
  unfold outline at hp
  split at hp
  · exact exists_constant_of_readTree (Script.within_parse _ source) hp h
  · rw [Outline.Python.default?_eq_none hp] at h
    cases h
  · cases hp

end RepoDocs
