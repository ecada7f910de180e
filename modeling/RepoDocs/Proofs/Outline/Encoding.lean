import RepoDocs.Proofs.Grammar.Notes
import RepoDocs.Proofs.Json.Coding
import RepoDocs.Proofs.Outline.Extent

/-! The JSON texts of outlines, and what is decoded of them.  A default that is `null` is written like any
other, but it is read as no default at all; all else of an outline is read as it was. -/

namespace RepoDocs

open Json

/-! ### What is decoded -/

/-- The parameter as it is read back. -/
def Parameter.asRead (p : Parameter) : Parameter :=
  match p.default? with
  | some .null => { p with default? := none }
  | _ => p

def FunctionOutline.asRead (f : FunctionOutline) : FunctionOutline :=
  { f with parameters := f.parameters.map Parameter.asRead }

def ClassOutline.asRead (c : ClassOutline) : ClassOutline :=
  { c with methods := c.methods.map FunctionOutline.asRead }

def FileOutline.asRead (f : FileOutline) : FileOutline :=
  { f with
    functions := f.functions.map FunctionOutline.asRead
    classes := f.classes.map ClassOutline.asRead }

theorem map_eq_self_iff {f : α → α} {xs : List α} : xs.map f = xs ↔ ∀ x ∈ xs, f x = x := by
  induction xs with
  | nil => simp
  | cons x xs ih => simp [ih]

theorem Parameter.asRead_eq_iff {p : Parameter} : p.asRead = p ↔ p.default? ≠ some .null := by
  obtain ⟨name, default?⟩ := p
  rcases default? with _ | (_ | _ | _ | _ | _ | _) <;> simp [asRead]

example : Parameter.asRead ⟨"a", some .null⟩ = ⟨"a", none⟩ := rfl

theorem FunctionOutline.asRead_eq_iff {f : FunctionOutline} :
    f.asRead = f ↔ ∀ p ∈ f.parameters, p.default? ≠ some .null := by
  simp only [← Parameter.asRead_eq_iff, ← map_eq_self_iff]
  obtain ⟨name, startLine, endLine, parameters, isAsync, isExported⟩ := f
  simp [asRead]

theorem ClassOutline.asRead_eq_iff {c : ClassOutline} :
    c.asRead = c ↔ ∀ f ∈ c.methods, ∀ p ∈ f.parameters, p.default? ≠ some .null := by
  simp only [← FunctionOutline.asRead_eq_iff, ← map_eq_self_iff]
  obtain ⟨name, startLine, endLine, methods, properties, isExported⟩ := c
  simp [asRead]

/-- An outline is read as it was just when no default is `null`. -/
theorem FileOutline.asRead_eq_iff {f : FileOutline} :
    f.asRead = f ↔ ∀ p ∈ f.parameters, p.default? ≠ some .null := by
  have split : (∀ p ∈ f.parameters, p.default? ≠ some .null) ↔
      (∀ g ∈ f.functions, g.asRead = g) ∧ ∀ c ∈ f.classes, c.asRead = c := by
    simp only [FunctionOutline.asRead_eq_iff, ClassOutline.asRead_eq_iff, parameters, callables,
      List.mem_flatMap, List.mem_append]
    grind
  rw [split, ← map_eq_self_iff, ← map_eq_self_iff]
  obtain ⟨fileName, language, functions, classes, imports, exports⟩ := f
  simp [asRead]

/-! ### Outlines that can be read -/

/-- The default has no parts, and a number is read as it is printed. -/
def Parameter.Legible (p : Parameter) : Prop := ∀ v ∈ p.default?, v.Readable ∧ v.height ≤ 0

structure FunctionOutline.Legible (f : FunctionOutline) : Prop where
  startLine : f.startLine ≤ maxWord
  endLine : f.endLine ≤ maxWord
  parameters : ∀ p ∈ f.parameters, p.Legible

structure ClassOutline.Legible (c : ClassOutline) : Prop where
  startLine : c.startLine ≤ maxWord
  endLine : c.endLine ≤ maxWord
  methods : ∀ f ∈ c.methods, f.Legible

structure FileOutline.Legible (f : FileOutline) : Prop where
  functions : ∀ g ∈ f.functions, g.Legible
  classes : ∀ c ∈ f.classes, c.Legible

/-! ### Encoding and decoding -/

theorem Language.conveys_name (l : Language) (n : Nat) : Conveys decoder (.string l.name) n l :=
  conveys_oneOf (by cases l <;> rfl) n

theorem Parameter.Legible.conveys_toJson {p : Parameter} (h : p.Legible) :
    Conveys decoder p.toJson 1 p.asRead := by
  obtain ⟨name, default?⟩ := p
  have defaulted {v? : Option Value}
      (read : (Fields.field "defaultValue" (.option .any) (.default none)).Conveys ["defaultValue"]
        (Value.optionalField "defaultValue" id default?) 0 v?) :
      Conveys decoder (toJson ⟨name, default?⟩) 1 ⟨name, v?⟩ :=
    (read.cons "name" (conveys_string name 0) (by decide)).record _
  cases default? with
  | none => exact defaulted (Fields.conveys_absent ..)
  | some v =>
    obtain ⟨readable, flat⟩ := h v rfl
    by_cases isNull : v = .null
    · subst isNull
      exact defaulted (Fields.conveys_last _ ⟨decodes_option_null _, readable, flat⟩)
    · have same : asRead ⟨name, some v⟩ = ⟨name, some v⟩ := by
        rw [Parameter.asRead_eq_iff]
        simpa using isNull
      have value := (decodes_any v).option isNull
      rw [Value.sorted_of_flat flat] at value
      rw [same]
      exact defaulted (Fields.conveys_last _ ⟨value, readable, flat⟩)

theorem FunctionOutline.Legible.conveys_toJson {f : FunctionOutline} (h : f.Legible) :
    Conveys decoder f.toJson 3 f.asRead := by
  have parameters := conveys_list fun p hp => (h.parameters p hp).conveys_toJson
  exact (Fields.conveys_last "isExported" (conveys_bool f.isExported 2)
    |>.cons "isAsync" (conveys_bool f.isAsync 2) (by decide)
    |>.cons "parameters" parameters (by decide)
    |>.cons "endLine" (conveys_size h.endLine 2) (by decide)
    |>.cons "startLine" (conveys_size h.startLine 2) (by decide)
    |>.cons "name" (conveys_string f.name 2) (by decide)).record _

theorem Property.conveys_toJson (p : Property) : Conveys decoder p.toJson 1 p :=
  (Fields.conveys_last "isStatic" (conveys_bool p.isStatic 0)
    |>.cons "name" (conveys_string p.name 0) (by decide)).record _

theorem ClassOutline.Legible.conveys_toJson {c : ClassOutline} (h : c.Legible) :
    Conveys decoder c.toJson 5 c.asRead := by
  have methods := conveys_list fun f hf => (h.methods f hf).conveys_toJson
  have properties := conveys_items fun p (_ : p ∈ c.properties) => p.conveys_toJson
  exact (Fields.conveys_last "isExported" (conveys_bool c.isExported 4)
    |>.cons "properties" (properties.mono (by decide)) (by decide)
    |>.cons "methods" methods (by decide)
    |>.cons "endLine" (conveys_size h.endLine 4) (by decide)
    |>.cons "startLine" (conveys_size h.startLine 4) (by decide)
    |>.cons "name" (conveys_string c.name 4) (by decide)).record _

theorem ImportOutline.conveys_toJson (i : ImportOutline) : Conveys decoder i.toJson 2 i :=
  (Fields.conveys_last "importedNames" (conveys_strings i.importedNames 0)
    |>.cons "source" (conveys_string i.source 1) (by decide)).record _

theorem FileOutline.Legible.conveys_toJson {f : FileOutline} (h : f.Legible) :
    Conveys decoder f.toJson 7 f.asRead := by
  have functions := conveys_list fun g hg => (h.functions g hg).conveys_toJson
  have classes := conveys_list fun c hc => (h.classes c hc).conveys_toJson
  have imports := conveys_items fun i (_ : i ∈ f.imports) => i.conveys_toJson
  exact (Fields.conveys_last "exports" (conveys_strings f.exports 5)
    |>.cons "imports" (imports.mono (by decide)) (by decide)
    |>.cons "classes" classes (by decide)
    |>.cons "functions" (functions.mono (by decide)) (by decide)
    |>.cons "language" (f.language.conveys_name 6) (by decide)
    |>.cons "fileName" (conveys_string f.fileName 6) (by decide)).record _

theorem FileOutline.Legible.decodeText {f : FileOutline} (h : f.Legible) {text : String}
    (written : Writes f.toJson text.toList) : Json.decodeText decoder text = .ok f.asRead :=
  h.conveys_toJson.text (by decide) written

/-- What is decoded is the outline itself just when no default is `null`. -/
theorem FileOutline.Legible.decodeText_iff {f : FileOutline} (h : f.Legible) {text : String}
    (written : Writes f.toJson text.toList) :
    Json.decodeText decoder text = .ok f ↔ ∀ p ∈ f.parameters, p.default? ≠ some .null := by
  rw [h.decodeText written, ← asRead_eq_iff, Except.ok.injEq]

/-! ### Outlines of files -/

namespace Outline

open Grammar

theorem whole_of_number? {text : String} {v : Value} (h : Literal.number? text = some v) :
    (∃ n, n < Nat.pow 2 63 ∧ v = .ofNat n) ∨ ∃ x, v = .number (.float x) := by
  have small {base : Nat} {ds : List Char} {n : Nat} (h : Literal.wordOfDigits? base ds = some n) :
      n < Nat.pow 2 63 := by
    obtain ⟨-, h⟩ := Option.ite_none_left_eq_some.1 h
    obtain ⟨vs, -, h⟩ := Option.bind_eq_some_iff.1 h
    obtain ⟨small, same⟩ := Option.ite_none_right_eq_some.1 h
    exact Option.some.inj same ▸ small
  unfold Literal.number? at h
  dsimp only at h
  split at h
  · rename_i n word
    exact .inl ⟨n, small word, (Option.some.inj h).symm⟩
  · split at h
    · obtain ⟨n, word, rfl⟩ := Option.map_eq_some_iff.1 h
      exact .inl ⟨n, small word, rfl⟩
    · obtain ⟨x, -, h⟩ := Option.bind_eq_some_iff.1 h
      obtain ⟨-, h⟩ := Option.ite_none_left_eq_some.1 h
      exact .inr ⟨x, (Option.some.inj h).symm⟩

/-- A constant has no parts, and one that is no double is read as it is printed. -/
theorem legible_of_constant? {n : Node} {v : Value} (h : constant? n = some v)
    (noDouble : ∀ x, v ≠ .number (.float x)) : v.Readable ∧ v.height ≤ 0 := by
  unfold constant? at h
  split at h
  -- A number is the one constant whose text might be read otherwise.
  case h_2 =>
    rcases whole_of_number? h with ⟨k, small, rfl⟩ | ⟨x, rfl⟩
    · have bound : Nat.pow 2 63 ≤ maxWord := by decide
      exact ⟨readable_whole ⟨by omega, by omega⟩, Nat.le_refl 0⟩
    · exact absurd rfl (noDouble x)
  case h_6 => cases h
  all_goals
    obtain rfl := Option.some.inj h
    exact ⟨trivial, Nat.le_refl 0⟩

end Outline

theorem FileOutline.Within.legible {f : FileOutline} {last : Nat} (within : f.Within last)
    (small : last ≤ maxWord) (defaults : ∀ p ∈ f.parameters, p.Legible) : f.Legible := by
  have callable {g : FunctionOutline} (hg : g ∈ f.callables) : g.Legible := by
    obtain ⟨starts, ends⟩ := within.callables g hg
    refine ⟨Nat.le_trans starts small, Nat.le_trans ends small, fun p hp => defaults p ?_⟩
    exact List.mem_flatMap.2 ⟨g, hg, hp⟩
  refine ⟨fun g hg => callable (List.mem_append_left _ hg), fun c hc => ?_⟩
  obtain ⟨starts, ends⟩ := within.classes c hc
  refine ⟨Nat.le_trans starts small, Nat.le_trans ends small, fun g hg => callable ?_⟩
  exact List.mem_append_right _ (List.mem_flatMap.2 ⟨c, hc, hg⟩)

theorem legible_outline {fileName source : String} (small : source.length < maxWord)
    (noDouble : ∀ p ∈ (outline fileName source).parameters,
      ∀ x, p.default? ≠ some (.number (.float x))) :
    (outline fileName source).Legible := by
  have feeds : source.toList.count '\n' ≤ source.length := List.count_le_length
  refine (within_outline fileName source).legible (by omega) fun p hp v hv => ?_
  obtain ⟨n, constant⟩ := exists_constant_of_outline hp hv
  refine Outline.legible_of_constant? constant fun x same => noDouble p hp x ?_
  rw [← same]
  exact hv

/-- What is decoded of a text of the outline of a file, none of whose defaults is a double, is the outline
with every record in it, but a default that is `null` is lost.  So the outline is read back as it was just
when no parameter defaults to `null`. -/
theorem outline_reads_back (fileName source : String) (small : source.length < maxWord)
    (noDouble : ∀ p ∈ (outline fileName source).parameters,
      ∀ x, p.default? ≠ some (.number (.float x)))
    {text : String} (written : Writes (outline fileName source).toJson text.toList) :
    decodeText FileOutline.decoder text = .ok (outline fileName source).asRead ∧
      (decodeText FileOutline.decoder text = .ok (outline fileName source) ↔
        ∀ p ∈ (outline fileName source).parameters, p.default? ≠ some .null) :=
  have legible := legible_outline small noDouble
  ⟨legible.decodeText written, legible.decodeText_iff written⟩

instance (v? : Option Value) : Decidable (v? = some .null) :=
  match v? with
  | some .null => .isTrue rfl
  | none | some (.bool _) | some (.number _) | some (.string _) | some (.array _) | some (.object _) =>
    .isFalse nofun

instance (v? : Option Value) : Decidable (∀ x, v? ≠ some (.number (.float x))) :=
  match v? with
  | some (.number (.float x)) => .isFalse fun other => other x rfl
  | none | some .null | some (.bool _) | some (.number (.whole _)) | some (.string _) | some (.array _)
  | some (.object _) => .isTrue nofun

theorem outline_of_script {fileName : String} {d : Script.Dialect}
    (kind : SourceKind.ofFile fileName = .script d) (source : String) :
    outline fileName source = Outline.ofScript fileName source d := by
  rw [outline, kind]

/-- The parameters, each with the JSON text of its default. -/
def FileOutline.defaults (f : FileOutline) : List (String × Option String) :=
  f.parameters.map fun p => (p.name, p.default?.map Value.compact)

/-- A number and a string are read back as they were, and a `null` is lost beside a number that is not. -/
theorem outline_reads_back_defaults :
    let kept := outline "a.js" "function f(b=1,c='x')\x7b\x7d"
    let lost := outline "a.js" "function f(a=null,b=1)\x7b\x7d"
    (kept.defaults = [("b", some "1"), ("c", some "\"x\"")] ∧
      decodeText FileOutline.decoder kept.toJson.compact = .ok kept) ∧
    lost.defaults = [("a", some "null"), ("b", some "1")] ∧
      lost.asRead.defaults = [("a", none), ("b", some "1")] ∧
      decodeText FileOutline.decoder lost.toJson.compact = .ok lost.asRead ∧
      decodeText FileOutline.decoder lost.toJson.compact ≠ .ok lost := by
  intro kept lost
  have readKept : kept.defaults = [("b", some "1"), ("c", some "\"x\"")] ∧
      (∀ p ∈ kept.parameters, ∀ x, p.default? ≠ some (.number (.float x))) ∧
      ∀ p ∈ kept.parameters, p.default? ≠ some .null := by
    dsimp only [kept]
    rw [outline_of_script (d := .javascript) (by decide +kernel), Outline.ofScript, Script.parse,
      Grammar.parse_eq_parseNoted]
    decide +kernel
  have readLost : lost.defaults = [("a", some "null"), ("b", some "1")] ∧
      lost.asRead.defaults = [("a", none), ("b", some "1")] ∧
      (∀ p ∈ lost.parameters, ∀ x, p.default? ≠ some (.number (.float x))) ∧
      ¬∀ p ∈ lost.parameters, p.default? ≠ some .null := by
    dsimp only [lost]
    rw [outline_of_script (d := .javascript) (by decide +kernel), Outline.ofScript, Script.parse,
      Grammar.parse_eq_parseNoted]
    decide +kernel
  obtain ⟨keptDefaults, keptDoubles, noNull⟩ := readKept
  obtain ⟨lostDefaults, lostRead, lostDoubles, aNull⟩ := readLost
  have keptBack := outline_reads_back "a.js" "function f(b=1,c='x')\x7b\x7d" (by decide) keptDoubles
    (writes_compact _)
  have lostBack := outline_reads_back "a.js" "function f(a=null,b=1)\x7b\x7d" (by decide) lostDoubles
    (writes_compact _)
  exact ⟨⟨keptDefaults, keptBack.2.2 noNull⟩, lostDefaults, lostRead, lostBack.1,
    fun back => aNull (lostBack.2.1 back)⟩

end RepoDocs
