import RepoDocs.Proofs.Outline.Blocks
import RepoDocs.Proofs.Outline.Rendering

/-! Rendered headers are read back.  The patterns for functions, classes and imports each invert the
text of their own headers, and none of them takes the header of another. -/

namespace RepoDocs.Outline.Python

open RepoDocs.Text

variable {s t : Line} {c : Char}

/-! ### Reading a text from its start -/

theorem after?_append (w : String) (t : Line) : after? w (w.toList ++ t) = some t := by
  rw [after?, if_pos (List.isPrefixOf_iff_prefix.2 (List.prefix_append _ _)), ← String.length_toList,
    List.drop_left]

theorem after?_of_head {w : String} {d : Char} {r : Line} (hw : w.toList = c :: r) (h : d ≠ c) :
    after? w (d :: t) = none := by
  rw [after?, hw, if_neg]
  intro starts
  rw [List.isPrefixOf_iff_prefix] at starts
  exact h (List.cons_prefix_cons.1 starts).1.symm

theorem dropWhile_blank (h : isBlank c = false) : (c :: t).dropWhile isBlank = c :: t :=
  List.dropWhile_cons_of_neg (by simp [h])

theorem afterBlanks?_space (h : Flush s) : afterBlanks? (' ' :: s) = some s := by
  obtain ⟨c, r, rfl, hc⟩ := h
  rw [afterBlanks?, if_pos (by rfl), dropWhile_blank hc]

theorem after?_keyword (w : String) (h : Flush s) :
    (after? w (keyword w s)).bind afterBlanks? = some s := by
  rw [keyword, after?_append, Option.bind_some, afterBlanks?_space h]

theorem tight_keyword {w : String} (h : Flush w.toList) (hs : Tight s) : Tight (keyword w s) := by
  rw [keyword, List.append_cons]
  exact (h.append _).append_tight hs

theorem word?_append {name : Line} (h : IsName name) (hc : isWord c = false) :
    word? (name ++ c :: t) = some (name, c :: t) := by
  rw [word?, takeWhile_stop h.2 hc, dropWhile_stop h.2 hc]
  obtain ⟨d, r, rfl⟩ := List.exists_cons_of_ne_nil h.1
  rfl

/-! ### Texts between commas -/

theorem commaSeparated_cons_cons (s t : Line) (rest : List Line) :
    commaSeparated (s :: t :: rest) = s ++ ',' :: ' ' :: commaSeparated (t :: rest) := by
  simp [commaSeparated, List.intercalate_cons_cons]

theorem flush_commaSeparated (h : Flush s) (rest : List Line) : Flush (commaSeparated (s :: rest)) := by
  cases rest with
  | nil => simpa [commaSeparated] using h
  | cons t rest =>
    rw [commaSeparated_cons_cons]
    exact h.append _

theorem tight_commaSeparated {parts : List Line} (nonempty : parts ≠ []) (h : ∀ s ∈ parts, Tight s) :
    Tight (commaSeparated parts) := by
  induction parts with
  | nil => exact absurd rfl nonempty
  | cons s rest ih =>
    have first := h s (by simp)
    cases rest with
    | nil => simpa [commaSeparated] using first
    | cons t rest =>
      have others := ih (by simp) fun u hu => h u (List.mem_cons_of_mem _ hu)
      have cut := commaSeparated_cons_cons s t rest
      rw [List.append_cons s, List.append_cons _ ' '] at cut
      rw [cut]
      exact ((first.first.append _).append _).append_tight others

theorem forall_mem_commaSeparated {P : Char → Prop} {parts : List Line} (comma : P ',') (space : P ' ')
    (h : ∀ s ∈ parts, ∀ c ∈ s, P c) : ∀ c ∈ commaSeparated parts, P c := by
  induction parts with
  | nil => simp [commaSeparated]
  | cons s rest ih =>
    have others := ih fun s hs => h s (List.mem_cons_of_mem _ hs)
    cases rest with
    | nil => simpa [commaSeparated] using h s (by simp)
    | cons t rest =>
      intro c hc
      rw [commaSeparated_cons_cons, List.mem_append, List.mem_cons, List.mem_cons] at hc
      rcases hc with hc | rfl | rfl | hc
      · exact h s (by simp) c hc
      · exact comma
      · exact space
      · exact others c hc

theorem ParameterText.WellFormed.plain {p : ParameterText} (h : p.WellFormed) :
    ∀ c ∈ p.text, c ≠ ',' ∧ c ≠ ')' ∧ c ≠ '\n' := by
  intro c hc
  unfold ParameterText.text at hc
  split at hc
  · exact ⟨(h.name c hc).1, (h.name c hc).2.2⟩
  · next gap value hdefault =>
    obtain ⟨blanks, rest⟩ := h.default gap value hdefault
    simp only [List.mem_append, List.mem_cons] at hc
    rcases hc with (hc | hc) | rfl | hc
    · exact ⟨(h.name c hc).1, (h.name c hc).2.2⟩
    · obtain ⟨blank, inLine⟩ := blanks c hc
      refine ⟨?_, ?_, inLine⟩ <;> rintro rfl <;> cases blank
    · decide
    · exact rest c hc

theorem ParameterText.WellFormed.flush {p : ParameterText} (h : p.WellFormed) : Flush p.text := by
  unfold ParameterText.text
  split
  · exact h.tight.first
  · rw [List.append_assoc]
    exact h.tight.first.append _

/-! ### Functions -/

theorem IsMargin.blank {m : Line} (h : IsMargin m) : ∀ c ∈ m, Text.isBlank c = true :=
  fun c hc => (h c hc).1

/-- The name of a parameter stands in front of its default, whatever blanks are around it. -/
theorem ParameterText.WellFormed.read {p : ParameterText} (h : p.WellFormed) {front : Line}
    (blanks : IsMargin front) : trim ((front ++ p.text).takeWhile (· != '=')) = p.name := by
  have unequal {s : Line} (hs : IsMargin s) : ∀ c ∈ s, (c != '=') = true := by
    intro c hc
    have blank := hs.blank c hc
    by_contra equal
    rw [show c = '=' by simpa using equal] at blank
    cases blank
  have unequal' : ∀ c ∈ p.name, (c != '=') = true := fun c hc => by simpa using (h.name c hc).2.1
  cases hdefault : p.default? with
  | none =>
    have whole : front ++ p.text = front ++ p.name := by simp [ParameterText.text, hdefault]
    rw [whole, List.takeWhile_append_of_pos (unequal blanks), List.takeWhile_eq_self_iff.2 unequal',
      trim_append_left blanks.blank, h.tight.trim]
  | some default =>
    obtain ⟨gap, value⟩ := default
    obtain ⟨blanks', -⟩ := h.default gap value hdefault
    have whole : front ++ p.text = (front ++ (p.name ++ gap)) ++ '=' :: value := by
      simp [ParameterText.text, hdefault]
    rw [whole, takeWhile_stop (p := (· != '=')) ?_ rfl, trim_append_left blanks.blank,
      trim_append_right blanks'.blank, h.tight.trim]
    simp only [List.forall_mem_append]
    exact ⟨unequal blanks, unequal', unequal blanks'⟩

theorem parametersOf_commaSeparated {ps : List ParameterText} (h : ∀ p ∈ ps, p.WellFormed) :
    parametersOf (commaSeparated (ps.map (·.text))) = ps.map fun p => ⟨String.ofList p.name, none⟩ := by
  cases ps with
  | nil => rfl
  | cons p rest =>
    have nonempty := (flush_commaSeparated (h p (by simp)).flush (rest.map (·.text))).trim_ne_nil
    have pieces : splitAtEach (· == ',') (commaSeparated ((p :: rest).map (·.text))) =
        listPieces [] [] ((p :: rest).map (·.text)) := by
      have apart : ∀ s ∈ (p :: rest).map (·.text), ',' ∉ s := by
        intro s hs comma
        obtain ⟨q, hq, rfl⟩ := List.mem_map.1 hs
        exact ((h q hq).plain _ comma).1 rfl
      simpa [commaSeparated] using splitAtEach_listed (by simp) List.not_mem_nil List.not_mem_nil apart
    rw [parametersOf, if_neg (by simpa using nonempty), pieces]
    refine filterMap_listPieces (F := IsMargin) (B := (· = [])) ?_ ?_ rfl rfl ?_
    · exact fun c hc => nomatch hc
    · exact fun c hc => by rw [List.mem_singleton.1 hc]; decide
    · rintro q hq front _ blanks rfl
      obtain ⟨c, r, hname, -⟩ := (h q hq).tight.first
      rw [List.append_nil, (h q hq).read blanks, hname]
      rfl

theorem isWord_parenthesis : isWord '(' = false := by decide

theorem isBlank_parenthesis : isBlank '(' = false := by decide

theorem endsDef_annotated (result? : Option Line) :
    endsDef ((annotated result?).dropWhile isBlank) = true := by
  cases result? with
  | none => rfl
  | some result =>
    show endsDef ('-' :: '>' :: ' ' :: (result ++ [':'])) = true
    simp [endsDef]

/-- The pattern for functions goes on alike behind `async` and at the start of a line without it. -/
theorem defHeader?_of_signature {isAsync : Bool} {line name parameters ending : Line}
    (start : (after? "async" line).bind afterBlanks? = none ∧ isAsync = false ∧
        line = signature name parameters ending ∨
      (after? "async" line).bind afterBlanks? = some (signature name parameters ending) ∧
        isAsync = true)
    (isName : IsName name) (inside : ∀ c ∈ parameters, (c != ')') = true)
    (ends : endsDef (ending.dropWhile isBlank) = true) :
    defHeader? line = some ⟨isAsync, name, parameters⟩ := by
  unfold defHeader?
  rcases start with ⟨read, rfl, rfl⟩ | ⟨read, rfl⟩
  all_goals
    rw [read]
    simp only [signature, after?_keyword "def" (isName.flush.append _), Option.bind_eq_bind,
      Option.bind_some, word?_append isName isWord_parenthesis, dropWhile_blank isBlank_parenthesis,
      dropWhile_stop inside (bne_self_eq_false ')'), takeWhile_stop inside (bne_self_eq_false ')'),
      ends, if_true]

theorem defHeader?_function {isAsync : Bool} {name : Line} {ps : List ParameterText}
    {result? : Option Line} (h : (Heading.function isAsync name ps result?).WellFormed) :
    defHeader? (Heading.function isAsync name ps result?).text =
      some ⟨isAsync, name, commaSeparated (ps.map (·.text))⟩ := by
  obtain ⟨isName, params, -⟩ := h
  have inside : ∀ c ∈ commaSeparated (ps.map (·.text)), (c != ')') = true := by
    refine forall_mem_commaSeparated (by decide) (by decide) fun s hs c hc => ?_
    obtain ⟨p, hp, rfl⟩ := List.mem_map.1 hs
    simpa using ((params p hp).plain c hc).2.1
  refine defHeader?_of_signature ?_ isName inside (endsDef_annotated result?)
  cases isAsync with
  | false =>
    refine .inl ⟨?_, rfl, rfl⟩
    have sync : after? "async" (signature name (commaSeparated (ps.map (·.text))) (annotated result?)) =
      none := after?_of_head rfl (by decide)
    exact congrArg (Option.bind · afterBlanks?) sync
  | true =>
    exact .inr ⟨after?_keyword "async" ⟨_, _, rfl, by decide⟩, rfl⟩

/-! ### Classes -/

theorem className?_class {name : Line} (isName : IsName name) (bases? : Option Line) :
    className? (Heading.class name bases?).text = some name := by
  obtain ⟨c, r, hderived, stops, colon⟩ :
      ∃ c r, derived bases? = c :: r ∧ isWord c = false ∧ (c :: r).contains ':' = true := by
    cases bases? with
    | none => exact ⟨_, _, rfl, by decide, rfl⟩
    | some bases => exact ⟨_, _, rfl, isWord_parenthesis, by simp⟩
  unfold className?
  simp only [Heading.text, hderived, after?_keyword "class" (isName.flush.append _),
    Option.bind_eq_bind, Option.bind_some, word?_append isName stops, colon, if_true]

/-! ### Imports -/

theorem imported?_keyword (h : Flush s) : imported? (keyword "import" s) = some s := by
  rw [imported?, after?_keyword "import" h]
  obtain ⟨c, r, rfl, -⟩ := h
  rfl

theorem tight_listed {names : List Line} (nonempty : names ≠ []) (h : ∀ name ∈ names, IsName name)
    (inParentheses : Bool) : Tight (listed names inParentheses) := by
  cases inParentheses with
  | false => exact tight_commaSeparated nonempty fun name hname => (h name hname).tight
  | true =>
    have opened : Flush ('(' :: commaSeparated names) := ⟨_, _, rfl, isBlank_parenthesis⟩
    exact opened.append_tight (tight_of_all (by simp) (by decide))

theorem importParts?_import {module? : Option Line} {names : List Line} {inParentheses : Bool}
    (h : (Leaf.import module? names inParentheses).WellFormed) :
    importParts? (Leaf.import module? names inParentheses).text =
      some (module?, listed names inParentheses) := by
  obtain ⟨hmodule, nonempty, isName⟩ := h
  have flush := (tight_listed nonempty isName inParentheses).first
  cases module? with
  | none =>
    have other : after? "from" (keyword "import" (listed names inParentheses)) = none :=
      after?_of_head rfl (by decide)
    rw [Leaf.text, importParts?, other, imported?_keyword flush]
    rfl
  | some module =>
    obtain ⟨nonempty', nonblank⟩ := hmodule module rfl
    have start : Flush (module ++ ' ' :: keyword "import" (listed names inParentheses)) :=
      (tight_of_forall nonempty' nonblank).first.append _
    have behind : Flush (keyword "import" (listed names inParentheses)) := ⟨_, _, rfl, by decide⟩
    have goesOn : ∀ c ∈ module, (!isBlank c) = true := fun c hc => by rw [nonblank c hc]; rfl
    have stops : (!isBlank ' ') = false := rfl
    simp only [Leaf.text, importParts?, after?_keyword "from" start, Option.bind_eq_bind,
      Option.bind_some, takeWhile_stop goesOn stops, dropWhile_stop goesOn stops,
      afterBlanks?_space behind, imported?_keyword flush]
    rw [if_neg (by simpa using nonempty')]
    rfl

def IsParentheses (s : Line) : Prop := ∀ c ∈ s, c = '(' ∨ c = ')'

theorem dropParentheses_append {name front behind : Line} (h : IsName name)
    (hfront : IsParentheses front) (hbehind : IsParentheses behind) :
    dropParentheses (front ++ name ++ behind) = name := by
  let isParenthesis (c : Char) : Bool := c == '(' || c == ')'
  have opens {s : Line} (hs : IsParentheses s) : ∀ c ∈ s, isParenthesis c = true :=
    fun c hc => by simpa [isParenthesis] using hs c hc
  have word : ∀ c ∈ name, isParenthesis c = false := by
    intro c hc
    have unequal (d : Char) (hd : isWord d = false) : (c == d) = false :=
      beq_eq_false_iff_ne.2 fun same => h.not_mem hd (same ▸ hc)
    exact Bool.or_eq_false_iff.2 ⟨unequal '(' isWord_parenthesis, unequal ')' (by decide)⟩
  obtain ⟨c, r, hfirst⟩ := List.exists_cons_of_ne_nil h.1
  have first : (name ++ behind).dropWhile isParenthesis = name ++ behind := by
    rw [hfirst, List.cons_append, List.dropWhile_cons_of_neg (by simp [word c (by simp [hfirst])])]
  have last : dropEndWhile isParenthesis name = name := by
    rw [← List.dropLast_append_getLast h.1, dropEndWhile_of_last (word _ (List.getLast_mem h.1))]
  calc dropParentheses (front ++ name ++ behind)
    _ = dropEndWhile isParenthesis ((front ++ (name ++ behind)).dropWhile isParenthesis) := by
      rw [← List.append_assoc]
      rfl
    _ = dropEndWhile isParenthesis (name ++ behind) := by
      rw [List.dropWhile_append_of_pos (opens hfront), first]
    _ = name := by rw [dropEndWhile_append (opens hbehind), last]

theorem trim_parentheses {name front behind : Line} (h : IsName name) (hfront : IsParentheses front)
    (hbehind : IsParentheses behind) : trim (front ++ name ++ behind) = front ++ name ++ behind := by
  have visible {s : Line} (hs : IsParentheses s) : ∀ c ∈ s, isBlank c = false := by
    intro c hc
    rcases hs c hc with rfl | rfl <;> decide
  refine (tight_of_forall (by simp [h.1]) ?_).trim
  simp only [List.forall_mem_append]
  exact ⟨⟨visible hfront, fun c hc => isBlank_of_isWord (h.2 c hc)⟩, visible hbehind⟩

theorem namesOf_between {names : List Line} (nonempty : names ≠ []) (h : ∀ name ∈ names, IsName name)
    {front behind : Line} (hfront : IsParentheses front) (hbehind : IsParentheses behind) :
    namesOf (front ++ commaSeparated names ++ behind) = names.map String.ofList := by
  have apart {s : Line} (hs : IsParentheses s) : ',' ∉ s := fun comma => by
    rcases hs _ comma with e | e <;> cases e
  have inName : ∀ name ∈ names, ',' ∉ name := fun name hname => (h name hname).not_mem (by decide)
  have pieces := splitAtEach_listed nonempty (apart hfront) (apart hbehind) inName
  rw [namesOf, commaSeparated, pieces]
  conv_lhs => rw [← List.map_id names]
  have nothing : IsParentheses [] := fun c hc => nomatch hc
  refine filterMap_listPieces (F := fun s => s = [' '] ∨ IsParentheses s) (B := IsParentheses)
    (.inr hfront) (.inl rfl) nothing hbehind fun name hname s t hs ht => ?_
  have isName := h name hname
  obtain ⟨s', hs', same⟩ : ∃ s', IsParentheses s' ∧ trim (s ++ name ++ t) = trim (s' ++ name ++ t) := by
    rcases hs with rfl | hs
    · refine ⟨[], nothing, ?_⟩
      have space : IsMargin [' '] := by decide
      rw [List.append_assoc, trim_append_left space.blank]
      rfl
    · exact ⟨s, hs, rfl⟩
  obtain ⟨c, r, hfirst⟩ := List.exists_cons_of_ne_nil isName.1
  simp only [id, same, trim_parentheses isName hs' ht, dropParentheses_append isName hs' ht,
    isName.tight.trim]
  rw [hfirst]
  rfl

theorem namesOf_listed {names : List Line} (nonempty : names ≠ []) (h : ∀ name ∈ names, IsName name)
    (inParentheses : Bool) : namesOf (listed names inParentheses) = names.map String.ofList := by
  cases inParentheses with
  | false =>
    have nothing : IsParentheses [] := fun c hc => nomatch hc
    simpa [listed] using namesOf_between nonempty h nothing nothing
  | true =>
    have opening : IsParentheses ['('] := fun c hc => .inl (List.mem_singleton.1 hc)
    have closing : IsParentheses [')'] := fun c hc => .inr (List.mem_singleton.1 hc)
    exact namesOf_between nonempty h opening closing

/-! ### Texts of lines -/

theorem tight_colon : Tight [':'] := tight_of_all (by simp) (by decide)

theorem Heading.tight_text (h : Heading) : Tight h.text := by
  obtain ⟨front, hfront, flush⟩ : ∃ front, h.text = front ++ [':'] ∧ Flush front := by
    cases h with
    | function isAsync name ps result? =>
      obtain ⟨r, hr⟩ : ∃ r, annotated result? = r ++ [':'] := by
        cases result? with
        | none => exact ⟨[], rfl⟩
        | some result => exact ⟨' ' :: '-' :: '>' :: ' ' :: result, rfl⟩
      let s := signature name (commaSeparated (ps.map (·.text))) r
      refine ⟨if isAsync then keyword "async" s else s, ?_, ?_⟩
      · cases isAsync <;> simp [Heading.text, signature, keyword, hr, s]
      · cases isAsync <;> exact ⟨_, _, rfl, by decide⟩
    | «class» name bases? =>
      obtain ⟨r, hr⟩ : ∃ r, derived bases? = r ++ [':'] := by
        cases bases? with
        | none => exact ⟨[], rfl⟩
        | some bases => exact ⟨'(' :: (bases ++ [')']), by simp [derived]⟩
      exact ⟨keyword "class" (name ++ r), by simp [Heading.text, keyword, hr], _, _, rfl, by decide⟩
  rw [hfront]
  exact flush.append_tight tight_colon

theorem Leaf.tight_import {module? : Option Line} {names : List Line} {inParentheses : Bool}
    (h : (Leaf.import module? names inParentheses).WellFormed) :
    Tight (Leaf.import module? names inParentheses).text := by
  have listed := tight_listed h.2.1 h.2.2 inParentheses
  have imported := tight_keyword (w := "import") ⟨_, _, rfl, by decide⟩ listed
  cases module? with
  | none => exact imported
  | some module =>
    obtain ⟨nonempty, nonblank⟩ := h.1 module rfl
    have flush : Flush (module ++ [' ']) := (tight_of_forall nonempty nonblank).first.append _
    refine tight_keyword ⟨_, _, rfl, by decide⟩ ?_
    rw [List.append_cons]
    exact flush.append_tight imported

theorem inLine_commaSeparated {parts : List Line} (h : ∀ s ∈ parts, '\n' ∉ s) :
    '\n' ∉ commaSeparated parts := by
  simp only [← List.forall_mem_ne'] at h ⊢
  exact forall_mem_commaSeparated (by decide) (by decide) h

theorem Heading.WellFormed.inLine {heading : Heading} (h : heading.WellFormed) :
    '\n' ∉ heading.text := by
  cases heading with
  | function isAsync name ps result? =>
    obtain ⟨isName, params, result⟩ := h
    have parameters : '\n' ∉ commaSeparated (ps.map (·.text)) := by
      refine inLine_commaSeparated fun s hs feed => ?_
      obtain ⟨p, hp, rfl⟩ := List.mem_map.1 hs
      exact ((params p hp).plain _ feed).2.2 rfl
    have ending : '\n' ∉ annotated result? := by
      cases result? with
      | none => decide
      | some result' => simpa [annotated] using (result result' rfl).2.2
    have inName : '\n' ∉ name := isName.not_mem (by decide)
    cases isAsync <;> simp [Heading.text, signature, keyword, inName, parameters, ending]
  | «class» name bases? =>
    obtain ⟨isName, bases⟩ := h
    have ending : '\n' ∉ derived bases? := by
      cases bases? with
      | none => decide
      | some bases' => simpa [derived] using bases bases' rfl
    have inName : '\n' ∉ name := isName.not_mem (by decide)
    simp [Heading.text, keyword, inName, ending]

theorem Leaf.WellFormed.inLine {leaf : Leaf} (h : leaf.WellFormed) : '\n' ∉ leaf.text := by
  cases leaf with
  | blank => exact List.not_mem_nil
  | other text => exact h.2.1
  | «import» module? names inParentheses =>
    obtain ⟨modules, -, isName⟩ := h
    have separated : '\n' ∉ commaSeparated names :=
      inLine_commaSeparated fun name hname => (isName name hname).not_mem (by decide)
    have inList : '\n' ∉ listed names inParentheses := by
      cases inParentheses <;> simpa [listed] using separated
    cases module? with
    | none => simpa [Leaf.text, keyword] using inList
    | some module =>
      have inModule : '\n' ∉ module := fun feed => nomatch (modules module rfl).2 _ feed
      simp [Leaf.text, keyword, inModule, inList]

/-! ### One header for each text -/

theorem head?_of_importParts? {line : Line} {x : Option Line × Line} (h : importParts? line = some x) :
    line.head? = some 'f' ∨ line.head? = some 'i' := by
  cases hfrom : (after? "from" line).bind afterBlanks? with
  | some s =>
    obtain ⟨t, rfl⟩ := after?_of_bind hfrom
    exact .inl rfl
  | none =>
    rw [importParts?, hfrom] at h
    obtain ⟨names, hnames, -⟩ := Option.map_eq_some_iff.1 (h : (imported? line).map (none, ·) = some x)
    obtain ⟨s, hs, -⟩ := Option.bind_eq_some_iff.1 hnames
    obtain ⟨t, rfl⟩ := after?_of_bind hs
    exact .inr rfl

theorem defHeader?_eq_none {line : Line} (h : line.head? = some c) (ha : c ≠ 'a') (hd : c ≠ 'd') :
    defHeader? line = none := by
  refine Option.eq_none_iff_forall_ne_some.2 fun header found => ?_
  rcases head?_of_defHeader? found with head | head
  · exact ha (Option.some_inj.1 (h.symm.trans head))
  · exact hd (Option.some_inj.1 (h.symm.trans head))

theorem className?_eq_none {line : Line} (h : line.head? = some c) (hc : c ≠ 'c') :
    className? line = none :=
  Option.eq_none_iff_forall_ne_some.2 fun _ found =>
    hc (Option.some_inj.1 (h.symm.trans (head?_of_className? found)))

theorem importParts?_eq_none {line : Line} (h : line.head? = some c) (hf : c ≠ 'f') (hi : c ≠ 'i') :
    importParts? line = none := by
  refine Option.eq_none_iff_forall_ne_some.2 fun parts found => ?_
  rcases head?_of_importParts? found with head | head
  · exact hf (Option.some_inj.1 (h.symm.trans head))
  · exact hi (Option.some_inj.1 (h.symm.trans head))

end RepoDocs.Outline.Python
