import RepoDocs.Proofs.Http.Segments

/-! The resource that an address leads to.  A path that is put behind the address of a directory is read as
part of an address, so it leads to the file of that name just when no part of it has a meaning there. -/

namespace RepoDocs.Http.Url

open Text
open String (utf8EncodeChar)

variable {s t : List Char}

/-! ### The end of an address -/

/-- Whether a character goes off at the ends of an address. -/
def isEdge (c : Char) : Bool := c.toNat ≤ 0x20

/-- Whether a character goes off anywhere in an address. -/
def isBreak (c : Char) : Bool := c = '\t' || c = '\n' || c = '\r'

/-- What is read of a text as the end of an address. -/
def ending (s : List Char) : List Char :=
  (s.rdropWhile isEdge).filter (!isBreak ·)

theorem cleaned_append (s : List Char) : ∃ r, ∀ t, cleaned (s ++ '/' :: t) = r ++ '/' :: ending t := by
  have cleaned_eq (s : List Char) :
      cleaned s = ((s.dropWhile isEdge).rdropWhile isEdge).filter (!isBreak ·) := by
    simp only [cleaned, isBreak, ne_eq, decide_not, Bool.not_or]
    rfl
  have kept : isEdge '/' = false := by decide
  refine ⟨(s.dropWhile isEdge).filter (!isBreak ·), fun t => ?_⟩
  rw [cleaned_eq, dropWhile_append_cons kept, rdropWhile_append_cons kept, List.filter_append, ending]
  rfl

/-- What is read of a text as the end of a path. -/
def pathPart (s : List Char) : List Char :=
  (cutAt '?' (cutAt '#' (ending s)).1).1

theorem cutAt_of_not_mem {sep : Char} (h : sep ∉ s) (t : List Char) :
    cutAt sep (s ++ t) = (s ++ (cutAt sep t).1, (cutAt sep t).2) := by
  have inside : ∀ c ∈ s, (c != sep) = true := fun c hc => by
    rw [bne_iff_ne]
    rintro rfl
    exact h hc
  unfold cutAt splitFirst?
  rw [List.dropWhile_append_of_pos inside, List.takeWhile_append_of_pos inside]
  cases t.dropWhile (· != sep) <;> rfl

theorem not_mem_of_cutAt {sep : Char} (h : (cutAt sep s).2 = none) : sep ∉ s ∧ (cutAt sep s).1 = s := by
  unfold cutAt splitFirst? at *
  cases behind : s.dropWhile (· != sep) with
  | nil =>
    refine ⟨fun mem => ?_, rfl⟩
    simpa using List.dropWhile_eq_nil_iff.1 behind sep mem
  | cons c rest =>
    simp [behind] at h

theorem fst_cutAt (sep : Char) (s : List Char) : (cutAt sep s).1 = s.takeWhile (· != sep) := by
  unfold cutAt splitFirst?
  cases behind : s.dropWhile (· != sep) with
  | nil => exact (List.takeWhile_eq_self_iff.2 (List.dropWhile_eq_nil_iff.1 behind)).symm
  | cons c rest => rfl

theorem pathPart_sublist_ending (s : List Char) : (pathPart s).Sublist (ending s) := by
  rw [pathPart, fst_cutAt, fst_cutAt]
  exact ((List.takeWhile_prefix _).trans (List.takeWhile_prefix _)).sublist

theorem pathPart_sublist (s : List Char) : (pathPart s).Sublist s :=
  (pathPart_sublist_ending s).trans (List.filter_sublist.trans (List.rdropWhile_prefix isEdge s).sublist)

/-- A text is read to its end as a path just when no part of it goes off. -/
theorem pathPart_eq_self : pathPart s = s ↔
    (∀ c ∈ s, c ≠ '#' ∧ c ≠ '?' ∧ isBreak c = false) ∧ ∀ h : s ≠ [], isEdge (s.getLast h) = false := by
  constructor
  · intro whole
    refine ⟨fun c hc => ?_, ?_⟩
    · rw [← whole, pathPart, fst_cutAt, fst_cutAt] at hc
      have mark := List.mem_takeWhile_imp (p := (· != '?')) hc
      have hc := (List.takeWhile_prefix _).subset hc
      have hash := List.mem_takeWhile_imp (p := (· != '#')) hc
      have kept := (List.mem_filter.1 ((List.takeWhile_prefix _).subset hc)).2
      simpa using And.intro hash (And.intro mark kept)
    · have long := whole ▸ ((pathPart_sublist_ending s).trans List.filter_sublist).length_le
      have same := (List.rdropWhile_prefix isEdge s).eq_of_length_le long
      simpa using List.rdropWhile_eq_self_iff.1 same
  · rintro ⟨inside, last⟩
    have same : s.rdropWhile isEdge = s := List.rdropWhile_eq_self_iff.2 (by simpa using last)
    have kept : ending s = s := by
      rw [ending, same, List.filter_eq_self]
      exact fun c hc => by simp [(inside c hc).2.2]
    have all (sep : Char) (h : ∀ c ∈ s, c ≠ sep) : s.takeWhile (· != sep) = s :=
      List.takeWhile_eq_self_iff.2 fun c hc => bne_iff_ne.2 (h c hc)
    rw [pathPart, fst_cutAt, fst_cutAt, kept, all '#' fun c hc => (inside c hc).1,
      all '?' fun c hc => (inside c hc).2.1]

/-! ### Behind a directory -/

/-- The scheme of an address does not depend on what follows. -/
theorem scheme?_append {scheme rest : List Char} (h : scheme? s = some (scheme, rest)) (t : List Char) :
    scheme? (s ++ t) = some (scheme, rest ++ t) := by
  unfold scheme? at *
  split at h
  · next c name rest' found =>
    rw [splitFirst?_append found]
    split_ifs at h with valid
    obtain ⟨rfl, rfl⟩ := Prod.mk.inj (Option.some.inj h)
    exact if_pos valid
  · cases h

theorem suffix_of_scheme? {scheme rest : List Char} (h : scheme? s = some (scheme, rest)) : rest <:+ s := by
  unfold scheme? splitFirst? at h
  cases behind : s.dropWhile (· != ':') with
  | nil => simp [behind] at h
  | cons c behind' =>
    rw [behind] at h
    have suffix : behind' <:+ s :=
      (List.suffix_cons c behind').trans (behind ▸ List.dropWhile_suffix _)
    split at h
    · next found =>
      obtain ⟨-, rfl⟩ := Prod.mk.inj (Option.some.inj found)
      split_ifs at h
      obtain ⟨-, rfl⟩ := Prod.mk.inj (Option.some.inj h)
      exact suffix
    · cases h

/-- The host and the path of what follows the scheme of an address of the web. -/
def hostAndPath (s : List Char) : List Char × List Char :=
  let s := s.dropWhile isSlash
  (s.takeWhile (!isSlash ·), s.dropWhile (!isSlash ·))

/-- The address of the web that a scheme and what follows it give. -/
def readWeb? (port : Nat) (scheme rest : List Char) : Option Url :=
  let main := (cutAt '#' rest).1
  let path := (cutAt '?' main).1
  (readAuthority? port (hostAndPath path).1).map fun authority =>
    { scheme, authority? := some authority, path := normalPath isSlash (hostAndPath path).2
      query? := (cutAt '?' main).2.map (percentEncode querySpecials)
      fragment? := (cutAt '#' rest).2.map (percentEncode fragmentSpecials) }

theorem parse_web {text : String} {scheme rest : List Char} {port : Nat}
    (found : scheme? (cleaned text.toList) = some (scheme, rest))
    (lookup : webPorts.lookup (String.ofList scheme) = some port) :
    parse text = readWeb? port scheme rest := by
  simp only [parse, found, Option.bind_eq_bind, Option.bind_some, lookup, readWeb?, Option.map_eq_bind]
  rfl

theorem exists_of_parse {text : String} {u : Url} (h : parse text = some u) (web : u.isHttp = true) :
    ∃ scheme rest port, scheme? (cleaned text.toList) = some (scheme, rest) ∧
      webPorts.lookup (String.ofList scheme) = some port ∧ readWeb? port scheme rest = some u := by
  have read := h
  simp only [parse, Option.bind_eq_bind, Option.bind_eq_some_iff] at h
  obtain ⟨⟨scheme, rest⟩, found, h⟩ := h
  have same : u.scheme = scheme := by
    simp only at h
    split at h
    · obtain ⟨_, -, h⟩ := Option.bind_eq_some_iff.1 h
      obtain rfl := Option.some.inj h
      rfl
    · split at h <;> (obtain rfl := Option.some.inj h; rfl)
  subst same
  have known : ∃ port, webPorts.lookup (String.ofList u.scheme) = some port := by
    simp only [isHttp, Bool.or_eq_true, decide_eq_true_eq] at web
    rcases web with h | h <;> rw [h]
    · exact ⟨80, by decide⟩
    · exact ⟨443, by decide⟩
  obtain ⟨port, lookup⟩ := known
  exact ⟨u.scheme, rest, port, found, lookup, parse_web found lookup ▸ read⟩

theorem hostAndPath_append {front : List Char} (h : s.dropWhile isSlash = front ++ ['/']) (t : List Char) :
    hostAndPath (s ++ t) =
      (front.takeWhile (!isSlash ·), front.dropWhile (!isSlash ·) ++ '/' :: t) := by
  have more : s.dropWhile isSlash ≠ [] := by simp [h]
  have stops : (!isSlash '/') = false := by decide
  rw [hostAndPath, List.dropWhile_append, if_neg (by simpa using more), h, List.append_assoc,
    List.singleton_append, takeWhile_append_cons (p := (!isSlash ·)) stops,
    dropWhile_append_cons (p := (!isSlash ·)) stops]

theorem normalPath_append (s : List Char) : ∃ front, ∀ t,
    normalPath isSlash (s.dropWhile (!isSlash ·) ++ '/' :: t) =
      pathOf (resolve front (splitAtEach isSlash t)) := by
  have start : isSlash '/' = true := by decide
  cases found : s.dropWhile (!isSlash ·) with
  | nil =>
    refine ⟨[], fun t => ?_⟩
    rw [List.nil_append, normalPath, if_pos start]
    rfl
  | cons c inner =>
    have first : isSlash c = true := by
      have head := List.head?_dropWhile_not (!isSlash ·) s
      rw [found] at head
      simpa using head
    refine ⟨visited [] (splitAtEach isSlash inner), fun t => ?_⟩
    rw [List.cons_append, normalPath, if_pos first, splitAtEach_append_cons start,
      resolve_append _ _ (splitAtEach_ne_nil _ _)]
    rfl

theorem readWeb?_append {port : Nat} {scheme rest front authority : List Char} (hash : '#' ∉ rest)
    (mark : '?' ∉ rest) (h : rest.dropWhile isSlash = front ++ ['/'])
    (host : readAuthority? port (front.takeWhile (!isSlash ·)) = some authority) (t : List Char) :
    ∃ u, readWeb? port scheme (rest ++ t) = some u ∧ u.scheme = scheme ∧ u.authority? = some authority ∧
      u.path = normalPath isSlash
        (front.dropWhile (!isSlash ·) ++ '/' :: (cutAt '?' (cutAt '#' t).1).1) := by
  simp only [readWeb?, cutAt_of_not_mem hash, cutAt_of_not_mem mark, hostAndPath_append h, host,
    Option.map_some]
  exact ⟨_, rfl, rfl, rfl, rfl⟩

/-- Addresses behind that of a directory lead to the same host, and go on from where it is. -/
theorem parse_append {u : Url} (h : parse (String.ofList (s ++ ['/'])) = some u) (web : u.isHttp = true)
    (query : u.query? = none) (fragment : u.fragment? = none) :
    ∃ above, u.path = pathOf (above.reverse ++ [[]]) ∧
      ∀ t, ∃ u', parse (String.ofList (s ++ '/' :: t)) = some u' ∧ u'.scheme = u.scheme ∧
        u'.authority? = u.authority? ∧
        u'.path = pathOf (resolve above (splitAtEach isSlash (pathPart t))) := by
  obtain ⟨scheme, rest, port, found, lookup, read⟩ := exists_of_parse h web
  obtain ⟨authority, host, rfl⟩ := Option.map_eq_some_iff.1 read
  obtain ⟨hash, main⟩ := not_mem_of_cutAt (Option.map_eq_none_iff.1 fragment)
  rw [main] at host query
  obtain ⟨mark, path⟩ := not_mem_of_cutAt (Option.map_eq_none_iff.1 query)
  rw [path] at host
  obtain ⟨r, hr⟩ := cleaned_append s
  rw [String.toList_ofList, hr] at found
  have some : rest.dropWhile isSlash ≠ [] := by
    intro none
    rw [hostAndPath, none] at host
    cases host
  have suffix : rest.dropWhile isSlash <:+ r ++ ['/'] :=
    (List.dropWhile_suffix isSlash).trans (suffix_of_scheme? found)
  have slash : rest.dropWhile isSlash = (rest.dropWhile isSlash).dropLast ++ ['/'] := by
    have last := suffix.getLast some
    rw [List.getLast_concat] at last
    rw [← last, List.dropLast_append_getLast some]
  have empty := hostAndPath_append slash []
  rw [List.append_nil] at empty
  rw [empty] at host
  obtain ⟨above, hpath⟩ := normalPath_append (rest.dropWhile isSlash).dropLast
  refine ⟨above, ?_, fun t => ?_⟩
  · change normalPath isSlash (hostAndPath (cutAt '?' (cutAt '#' rest).1).1).2 = _
    rw [main, path, empty, hpath, ← resolve_of_not_dots (by decide)]
    rfl
  · obtain ⟨u', read', hscheme, hauthority, hpath'⟩ :=
      readWeb?_append hash mark slash host (ending t)
    refine ⟨u', ?_, hscheme, hauthority, hpath'.trans (hpath _)⟩
    rw [← read']
    refine parse_web ?_ lookup
    rw [String.toList_ofList, hr]
    simpa [show ending [] = [] from rfl] using scheme?_append found (ending t)

/-! ### Paths that stand for themselves -/

/-- A text that has no part with a meaning in an address. -/
structure IsLiteral (s : List Char) : Prop where
  harmless : ∀ c ∈ s, c ≠ '#' ∧ c ≠ '?' ∧ c ≠ '\\' ∧ isBreak c = false
  final : ∀ h : s ≠ [], isEdge (s.getLast h) = false
  unescaped : hasEscape s = false

theorem IsLiteral.inside (h : IsLiteral s) : ∀ c ∈ s, c ≠ '\\' := fun c hc => (h.harmless c hc).2.2.1

theorem IsLiteral.pathPart_eq (h : IsLiteral s) : pathPart s = s :=
  pathPart_eq_self.2
    ⟨fun c hc => ⟨(h.harmless c hc).1, (h.harmless c hc).2.1, (h.harmless c hc).2.2.2⟩, h.final⟩

/-- Behind a directory whose name stands for itself, a path stands for itself as it does alone. -/
theorem isLiteral_append (hs : IsLiteral s) (ht : t ≠ []) : IsLiteral (s ++ '/' :: t) ↔ IsLiteral t := by
  have escape : hasEscape (s ++ '/' :: t) = hasEscape t := by
    have slash : hasEscape ('/' :: t) = hasEscape t := by simp [hasEscape]
    rw [hasEscape_append_cons (by decide), hs.unescaped, Bool.false_or, slash]
  have last (h : s ++ '/' :: t ≠ []) : (s ++ '/' :: t).getLast h = t.getLast ht := by
    rw [List.getLast_append_of_ne_nil _ (List.cons_ne_nil _ _), List.getLast_cons ht]
  constructor
  · rintro ⟨harmless, final, unescaped⟩
    exact ⟨fun c hc => harmless c (by simp [hc]), fun _ => last (by simp) ▸ final (by simp),
      escape ▸ unescaped⟩
  · rintro ⟨harmless, final, unescaped⟩
    refine ⟨fun c hc => ?_, fun h => last h ▸ final ht, escape.trans unescaped⟩
    rcases List.mem_append.1 hc with mem | mem
    · exact hs.harmless c mem
    · rcases List.mem_cons.1 mem with rfl | mem
      · decide
      · exact harmless c mem

theorem length_decoded_pathPart_le (s : List Char) :
    (decoded ((pathPart s).map unify)).length ≤ ((pathPart s).flatMap utf8EncodeChar).length :=
  length_bytes_unify (pathPart s) ▸ length_decoded_le _

theorem length_bytes_pathPart_le (s : List Char) :
    ((pathPart s).flatMap utf8EncodeChar).length ≤ (s.flatMap utf8EncodeChar).length := by
  rcases eq_or_length_lt_of_sublist (pathPart_sublist s) with eq | lt
  · rw [eq]
  · exact lt.le

/-- The path of an address stands for the bytes of the text just when the text stands for itself. -/
theorem decoded_pathPart_iff :
    decoded ((pathPart s).map unify) = s.flatMap utf8EncodeChar ↔ IsLiteral s := by
  constructor
  · intro bytes
    have whole : pathPart s = s := by
      rcases eq_or_length_lt_of_sublist (pathPart_sublist s) with eq | lt
      · exact eq
      · have short := length_decoded_pathPart_le s
        rw [bytes] at short
        exact absurd lt (Nat.not_lt.2 short)
    rw [whole] at bytes
    rcases decoded_cases (s.map unify) with ⟨unescaped, eq⟩ | ⟨-, lt⟩
    · have straight : s.map unify = s := flatMap_utf8EncodeChar_injective (eq.symm.trans bytes)
      have inside := map_unify_eq_self.1 straight
      obtain ⟨kept, final⟩ := pathPart_eq_self.1 whole
      exact ⟨fun c hc => ⟨(kept c hc).1, (kept c hc).2.1, inside c hc, (kept c hc).2.2⟩, final,
        straight ▸ unescaped⟩
    · rw [length_bytes_unify, bytes] at lt
      exact absurd lt (Nat.lt_irrefl _)
  · intro literal
    rw [literal.pathPart_eq, map_unify_eq_self.2 literal.inside, decoded_of_unescaped literal.unescaped]

/-- A path behind that of a directory that stands for as many bytes as are behind it has no dots. -/
theorem not_isDots_of_decoded_resolve {above : List (List Char)}
    (same : decoded (pathOf (resolve above (splitAtEach isSlash (pathPart s)))) =
      decoded (pathOf (above.reverse ++ [[]])) ++ s.flatMap utf8EncodeChar) :
    ∀ segment ∈ splitAtEach isSlash (pathPart s), ¬IsDots segment := by
  intro segment mem dots
  have lost := @weight_resolve_lt above _ ⟨segment, mem, dots⟩
  have length := congrArg List.length same
  rw [length_decoded_pathOf, decoded_pathOf_append, List.length_append, List.length_append,
    length_decoded_pathOf, weight_reverse, length_decoded_pathOf] at length
  rw [← length_decoded_pathOf (splitAtEach _ _), decoded_pathOf_splitAtEach, List.length_cons] at lost
  have one : weight [[]] = 1 := rfl
  have short := length_decoded_pathPart_le s
  have shorter := length_bytes_pathPart_le s
  omega

theorem IsLiteral.isDots_iff (h : IsLiteral s) {segment : List Char}
    (mem : segment ∈ splitAtEach (· == '/') s) : IsDots segment ↔ segment = ['.'] ∨ segment = ['.', '.'] := by
  constructor
  · intro dots
    have unescaped : hasEscape segment = false := by
      by_contra escaped
      have whole := hasEscape_of_mem_splitAtEach mem (by simpa using escaped)
      rw [h.unescaped] at whole
      cases whole
    by_contra other
    obtain ⟨one, two⟩ := not_or.1 other
    exact not_isDots_of_unescaped unescaped one two dots
  · rintro (rfl | rfl) <;> decide

/-- A path behind that of a directory is the path of the file of that name just when it stands for itself
and no segment of it is of dots. -/
theorem decoded_resolve_iff (above : List (List Char)) (s : List Char) :
    decoded (pathOf (resolve above (splitAtEach isSlash (pathPart s)))) =
        decoded (pathOf (above.reverse ++ [[]])) ++ s.flatMap utf8EncodeChar ↔
      IsLiteral s ∧ ∀ segment ∈ splitAtEach (· == '/') s, segment ≠ ['.'] ∧ segment ≠ ['.', '.'] := by
  -- Behind dots the path is too short, so both sides are about segments that are gone down.
  have down (noDots : ∀ segment ∈ splitAtEach isSlash (pathPart s), ¬IsDots segment) :
      decoded (pathOf (resolve above (splitAtEach isSlash (pathPart s)))) =
        decoded (pathOf (above.reverse ++ [[]])) ++ s.flatMap utf8EncodeChar ↔ IsLiteral s := by
    rw [← decoded_pathPart_iff, resolve_of_not_dots noDots, decoded_pathOf_append, decoded_pathOf_append,
      decoded_pathOf_splitAtEach, List.append_assoc, List.append_cancel_left_eq]
    exact List.cons_inj_right slash
  constructor
  · intro same
    have noDots := not_isDots_of_decoded_resolve same
    have literal := (down noDots).1 same
    rw [literal.pathPart_eq, splitAtEach_isSlash literal.inside] at noDots
    exact ⟨literal, fun segment mem => not_or.1 (mt (literal.isDots_iff mem).2 (noDots segment mem))⟩
  · rintro ⟨literal, noDots⟩
    refine (down ?_).2 literal
    rw [literal.pathPart_eq, splitAtEach_isSlash literal.inside]
    exact fun segment mem => mt (literal.isDots_iff mem).1 (not_or.2 (noDots segment mem))

/-- The address leads to the file with a path below what a directory's address leads to. -/
structure Locates (u directory : Url) (path : List Char) : Prop where
  scheme : u.scheme = directory.scheme
  authority : u.authority? = directory.authority?
  path : decoded u.path = decoded directory.path ++ path.flatMap utf8EncodeChar

/-- The address of a directory followed by a path leads to the file just when the path stands for itself
and no segment of it is of dots. -/
theorem parse_locates {u : Url} (h : parse (String.ofList (s ++ ['/'])) = some u) (web : u.isHttp = true)
    (query : u.query? = none) (fragment : u.fragment? = none) (t : List Char) :
    ∃ u', parse (String.ofList (s ++ '/' :: t)) = some u' ∧ u'.scheme = u.scheme ∧
      u'.authority? = u.authority? ∧
      (u'.Locates u t ↔
        IsLiteral t ∧ ∀ segment ∈ splitAtEach (· == '/') t, segment ≠ ['.'] ∧ segment ≠ ['.', '.']) := by
  obtain ⟨above, hpath, read⟩ := parse_append h web query fragment
  obtain ⟨u', read, scheme, authority, hpath'⟩ := read t
  refine ⟨u', read, scheme, authority, ?_⟩
  rw [← decoded_resolve_iff above t, ← hpath, ← hpath']
  exact ⟨fun located => located.path, fun path => ⟨scheme, authority, path⟩⟩

theorem Locates.path_unique {u directory : Url} (h : u.Locates directory s) {u' : Url}
    (h' : u'.Locates directory t) (same : decoded u'.path = decoded u.path) : t = s := by
  refine flatMap_utf8EncodeChar_injective ?_
  rw [h.path, h'.path, List.append_cancel_left_eq] at same
  exact same

end RepoDocs.Http.Url
