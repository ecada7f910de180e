import RepoDocs.Proofs.Analysis.Submission
import RepoDocs.Proofs.Text.Pieces

/-! Addresses of repositories as a grammar: anything, the host, the owner and the name with a slash
between them, any number of suffixes, and nothing more or a slash.  Reading an address inverts writing one
where the host is not in front already, and whatever is read was written so. -/

namespace RepoDocs

namespace Coordinates

open Text

/-- A segment of an address: it is not empty, and no slash is in it. -/
def IsSegment (s : List Char) : Prop := s ≠ [] ∧ '/' ∉ s

instance (s : List Char) : Decidable (IsSegment s) := inferInstanceAs (Decidable (_ ∧ _))

/-- Nothing is behind a segment, or a slash. -/
def Stops (tail : List Char) : Prop := tail = [] ∨ ∃ rest, tail = '/' :: rest

/-- The coordinates are segments, and the name does not end with the suffix. -/
structure Proper (c : Coordinates) : Prop where
  owner : IsSegment c.owner.toList
  name : IsSegment c.name.toList
  plain : ¬suffix <:+ c.name.toList

/-- So many suffixes one behind the other. -/
def suffixes (count : Nat) : List Char := (List.replicate count suffix).flatten

/-- An address of a repository: the coordinates behind `front` and the host, and `tail` behind so many
suffixes. -/
def address (c : Coordinates) (front : List Char) (count : Nat) (tail : List Char) : List Char :=
  front ++ (host ++ (c.owner.toList ++ '/' :: (c.name.toList ++ suffixes count ++ tail)))

variable {s t front owner segment tail : List Char}

/-! ### Two segments -/

theorem takeWhile_of_stops (segment : '/' ∉ s) (stops : Stops tail) :
    (s ++ tail).takeWhile (· != '/') = s := by
  have inside : ∀ c ∈ s, (c != '/') = true := by
    intro c hc
    rw [bne_iff_ne]
    rintro rfl
    exact segment hc
  rcases stops with rfl | ⟨rest, rfl⟩
  · rw [List.append_nil, List.takeWhile_eq_self_iff]
    exact inside
  · exact takeWhile_stop inside (bne_self_eq_false '/')

theorem stops_dropWhile (s : List Char) : Stops (s.dropWhile (· != '/')) := by
  cases h : s.dropWhile (· != '/') with
  | nil => exact .inl rfl
  | cons c rest =>
    have head := List.head?_dropWhile_not (· != '/') s
    rw [h] at head
    obtain rfl : c = '/' := by simpa using head
    exact .inr ⟨rest, rfl⟩

theorem not_mem_takeWhile (s : List Char) : '/' ∉ s.takeWhile (· != '/') := by
  intro mem
  simpa using List.mem_takeWhile_imp mem

/-- Two segments are found at the start of a text just when they are there, the second one up to where it
stops. -/
theorem segments?_eq_some : segments? s = some (owner, segment) ↔
    IsSegment owner ∧ IsSegment segment ∧
      ∃ tail, Stops tail ∧ s = owner ++ '/' :: (segment ++ tail) := by
  constructor
  · intro found
    have whole := List.takeWhile_append_dropWhile (p := (· != '/')) (l := s)
    have stops := stops_dropWhile s
    unfold segments? at found
    split at found
    · rename_i c first d rest front behind
      split at found
      · cases found
      · rename_i name nonempty
        obtain ⟨rfl, rfl⟩ : c :: first = owner ∧ rest.takeWhile (· != '/') = segment := by
          simpa using found
        obtain rfl : d = '/' := by
          rcases behind ▸ stops with none | ⟨_, slash⟩
          · cases none
          · exact (List.cons.inj slash).1
        refine ⟨⟨List.cons_ne_nil c first, front ▸ not_mem_takeWhile s⟩,
          ⟨nonempty, not_mem_takeWhile rest⟩, rest.dropWhile (· != '/'), stops_dropWhile rest, ?_⟩
        rw [List.takeWhile_append_dropWhile, ← front, ← behind]
        exact whole.symm
    · cases found
  · rintro ⟨⟨nonempty, outside⟩, ⟨nonempty', outside'⟩, tail, stops, rfl⟩
    obtain ⟨c, first, rfl⟩ := List.exists_cons_of_ne_nil nonempty
    have inside : ∀ d ∈ c :: first, (d != '/') = true := by
      intro d hd
      rw [bne_iff_ne]
      rintro rfl
      exact outside hd
    rw [segments?, takeWhile_stop inside (bne_self_eq_false '/'),
      dropWhile_stop inside (bne_self_eq_false '/')]
    simp only [takeWhile_of_stops outside' stops]

/-! ### The first place where two segments follow the host -/

theorem find?_cons (c : Char) (rest : List Char) : find? (c :: rest) =
    ((if host.isPrefixOf (c :: rest) then segments? ((c :: rest).drop host.length) else none) <|>
      find? rest) := rfl

theorem find?_host (rest : List Char) :
    find? (host ++ rest) = (segments? rest <|> find? ((host ++ rest).drop 1)) := by
  have starts : host.isPrefixOf (host ++ rest) = true :=
    List.isPrefixOf_iff_prefix.2 (List.prefix_append host rest)
  have first : host ++ rest = 'g' :: (host ++ rest).drop 1 := rfl
  rw [first, find?_cons, ← first, if_pos starts, List.drop_left]

/-- What is found is behind the host, at the start of some rest of the text. -/
theorem exists_of_find? (found : find? s = some (owner, segment)) :
    ∃ front rest, s = front ++ (host ++ rest) ∧ segments? rest = some (owner, segment) := by
  induction s with
  | nil => cases found
  | cons c rest ih =>
    rw [find?_cons] at found
    split at found
    · rename_i starts
      obtain ⟨behind, whole⟩ := List.isPrefixOf_iff_prefix.1 starts
      rw [← whole, List.drop_left] at found
      cases here : segments? behind with
      | some p =>
        rw [here] at found
        exact ⟨[], behind, whole.symm, here.trans found⟩
      | none =>
        rw [here] at found
        obtain ⟨front, rest', later, found⟩ := ih found
        exact ⟨c :: front, rest', congrArg (c :: ·) later, found⟩
    · obtain ⟨front, rest', later, found⟩ := ih found
      exact ⟨c :: front, rest', congrArg (c :: ·) later, found⟩

/-- The host ends with its only slash, so it does not begin in front of another one. -/
theorem not_host_prefix {front : List Char} (rest : List Char) (nonempty : front ≠ [])
    (absent : ¬host <:+: front) : ¬host <+: front ++ (host ++ rest) := by
  rintro ⟨last, starts⟩
  rcases List.append_eq_append_iff.1 starts with ⟨more, within, -⟩ | ⟨more, whole, behind⟩
  · exact absent (within ▸ (List.prefix_append host more).isInfix)
  · have proper : more ≠ [] := by
      rintro rfl
      rw [List.append_nil] at whole
      exact absent (whole ▸ List.infix_rfl)
    have slash : '/' ∈ more := by
      have last : more.getLast? = host.getLast? := by rw [whole, List.getLast?_append_of_ne_nil _ proper]
      exact List.mem_of_getLast? last
    have short : more.length ≤ host.dropLast.length := by
      have lengths := congrArg List.length whole
      have := List.length_pos_iff.2 nonempty
      rw [List.length_append] at lengths
      rw [List.length_dropLast]
      omega
    have early : more <+: host.dropLast :=
      List.prefix_of_prefix_length_le (behind ▸ List.prefix_append more last)
        ((List.dropLast_prefix host).trans (List.prefix_append host rest)) short
    exact absurd (early.subset slash) (by decide)

/-- Where the host is not in front, the first place is behind the host itself. -/
theorem find?_append_host {front rest : List Char} (absent : ¬host <:+: front)
    (found : segments? rest = some (owner, segment)) :
    find? (front ++ (host ++ rest)) = some (owner, segment) := by
  induction front with
  | nil =>
    rw [List.nil_append, find?_host, found]
    rfl
  | cons c front ih =>
    have later := not_host_prefix rest (List.cons_ne_nil c front) absent
    rw [← List.isPrefixOf_iff_prefix] at later
    rw [List.cons_append] at later ⊢
    rw [find?_cons, if_neg later]
    exact ih fun within => absent (within.trans (List.suffix_cons c front).isInfix)

/-! ### Suffixes of a name -/

theorem dropReversedSuffix_suffix (s : List Char) :
    dropReversedSuffix (suffix.reverse ++ s) = dropReversedSuffix s := rfl

theorem reverse_suffixes (count : Nat) :
    (suffixes (count + 1)).reverse = suffix.reverse ++ (suffixes count).reverse := by
  rw [suffixes, List.replicate_succ', List.flatten_append, List.reverse_append]
  rfl

theorem dropReversedSuffix_of_plain (plain : ¬suffix.reverse <+: s) : dropReversedSuffix s = s := by
  unfold dropReversedSuffix
  split
  · exact absurd (List.prefix_append suffix.reverse _) plain
  · rfl

/-- The suffixes go off the end of a name, and no more than they. -/
theorem dropSuffixes_append (plain : ¬suffix <:+ s) (count : Nat) :
    dropSuffixes (s ++ suffixes count) = s := by
  have plain : ¬suffix.reverse <+: s.reverse := fun starts => plain (List.reverse_prefix.1 starts)
  have dropped : dropReversedSuffix ((suffixes count).reverse ++ s.reverse) = s.reverse := by
    induction count with
    | zero => exact dropReversedSuffix_of_plain plain
    | succ count ih => rw [reverse_suffixes, List.append_assoc, dropReversedSuffix_suffix, ih]
  rw [dropSuffixes, List.reverse_append, dropped, List.reverse_reverse]

theorem dropReversedSuffix_cases (s : List Char) :
    ¬suffix.reverse <+: dropReversedSuffix s ∧
      ∃ count, s = (suffixes count).reverse ++ dropReversedSuffix s := by
  fun_induction dropReversedSuffix s with
  | case1 rest ih =>
    obtain ⟨plain, count, whole⟩ := ih
    refine ⟨plain, count + 1, ?_⟩
    rw [reverse_suffixes, List.append_assoc, ← whole]
    rfl
  | case2 s plain =>
    refine ⟨?_, 0, rfl⟩
    rintro ⟨rest, rfl⟩
    exact plain rest rfl

/-- A text is what remains of it without the suffixes, and the suffixes. -/
theorem dropSuffixes_cases (s : List Char) :
    ¬suffix <:+ dropSuffixes s ∧ ∃ count, s = dropSuffixes s ++ suffixes count := by
  obtain ⟨plain, count, whole⟩ := dropReversedSuffix_cases s.reverse
  refine ⟨fun ends => plain ?_, count, ?_⟩
  · rw [dropSuffixes, ← List.reverse_prefix, List.reverse_reverse] at ends
    exact ends
  · have reversed := congrArg List.reverse whole
    rwa [List.reverse_append, List.reverse_reverse, List.reverse_reverse] at reversed

/-! ### Addresses -/

theorem trim_eq_nil_iff (url : String) : trim url.toList = [] ↔ isBlankText url = true := by
  rw [isBlankText, List.all_eq_true]
  constructor
  · intro none c hc
    by_contra visible
    rcases trimStart_eq_nil_or url.toList with h | ⟨d, rest, h, hd⟩
    · exact visible (List.dropWhile_eq_nil_iff.1 h c hc)
    · have same : trim (trimStart url.toList) = trim url.toList :=
        congrArg (dropEndWhile isBlank) (List.dropWhile_idempotent isBlank url.toList)
      exact Flush.trim_ne_nil ⟨d, rest, h, hd⟩ (same.trans none)
  · intro blank
    rw [trim, trimStart, List.dropWhile_eq_nil_iff.2 blank]
    rfl

/-- What is read where the first two segments behind the host are found, if they are. -/
theorem parse_eq {url : String} (visible : trim url.toList ≠ []) :
    parse url =
      match find? (trim url.toList) with
      | none => .error .unreadable
      | some (owner, segment) =>
        match dropSuffixes segment with
        | [] => .error .unreadable
        | name => .ok ⟨String.ofList owner, String.ofList name⟩ := by
  unfold parse
  split
  · contradiction
  · rfl

/-- Coordinates that are read are proper, and the address is one of theirs. -/
theorem exists_address_of_parse {url : String} {c : Coordinates} (read : parse url = .ok c) :
    c.Proper ∧ ∃ front count tail, Stops tail ∧ trim url.toList = c.address front count tail := by
  have visible : trim url.toList ≠ [] := by
    intro none
    rw [parse, none] at read
    cases read
  rw [parse_eq visible] at read
  split at read
  · cases read
  · rename_i owner segment found
    split at read
    · cases read
    · rename_i nonempty
      obtain rfl := Except.ok.inj read
      obtain ⟨front, rest, whole, here⟩ := exists_of_find? found
      obtain ⟨isOwner, ⟨-, outside⟩, tail, stops, behind⟩ := segments?_eq_some.1 here
      obtain ⟨plain, count, segment'⟩ := dropSuffixes_cases segment
      have within : '/' ∉ dropSuffixes segment :=
        fun slash => outside (segment' ▸ List.mem_append_left _ slash)
      refine ⟨⟨?_, ?_, ?_⟩, front, count, tail, stops, ?_⟩
      · rwa [String.toList_ofList]
      · rw [String.toList_ofList]
        exact ⟨nonempty, within⟩
      · rwa [String.toList_ofList]
      · rw [address, String.toList_ofList, String.toList_ofList, ← segment', ← behind]
        exact whole

/-- The coordinates are read off each of their addresses in front of which the host is not. -/
theorem parse_address {url : String} {c : Coordinates} {front tail before behind : List Char}
    {count : Nat} (proper : c.Proper) (stops : Stops tail) (absent : ¬host <:+: front)
    (tight : Tight (c.address front count tail))
    (blank : ∀ d ∈ before ++ behind, isBlank d = true)
    (whole : url.toList = before ++ (c.address front count tail ++ behind)) : parse url = .ok c := by
  obtain ⟨blank, blank'⟩ := List.forall_mem_append.1 blank
  have trimmed : trim url.toList = c.address front count tail := by
    rw [whole, trim_append_left blank, trim_append_right blank', tight.trim]
  have visible : trim url.toList ≠ [] := by
    rw [trimmed, address]
    exact List.append_ne_nil_of_right_ne_nil _ (List.append_ne_nil_of_left_ne_nil (by decide) _)
  have isSegment : IsSegment (c.name.toList ++ suffixes count) := by
    refine ⟨List.append_ne_nil_of_left_ne_nil proper.name.1 _, fun slash => ?_⟩
    rcases List.mem_append.1 slash with slash | slash
    · exact proper.name.2 slash
    · obtain ⟨_, more, inside⟩ := List.mem_flatten.1 slash
      rw [List.eq_of_mem_replicate more] at inside
      exact absurd inside (by decide)
  have here := segments?_eq_some.2 ⟨proper.owner, isSegment, tail, stops, rfl⟩
  rw [parse_eq visible, trimmed, address, find?_append_host absent here]
  simp only [dropSuffixes_append proper.plain]
  split
  · rename_i none
    exact absurd none proper.name.1
  · rw [String.ofList_toList, String.ofList_toList]

/-- Reading an address follows its grammar.  Coordinates that are read are proper, and the address
without its outer blanks is one of theirs; they are read off each of their addresses in front of which the
host is not, with any blanks around it.  Blank addresses, and those in which no two segments follow the
host, are invalid. -/
theorem parse_follows_grammar (url : String) :
    (∀ c, parse url = .ok c →
      c.Proper ∧ ∃ front count tail, Stops tail ∧ trim url.toList = c.address front count tail) ∧
    (∀ (c : Coordinates) front count tail before behind, c.Proper → Stops tail → ¬host <:+: front →
      Tight (c.address front count tail) → (∀ d ∈ before ++ behind, isBlank d = true) →
      url.toList = before ++ (c.address front count tail ++ behind) → parse url = .ok c) ∧
    (isBlankText url = true → parse url = .error .blank) ∧
    (isBlankText url = false →
      (∀ front owner name tail, IsSegment owner → IsSegment name →
        trim url.toList ≠ front ++ (host ++ (owner ++ '/' :: (name ++ tail)))) →
      parse url = .error .unreadable) ∧
    ∀ f, parse url = .error f →
      (Analysis.submit url).run = .done (.error (.invalidInput f.message)) := by
  refine ⟨fun c => exists_address_of_parse, ?_, fun blank => ?_, fun visible none => ?_,
    fun f => Analysis.submit_of_error⟩
  · intro c front count tail before behind
    exact parse_address
  · rw [parse, (trim_eq_nil_iff url).2 blank]
  · rw [parse_eq (by rw [Ne, trim_eq_nil_iff, visible]; exact Bool.false_ne_true)]
    cases found : find? (trim url.toList) with
    | none => rfl
    | some p =>
      obtain ⟨front, rest, whole, here⟩ := exists_of_find? found
      obtain ⟨isOwner, isSegment, tail, -, rfl⟩ := segments?_eq_some.1 here
      exact absurd whole (none front p.1 p.2 tail isOwner isSegment)

/-- The host as the owner, a name with the suffix in front and in the middle, and blanks around it all. -/
theorem parse_follows_grammar_hostTwice :
    parse "\t\u3000git@github.com/github.com/.git.gitx.git.git/tree\n" =
      .ok ⟨"github.com", ".git.gitx"⟩ :=
  (parse_follows_grammar _).2.1 ⟨"github.com", ".git.gitx"⟩ "git@".toList 2 "/tree".toList
    "\t\u3000".toList "\n".toList ⟨by decide, by decide, by decide⟩
    (.inr ⟨_, rfl⟩) (by decide) (tight_of_all (by decide) (by decide)) (List.all_eq_true.1 (by decide))
    (by decide)

end Coordinates

end RepoDocs
