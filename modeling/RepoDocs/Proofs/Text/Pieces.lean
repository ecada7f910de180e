import Mathlib.Data.List.DropRight
import Mathlib.Data.List.TakeWhile
import RepoDocs.Proofs.Text.Lines
import RepoDocs.Text.Blank
import RepoDocs.Text.Word

/-! Texts that are put together of pieces, and how they are taken apart again: by trimming, at the line
feeds, and at the commas of a list. -/

namespace RepoDocs.Text

variable {s m b : List Char} {c : Char} {p : Char → Bool}

/-! ### Up to a character -/

section Stop

variable {t : List Char}

theorem takeWhile_stop (hs : ∀ d ∈ s, p d = true) (hc : p c = false) :
    (s ++ c :: t).takeWhile p = s := by
  rw [List.takeWhile_append_of_pos hs, List.takeWhile_cons_of_neg (by simp [hc]), List.append_nil]

theorem dropWhile_stop (hs : ∀ d ∈ s, p d = true) (hc : p c = false) :
    (s ++ c :: t).dropWhile p = c :: t := by
  rw [List.dropWhile_append_of_pos hs, List.dropWhile_cons_of_neg (by simp [hc])]

theorem dropWhile_append_cons (h : p c = false) (s t : List Char) :
    (s ++ c :: t).dropWhile p = s.dropWhile p ++ c :: t := by
  rw [List.dropWhile_append, List.dropWhile_cons_of_neg (by simp [h])]
  split
  · next none => rw [List.isEmpty_iff.1 none, List.nil_append]
  · rfl

theorem takeWhile_append_cons (h : p c = false) (s t : List Char) :
    (s ++ c :: t).takeWhile p = s.takeWhile p := by
  rw [List.takeWhile_append, List.takeWhile_cons_of_neg (by simp [h]), List.append_nil]
  split
  · next whole => exact ((List.takeWhile_prefix p).eq_of_length whole).symm
  · rfl

theorem rdropWhile_append_cons (h : p c = false) (s t : List Char) :
    (s ++ c :: t).rdropWhile p = s ++ c :: t.rdropWhile p := by
  have reversed : (s ++ c :: t).reverse = t.reverse ++ c :: s.reverse := by simp
  rw [List.rdropWhile, reversed, dropWhile_append_cons h, List.rdropWhile]
  simp

theorem splitFirst?_append {sep : Char} {before behind : List Char}
    (h : splitFirst? sep s = some (before, behind)) (t : List Char) :
    splitFirst? sep (s ++ t) = some (before, behind ++ t) := by
  have parts : s = s.takeWhile (· != sep) ++ s.dropWhile (· != sep) := List.takeWhile_append_dropWhile.symm
  unfold splitFirst? at h
  split at h
  · cases h
  · next c rest found =>
    obtain ⟨rfl, rfl⟩ := Prod.mk.inj (Option.some.inj h)
    have stop : (c != sep) = false := by
      have head := List.head?_dropWhile_not (· != sep) s
      rw [found] at head
      simpa using head
    have inside : ∀ d ∈ s.takeWhile (· != sep), (d != sep) = true := 
      fun d hd => List.mem_takeWhile_imp (p := (· != sep)) hd
    rw [found] at parts
    conv_lhs => rw [parts, List.append_assoc, List.cons_append]
    rw [splitFirst?, dropWhile_stop inside stop, takeWhile_stop inside stop]

end Stop

/-! ### Blanks and words -/

def blankNumbers : List Nat :=
  [9, 10, 11, 12, 13, 0x20, 0x85, 0xA0, 0x1680, 0x2000, 0x2001, 0x2002, 0x2003, 0x2004, 0x2005, 0x2006,
    0x2007, 0x2008, 0x2009, 0x200A, 0x2028, 0x2029, 0x202F, 0x205F, 0x3000]

theorem mem_blankNumbers (h : isBlank c = true) : c.toNat ∈ blankNumbers := by
  simp only [isBlank, Bool.or_eq_true, Bool.and_eq_true, decide_eq_true_eq, beq_iff_eq] at h
  simp only [blankNumbers, List.mem_cons, List.not_mem_nil, or_false]
  omega

theorem isBlank_of_isWord (h : isWord c = true) : isBlank c = false := by
  by_contra blank
  have apart : ∀ n ∈ blankNumbers, isWord (Char.ofNat n) = false := by decide +kernel
  have none := apart _ (mem_blankNumbers (by simpa using blank))
  rw [Char.ofNat_toNat, h] at none
  cases none

/-- The text is a word of at least one character. -/
def IsName (s : List Char) : Prop := s ≠ [] ∧ ∀ c ∈ s, isWord c = true

instance (s : List Char) : Decidable (IsName s) :=
  decidable_of_iff (s ≠ [] ∧ s.all isWord = true) (and_congr_right fun _ => List.all_eq_true)

/-- The text begins, and not with a blank. -/
def Flush (s : List Char) : Prop := ∃ c r, s = c :: r ∧ isBlank c = false

theorem Flush.append (h : Flush s) (t : List Char) : Flush (s ++ t) := by
  obtain ⟨c, r, rfl, hc⟩ := h
  exact ⟨c, r ++ t, rfl, hc⟩

/-- The text neither begins nor ends with a blank, and is not empty. -/
structure Tight (s : List Char) : Prop where
  first : Flush s
  last : ∃ r c, s = r ++ [c] ∧ isBlank c = false

theorem tight_of_forall (nonempty : s ≠ []) (h : ∀ c ∈ s, isBlank c = false) : Tight s := by
  obtain ⟨c, r, hfirst⟩ := List.exists_cons_of_ne_nil nonempty
  exact ⟨⟨c, r, hfirst, h c (by simp [hfirst])⟩,
    ⟨s.dropLast, s.getLast nonempty, (List.dropLast_append_getLast nonempty).symm,
      h _ (List.getLast_mem nonempty)⟩⟩

theorem tight_of_all (nonempty : s ≠ []) (h : s.all (!isBlank ·) = true) : Tight s :=
  tight_of_forall nonempty fun c hc => by simpa using List.all_eq_true.1 h c hc

theorem Flush.append_tight {t : List Char} (h : Flush s) (ht : Tight t) : Tight (s ++ t) := by
  obtain ⟨r, c, rfl, hc⟩ := ht.last
  exact ⟨h.append _, s ++ r, c, (List.append_assoc s r [c]).symm, hc⟩

theorem IsName.tight (h : IsName s) : Tight s :=
  tight_of_forall h.1 fun c hc => isBlank_of_isWord (h.2 c hc)

theorem IsName.flush (h : IsName s) : Flush s := h.tight.first

theorem IsName.not_mem (h : IsName s) (hc : isWord c = false) : c ∉ s :=
  fun mem => absurd (h.2 c mem) (by simp [hc])

/-! ### Trimming -/

theorem trim_append_left (h : ∀ c ∈ m, isBlank c = true) (s : List Char) : trim (m ++ s) = trim s := by
  rw [trim, trimStart, List.dropWhile_append_of_pos h]
  rfl

theorem dropEndWhile_append (h : ∀ c ∈ b, p c = true) (s : List Char) :
    dropEndWhile p (s ++ b) = dropEndWhile p s := by
  rw [dropEndWhile, List.reverse_append, List.dropWhile_append_of_pos]
  · rfl
  · intro c hc
    exact h c (List.mem_reverse.1 hc)

theorem trim_append_right (h : ∀ c ∈ b, isBlank c = true) (s : List Char) : trim (s ++ b) = trim s := by
  rw [trim, trim, trimStart, trimStart, List.dropWhile_append]
  split
  · next nothing =>
    rw [List.isEmpty_iff.1 nothing, List.dropWhile_eq_nil_iff.2 h]
  · exact dropEndWhile_append h _

theorem dropEndWhile_of_last {r : List Char} (h : p c = false) :
    dropEndWhile p (r ++ [c]) = r ++ [c] := by
  rw [dropEndWhile, List.reverse_append, List.reverse_singleton, List.singleton_append,
    List.dropWhile_cons_of_neg (by simp [h]), ← List.singleton_append, List.reverse_append,
    List.reverse_reverse, List.reverse_singleton]

theorem Tight.trim (h : Tight s) : trim s = s := by
  obtain ⟨⟨c, r, hfirst, hc⟩, ⟨r', c', hlast, hc'⟩⟩ := h
  have start : trimStart s = s := by
    rw [hfirst, trimStart, List.dropWhile_cons_of_neg (by simp [hc])]
  rw [Text.trim, start, hlast, dropEndWhile_of_last hc']

theorem Flush.trim_ne_nil (h : Flush s) : Text.trim s ≠ [] := by
  obtain ⟨c, r, rfl, h⟩ := h
  have stays : (c :: r).reverse.dropWhile isBlank ≠ [] := by
    rw [Ne, List.dropWhile_eq_nil_iff]
    exact fun blank => by simpa [h] using blank c (by simp)
  rw [Text.trim, trimStart, List.dropWhile_cons_of_neg (by simp [h]), dropEndWhile]
  exact mt List.reverse_eq_nil_iff.1 stays

/-! ### Lines -/

theorem dropReturn_cases (s : List Char) : dropReturn s = s ∨ s = dropReturn s ++ ['\r'] := by
  rw [dropReturn]
  split
  · next h =>
    obtain ⟨front, rfl⟩ := List.getLast?_eq_some_iff.1 h
    exact .inr (by simp)
  · exact .inl rfl

theorem trim_dropReturn (s : List Char) : trim (dropReturn s) = trim s := by
  rcases dropReturn_cases s with same | ended
  · rw [same]
  · conv_rhs => rw [ended]
    exact (trim_append_right (by simp [isBlank]) _).symm

/-- A carriage return is not taken off in front of another character. -/
theorem dropReturn_append_cons (h : c ≠ '\r') (m r : List Char) :
    ∃ r', dropReturn (m ++ c :: r) = m ++ c :: r' := by
  rcases dropReturn_cases (m ++ c :: r) with same | ended
  · exact ⟨r, same⟩
  · rcases List.eq_nil_or_concat' r with rfl | ⟨r', d, rfl⟩
    · have last := congrArg List.getLast? ended
      simp [h] at last
    · have front := congrArg List.dropLast ended
      rw [List.dropLast_concat, ← List.cons_append, ← List.append_assoc, List.dropLast_concat] at front
      rw [← List.cons_append, ← List.append_assoc]
      exact ⟨r', front.symm⟩

theorem splitAtEach_of_not_mem (h : c ∉ s) : splitAtEach (· == c) s = [s] := by
  refine splitAtEach_of_forall_not fun d hd => ?_
  have other : d ≠ c := fun e => h (e ▸ hd)
  simp [other]

theorem splitAtEach_congr {q : Char → Bool} (h : ∀ c ∈ s, p c = q c) :
    splitAtEach p s = splitAtEach q s := by
  induction s with
  | nil => rfl
  | cons c r ih =>
    rw [splitAtEach, splitAtEach, h c List.mem_cons_self, ih fun d hd => h d (List.mem_cons_of_mem c hd)]

theorem prefix_of_splitAtEach {piece : List Char} {pieces : List (List Char)}
    (h : splitAtEach p s = piece :: pieces) : piece <+: s := by
  induction s generalizing piece pieces with
  | nil =>
    obtain ⟨rfl, -⟩ := List.cons.inj h
    exact List.prefix_refl []
  | cons c r ih =>
    rw [splitAtEach] at h
    split at h
    · obtain ⟨rfl, -⟩ := List.cons.inj h
      exact List.nil_prefix
    · split at h
      · obtain ⟨rfl, -⟩ := List.cons.inj h
        exact List.cons_prefix_cons.2 ⟨rfl, List.nil_prefix⟩
      · next first others cut =>
        obtain ⟨rfl, -⟩ := List.cons.inj h
        exact List.cons_prefix_cons.2 ⟨rfl, ih cut⟩

theorem flatMap_splitAtEach {α : Type} (p : Char → Bool) (x : α) (g : Char → List α) (s : List Char) :
    ((splitAtEach p s).flatMap fun segment => x :: segment.flatMap g) =
      x :: s.flatMap fun c => if p c then [x] else g c := by
  induction s with
  | nil => rfl
  | cons c r ih =>
    rw [splitAtEach, List.flatMap_cons]
    by_cases h : p c
    · rw [if_pos h, if_pos h, List.flatMap_cons, ih]
      rfl
    · rw [if_neg h, if_neg h]
      cases cut : splitAtEach p r with
      | nil => exact absurd cut (splitAtEach_ne_nil p r)
      | cons piece pieces =>
        rw [cut, List.flatMap_cons, List.cons_append, List.cons.injEq] at ih
        simp only [List.flatMap_cons, List.cons_append, List.append_assoc, ih.2]

theorem lines_of_feeds {rows : List (List Char)} (h : ∀ row ∈ rows, '\n' ∉ row) :
    lines (rows.flatMap (· ++ ['\n'])) = rows.map dropReturn := by
  induction rows with
  | nil => rfl
  | cons row rest ih =>
    rw [List.flatMap_cons, List.append_assoc, List.singleton_append, lines_append_feed,
      splitAtEach_of_not_mem (h row (by simp)), ih fun row hrow => h row (List.mem_cons_of_mem _ hrow)]
    rfl

/-! ### Separators -/

theorem splitAtEach_intercalate {pieces : List (List Char)} (nonempty : pieces ≠ [])
    (h : ∀ piece ∈ pieces, c ∉ piece) : splitAtEach (· == c) ([c].intercalate pieces) = pieces := by
  induction pieces with
  | nil => exact absurd rfl nonempty
  | cons piece rest ih =>
    have uncut := splitAtEach_of_not_mem (h piece (by simp))
    cases rest with
    | nil => simpa using uncut
    | cons next rest =>
      have others := ih (by simp) fun q hq => h q (List.mem_cons_of_mem _ hq)
      rw [List.intercalate_cons_cons, List.append_assoc, List.singleton_append,
        splitAtEach_append_cons (by simp), uncut, others]
      rfl

/-- The pieces between the commas of a list, with what stands in front of the first and behind the last;
each of the others has a blank in front. -/
def listPieces (front behind : List Char) : List (List Char) → List (List Char)
  | [] => []
  | [s] => [front ++ s ++ behind]
  | s :: rest => (front ++ s) :: listPieces [' '] behind rest

theorem listPieces_cons_cons (front behind s t : List Char) (rest : List (List Char)) :
    listPieces front behind (s :: t :: rest) = (front ++ s) :: listPieces [' '] behind (t :: rest) :=
  rfl

theorem listPieces_ne_nil (front behind s : List Char) (rest : List (List Char)) :
    listPieces front behind (s :: rest) ≠ [] := by
  cases rest <;> simp [listPieces]

theorem intercalate_listPieces (front behind s : List Char) (rest : List (List Char)) :
    [','].intercalate (listPieces front behind (s :: rest)) =
      front ++ [',', ' '].intercalate (s :: rest) ++ behind := by
  induction rest generalizing front s with
  | nil => simp [listPieces]
  | cons t rest ih =>
    obtain ⟨piece, pieces, hpieces⟩ :=
      List.exists_cons_of_ne_nil (listPieces_ne_nil [' '] behind t rest)
    rw [listPieces_cons_cons, hpieces, List.intercalate_cons_cons, ← hpieces, ih,
      List.intercalate_cons_cons]
    simp

theorem forall_mem_listPieces {P : Char → Prop} {front behind : List Char} {parts : List (List Char)}
    (hfront : ∀ c ∈ front, P c) (space : P ' ') (hbehind : ∀ c ∈ behind, P c)
    (h : ∀ s ∈ parts, ∀ c ∈ s, P c) : ∀ piece ∈ listPieces front behind parts, ∀ c ∈ piece, P c := by
  induction parts generalizing front with
  | nil => simp [listPieces]
  | cons s rest ih =>
    have first := h s (by simp)
    cases rest with
    | nil =>
      simp only [listPieces, List.forall_mem_singleton, List.forall_mem_append]
      exact ⟨⟨hfront, first⟩, hbehind⟩
    | cons t rest =>
      rw [listPieces_cons_cons, List.forall_mem_cons, List.forall_mem_append]
      exact ⟨⟨hfront, first⟩, ih (by simpa using space) fun u hu => h u (List.mem_cons_of_mem _ hu)⟩

/-- A list of texts without commas is cut at the commas between them. -/
theorem splitAtEach_listed {front behind : List Char} {parts : List (List Char)} (nonempty : parts ≠ [])
    (hfront : ',' ∉ front) (hbehind : ',' ∉ behind) (h : ∀ s ∈ parts, ',' ∉ s) :
    splitAtEach (· == ',') (front ++ [',', ' '].intercalate parts ++ behind) =
      listPieces front behind parts := by
  obtain ⟨s, rest, rfl⟩ := List.exists_cons_of_ne_nil nonempty
  rw [← intercalate_listPieces, splitAtEach_intercalate (listPieces_ne_nil front behind s rest)]
  intro piece hpiece
  simp only [← List.forall_mem_ne'] at hfront hbehind h ⊢
  exact forall_mem_listPieces hfront (by decide) hbehind h piece hpiece

/-- A function that finds the text of each piece again, whatever admitted front and end it has. -/
theorem filterMap_listPieces {α β : Type} {f : List Char → Option β} {g : α → β}
    {text : α → List Char} {F B : List Char → Prop} {front behind : List Char} {l : List α}
    (hfront : F front) (space : F [' ']) (nothing : B []) (hbehind : B behind)
    (h : ∀ a ∈ l, ∀ s t, F s → B t → f (s ++ text a ++ t) = some (g a)) :
    (listPieces front behind (l.map text)).filterMap f = l.map g := by
  induction l generalizing front with
  | nil => rfl
  | cons a rest ih =>
    have others := ih space fun b hb => h b (List.mem_cons_of_mem _ hb)
    cases rest with
    | nil =>
      rw [List.map_singleton, List.map_singleton, listPieces, List.filterMap_cons,
        h a (by simp) front behind hfront hbehind]
      rfl
    | cons b rest =>
      have first := h a (by simp) front [] hfront nothing
      rw [List.append_nil] at first
      rw [List.map_cons, List.map_cons, listPieces_cons_cons, List.filterMap_cons, first]
      exact congrArg _ others

end RepoDocs.Text
