import RepoDocs.Proofs.Http.Escapes

/-! Paths in addresses as lists of segments.  Segments of dots go up or stay, and whatever else is there,
they make a path shorter than the text that it was read from; so do escapes.  A path that is as long as
its text has neither. -/

namespace RepoDocs.Http.Url

open Text
open String (utf8EncodeChar)

variable {s : List Char}

/-- The path of the segments. -/
def pathOf (segments : List (List Char)) : List Char :=
  segments.flatMap fun segment => '/' :: percentEncode pathSpecials segment

/-- The byte of a slash. -/
def slash : UInt8 := UInt8.ofNat 47

theorem decoded_slash (s : List Char) : decoded ('/' :: s) = slash :: decoded s :=
  decoded_cons fun sign => absurd sign (by decide)

theorem decoded_pathOf (segments : List (List Char)) :
    decoded (pathOf segments) = segments.flatMap fun segment => slash :: decoded segment := by
  induction segments with
  | nil => rfl
  | cons first rest ih =>
    have split : decoded (percentEncode pathSpecials first ++ pathOf rest) =
        decoded first ++ decoded (pathOf rest) := by
      cases rest with
      | nil =>
        rw [pathOf, List.flatMap_nil, List.append_nil, decoded_percentEncode, decoded,
          List.append_nil]
      | cons second rest =>
        rw [pathOf, List.flatMap_cons, List.cons_append, decoded_append_cons (by decide),
          decoded_percentEncode]
    rw [pathOf, List.flatMap_cons, List.cons_append, decoded_slash, List.flatMap_cons, ← ih]
    exact congrArg _ split

/-! ### Going down segments -/

theorem decoded_pathOf_append (front rest : List (List Char)) :
    decoded (pathOf (front ++ rest)) = decoded (pathOf front) ++ decoded (pathOf rest) := by
  rw [decoded_pathOf, decoded_pathOf, decoded_pathOf, List.flatMap_append]

/-- A segment that means the directory itself or the one above. -/
def IsDots (segment : List Char) : Prop := plainDots segment = ['.'] ∨ plainDots segment = ['.', '.']

instance (segment : List Char) : Decidable (IsDots segment) := inferInstanceAs (Decidable (_ ∨ _))

theorem IsDots.ne_nil (h : IsDots s) : s ≠ [] := by
  rintro rfl
  revert h
  decide

theorem plainDots_of_unescaped (h : hasEscape s = false) : plainDots s = s := by
  induction s using plainDots.induct with
  | case1 e rest isDot ih =>
    have escape : hasEscape ('%' :: '2' :: e :: rest) = true := by
      rw [Bool.or_eq_true, decide_eq_true_eq, decide_eq_true_eq] at isDot
      rcases isDot with rfl | rfl <;> rfl
    rw [h] at escape
    cases escape
  | case2 e rest noDot => rw [plainDots, if_neg noDot]
  | case3 rest ih =>
    rw [plainDots, ih]
    rw [hasEscape, Bool.or_eq_false_iff] at h
    exact h.2
  | case4 s noEscape noDot =>
    rw [plainDots.eq_def]
    split
    · next e rest => exact absurd rfl (noEscape e rest)
    · next rest => exact absurd rfl (noDot rest)
    · rfl

theorem not_isDots_of_unescaped (h : hasEscape s = false) (one : s ≠ ['.']) (two : s ≠ ['.', '.']) :
    ¬IsDots s := by
  rw [IsDots, plainDots_of_unescaped h]
  exact not_or.2 ⟨one, two⟩

theorem resolve_of_not_dots {done segments : List (List Char)} (h : ∀ segment ∈ segments, ¬IsDots segment) :
    resolve done segments = done.reverse ++ segments := by
  induction segments generalizing done with
  | nil => rw [resolve, List.append_nil]
  | cons first rest ih =>
    obtain ⟨one, two⟩ := not_or.1 (h first List.mem_cons_self)
    cases rest with
    | nil => rw [resolve, if_neg two, if_neg one, List.reverse_cons]
    | cons second rest =>
      rw [resolve, if_neg two, if_neg one, ih fun s hs => h s (List.mem_cons_of_mem _ hs)]
      · simp
      · simp

/-- Where the directories gone through end when segments are gone down, none of which is the last. -/
def visited : List (List Char) → List (List Char) → List (List Char)
  | done, [] => done
  | done, s :: rest =>
    if plainDots s = ['.', '.'] then visited done.tail rest
    else if plainDots s = ['.'] then visited done rest
    else visited (s :: done) rest

theorem resolve_append (done front : List (List Char)) {segments : List (List Char)} (h : segments ≠ []) :
    resolve done (front ++ segments) = resolve (visited done front) segments := by
  induction front generalizing done with
  | nil => rfl
  | cons first rest ih =>
    have more : rest ++ segments ≠ [] := by simp [h]
    rw [List.cons_append, resolve, visited]
    · split_ifs <;> exact ih _
    · simp [h]

/-! ### Lengths -/

/-- How long the path of segments is, counted in the bytes it stands for. -/
def weight : List (List Char) → Nat
  | [] => 0
  | first :: rest => 1 + (decoded first).length + weight rest

theorem weight_append (front rest : List (List Char)) :
    weight (front ++ rest) = weight front + weight rest := by
  induction front with
  | nil => rw [List.nil_append, weight, Nat.zero_add]
  | cons first front ih => rw [List.cons_append, weight, weight, ih, Nat.add_assoc _ (weight front)]

theorem weight_reverse (segments : List (List Char)) : weight segments.reverse = weight segments := by
  induction segments with
  | nil => rfl
  | cons first rest ih =>
    rw [List.reverse_cons, weight_append, ih, weight, weight, weight, Nat.add_zero, Nat.add_comm]

theorem weight_tail_le (segments : List (List Char)) : weight segments.tail ≤ weight segments := by
  cases segments with
  | nil => exact Nat.le_refl _
  | cons first rest =>
    rw [weight, List.tail_cons]
    exact Nat.le_add_left ..

theorem length_decoded_pathOf (segments : List (List Char)) :
    (decoded (pathOf segments)).length = weight segments := by
  induction segments with
  | nil => rfl
  | cons first rest ih =>
    rw [decoded_pathOf, List.flatMap_cons, ← decoded_pathOf, List.length_append, List.length_cons, ih,
      weight, Nat.add_comm 1]

/-- Whatever segments go down or up, dots among them make the path shorter. -/
theorem weight_resolve_lt {done segments : List (List Char)} (h : ∃ s ∈ segments, IsDots s) :
    weight (resolve done segments) < weight done + weight segments := by
  induction segments generalizing done with
  | nil =>
    obtain ⟨s, mem, -⟩ := h
    cases mem
  | cons first rest ih =>
    have up := weight_tail_le done
    cases rest with
    | nil =>
      obtain ⟨s, mem, dots⟩ := h
      obtain rfl := List.mem_singleton.1 mem
      have some := length_decoded_pos dots.ne_nil
      rw [resolve]
      split_ifs with two one
      · rw [weight_reverse, weight, weight]
        simp only [decoded, List.length_nil]
        omega
      · rw [weight_reverse, weight, weight]
        simp only [decoded, List.length_nil]
        omega
      · exact absurd dots (not_or.2 ⟨one, two⟩)
    | cons second others =>
      have le (done : List (List Char)) : weight (resolve done (second :: others)) ≤
          weight done + weight (second :: others) := by
        by_cases dots : ∃ s ∈ second :: others, IsDots s
        · exact (ih dots).le
        · rw [resolve_of_not_dots fun s hs hdots => dots ⟨s, hs, hdots⟩, weight_append, weight_reverse]
      rw [weight, resolve]
      · split_ifs with two one
        · have := le done.tail
          omega
        · have := le done
          omega
        · have behind : ∃ s ∈ second :: others, IsDots s := by
            obtain ⟨s, mem, dots⟩ := h
            rcases List.mem_cons.1 mem with rfl | mem
            · exact absurd dots (not_or.2 ⟨one, two⟩)
            · exact ⟨s, mem, dots⟩
          have shorter := @ih (first :: done) behind
          rw [weight] at shorter
          omega
      · simp

/-! ### The segments of a text -/

/-- Whether a character ends a segment in addresses of the web. -/
def isSlash (c : Char) : Bool := c = '/' || c = '\\'

/-- The slash that a character counts as, or the character. -/
def unify (c : Char) : Char := if isSlash c then '/' else c

/-- The path of the segments of a text stands for the text itself. -/
theorem decoded_pathOf_splitAtEach (s : List Char) :
    decoded (pathOf (splitAtEach isSlash s)) = slash :: decoded (s.map unify) := by
  have joined : pathOf (splitAtEach isSlash s) = '/' :: percentEncode pathSpecials (s.map unify) := by
    refine (flatMap_splitAtEach isSlash '/' _ s).trans (congrArg _ ?_)
    rw [percentEncode, List.flatMap_map]
    congr 1
    funext c
    unfold unify
    split
    · decide
    · rfl
  rw [joined, decoded_slash, decoded_percentEncode]

theorem length_bytes_unify (s : List Char) :
    ((s.map unify).flatMap utf8EncodeChar).length = (s.flatMap utf8EncodeChar).length := by
  have same (c : Char) : (unify c).utf8Size = c.utf8Size := by
    unfold unify isSlash
    split
    · next h =>
      simp only [Bool.or_eq_true, decide_eq_true_eq] at h
      rcases h with rfl | rfl <;> rfl
    · rfl
  simp only [List.length_flatMap, List.map_map, Function.comp_def, String.length_utf8EncodeChar, same]

theorem map_unify_eq_self : s.map unify = s ↔ ∀ c ∈ s, c ≠ '\\' := by
  have single (c : Char) : unify c = c ↔ c ≠ '\\' := by
    unfold unify isSlash
    split
    · next h =>
      simp only [Bool.or_eq_true, decide_eq_true_eq] at h
      rcases h with rfl | rfl <;> decide
    · next h => simp_all
  have ends := List.map_inj_left (l := s) (f := unify) (g := id)
  rw [List.map_id] at ends
  simpa only [id_eq, single] using ends

theorem splitAtEach_isSlash (h : ∀ c ∈ s, c ≠ '\\') : splitAtEach isSlash s = splitAtEach (· == '/') s := by
  refine splitAtEach_congr fun c hc => ?_
  by_cases start : c = '/' <;> simp [isSlash, start, h c hc]

end RepoDocs.Http.Url
