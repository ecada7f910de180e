import RepoDocs.Grammar.Pattern

/-! Rows of syntax trees.  Where the readers of the terminals stay inside the text, so does the machine:
the nodes that it builds, remembers and gives out begin and end in rows of the text, and so do the places
that it comes to. -/

namespace RepoDocs.Grammar

/-- The row of the last character of the text that a place is in. -/
def Cursor.lastRow (c : Cursor) : Nat := c.row + c.rest.count '\n'

theorem Cursor.row_le_lastRow (c : Cursor) : c.row ≤ c.lastRow := Nat.le_add_right ..

theorem Cursor.lastRow_advance (n : Nat) (c : Cursor) : (c.advance n).lastRow = c.lastRow := by
  induction n generalizing c with
  | zero => rfl
  | succ n ih =>
    rw [advance]
    split
    · rfl
    · rename_i ch rest h
      rw [ih, lastRow, lastRow, h, List.count_cons]
      by_cases feed : ch = '\n'
      · simp only [feed, if_true, beq_self_eq_true]
        omega
      · simp [feed]

namespace Node

variable {last : Nat}

mutual

/-- The node and all below it begin and end at the row `last` or before. -/
def Within (last : Nat) : Node → Prop
  | ⟨_, _, startRow, endRow, _, children⟩ =>
    startRow ≤ last ∧ endRow ≤ last ∧ AllWithin last children

def AllWithin (last : Nat) : List Node → Prop
  | [] => True
  | n :: rest => Within last n ∧ AllWithin last rest

end

theorem allWithin_iff {ns : List Node} : AllWithin last ns ↔ ∀ n ∈ ns, n.Within last := by
  induction ns with
  | nil => simp [AllWithin]
  | cons n ns ih => simp [AllWithin, ih]

theorem within_iff {n : Node} : n.Within last ↔
    n.startRow ≤ last ∧ n.endRow ≤ last ∧ ∀ c ∈ n.children, c.Within last := by
  rw [← allWithin_iff]
  cases n
  rfl

theorem Within.child {n c : Node} (h : n.Within last) (mem : c ∈ n.children) : c.Within last :=
  (within_iff.1 h).2.2 c mem

theorem Within.child? {n c : Node} {l : Label} (h : n.Within last) (found : n.child? l = some c) :
    c.Within last :=
  h.child (List.mem_of_find?_eq_some found)

theorem Within.namedChild {n c : Node} (h : n.Within last) (mem : c ∈ n.namedChildren) : c.Within last :=
  h.child (List.mem_filter.1 mem).1

theorem Within.withLabel {n : Node} (h : n.Within last) (l : Label) : (n.withLabel l).Within last := by
  obtain ⟨starts, ends, below⟩ := within_iff.1 h
  exact within_iff.2 ⟨starts, ends, below⟩

theorem Within.adopt {first n : Node} (hfirst : first.Within last) (h : n.Within last) :
    (first.adopt n).Within last := by
  obtain ⟨-, ends, below⟩ := within_iff.1 h
  exact within_iff.2
    ⟨(within_iff.1 hfirst).1, ends, List.forall_mem_cons.2 ⟨hfirst, below⟩⟩

theorem within_spanning {ns : List Node} {row : Nat} (kind : Kind) (hrow : row ≤ last)
    (h : ∀ n ∈ ns, n.Within last) : (spanning kind row ns).Within last := by
  refine within_iff.2 ⟨?_, ?_, h⟩
  · cases first : ns.head? with
    | none => simpa [spanning, first] using hrow
    | some n => simpa [spanning, first] using (within_iff.1 (h n (List.mem_of_head? first))).1
  · cases final : ns.getLast? with
    | none => simpa [spanning, final] using hrow
    | some n =>
      simpa [spanning, final] using (within_iff.1 (h n (List.mem_of_getLast? final))).2.1

end Node

/-! ### Patterns -/

/-- The nodes and the place behind them are in the text. -/
def Found.Within (last : Nat) (found : Found) : Prop :=
  (∀ n ∈ found.1, n.Within last) ∧ found.2.lastRow = last

/-- Whatever the reader finds is in the text. -/
def Stays (reader : Cursor → Option Found) : Prop :=
  ∀ c, ∀ found ∈ reader c, Found.Within c.lastRow found

namespace Pattern

variable {R : Type}

mutual

/-- All readers of the pattern stay in the text. -/
@[simp] def Stays : Pattern R → Prop
  | .read reader => Grammar.Stays reader
  | .rule _ => True
  | .seq ps | .oneOf ps => AllStay ps
  | .many p | .ahead p | .notAhead p | .node _ p | .label _ p | .only _ p => Stays p
  | .chain base step => Stays base ∧ Stays step

@[simp] def AllStay : List (Pattern R) → Prop
  | [] => True
  | p :: ps => Stays p ∧ AllStay ps

end

variable {p q : Pattern R}

@[simp] theorem stays_nothing : (nothing : Pattern R).Stays := trivial

@[simp] theorem stays_opt : (opt p).Stays ↔ p.Stays := by simp [opt]

@[simp] theorem stays_sepBy1 : (sepBy1 p q).Stays ↔ p.Stays ∧ q.Stays := by
  simp [sepBy1, and_comm]

@[simp] theorem stays_when {b : Bool} : (Pattern.when b p).Stays ↔ (b = true → p.Stays) := by
  cases b <;> simp [Pattern.when, never]

@[simp] theorem stays_whenOrNothing {b : Bool} : (whenOrNothing b p).Stays ↔ (b = true → p.Stays) := by
  cases b <;> simp [whenOrNothing, nothing]

@[simp] theorem stays_ite {c : Prop} [Decidable c] :
    (if c then p else q).Stays ↔ (c → p.Stays) ∧ (¬c → q.Stays) := by
  by_cases h : c <;> simp [h]

end Pattern

/-! ### The machine -/

section Machine

variable {R : Type} {last : Nat}

/-- The parts of what is about to be done are in the text. -/
def Task.Within (last : Nat) : Task R → Prop
  | .try p => p.Stays
  | .succeed nodes => ∀ n ∈ nodes, n.Within last
  | .fail => True

/-- The parts of what is left to do are in the text. -/
def Frame.Within (last : Nat) : Frame R → Prop
  | .next todo done => Pattern.AllStay todo ∧ ∀ ns ∈ done, ∀ n ∈ ns, n.Within last
  | .orElse todo start => Pattern.AllStay todo ∧ start.lastRow = last
  | .again p start done => p.Stays ∧ start.lastRow = last ∧ ∀ ns ∈ done, ∀ n ∈ ns, n.Within last
  | .look _ start => start.lastRow = last
  | .close _ row => row ≤ last
  | .mark _ | .check _ | .remember _ _ => True
  | .grow step => step.Stays
  | .grown step first start => step.Stays ∧ first.Within last ∧ start.lastRow = last

variable [BEq R] [Hashable R] {rules : R → Pattern R} {skip : Cursor → Cursor} {m : Machine R}

/-- The parts of the machine are in the text. -/
structure Machine.Within (last : Nat) (m : Machine R) : Prop where
  here : m.here.lastRow = last
  task : m.task.Within last
  stack : ∀ f ∈ m.stack, f.Within last
  memory : ∀ (k : R × Nat) (found : Found), m.memory[k]? = some (some found) → found.Within last
  furthest : m.furthest.2 ≤ last

namespace Machine.Within

theorem turnTo (h : m.Within last) (t : Task R) (ht : t.Within last) :
    Machine.Within last { m with task := t } :=
  ⟨h.here, ht, h.stack, h.memory, h.furthest⟩

theorem push (h : m.Within last) {p : Pattern R} {f : Frame R} (hp : p.Stays)
    (hf : f.Within last) : Machine.Within last { m with task := .try p, stack := f :: m.stack } :=
  ⟨h.here, hp, List.forall_mem_cons.2 ⟨hf, h.stack⟩, h.memory, h.furthest⟩

theorem goTo (h : m.Within last) (t : Task R) (ht : t.Within last) {c : Cursor}
    (hc : c.lastRow = last) : Machine.Within last { m with task := t, here := c } :=
  ⟨hc, ht, h.stack, h.memory, h.furthest⟩

theorem memorize [LawfulBEq R] (h : m.Within last) (t : Task R) (ht : t.Within last)
    {k : R × Nat} {found? : Option Found} (hfound : ∀ found ∈ found?, Found.Within last found) :
    Machine.Within last { m with task := t, memory := m.memory.insert k found? } := by
  refine ⟨h.here, ht, h.stack, fun k' found known => ?_, h.furthest⟩
  rw [Std.HashMap.getElem?_insert] at known
  split at known
  · exact hfound found (Option.some.inj known)
  · exact h.memory k' found known

theorem enter (h : m.Within last) (rulesStay : ∀ r, (rules r).Stays)
    (skipStays : ∀ c, (skip c).lastRow = c.lastRow) {p : Pattern R} (hp : p.Stays) :
    (m.enter rules skip p).Within last := by
  cases p with
  | read reader =>
    rw [Machine.enter]
    split
    · rename_i nodes next found
      obtain ⟨within, stays⟩ := hp _ _ found
      exact h.goTo (.succeed nodes) (h.here ▸ within) (stays.trans h.here)
    · refine ⟨h.here, trivial, h.stack, h.memory, ?_⟩
      dsimp only
      split
      · have row := (skip m.here).row_le_lastRow
        rwa [skipStays, h.here] at row
      · exact h.furthest
  | rule r =>
    rw [Machine.enter]
    split
    · rename_i nodes next found
      obtain ⟨within, stays⟩ := h.memory _ _ found
      exact h.goTo (.succeed nodes) within stays
    · exact h.turnTo .fail trivial
    · exact h.push (rulesStay r) trivial
  | seq ps =>
    cases ps with
    | nil => exact h.turnTo (.succeed []) nofun
    | cons p ps => exact h.push hp.1 ⟨hp.2, nofun⟩
  | oneOf ps =>
    cases ps with
    | nil => exact h.turnTo .fail trivial
    | cons p ps => exact h.push hp.1 ⟨hp.2, h.here⟩
  | many p => exact h.push hp ⟨hp, h.here, nofun⟩
  | ahead p => exact h.push hp h.here
  | notAhead p => exact h.push hp h.here
  | node kind p => exact h.push hp (h.here ▸ m.here.row_le_lastRow)
  | label l p => exact h.push hp trivial
  | only accept p => exact h.push hp trivial
  | chain base step => exact h.push hp.1 hp.2

theorem joined {nodes : List Node} {done : List (List Node)} (hnodes : ∀ n ∈ nodes, n.Within last)
    (hdone : ∀ ns ∈ done, ∀ n ∈ ns, n.Within last) :
    ∀ n ∈ (nodes :: done).reverse.flatten, n.Within last := by
  intro n hn
  obtain ⟨ns, hns, hn⟩ := List.mem_flatten.1 hn
  rcases List.mem_cons.1 (List.mem_reverse.1 hns) with h | hns
  · exact hnodes n (h ▸ hn)
  · exact hdone ns hns n hn

theorem accept [LawfulBEq R] (h : m.Within last) {nodes : List Node}
    (hnodes : ∀ n ∈ nodes, n.Within last) {f : Frame R} (hf : f.Within last) :
    (m.accept nodes f).Within last := by
  cases f with
  | next todo done =>
    cases todo with
    | nil => exact h.turnTo (.succeed _) (joined hnodes hf.2)
    | cons p ps => exact h.push hf.1.1 ⟨hf.1.2, List.forall_mem_cons.2 ⟨hnodes, hf.2⟩⟩
  | orElse todo start => exact h.turnTo (.succeed nodes) hnodes
  | again p start done =>
    obtain ⟨hp, -, hdone⟩ := hf
    rw [Machine.accept]
    split
    · exact h.turnTo (.succeed _) (joined hnodes hdone)
    · exact h.push hp ⟨hp, h.here, List.forall_mem_cons.2 ⟨hnodes, hdone⟩⟩
  | look positive start =>
    cases positive with
    | true => exact h.goTo (.succeed []) nofun hf
    | false => exact h.goTo .fail trivial hf
  | close kind row =>
    have whole := Node.within_spanning kind hf hnodes
    exact h.turnTo (.succeed _) (List.forall_mem_singleton.2 whole)
  | mark l => exact h.turnTo (.succeed _) (List.forall_mem_map.2 fun n hn => (hnodes n hn).withLabel l)
  | check accepts =>
    rcases nodes with _ | ⟨n, _ | _⟩
    · exact h.turnTo .fail trivial
    · rw [Machine.accept]
      split
      · exact h.turnTo (.succeed [n]) hnodes
      · exact h.turnTo .fail trivial
    · exact h.turnTo .fail trivial
  | grow step =>
    rcases nodes with _ | ⟨n, _ | _⟩
    · exact h.turnTo (.succeed _) hnodes
    · exact h.push hf ⟨hf, hnodes n (List.mem_singleton_self n), h.here⟩
    · exact h.turnTo (.succeed _) hnodes
  | grown step first start =>
    obtain ⟨hstep, hfirst, -⟩ := hf
    rcases nodes with _ | ⟨n, _ | _⟩
    · exact h.turnTo .fail trivial
    · have whole := hfirst.adopt (hnodes n (List.mem_singleton_self n))
      exact h.push hstep ⟨hstep, whole, h.here⟩
    · exact h.turnTo .fail trivial
  | remember r offset =>
    refine h.memorize (.succeed nodes) hnodes ?_
    rintro _ ⟨⟩
    exact ⟨hnodes, h.here⟩

theorem reject [LawfulBEq R] (h : m.Within last) {f : Frame R} (hf : f.Within last) :
    (m.reject f).Within last := by
  cases f with
  | orElse todo start =>
    cases todo with
    | nil => exact h.goTo .fail trivial hf.2
    | cons p ps =>
      exact (h.goTo m.task h.task hf.2).push hf.1.1 ⟨hf.1.2, hf.2⟩
  | again p start done =>
    obtain ⟨-, hstart, hdone⟩ := hf
    refine h.goTo (.succeed _) (fun n hn => ?_) hstart
    obtain ⟨ns, hns, hn⟩ := List.mem_flatten.1 hn
    exact hdone ns (List.mem_reverse.1 hns) n hn
  | look positive start =>
    cases positive with
    | true => exact h.goTo .fail trivial hf
    | false => exact h.goTo (.succeed []) nofun hf
  | grown step first start => exact h.goTo (.succeed [first]) (List.forall_mem_singleton.2 hf.2.1) hf.2.2
  | remember r offset => exact h.memorize .fail trivial nofun
  | next | close | mark | check | grow => exact h.turnTo .fail trivial

theorem step [LawfulBEq R] (h : m.Within last) (rulesStay : ∀ r, (rules r).Stays)
    (skipStays : ∀ c, (skip c).lastRow = c.lastRow) : (m.step rules skip).Within last := by
  have task := h.task
  unfold Machine.step
  split
  · rename_i p _ trying
    rw [trying] at task
    exact h.enter rulesStay skipStays task
  · rename_i nodes f stack found frames
    rw [found] at task
    obtain ⟨hf, hstack⟩ := List.forall_mem_cons.1 (frames ▸ h.stack)
    have rest : Machine.Within last { m with stack } :=
      ⟨h.here, h.task, hstack, h.memory, h.furthest⟩
    exact rest.accept task hf
  · rename_i f stack _ frames
    obtain ⟨hf, hstack⟩ := List.forall_mem_cons.1 (frames ▸ h.stack)
    have rest : Machine.Within last { m with stack } :=
      ⟨h.here, h.task, hstack, h.memory, h.furthest⟩
    exact rest.reject hf
  · exact h

theorem run [LawfulBEq R] (h : m.Within last) (rulesStay : ∀ r, (rules r).Stays)
    (skipStays : ∀ c, (skip c).lastRow = c.lastRow) (budget : Nat) :
    (m.run rules skip budget).Within last := by
  induction budget generalizing m with
  | zero => exact h
  | succ budget ih =>
    rw [Machine.run]
    split
    · exact h
    · exact ih (h.step rulesStay skipStays)

end Machine.Within

/-- What is found is in the text, and so is the place at which no terminal fitted. -/
structure Attempt.Within (last : Nat) (a : Attempt) : Prop where
  found : ∀ found ∈ a.found, found.Within last
  furthest : a.furthestRow ≤ last

theorem Machine.Within.attempt (h : m.Within last) : m.attempt.Within last := by
  have task := h.task
  unfold Machine.attempt
  split
  · rename_i nodes succeeded
    rw [succeeded] at task
    refine ⟨?_, h.furthest⟩
    rintro _ ⟨⟩
    exact ⟨task, h.here⟩
  · exact ⟨nofun, h.furthest⟩

theorem within_parse [LawfulBEq R] (rulesStay : ∀ r, (rules r).Stays)
    (skipStays : ∀ c, (skip c).lastRow = c.lastRow) (start : R) (text : List Char) :
    (parse rules skip start text).Within (text.count '\n') := by
  have begun : Machine.Within (text.count '\n')
      ({ task := .try (.rule start), here := { rest := text } } : Machine R) := by
    refine ⟨Nat.zero_add _, trivial, nofun, fun k found known => ?_, Nat.zero_le _⟩
    rw [Std.HashMap.getElem?_empty] at known
    cases known
  exact (begun.run rulesStay skipStays _).attempt

end Machine

end RepoDocs.Grammar
