import RepoDocs.Grammar.Pattern

/-! The machine with a list of notes for its memory.  The hash table of the machine is quick to look things
up in, but a proof cannot compute what it holds.  A list of notes can stand in for it: at every step the two
recall the same, so that the parse of a given text can be computed with the notes. -/

namespace RepoDocs.Grammar

/-- What the rules found at the places where they were tried, the latest note first. -/
abbrev Notes (R : Type) := List ((R × Nat) × Option Found)

/-- What is noted when the pattern that the frame waits for is decided. -/
def Frame.note {R : Type} (found? : Option Found) : Frame R → Notes R
  | .remember r offset => [((r, offset), found?)]
  | _ => []

namespace Machine

variable {R : Type} [BEq R] [Hashable R]

/-- The machine with nothing in its memory. -/
def forgotten (m : Machine R) : Machine R := { m with memory := {} }

@[simp] theorem forgotten_here (m : Machine R) : m.forgotten.here = m.here := rfl

theorem forgotten_start (task : Task R) (here : Cursor) :
    ({ task, here } : Machine R).forgotten = { task, here } := rfl

theorem attempt_forgotten (m : Machine R) : m.forgotten.attempt = m.attempt := rfl

/-- Start on a pattern, with what the notes say of a rule. -/
def enterNoted (rules : R → Pattern R) (skip : Cursor → Cursor) (notes : Notes R) (m : Machine R) :
    Pattern R → Machine R
  | .rule r =>
    match notes.lookup (r, m.here.offset) with
    | some (some (nodes, next)) => { m with task := .succeed nodes, here := next }
    | some none => { m with task := .fail }
    | none => { m with task := .try (rules r), stack := .remember r m.here.offset :: m.stack }
  | p => m.enter rules skip p

/-- One step with the notes. -/
def stepNoted (rules : R → Pattern R) (skip : Cursor → Cursor) (notes : Notes R) (m : Machine R) :
    Machine R :=
  match m.task with
  | .try p => m.enterNoted rules skip notes p
  | _ => (m.step rules skip).forgotten

/-- The notes behind the next step. -/
def noted (m : Machine R) (notes : Notes R) : Notes R :=
  match m.task, m.stack with
  | .succeed nodes, f :: _ => f.note (some (nodes, m.here)) ++ notes
  | .fail, f :: _ => f.note none ++ notes
  | _, _ => notes

/-- The machine after at most `budget` steps with the notes. -/
def runNoted (rules : R → Pattern R) (skip : Cursor → Cursor) :
    Nat → Notes R → Machine R → Machine R
  | 0, _, m => m
  | budget + 1, notes, m =>
    if m.isDone then m else runNoted rules skip budget (m.noted notes) (m.stepNoted rules skip notes)

/-- The notes say what is in the memory. -/
def Agrees (m : Machine R) (notes : Notes R) : Prop :=
  ∀ k, m.memory[k]? = notes.lookup k

namespace Agrees

variable {rules : R → Pattern R} {skip : Cursor → Cursor} {m : Machine R} {notes : Notes R}

theorem nil {task : Task R} {here : Cursor} : Agrees { task, here } ([] : Notes R) :=
  fun _ => Std.HashMap.getElem?_empty

theorem enter (h : m.Agrees notes) (p : Pattern R) :
    (m.enter rules skip p).forgotten = m.forgotten.enterNoted rules skip notes p ∧
      (m.enter rules skip p).Agrees notes := by
  cases p with
  | read reader =>
    simp only [enterNoted, Machine.enter, forgotten_here]
    split <;> exact ⟨rfl, h⟩
  | rule r =>
    rw [enterNoted, Machine.enter, h, forgotten_here]
    rcases notes.lookup (r, m.here.offset) with _ | _ | found <;> exact ⟨rfl, h⟩
  | seq ps | oneOf ps => cases ps <;> exact ⟨rfl, h⟩
  | _ => exact ⟨rfl, h⟩

theorem remember [LawfulBEq R] (h : m.Agrees notes) (k : R × Nat) (found? : Option Found)
    (task : Task R) :
    Agrees { m with task, memory := m.memory.insert k found? } ((k, found?) :: notes) := by
  intro k'
  rw [Std.HashMap.getElem?_insert, List.lookup_cons, h k', BEq.comm]
  cases k' == k <;> rfl

theorem accept [LawfulBEq R] (h : m.Agrees notes) (nodes : List Node) (f : Frame R) :
    (m.accept nodes f).forgotten = (m.forgotten.accept nodes f).forgotten ∧
      (m.accept nodes f).Agrees (f.note (some (nodes, m.here)) ++ notes) := by
  cases f with
  | next todo done => cases todo <;> exact ⟨rfl, h⟩
  | again p start done =>
    rw [Machine.accept, Machine.accept, forgotten_here]
    split <;> exact ⟨rfl, h⟩
  | look positive start => cases positive <;> exact ⟨rfl, h⟩
  | check accepts =>
    rcases nodes with _ | ⟨n, _ | _⟩
    · exact ⟨rfl, h⟩
    · rw [Machine.accept, Machine.accept]
      split <;> exact ⟨rfl, h⟩
    · exact ⟨rfl, h⟩
  | grow step | grown step first start => rcases nodes with _ | ⟨n, _ | _⟩ <;> exact ⟨rfl, h⟩
  | remember r offset => exact ⟨rfl, h.remember (r, offset) _ _⟩
  | _ => exact ⟨rfl, h⟩

theorem reject [LawfulBEq R] (h : m.Agrees notes) (f : Frame R) :
    (m.reject f).forgotten = (m.forgotten.reject f).forgotten ∧
      (m.reject f).Agrees (f.note none ++ notes) := by
  cases f with
  | orElse todo start => cases todo <;> exact ⟨rfl, h⟩
  | look positive start => cases positive <;> exact ⟨rfl, h⟩
  | remember r offset => exact ⟨rfl, h.remember (r, offset) _ _⟩
  | _ => exact ⟨rfl, h⟩

/-- With the notes the machine takes the step that it takes with its memory, and behind it the notes agree
again. -/
theorem step [LawfulBEq R] (h : m.Agrees notes) (rules : R → Pattern R) (skip : Cursor → Cursor) :
    (m.step rules skip).forgotten = m.forgotten.stepNoted rules skip notes ∧
      (m.step rules skip).Agrees (m.forgotten.noted notes) := by
  obtain ⟨task, here, stack, memory, furthest⟩ := m
  have rest (task : Task R) (stack : List (Frame R)) :
      Agrees ⟨task, here, stack, memory, furthest⟩ notes := h
  cases task with
  | «try» p => exact h.enter p
  | succeed nodes =>
    cases stack with
    | nil => exact ⟨rfl, h⟩
    | cons f stack => exact (rest (.succeed nodes) stack).accept nodes f
  | fail =>
    cases stack with
    | nil => exact ⟨rfl, h⟩
    | cons f stack => exact (rest .fail stack).reject f

theorem run [LawfulBEq R] (h : m.Agrees notes) (rules : R → Pattern R) (skip : Cursor → Cursor)
    (budget : Nat) : (m.run rules skip budget).forgotten = m.forgotten.runNoted rules skip budget notes := by
  induction budget generalizing m notes with
  | zero => rfl
  | succ budget ih =>
    obtain ⟨same, agrees⟩ := h.step rules skip
    have done : m.forgotten.isDone = m.isDone := rfl
    rw [Machine.run, runNoted, done]
    split
    · rfl
    · rw [ih agrees, same]

end Agrees

end Machine

variable {R : Type} [BEq R] [Hashable R]

/-- Run a rule over a whole text, with notes of what the rules found. -/
def parseNoted (rules : R → Pattern R) (skip : Cursor → Cursor) (start : R) (text : List Char) :
    Attempt :=
  let places := text.length + 1
  (Machine.runNoted rules skip (1000000 * places * places) []
    { task := .try (.rule start), here := { rest := text } }).attempt

theorem parse_eq_parseNoted [LawfulBEq R] (rules : R → Pattern R) (skip : Cursor → Cursor) (start : R)
    (text : List Char) : parse rules skip start text = parseNoted rules skip start text := by
  rw [parse, parseNoted, ← Machine.attempt_forgotten, Machine.Agrees.nil.run, Machine.forgotten_start]

end RepoDocs.Grammar
