import Std.Data.HashMap
import RepoDocs.Grammar.Node

/-! Parsing expressions and the machine that runs them.  A grammar gives a pattern for each of its
rules; choices are ordered, and the first alternative that matches at a place is kept.  The machine
holds what is left to do in an explicit stack and remembers what every rule found at every place, so
that no rule is tried twice at one place. -/

namespace RepoDocs.Grammar

/-- A place in a text: the characters that follow it, how many precede it, and its row. -/
structure Cursor where
  rest : List Char
  offset : Nat := 0
  row : Nat := 0

namespace Cursor

/-- The place `n` characters on. -/
def advance : Nat → Cursor → Cursor
  | 0, c => c
  | n + 1, c =>
    match c.rest with
    | [] => c
    | ch :: rest => advance n ⟨rest, c.offset + 1, if ch = '\n' then c.row + 1 else c.row⟩

theorem length_rest_advance (n : Nat) (c : Cursor) :
    (c.advance n).rest.length = c.rest.length - n := by
  induction n generalizing c with
  | zero => rfl
  | succ n ih =>
    unfold advance
    split
    · next h => simp [h]
    · next ch rest h => simp [h, ih]

end Cursor

/-- What a pattern finds: the nodes it read and the place behind them. -/
abbrev Found := List Node × Cursor

/-- A parsing expression over the rules `R`. -/
inductive Pattern (R : Type) where
  /-- One terminal, by its reader. -/
  | read (reader : Cursor → Option Found)
  | rule (r : R)
  | seq (ps : List (Pattern R))
  /-- The first of the alternatives that matches. -/
  | oneOf (ps : List (Pattern R))
  /-- As many matches as there are, one after another. -/
  | many (p : Pattern R)
  /-- Matches nothing, where `p` would match. -/
  | ahead (p : Pattern R)
  /-- Matches nothing, where `p` would not match. -/
  | notAhead (p : Pattern R)
  /-- The nodes of `p` as the children of one node. -/
  | node (kind : Kind) (p : Pattern R)
  /-- The nodes of `p`, each in the role `l`. -/
  | label (l : Label) (p : Pattern R)
  /-- What `p` finds, if it is a single node that `accept` holds of. -/
  | only (accept : Node → Bool) (p : Pattern R)
  /-- One `base`, and then every `step` read takes the node before it as its first child. -/
  | chain (base step : Pattern R)

namespace Pattern

variable {R : Type}

/-- The pattern that matches everywhere and reads nothing. -/
def nothing : Pattern R := .seq []

/-- The pattern that matches nowhere. -/
def never : Pattern R := .oneOf []

/-- At most one match. -/
def opt (p : Pattern R) : Pattern R := .oneOf [p, nothing]

/-- One or more matches with `sep` between them. -/
def sepBy1 (sep p : Pattern R) : Pattern R := .seq [p, .many (.seq [sep, p])]

/-- The pattern only where `b` holds. -/
def when (b : Bool) (p : Pattern R) : Pattern R := if b then p else never

/-- The pattern where `b` holds, and nothing elsewhere. -/
def whenOrNothing (b : Bool) (p : Pattern R) : Pattern R := if b then p else nothing

end Pattern

/-- What the machine does when the pattern at hand is decided. -/
inductive Frame (R : Type) where
  | next (todo : List (Pattern R)) (done : List (List Node))
  | orElse (todo : List (Pattern R)) (start : Cursor)
  | again (p : Pattern R) (start : Cursor) (done : List (List Node))
  | look (positive : Bool) (start : Cursor)
  | close (kind : Kind) (row : Nat)
  | mark (l : Label)
  | check (accept : Node → Bool)
  | grow (step : Pattern R)
  | grown (step : Pattern R) (first : Node) (start : Cursor)
  | remember (r : R) (offset : Nat)

/-- What the machine is about to do. -/
inductive Task (R : Type) where
  | try (p : Pattern R)
  | succeed (nodes : List Node)
  | fail

/-- The whole machine.  `furthest` is the last place at which a terminal did not fit. -/
structure Machine (R : Type) [BEq R] [Hashable R] where
  task : Task R
  here : Cursor
  stack : List (Frame R) := []
  memory : Std.HashMap (R × Nat) (Option Found) := {}
  furthest : Nat × Nat := (0, 0)

namespace Machine

variable {R : Type} [BEq R] [Hashable R]

/-- Start on a pattern. -/
def enter (rules : R → Pattern R) (skip : Cursor → Cursor) (m : Machine R) :
    Pattern R → Machine R
  | .read reader =>
    match reader m.here with
    | some (nodes, next) => { m with task := .succeed nodes, here := next }
    | none =>
      let at' := skip m.here
      { m with
        task := .fail
        furthest := if m.furthest.1 < at'.offset then (at'.offset, at'.row) else m.furthest }
  | .rule r =>
    match m.memory[(r, m.here.offset)]? with
    | some (some (nodes, next)) => { m with task := .succeed nodes, here := next }
    | some none => { m with task := .fail }
    | none => { m with task := .try (rules r), stack := .remember r m.here.offset :: m.stack }
  | .seq [] => { m with task := .succeed [] }
  | .seq (p :: ps) => { m with task := .try p, stack := .next ps [] :: m.stack }
  | .oneOf [] => { m with task := .fail }
  | .oneOf (p :: ps) => { m with task := .try p, stack := .orElse ps m.here :: m.stack }
  | .many p => { m with task := .try p, stack := .again p m.here [] :: m.stack }
  | .ahead p => { m with task := .try p, stack := .look true m.here :: m.stack }
  | .notAhead p => { m with task := .try p, stack := .look false m.here :: m.stack }
  | .node kind p => { m with task := .try p, stack := .close kind m.here.row :: m.stack }
  | .label l p => { m with task := .try p, stack := .mark l :: m.stack }
  | .only accept p => { m with task := .try p, stack := .check accept :: m.stack }
  | .chain base step => { m with task := .try base, stack := .grow step :: m.stack }

/-- Go on after a match of the pattern at hand. -/
def accept (m : Machine R) (nodes : List Node) : Frame R → Machine R
  | .next [] done => { m with task := .succeed ((nodes :: done).reverse.flatten) }
  | .next (p :: ps) done =>
    { m with task := .try p, stack := .next ps (nodes :: done) :: m.stack }
  | .orElse _ _ => { m with task := .succeed nodes }
  | .again p start done =>
    if m.here.offset = start.offset then
      { m with task := .succeed ((nodes :: done).reverse.flatten) }
    else { m with task := .try p, stack := .again p m.here (nodes :: done) :: m.stack }
  | .look true start => { m with task := .succeed [], here := start }
  | .look false start => { m with task := .fail, here := start }
  | .close kind row => { m with task := .succeed [Node.spanning kind row nodes] }
  | .mark l => { m with task := .succeed (nodes.map (Node.withLabel l)) }
  | .check accepts =>
    match nodes with
    | [n] => if accepts n then { m with task := .succeed nodes } else { m with task := .fail }
    | _ => { m with task := .fail }
  | .grow step =>
    match nodes with
    | [n] => { m with task := .try step, stack := .grown step n m.here :: m.stack }
    | _ => { m with task := .succeed nodes }
  | .grown step first _ =>
    match nodes with
    | [n] =>
      let whole := first.adopt n
      { m with task := .try step, stack := .grown step whole m.here :: m.stack }
    | _ => { m with task := .fail }
  | .remember r offset =>
    { m with
      task := .succeed nodes
      memory := m.memory.insert (r, offset) (some (nodes, m.here)) }

/-- Go on after the pattern at hand did not match. -/
def reject (m : Machine R) : Frame R → Machine R
  | .orElse [] start => { m with task := .fail, here := start }
  | .orElse (p :: ps) start =>
    { m with task := .try p, here := start, stack := .orElse ps start :: m.stack }
  | .again _ start done => { m with task := .succeed done.reverse.flatten, here := start }
  | .look true start => { m with task := .fail, here := start }
  | .look false start => { m with task := .succeed [], here := start }
  | .grown _ first start => { m with task := .succeed [first], here := start }
  | .remember r offset => { m with task := .fail, memory := m.memory.insert (r, offset) none }
  | _ => { m with task := .fail }

/-- Whether the machine has its answer. -/
def isDone (m : Machine R) : Bool :=
  match m.task with
  | .try _ => false
  | _ => m.stack.isEmpty

/-- One step.  Nothing changes when the machine has its answer. -/
def step (rules : R → Pattern R) (skip : Cursor → Cursor) (m : Machine R) : Machine R :=
  match m.task, m.stack with
  | .try p, _ => m.enter rules skip p
  | .succeed nodes, f :: stack => ({ m with stack := stack } : Machine R).accept nodes f
  | .fail, f :: stack => ({ m with stack := stack } : Machine R).reject f
  | _, [] => m

/-- The machine after at most `budget` steps. -/
def run (rules : R → Pattern R) (skip : Cursor → Cursor) : Nat → Machine R → Machine R
  | 0, m => m
  | budget + 1, m => if m.isDone then m else run rules skip budget (m.step rules skip)

end Machine

/-- What came of running a pattern over a text: what was found, if anything, and the row of the last
place at which a terminal did not fit. -/
structure Attempt where
  found : Option Found
  furthestRow : Nat

/-- The answer of a machine that has done all it can. -/
def Machine.attempt {R : Type} [BEq R] [Hashable R] (m : Machine R) : Attempt :=
  match m.task with
  | .succeed nodes => ⟨some (nodes, m.here), m.furthest.2⟩
  | _ => ⟨none, m.furthest.2⟩

/-- Run a rule over a whole text.  Every rule body runs at most once at each of the places, in a
number of steps that the length of the text bounds, so the budget below is never used up. -/
def parse {R : Type} [BEq R] [Hashable R] (rules : R → Pattern R) (skip : Cursor → Cursor)
    (start : R) (text : List Char) : Attempt :=
  let places := text.length + 1
  (Machine.run rules skip (1000000 * places * places)
    { task := .try (.rule start), here := { rest := text } }).attempt

end RepoDocs.Grammar
