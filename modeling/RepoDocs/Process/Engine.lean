import RepoDocs.Process.Conduct
import RepoDocs.Process.Effect

/-! Programs at work side by side in one store.  Only one of them works at a time, up to the next call
or pause that takes time; then the others have their turn.  When all of them wait, the clock goes on to
the time at which the first wait ends. -/

namespace RepoDocs

/-- The surroundings of the programs, which have a state: how calls go, which operations of the store
fail, what new records are called and what time it is on the calendar. -/
structure World (σ : Type) where
  names : Naming
  now : σ → Instant
  begin : (c : Call) → σ → Conduct c.Reply × σ
  storeFailure? : StoreCall → σ → Option StoreError × σ

/-- What is left of the background run of a job. -/
structure BackgroundRun where
  job : String
  rest : Program Effects Unit

/-- A background run that waits for a time, or without end. -/
structure Sleeper where
  wake? : Option Nat
  run : BackgroundRun

/-- The store, the clock and the background runs: those that are registered, those whose turn comes
next, and those that wait, in the order in which they began to. -/
structure Engine (σ : Type) where
  world : σ
  store : Store := {}
  clock : Nat := 0
  registered : List String := []
  ready : List BackgroundRun := []
  asleep : List Sleeper := []

namespace Engine

variable {σ α : Type}

/-- Carry out an operation of the store, unless it fails. -/
def performStore (w : World σ) (c : StoreCall) (s : Engine σ) :
    Except StoreError c.Reply × Engine σ :=
  match w.storeFailure? c s.world with
  | (some e, world) => (.error e, { s with world })
  | (none, world) =>
    let (reply, store) := s.store.perform w.names (w.now world) c
    (reply, { s with world, store })

/-- Begin with what a run asks for. -/
def begin (w : World σ) (s : Engine σ) : (e : Effect) → Conduct e.Reply × Engine σ
  | .store c =>
    let (reply, s) := s.performStore w c
    (.after 0 reply, s)
  | .call c deadline? =>
    let (conduct, world) := w.begin c s.world
    (conduct.within deadline?, { s with world })

/-! ### Background runs -/

/-- Let a background run work until it has to wait or ends. -/
def work (w : World σ) (job : String) : Program Effects Unit → Engine σ → Engine σ
  | .done (), s => { s with registered := s.registered.erase job }
  | .ask e next, s =>
    match s.begin w e with
    | (.after 0 reply, s) => work w job (next reply) s
    | (.after (ms + 1) reply, s) =>
      { s with asleep := s.asleep ++ [⟨some (s.clock + ms + 1), job, next reply⟩] }
    | (.never, s) => { s with asleep := s.asleep ++ [⟨none, job, .ask e next⟩] }

/-- Let the background runs whose turn it is work, one after the other. -/
def drain (w : World σ) (s : Engine σ) : Engine σ :=
  s.ready.foldl (fun s r => s.work w r.job r.rest) { s with ready := [] }

/-- Put the clock to a time, at which the waits up to it end. -/
def wakeAt (s : Engine σ) (time : Nat) : Engine σ :=
  let due (p : Sleeper) : Bool := p.wake?.any (· ≤ time)
  { s with
    clock := time
    ready := s.ready ++ (s.asleep.filter due).map (·.run)
    asleep := s.asleep.filter (!due ·) }

/-- The first time before `goal`, but not yet come, at which a wait ends. -/
def nextWake? (s : Engine σ) (goal : Nat) : Option Nat :=
  ((s.asleep.filterMap (·.wake?)).filter fun t => s.clock < t && t < goal).min?

/-- Let time go by up to `goal`, while the background runs work; stop as soon as `met` holds of the
engine and none of the runs can work on.  The first number is a bound on the waits that end. -/
def pass (w : World σ) (met : Engine σ → Bool) (goal : Nat) :
    Nat → Engine σ → Bool × Engine σ
  | 0, s => (false, s)
  | fuel + 1, s =>
    let s := s.drain w
    if met s then (true, s)
    else
      match s.nextWake? goal with
      | some t => pass w met goal fuel (s.wakeAt t)
      | none => (false, s.wakeAt goal)

/-- Let time go by up to `goal`, or until `met` holds.  Each wait that ends before puts the clock
forward. -/
def passUntil (w : World σ) (met : Engine σ → Bool) (goal : Nat) (s : Engine σ) :
    Bool × Engine σ :=
  s.pass w met goal (goal - s.clock + 1)

/-- Wait up to a time, or up to `limit` if that comes first; says whether the time has come. -/
def waitFor (w : World σ) (time limit : Nat) (s : Engine σ) : Bool × Engine σ :=
  (time ≤ limit, (s.passUntil w (fun _ => false) (min time limit)).2)

/-- Whether the background run of a job has ended. -/
def hasEnded (job : String) (s : Engine σ) : Bool :=
  !(s.ready.any (·.job == job) || s.asleep.any (·.run.job == job))

/-! ### The program in front -/

/-- Run a program while the background runs work whenever it waits; `none` when it still waits at the
time `limit`. -/
def run (w : World σ) (background : String → Program Effects Unit) (limit : Nat) :
    Program Controls α → Engine σ → Option α × Engine σ
  | .done a, s => (some a, s)
  | .ask (.effect e) next, s =>
    match s.begin w e with
    | (.after 0 reply, s) => run w background limit (next reply) s
    | (.after (ms + 1) reply, s) =>
      match s.waitFor w (s.clock + ms + 1) limit with
      | (true, s) => run w background limit (next reply) s
      | (false, s) => (none, s)
    | (.never, s) => (none, (s.waitFor w limit limit).2)
  | .ask (.pause 0) next, s => run w background limit (next ()) s
  | .ask (.pause (ms + 1)) next, s =>
    match s.waitFor w (s.clock + ms + 1) limit with
    | (true, s) => run w background limit (next ()) s
    | (false, s) => (none, s)
  | .ask (.start job) next, s =>
    run w background limit (next ())
      { s with
        registered := s.registered ++ [job]
        ready := s.ready ++ [⟨job, background job⟩] }
  | .ask .running next, s => run w background limit (next s.registered.length) s
  | .ask (.join job) next, s =>
    if s.registered.contains job then
      match passUntil w (hasEnded job) limit { s with registered := s.registered.erase job } with
      | (true, s) => run w background limit (next true) s
      | (false, s) => (none, s)
    else run w background limit (next false) s

end Engine

end RepoDocs
