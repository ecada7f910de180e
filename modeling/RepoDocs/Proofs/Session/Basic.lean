import Mathlib.Logic.Relation
import RepoDocs.Analysis.Controller
import RepoDocs.Analysis.Generate
import RepoDocs.Proofs.Store.Records

/-! Sessions: operations that are asked for at any time and work side by side in one store.  One of
them works at a time, from one wait to the next; which one goes on, when a reply comes and what it is,
whether an operation of the store fails, and what time it is are left open.  `Turn` is a step of the
operation at work and `Step` any step of the session. -/

namespace RepoDocs

open Analysis

/-- What may be asked for, and the background runs that submissions start. -/
inductive Operation where
  | store (c : StoreCall)
  | submit (address : String)
  | join (job : String)
  | run (job : String)
  | jobStatus (repository : String)
  | detail (repository : String)
  | watch (repository : String) (interval reads : Nat)
  | activeRuns
  | generate (repository : String) (kind : DocumentationKind)
  | fileContent (repository path : String)
  | background (job : String)

namespace Operation

/-- What an operation ends with. -/
@[reducible] def Result : Operation → Type
  | store c => Except StoreError c.Reply
  | submit _ => Except AnalysisError Submission
  | join _ => Except AnalysisError Unit
  | run _ => Except AnalysisError Outcome
  | jobStatus _ => Except AnalysisError Job
  | detail _ => Except AnalysisError Detail
  | watch _ _ _ => List Job × Sighting
  | activeRuns => Nat
  | generate _ _ => Except GenerateError Documentation
  | fileContent _ _ => Except GenerateError String
  | background _ => Unit

/-- What an operation asks for, one after the other. -/
def program (config : AnalysisConfig) : (o : Operation) → Program Controls o.Result
  | store c => (stored c).lift
  | submit address => (Analysis.submit address).run
  | join job => (Analysis.join job).run
  | run job => (Analysis.run config job).run.lift
  | jobStatus repository => (Analysis.jobStatus repository).run
  | detail repository => (Analysis.detail repository).run
  | watch repository interval reads => Analysis.watch repository interval reads none
  | activeRuns => Analysis.activeRuns
  | generate repository kind => (Analysis.generate config repository kind).run.lift
  | fileContent repository path => (Analysis.fileContent config repository path).run.lift
  | background job => (Analysis.background config job).lift

/-- Whether an operation is a background run. -/
def isBackground : Operation → Bool
  | background _ => true
  | _ => false

/-- Whether an operation is the background run of a job. -/
def isBackgroundOf (job : String) : Operation → Bool
  | background job' => job' == job
  | _ => false

/-- The register of background runs when an operation has ended: a background run takes its job
off. -/
def signOff (registered : List String) : Operation → List String
  | background job => registered.erase job
  | _ => registered

end Operation

/-- An operation under way, with what is left of it. -/
structure Task where
  operation : Operation
  rest : Program Controls operation.Result

/-- Anything holds of the operation at work when there is none. -/
theorem Task.forall_none {P : Task → Prop} : ∀ t, (none : Option Task) = some t → P t :=
  fun _ h => nomatch h

/-- An operation that has not begun to work. -/
def Operation.task (config : AnalysisConfig) (o : Operation) : Task := ⟨o, o.program config⟩

/-- The store, the register of background runs, and the operations under way: the one at work, those
that may go on, and those that wait for the reply to their next request. -/
structure Session where
  store : Store := {}
  registered : List String := []
  active? : Option Task := none
  ready : List Task := []
  waiting : List Task := []

/-- What a session depends on: the names of new records, how much an analysis looks at, which
operations may be asked for, and which operations of the store may fail. -/
structure Conditions where
  names : Naming
  config : AnalysisConfig
  begins : Operation → Prop
  fails : StoreCall → Prop

namespace Session

/-- The operations under way. -/
def tasks (s : Session) : List Task := s.active?.toList ++ s.ready ++ s.waiting

/-- Whether a reply may come to a request that takes its time.  Only a call with a deadline may remain
without one, and a join is over when the background run of the job is no longer under way. -/
def Admits (s : Session) : (r : Control) → r.Reply → Prop
  | .effect (.call _ deadline?), x => deadline? = none → x.isSome
  | .pause _, _ => True
  | .join job, x => x = true ∧ ∀ t ∈ s.tasks, t.operation.isBackgroundOf job = false
  | _, _ => False

/-- The operation at work goes one request further. -/
inductive Turn (c : Conditions) (s : Session) : Session → Prop
  | failed {o : Operation} {call : StoreCall} {next} (e : StoreError) (fails : c.fails call)
      (active : s.active? = some ⟨o, .ask (.effect (.store call)) next⟩) :
      Turn c s { s with active? := some ⟨o, next (.error e)⟩ }
  | performed {o : Operation} {call : StoreCall} {next} (now : Instant)
      (active : s.active? = some ⟨o, .ask (.effect (.store call)) next⟩) :
      Turn c s { s with
        store := (s.store.perform c.names now call).2
        active? := some ⟨o, next (s.store.perform c.names now call).1⟩ }
  | started {o : Operation} {job : String} {next}
      (active : s.active? = some ⟨o, .ask (.start job) next⟩) :
      Turn c s { s with
        registered := s.registered ++ [job]
        ready := s.ready ++ [(Operation.background job).task c.config]
        active? := some ⟨o, next ()⟩ }
  | counted {o : Operation} {next} (active : s.active? = some ⟨o, .ask .running next⟩) :
      Turn c s { s with active? := some ⟨o, next s.registered.length⟩ }
  | unregistered {o : Operation} {job : String} {next} (absent : job ∉ s.registered)
      (active : s.active? = some ⟨o, .ask (.join job) next⟩) :
      Turn c s { s with active? := some ⟨o, next false⟩ }

/-- A session goes on. -/
inductive Step (c : Conditions) (s : Session) : Session → Prop
  | turn {s' : Session} (turn : Turn c s s') : Step c s s'
  | asked (o : Operation) (begins : c.begins o) (front : o.isBackground = false) :
      Step c s { s with ready := s.ready ++ [o.task c.config] }
  | resumed {t : Task} {ready : List Task} (idle : s.active? = none)
      (next : s.ready.Perm (t :: ready)) :
      Step c s { s with active? := some t, ready }
  | called {o : Operation} {call : Call} {deadline? : Option Nat} {next}
      (active : s.active? = some ⟨o, .ask (.effect (.call call deadline?)) next⟩) :
      Step c s { s with
        active? := none
        waiting := s.waiting ++ [⟨o, .ask (.effect (.call call deadline?)) next⟩] }
  | paused {o : Operation} {ms : Nat} {next}
      (active : s.active? = some ⟨o, .ask (.pause ms) next⟩) :
      Step c s { s with
        active? := none
        waiting := s.waiting ++ [⟨o, .ask (.pause ms) next⟩] }
  | joined {o : Operation} {job : String} {next} (present : job ∈ s.registered)
      (active : s.active? = some ⟨o, .ask (.join job) next⟩) :
      Step c s { s with
        registered := s.registered.erase job
        active? := none
        waiting := s.waiting ++ [⟨o, .ask (.join job) next⟩] }
  | replied {o : Operation} {r : Control} {next} {waiting : List Task} (x : r.Reply)
      (due : s.waiting.Perm (⟨o, .ask r next⟩ :: waiting)) (admits : s.Admits r x) :
      Step c s { s with ready := s.ready ++ [⟨o, next x⟩], waiting }
  | dropped {t : Task} {waiting : List Task} (front : t.operation.isBackground = false)
      (gone : s.waiting.Perm (t :: waiting)) :
      Step c s { s with waiting }
  | ended {o : Operation} {a : o.Result} (active : s.active? = some ⟨o, .done a⟩) :
      Step c s { s with active? := none, registered := o.signOff s.registered }

/-- One session comes from another by some steps. -/
abbrev Steps (c : Conditions) : Session → Session → Prop := Relation.ReflTransGen (Step c)

/-- One session comes from another while the operation at work remains at work. -/
abbrev Turns (c : Conditions) : Session → Session → Prop := Relation.ReflTransGen (Turn c)

/-- The session can come about. -/
def Reachable (c : Conditions) (s : Session) : Prop := Steps c {} s

end Session

end RepoDocs
