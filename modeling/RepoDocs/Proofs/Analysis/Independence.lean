import Mathlib.Data.Option.Basic
import RepoDocs.Proofs.Analysis.Requests
import RepoDocs.Proofs.Process.Company
import RepoDocs.Proofs.Store.Account

/-! Runs of jobs of different repositories do not interfere.  A run asks the store for nothing but what
is on record about its own job and repository, so whatever the run of a job of another repository does,
it is replied to as if it were alone.  This holds of two runs that take turns in any way, and so of the
turns in which an engine runs them. -/

namespace RepoDocs

open Program

variable {α β : Type} {jobId repositoryId : String}

/-- Two programs make the same requests about one repository and a job of it, and go on alike wherever
they are told the same; in the end their results are the same as far as `same` says. -/
inductive Alike (jobId repositoryId : String) (same : α → α → Prop) :
    Program Effects α → Program Effects α → Prop
  | done {a b : α} (h : same a b) : Alike jobId repositoryId same (.done a) (.done b)
  | store {c : StoreCall} {next next'} (within : c.Within jobId repositoryId)
      (h : ∀ x x', SameReply repositoryId c x x' →
        Alike jobId repositoryId same (next x) (next' x')) :
      Alike jobId repositoryId same (.ask (.store c) next) (.ask (.store c) next')
  | call {c : Call} {deadline? : Option Nat} {next next'}
      (h : ∀ x, Alike jobId repositoryId same (next x) (next' x)) :
      Alike jobId repositoryId same (.ask (.call c deadline?) next) (.ask (.call c deadline?) next')

/-- Two attempts that fail with the same error, or that succeed with results that are the same as far
as `same` says. -/
inductive AgreeOn (same : α → α → Prop) : Except ε α → Except ε α → Prop
  | ok {a b : α} (h : same a b) : AgreeOn same (.ok a) (.ok b)
  | error (e : ε) : AgreeOn same (.error e) (.error e)

namespace Alike

variable {same : α → α → Prop} {same' : β → β → Prop} {p p' : Program Effects α}

theorem pure {a b : α} (h : same a b) :
    Alike jobId repositoryId same (pure a) (pure b) := .done h

theorem bind {f f' : α → Program Effects β} (h : Alike jobId repositoryId same p p')
    (hf : ∀ a b, same a b → Alike jobId repositoryId same' (f a) (f' b)) :
    Alike jobId repositoryId same' (p >>= f) (p' >>= f') := by
  induction h with
  | done h => exact hf _ _ h
  | store within _ ih => exact .store within ih
  | call _ ih => exact .call ih

theorem run_bind {x x' : Attempt ε Effects α} {f f' : α → Attempt ε Effects β}
    (h : Alike jobId repositoryId (AgreeOn same) x.run x'.run)
    (hf : ∀ a b, same a b → Alike jobId repositoryId (AgreeOn same') (f a).run (f' b).run) :
    Alike jobId repositoryId (AgreeOn same') (x >>= f).run (x' >>= f').run := by
  rw [ExceptT.run_bind, ExceptT.run_bind]
  refine h.bind fun a b hab => ?_
  cases hab with
  | ok hab => exact hf _ _ hab
  | error e => exact .pure (.error e)

theorem run_tryCatch {x x' : Attempt ε Effects α} {handle handle' : ε → Attempt ε Effects α}
    (h : Alike jobId repositoryId (AgreeOn same) x.run x'.run)
    (hhandle : ∀ e, Alike jobId repositoryId (AgreeOn same) (handle e).run (handle' e).run) :
    Alike jobId repositoryId (AgreeOn same) (tryCatch x handle).run (tryCatch x' handle').run := by
  refine Alike.bind (p := x.run) h fun a b hab => ?_
  cases hab with
  | ok hab => exact .pure (.ok hab)
  | error e => exact hhandle e

theorem run_lift (h : Alike jobId repositoryId same p p') :
    Alike jobId repositoryId (AgreeOn same) (liftM p : Attempt ε Effects α).run
      (liftM p' : Attempt ε Effects α).run :=
  h.bind fun _ _ hab => .pure (.ok hab)

end Alike

/-- The outcome, whatever the report on the quality is called on record. -/
def Analysis.Outcome.unnamed (o : Outcome) : Outcome := { o with qualityDocumentationId := "" }

namespace Analysis

/-! ### The parts of a run -/

theorem alike_loadJob : Alike jobId repositoryId
    (AgreeOn fun j j' => j.untimed = j'.untimed ∧ j.repositoryId = repositoryId)
    (loadJob jobId).run (loadJob jobId).run := by
  refine .store rfl fun x x' h => ?_
  obtain ⟨j, j', rfl, rfl, same, owner⟩ := h
  exact .pure (.ok ⟨same, owner⟩)

theorem alike_loadRepository : Alike jobId repositoryId
    (AgreeOn fun r r' => r = r' ∧ r.id = repositoryId)
    (loadRepository repositoryId).run (loadRepository repositoryId).run := by
  refine .store rfl fun x x' h => ?_
  obtain ⟨rfl, owner⟩ := h
  rcases x with e | (_ | r)
  · exact .pure (.error _)
  · exact .pure (.error _)
  · exact .pure (.ok ⟨rfl, owner r rfl⟩)

theorem alike_updateRepository (u : RepositoryUpdate) : Alike jobId repositoryId
    (AgreeOn fun r r' => r = r' ∧ r.id = repositoryId)
    (onRecord (.updateRepository repositoryId u)).run
    (onRecord (.updateRepository repositoryId u)).run := by
  refine .store rfl fun x x' h => ?_
  obtain ⟨rfl, owner⟩ := h
  cases x with
  | error e => exact .pure (.error _)
  | ok r => exact .pure (.ok ⟨rfl, owner r rfl⟩)

theorem alike_createDocumentation (new : NewDocumentation) (h : new.repositoryId = repositoryId) :
    Alike jobId repositoryId (AgreeOn fun _ _ => True)
      (onRecord (.createDocumentation new)).run (onRecord (.createDocumentation new)).run := by
  refine .store h fun x x' h => ?_
  obtain ⟨d, d', rfl, rfl, -⟩ := h
  exact .pure (.ok trivial)

/-- What is planned for a job does not depend on when it was changed last. -/
theorem planCheckpoint_congr {j j' : Job} (h : j.untimed = j'.untimed) (c : Checkpoint) :
    j.planCheckpoint c = j'.planCheckpoint c := by
  change j.untimed.planCheckpoint c = j'.untimed.planCheckpoint c
  rw [h]

theorem planFailure_congr {j j' : Job} (h : j.untimed = j'.untimed) (message : String) :
    j.planFailure message = j'.planFailure message := by
  change j.untimed.planFailure message = j'.untimed.planFailure message
  rw [h]

theorem alike_advance (c : Checkpoint) : Alike jobId repositoryId (AgreeOn fun _ _ => True)
    (advance jobId c).run (advance jobId c).run := by
  refine alike_loadJob.run_bind fun j j' h => ?_
  rw [planCheckpoint_congr h.1]
  cases j'.planCheckpoint c with
  | error r => exact .pure (.error _)
  | ok u =>
    refine .store rfl fun x x' h => ?_
    obtain ⟨j, j', rfl, rfl, same⟩ := h
    exact .pure (.ok trivial)

theorem alike_fail (cause : AnalysisError) : Alike jobId repositoryId (fun _ _ => True)
    (fail jobId repositoryId cause) (fail jobId repositoryId cause) := by
  refine alike_loadJob.bind fun x x' h => ?_
  cases h with
  | error e => exact .pure trivial
  | @ok j j' h =>
    dsimp only
    rw [planFailure_congr h.1]
    cases j'.planFailure cause.message with
    | error r => exact .pure trivial
    | ok u =>
      refine .store rfl fun _ _ _ => .store rfl fun _ _ _ => .pure trivial

theorem alike_called (c : Call) (deadline? : Option Nat) (late : c.Reply) :
    Alike jobId repositoryId Eq (called c deadline? late) (called c deadline? late) :=
  .call fun _ => .done rfl

theorem alike_fetchMany (url : String) (deadline? : Option Nat) (paths : List String) :
    Alike jobId repositoryId Eq (fetchMany url deadline? paths)
      (fetchMany url deadline? paths) := by
  induction paths with
  | nil => exact .pure rfl
  | cons path rest ih =>
    refine (alike_called ..).bind fun content _ same => ?_
    subst same
    refine ih.bind fun files _ same => ?_
    subst same
    cases content <;> exact .pure rfl

theorem alike_fetchMetadata (config : AnalysisConfig) (url : String) :
    Alike jobId repositoryId (AgreeOn Eq) (fetchMetadata config url).run
      (fetchMetadata config url).run := by
  refine (alike_called ..).run_lift.run_bind fun x _ same => ?_
  subst same
  cases x with
  | error e => exact .pure (.error _)
  | ok m => exact .pure (.ok rfl)

theorem alike_reportQuality (config : AnalysisConfig) (files : List SourceFile) :
    Alike jobId repositoryId (AgreeOn Eq) (reportQuality config files).run
      (reportQuality config files).run := by
  refine (alike_called ..).run_lift.run_bind fun x _ same => ?_
  subst same
  cases x with
  | error e => exact .pure (.error _)
  | ok m => exact .pure (.ok rfl)

theorem alike_execute (config : AnalysisConfig) (r : Repository) (hid : r.id = repositoryId) :
    Alike jobId repositoryId (AgreeOn fun o o' => o.unnamed = o'.unnamed)
      (execute config jobId r).run (execute config jobId r).run := by
  subst hid
  refine (alike_advance .started).run_bind fun _ _ _ => ?_
  refine (alike_updateRepository _).run_bind fun _ _ _ => ?_
  refine (alike_fetchMetadata config r.url).run_bind fun m _ same => ?_
  subst same
  refine (alike_updateRepository _).run_bind fun described _ ⟨same, hid⟩ => ?_
  subst same
  refine (alike_advance .fileListReady).run_bind fun _ _ _ => ?_
  refine (alike_fetchMany ..).run_lift.run_bind fun files _ same => ?_
  subst same
  refine (alike_advance .contentsFetched).run_bind fun _ _ _ => ?_
  refine (alike_reportQuality config files).run_bind fun quality _ same => ?_
  subst same
  refine (alike_advance .qualityScanned).run_bind fun _ _ _ => ?_
  refine (alike_createDocumentation _ hid).run_bind fun _ _ _ => ?_
  rw [hid]
  refine (alike_updateRepository _).run_bind fun completed _ ⟨same, _⟩ => ?_
  subst same
  exact (alike_advance .completed).run_bind fun _ _ _ => .pure (.ok rfl)

/-- The run of a job makes requests about its job and its repository only, and goes by what it is told
about them. -/
theorem alike_run (config : AnalysisConfig) (jobId repositoryId : String) :
    Alike jobId repositoryId (AgreeOn fun o o' => o.unnamed = o'.unnamed)
      (run config jobId).run (run config jobId).run := by
  refine alike_loadJob.run_bind fun j j' ⟨same, owner⟩ => ?_
  have owner' : j'.repositoryId = repositoryId := (congrArg Job.repositoryId same).symm.trans owner
  rw [owner, owner']
  refine alike_loadRepository.run_bind fun r _ ⟨same, hid⟩ => ?_
  subst same
  refine (alike_execute config r hid).run_tryCatch fun cause => ?_
  rw [hid]
  exact (alike_fail cause).run_lift.run_bind fun _ _ _ => .pure (.error cause)

end Analysis

/-! ### Courses of programs that are alike -/

variable {names names' : Naming} {answers : Answers} {same : α → α → Prop}
  {p p' q q' : Program Effects α} {s s' t t' : Store} {r r' : Option α}

namespace Alike

/-- Programs that are alike advance to such programs, in stores that have the same on record. -/
theorem advances (h : Alike jobId repositoryId same p p')
    (owns : s.Owns jobId repositoryId)
    (account : s.account jobId repositoryId = s'.account jobId repositoryId)
    (step : Advances names answers p s q t) (step' : Advances names' answers p' s' q' t') :
    Alike jobId repositoryId same q q' ∧ t.Owns jobId repositoryId ∧
      t.account jobId repositoryId = t'.account jobId repositoryId := by
  cases h with
  | done => cases step
  | @store c next next' within h =>
    cases step with
    | performed now =>
      cases step' with
      | performed now' =>
        obtain ⟨reply, account⟩ := Store.perform_congr within owns account
        exact ⟨h _ _ reply, owns.perform c, account⟩
  | call h =>
    cases step with
    | replied reply =>
      cases step' with
      | replied reply' =>
        cases reply.symm.trans reply'
        exact ⟨h _, owns, account⟩

/-- A step of a program leaves what is on record about another repository and a job of it. -/
theorem apart (h : Alike jobId repositoryId same p p') {jobId' repositoryId' : String}
    (jobs : jobId' ≠ jobId) (repositories : repositoryId' ≠ repositoryId)
    (step : Advances names answers p s q t) :
    t.account jobId' repositoryId' = s.account jobId' repositoryId' := by
  cases h with
  | done => cases step
  | store within h =>
    cases step with
    | performed now => exact Store.perform_apart within jobs repositories
  | call h =>
    cases step with
    | replied reply => rfl

/-- Programs that are alike stop alike. -/
theorem stops (h : Alike jobId repositoryId same p p') (stops : Stops answers p r)
    (stops' : Stops answers p' r') : Option.Rel same r r' := by
  cases h with
  | done h =>
    cases stops
    cases stops'
    exact .some h
  | store within h => cases stops
  | call h =>
    cases stops
    cases stops'
    exact .none

theorem stops_iff (h : Alike jobId repositoryId same p p') :
    (∃ r, Stops answers p r) ↔ ∃ r, Stops answers p' r := by
  cases h with
  | done => exact ⟨fun _ => ⟨_, .done⟩, fun _ => ⟨_, .done⟩⟩
  | store within h => exact ⟨nofun, nofun⟩
  | call h =>
    constructor
    · rintro ⟨r, ⟨⟩ | never⟩
      exact ⟨none, .never never⟩
    · rintro ⟨r, ⟨⟩ | never⟩
      exact ⟨none, .never never⟩

/-- Courses of programs that are alike end alike, as long as others leave alone what the programs look
at. -/
theorem goes {others others' : Store → Store → Prop}
    (hothers : ∀ s s', others s s' → s'.account jobId repositoryId = s.account jobId repositoryId)
    (hothers' : ∀ s s', others' s s' →
      s'.account jobId repositoryId = s.account jobId repositoryId)
    (h : Alike jobId repositoryId same p p') (owns : s.Owns jobId repositoryId)
    (account : s.account jobId repositoryId = s'.account jobId repositoryId)
    (course : Goes names answers others p s r t)
    (course' : Goes names' answers others' p' s' r' t') :
    t.account jobId repositoryId = t'.account jobId repositoryId ∧ Option.Rel same r r' := by
  induction course generalizing p' s' with
  | stops meanwhile stops =>
    cases course' with
    | stops meanwhile' stops' =>
      refine ⟨?_, h.stops stops stops'⟩
      rw [hothers _ _ meanwhile, hothers' _ _ meanwhile', account]
    | advances meanwhile' step' rest' =>
      obtain ⟨_, stops'⟩ := h.stops_iff.1 ⟨_, stops⟩
      exact (stops'.not_advances step').elim
  | advances meanwhile step rest ih =>
    cases course' with
    | stops meanwhile' stops' =>
      obtain ⟨_, stops⟩ := h.stops_iff.2 ⟨_, stops'⟩
      exact (stops.not_advances step).elim
    | advances meanwhile' step' rest' =>
      have owns := owns.of_account (hothers _ _ meanwhile)
      have account := (hothers _ _ meanwhile).trans (account.trans (hothers' _ _ meanwhile').symm)
      obtain ⟨h, owns, account⟩ := h.advances owns account step step'
      exact ih h owns account rest'

end Alike

namespace Duo

variable {jobId' repositoryId' : String} {same' : β → β → Prop}

/-- The two programs are about jobs of different repositories that are on record. -/
structure Apart (jobId repositoryId jobId' repositoryId' : String) (same : α → α → Prop)
    (same' : β → β → Prop) (d : Duo α β) : Prop where
  left : Alike jobId repositoryId same d.left d.left
  right : Alike jobId' repositoryId' same' d.right d.right
  ownsLeft : d.store.Owns jobId repositoryId
  ownsRight : d.store.Owns jobId' repositoryId'
  jobs : jobId ≠ jobId'
  repositories : repositoryId ≠ repositoryId'

namespace Apart

variable {d d' : Duo α β}

theorem swap (h : Apart jobId repositoryId jobId' repositoryId' same same' d) :
    Apart jobId' repositoryId' jobId repositoryId same' same d.swap :=
  ⟨h.right, h.left, h.ownsRight, h.ownsLeft, h.jobs.symm, h.repositories.symm⟩

theorem advance (h : Apart jobId repositoryId jobId' repositoryId' same same' d)
    {p : Program Effects α} {s : Store} (step : Advances names answers d.left d.store p s) :
    Apart jobId repositoryId jobId' repositoryId' same same' ⟨s, p, d.right⟩ ∧
      s.account jobId' repositoryId' = d.store.account jobId' repositoryId' := by
  have account := h.left.apart h.jobs.symm h.repositories.symm step
  obtain ⟨left, owns, -⟩ := h.left.advances h.ownsLeft rfl step step
  exact ⟨⟨left, h.right, owns, h.ownsRight.of_account account, h.jobs, h.repositories⟩, account⟩

/-- What the program on the left does in company is a course of its own. -/
theorem goes_left (h : Apart jobId repositoryId jobId' repositoryId' same same' d)
    (steps : Steps names answers d d') (stops : Stops answers d'.left r) :
    Goes names answers
      (fun s s' => s'.account jobId repositoryId = s.account jobId repositoryId)
      d.left d.store r d'.store := by
  induction steps using Relation.ReflTransGen.head_induction_on with
  | refl => exact .stops rfl stops
  | head step _ ih =>
    cases step with
    | left step => exact .advances rfl step (ih (h.advance step).1)
    | right step =>
      have moved := h.swap.advance step
      exact (ih moved.1.swap).before (fun _ _ _ first second => second.trans first) moved.2

/-- In company the program on the left comes to the same end as alone. -/
theorem same_alone (h : Apart jobId repositoryId jobId' repositoryId' same same' d)
    (steps : Steps names answers d d') (stops : Stops answers d'.left r) (names' : Naming)
    (clock : Nat → Instant) :
    let (result, s) := d.left.alone names' clock answers d.store 0
    d'.store.account jobId repositoryId = s.account jobId repositoryId ∧
      Option.Rel same r result :=
  h.left.goes (fun _ _ h => h) (fun _ _ (h : _ = _) => by rw [h]) h.ownsLeft rfl
    (h.goes_left steps stops) (goes_alone names' clock answers d.left d.store 0)

end Apart

end Duo

namespace Analysis

open Duo

/-- A run that came to a stop with this result, and this store after it, ended as it does alone: its
outcome is the same apart from what the report on the quality is called, and so is what is on record
about its job and its repository, apart from ids and times that were given on the way. -/
def EndsAsAlone (config : AnalysisConfig) (answers : Answers) (s : Store) (job : Job)
    (result : Option (Except AnalysisError Outcome)) (s' : Store) : Prop :=
  ∀ (names : Naming) (clock : Nat → Instant),
    let (alone, t) := (run config job.id).run.alone names clock answers s 0
    result.map (Except.map Outcome.unnamed) = alone.map (Except.map Outcome.unnamed) ∧
      s'.account job.id job.repositoryId = t.account job.id job.repositoryId

theorem map_unnamed_eq {r r' : Option (Except AnalysisError Outcome)}
    (h : Option.Rel (AgreeOn fun o o' => o.unnamed = o'.unnamed) r r') :
    r.map (Except.map Outcome.unnamed) = r'.map (Except.map Outcome.unnamed) := by
  cases h with
  | none => rfl
  | some h =>
    cases h with
    | ok h => exact congrArg (fun o => some (Except.ok o)) h
    | error e => rfl

section Jobs

variable {config : AnalysisConfig} {j k : Job}

/-- Programs about jobs of two repositories. -/
theorem apart_jobs {same' : β → β → Prop} {q : Program Effects β}
    (left : Alike j.id j.repositoryId same p p) (right : Alike k.id k.repositoryId same' q q)
    (hj : s.job? j.id = some j) (hk : s.job? k.id = some k)
    (repositories : j.repositoryId ≠ k.repositoryId) :
    Apart j.id j.repositoryId k.id k.repositoryId same same' ⟨s, p, q⟩ where
  left := left
  right := right
  ownsLeft := ⟨j, hj, rfl⟩
  ownsRight := ⟨k, hk, rfl⟩
  jobs same := repositories (by rw [Option.some.inj (hj.symm.trans (same ▸ hk))])
  repositories := repositories

/-- A run beside a program about a job of another repository ends as it does alone. -/
theorem ends_as_alone {same' : β → β → Prop} {q : Program Effects β}
    {d : Duo (Except AnalysisError Outcome) β} {result : Option (Except AnalysisError Outcome)}
    (apart : Apart j.id j.repositoryId k.id k.repositoryId
      (AgreeOn fun o o' => o.unnamed = o'.unnamed) same' ⟨s, (run config j.id).run, q⟩)
    (steps : Steps names answers ⟨s, (run config j.id).run, q⟩ d)
    (stops : Stops answers d.left result) : EndsAsAlone config answers s j result d.store := by
  intro names' clock
  obtain ⟨account, same⟩ := apart.same_alone steps stops names' clock
  exact ⟨map_unnamed_eq same, account⟩

end Jobs

/-- Runs of jobs of two repositories do not interfere, however they take turns: they can go on until both
have come to a stop, and as soon as one of them has, it ended as it does alone. -/
theorem runs_do_not_interfere {names : Naming} {answers : Answers} {config : AnalysisConfig}
    {s : Store} {j k : Job} (hj : s.job? j.id = some j) (hk : s.job? k.id = some k)
    (repositories : j.repositoryId ≠ k.repositoryId)
    {d : Duo (Except AnalysisError Outcome) (Except AnalysisError Outcome)}
    (steps : Steps names answers ⟨s, (run config j.id).run, (run config k.id).run⟩ d) :
    (∃ d' result result', Steps names answers d d' ∧ Stops answers d'.left result ∧
        Stops answers d'.right result') ∧
      (∀ result, Stops answers d.left result →
        EndsAsAlone config answers s j result d.store) ∧
      ∀ result, Stops answers d.right result →
        EndsAsAlone config answers s k result d.store := by
  have apart := apart_jobs (alike_run config j.id j.repositoryId)
    (alike_run config k.id k.repositoryId) hj hk repositories
  refine ⟨d.exists_stopped names answers, fun result stops => ?_, fun result stops => ?_⟩
  · exact ends_as_alone apart steps stops
  · exact ends_as_alone (d := d.swap) apart.swap steps.swap stops

/-- The job of one of two repositories. -/
def jobOf (id repositoryId : String) : Job :=
  { id, repositoryId, createdAt := ⟨0, 0⟩, updatedAt := ⟨0, 0⟩ }

/-- Two repositories with a job each, which is queued. -/
def twoJobs : Store where
  repositories :=
    [{ id := "r", url := "https://github.com/o/r", name := "r", owner := "o", createdAt := ⟨0, 0⟩ },
      { id := "q", url := "https://github.com/o/q", name := "q", owner := "o", createdAt := ⟨0, 0⟩ }]
  jobs := [jobOf "j" "r", jobOf "k" "q"]

/-- A source that never tells about the one repository, and does not have the other. -/
def silent : Answers
  | .metadata url =>
    if url = "https://github.com/o/r" then .never else .after 3 (.error (.notFound "gone"))
  | .file _ path => .after 0 (.error (.notFound path))
  | .quality _ | .readme _ | .apiDocs _ | .comments _ _ => .never

/-- While the run of one job waits without end, the run of the other one fails as it does alone. -/
theorem run_fails_beside_waiting_run :
    ∃ d, Steps .unary silent ⟨twoJobs, (run {} "j").run, (run {} "k").run⟩ d ∧
      Stops silent d.left none ∧
      Stops silent d.right (some (.error (.source .fetchStructure (.notFound "gone")))) ∧
      d.store.jobs.map (·.status) = [.processing, .failed] ∧
      EndsAsAlone {} silent twoJobs (jobOf "j" "r") none d.store ∧
      EndsAsAlone {} silent twoJobs (jobOf "k" "q")
        (some (.error (.source .fetchStructure (.notFound "gone")))) d.store := by
  let start : Duo (Except AnalysisError Outcome) (Except AnalysisError Outcome) :=
    ⟨twoJobs, (run {} "j").run, (run {} "k").run⟩
  have ends : ∃ d, Steps .unary silent start d ∧ Stops silent d.left none ∧
      Stops silent d.right (some (.error (.source .fetchStructure (.notFound "gone")))) ∧
      d.store.jobs.map (·.status) = [.processing, .failed] :=
    ⟨_, .head (.left (.performed ⟨1, 0⟩)) <| .head (.right (.performed ⟨2, 0⟩)) <|
      .head (.left (.performed ⟨3, 0⟩)) <| .head (.right (.performed ⟨4, 0⟩)) <|
      .head (.left (.performed ⟨5, 0⟩)) <| .head (.right (.performed ⟨6, 0⟩)) <|
      .head (.left (.performed ⟨7, 0⟩)) <| .head (.right (.performed ⟨8, 0⟩)) <|
      .head (.right (.performed ⟨9, 0⟩)) <| .head (.right (.replied rfl)) <|
      .head (.right (.performed ⟨10, 0⟩)) <| .head (.left (.performed ⟨11, 0⟩)) <|
      .head (.right (.performed ⟨12, 0⟩)) <| .head (.right (.performed ⟨13, 0⟩)) .refl,
      .never rfl, .done, rfl⟩
  obtain ⟨d, steps, left, right, hjobs⟩ := ends
  have apart : (jobOf "j" "r").repositoryId ≠ (jobOf "k" "q").repositoryId := by decide
  obtain ⟨-, ofLeft, ofRight⟩ := runs_do_not_interfere rfl rfl apart steps
  exact ⟨d, steps, left, right, hjobs, ofLeft _ left, ofRight _ right⟩

/-- The background run of a job is alike as far as the store is concerned. -/
theorem alike_background (config : AnalysisConfig) (jobId repositoryId : String) :
    Alike jobId repositoryId Eq (background config jobId) (background config jobId) :=
  (alike_run config jobId repositoryId).bind fun _ _ _ => .pure rfl

/-- In an engine a run that comes to its end ends as it does alone, whether or not the run of a job of
another repository is under way in the background; and if that one has ended by then, what is on record
about its job and its repository is what it leaves there alone. -/
theorem front_run_ends_as_alone {w : World σ} {answers : Answers} (answering : w.Answering answers)
    {config : AnalysisConfig} {e : Engine σ} {j k : Job} (hj : e.store.job? j.id = some j)
    (hk : e.store.job? k.id = some k) (repositories : j.repositoryId ≠ k.repositoryId)
    (beside : e.Beside (background config k.id)) (limit : Nat) :
    let (result, e') := e.run w (background config) limit (run config j.id).run.lift
    (result.isSome → EndsAsAlone config answers e.store j result e'.store) ∧
      (e'.Alone → ∀ (names : Naming) (clock : Nat → Instant),
        e'.store.account k.id k.repositoryId =
          ((background config k.id).alone names clock answers e.store 0).2.account
            k.id k.repositoryId) := by
  have apart := apart_jobs (alike_run config j.id j.repositoryId)
    (alike_background config k.id k.repositoryId) hj hk repositories
  have arrives := beside.run answering (background config) limit (run config j.id).run
  generalize e.run w (background config) limit (run config j.id).run.lift = r at arrives ⊢
  obtain ⟨result, e'⟩ := r
  obtain ⟨p, q, beside, steps, ended⟩ := arrives
  constructor
  · intro some
    obtain ⟨x, rfl⟩ := Option.isSome_iff_exists.1 some
    obtain rfl := ended x rfl
    exact ends_as_alone apart steps .done
  · intro alone names clock
    obtain rfl := beside.eq_done alone
    exact (apart.swap.same_alone steps.swap .done names clock).1

end Analysis

end RepoDocs
