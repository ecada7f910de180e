import RepoDocs.Proofs.Analysis.Attending
import RepoDocs.Proofs.Analysis.Generation
import RepoDocs.Proofs.Job.Course

/-! An analysis that is the only one: nothing else is on record, and nothing else is under way.  Its run
works on the repository and the job that the submission put on record, and leaves a job that has ended,
however its calls go. -/

namespace RepoDocs

open Program

/-- The calls that a run of an analysis makes. -/
def Call.Analyzes : Call → Prop
  | metadata _ | file _ _ | quality _ => True
  | readme _ | apiDocs _ | comments _ _ => False

/-- A request that is a call of an analysis. -/
def Effect.Analyzes : Effect → Prop
  | store _ => False
  | call c _ => c.Analyzes

namespace Analysis

/-- All that is on record is the repository and the job of a submission, as they are by now, and
documentation of the repository. -/
structure Submission.Sole (sub : Submission) (s : Store) (r : Repository) (j : Job) : Prop where
  repositories : s.repositories = [r]
  jobs : s.jobs = [j]
  repository : r.id = sub.repository.id
  url : r.url = sub.repository.url
  job : j.id = sub.job.id
  owner : j.repositoryId = sub.repository.id
  documentation : ∀ d ∈ s.documentation, d.repositoryId = sub.repository.id

namespace Submission

variable {sub : Submission} {s : Store} {r : Repository} {j : Job}

namespace Sole

variable (h : sub.Sole s r j)
include h

theorem job? : s.job? sub.job.id = some j := by
  rw [Store.job?, h.jobs, List.find?_cons_of_pos (by simpa using h.job)]

theorem repository? : s.repository? sub.repository.id = some r := by
  rw [Store.repository?, h.repositories, List.find?_cons_of_pos (by simpa using h.repository)]

theorem currentJob? : s.currentJob? sub.repository.id = some j := by
  rw [Store.currentJob?, h.jobs, List.findRev?_eq_find?_reverse, List.reverse_singleton,
    List.find?_cons_of_pos (by simpa using h.owner)]

theorem documentationOf : s.documentationOf sub.repository.id none = s.documentation :=
  List.filter_eq_self.2 fun d hd => by simp [h.documentation d hd]

theorem updateJob (now : Instant) (u : JobUpdate) :
    sub.Sole (s.updateJob sub.job.id now u).2 r (u.apply now j) := by
  rw [Store.updateJob_some h.job?]
  refine { h with jobs := ?_, job := h.job, owner := h.owner }
  simp [Store.modifyWhere, h.jobs, h.job]

theorem updateRepository (u : RepositoryUpdate) :
    sub.Sole (s.updateRepository sub.repository.id u).2 (u.apply r) j := by
  rw [Store.updateRepository_some h.repository?]
  refine { h with repositories := ?_, repository := h.repository, url := h.url }
  simp [Store.modifyWhere, h.repositories, h.repository]

theorem createDocumentation (id : String) (now : Instant) {new : NewDocumentation}
    (owner : new.repositoryId = sub.repository.id) :
    sub.Sole (s.createDocumentation id now new).2 r j := by
  refine { h with documentation := List.forall_mem_append.2 ⟨h.documentation, ?_⟩ }
  exact List.forall_mem_singleton.2 owner

end Sole

/-- The job of a submission is at work. -/
def Live (sub : Submission) (s : Store) : Prop := ∃ r j, sub.Sole s r j ∧ j.isTerminal = false

/-- The job of a submission has ended. -/
def Over (sub : Submission) (s : Store) : Prop := ∃ r j, sub.Sole s r j ∧ j.isTerminal = true

/-- The run of a submission, and what its calls are to keep of the surroundings. -/
def charge (sub : Submission) (kept : σ → Prop) : Charge σ where
  job := sub.job.id
  live := sub.Live
  closed := sub.Over
  may := Call.Analyzes
  kept := kept

theorem charge_shownBy (sub : Submission) (kept : σ → Prop) :
    (sub.charge kept).ShownBy sub.repository.id where
  live := by
    rintro s ⟨r, j, sole, live⟩
    exact ⟨j, sole.currentJob?, live⟩
  closed := by
    rintro s ⟨r, j, sole, terminal⟩
    exact ⟨j, sole.currentJob?, terminal⟩

/-! ### The parts of the run -/

variable {names : Naming} {config : AnalysisConfig}

/-- What holds at the requests of the run. -/
abbrev rule (sub : Submission) (names : Naming) : Rule Effects Store :=
  tending names sub.Live Call.Analyzes

theorem keeps_onRecord {c : StoreCall}
    (same : ∀ s now, sub.Live s → sub.Live (s.perform names now c).2) :
    (onRecord c).run.Keeps (sub.rule names) sub.Live := by
  intro s live
  rw [wp_onRecord]
  exact fun now => same s now live

theorem keeps_createDocumentation {new : NewDocumentation}
    (owner : new.repositoryId = sub.repository.id) :
    (onRecord (.createDocumentation new)).run.Keeps (sub.rule names) sub.Live := by
  refine keeps_onRecord ?_
  rintro s now ⟨r, j, sole, live⟩
  exact ⟨r, j, sole.createDocumentation _ now owner, live⟩

theorem keeps_of_asks {x : Program Effects α} (h : x.Asks Effect.Analyzes) :
    x.Keeps (sub.rule names) sub.Live := by
  refine h.keeps fun r hr post hpost s live => ?_
  cases r with
  | store c => exact hr.elim
  | call c deadline? => exact ⟨live, hr, fun reply => hpost reply s live⟩

/-- What comes after a change of the repository goes on with that repository. -/
theorem wp_updateRepository {f : Repository → Attempt AnalysisError Effects α}
    {post : Except AnalysisError α → Store → Prop} (live : sub.Live s) (u : RepositoryUpdate)
    (ok : ∀ r s, sub.Live s → r.id = sub.repository.id → (f r).run.wp (sub.rule names) post s) :
    (onRecord (.updateRepository sub.repository.id u) >>= f).run.wp (sub.rule names) post s := by
  obtain ⟨r, j, sole, isLive⟩ := live
  rw [wp_run_bind, wp_onRecord]
  intro now
  have changed := sole.updateRepository u
  rw [Store.perform, Store.updateRepository_some sole.repository?] at *
  exact ok _ _ ⟨_, j, changed, isLive⟩ sole.repository

/-- A job that is moved to a checkpoint is at work until the last one. -/
theorem wp_advance (live : sub.Live s) (c : Checkpoint) :
    (advance sub.job.id c).run.wp (sub.rule names) (fun
      | .ok _ => if c.status.isTerminal then sub.Over else sub.Live
      | .error _ => sub.Live) s := by
  obtain ⟨r, j, sole, isLive⟩ := live
  rw [Analysis.wp_advance]
  intro now
  simp only [Store.perform, sole.job?, loaded]
  cases plan : j.planCheckpoint c with
  | error e => exact ⟨r, j, sole, isLive⟩
  | ok u =>
    intro now
    obtain ⟨-, -, rfl⟩ := Job.planCheckpoint_eq_ok.1 plan
    have moved := sole.updateJob now
      { status? := some c.status, percent? := some c.percent, currentFile? := some c.label }
    rw [Store.perform, Store.updateJob_some sole.job?] at *
    dsimp only [Except.mapError]
    cases last : c.status.isTerminal with
    | true => exact ⟨r, _, moved, last⟩
    | false => exact ⟨r, _, moved, last⟩

theorem keeps_advance {c : Checkpoint} (h : c.status.isTerminal = false) :
    (advance sub.job.id c).run.Keeps (sub.rule names) sub.Live := by
  intro s live
  refine wp_mono (tending_mono _ _ _) (fun x s hx => ?_) _ _ (wp_advance live c)
  rcases x with e | j
  · exact hx
  · simpa [h] using hx

/-- A run that fails ends its job. -/
theorem wp_fail (live : sub.Live s) (cause : AnalysisError) :
    (fail sub.job.id sub.repository.id cause).wp (sub.rule names) (fun _ => sub.Over) s := by
  obtain ⟨r, j, sole, isLive⟩ := live
  rw [Analysis.wp_fail]
  intro now
  simp only [Store.perform, sole.job?, loaded]
  have plan : j.planFailure cause.message =
      .ok { status? := some .failed, error? := some cause.message } :=
    Job.planFailure_eq_ok.2 ⟨JobStatus.mayBecome_failed isLive, rfl⟩
  rw [plan]
  intro now now'
  exact ⟨_, _, (sole.updateJob now _).updateRepository _, rfl⟩

/-- The analysis of a repository leaves its job at work where it fails, and ended where it does not. -/
theorem wp_execute (live : sub.Live s) {r : Repository} (own : r.id = sub.repository.id) :
    (execute config sub.job.id r).run.wp (sub.rule names) (fun
      | .ok _ => sub.Over
      | .error _ => sub.Live) s := by
  have mono : (sub.rule names).Mono := tending_mono _ _ _
  have fails (_ : AnalysisError) (s : Store) (live : sub.Live s) := live
  have fetched (url : String) (paths : List String) :
      (fetchMany url config.deadline? paths).Keeps (sub.rule names) sub.Live :=
    keeps_of_asks (asks_fetchMany (fun _ => trivial) paths)
  refine (keeps_advance rfl).wp_run_bind mono live fails fun _ s live => ?_
  rw [own]
  refine wp_updateRepository live _ fun _ s live _ => ?_
  refine (keeps_of_asks (asks_fetchMetadata trivial)).wp_run_bind mono live fails fun m s live => ?_
  refine wp_updateRepository live _ fun r s live own => ?_
  refine (keeps_advance rfl).wp_run_bind mono live fails fun _ s live => ?_
  refine ((fetched r.url _).run_lift mono).wp_run_bind mono live fails fun files s live => ?_
  refine (keeps_advance rfl).wp_run_bind mono live fails fun _ s live => ?_
  refine (keeps_of_asks (asks_reportQuality trivial)).wp_run_bind mono live fails
    fun report s live => ?_
  refine (keeps_advance rfl).wp_run_bind mono live fails fun _ s live => ?_
  refine (keeps_createDocumentation own).wp_run_bind mono live fails fun d s live => ?_
  rw [own]
  refine wp_updateRepository live _ fun r s live _ => ?_
  rw [wp_run_bind]
  refine wp_mono mono (fun x s hx => ?_) _ _ (wp_advance live .completed)
  cases x <;> exact hx

/-- However its calls go, the run works on a job that has not ended, and leaves one that has. -/
theorem wp_background (live : sub.Live s) :
    (background config sub.job.id).wp (sub.rule names) (fun _ => sub.Over) s := by
  rw [background, wp_bind]
  suffices ended : (run config sub.job.id).run.wp (sub.rule names) (fun _ => sub.Over) s from ended
  have ⟨r, j, sole, _⟩ := live
  rw [wp_run]
  intro now
  simp only [Store.perform, sole.job?, loaded]
  intro now
  rw [sole.owner]
  simp only [Store.perform, sole.repository?]
  refine wp_mono (tending_mono _ _ _) (fun x s hx => ?_) _ _ (wp_execute live sole.repository)
  rcases x with e | o
  · rw [sole.repository]
    exact wp_fail hx e
  · exact hx

/-! ### Documentation of the repository -/

/-- A request for documentation replies what it has put on record, and leaves the job as it is. -/
theorem wp_generate (names : Naming) (config : AnalysisConfig) (sole : sub.Sole s r j)
    (kind : DocumentationKind) :
    (generate config sub.repository.id kind).run.wp (tending names (sub.Sole · r j) fun _ => True)
      (fun x s => sub.Sole s r j ∧ ∀ d, x = .ok d → d ∈ s.documentation ∧ d.kind = kind) s := by
  have mono := tending_mono names (sub.Sole · r j) fun _ => True
  have drafted : (draft config kind r).run.Keeps (tending names (sub.Sole · r j) fun _ => True)
      (sub.Sole · r j) := by
    refine (asks_draft config kind r).keeps fun request isCall post hpost s sole => ?_
    cases request with
    | store c => exact isCall.elim
    | call c deadline? => exact ⟨sole, trivial, fun reply => hpost reply s sole⟩
  rw [generate_eq, wp_run_bind, run_repositoryFor]
  intro now
  simp only [Store.perform, sole.repository?, found]
  refine drafted.wp_run_bind mono sole (fun e s sole => ⟨sole, ?_⟩) fun d s sole => ?_
  · rintro d ⟨⟩
  rw [putDraft, run_kept]
  intro now
  refine ⟨sole.createDocumentation _ now sole.repository, ?_⟩
  rintro _ ⟨⟩
  exact ⟨List.mem_append_right _ List.mem_cons_self, rfl⟩

end Submission

/-! ### In front of the run -/

variable {w : World σ} (steady : w.Steady) (background : String → Program Effects Unit) (limit : Nat)

/-- The submission of an address where nothing is on record. -/
def firstSubmission (names : Naming) (now : Instant) (url : String) (c : Coordinates) : Submission where
  repository :=
    { id := names.repository 0, url := Text.trimmed url, name := c.name, owner := c.owner
      createdAt := now }
  job := { id := names.job 0, repositoryId := names.repository 0, createdAt := now, updatedAt := now }
  started := true

/-- The engine after a first submission, with a run that is about to begin. -/
def Submission.engine (sub : Submission) (background : String → Program Effects Unit) (world : σ) :
    Engine σ where
  world
  store := { repositories := [sub.repository], jobs := [sub.job] }
  registered := [sub.job.id]
  ready := [⟨sub.job.id, background sub.job.id⟩]

theorem live_firstSubmission (names : Naming) (now : Instant) (url : String) (c : Coordinates) :
    let sub := firstSubmission names now url c
    sub.Live { repositories := [sub.repository], jobs := [sub.job] } :=
  ⟨_, _, ⟨rfl, rfl, rfl, rfl, rfl, rfl, List.forall_mem_nil _⟩, rfl⟩

/-- The engine after a first submission tends its run. -/
theorem tended_firstSubmission (config : AnalysisConfig) (now : Instant) (url : String)
    (c : Coordinates) {kept : σ → Prop} {world : σ} (h : kept world) :
    let sub := firstSubmission w.names now url c
    (sub.engine (Analysis.background config) world).Tended w (sub.charge kept) :=
  have live := live_firstSubmission w.names now url c
  .ready rfl rfl rfl live (Submission.wp_background live) h

include steady

/-- An operation of the store is carried out at once. -/
theorem run_recorded (call : StoreCall) (e : Engine σ) :
    e.run w background limit (recorded call).run =
      (some ((e.store.perform w.names (w.now e.world) call).1.mapError .store),
        { e with store := (e.store.perform w.names (w.now e.world) call).2 }) := by
  have asked : (recorded call).run = .ask (.effect (.store call)) fun x =>
      .done (x.mapError AnalysisError.store) := by
    change Program.ask (S := Controls) (.effect (.store call)) _ = _
    congr 1
    funext x
    cases x <;> rfl
  rw [asked, Engine.run, Engine.begin_store, Engine.performStore_of_steady steady]
  rfl

/-- A first submission puts a repository and a job on record, and starts its run. -/
theorem run_submit {url : String} {c : Coordinates} (parsed : Coordinates.parse url = .ok c)
    (world : σ) :
    Engine.run w background limit (submit url).run { world } =
      (some (.ok (firstSubmission w.names (w.now world) url c)),
        (firstSubmission w.names (w.now world) url c).engine background world) := by
  let r := (firstSubmission w.names (w.now world) url c).repository
  have ensured : Engine.run w background limit (ensureRepository (Text.trimmed url) c).run { world } =
      (some (.ok r), { world, store := { repositories := [r] } }) := by
    rw [ensureRepository, Engine.run_attempt_bind, run_recorded steady]
    exact run_recorded steady background limit _ _
  rw [submit, parsed]
  dsimp only
  rw [Engine.run_attempt_bind, ensured]
  dsimp only
  rw [Engine.run_attempt_bind, run_recorded steady]
  have current : Store.currentJob? { repositories := [r] } r.id = none := rfl
  simp only [Store.perform, current, Except.mapError]
  rw [startJob, Engine.run_attempt_bind, run_recorded steady]
  rfl

/-- Where no run is registered, a job that has ended need not be waited for. -/
theorem run_join {e : Engine σ} {id : String} {j : Job} (unregistered : e.registered = [])
    (job : e.store.job? id = some j) (terminal : j.isTerminal = true) :
    e.run w background limit (join id).run = (some (.ok ()), e) := by
  have absent : e.run w background limit (Program.request (S := Controls) (.join id)) =
      (some false, e) := by
    rw [Program.request, Engine.run, unregistered]
    rfl
  rw [join, Engine.run_attempt_bind, Engine.run_attempt_lift, absent]
  dsimp only
  rw [if_neg Bool.false_ne_true, Engine.run_attempt_bind, run_recorded steady]
  simp only [Store.perform, job, Except.mapError, terminal, if_true]
  rfl

/-- The detail of the repository is all that is on record. -/
theorem run_detail {sub : Submission} {e : Engine σ} {r : Repository} {j : Job}
    (sole : sub.Sole e.store r j) :
    e.run w background limit (detail sub.repository.id).run =
      (some (.ok ⟨r, some j, e.store.documentation⟩), e) := by
  rw [detail, Engine.run_attempt_bind, run_recorded steady]
  simp only [Store.perform, sole.repository?, Except.mapError]
  rw [Engine.run_attempt_bind, run_recorded steady]
  simp only [Store.perform, sole.currentJob?, Except.mapError]
  rw [Engine.run_attempt_bind, run_recorded steady]
  simp only [Store.perform, sole.documentationOf, Except.mapError]
  rfl

end Analysis

end RepoDocs
