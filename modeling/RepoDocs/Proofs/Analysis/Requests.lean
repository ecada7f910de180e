import RepoDocs.Proofs.Process.Weakest
import RepoDocs.Proofs.Session.Basic
import RepoDocs.Proofs.Store.Records

/-! What the parts of an analysis ask for.  The parts that work on the store are given by what has to
hold before them, the others by the requests they make: those are mild, which means that they change
neither repositories nor jobs. -/

namespace RepoDocs

/-- A request that changes neither repositories nor jobs. -/
def Effect.Mild : Effect → Prop
  | store c => c.Mild
  | call _ _ => True

/-- A request that is none of the store. -/
def Effect.IsCall : Effect → Prop
  | store _ => False
  | call _ _ => True

theorem Program.Asks.mild {x : Program Effects α} (h : x.Asks Effect.IsCall) :
    x.Asks Effect.Mild :=
  h.mono fun e he => by
    cases e with
    | store c => exact he.elim
    | call c deadline? => exact trivial

/-- An operation of the store that creates no job. -/
def StoreCall.CreatesNoJob : StoreCall → Prop
  | createJob _ => False
  | _ => True

/-- A request that creates no job. -/
def Effect.CreatesNoJob : Effect → Prop
  | store c => c.CreatesNoJob
  | call _ _ => True

/-- A request that changes neither repositories nor jobs and starts no run. -/
def Control.Mild : Control → Prop
  | effect e => e.Mild
  | start _ => False
  | _ => True

/-- The requests that a submission makes. -/
def Control.Submits : Control → Prop
  | effect (.store (.getRepositoryByUrl _)) | effect (.store (.createRepository _))
  | effect (.store (.currentJob _)) | effect (.store (.createJob _)) | start _ => True
  | _ => False

namespace Analysis

open Program

variable {τ : Type}

/-! ### Work on the store -/

section Rules

variable (rule : Rule Effects τ)

theorem wp_stored (c : StoreCall) (post : Except StoreError c.Reply → τ → Prop) :
    (stored c).wp rule post = rule (.store c) post := rfl

theorem wp_onRecord (c : StoreCall) (post : Except AnalysisError c.Reply → τ → Prop) :
    (onRecord c).run.wp rule post =
      rule (.store c) fun x => post (x.mapError AnalysisError.store) := by
  rw [onRecord, wp_run_bind, wp_run_lift, wp_stored]
  congr 1
  funext x
  cases x <;> rfl

/-- What loading a record comes to. -/
def loaded (absent : AnalysisError) : Except StoreError (Option α) → Except AnalysisError α
  | .ok (some a) => .ok a
  | .ok none => .error absent
  | .error e => .error (.store e)

theorem wp_loadJob (id : String) (post : Except AnalysisError Job → τ → Prop) :
    (loadJob id).run.wp rule post =
      rule (.store (.getJob id)) fun x => post (loaded (.jobNotFound id) x) := by
  rw [loadJob, wp_run_bind, wp_onRecord]
  congr 1
  funext x
  rcases x with e | (_ | j) <;> rfl

theorem wp_loadRepository (id : String) (post : Except AnalysisError Repository → τ → Prop) :
    (loadRepository id).run.wp rule post =
      rule (.store (.getRepository id)) fun x => post (loaded (.repositoryNotFound id) x) := by
  rw [loadRepository, wp_run_bind, wp_onRecord]
  congr 1
  funext x
  rcases x with e | (_ | r) <;> rfl

theorem wp_advance (id : String) (c : Checkpoint) (post : Except AnalysisError Job → τ → Prop) :
    (advance id c).run.wp rule post =
      rule (.store (.getJob id)) fun x =>
        match loaded (.jobNotFound id) x with
        | .error e => post (.error e)
        | .ok job =>
          match job.planCheckpoint c with
          | .error r => post (.error (.refused r))
          | .ok update =>
            rule (.store (.updateJob id update)) fun x => post (x.mapError .store) := by
  rw [advance, wp_run_bind, wp_loadJob]
  congr 1
  funext x
  cases loaded (.jobNotFound id) x with
  | error e => rfl
  | ok job =>
    dsimp only
    cases job.planCheckpoint c with
    | error r => rfl
    | ok update => exact wp_onRecord rule _ _

theorem wp_fail (jobId repositoryId : String) (cause : AnalysisError) (post : Unit → τ → Prop) :
    (fail jobId repositoryId cause).wp rule post =
      rule (.store (.getJob jobId)) fun x =>
        match loaded (.jobNotFound jobId) x with
        | .error _ => post ()
        | .ok job =>
          match job.planFailure cause.message with
          | .error _ => post ()
          | .ok update =>
            rule (.store (.updateJob jobId update)) fun _ =>
              rule (.store (.updateRepository repositoryId (.ofStatus .failed))) fun _ =>
                post () := by
  rw [fail, wp_bind, wp_loadJob]
  congr 1
  funext x
  cases loaded (.jobNotFound jobId) x with
  | error e => rfl
  | ok job =>
    dsimp only
    cases job.planFailure cause.message with
    | error r => rfl
    | ok update => rfl

/-- A run loads its job and its repository and then works, and only what fails after that is
marked. -/
theorem wp_run (config : AnalysisConfig) (id : String)
    (post : Except AnalysisError Outcome → τ → Prop) :
    (run config id).run.wp rule post =
      rule (.store (.getJob id)) fun x =>
        match loaded (.jobNotFound id) x with
        | .error e => post (.error e)
        | .ok job =>
          rule (.store (.getRepository job.repositoryId)) fun x =>
            match loaded (.repositoryNotFound job.repositoryId) x with
            | .error e => post (.error e)
            | .ok r =>
              (execute config id r).run.wp rule fun
                | .ok o => post (.ok o)
                | .error e => (fail id r.id e).wp rule fun _ => post (.error e) := by
  rw [run, wp_run_bind, wp_loadJob]
  congr 1
  funext x
  cases loaded (.jobNotFound id) x with
  | error e => rfl
  | ok job =>
    dsimp only
    rw [wp_run_bind, wp_loadRepository]
    congr 1
    funext x
    cases loaded (.repositoryNotFound job.repositoryId) x with
    | error e => rfl
    | ok r =>
      dsimp only
      rw [wp_run_tryCatch]
      congr 1
      funext x
      cases x with
      | ok o => rfl
      | error e =>
        dsimp only
        rw [wp_run_bind, wp_run_lift]
        rfl

theorem wp_called (call : Call) (deadline? : Option Nat) (late : call.Reply)
    (post : call.Reply → τ → Prop) :
    (called call deadline? late).wp rule post =
      rule (.call call deadline?) fun x => post (x.getD late) := rfl

theorem wp_fetchMetadata (config : AnalysisConfig) (url : String)
    (post : Except AnalysisError RepositoryMetadata → τ → Prop) :
    (fetchMetadata config url).run.wp rule post =
      rule (.call (.metadata url) config.deadline?) fun x =>
        post ((x.getD (.error (.timeout "fetching repository metadata"))).mapError
          (.source .fetchStructure)) := by
  rw [fetchMetadata, wp_run_bind, wp_run_lift, wp_called]
  congr 1
  funext x
  cases x.getD (.error (.timeout "fetching repository metadata")) <;> rfl

theorem wp_reportQuality (config : AnalysisConfig) (files : List SourceFile)
    (post : Except AnalysisError QualityReport → τ → Prop) :
    (reportQuality config files).run.wp rule post =
      rule (.call (.quality files) config.deadline?) fun x =>
        post ((x.getD (.error ⟨"analyze code quality", "timed out"⟩)).mapError
          (.synthesis .qualityScan)) := by
  rw [reportQuality, wp_run_bind, wp_run_lift, wp_called]
  congr 1
  funext x
  cases x.getD (.error ⟨"analyze code quality", "timed out"⟩) <;> rfl

end Rules

/-! ### Work that leaves repositories and jobs alone -/

theorem asks_stored {p : Effect → Prop} {c : StoreCall} (h : p (.store c)) : (stored c).Asks p :=
  Asks.request h

theorem asks_onRecord {p : Effect → Prop} {c : StoreCall} (h : p (.store c)) :
    (onRecord c).run.Asks p :=
  (asks_stored h).run_lift.run_bind fun x => by cases x <;> exact Asks.pure _

theorem asks_loadJob {p : Effect → Prop} {id : String} (h : p (.store (.getJob id))) :
    (loadJob id).run.Asks p :=
  (asks_onRecord h).run_bind fun x => by cases x <;> exact Asks.pure _

theorem asks_loadRepository {p : Effect → Prop} {id : String}
    (h : p (.store (.getRepository id))) : (loadRepository id).run.Asks p :=
  (asks_onRecord h).run_bind fun x => by cases x <;> exact Asks.pure _

theorem asks_advance {p : Effect → Prop} {id : String} {c : Checkpoint}
    (get : p (.store (.getJob id))) (update : ∀ u, p (.store (.updateJob id u))) :
    (advance id c).run.Asks p := by
  refine (asks_loadJob get).run_bind fun job => ?_
  cases job.planCheckpoint c with
  | ok u => exact asks_onRecord (update u)
  | error r => exact Asks.pure _

theorem asks_fail {p : Effect → Prop} {jobId repositoryId : String}
    (get : p (.store (.getJob jobId))) (job : ∀ u, p (.store (.updateJob jobId u)))
    (repository : ∀ u, p (.store (.updateRepository repositoryId u))) (cause : AnalysisError) :
    (fail jobId repositoryId cause).Asks p := by
  refine (asks_loadJob get).bind fun x => ?_
  cases x with
  | error e => exact Asks.pure _
  | ok j =>
    dsimp only
    cases j.planFailure cause.message with
    | error r => exact Asks.pure _
    | ok u =>
      exact (asks_stored (job u)).bind fun _ => (asks_stored (repository _)).bind fun _ =>
        Asks.pure _

theorem asks_called {p : Effect → Prop} {call : Call} {deadline? : Option Nat} {late : call.Reply}
    (h : p (.call call deadline?)) : (called call deadline? late).Asks p :=
  (Asks.request h).bind fun _ => Asks.pure _

theorem asks_fetchMany {p : Effect → Prop} {url : String} {deadline? : Option Nat}
    (h : ∀ path, p (.call (.file url path) deadline?)) (paths : List String) :
    (fetchMany url deadline? paths).Asks p := by
  induction paths with
  | nil => exact Asks.pure _
  | cons path rest ih =>
    refine (asks_called (h path)).bind fun content => ih.bind fun files => ?_
    cases content <;> exact Asks.pure _

theorem asks_fetchMetadata {p : Effect → Prop} {config : AnalysisConfig} {url : String}
    (h : p (.call (.metadata url) config.deadline?)) : (fetchMetadata config url).run.Asks p :=
  (asks_called h).run_lift.run_bind fun x => by cases x <;> exact Asks.pure _

theorem asks_reportQuality {p : Effect → Prop} {config : AnalysisConfig} {files : List SourceFile}
    (h : p (.call (.quality files) config.deadline?)) : (reportQuality config files).run.Asks p :=
  (asks_called h).run_lift.run_bind fun x => by cases x <;> exact Asks.pure _

/-- A run creates no job, and each call of it has the deadline that the configuration says. -/
theorem asks_run_of {p : Effect → Prop} (config : AnalysisConfig)
    (store : ∀ c : StoreCall, c.CreatesNoJob → p (.store c))
    (call : ∀ c, p (.call c config.deadline?)) (jobId : String) :
    (run config jobId).run.Asks p := by
  have advanced (c : Checkpoint) : (advance jobId c).run.Asks p :=
    asks_advance (store _ trivial) fun _ => store _ trivial
  have changed (id : String) (u : RepositoryUpdate) :
      (onRecord (.updateRepository id u)).run.Asks p :=
    asks_onRecord (store _ trivial)
  have kept (new : NewDocumentation) : (onRecord (.createDocumentation new)).run.Asks p :=
    asks_onRecord (store _ trivial)
  refine (asks_loadJob (store _ trivial)).run_bind fun job => ?_
  refine (asks_loadRepository (store _ trivial)).run_bind fun r => ?_
  refine Asks.run_tryCatch ?_ fun e => ?_
  · refine (advanced _).run_bind fun _ => ?_
    refine (changed _ _).run_bind fun _ => ?_
    refine (asks_fetchMetadata (call _)).run_bind fun m => ?_
    refine (changed _ _).run_bind fun r => ?_
    refine (advanced _).run_bind fun _ => ?_
    refine (asks_fetchMany (fun _ => call _) _).run_lift.run_bind fun files => ?_
    refine (advanced _).run_bind fun _ => ?_
    refine (asks_reportQuality (call _)).run_bind fun report => ?_
    refine (advanced _).run_bind fun _ => ?_
    refine (kept _).run_bind fun d => ?_
    refine (changed _ _).run_bind fun r => ?_
    exact (advanced _).run_bind fun _ => Asks.pure _
  · refine Asks.run_bind (Asks.run_lift ?_) fun _ => Asks.pure _
    exact asks_fail (store _ trivial) (fun _ => store _ trivial) (fun _ => store _ trivial) e

/-- Each call of a run has the deadline that the configuration says. -/
theorem asks_run {p : Effect → Prop} (config : AnalysisConfig) (store : ∀ c, p (.store c))
    (call : ∀ c, p (.call c config.deadline?)) (jobId : String) :
    (run config jobId).run.Asks p :=
  asks_run_of config (fun c _ => store c) call jobId

theorem asks_background (config : AnalysisConfig) (jobId : String) :
    (background config jobId).Asks Effect.CreatesNoJob :=
  (asks_run_of config (fun _ h => h) (fun _ => trivial) jobId).bind fun _ => Asks.pure _

theorem asks_kept {c : StoreCall} (h : c.Mild) : (kept c).run.Asks Effect.Mild :=
  (asks_stored h).run_lift.run_bind fun x => by cases x <;> exact Asks.pure _

theorem asks_repositoryFor (id : String) : (repositoryFor id).run.Asks Effect.Mild :=
  (asks_kept (c := .getRepository id) trivial).run_bind fun x => by cases x <;> exact Asks.pure _

theorem asks_written (x : Except SynthesisError α) : (written x).run.Asks Effect.IsCall := by
  cases x <;> exact Asks.pure _

theorem asks_suggestAll (config : AnalysisConfig) (files : List SourceFile) :
    (suggestAll config files).run.Asks Effect.IsCall := by
  induction files with
  | nil => exact Asks.pure _
  | cons f rest ih =>
    refine (asks_called (p := Effect.IsCall) trivial).run_lift.run_bind fun x => ?_
    exact (asks_written x).run_bind fun _ => ih.run_bind fun _ => Asks.pure _

theorem asks_draftReadme (config : AnalysisConfig) (r : Repository) (mainFiles : List String) :
    (draftReadme config r mainFiles).run.Asks Effect.IsCall :=
  (asks_called (p := Effect.IsCall) trivial).run_lift.run_bind fun x =>
    (asks_written x).run_bind fun _ => Asks.pure _

theorem asks_draftApi (config : AnalysisConfig) (r : Repository) (mainFiles : List String) :
    (draftApi config r mainFiles).run.Asks Effect.IsCall := by
  refine (asks_fetchMany (p := Effect.IsCall) (fun _ => trivial) _).run_lift.run_bind fun files => ?_
  exact (asks_called (p := Effect.IsCall) trivial).run_lift.run_bind fun x =>
    (asks_written x).run_bind fun _ => Asks.pure _

theorem asks_draftComments (config : AnalysisConfig) (r : Repository) (mainFiles : List String) :
    (draftComments config r mainFiles).run.Asks Effect.IsCall := by
  refine (asks_fetchMany (p := Effect.IsCall) (fun _ => trivial) _).run_lift.run_bind fun files => ?_
  exact (asks_suggestAll config files).run_bind fun _ => Asks.pure _

theorem asks_generate (config : AnalysisConfig) (id : String) (kind : DocumentationKind) :
    (generate config id kind).run.Asks Effect.Mild := by
  refine (asks_repositoryFor id).run_bind fun r => ?_
  have put (draft : Draft) := asks_kept (c := .createDocumentation
    { repositoryId := r.id, kind, content := draft.content, metadata := draft.metadata }) trivial
  cases kind with
  | readme => exact (asks_draftReadme config r _).mild.run_bind put
  | api => exact (asks_draftApi config r _).mild.run_bind put
  | comments => exact (asks_draftComments config r _).mild.run_bind put
  | quality => exact Asks.pure _

theorem asks_fileContent (config : AnalysisConfig) (id path : String) :
    (fileContent config id path).run.Asks Effect.Mild :=
  (asks_repositoryFor id).run_bind fun _ => (asks_called trivial).run_lift.run_bind fun x => by
    cases x <;> exact Asks.pure _

theorem asks_recorded {p : Control → Prop} {c : StoreCall} (h : p (.effect (.store c))) :
    (recorded c).run.Asks p := by
  refine Asks.rename (Asks.run_bind (Asks.run_lift (Asks.request h)) fun x => ?_)
  cases x <;> exact Asks.pure _

theorem asks_startJob (r : Repository) : (startJob r).run.Asks Control.Submits := by
  refine (asks_recorded (c := .createJob r.id) trivial).run_bind fun job => ?_
  exact (Asks.run_lift (Asks.request trivial)).run_bind fun _ => Asks.pure _

theorem asks_ensureRepository (url : String) (coordinates : Coordinates) :
    (ensureRepository url coordinates).run.Asks Control.Submits := by
  refine (asks_recorded (c := .getRepositoryByUrl url) trivial).run_bind fun r? => ?_
  cases r? with
  | some r => exact Asks.pure _
  | none => exact asks_recorded trivial

theorem asks_submit (address : String) : (submit address).run.Asks Control.Submits := by
  rw [submit]
  cases Coordinates.parse address with
  | error f => exact Asks.pure _
  | ok coordinates =>
    refine (asks_ensureRepository _ _).run_bind fun r => ?_
    refine (asks_recorded (c := .currentJob r.id) trivial).run_bind fun job? => ?_
    cases job? with
    | none => exact asks_startJob r
    | some job =>
      dsimp only
      split
      · exact asks_startJob r
      · exact Asks.pure _

theorem asks_jobStatus (id : String) : (jobStatus id).run.Asks Control.Mild :=
  (asks_recorded (c := .currentJob id) trivial).run_bind fun x => by cases x <;> exact Asks.pure _

theorem asks_detail (id : String) : (detail id).run.Asks Control.Mild := by
  refine (asks_recorded (c := .getRepository id) trivial).run_bind fun x => ?_
  cases x with
  | none => exact Asks.pure _
  | some r =>
    refine (asks_recorded (c := .currentJob id) trivial).run_bind fun _ => ?_
    exact (asks_recorded (c := .documentationOf id none) trivial).run_bind fun _ => Asks.pure _

theorem asks_watch (id : String) (interval reads : Nat) (last? : Option Job) :
    (watch id interval reads last?).Asks Control.Mild := by
  induction reads generalizing last? with
  | zero => exact Asks.pure _
  | succ reads ih =>
    refine (asks_jobStatus id).bind fun x => ?_
    cases x with
    | error e => exact Asks.pure _
    | ok job =>
      dsimp only
      split
      · exact Asks.pure _
      · exact (Asks.request trivial).bind fun _ => (ih _).bind fun _ => Asks.pure _

theorem asks_join (id : String) : (join id).run.Asks Control.Mild := by
  refine (Asks.run_lift (Asks.request trivial)).run_bind fun joined => ?_
  split
  · exact Asks.pure _
  · refine (asks_recorded (c := .getJob id) trivial).run_bind fun x => ?_
    cases x with
    | none => exact Asks.pure _
    | some job =>
      dsimp only
      split <;> exact Asks.pure _

end Analysis

end RepoDocs
