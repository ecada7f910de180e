import RepoDocs.Analysis.Generate
import RepoDocs.Proofs.Analysis.Requests
import RepoDocs.Proofs.Job.Course

/-! The run of a job that nobody else disturbs, by the answers to its calls, whatever they are: which
calls it makes and in which order, how it ends and what is on record afterwards.  Files that cannot be
had are left out; without metadata or a report on the quality, the job and its repository are marked as
failed.  A call that is given up on counts as answered by its time-out. -/

namespace RepoDocs

/-- The record of a job that has just passed a checkpoint. -/
def Job.passing (j : Job) (c : Checkpoint) (now : Instant) : Job :=
  { j with
    status := c.status
    progress := toString c.percent
    currentFile? := some c.label
    updatedAt := now }

@[simp] theorem Job.percent_passing (j : Job) (c : Checkpoint) (now : Instant) :
    (j.passing c now).percent = c.percent :=
  percentOf_percent c

/-- The record of a job that has just failed: it keeps the place of the last checkpoint. -/
def Job.failing (j : Job) (message : String) (now : Instant) : Job :=
  { j with status := .failed, error? := some message, updatedAt := now }

/-- The record of a repository with another status. -/
def Repository.withStatus (r : Repository) (status : AnalysisStatus) : Repository :=
  { r with status }

/-- The record of a repository with what its source tells about it. -/
def Repository.described (r : Repository) (m : RepositoryMetadata) : Repository :=
  { r with
    name := m.name
    owner := m.owner
    description? := m.description? <|> r.description?
    language? := m.language? <|> r.language?
    files := FileNode.sortForest m.files }

/-- What a call comes to when its deadline comes first. -/
def Call.late : (c : Call) → c.Reply
  | metadata _ => .error (.timeout "fetching repository metadata")
  | file _ path => .error (.timeout s!"fetching {path}")
  | readme _ => Analysis.timedOut "generate README"
  | apiDocs _ => Analysis.timedOut "generate API documentation"
  | comments _ _ => Analysis.timedOut "generate comments"
  | quality _ => .error ⟨"analyze code quality", "timed out"⟩

/-- A call and the reply that it came to. -/
structure Answer where
  call : Call
  reply : call.Reply

/-- What has to hold before a request where nobody else works in the store, which does not fail, and
calls may come to anything.  The answers are kept in their order. -/
def answered (names : Naming) : Rule Effects (Store × List Answer)
  | .store c, post => fun (s, made) =>
    ∀ now, post (s.perform names now c).1 ((s.perform names now c).2, made)
  | .call c _, post => fun (s, made) => ∀ x, post x (s, made ++ [⟨c, x.getD c.late⟩])

namespace Analysis

open Program

@[simp] theorem apply_ofStatus (status : AnalysisStatus) (r : Repository) :
    (RepositoryUpdate.ofStatus status).apply r = r.withStatus status := rfl

@[simp] theorem apply_describe (m : RepositoryMetadata) (r : Repository) :
    (describe m).apply r = r.described m := rfl

/-- The main files of a repository by what its source tells about it. -/
def mainFilesOf (config : AnalysisConfig) (m : RepositoryMetadata) : List String :=
  FileNode.mainFiles config.maxMainFiles (FileNode.sortForest m.files)

/-- The paths that are fetched: the first of the main files. -/
def pathsOf (config : AnalysisConfig) (m : RepositoryMetadata) : List String :=
  (mainFilesOf config m).take config.analysisFiles

/-- Each of some files was asked for, in order, and those that could be had are these. -/
inductive Fetched (url : String) : List String → List Answer → List SourceFile → Prop
  | nil : Fetched url [] [] []
  | had {path content : String} {paths : List String} {answers : List Answer}
      {files : List SourceFile} (rest : Fetched url paths answers files) :
      Fetched url (path :: paths) (⟨.file url path, .ok content⟩ :: answers)
        (⟨path, content⟩ :: files)
  | missed {path : String} {e : SourceError} {paths : List String} {answers : List Answer}
      {files : List SourceFile} (rest : Fetched url paths answers files) :
      Fetched url (path :: paths) (⟨.file url path, .error e⟩ :: answers) files

/-- How the run of a job ends, by the answers to the calls that it makes, and the store after it. -/
inductive Concluded (names : Naming) (config : AnalysisConfig) (s : Store) (jobId : String)
    (r : Repository) : Except AnalysisError Outcome → List Answer → Store → Prop
  | ahead {job : Job} {now : Instant} (found : s.job? jobId = some job)
      (ahead : Checkpoint.started.percent < job.percent) :
      Concluded names config s jobId r
        (.error (.refused (.backwards job.percent Checkpoint.started.percent))) []
        (s.changed jobId r.id
          (·.failing (AnalysisError.refused
            (.backwards job.percent Checkpoint.started.percent)).message now)
          (·.withStatus .failed))
  | undescribed {e : SourceError} {now later : Instant} :
      Concluded names config s jobId r (.error (.source .fetchStructure e))
        [⟨.metadata r.url, .error e⟩]
        (s.changed jobId r.id
          (fun j => (j.passing .started now).failing
            (AnalysisError.source .fetchStructure e).message later)
          (·.withStatus .failed))
  | unreported {m : RepositoryMetadata} {e : SynthesisError} {fetches : List Answer}
      {files : List SourceFile} {now later : Instant}
      (fetched : Fetched r.url (pathsOf config m) fetches files) :
      Concluded names config s jobId r (.error (.synthesis .qualityScan e))
        (⟨.metadata r.url, .ok m⟩ :: fetches ++ [⟨.quality files, .error e⟩])
        (s.changed jobId r.id
          (fun j => (j.passing .contentsFetched now).failing
            (AnalysisError.synthesis .qualityScan e).message later)
          fun r => (r.described m).withStatus .failed)
  | completed {m : RepositoryMetadata} {report : QualityReport} {fetches : List Answer}
      {files : List SourceFile} {d : Documentation} {now written : Instant}
      (fetched : Fetched r.url (pathsOf config m) fetches files)
      (documentation : d =
        { id := names.documentation s.documentation.length, repositoryId := r.id, kind := .quality
          content := report.toJson.pretty, metadata := report.toJson.sorted
          createdAt := written }) :
      Concluded names config s jobId r
        (.ok {
          repository := (r.described m).withStatus .completed
          mainFiles := mainFilesOf config m
          outlines := files.map fun f => outline f.name f.content
          quality := report
          qualityDocumentationId := d.id })
        (⟨.metadata r.url, .ok m⟩ :: fetches ++ [⟨.quality files, .ok report⟩])
        { s.changed jobId r.id (·.passing .completed now)
            (fun r => (r.described m).withStatus .completed) with
          documentation := s.documentation ++ [d] }

variable {names : Naming} {config : AnalysisConfig} {s : Store} {made : List Answer}
  {jobId : String} {r : Repository} {job : Job} {f : Job → Job} {g : Repository → Repository}

theorem wp_answered_advance {c : Checkpoint} {post : Except AnalysisError Job → _ → Prop}
    (hf : ∀ j, (f j).id = j.id) (hj : s.job? jobId = some job)
    (status : (f job).status.mayBecome c.status = true) (percent : (f job).percent ≤ c.percent)
    (h : ∀ now, post (.ok ((f job).passing c now))
      (s.changed jobId r.id (fun j => (f j).passing c now) g, made)) :
    (advance jobId c).run.wp (answered names) post (s.changed jobId r.id f g, made) := by
  have plan := Job.planCheckpoint_eq_ok.2 ⟨status, percent, rfl⟩
  rw [wp_advance]
  intro now
  simp only [Store.perform, Store.job?_changed hf hj, loaded, plan]
  intro now
  simp only [Store.perform, Store.updateJob_changed hf hj]
  exact h now

theorem wp_answered_updateRepository {u : RepositoryUpdate}
    {post : Except AnalysisError Repository → _ → Prop} (hg : ∀ r, (g r).id = r.id)
    (hr : s.repository? r.id = some r)
    (h : post (.ok (u.apply (g r))) (s.changed jobId r.id f fun r => u.apply (g r), made)) :
    (onRecord (.updateRepository r.id u)).run.wp (answered names) post
      (s.changed jobId r.id f g, made) := by
  rw [wp_onRecord]
  intro now
  simp only [Store.perform, Store.updateRepository_changed hg hr]
  exact h

/-- The record of documentation that is the next to be put on record. -/
def nextDocumentation (names : Naming) (s : Store) (new : NewDocumentation) (now : Instant) :
    Documentation :=
  { id := names.documentation s.documentation.length, repositoryId := new.repositoryId
    kind := new.kind, content := new.content, metadata := new.metadata, createdAt := now }

theorem wp_answered_createDocumentation {new : NewDocumentation}
    {post : Except AnalysisError Documentation → _ → Prop}
    (h : ∀ now, post (.ok (nextDocumentation names s new now))
      (Store.changed { s with
        documentation := s.documentation ++ [nextDocumentation names s new now] }
          jobId r.id f g, made)) :
    (onRecord (.createDocumentation new)).run.wp (answered names) post
      (s.changed jobId r.id f g, made) := by
  rw [wp_onRecord]
  exact h

theorem wp_answered_fail {cause : AnalysisError} {post : Unit → _ → Prop}
    (hf : ∀ j, (f j).id = j.id) (hg : ∀ r, (g r).id = r.id) (hj : s.job? jobId = some job)
    (hr : s.repository? r.id = some r) (status : (f job).status.mayBecome .failed = true)
    (h : ∀ now, post () (s.changed jobId r.id (fun j => (f j).failing cause.message now)
      (fun r => (g r).withStatus .failed), made)) :
    (fail jobId r.id cause).wp (answered names) post (s.changed jobId r.id f g, made) := by
  have plan : (f job).planFailure cause.message = .ok _ := Job.planFailure_eq_ok.2 ⟨status, rfl⟩
  rw [wp_fail]
  intro now
  simp only [Store.perform, Store.job?_changed hf hj, loaded, plan]
  intro now
  simp only [Store.perform, Store.updateJob_changed hf hj]
  intro _
  rw [Store.perform, Store.updateRepository_changed hg hr]
  exact h now

/-- Each path is tried, in order. -/
theorem wp_answered_fetchMany (url : String) (deadline? : Option Nat) (paths : List String)
    {post : List SourceFile → _ → Prop} {made : List Answer}
    (h : ∀ answers files, Fetched url paths answers files → post files (s, made ++ answers)) :
    (fetchMany url deadline? paths).wp (answered names) post (s, made) := by
  induction paths generalizing post made with
  | nil => simpa [fetchMany] using h [] [] .nil
  | cons path rest ih =>
    rw [fetchMany, wp_bind, fetchFile, wp_called]
    intro x
    rw [wp_bind]
    refine ih fun answers files later => ?_
    rw [← List.append_cons]
    change Program.wp _ _ _ (s, made ++ ⟨.file url path, x.getD (.error (.timeout _))⟩ :: answers)
    cases x.getD (.error (.timeout s!"fetching {path}")) with
    | ok content => exact h _ _ (.had later)
    | error e => exact h _ _ (.missed later)

theorem wp_answered_fetchMetadata {url : String}
    {post : Except AnalysisError RepositoryMetadata → _ → Prop}
    (h : ∀ x, post (x.mapError (.source .fetchStructure)) (s, made ++ [⟨.metadata url, x⟩])) :
    (fetchMetadata config url).run.wp (answered names) post (s, made) := by
  rw [wp_fetchMetadata]
  exact fun x => h _

theorem wp_answered_reportQuality {files : List SourceFile}
    {post : Except AnalysisError QualityReport → _ → Prop}
    (h : ∀ x, post (x.mapError (.synthesis .qualityScan)) (s, made ++ [⟨.quality files, x⟩])) :
    (reportQuality config files).run.wp (answered names) post (s, made) := by
  rw [wp_reportQuality]
  exact fun x => h _

/-- A run of a job that has not begun passes all its checkpoints or is marked as failed. -/
theorem wp_answered_run (config : AnalysisConfig) (hj : s.job? jobId = some job)
    (queued : job.status = .queued) (hr : s.repository? job.repositoryId = some r) :
    (run config jobId).run.wp (answered names)
      (fun result t => Concluded names config s jobId r result t.2 t.1) (s, []) := by
  have hr' : s.repository? r.id = some r := (Store.mem_of_repository? hr).2 ▸ hr
  rw [wp_run]
  intro _
  simp only [Store.perform, hj, loaded]
  intro _
  simp only [Store.perform, hr]
  have start : (s, ([] : List Answer)) = (s.changed jobId r.id (fun j => j) (fun r => r), []) := by
    rw [Store.changed_self]
  have status : job.status.mayBecome Checkpoint.started.status = true := by
    rw [queued]
    rfl
  rw [execute, wp_run_bind, start]
  rcases Nat.lt_or_ge Checkpoint.started.percent job.percent with ahead | percent
  · rw [wp_advance]
    intro _
    simp only [Store.perform, Store.changed_self, hj, loaded, Job.planCheckpoint_of_ahead status ahead]
    rw [start]
    refine wp_answered_fail (fun _ => rfl) (fun _ => rfl) hj hr' (by rw [queued]; rfl) fun now => ?_
    exact .ahead hj ahead
  refine wp_answered_advance (fun _ => rfl) hj status percent fun now => ?_
  dsimp only
  rw [wp_run_bind]
  refine wp_answered_updateRepository (fun _ => rfl) hr' ?_
  dsimp only
  rw [wp_run_bind]
  refine wp_answered_fetchMetadata fun metadata => ?_
  cases metadata with
  | error e =>
    refine wp_answered_fail (fun _ => rfl) (fun _ => rfl) hj hr' rfl fun later => ?_
    exact .undescribed
  | ok m =>
    dsimp only [Except.mapError]
    rw [wp_run_bind]
    refine wp_answered_updateRepository (fun _ => rfl) hr' ?_
    have hurl : ((r.withStatus .analyzing).described m).url = r.url := rfl
    have hfiles : FileNode.mainFiles config.maxMainFiles
        ((r.withStatus .analyzing).described m).files = mainFilesOf config m := rfl
    simp only [apply_ofStatus, apply_describe, hurl, hfiles]
    rw [wp_run_bind]
    refine wp_answered_advance (fun _ => rfl) hj rfl ?_ fun now => ?_
    · rw [Job.percent_passing]; decide
    dsimp only
    rw [wp_run_bind, wp_run_lift]
    refine wp_answered_fetchMany _ _ _ fun fetches files fetched => ?_
    dsimp only
    rw [wp_run_bind]
    refine wp_answered_advance (fun _ => rfl) hj rfl ?_ fun now => ?_
    · rw [Job.percent_passing]; decide
    dsimp only
    rw [wp_run_bind]
    refine wp_answered_reportQuality fun quality => ?_
    cases quality with
    | error e =>
      refine wp_answered_fail (fun _ => rfl) (fun _ => rfl) hj hr' rfl fun later => ?_
      exact .unreported fetched
    | ok report =>
      dsimp only [Except.mapError]
      rw [wp_run_bind]
      refine wp_answered_advance (fun _ => rfl) hj rfl ?_ fun now => ?_
      · rw [Job.percent_passing]; decide
      dsimp only
      rw [wp_run_bind]
      refine wp_answered_createDocumentation fun written => ?_
      dsimp only
      rw [wp_run_bind]
      refine wp_answered_updateRepository (r := r) (fun _ => rfl) hr' ?_
      dsimp only
      rw [wp_run_bind]
      refine wp_answered_advance (fun _ => rfl) hj rfl ?_ fun now => ?_
      · rw [Job.percent_passing]; decide
      exact .completed fetched rfl

end Analysis

end RepoDocs
