import RepoDocs.Proofs.Analysis.Failure
import RepoDocs.Proofs.Analysis.JobCourse
import RepoDocs.Proofs.Session.Relying
import RepoDocs.Proofs.Store.Standing

/-! The status of a repository beside its current job.  A run changes the two one after the other, the
job first when it starts or fails and the repository first when it completes, but it does not wait in
between.  While it waits, others may have ended its job; what it may rely on is that no job that was
begun is queued again. -/

namespace RepoDocs

open Analysis Program

namespace Store

/-- Jobs remain on record, and none that was begun is queued again. -/
def Onward (s s' : Store) : Prop :=
  ∀ j ∈ s.jobs, ∃ j' ∈ s'.jobs, j'.id = j.id ∧ j'.repositoryId = j.repositoryId ∧
    (j'.status = .queued → j.status = .queued)

theorem Onward.refl (s : Store) : s.Onward s := fun j hj => ⟨j, hj, rfl, rfl, id⟩

theorem Onward.trans (s₁ s₂ s₃ : Store) (h : s₁.Onward s₂) (h' : s₂.Onward s₃) : s₁.Onward s₃ := by
  intro j₁ hj₁
  obtain ⟨j₂, hj₂, hid, howner, hqueued⟩ := h j₁ hj₁
  obtain ⟨j₃, hj₃, hid', howner', hqueued'⟩ := h' j₂ hj₂
  exact ⟨j₃, hj₃, hid'.trans hid, howner'.trans howner, fun h => hqueued (hqueued' h)⟩

theorem Onward.of_follow {s s' : Store} (h : Job.Follow s.jobs s'.jobs) : s.Onward s' := by
  intro j hj
  obtain ⟨j', hj', rfl | h⟩ := h.find hj
  · exact ⟨j', hj', rfl, rfl, id⟩
  · refine ⟨j', hj', h.id, h.repositoryId, fun queued => ?_⟩
    have status := h.status
    rw [queued, JobStatus.not_mayBecome_queued] at status
    cases status

end Store

/-- The store is faithful, and the job of the repository is on record. -/
structure OnRecord (names : Naming) (jobId repositoryId : String) (s : Store) : Prop
    extends s.Faithful names where
  job : ∃ j, s.job? jobId = some j ∧ j.repositoryId = repositoryId

/-- The store is faithful, and the job of the repository is not queued any more. -/
structure Begun (names : Naming) (jobId repositoryId : String) (s : Store) : Prop
    extends s.Faithful names where
  job : ∃ j, s.job? jobId = some j ∧ j.repositoryId = repositoryId ∧ j.status ≠ .queued

variable {names : Naming} {jobId repositoryId : String} {s s' : Store}

theorem Begun.onRecord (h : Begun names jobId repositoryId s) :
    OnRecord names jobId repositoryId s := by
  obtain ⟨j, hj, owner, -⟩ := h.job
  exact ⟨h.toFaithful, j, hj, owner⟩

theorem Begun.of_jobs (h : Begun names jobId repositoryId s) (faithful : s'.Faithful names)
    (hjobs : s'.jobs = s.jobs) : Begun names jobId repositoryId s' := by
  refine ⟨faithful, ?_⟩
  rw [Store.job?, hjobs]
  exact h.job

/-- What a run knew of its job before it waited, it knows when it goes on. -/
theorem Begun.onward (inj : Function.Injective names.job) (h : Begun names jobId repositoryId s)
    (onward : s.Onward s') (faithful : s'.Faithful names) :
    Begun names jobId repositoryId s' := by
  obtain ⟨j, hj, owner, begun⟩ := h.job
  obtain ⟨hmem, hid⟩ := Store.mem_of_job? hj
  obtain ⟨j', hj', hid', owner', queued⟩ := onward j hmem
  obtain ⟨found, hfound⟩ := Store.exists_job? hj' (hid'.trans hid)
  obtain rfl := Store.eq_of_job? (faithful.nodup inj) hfound hj' (hid'.trans hid)
  exact ⟨faithful, j', hfound, owner'.trans owner, fun h => begun (queued h)⟩

theorem Store.Tidy.exists_repository? (h : s.Tidy names) {j : Job} (hj : s.job? jobId = some j) :
    ∃ r, s.repository? j.repositoryId = some r ∧ r.id = j.repositoryId := by
  obtain ⟨r, hr, hid⟩ := h.owned j (Store.mem_of_job? hj).1
  obtain ⟨r', hr'⟩ := Store.exists_repository? hr hid
  exact ⟨r', hr', (Store.mem_of_repository? hr').2⟩

/-- A job that was begun moves on to a checkpoint without a change of its status. -/
theorem Store.Faithful.moveOn (inj : Function.Injective names.job) (h : s.Faithful names) {j : Job}
    {point : Checkpoint} {u : JobUpdate} (hj : s.job? jobId = some j)
    (begun : j.status ≠ .queued) (hpoint : point.status = .processing)
    (plan : j.planCheckpoint point = .ok u) (now : Instant) :
    (s.updateJob jobId now u).2.Faithful names ∧ (u.apply now j).status = .processing := by
  have planned : j.Plans u := .inl ⟨point, plan⟩
  obtain ⟨status, -, rfl⟩ := Job.planCheckpoint_eq_ok.1 plan
  rw [hpoint, JobStatus.mayBecome_processing] at status
  have status : j.status = .processing := status.resolve_left begun
  exact ⟨h.updateJob inj hj planned begun (hpoint.trans status.symm), hpoint⟩

namespace Session

variable {c : Conditions} {G : Store → Store → Prop}

/-! ### Runs -/

/-- The rule for the requests of a run. -/
abbrev runRule (c : Conditions) (G : Store → Store → Prop) : Rule Effects Store :=
  fun e => relyRule c (Store.Faithful c.names) Store.Onward G (.effect e)

theorem runRule_mono (c : Conditions) (G : Store → Store → Prop) : (runRule c G).Mono :=
  fun e => relyRule_mono c _ _ G (.effect e)

section Runs

variable (faultless : ∀ call, ¬c.fails call) (hG : ∀ s s', G s s')
include faultless hG

theorem runRule_store {call : StoreCall} {post : Except StoreError call.Reply → Store → Prop}
    (h : ∀ now, post (s.perform c.names now call).1 (s.perform c.names now call).2) :
    runRule c G (.store call) post s :=
  ⟨fun fails => absurd fails (faultless call), fun now => ⟨hG _ _, h now⟩⟩

theorem wp_runRule_advance {j : Job} {point : Checkpoint}
    {post : Except AnalysisError Job → Store → Prop} (hj : s.job? jobId = some j)
    (refused : ∀ r, j.planCheckpoint point = .error r → post (.error (.refused r)) s)
    (moved : ∀ u now, j.planCheckpoint point = .ok u →
      post (.ok (u.apply now j)) (s.updateJob jobId now u).2) :
    (advance jobId point).run.wp (runRule c G) post s := by
  rw [wp_advance]
  refine runRule_store faultless hG fun _ => ?_
  simp only [Store.perform, hj, loaded]
  cases plan : j.planCheckpoint point with
  | error r => exact refused r plan
  | ok u =>
    refine runRule_store faultless hG fun now => ?_
    simp only [Store.perform]
    have h := moved u now plan
    rw [Store.updateJob_some hj] at h ⊢
    exact h

theorem keeps_of_mild (inj : Function.Injective c.names.job) {x : Program Effects α}
    (hx : x.Asks Effect.Mild) :
    x.Keeps (runRule c G) (Begun c.names jobId repositoryId) := by
  refine hx.keeps fun r mild post hpost s h => ?_
  cases r with
  | store call =>
    refine runRule_store faultless hG fun now => hpost _ _ ?_
    obtain ⟨hrepositories, hjobs⟩ := Store.perform_mild mild
    exact h.of_jobs (h.toFaithful.of_same hrepositories hjobs) hjobs
  | call call deadline? =>
    refine ⟨⟨.refl s, h.toFaithful⟩, fun x s' hs' => hpost _ _ ?_⟩
    exact h.onward inj hs'.1 hs'.2

theorem keeps_advance (inj : Function.Injective c.names.job) {point : Checkpoint}
    (hpoint : point.status = .processing) :
    (advance jobId point).run.Keeps (runRule c G) (Begun c.names jobId repositoryId) := by
  intro s h
  obtain ⟨j, hj, owner, begun⟩ := h.job
  refine wp_runRule_advance faultless hG hj (fun _ _ => h) fun u now plan => ?_
  obtain ⟨faithful, processing⟩ := h.toFaithful.moveOn inj hj begun hpoint plan now
  exact ⟨faithful, _, Store.job?_updateJob_self hj u, owner, by simp [processing]⟩

theorem wp_runRule_fail (inj : Function.Injective c.names.job) (cause : AnalysisError)
    (h : OnRecord c.names jobId repositoryId s) :
    (fail jobId repositoryId cause).wp (runRule c G) (fun _ => Store.Faithful c.names) s := by
  obtain ⟨j, hj, rfl⟩ := h.job
  rw [wp_fail]
  refine runRule_store faultless hG fun _ => ?_
  simp only [Store.perform, hj, loaded]
  cases plan : j.planFailure cause.message with
  | error r => exact h.toFaithful
  | ok u =>
    refine runRule_store faultless hG fun now => runRule_store faultless hG fun _ => ?_
    refine h.toFaithful.updateJob_mark inj hj (.inr ⟨_, plan⟩) fun before => ?_
    obtain ⟨-, rfl⟩ := Job.planFailure_eq_ok.1 plan
    rfl

theorem wp_runRule_updateRepository {r : Repository} {u : RepositoryUpdate}
    {post : Except AnalysisError Repository → Store → Prop}
    (hr : s.repository? repositoryId = some r)
    (h : post (.ok (u.apply r)) (s.updateRepository repositoryId u).2) :
    (onRecord (.updateRepository repositoryId u)).run.wp (runRule c G) post s := by
  rw [wp_onRecord]
  refine runRule_store faultless hG fun _ => ?_
  simp only [Store.perform]
  rw [Store.updateRepository_some hr] at h ⊢
  exact h

/-- A repository whose job was begun is found, and what is said about it leaves the job as it is. -/
theorem wp_runRule_describe {u : RepositoryUpdate} (hu : u.status? = none)
    {post : Except AnalysisError Repository → Store → Prop}
    (h : Begun c.names jobId repositoryId s)
    (ok : ∀ r s, r.id = repositoryId → Begun c.names jobId repositoryId s → post (.ok r) s) :
    (onRecord (.updateRepository repositoryId u)).run.wp (runRule c G) post s := by
  obtain ⟨j, hj, rfl, -⟩ := h.job
  obtain ⟨r, hr, hid⟩ := h.exists_repository? hj
  refine wp_runRule_updateRepository faultless hG hr (ok _ _ hid ?_)
  exact h.of_jobs (h.toFaithful.describe _ hu) (Store.jobs_updateRepository u)

theorem wp_runRule_createDocumentation {new : NewDocumentation}
    {post : Except AnalysisError Documentation → Store → Prop}
    (h : ∀ d s', s'.repositories = s.repositories → s'.jobs = s.jobs → post (.ok d) s') :
    (onRecord (.createDocumentation new)).run.wp (runRule c G) post s := by
  rw [wp_onRecord]
  exact runRule_store faultless hG fun _ => h _ _ rfl rfl

/-- A job that is processing is completed right after its repository was marked. -/
theorem wp_runRule_complete (inj : Function.Injective c.names.job) {j : Job}
    (h : s.Faithful c.names) (hj : s.job? jobId = some j) (processing : j.status = .processing)
    (result : Repository → α) :
    (do
      let repository ← onRecord (.updateRepository j.repositoryId (.ofStatus .completed))
      let _ ← advance jobId .completed
      return result repository : Attempt AnalysisError Effects α).run.wp (runRule c G)
        (fun _ => OnRecord c.names jobId j.repositoryId) s := by
  obtain ⟨r, hr, -⟩ := h.exists_repository? hj
  have hj₁ : (s.updateRepository j.repositoryId (.ofStatus .completed)).2.job? jobId = some j :=
    (Store.job?_updateRepository _ _).trans hj
  have percent := (h.consistent j (Store.mem_of_job? hj).1).percent_le
  have plan : j.planCheckpoint .completed = .ok _ :=
    Job.planCheckpoint_eq_ok.2 ⟨by rw [processing]; rfl, percent, rfl⟩
  rw [wp_run_bind]
  refine wp_runRule_updateRepository faultless hG hr ?_
  dsimp only
  rw [wp_run_bind]
  refine wp_runRule_advance faultless hG hj₁ (fun _ refused => ?_) fun u now plan => ?_
  · cases plan.symm.trans refused
  · have completed : u.status? = some .completed := by
      obtain ⟨-, -, rfl⟩ := Job.planCheckpoint_eq_ok.1 plan
      rfl
    refine ⟨h.mark_updateJob inj hj (.inl ⟨_, plan⟩) fun _ => ?_, _,
      Store.job?_updateJob_self hj₁ u, rfl⟩
    simp [JobUpdate.apply, completed, JobStatus.shown]

/-- From the report on the quality on, a run does not wait: its job is live until it completes. -/
theorem wp_runRule_execute (inj : Function.Injective c.names.job) {config : AnalysisConfig}
    {j : Job} {r : Repository} (h : s.Faithful c.names) (hj : s.job? jobId = some j)
    (hr : s.repository? j.repositoryId = some r) (hid : r.id = j.repositoryId) :
    (execute config jobId r).run.wp (runRule c G)
      (fun _ => OnRecord c.names jobId j.repositoryId) s := by
  have mono := runRule_mono c G
  have failed (e : AnalysisError) (s : Store) (h : Begun c.names jobId j.repositoryId s) :
      OnRecord c.names jobId j.repositoryId s := h.onRecord
  rw [execute, wp_run_bind]
  refine wp_runRule_advance faultless hG hj (fun _ _ => ⟨h, j, hj, rfl⟩) fun u now plan => ?_
  have planned : j.Plans u := .inl ⟨_, plan⟩
  obtain ⟨-, -, rfl⟩ := Job.planCheckpoint_eq_ok.1 plan
  dsimp only
  rw [wp_run_bind, hid]
  refine wp_runRule_updateRepository faultless hG ((Store.repository?_updateJob _ _).trans hr) ?_
  refine (keeps_of_mild faultless hG inj (asks_fetchMetadata trivial)).wp_run_bind mono ?_ failed
    fun metadata s begun => ?_
  · exact ⟨h.updateJob_mark inj hj planned fun _ => rfl, _,
      (Store.job?_updateRepository _ _).trans (Store.job?_updateJob_self hj _), rfl, nofun⟩
  rw [wp_run_bind]
  refine wp_runRule_describe faultless hG rfl begun fun r s hid begun => ?_
  dsimp only
  refine (keeps_advance faultless hG inj rfl).wp_run_bind mono begun failed fun _ s begun => ?_
  refine ((keeps_of_mild faultless hG inj (asks_fetchMany (fun _ => trivial) _)).run_lift
    mono).wp_run_bind mono begun failed fun files s begun => ?_
  refine (keeps_advance faultless hG inj rfl).wp_run_bind mono begun failed fun _ s begun => ?_
  refine (keeps_of_mild faultless hG inj (asks_reportQuality trivial)).wp_run_bind mono begun failed
    fun quality s begun => ?_
  rw [wp_run_bind]
  obtain ⟨j', hj', owner, hbegun⟩ := begun.job
  refine wp_runRule_advance faultless hG hj' (fun _ _ => begun.onRecord) fun u now plan => ?_
  obtain ⟨faithful, processing⟩ := begun.toFaithful.moveOn inj hj' hbegun rfl plan now
  have moved : (s.updateJob jobId now u).2.job? jobId = some (u.apply now j') :=
    Store.job?_updateJob_self hj' u
  dsimp only
  rw [wp_run_bind]
  refine wp_runRule_createDocumentation faultless hG fun d s' hrepositories hjobs => ?_
  dsimp only
  rw [hid, ← owner]
  refine wp_runRule_complete faultless hG inj (faithful.of_same hrepositories hjobs) ?_ processing _
  rw [Store.job?, hjobs]
  exact moved

theorem keeps_run (inj : Function.Injective c.names.job) (config : AnalysisConfig)
    (jobId : String) : (run config jobId).run.Keeps (runRule c G) (Store.Faithful c.names) := by
  intro s h
  rw [wp_run]
  refine runRule_store faultless hG fun _ => ?_
  simp only [Store.perform]
  cases hj : s.job? jobId with
  | none => exact h
  | some j =>
    dsimp only [loaded]
    refine runRule_store faultless hG fun _ => ?_
    obtain ⟨r, hr, hid⟩ := h.exists_repository? hj
    simp only [Store.perform, hr]
    refine wp_mono (runRule_mono c G) (fun x s onRecord => ?_) _ _
      (wp_runRule_execute faultless hG inj h hj hr hid)
    cases x with
    | ok outcome => exact onRecord.toFaithful
    | error e =>
      rw [← hid] at onRecord
      exact wp_runRule_fail faultless hG inj e onRecord

end Runs

/-! ### Sessions -/

/-- Repositories are marked by runs only, and no operation of the store is made to fail. -/
structure Undisturbed (c : Conditions) : Prop extends c.Indirect where
  updateRepository : ∀ id u, c.begins (.store (.updateRepository id u)) → u.status? = none
  fails : ∀ call, ¬c.fails call

/-- What each change by an operation of a session is to be: runs may leave the status of a repository
apart from its jobs, others may not. -/
abbrev Keeping (c : Conditions) (o : Operation) : Store → Store → Prop :=
  Guarantees (Store.Faithful c.names) (·.isRun = false) o

theorem admissible_of_faithful {o : Operation} {call : StoreCall}
    (h : ∀ now, Store.Faithful c.names (s.perform c.names now call).2) :
    Admissible c (Store.Faithful c.names) (Keeping c o) s call :=
  fun now => ⟨fun _ => h now, h now⟩

theorem faithful_mild {o : Operation} (s : Store) (call : StoreCall) (h : s.Faithful c.names)
    (mild : call.Mild) : Admissible c (Store.Faithful c.names) (Keeping c o) s call :=
  admissible_of_faithful fun _ =>
    have ⟨hrepositories, hjobs⟩ := Store.perform_mild mild
    h.of_same hrepositories hjobs

theorem faithful_accepts (inj : Function.Injective c.names.repository) (o : Operation) :
    Accepts c (Store.Faithful c.names) (Keeping c o) where
  mild := faithful_mild
  createRepository s new h absent trimmed pending := by
    refine admissible_of_faithful fun now => ?_
    simp only [Store.perform, Store.createRepository, absent]
    exact h.createRepository inj rfl absent trimmed pending
  createJob s r h hr vacant := admissible_of_faithful fun _ => h.createJob hr vacant

theorem faithful_store (undisturbed : Undisturbed c) {o : Operation} (call : StoreCall)
    (begins : c.begins (.store call)) (s : Store) (h : s.Faithful c.names) :
    Admissible c (Store.Faithful c.names) (Keeping c o) s call := by
  cases call with
  | createRepository new => exact (undisturbed.createRepository new begins).elim
  | updateRepository id u =>
    exact admissible_of_faithful fun _ => h.describe id (undisturbed.updateRepository id u begins)
  | createJob id => exact (undisturbed.createJob id begins).elim
  | updateJob id u => exact (undisturbed.updateJob id u begins).elim
  | _ => exact faithful_mild s _ h trivial

theorem reliable_of_not_run (inj : Function.Injective c.names.repository)
    (undisturbed : Undisturbed c) {o : Operation} (ho : c.begins o ∨ o.isBackground = true)
    (notRun : o.isRun = false) :
    Reliable c (Store.Faithful c.names) Store.Onward (·.isRun = false) o := by
  intro s h
  have fair : Fair c (Store.Faithful c.names) (Keeping c o) (o.program c.config) :=
    fair_of_not_run faithful_mild (faithful_store undisturbed)
      (faithful_accepts inj o).fair_submit o ho notRun
  exact wp_of_rule (relyRule_mono _ _ _ _) (fun r post s => relyRule_of_rule .refl) _ s (fair s h)

theorem reliable_of_run {o : Operation} {p : Program Effects o.Result} (isRun : o.isRun = true)
    (program : o.program c.config = p.lift)
    (keeps : ∀ G, (∀ s s', G s s') → p.Keeps (runRule c G) (Store.Faithful c.names)) :
    Reliable c (Store.Faithful c.names) Store.Onward (·.isRun = false) o := by
  intro s h
  have free (s s' : Store) : Keeping c o s s' := fun steady => by simp [isRun] at steady
  have lifted : p.lift.wp (relyRule c (Store.Faithful c.names) Store.Onward (Keeping c o))
      (fun _ => Store.Faithful c.names) = p.wp (runRule c (Keeping c o)) _ := wp_rename ..
  rw [KeepsOn, Operation.task, program, lifted]
  exact keeps _ free s h

theorem reliable (injRepository : Function.Injective c.names.repository)
    (injJob : Function.Injective c.names.job) (undisturbed : Undisturbed c) (o : Operation)
    (ho : c.begins o ∨ o.isBackground = true) :
    Reliable c (Store.Faithful c.names) Store.Onward (·.isRun = false) o := by
  have keeps (job : String) (G : Store → Store → Prop) (hG : ∀ s s', G s s') :
      (run c.config job).run.Keeps (runRule c G) (Store.Faithful c.names) :=
    keeps_run undisturbed.fails hG injJob c.config job
  cases o with
  | run job => exact reliable_of_run rfl rfl (keeps job)
  | background job =>
    refine reliable_of_run rfl rfl fun G hG => ?_
    exact (keeps job G hG).bind (runRule_mono c G) fun _ => Keeps.pure _
  | _ => exact reliable_of_not_run injRepository undisturbed ho rfl

/-- No run is in the middle of its work on the store. -/
def Undivided (s : Session) : Prop :=
  ∀ t, s.active? = some t → t.operation.isRun = true → Rests t.rest

theorem Reachable.faithful (injRepository : Function.Injective c.names.repository)
    (injJob : Function.Injective c.names.job) (undisturbed : Undisturbed c) {s : Session}
    (h : Reachable c s) (undivided : s.Undivided) : s.store.Faithful c.names := by
  have relied := h.relied Store.Onward.refl Store.Onward.trans .empty
    (fun s s' h step => .of_follow (h.follow injJob undisturbed.updateJob step))
    (reliable injRepository injJob undisturbed)
  cases active : s.active? with
  | none => exact relied.quiet (by simp [active])
  | some t =>
    cases hrun : t.operation.isRun with
    | false =>
      refine relied.quiet fun t' ht' => ?_
      obtain rfl := Option.some.inj (active.symm.trans ht')
      exact hrun
    | true => exact (relied.active t active).of_rests (undivided t active hrun)

/-- In a session where repositories and jobs are created by submissions only and the store does not
fail, however many runs there are of however many jobs: whenever none of them is in the middle of its
work on the store, each repository mirrors its current job. -/
theorem repositories_mirror_jobs (injRepository : Function.Injective c.names.repository)
    (injJob : Function.Injective c.names.job) (undisturbed : Undisturbed c) {s : Session}
    (h : Reachable c s) (undivided : s.Undivided) :
    ∀ r ∈ s.store.repositories, s.store.Mirrors r :=
  fun _ hr => (h.faithful injRepository injJob undisturbed undivided).mirrors injJob hr

/-- Repositories are submitted and jobs are run, and no operation of the store fails. -/
def unfailing : Conditions where
  names := .unary
  config := {}
  begins o := (∃ address, o = .submit address) ∨ ∃ job, o = .run job
  fails _ := False

/-- A submission, two runs of its job that wait for the metadata, of which the first one gets none, and
another submission of the same address. -/
def resubmission : List Move :=
  let work : Move := .work ⟨0, 0⟩
  [.ask (.submit "https://github.com/o/r"), .resume 0] ++ List.replicate 6 work ++
    [.resume 0] ++ List.replicate 6 work ++
    [.ask (.run "j"), .resume 0] ++ List.replicate 6 work ++
    [.reply 0 fun call => some (unreachable call), .resume 0] ++ List.replicate 4 work ++
    [.ask (.submit "https://github.com/o/r"), .resume 0] ++ List.replicate 5 work

/-- While the new job is queued, and an old run still waits, the repository shows the failure of the
job before. -/
theorem resubmitted_repository_shows_failure :
    ∃ s, Reachable unfailing s ∧ s.Undivided ∧
      s.store.jobs.map (·.status) = [.failed, .queued] ∧
      s.store.repositories.map (·.status) = [.failed] ∧
      s.waiting.map (·.operation) = [.run "j"] ∧
      ∀ r ∈ s.store.repositories, s.store.Mirrors r := by
  have played : (resubmission.foldlM (play unfailing) {}).map (fun s =>
      (s.active?.isNone, s.store.jobs.map (·.status), s.store.repositories.map (·.status),
        s.waiting.map (·.operation))) =
      some (true, [.failed, .queued], [.failed], [.run "j"]) := by rfl
  obtain ⟨s, hs, h⟩ := Option.map_eq_some_iff.1 played
  simp only [Prod.mk.injEq] at h
  obtain ⟨idle, hjobs, hrepositories, hwaiting⟩ := h
  have reachable : Reachable unfailing s := by
    refine Steps.of_play resubmission ?_ hs
    simp [resubmission, Move.Allowed, unfailing, Operation.isBackground]
  have undivided : s.Undivided := by
    intro t active
    simp [active] at idle
  have undisturbed : Undisturbed unfailing := by
    refine ⟨⟨?_, ?_, ?_⟩, ?_, fun _ => id⟩ <;> simp [unfailing]
  exact ⟨s, reachable, undivided, hjobs, hrepositories, hwaiting,
    repositories_mirror_jobs (ofList_replicate_injective 'r') (ofList_replicate_injective 'j')
      undisturbed reachable undivided⟩

end Session

open Session in
/-- Whatever operations an engine has run, each repository mirrors its current job, as long as the store
does not fail. -/
theorem Engine.Reached.mirrors {w : World σ} {c : Conditions} {e : Engine σ} (suits : w.Suits c)
    (injRepository : Function.Injective c.names.repository)
    (injJob : Function.Injective c.names.job) (undisturbed : Undisturbed c)
    (h : Reached w c e) {r : Repository} (hr : r ∈ e.store.repositories) : e.store.Mirrors r := by
  obtain ⟨s, reachable, waiting, -, rfl⟩ := h.exists_session suits
  have faithful : e.store.Faithful c.names :=
    reachable.faithful injRepository injJob undisturbed Task.forall_none
  exact faithful.mirrors injJob hr

end RepoDocs
