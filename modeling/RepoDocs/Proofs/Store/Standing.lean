import Mathlib.Logic.Function.Basic
import RepoDocs.Proofs.Store.Tidy

/-! The status of a repository beside those of its jobs.  A job that is queued does not show in it; any
other job does, and covers those before it.  Records are changed one at a time, so the two may be apart
for a while: `shown` is the status that goes with the jobs, and `Shows` says which one the repositories
have. -/

namespace RepoDocs

/-- The status of a repository for a job of it, where another one was shown before. -/
def JobStatus.shown (before : AnalysisStatus) : JobStatus → AnalysisStatus
  | queued => before
  | processing => .analyzing
  | completed => .completed
  | failed => .failed

/-- A job that was begun covers what was shown before. -/
theorem JobStatus.shown_congr {status : JobStatus} (h : status ≠ .queued)
    (before before' : AnalysisStatus) : status.shown before = status.shown before' := by
  cases status <;> first | rfl | exact absurd rfl h

namespace Store

/-- The jobs of a repository, in the order in which they were created. -/
def jobsOf (s : Store) (repositoryId : String) : List Job :=
  s.jobs.filter (·.repositoryId == repositoryId)

/-- The job of a repository that was created before the current one. -/
def previousJob? (s : Store) (repositoryId : String) : Option Job :=
  (s.jobsOf repositoryId).dropLast.getLast?

/-- The status that some jobs make, one after the other. -/
def shownBy (jobs : List Job) : AnalysisStatus :=
  jobs.foldl (fun before j => j.status.shown before) .pending

/-- The status of a repository that its jobs make. -/
def shown (s : Store) (repositoryId : String) : AnalysisStatus :=
  shownBy (s.jobsOf repositoryId)

/-- The repositories have these statuses. -/
def Shows (s : Store) (status : String → AnalysisStatus) : Prop :=
  ∀ r ∈ s.repositories, r.status = status r.id

/-- A repository shows its current job or, while that one is queued, the end of the one before. -/
structure Mirrors (s : Store) (r : Repository) : Prop where
  analyzing : r.status = .analyzing ↔ ∃ j, s.currentJob? r.id = some j ∧ j.status = .processing
  completed : ∀ j, s.currentJob? r.id = some j → j.status = .completed → r.status = .completed
  failed : ∀ j, s.currentJob? r.id = some j → j.status = .failed → r.status = .failed
  queued : ∀ j, s.currentJob? r.id = some j → j.status = .queued →
    s.previousJob? r.id = none ∧ r.status = .pending ∨
      ∃ p, s.previousJob? r.id = some p ∧
        (p.status = .completed ∧ r.status = .completed ∨ p.status = .failed ∧ r.status = .failed)

variable {names : Naming} {s s' : Store} {now : Instant} {id : String}
  {status : String → AnalysisStatus}

theorem currentJob?_eq_getLast? (s : Store) (repositoryId : String) :
    s.currentJob? repositoryId = (s.jobsOf repositoryId).getLast? := by
  rw [currentJob?, List.findRev?_eq_find?_reverse, ← List.head?_filter, List.filter_reverse,
    List.head?_reverse, jobsOf]

theorem mem_jobsOf {repositoryId : String} {j : Job} :
    j ∈ s.jobsOf repositoryId ↔ j ∈ s.jobs ∧ j.repositoryId = repositoryId := by
  simp [jobsOf]

theorem jobsOf_of_current {repositoryId : String} {j : Job}
    (h : s.currentJob? repositoryId = some j) :
    ∃ earlier, s.jobsOf repositoryId = earlier ++ [j] := by
  rwa [currentJob?_eq_getLast?, List.getLast?_eq_some_iff] at h

/-! ### What the jobs make of the status -/

@[simp] theorem shownBy_concat (earlier : List Job) (j : Job) :
    shownBy (earlier ++ [j]) = j.status.shown (shownBy earlier) := by
  simp [shownBy]

theorem shown_of_jobs (h : s'.jobs = s.jobs) : s'.shown = s.shown := by
  funext repositoryId
  rw [shown, shown, jobsOf, jobsOf, h]

/-- A new job is queued, so it does not show. -/
theorem shown_createJob (repositoryId : String) :
    (s.createJob id now repositoryId).2.shown = s.shown := by
  funext repositoryId'
  simp only [shown, jobsOf, createJob, List.filter_append]
  by_cases h : repositoryId = repositoryId'
  · simp [h, JobStatus.shown]
  · simp [h]

theorem shown_of_vacant {repositoryId : String} (h : s.currentJob? repositoryId = none) :
    s.shown repositoryId = .pending := by
  rw [currentJob?_eq_getLast?, List.getLast?_eq_none_iff] at h
  rw [shown, h]
  rfl

theorem jobsOf_updateJob (u : JobUpdate) (repositoryId : String) :
    (s.updateJob id now u).2.jobsOf repositoryId =
      modifyWhere (·.id == id) (u.apply now) (s.jobsOf repositoryId) := by
  rw [updateJob_eq]
  simp only [jobsOf, modifyWhere, List.filter_map]
  congr 2
  funext j
  by_cases h : j.id = id
  · simp [h, JobUpdate.apply]
  · simp [h]

/-- A change of the current job shows in its repository alone, and covers all jobs before it. -/
theorem shown_updateJob (nodup : (s.jobs.map (·.id)).Nodup) {j : Job} {u : JobUpdate}
    (current : s.currentJob? j.repositoryId = some j) {a : AnalysisStatus}
    (ha : ∀ before, (u.apply now j).status.shown before = a) :
    (s.updateJob j.id now u).2.shown = Function.update s.shown j.repositoryId a := by
  obtain ⟨hj, -⟩ := mem_of_currentJob? current
  have same {j' : Job} (hj' : j' ∈ s.jobs) (hid : j'.id = j.id) : j' = j :=
    List.inj_on_of_nodup_map nodup hj' hj hid
  funext repositoryId
  rw [shown, jobsOf_updateJob]
  by_cases owner : repositoryId = j.repositoryId
  · subst owner
    obtain ⟨earlier, split⟩ := jobsOf_of_current current
    simp [split, modifyWhere, ha]
  · rw [Function.update_of_ne owner, modifyWhere_of_not, shown]
    intro j' hj' hid
    obtain ⟨hj', howner⟩ := mem_jobsOf.1 hj'
    exact owner (by rw [← howner, same hj' (by simpa using hid)])

/-- All jobs of a repository but its last one have ended. -/
theorem Tidy.ended_of_previous (inj : Function.Injective names.job) (h : s.Tidy names)
    {repositoryId : String} {earlier : List Job} {p j : Job}
    (split : s.jobsOf repositoryId = earlier ++ [p] ++ [j]) : p.isTerminal = true := by
  have nodup : (s.jobsOf repositoryId).Nodup := (h.nodup inj).of_map.filter _
  have hp : p ∈ s.jobsOf repositoryId := by simp [split]
  obtain ⟨hp, owner⟩ := mem_jobsOf.1 hp
  cases live : p.isTerminal with
  | true => rfl
  | false =>
    have current := h.current p hp live
    rw [owner, currentJob?_eq_getLast?, split, List.getLast?_concat] at current
    rw [split, Option.some.inj current] at nodup
    simp [List.nodup_append] at nodup

/-- The jobs before the current one make the status that the last of them ended with. -/
theorem Tidy.shownBy_earlier (inj : Function.Injective names.job) (h : s.Tidy names)
    {repositoryId : String} {earlier : List Job} {j : Job}
    (split : s.jobsOf repositoryId = earlier ++ [j]) :
    s.previousJob? repositoryId = none ∧ shownBy earlier = .pending ∨
      ∃ p, s.previousJob? repositoryId = some p ∧
        (p.status = .completed ∧ shownBy earlier = .completed ∨
          p.status = .failed ∧ shownBy earlier = .failed) := by
  have previous : s.previousJob? repositoryId = earlier.getLast? := by
    rw [previousJob?, split, List.dropLast_concat]
  rw [previous]
  rcases List.eq_nil_or_concat earlier with rfl | ⟨before, p, rfl⟩
  · exact .inl ⟨rfl, rfl⟩
  · rw [List.concat_eq_append] at split ⊢
    have ended := h.ended_of_previous inj split
    refine .inr ⟨p, List.getLast?_concat .., ?_⟩
    rw [shownBy_concat]
    cases status : p.status with
    | completed => exact .inl ⟨rfl, rfl⟩
    | failed => exact .inr ⟨rfl, rfl⟩
    | queued | processing => simp [Job.isTerminal, status, JobStatus.isTerminal] at ended

/-- A change that is planned for a job shows in its repository, since the job is the current one. -/
theorem Tidy.shown_updateJob (inj : Function.Injective names.job) (h : s.Tidy names) {j : Job}
    {u : JobUpdate} (hj : s.job? id = some j) (planned : j.Plans u) {a : AnalysisStatus}
    (ha : ∀ before, (u.apply now j).status.shown before = a) :
    (s.updateJob id now u).2.shown = Function.update s.shown j.repositoryId a := by
  obtain ⟨hmem, rfl⟩ := mem_of_job? hj
  have current := h.current j hmem (planned.advance now).live
  exact Store.shown_updateJob (h.nodup inj) current ha

/-! ### The statuses of the repositories -/

theorem Shows.of_repositories (h : s.Shows status) (same : s'.repositories = s.repositories) :
    s'.Shows status := by
  rw [Shows, same]
  exact h

/-- A repository gets the status that it is marked with. -/
theorem Shows.mark (h : s.Shows status) (id : String) (a : AnalysisStatus) :
    (s.updateRepository id (.ofStatus a)).2.Shows (Function.update status id a) := by
  rw [updateRepository_eq]
  intro r' hr'
  obtain ⟨r, hr, rfl⟩ := mem_modifyWhere.1 hr'
  by_cases hid : r.id = id
  · simp [hid, RepositoryUpdate.apply, RepositoryUpdate.ofStatus]
  · simpa [hid] using h r hr

/-- A repository keeps its status when something else is changed. -/
theorem Shows.describe (h : s.Shows status) (id : String) {u : RepositoryUpdate}
    (hu : u.status? = none) : (s.updateRepository id u).2.Shows status := by
  rw [updateRepository_eq]
  intro r' hr'
  obtain ⟨r, hr, rfl⟩ := mem_modifyWhere.1 hr'
  split
  · simpa [RepositoryUpdate.apply, hu] using h r hr
  · exact h r hr

/-- The repositories and jobs are tidy, and each repository shows what its jobs make. -/
structure Faithful (names : Naming) (s : Store) : Prop extends s.Tidy names where
  shows : s.Shows s.shown

namespace Faithful

theorem empty : Faithful names {} := ⟨Tidy.empty, nofun⟩

theorem of_same (h : s.Faithful names) (hrepositories : s'.repositories = s.repositories)
    (hjobs : s'.jobs = s.jobs) : s'.Faithful names := by
  refine ⟨h.toTidy.of_same hrepositories hjobs, ?_⟩
  rw [shown_of_jobs hjobs]
  exact h.shows.of_repositories hrepositories

/-- A new repository is pending, and it has no jobs. -/
theorem createRepository (inj : Function.Injective names.repository) (h : s.Faithful names)
    {r : Repository} (hid : r.id = names.repository s.repositories.length)
    (absent : s.repositoryByUrl? r.url = none) (trimmed : Text.trimmed r.url = r.url)
    (pending : r.status = .pending) :
    Faithful names { s with repositories := s.repositories ++ [r] } where
  toTidy := h.toTidy.createRepository hid absent trimmed
  shows := by
    refine List.forall_mem_append.2 ⟨h.shows, List.forall_mem_singleton.2 ?_⟩
    have vacant := h.toTidy.currentJob?_new inj
    rw [← hid] at vacant
    exact pending.trans (shown_of_vacant vacant).symm

theorem createJob (h : s.Faithful names) {r : Repository} (hr : r ∈ s.repositories)
    (vacant : ∀ j, s.currentJob? r.id = some j → j.isTerminal = true) :
    (s.createJob (names.job s.jobs.length) now r.id).2.Faithful names := by
  refine ⟨h.toTidy.createJob hr vacant, ?_⟩
  rw [shown_createJob]
  exact h.shows

theorem describe (h : s.Faithful names) (id : String) {u : RepositoryUpdate}
    (hu : u.status? = none) : (s.updateRepository id u).2.Faithful names := by
  refine ⟨h.toTidy.updateRepository id u, ?_⟩
  rw [shown_of_jobs (jobs_updateRepository _)]
  exact h.shows.describe id hu

section UpdateJob

variable {j : Job} {u : JobUpdate} {a : AnalysisStatus}

theorem tidy_updateJob (inj : Function.Injective names.job) (h : s.Tidy names)
    (hj : s.job? id = some j) (planned : j.Plans u) : (s.updateJob id now u).2.Tidy names := by
  refine h.updateJob inj fun j' hj' => ?_
  exact Option.some.inj (hj.symm.trans hj') ▸ planned

/-- A job that was begun and keeps its status may be changed alone. -/
theorem updateJob (inj : Function.Injective names.job) (h : s.Faithful names)
    (hj : s.job? id = some j) (planned : j.Plans u) (begun : j.status ≠ .queued)
    (same : (u.apply now j).status = j.status) : (s.updateJob id now u).2.Faithful names := by
  refine ⟨tidy_updateJob inj h.toTidy hj planned, ?_⟩
  have ha (before : AnalysisStatus) :
      (u.apply now j).status.shown before = s.shown j.repositoryId := by
    have current := h.current j (mem_of_job? hj).1 (planned.advance now).live
    obtain ⟨earlier, split⟩ := jobsOf_of_current current
    rw [shown, split, shownBy_concat, same]
    exact JobStatus.shown_congr begun _ _
  rw [h.toTidy.shown_updateJob inj hj planned ha, Function.update_eq_self]
  exact h.shows.of_repositories (repositories_updateJob _)

/-- The repository may be marked right after the job was changed. -/
theorem updateJob_mark (inj : Function.Injective names.job) (h : s.Faithful names)
    (hj : s.job? id = some j) (planned : j.Plans u)
    (ha : ∀ before, (u.apply now j).status.shown before = a) :
    ((s.updateJob id now u).2.updateRepository j.repositoryId (.ofStatus a)).2.Faithful names := by
  refine ⟨(tidy_updateJob inj h.toTidy hj planned).updateRepository _ _, ?_⟩
  rw [shown_of_jobs (jobs_updateRepository _), h.toTidy.shown_updateJob inj hj planned ha]
  refine Shows.mark ?_ _ a
  exact h.shows.of_repositories (repositories_updateJob _)

/-- The repository may be marked right before the job is changed. -/
theorem mark_updateJob (inj : Function.Injective names.job) (h : s.Faithful names)
    (hj : s.job? id = some j) (planned : j.Plans u)
    (ha : ∀ before, (u.apply now j).status.shown before = a) :
    ((s.updateRepository j.repositoryId (.ofStatus a)).2.updateJob id now u).2.Faithful names := by
  have marked := h.toTidy.updateRepository j.repositoryId (.ofStatus a)
  have hj' : (s.updateRepository j.repositoryId (.ofStatus a)).2.job? id = some j :=
    (job?_updateRepository _ id).trans hj
  refine ⟨tidy_updateJob inj marked hj' planned, ?_⟩
  rw [marked.shown_updateJob inj hj' planned ha, shown_of_jobs (jobs_updateRepository _)]
  exact (h.shows.mark _ a).of_repositories (repositories_updateJob _)

end UpdateJob

/-- Where the repositories show what their jobs make, each of them mirrors its current job. -/
theorem mirrors (inj : Function.Injective names.job) (h : s.Faithful names) {r : Repository}
    (hr : r ∈ s.repositories) : s.Mirrors r := by
  have status : r.status = s.shown r.id := h.shows r hr
  cases current : s.currentJob? r.id with
  | none =>
    rw [shown_of_vacant current] at status
    exact ⟨by simp [status, current], by simp [current], by simp [current], by simp [current]⟩
  | some j =>
    obtain ⟨earlier, split⟩ := jobsOf_of_current current
    have previous := h.toTidy.shownBy_earlier inj split
    rw [shown, split, shownBy_concat] at status
    cases hj : j.status with
    | queued =>
      rw [hj] at status
      rw [← show r.status = shownBy earlier from status] at previous
      have idle : r.status ≠ .analyzing := by
        rcases previous with ⟨-, hr⟩ | ⟨p, -, ⟨-, hr⟩ | ⟨-, hr⟩⟩ <;> simp [hr]
      refine ⟨?_, ?_, ?_, fun _ _ _ => previous⟩ <;> simp [current, hj, idle]
    | _ =>
      rw [hj] at status
      constructor <;> simp [current, status, hj, JobStatus.shown]

end Faithful

end Store

end RepoDocs
