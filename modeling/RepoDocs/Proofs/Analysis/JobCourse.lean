import RepoDocs.Proofs.Session.Engine
import RepoDocs.Proofs.Session.Fairness
import RepoDocs.Proofs.Session.Play
import RepoDocs.Proofs.Store.Orderly

/-! The jobs of a session keep to their course.  Jobs are named in the order in which they are created,
so each has an id of its own, and a run changes a job only by what it has planned for the record that
it has read just before. -/

namespace RepoDocs

open Analysis Program

namespace Session

variable {c : Conditions}

/-- The change of the jobs that each operation of the store is to be. -/
def JobsFollow (c : Conditions) (s s' : Store) : Prop :=
  Job.Follow s.jobs s'.jobs ∧ s'.Orderly c.names

/-- Every operation of the store keeps the jobs in order, unless it changes a job outright. -/
theorem orderly_admissible (inj : Function.Injective c.names.job) {s : Store}
    (h : s.Orderly c.names) (call : StoreCall)
    (plans : ∀ id u, call = .updateJob id u → ∀ j, s.job? id = some j → j.Plans u) :
    Admissible c (Store.Orderly c.names) (JobsFollow c) s call :=
  fun _ =>
    have ⟨orderly, follow⟩ := h.perform inj call plans
    ⟨⟨follow, orderly⟩, orderly⟩

theorem orderly_respects (inj : Function.Injective c.names.job) :
    Respects c (Store.Orderly c.names) (JobsFollow c) where
  mild s call h hcall := orderly_admissible inj h call (by rintro id u rfl; exact hcall.elim)
  updateRepository s id u h := orderly_admissible inj h _ (fun _ _ hcall => nomatch hcall)
  updateJob s id u h plans := orderly_admissible inj h _ (by rintro _ _ ⟨⟩; exact plans)

theorem orderly_fair (inj : Function.Injective c.names.job)
    (indirect : ∀ id u, ¬c.begins (.store (.updateJob id u))) (o : Operation)
    (ho : c.begins o ∨ o.isBackground = true) :
    Fair c (Store.Orderly c.names) (JobsFollow c) (o.program c.config) := by
  refine (orderly_respects inj).fair (fun call hcall s h => ?_) (fun address => ?_) o ho
  · refine orderly_admissible inj h call ?_
    rintro id u rfl
    exact (indirect id u hcall).elim
  · refine fair_of_asks (asks_submit address) fun call hcall s h =>
      orderly_admissible inj h call ?_
    rintro id u rfl
    exact hcall.elim

theorem Reachable.orderly (inj : Function.Injective c.names.job)
    (indirect : ∀ id u, ¬c.begins (.store (.updateJob id u))) {s : Session} (h : Reachable c s) :
    s.store.Orderly c.names :=
  h.always ⟨rfl, nofun⟩ (orderly_fair inj indirect) fun change => change.2

theorem Reachable.follow (inj : Function.Injective c.names.job)
    (indirect : ∀ id u, ¬c.begins (.store (.updateJob id u))) {s s' : Session}
    (h : Reachable c s) (step : Step c s s') : Job.Follow s.store.jobs s'.store.jobs := by
  rcases h.changes ⟨rfl, nofun⟩ (orderly_fair inj indirect) step with same | change
  · rw [same]
    exact Job.Follow.refl _
  · exact change.1

/-- The record of a job stays or goes on in its course as long as the session goes on. -/
theorem Steps.record (inj : Function.Injective c.names.job)
    (indirect : ∀ id u, ¬c.begins (.store (.updateJob id u))) {s s' : Session}
    (h : Reachable c s) (steps : Steps c s s') {j : Job} (hj : j ∈ s.store.jobs) :
    ∃ j' ∈ s'.store.jobs, j'.id = j.id ∧ j.percent ≤ j'.percent ∧
      (j.isTerminal = true → j' = j) := by
  induction steps with
  | refl => exact ⟨j, hj, rfl, Nat.le_refl _, fun _ => rfl⟩
  | @tail s₁ s₂ steps step ih =>
    obtain ⟨j₁, hj₁, hid, hpercent, hterminal⟩ := ih
    obtain ⟨j₂, hj₂, h⟩ := (Reachable.follow inj indirect (h.trans steps) step).find hj₁
    refine ⟨j₂, hj₂, ?_⟩
    rcases h with rfl | h
    · exact ⟨hid, hpercent, hterminal⟩
    · refine ⟨h.id.trans hid, Nat.le_trans hpercent h.percent, fun ht => ?_⟩
      rw [hterminal ht] at h
      exact absurd h.live (by simp [ht])

/-- In every session, whatever the source, the writer and the store do and however the operations take
turns: the record of each job is as at a point of its course, each step leaves it there or takes it to
a later one, and it has no new record before it is fresh; once the job has ended, its record remains
as it is. -/
theorem jobs_keep_to_course (inj : Function.Injective c.names.job)
    (indirect : ∀ id u, ¬c.begins (.store (.updateJob id u))) {s : Session}
    (h : Reachable c s) :
    (∀ j ∈ s.store.jobs, j.Consistent) ∧
      (∀ s', Step c s s' → Job.Follow s.store.jobs s'.store.jobs) ∧
      ∀ s', Steps c s s' → ∀ j ∈ s.store.jobs, ∃ j' ∈ s'.store.jobs, j'.id = j.id ∧
        j.percent ≤ j'.percent ∧ (j.isTerminal = true → j' = j) :=
  ⟨(h.orderly inj indirect).consistent, fun _ step => h.follow inj indirect step,
    fun _ steps _ hj => Steps.record inj indirect h steps hj⟩

/-- Anything may be asked for but a change of a job, and each operation of the store may fail. -/
def indirect : Conditions where
  names := .unary
  config := {}
  begins o := ∀ id u, o ≠ .store (.updateJob id u)
  fails _ := True

/-- A submission, the run that it starts up to its first wait, and a second run of the same job, which
cannot mark its repository as being analyzed. -/
def secondRun : List Move :=
  let work : Move := .work ⟨0, 0⟩
  [.ask (.submit "https://github.com/o/r"), .resume 0, work, work, work, work, work, work,
    .resume 0, work, work, work, work, work, work,
    .ask (.run "j"), .resume 0, work, work, work, work, .fail ⟨"full"⟩, work, work, work, work]

/-- The second run of a job fails it while the first one still waits for the metadata. -/
theorem second_run_fails_job :
    ∃ s, Reachable indirect s ∧
      s.store.jobs.map (fun j => (j.status, j.progress)) = [(.failed, "10")] ∧
      s.waiting.map (·.operation) = [.background "j"] ∧
      (∀ j ∈ s.store.jobs, j.Consistent) ∧
      (∀ s', Step indirect s s' → Job.Follow s.store.jobs s'.store.jobs) ∧
      ∀ s', Steps indirect s s' → ∀ j ∈ s.store.jobs, ∃ j' ∈ s'.store.jobs, j'.id = j.id ∧
        j.percent ≤ j'.percent ∧ (j.isTerminal = true → j' = j) := by
  have played : (secondRun.foldlM (play indirect) {}).map (fun s =>
      (s.store.jobs.map fun j => (j.status, j.progress), s.waiting.map (·.operation))) =
      some ([(.failed, "10")], [.background "j"]) := by rfl
  obtain ⟨s, hs, h⟩ := Option.map_eq_some_iff.1 played
  obtain ⟨hjobs, hwaiting⟩ := Prod.mk.inj h
  have reachable : Reachable indirect s := by
    refine Steps.of_play secondRun ?_ hs
    simp [secondRun, Move.Allowed, indirect, Operation.isBackground]
  have outright : ∀ id u, ¬indirect.begins (.store (.updateJob id u)) :=
    fun id u begins => begins id u rfl
  exact ⟨s, reachable, hjobs, hwaiting,
    jobs_keep_to_course (ofList_replicate_injective 'j') outright reachable⟩

end Session

namespace Engine

variable {w : World σ} {c : Conditions} {e : Engine σ}

/-- Whatever operations an engine has run, the record of each job is as at a point of its course. -/
theorem Reached.consistent (suits : w.Suits c) (inj : Function.Injective c.names.job)
    (indirect : ∀ id u, ¬c.begins (.store (.updateJob id u))) (h : Reached w c e) :
    ∀ j ∈ e.store.jobs, j.Consistent := by
  obtain ⟨s, reachable, shows⟩ := h.exists_session suits
  rw [← shows.store]
  exact (reachable.orderly inj indirect).consistent

/-- Whatever operations an engine has run, a job that is queued can begin to be worked on. -/
theorem Reached.percent_le_of_queued (suits : w.Suits c) (inj : Function.Injective c.names.job)
    (indirect : ∀ id u, ¬c.begins (.store (.updateJob id u))) (h : Reached w c e) {j : Job}
    (hj : j ∈ e.store.jobs) (queued : j.status = .queued) :
    j.percent ≤ Checkpoint.started.percent :=
  (h.consistent suits inj indirect j hj).percent_le_of_queued queued

/-- An operation that the engine runs leaves the record of a job or takes it on in its course. -/
theorem Reached.record (suits : w.Suits c) (inj : Function.Injective c.names.job)
    (indirect : ∀ id u, ¬c.begins (.store (.updateJob id u))) (h : Reached w c e) {o : Operation}
    (begins : c.begins o) (inFront : o.isBackground = false) (limit : Nat) {j : Job}
    (hj : j ∈ e.store.jobs) :
    ∃ j' ∈ (e.run w (Analysis.background c.config) limit (o.program c.config)).2.store.jobs,
      j'.id = j.id ∧ j.percent ≤ j'.percent ∧ (j.isTerminal = true → j' = j) := by
  obtain ⟨s, reachable, shows⟩ := h.exists_session suits
  obtain ⟨s', steps, shows'⟩ := shows.run suits begins inFront limit
  rw [← shows.store] at hj
  rw [← shows'.store]
  exact Session.Steps.record inj indirect reachable steps hj

end Engine

end RepoDocs
