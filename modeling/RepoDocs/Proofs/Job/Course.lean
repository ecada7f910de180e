import Mathlib.Data.List.Forall2
import RepoDocs.Job.Checkpoint

/-! The course of a job: what its record looks like at each point of it, and how one point follows on
another.  The changes that are planned for a checkpoint or a failure lead from point to point. -/

namespace RepoDocs

theorem percentOf_percent (c : Checkpoint) : percentOf (toString c.percent) = c.percent := by
  cases c <;> decide

theorem toString_percent_eq_100 (c : Checkpoint) :
    toString c.percent = "100" ↔ c.status = .completed := by
  cases c <;> decide

theorem Checkpoint.status_ne_failed (c : Checkpoint) : c.status ≠ .failed := by
  cases c <;> decide

theorem Checkpoint.status_ne_queued (c : Checkpoint) : c.status ≠ .queued := by
  cases c <;> decide

theorem JobStatus.not_mayBecome {s t : JobStatus} (h : s.isTerminal = true) :
    s.mayBecome t = false := by
  cases s <;> cases t <;> first | rfl | cases h

theorem JobStatus.mayBecome_failed {s : JobStatus} (h : s.isTerminal = false) :
    s.mayBecome .failed = true := by
  cases s <;> first | rfl | cases h

theorem JobStatus.not_mayBecome_queued (s : JobStatus) : s.mayBecome .queued = false := by
  cases s <;> rfl

theorem JobStatus.mayBecome_processing {s : JobStatus} :
    s.mayBecome .processing = true ↔ s = .queued ∨ s = .processing := by
  cases s <;> decide

namespace Job

/-- The record of a job that was created and has not been worked on. -/
structure Fresh (j : Job) : Prop where
  status : j.status = .queued
  progress : j.progress = "0"
  currentFile? : j.currentFile? = none
  error? : j.error? = none

/-- A record whose percentage and label belong together, which is at 0 percent as long as the job is
queued, at 100 percent exactly when it has completed, and has an error exactly when it has failed. -/
structure Consistent (j : Job) : Prop where
  place : (j.progress = "0" ∧ j.currentFile? = none) ∨
    ∃ c : Checkpoint, j.progress = toString c.percent ∧ j.currentFile? = some c.label
  queued : j.status = .queued → j.progress = "0"
  completed : j.status = .completed ↔ j.progress = "100"
  failed : j.error?.isSome ↔ j.status = .failed

/-- The later record shows a status that the earlier one admits, and no smaller percentage, of the same
job. -/
structure Advance (j j' : Job) : Prop where
  id : j'.id = j.id
  repositoryId : j'.repositoryId = j.repositoryId
  createdAt : j'.createdAt = j.createdAt
  status : j.status.mayBecome j'.status = true
  percent : j.percent ≤ j'.percent

theorem Fresh.consistent {j : Job} (h : j.Fresh) : j.Consistent := by
  refine ⟨.inl ⟨h.progress, h.currentFile?⟩, fun _ => h.progress, ?_, ?_⟩
  · rw [h.status, h.progress]; decide
  · rw [h.status, h.error?]; decide

theorem Advance.live {j j' : Job} (h : j.Advance j') : j.isTerminal = false := by
  cases ht : j.isTerminal with
  | false => rfl
  | true => simpa [JobStatus.not_mayBecome ht] using h.status

/-- A job can begin to be worked on as long as it is queued. -/
theorem Consistent.percent_le_of_queued {j : Job} (h : j.Consistent) (queued : j.status = .queued) :
    j.percent ≤ Checkpoint.started.percent := by
  rw [Job.percent, h.queued queued]
  decide

theorem Consistent.percent_le {j : Job} (h : j.Consistent) : j.percent ≤ Checkpoint.completed.percent := by
  rcases h.place with ⟨hprogress, -⟩ | ⟨c, hprogress, -⟩
  · rw [Job.percent, hprogress]
    decide
  · rw [Job.percent, hprogress, percentOf_percent]
    cases c <;> decide

/-- The change is one that is planned for the job: for a checkpoint or for a failure. -/
def Plans (j : Job) (u : JobUpdate) : Prop :=
  (∃ c, j.planCheckpoint c = .ok u) ∨ ∃ message, j.planFailure message = .ok u

theorem planCheckpoint_eq_ok {j : Job} {c : Checkpoint} {u : JobUpdate} :
    j.planCheckpoint c = .ok u ↔ j.status.mayBecome c.status = true ∧ j.percent ≤ c.percent ∧
      u = { status? := some c.status, percent? := some c.percent, currentFile? := some c.label } := by
  unfold planCheckpoint
  by_cases hstatus : j.status.mayBecome c.status = true
  · by_cases hpercent : c.percent < j.percent
    · simp [hstatus, hpercent, Nat.not_le.2 hpercent]
    · simp [hstatus, hpercent, Nat.not_lt.1 hpercent, eq_comm]
  · simp [hstatus]

/-- A job does not move back to a checkpoint. -/
theorem planCheckpoint_of_ahead {j : Job} {c : Checkpoint}
    (status : j.status.mayBecome c.status = true) (ahead : c.percent < j.percent) :
    j.planCheckpoint c = .error (.backwards j.percent c.percent) := by
  simp [planCheckpoint, status, ahead]

theorem planFailure_eq_ok {j : Job} {message : String} {u : JobUpdate} :
    j.planFailure message = .ok u ↔ j.status.mayBecome .failed = true ∧
      u = { status? := some .failed, error? := some message } := by
  unfold planFailure
  by_cases hstatus : j.status.mayBecome .failed = true
  · simp [hstatus, eq_comm]
  · simp [hstatus]

variable {j : Job} {u : JobUpdate}

theorem Plans.advance (h : j.Plans u) (now : Instant) : j.Advance (u.apply now j) := by
  rcases h with ⟨c, h⟩ | ⟨message, h⟩
  · obtain ⟨hstatus, hpercent, rfl⟩ := planCheckpoint_eq_ok.1 h
    refine ⟨rfl, rfl, rfl, hstatus, ?_⟩
    exact le_of_le_of_eq hpercent (percentOf_percent c).symm
  · obtain ⟨hstatus, rfl⟩ := planFailure_eq_ok.1 h
    exact ⟨rfl, rfl, rfl, hstatus, Nat.le_refl _⟩

theorem Plans.consistent (h : j.Plans u) (hj : j.Consistent) (now : Instant) :
    (u.apply now j).Consistent := by
  have live := (h.advance now).live
  have noError : j.error? = none := by
    cases herror : j.error? with
    | none => rfl
    | some e => simp [isTerminal, hj.failed.1 (by simp [herror]), JobStatus.isTerminal] at live
  rcases h with ⟨c, h⟩ | ⟨message, h⟩
  · obtain ⟨-, -, rfl⟩ := planCheckpoint_eq_ok.1 h
    refine ⟨.inr ⟨c, rfl, rfl⟩, fun h => absurd h c.status_ne_queued, ?_, ?_⟩
    · exact (toString_percent_eq_100 c).symm
    · simp [JobUpdate.apply, noError, c.status_ne_failed]
  · obtain ⟨-, rfl⟩ := planFailure_eq_ok.1 h
    have incomplete : j.progress ≠ "100" := by
      intro h100
      simp [isTerminal, hj.completed.2 h100, JobStatus.isTerminal] at live
    refine ⟨hj.place, nofun, ?_, ?_⟩
    · simpa [JobUpdate.apply] using incomplete
    · simp [JobUpdate.apply]

end Job

/-- How the records of jobs follow on one another: each stays or advances, and those that are new are
fresh. -/
def Job.Follow (before after : List Job) : Prop :=
  ∃ kept new, after = kept ++ new ∧ before.Forall₂ (fun j j' => j' = j ∨ j.Advance j') kept ∧
    ∀ j ∈ new, j.Fresh

theorem Job.Follow.refl (jobs : List Job) : Job.Follow jobs jobs :=
  ⟨jobs, [], by simp, List.forall₂_same.2 fun _ _ => .inl rfl, by simp⟩

theorem Job.Follow.find {before after : List Job} (h : Job.Follow before after) {j : Job}
    (hj : j ∈ before) : ∃ j' ∈ after, j' = j ∨ j.Advance j' := by
  obtain ⟨kept, new, rfl, hkept, -⟩ := h
  induction hkept with
  | nil => cases hj
  | @cons a b as bs hab _ ih =>
    rcases List.mem_cons.1 hj with rfl | hj
    · exact ⟨b, by simp, hab⟩
    · obtain ⟨j', hj', h⟩ := ih hj
      exact ⟨j', by simp_all, h⟩

end RepoDocs
