import Mathlib.Data.List.Induction
import RepoDocs.Proofs.Job.Course
import RepoDocs.Proofs.Store.Records

/-! Jobs under any events: checkpoints in any order, and failures, for records of any status and with any
text as their progress.  A job is changed by what is planned for an event, and left as it was where the
event is refused. -/

namespace RepoDocs

theorem Checkpoint.status_cases (c : Checkpoint) : c.status = .processing ∨ c.status = .completed := by
  cases c <;> decide

theorem JobStatus.mayBecome_completed {s : JobStatus} :
    s.mayBecome .completed = true ↔ s = .processing := by
  cases s <;> decide

/-- What happens to a job: it comes to a checkpoint, or it fails. -/
inductive JobEvent where
  | checkpoint (c : Checkpoint)
  | failure (message : String)

namespace Job

/-- The change that is planned for a job on an event. -/
def plan (j : Job) : JobEvent → Except Refusal JobUpdate
  | .checkpoint c => j.planCheckpoint c
  | .failure message => j.planFailure message

/-- The job behind an event that happens at a time. -/
def on (j : Job) (e : JobEvent) (now : Instant) : Job :=
  match j.plan e with
  | .ok u => u.apply now j
  | .error _ => j

/-- The job behind some events, each at its time. -/
def after (j : Job) (events : List (JobEvent × Instant)) : Job :=
  events.foldl (fun j e => j.on e.1 e.2) j

/-- A change is planned for the event. -/
def Accepts (j : Job) (e : JobEvent) : Prop := ∃ u, j.plan e = .ok u

variable {j : Job} {e : JobEvent} {c : Checkpoint} {message : String} {now : Instant}
  {events : List (JobEvent × Instant)}

@[simp] theorem after_nil (j : Job) : j.after [] = j := rfl

@[simp] theorem after_cons (j : Job) (e : JobEvent) (now : Instant)
    (events : List (JobEvent × Instant)) : j.after ((e, now) :: events) = (j.on e now).after events :=
  rfl

theorem after_append (j : Job) (front back : List (JobEvent × Instant)) :
    j.after (front ++ back) = (j.after front).after back := List.foldl_append

/-! ### One event -/

theorem on_of_plan {u : JobUpdate} (h : j.plan e = .ok u) (now : Instant) :
    j.on e now = u.apply now j := by
  rw [on, h]

theorem on_of_refused (h : ¬ j.Accepts e) (now : Instant) : j.on e now = j := by
  unfold on
  split
  · rename_i u planned
    exact absurd ⟨u, planned⟩ h
  · rfl

theorem accepts_checkpoint_iff : j.Accepts (.checkpoint c) ↔
    j.status.mayBecome c.status = true ∧ j.percent ≤ c.percent := by
  simp [Accepts, plan, planCheckpoint_eq_ok]

theorem accepts_failure_iff : j.Accepts (.failure message) ↔ j.isTerminal = false := by
  simp only [Accepts, plan, planFailure_eq_ok, exists_and_left, exists_eq, and_true]
  constructor
  · intro h
    cases terminal : j.isTerminal with
    | false => rfl
    | true => rw [JobStatus.not_mayBecome terminal] at h; exact h.symm
  · exact JobStatus.mayBecome_failed

theorem on_checkpoint (h : j.Accepts (.checkpoint c)) (now : Instant) :
    j.on (.checkpoint c) now = { j with
      status := c.status, progress := toString c.percent, currentFile? := some c.label
      updatedAt := now } := by
  obtain ⟨u, planned⟩ := h
  obtain ⟨-, -, rfl⟩ := planCheckpoint_eq_ok.1 planned
  rw [on_of_plan planned]
  rfl

theorem on_failure (h : j.Accepts (.failure message)) (now : Instant) :
    j.on (.failure message) now =
      { j with status := .failed, error? := some message, updatedAt := now } := by
  obtain ⟨u, planned⟩ := h
  obtain ⟨-, rfl⟩ := planFailure_eq_ok.1 planned
  rw [on_of_plan planned]
  rfl

/-- An event that is accepted moves the job forward. -/
theorem Accepts.advance (h : j.Accepts e) (now : Instant) : j.Advance (j.on e now) := by
  obtain ⟨u, planned⟩ := h
  have plans : j.Plans u := by
    cases e with
    | checkpoint c => exact .inl ⟨c, planned⟩
    | failure message => exact .inr ⟨message, planned⟩
  rw [on_of_plan planned]
  exact plans.advance now

theorem not_accepts_of_isTerminal (h : j.isTerminal = true) : ¬ j.Accepts e := fun accepts => by
  have live := (accepts.advance ⟨0, 0⟩).live
  rw [h] at live
  cases live

/-- What an event makes of a job: `j` is the record before it, and `j'` the one behind it. -/
structure Turn (j : Job) (e : JobEvent) (j' : Job) : Prop where
  checkpoint_iff : ∀ c, e = .checkpoint c →
    (j.Accepts e ↔ j.status.mayBecome c.status = true ∧ j.percent ≤ c.percent)
  failure_iff : ∀ message, e = .failure message → (j.Accepts e ↔ j.isTerminal = false)
  refused : ¬ j.Accepts e → j' = j
  reached : ∀ c, e = .checkpoint c → j.Accepts e →
    j'.status = c.status ∧ j'.percent = c.percent ∧ j'.currentFile? = some c.label
  failed : ∀ message, e = .failure message → j.Accepts e →
    j'.status = .failed ∧ j'.error? = some message
  percent_le : j.percent ≤ j'.percent
  kept : ∀ message, e = .failure message →
    j'.progress = j.progress ∧ j'.currentFile? = j.currentFile?

theorem turn_on (j : Job) (e : JobEvent) (now : Instant) : j.Turn e (j.on e now) where
  checkpoint_iff := by
    rintro c rfl
    exact accepts_checkpoint_iff
  failure_iff := by
    rintro message rfl
    exact accepts_failure_iff
  refused h := on_of_refused h now
  reached := by
    rintro c rfl accepts
    rw [on_checkpoint accepts]
    exact ⟨rfl, percentOf_percent c, rfl⟩
  failed := by
    rintro message rfl accepts
    rw [on_failure accepts]
    exact ⟨rfl, rfl⟩
  percent_le := by
    by_cases accepts : j.Accepts e
    · exact (accepts.advance now).percent
    · exact Nat.le_of_eq (congrArg percent (on_of_refused accepts now).symm)
  kept := by
    rintro message rfl
    by_cases accepts : j.Accepts (.failure message)
    · rw [on_failure accepts]
      exact ⟨rfl, rfl⟩
    · rw [on_of_refused accepts]
      exact ⟨rfl, rfl⟩

/-! ### All events -/

/-- A job that has ended stays as it is. -/
theorem after_of_isTerminal (h : j.isTerminal = true) (events : List (JobEvent × Instant)) :
    j.after events = j := by
  induction events with
  | nil => rfl
  | cons e events ih => rw [after_cons, on_of_refused (not_accepts_of_isTerminal h), ih]

/-- The events have a checkpoint among them that the job was made to go on processing at. -/
def Processed (j : Job) (events : List (JobEvent × Instant)) : Prop :=
  ∃ front c now back, events = front ++ (.checkpoint c, now) :: back ∧ c.status = .processing ∧
    (j.after front).Accepts (.checkpoint c)

theorem Processed.append (h : j.Processed events) (later : List (JobEvent × Instant)) :
    j.Processed (events ++ later) := by
  obtain ⟨front, c, now, back, rfl, processing, accepts⟩ := h
  exact ⟨front, c, now, back ++ later, by simp, processing, accepts⟩

/-- The status changes at an accepted event only. -/
theorem accepts_of_status_ne (h : (j.on e now).status ≠ j.status) : j.Accepts e := by
  by_contra refused
  exact h (congrArg Job.status (on_of_refused refused now))

theorem checkpoint_of_status_ne (change : (j.on e now).status ≠ j.status)
    (works : (j.on e now).status ≠ .failed) : ∃ c, e = .checkpoint c ∧ j.Accepts (.checkpoint c) ∧
      (j.on e now).status = c.status ∧ j.status.mayBecome c.status = true := by
  have accepts := accepts_of_status_ne change
  cases e with
  | failure message => exact absurd ((turn_on j _ now).failed message rfl accepts).1 works
  | checkpoint c =>
    exact ⟨c, rfl, accepts, ((turn_on j _ now).reached c rfl accepts).1,
      (accepts_checkpoint_iff.1 accepts).1⟩

/-- A job that was queued is worked on, or done, behind an accepted checkpoint of processing only. -/
theorem processed_of_status (queued : j.status = .queued)
    (works : (j.after events).status = .processing ∨ (j.after events).status = .completed) :
    j.Processed events := by
  induction events using List.reverseRecOn with
  | nil => simp [queued] at works
  | append_singleton events e ih =>
    obtain ⟨e, now⟩ := e
    rw [after_append, after_cons, after_nil] at works
    generalize hk : j.after events = k at works ih
    by_cases worked : k.status = .processing ∨ k.status = .completed
    · exact (ih worked).append _
    · -- The event is the first that puts the job to work.
      have change : (k.on e now).status ≠ k.status := fun same => worked (same ▸ works)
      have unfailed : (k.on e now).status ≠ .failed := by
        rcases works with h | h <;> simp [h]
      obtain ⟨c, rfl, accepts, -, may⟩ := checkpoint_of_status_ne change unfailed
      refine ⟨events, c, now, [], rfl, c.status_cases.resolve_right fun completed => ?_, hk ▸ accepts⟩
      exact worked (.inl (JobStatus.mayBecome_completed.1 (completed ▸ may)))

/-- Whatever has happened to a job, an event is accepted just when it is allowed, and changes the record
as it should or not at all; once the job has ended, no event is accepted any more; and a job that was
queued is completed only behind an accepted checkpoint of processing. -/
theorem events_keep_rules (j : Job) (before : List (JobEvent × Instant)) (e : JobEvent)
    (now : Instant) :
    (j.after before).Turn e (j.after (before ++ [(e, now)])) ∧
      ((j.after before).isTerminal = true → ∀ later : List (JobEvent × Instant),
        ¬ (j.after (before ++ later)).Accepts e ∧ j.after (before ++ later) = j.after before) ∧
      (j.status = .queued → (j.after (before ++ [(e, now)])).status = .completed →
        j.Processed before) := by
  refine ⟨?turn, fun ended later => ?ended, fun queued completed => ?processed⟩
  case turn =>
    rw [after_append]
    exact turn_on _ e now
  case ended =>
    rw [after_append, after_of_isTerminal ended]
    exact ⟨not_accepts_of_isTerminal ended, rfl⟩
  case processed =>
    rw [after_append, after_cons, after_nil] at completed
    refine processed_of_status queued ?_
    by_cases change : ((j.after before).on e now).status = (j.after before).status
    · exact .inr (change.symm.trans completed)
    · obtain ⟨c, -, -, reached, may⟩ := checkpoint_of_status_ne change (by simp [completed])
      rw [← reached, completed] at may
      exact .inl (JobStatus.mayBecome_completed.1 may)

/-- A job that was begun at a percentage of 45 does not go back to the checkpoint at 30, passes the one
at 60, and fails; it is not completed then. -/
def interrupted : Job :=
  { id := "job-1", repositoryId := "repo-1", status := .processing, progress := "+45"
    createdAt := ⟨0, 0⟩, updatedAt := ⟨0, 0⟩ }

theorem events_keep_rules_interrupted :
    let events : List (JobEvent × Instant) := [(.checkpoint .fileListReady, ⟨1, 0⟩),
      (.checkpoint .contentsFetched, ⟨2, 0⟩), (.failure "connection lost", ⟨3, 0⟩)]
    ¬ (interrupted.after events).Accepts (.checkpoint .completed) ∧
      (interrupted.after events).progress = "60" ∧
      (interrupted.after events).error? = some "connection lost" := by
  intro events
  obtain ⟨-, ended, -⟩ := events_keep_rules interrupted events (.checkpoint .completed) ⟨4, 0⟩
  refine ⟨?_, rfl, rfl⟩
  have none := (ended rfl []).1
  rwa [List.append_nil] at none

end Job

/-! ### Jobs on record -/

/-- The store behind an event of a job: the change is planned for what is on record of it. -/
def Store.on (s : Store) (id : String) (e : JobEvent) (now : Instant) : Store :=
  match s.job? id with
  | none => s
  | some j =>
    match j.plan e with
    | .ok u => (s.updateJob id now u).2
    | .error _ => s

theorem Store.job?_on (s : Store) (id : String) (e : JobEvent) (now : Instant) :
    (s.on id e now).job? id = (s.job? id).map (·.on e now) := by
  unfold on
  cases stored : s.job? id with
  | none => exact stored
  | some j =>
    cases planned : j.plan e with
    | ok u => simp [planned, job?_updateJob_self stored, Job.on_of_plan planned]
    | error refusal => simp [planned, stored, Job.on]

/-- What is on record of a job goes through the events as the job does. -/
theorem Store.job?_after (s : Store) (id : String) (events : List (JobEvent × Instant)) :
    (events.foldl (fun s e => s.on id e.1 e.2) s).job? id = (s.job? id).map (·.after events) := by
  induction events generalizing s with
  | nil => simp
  | cons e events ih =>
    rw [List.foldl_cons, ih, job?_on, Option.map_map]
    rfl

end RepoDocs
