import RepoDocs.Proofs.Analysis.Submission
import RepoDocs.Proofs.Job.Course
import RepoDocs.Proofs.Process.Faults

/-! Runs that fail.  A run that has loaded its records leaves its job live until it hands it over to
`fail`, whatever the calls reply, whatever others do in the store and whichever operation of the store
fails.  What `fail` leaves behind then depends on its own operations alone. -/

namespace RepoDocs

/-- A request that does not change the record of a job. -/
def Effect.Spares (job : String) (e : Effect) : Prop := ∀ u, e ≠ .store (.updateJob job u)

namespace Analysis

open Program

/-- A job that has not ended is on record, and so is a repository. -/
structure Underway (jobId repositoryId : String) (s : Store) : Prop where
  job : ∃ j, s.job? jobId = some j ∧ j.isTerminal = false
  repository : ∃ r, s.repository? repositoryId = some r

variable {names : Naming} {jobId repositoryId : String} {faulty? : Option Nat} {s s' : Store}
  {n n' : Nat}

theorem repository?_perform (names : Naming) (now : Instant) (call : StoreCall) {r : Repository}
    (hr : s.repository? repositoryId = some r) :
    ∃ r', (s.perform names now call).2.repository? repositoryId = some r' := by
  obtain ⟨hmem, hid⟩ := Store.mem_of_repository? hr
  have kept : ∃ r' ∈ (s.perform names now call).2.repositories, _ :=
    Store.exists_repository_perform call hmem
  obtain ⟨r', hr', hid', -⟩ := kept
  exact Store.exists_repository? hr' (hid'.trans hid)

theorem job?_meanwhile (h : Meanwhile names jobId s s') {j : Job} (hj : s.job? jobId = some j) :
    s'.job? jobId = some j := by
  induction h with
  | refl => exact hj
  | tail _ step ih =>
    obtain ⟨now, call, other, rfl⟩ := step
    exact Store.job?_perform other ih

theorem repository?_meanwhile (h : Meanwhile names jobId s s') {r : Repository}
    (hr : s.repository? repositoryId = some r) :
    ∃ r', s'.repository? repositoryId = some r' := by
  induction h with
  | refl => exact ⟨r, hr⟩
  | tail _ step ih =>
    obtain ⟨now, call, -, rfl⟩ := step
    obtain ⟨r', hr'⟩ := ih
    exact repository?_perform names now call hr'

namespace Underway

theorem perform (h : Underway jobId repositoryId s) {now : Instant} {call : StoreCall}
    (other : ∀ u, call ≠ .updateJob jobId u) :
    Underway jobId repositoryId (s.perform names now call).2 := by
  obtain ⟨⟨j, hj, live⟩, r, hr⟩ := h
  exact ⟨⟨j, Store.job?_perform other hj, live⟩, repository?_perform names now call hr⟩

theorem meanwhile (h : Underway jobId repositoryId s) (m : Meanwhile names jobId s s') :
    Underway jobId repositoryId s' := by
  obtain ⟨⟨j, hj, live⟩, r, hr⟩ := h
  exact ⟨⟨j, job?_meanwhile m hj, live⟩, repository?_meanwhile m hr⟩

end Underway

/-! ### Up to the failure -/

section Beside

/-- The condition on the store, whatever the number of operations. -/
def stillUnderway (jobId repositoryId : String) (t : Store × Nat) : Prop :=
  Underway jobId repositoryId t.1

/-- What does not change the job keeps it under way. -/
theorem keeps_of_spares {x : Program Effects α} (hx : x.Asks (Effect.Spares jobId)) :
    x.Keeps (beside names jobId faulty?) (stillUnderway jobId repositoryId) := by
  refine hx.keeps fun r spares post hpost t h => ?_
  cases r with
  | store c =>
    intro s₁ m
    have h₁ := h.meanwhile m
    refine ⟨fun _ e => hpost _ _ h₁, fun _ now => hpost _ _ (h₁.perform fun u hc => ?_)⟩
    exact spares u (congrArg Effect.store hc)
  | call c deadline? => exact fun s₁ m x _ => hpost _ _ (h.meanwhile m)

theorem keeps_of_mild {x : Program Effects α} (hx : x.Asks Effect.Mild) :
    x.Keeps (beside names jobId faulty?) (stillUnderway jobId repositoryId) := by
  refine keeps_of_spares (hx.mono fun r hr => ?_)
  rintro u rfl
  exact hr

/-- A job that is moved to a checkpoint remains live, unless it is the last one. -/
theorem wp_beside_advance (c : Checkpoint) (h : Underway jobId repositoryId s) :
    (advance jobId c).run.wp (beside names jobId faulty?) (fun x t =>
      (c ≠ .completed ∨ ∃ e, x = .error e) → stillUnderway jobId repositoryId t) (s, n) := by
  rw [wp_advance]
  intro s₁ m
  have h₁ := h.meanwhile m
  refine ⟨fun _ e _ => h₁, fun _ now => ?_⟩
  obtain ⟨j, hj, live⟩ := h₁.job
  simp only [Store.perform, hj, loaded]
  cases plan : j.planCheckpoint c with
  | error r => exact fun _ => h₁
  | ok u =>
    intro s₂ m₂
    have h₂ := h₁.meanwhile m₂
    refine ⟨fun _ e _ => h₂, fun _ now hc => ?_⟩
    obtain ⟨-, -, rfl⟩ := Job.planCheckpoint_eq_ok.1 plan
    have hj₂ := job?_meanwhile m₂ hj
    have hc : c ≠ .completed := by
      refine hc.resolve_right ?_
      simp [Store.perform, Store.updateJob_some hj₂, Except.mapError]
    obtain ⟨r, hr₂⟩ := h₂.repository
    refine ⟨⟨_, Store.job?_updateJob_self hj₂ _, ?_⟩, repository?_perform names now _ hr₂⟩
    cases c <;> first | rfl | exact absurd rfl hc

theorem keeps_advance {c : Checkpoint} (hc : c ≠ .completed) :
    (advance jobId c).run.Keeps (beside names jobId faulty?)
      (stillUnderway jobId repositoryId) :=
  fun _ h => wp_mono (beside_mono _ _ _) (fun _ _ kept => kept (.inl hc)) _ _
    (wp_beside_advance c h)

/-- A program that fails leaves the job under way. -/
def FailsUnderway (names : Naming) (jobId repositoryId : String) (faulty? : Option Nat)
    (x : Attempt AnalysisError Effects α) : Prop :=
  ∀ t, stillUnderway jobId repositoryId t → x.run.wp (beside names jobId faulty?)
    (fun x t => ∀ e, x = .error e → stillUnderway jobId repositoryId t) t

theorem FailsUnderway.bind {x : Attempt AnalysisError Effects α}
    {f : α → Attempt AnalysisError Effects β}
    (hx : x.run.Keeps (beside names jobId faulty?) (stillUnderway jobId repositoryId))
    (hf : ∀ a, FailsUnderway names jobId repositoryId faulty? (f a)) :
    FailsUnderway names jobId repositoryId faulty? (x >>= f) := by
  intro t h
  rw [wp_run_bind]
  refine wp_mono (beside_mono _ _ _) (fun x t h => ?_) _ _ (hx t h)
  cases x with
  | ok a => exact hf a t h
  | error e => exact fun _ _ => h

/-- The record of the job tells how its run failed. -/
def JobFailed (jobId message : String) (s : Store) : Prop :=
  ∃ j, s.job? jobId = some j ∧ j.status = .failed ∧ j.error? = some message

theorem JobFailed.perform {message : String} (h : JobFailed jobId message s) {now : Instant}
    {call : StoreCall} (other : ∀ u, call ≠ .updateJob jobId u) :
    JobFailed jobId message (s.perform names now call).2 := by
  obtain ⟨j, hj, marked⟩ := h
  exact ⟨j, Store.job?_perform other hj, marked⟩

theorem JobFailed.meanwhile {message : String} (h : JobFailed jobId message s)
    (m : Meanwhile names jobId s s') : JobFailed jobId message s' := by
  obtain ⟨j, hj, marked⟩ := h
  exact ⟨j, job?_meanwhile m hj, marked⟩

open Session in
/-- Once the run of the current job of a repository has failed, the repository can be submitted anew. -/
theorem JobFailed.submits {message address : String} (h : JobFailed jobId message s')
    {c : Conditions} {t t' : Session} (same : t.store = s') {coordinates : Coordinates}
    (parsed : Coordinates.parse address = .ok coordinates) {r : Repository}
    (found : s'.repositoryByUrl? (Text.trimmed address) = some r)
    (current : s'.currentJob? r.id = s'.job? jobId)
    {result : Except AnalysisError Submission}
    (submits : Submits c.faultless address t result t') :
    ∃ sub, result = .ok sub ∧ sub.started = true := by
  subst same
  obtain ⟨j, hj, status, -⟩ := h
  have ended : j.isTerminal = true := by
    rw [Job.isTerminal, status]
    rfl
  exact submits.submitted.of_vacant parsed (fun _ => id) found (current.trans hj) ended

/-- A source that has no repository, and a writer that writes nothing. -/
def unreachable : (c : Call) → c.Reply
  | .metadata _ => .error (.notFound "gone")
  | .file _ path => .error (.notFound path)
  | .quality _ | .readme _ | .apiDocs _ | .comments _ _ => .error ⟨"write", "nothing to write"⟩

end Beside

end Analysis

end RepoDocs
