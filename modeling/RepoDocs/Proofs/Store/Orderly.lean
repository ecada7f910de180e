import RepoDocs.Proofs.Job.Course
import RepoDocs.Proofs.Store.Records

/-! The jobs of a store, in order: they are named in the order in which they are created, so each has an
id of its own, and the record of each is as at a point of its course.  What is planned for a job keeps
them so. -/

namespace RepoDocs

namespace Store

variable {names : Naming} {s : Store} {now : Instant}

/-- Jobs are named in their order, and the record of each is as at some point of its course. -/
structure Orderly (names : Naming) (s : Store) : Prop where
  named : s.jobs.map (·.id) = (List.range s.jobs.length).map names.job
  consistent : ∀ j ∈ s.jobs, j.Consistent

theorem Orderly.nodup (inj : Function.Injective names.job) (h : s.Orderly names) :
    (s.jobs.map (·.id)).Nodup := by
  rw [h.named]
  exact (List.nodup_range).map inj

theorem Orderly.of_jobs {s' : Store} (h : s.Orderly names) (hjobs : s'.jobs = s.jobs) :
    s'.Orderly names :=
  ⟨by rw [hjobs]; exact h.named, by rw [hjobs]; exact h.consistent⟩

theorem Orderly.createJob (h : s.Orderly names) (repositoryId : String) :
    (s.createJob (names.job s.jobs.length) now repositoryId).2.Orderly names ∧
      Job.Follow s.jobs (s.createJob (names.job s.jobs.length) now repositoryId).2.jobs := by
  have fresh : ∀ j ∈ [(s.createJob (names.job s.jobs.length) now repositoryId).1], j.Fresh :=
    List.forall_mem_singleton.2 ⟨rfl, rfl, rfl, rfl⟩
  refine ⟨⟨?_, ?_⟩, s.jobs, _, rfl, List.forall₂_same.2 fun _ _ => .inl rfl, fresh⟩
  · simp [Store.createJob, h.named, List.range_succ]
  · exact List.forall_mem_append.2 ⟨h.consistent, fun j hj => (fresh j hj).consistent⟩

/-- Only the record that the change was planned for is changed, and it goes on in its course. -/
theorem Orderly.updateJob (inj : Function.Injective names.job) (h : s.Orderly names) {id : String}
    {u : JobUpdate} (plans : ∀ j, s.job? id = some j → j.Plans u) :
    (s.updateJob id now u).2.Orderly names ∧ Job.Follow s.jobs (s.updateJob id now u).2.jobs := by
  have planned : ∀ j ∈ s.jobs, (j.id == id) = true → j.Plans u := by
    intro j hj hid
    have hid : j.id = id := by simpa using hid
    obtain ⟨j', hj'⟩ := exists_job? hj hid
    exact eq_of_job? (h.nodup inj) hj' hj hid ▸ plans j' hj'
  rw [updateJob_eq]
  refine ⟨⟨?_, ?_⟩, _, [], (List.append_nil _).symm, ?_, by simp⟩
  · rw [length_modifyWhere, map_modifyWhere (f := u.apply now) fun _ => rfl]
    exact h.named
  · intro j' hj'
    obtain ⟨j, hj, rfl⟩ := mem_modifyWhere.1 hj'
    split
    · exact (planned j hj ‹_›).consistent (h.consistent j hj) now
    · exact h.consistent j hj
  · refine List.forall₂_map_right_iff.2 (List.forall₂_same.2 fun j hj => ?_)
    split
    · exact .inr ((planned j hj ‹_›).advance now)
    · exact .inl rfl

/-- An operation of the store keeps the jobs in order where each change of a job is planned. -/
theorem Orderly.perform (inj : Function.Injective names.job) (h : s.Orderly names) (c : StoreCall)
    (plans : ∀ id u, c = .updateJob id u → ∀ j, s.job? id = some j → j.Plans u) :
    (s.perform names now c).2.Orderly names ∧
      Job.Follow s.jobs (s.perform names now c).2.jobs := by
  have same (hjobs : (s.perform names now c).2.jobs = s.jobs) :
      (s.perform names now c).2.Orderly names ∧
        Job.Follow s.jobs (s.perform names now c).2.jobs :=
    ⟨h.of_jobs hjobs, hjobs ▸ Job.Follow.refl _⟩
  cases c with
  | createRepository new =>
    refine same ?_
    simp only [Store.perform, createRepository]
    split <;> rfl
  | updateRepository id u =>
    refine same ?_
    simp only [Store.perform, Store.updateRepository]
    split <;> rfl
  | createJob repositoryId => exact h.createJob repositoryId
  | updateJob id u => exact h.updateJob inj (plans id u rfl)
  | _ => exact same rfl

end Store

end RepoDocs
