import RepoDocs.Proofs.Store.Records

/-! What is on record about one repository and one job of it.  The operations of the store that the run
of the job carries out see nothing else, and change nothing else: they do the same in two stores that
have the same on record there, and leave what is on record about another repository and its job.  Ids
and times that are given to records are not looked at. -/

namespace RepoDocs

/-- The job, whenever it was changed last. -/
def Job.untimed (j : Job) : Job := { j with updatedAt := ⟨0, 0⟩ }

/-- The documentation, whatever it is called and whenever it was put on record. -/
def Documentation.anonymous (d : Documentation) : Documentation :=
  { d with id := "", createdAt := ⟨0, 0⟩ }

/-- What is on record about a repository and one job of it. -/
structure Account where
  job? : Option Job
  repository? : Option Repository
  documentation : List Documentation

/-- An operation of the store that is about one repository or one job of it. -/
def StoreCall.Within (jobId repositoryId : String) : StoreCall → Prop
  | getJob id | updateJob id _ => id = jobId
  | getRepository id | updateRepository id _ => id = repositoryId
  | createDocumentation new => new.repositoryId = repositoryId
  | _ => False

/-- Two replies to an operation about one repository and a job of it that say the same. -/
def SameReply (repositoryId : String) :
    (c : StoreCall) → Except StoreError c.Reply → Except StoreError c.Reply → Prop
  | .getJob _, x, x' => ∃ j j', x = .ok (some j) ∧ x' = .ok (some j') ∧
      j.untimed = j'.untimed ∧ j.repositoryId = repositoryId
  | .updateJob _ _, x, x' => ∃ j j', x = .ok j ∧ x' = .ok j' ∧ j.untimed = j'.untimed
  | .getRepository _, x, x' => x = x' ∧ ∀ r, x = .ok (some r) → r.id = repositoryId
  | .updateRepository _ _, x, x' => x = x' ∧ ∀ r, x = .ok r → r.id = repositoryId
  | .createDocumentation _, x, x' => ∃ d d', x = .ok d ∧ x' = .ok d' ∧ d.anonymous = d'.anonymous
  | _, x, x' => x = x'

namespace Store

/-- What is on record about a repository and one job of it, apart from ids and times that are given to
records as they are made or changed. -/
def account (s : Store) (jobId repositoryId : String) : Account where
  job? := (s.job? jobId).map (·.untimed)
  repository? := s.repository? repositoryId
  documentation := (s.documentationOf repositoryId none).map (·.anonymous)

/-- The job is on record, as one of the repository. -/
def Owns (s : Store) (jobId repositoryId : String) : Prop :=
  ∃ j, s.job? jobId = some j ∧ j.repositoryId = repositoryId

variable {names names' : Naming} {s s' : Store} {now now' : Instant}
  {jobId repositoryId jobId' repositoryId' : String} {c : StoreCall}

theorem Owns.perform (h : s.Owns jobId repositoryId) (c : StoreCall) :
    (s.perform names now c).2.Owns jobId repositoryId := by
  obtain ⟨j, hj, owner⟩ := h
  by_cases own : ∃ u, c = .updateJob jobId u
  · obtain ⟨u, rfl⟩ := own
    exact ⟨_, job?_updateJob_self hj u, owner⟩
  · exact ⟨j, job?_perform (fun u hc => own ⟨u, hc⟩) hj, owner⟩

/-! ### What operations do to an account -/

theorem account_updateJob (id : String) (u : JobUpdate) :
    (s.updateJob id now u).2.account jobId repositoryId =
      { s.account jobId repositoryId with
        job? := (s.account jobId repositoryId).job?.map fun j =>
          if j.id = id then u.apply ⟨0, 0⟩ j else j } := by
  have documentation : (s.updateJob id now u).2.documentationOf repositoryId none =
      s.documentationOf repositoryId none := by
    rw [updateJob_eq]
    rfl
  simp only [account, job?_updateJob, repository?_updateJob, documentation, Option.map_map]
  congr 2
  funext j
  by_cases h : j.id = id
  · simp [h, Job.untimed, JobUpdate.apply]
  · simp [h, Job.untimed]

theorem account_updateRepository (id : String) (u : RepositoryUpdate) :
    (s.updateRepository id u).2.account jobId repositoryId =
      { s.account jobId repositoryId with
        repository? := (s.account jobId repositoryId).repository?.map fun r =>
          if r.id = id then u.apply r else r } := by
  have documentation : (s.updateRepository id u).2.documentationOf repositoryId none =
      s.documentationOf repositoryId none := by
    rw [updateRepository_eq]
    rfl
  simp only [account, job?_updateRepository, repository?_updateRepository, documentation,
    beq_iff_eq]

theorem account_createDocumentation (id : String) (new : NewDocumentation) :
    (s.createDocumentation id now new).2.account jobId repositoryId =
      { s.account jobId repositoryId with
        documentation := (s.account jobId repositoryId).documentation ++
          if new.repositoryId = repositoryId then
            [(s.createDocumentation id now new).1.anonymous]
          else [] } := by
  have documentation : (s.createDocumentation id now new).2.documentationOf repositoryId none =
      s.documentationOf repositoryId none ++
        if new.repositoryId = repositoryId then [(s.createDocumentation id now new).1] else [] := by
    by_cases h : new.repositoryId = repositoryId
    · simp [documentationOf, createDocumentation, h]
    · simp [documentationOf, createDocumentation, h]
  rw [account, documentation, List.map_append, apply_ite (List.map _)]
  rfl

/-! ### Operations about one repository -/

theorem Owns.of_account (h : s.Owns jobId repositoryId)
    (same : s'.account jobId repositoryId = s.account jobId repositoryId) :
    s'.Owns jobId repositoryId := by
  obtain ⟨j, hj, owner⟩ := h
  have job := congrArg Account.job? same
  simp only [account, hj, Option.map_some, Option.map_eq_some_iff] at job
  obtain ⟨j', hj', untimed⟩ := job
  exact ⟨j', hj', (congrArg Job.repositoryId untimed).trans owner⟩

/-- What an operation about one repository and a job of it replies and leaves behind depends on what is
on record about them. -/
theorem perform_congr (within : c.Within jobId repositoryId) (owns : s.Owns jobId repositoryId)
    (same : s.account jobId repositoryId = s'.account jobId repositoryId) :
    SameReply repositoryId c (s.perform names now c).1 (s'.perform names' now' c).1 ∧
      (s.perform names now c).2.account jobId repositoryId =
        (s'.perform names' now' c).2.account jobId repositoryId := by
  obtain ⟨j, hj, owner⟩ := owns
  have job := congrArg Account.job? same
  have repository : s.repository? repositoryId = s'.repository? repositoryId :=
    congrArg Account.repository? same
  simp only [account, hj, Option.map_some] at job
  obtain ⟨j', hj', untimed⟩ := Option.map_eq_some_iff.1 job.symm
  cases c with
  | getJob id =>
    obtain rfl : id = jobId := within
    refine ⟨⟨j, j', ?_, ?_, untimed.symm, owner⟩, same⟩
    · rw [perform, hj]
    · rw [perform, hj']
  | getRepository id =>
    obtain rfl : id = repositoryId := within
    refine ⟨⟨by rw [perform, perform, repository], fun r hr => ?_⟩, same⟩
    exact (mem_of_repository? (Except.ok.inj hr)).2
  | updateJob id u =>
    obtain rfl : id = jobId := within
    refine ⟨⟨u.apply now j, u.apply now' j', ?_, ?_, ?_⟩, ?_⟩
    · rw [perform, updateJob_some hj]
    · rw [perform, updateJob_some hj']
    · simp only [Job.untimed, JobUpdate.apply, Job.mk.injEq] at untimed ⊢
      simp [untimed]
    · rw [perform, perform, account_updateJob, account_updateJob, same]
  | updateRepository id u =>
    obtain rfl : id = repositoryId := within
    refine ⟨?_, by rw [perform, perform, account_updateRepository, account_updateRepository, same]⟩
    cases hr : s.repository? id with
    | none => simp [SameReply, perform, updateRepository, ← repository, hr]
    | some r =>
      have hid := (mem_of_repository? hr).2
      rw [perform, perform, updateRepository_some hr, updateRepository_some (repository ▸ hr)]
      exact ⟨rfl, fun r' hr' => (Except.ok.inj hr') ▸ hid⟩
  | createDocumentation new =>
    refine ⟨⟨_, _, rfl, rfl, rfl⟩, ?_⟩
    simp only [perform, account_createDocumentation, same]
    rfl
  | _ => exact within.elim

/-- An operation about one repository leaves what is on record about another one. -/
theorem perform_apart (within : c.Within jobId' repositoryId') (jobs : jobId ≠ jobId')
    (repositories : repositoryId ≠ repositoryId') :
    (s.perform names now c).2.account jobId repositoryId = s.account jobId repositoryId := by
  cases c with
  | getJob id => rfl
  | getRepository id => rfl
  | updateJob id u =>
    obtain rfl : id = jobId' := within
    have kept (j : Job) (hj : s.job? jobId = some j) : j.id ≠ id :=
      (mem_of_job? hj).2.trans_ne jobs
    rw [perform, account_updateJob]
    cases hj : s.job? jobId with
    | none => simp [account, hj]
    | some j => simp [account, hj, Job.untimed, kept j hj]
  | updateRepository id u =>
    obtain rfl : id = repositoryId' := within
    have kept (r : Repository) (hr : s.repository? repositoryId = some r) : r.id ≠ id :=
      (mem_of_repository? hr).2.trans_ne repositories
    rw [perform, account_updateRepository]
    cases hr : s.repository? repositoryId with
    | none => simp [account, hr]
    | some r => simp [account, hr, kept r hr]
  | createDocumentation new =>
    obtain rfl : new.repositoryId = repositoryId' := within
    simp only [perform, account_createDocumentation, if_neg repositories.symm, List.append_nil]
  | _ => exact within.elim

end Store

end RepoDocs
