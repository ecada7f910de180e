import RepoDocs.Proofs.Store.Records

/-! The store as a log.  What it holds after some operations can be told from the operations alone: each
record is there from the operation that created it, in that order, and every later change that names it
was applied to it.  From this follow what each operation does to such a store and what each read finds
in it. -/

namespace RepoDocs

/-- Operations of the store, in the order in which they were carried out, each with its time. -/
abbrev History := List (Instant × StoreCall)

/-- The operations that only look something up. -/
def StoreCall.IsRead : StoreCall → Prop
  | getRepository _ | getRepositoryByUrl _ | getDocumentation _ | documentationOf _ _ | getJob _
  | currentJob _ => True
  | _ => False

/-! ### The log -/

/-- A repository when it is put on record. -/
def NewRepository.record (new : NewRepository) (id : String) (now : Instant) : Repository where
  id := id
  url := new.url
  name := new.name
  owner := new.owner
  description? := new.description?
  language? := new.language?
  files := new.files
  status := new.status
  createdAt := now

/-- Documentation when it is put on record. -/
def NewDocumentation.record (new : NewDocumentation) (id : String) (now : Instant) :
    Documentation where
  id := id
  repositoryId := new.repositoryId
  kind := new.kind
  content := new.content
  metadata := new.metadata
  createdAt := now

/-- A job when it is put on record. -/
def Job.record (id repositoryId : String) (now : Instant) : Job where
  id := id
  repositoryId := repositoryId
  createdAt := now
  updatedAt := now

namespace History

/-- A repository after some operations: the changes that name it are applied. -/
def repositoryAfter (r : Repository) (h : History) : Repository :=
  h.foldl (fun r e =>
    match e.2 with
    | .updateRepository id u => if r.id == id then u.apply r else r
    | _ => r) r

/-- A job after some operations: the changes that name it are applied. -/
def jobAfter (j : Job) (h : History) : Job :=
  h.foldl (fun j e =>
    match e.2 with
    | .updateJob id u => if j.id == id then u.apply e.1 j else j
    | _ => j) j

/-- The repositories that some operations put on record where these addresses are on record, as the
operations leave them. -/
def repositories (names : Naming) : List String → History → List Repository
  | _, [] => []
  | urls, (now, .createRepository new) :: later =>
    if new.url ∈ urls then repositories names urls later
    else
      repositoryAfter (new.record (names.repository urls.length) now) later ::
        repositories names (urls ++ [new.url]) later
  | urls, _ :: later => repositories names urls later

/-- The documentation that some operations put on record where there are `n` pieces. -/
def documentation (names : Naming) : Nat → History → List Documentation
  | _, [] => []
  | n, (now, .createDocumentation new) :: later =>
    new.record (names.documentation n) now :: documentation names (n + 1) later
  | n, _ :: later => documentation names n later

/-- The jobs that some operations put on record where there are `n`, as the operations leave them. -/
def jobs (names : Naming) : Nat → History → List Job
  | _, [] => []
  | n, (now, .createJob repositoryId) :: later =>
    jobAfter (.record (names.job n) repositoryId now) later :: jobs names (n + 1) later
  | n, _ :: later => jobs names n later

/-- A job was created for a repository, none was created for it since, and this is its record now. -/
def LastJob (names : Naming) (h : History) (repositoryId : String) (j : Job) : Prop :=
  ∃ earlier now later, h = earlier ++ (now, .createJob repositoryId) :: later ∧
    (∀ e ∈ later, e.2 ≠ .createJob repositoryId) ∧
    j = jobAfter (.record (names.job (jobs names 0 earlier).length) repositoryId now) later

end History

namespace Store

variable {names : Naming} {s : Store} {now : Instant} {id : String} {h later : History}

/-- The store after some operations. -/
def replay (s : Store) (names : Naming) (h : History) : Store :=
  h.foldl (fun s e => (s.perform names e.1 e.2).2) s

theorem replay_cons (s : Store) (now : Instant) (c : StoreCall) (h : History) :
    s.replay names ((now, c) :: h) = (s.perform names now c).2.replay names h := rfl

/-- What is on record after some operations: what was there before, with the changes that name it, and
what the operations created. -/
theorem replay_eq (s : Store) (names : Naming) (h : History) : s.replay names h =
    { repositories := s.repositories.map (History.repositoryAfter · h) ++
        History.repositories names (s.repositories.map (·.url)) h
      documentation := s.documentation ++ History.documentation names s.documentation.length h
      jobs := s.jobs.map (History.jobAfter · h) ++ History.jobs names s.jobs.length h } := by
  induction h generalizing s with
  | nil => simp [replay, History.repositoryAfter, History.jobAfter, History.repositories,
      History.documentation, History.jobs]
  | cons e h ih =>
    obtain ⟨now, c⟩ := e
    rw [replay_cons, ih]
    cases c with
    | createRepository new =>
      cases found : s.repositoryByUrl? new.url with
      | some r =>
        have recorded : new.url ∈ s.repositories.map (·.url) := by
          obtain ⟨hr, hurl⟩ := mem_of_repositoryByUrl? found
          exact List.mem_map.2 ⟨r, hr, hurl⟩
        simp only [perform, createRepository, found, History.repositories, if_pos recorded]
        rfl
      | none =>
        have vacant : new.url ∉ s.repositories.map (·.url) := by
          have absent := repositoryByUrl?_eq_none.1 found
          simpa using absent
        simp only [perform, createRepository, found, History.repositories, if_neg vacant,
          List.map_append, List.append_assoc, List.length_map]
        rfl
    | updateRepository id u =>
      have urls : (modifyWhere (·.id == id) u.apply s.repositories).map (·.url) = _ :=
        map_modifyWhere fun _ => rfl
      simp only [perform, updateRepository_eq, urls]
      rw [modifyWhere, List.map_map]
      rfl
    | updateJob id u =>
      simp only [perform, updateJob_eq, length_modifyWhere]
      rw [modifyWhere, List.map_map]
      rfl
    | createDocumentation new =>
      simp only [perform, createDocumentation, List.append_assoc, List.length_append]
      rfl
    | createJob repositoryId =>
      simp only [perform, createJob, List.map_append, List.append_assoc, List.length_append]
      rfl
    | _ => rfl

/-! ### The current job -/

theorem jobs_append (n : Nat) (h later : History) :
    History.jobs names n (h ++ later) = (History.jobs names n h).map (History.jobAfter · later) ++
      History.jobs names (n + (History.jobs names n h).length) later := by
  induction h generalizing n with
  | nil => simp [History.jobs]
  | cons e h ih =>
    obtain ⟨now, c⟩ := e
    cases c with
    | createJob repositoryId =>
      simp only [List.cons_append, History.jobs, List.map_cons, List.length_cons, ih]
      rw [History.jobAfter, List.foldl_append, Nat.add_right_comm n 1, Nat.add_assoc]
      rfl
    | _ => exact ih n

@[simp] theorem repositoryId_jobAfter (j : Job) (h : History) :
    (History.jobAfter j h).repositoryId = j.repositoryId := by
  induction h generalizing j with
  | nil => rfl
  | cons e h ih =>
    obtain ⟨now, c⟩ := e
    refine (ih _).trans ?_
    cases c with
    | updateJob id u => simp only; split <;> rfl
    | _ => rfl

/-- Each job on record was created for its repository. -/
theorem exists_created {n : Nat} {j : Job} (hj : j ∈ History.jobs names n h) :
    ∃ e ∈ h, e.2 = .createJob j.repositoryId := by
  induction h generalizing n with
  | nil => cases hj
  | cons e h ih =>
    obtain ⟨now, c⟩ := e
    have of_later {n : Nat} (hj : j ∈ History.jobs names n h) :
        ∃ e ∈ (now, c) :: h, e.2 = .createJob j.repositoryId := by
      obtain ⟨e, he, created⟩ := ih hj
      exact ⟨e, List.mem_cons_of_mem _ he, created⟩
    cases c with
    | createJob repositoryId =>
      rcases List.mem_cons.1 hj with rfl | hj
      · exact ⟨_, List.mem_cons_self, by simp [Job.record]⟩
      · exact of_later hj
    | _ => exact of_later hj

/-- An operation that a history has is the last one of its kind somewhere in it. -/
theorem exists_last {c : StoreCall} (once : ∃ e ∈ h, e.2 = c) :
    ∃ earlier now later, h = earlier ++ (now, c) :: later ∧ ∀ e ∈ later, e.2 ≠ c := by
  induction h with
  | nil => simp at once
  | cons e h ih =>
    by_cases again : ∃ e ∈ h, e.2 = c
    · obtain ⟨earlier, now, later, rfl, none_later⟩ := ih again
      exact ⟨e :: earlier, now, later, rfl, none_later⟩
    · obtain ⟨e', he', rfl⟩ := once
      rcases List.mem_cons.1 he' with rfl | he'
      · exact ⟨[], e'.1, h, rfl, fun e he same => again ⟨e, he, same⟩⟩
      · exact absurd ⟨e', he', rfl⟩ again

theorem currentJob?_of_lastJob {repositoryId : String} {j : Job}
    (last : History.LastJob names h repositoryId j) :
    (replay {} names h).currentJob? repositoryId = some j := by
  obtain ⟨earlier, now, later, rfl, none_later, rfl⟩ := last
  have others : ∀ j ∈ History.jobs names ((History.jobs names 0 earlier).length + 1) later,
      ¬(j.repositoryId == repositoryId) = true := by
    intro j hj same
    obtain ⟨e, he, created⟩ := exists_created hj
    rw [beq_iff_eq.1 same] at created
    exact none_later e he created
  simp only [currentJob?, replay_eq, List.map_nil, List.nil_append, List.length_nil, jobs_append,
    Nat.zero_add, History.jobs, List.findRev?_eq_find?_reverse, List.reverse_append,
    List.reverse_cons, List.append_assoc, List.find?_append]
  rw [List.find?_eq_none.2 fun j hj => others j (List.mem_reverse.1 hj)]
  simp [Job.record]

/-- The current job of a repository is the one that was created last, with every change since. -/
theorem currentJob?_replay {repositoryId : String} {j : Job} :
    (replay {} names h).currentJob? repositoryId = some j ↔
      History.LastJob names h repositoryId j := by
  refine ⟨fun found => ?_, currentJob?_of_lastJob⟩
  obtain ⟨hj, owner⟩ := mem_of_currentJob? found
  rw [replay_eq] at hj
  have created := exists_created (by simpa using hj)
  rw [owner] at created
  obtain ⟨earlier, now, later, split, none_later⟩ := exists_last created
  have last : History.LastJob names h repositoryId _ := ⟨earlier, now, later, split, none_later, rfl⟩
  rw [currentJob?_of_lastJob last] at found
  exact Option.some.inj found ▸ last

/-! ### Ids and addresses -/

/-- Records are named in the order in which they are created, and no address is on record twice. -/
structure Filed (names : Naming) (s : Store) : Prop where
  repositories : s.repositories.map (·.id) =
    (List.range s.repositories.length).map names.repository
  urls : (s.repositories.map (·.url)).Nodup
  jobs : s.jobs.map (·.id) = (List.range s.jobs.length).map names.job

theorem Filed.perform (filed : s.Filed names) (c : StoreCall) :
    (s.perform names now c).2.Filed names := by
  obtain ⟨repositories, urls, jobs⟩ := filed
  cases c with
  | createRepository new =>
    cases found : s.repositoryByUrl? new.url with
    | some r =>
      simp only [Store.perform, createRepository, found]
      exact ⟨repositories, urls, jobs⟩
    | none =>
      have absent := repositoryByUrl?_eq_none.1 found
      simp only [Store.perform, createRepository, found]
      refine ⟨by simp [repositories, List.range_succ], ?_, jobs⟩
      rw [List.map_append, List.nodup_append]
      exact ⟨urls, List.nodup_singleton _, by simpa using absent⟩
  | updateRepository id u =>
    simp only [Store.perform, updateRepository_eq]
    refine ⟨?_, ?_, jobs⟩
    · rw [length_modifyWhere, map_modifyWhere (f := u.apply) fun _ => rfl]
      exact repositories
    · rw [map_modifyWhere (f := u.apply) fun _ => rfl]
      exact urls
  | createJob repositoryId =>
    refine ⟨repositories, urls, ?_⟩
    simp [Store.perform, createJob, jobs, List.range_succ]
  | updateJob id u =>
    simp only [Store.perform, updateJob_eq]
    refine ⟨repositories, urls, ?_⟩
    rw [length_modifyWhere, map_modifyWhere (f := u.apply now) fun _ => rfl]
    exact jobs
  | _ => exact ⟨repositories, urls, jobs⟩

theorem Filed.replay (filed : s.Filed names) (h : History) : (s.replay names h).Filed names := by
  induction h generalizing s with
  | nil => exact filed
  | cons e h ih => exact ih (filed.perform e.2)

theorem filed_empty : Filed names {} := ⟨rfl, List.nodup_nil, rfl⟩

theorem Filed.nodup_repositories (inj : Function.Injective names.repository)
    (filed : s.Filed names) : (s.repositories.map (·.id)).Nodup := by
  rw [filed.repositories]
  exact List.nodup_range.map inj

theorem Filed.nodup_jobs (inj : Function.Injective names.job) (filed : s.Filed names) :
    (s.jobs.map (·.id)).Nodup := by
  rw [filed.jobs]
  exact List.nodup_range.map inj

/-! ### Changes of one record -/

/-- A field has the new value, where there is one, and else the value that it had. -/
def IsSet {α : Type} (new? : Option α) (before after : α) : Prop :=
  (∀ a, new? = some a → after = a) ∧ (new? = none → after = before)

theorem isSet_getD {α : Type} (new? : Option α) (before : α) :
    IsSet new? before (new?.getD before) := by
  cases new? with
  | none => exact ⟨nofun, fun _ => rfl⟩
  | some a => exact ⟨fun _ same => Option.some.inj same, nofun⟩

theorem isSet_or {α : Type} (new? before : Option α) :
    IsSet (new?.map some) before (new? <|> before) := by
  cases new? with
  | none => exact ⟨nofun, fun _ => rfl⟩
  | some a => exact ⟨fun _ same => Option.some.inj same, nofun⟩

end Store

/-- The fields of a repository that an update has a value for are set, and the others are kept. -/
structure RepositoryUpdate.Sets (u : RepositoryUpdate) (before after : Repository) : Prop where
  id : after.id = before.id
  url : after.url = before.url
  name : Store.IsSet u.name? before.name after.name
  owner : Store.IsSet u.owner? before.owner after.owner
  description : Store.IsSet (u.description?.map some) before.description? after.description?
  language : Store.IsSet (u.language?.map some) before.language? after.language?
  files : Store.IsSet u.files? before.files after.files
  status : Store.IsSet u.status? before.status after.status
  createdAt : after.createdAt = before.createdAt

theorem RepositoryUpdate.sets_apply (u : RepositoryUpdate) (r : Repository) :
    u.Sets r (u.apply r) where
  id := rfl
  url := rfl
  name := Store.isSet_getD ..
  owner := Store.isSet_getD ..
  description := Store.isSet_or ..
  language := Store.isSet_or ..
  files := Store.isSet_getD ..
  status := Store.isSet_getD ..
  createdAt := rfl

/-- The fields of a job that an update has a value for are set, and the others are kept but for the time
of the last change. -/
structure JobUpdate.Sets (u : JobUpdate) (now : Instant) (before after : Job) : Prop where
  id : after.id = before.id
  repositoryId : after.repositoryId = before.repositoryId
  status : Store.IsSet u.status? before.status after.status
  progress : Store.IsSet (u.percent?.map toString) before.progress after.progress
  currentFile : Store.IsSet (u.currentFile?.map some) before.currentFile? after.currentFile?
  error : Store.IsSet (u.error?.map some) before.error? after.error?
  createdAt : after.createdAt = before.createdAt
  updatedAt : after.updatedAt = now

theorem JobUpdate.sets_apply (u : JobUpdate) (now : Instant) (j : Job) :
    u.Sets now j (u.apply now j) where
  id := rfl
  repositoryId := rfl
  status := Store.isSet_getD ..
  progress := Store.isSet_getD ..
  currentFile := Store.isSet_or ..
  error := Store.isSet_or ..
  createdAt := rfl
  updatedAt := rfl

namespace Store

variable {names : Naming} {s : Store} {now : Instant} {id : String} {h : History}

/-- One record of a list has an id, and it alone is replaced. -/
def Replaces {α : Type} (key : α → String) (id : String) (a b : α) (as bs : List α) : Prop :=
  ∃ front back, as = front ++ a :: back ∧ bs = front ++ b :: back ∧ key a = id ∧
    ∀ c ∈ front ++ back, key c ≠ id

theorem replaces_modifyWhere {α : Type} {key : α → String} {as : List α} {a : α}
    (nodup : (as.map key).Nodup) (ha : a ∈ as) (f : α → α) :
    Replaces key (key a) a (f a) as (modifyWhere (key · == key a) f as) := by
  obtain ⟨front, back, rfl⟩ := List.append_of_mem ha
  have others : ∀ c ∈ front ++ back, key c ≠ key a := by
    have perm : (front ++ a :: back).Perm (a :: (front ++ back)) := List.perm_middle
    have nodup := ((perm.map key).nodup_iff).1 nodup
    intro c hc same
    exact (List.nodup_cons.1 nodup).1 (same ▸ List.mem_map_of_mem hc)
  have kept (cs : List α) (hcs : ∀ c ∈ cs, c ∈ front ++ back) :
      modifyWhere (key · == key a) f cs = cs :=
    modifyWhere_of_not fun c hc => by simpa using others c (hcs c hc)
  refine ⟨front, back, rfl, ?_, rfl, others⟩
  have front_kept := kept front fun _ => List.mem_append_left back
  have back_kept := kept back fun _ => List.mem_append_right front
  simp only [modifyWhere] at front_kept back_kept
  rw [modifyWhere, List.map_append, List.map_cons, front_kept, back_kept, if_pos (beq_self_eq_true _)]

/-! ### Nothing is lost -/

/-- What is on record stays on record, in its place. -/
structure Retains (s s' : Store) : Prop where
  repositories : s.repositories.map (·.id) <+: s'.repositories.map (·.id)
  documentation : s.documentation <+: s'.documentation
  jobs : s.jobs.map (·.id) <+: s'.jobs.map (·.id)

theorem Retains.refl (s : Store) : Retains s s :=
  ⟨List.prefix_rfl, List.prefix_rfl, List.prefix_rfl⟩

theorem Retains.trans {s₁ s₂ s₃ : Store} (first : Retains s₁ s₂) (second : Retains s₂ s₃) :
    Retains s₁ s₃ :=
  ⟨first.repositories.trans second.repositories, first.documentation.trans second.documentation,
    first.jobs.trans second.jobs⟩

theorem retains_perform (s : Store) (c : StoreCall) : Retains s (s.perform names now c).2 := by
  cases c with
  | createRepository new =>
    simp only [perform, createRepository]
    split
    · exact .refl s
    · exact { Retains.refl s with repositories := by simp }
  | updateRepository id u =>
    simp only [perform, updateRepository_eq]
    refine { Retains.refl s with repositories := ?_ }
    rewrite [map_modifyWhere (f := u.apply) fun _ => rfl]
    exact List.prefix_rfl
  | createDocumentation new =>
    exact { Retains.refl s with documentation := List.prefix_append .. }
  | createJob repositoryId =>
    exact { Retains.refl s with jobs := by simp [perform, createJob] }
  | updateJob id u =>
    simp only [perform, updateJob_eq]
    refine { Retains.refl s with jobs := ?_ }
    rewrite [map_modifyWhere (f := u.apply now) fun _ => rfl]
    exact List.prefix_rfl
  | _ => exact .refl s

theorem retains_replay (s : Store) (h : History) : Retains s (s.replay names h) := by
  induction h generalizing s with
  | nil => exact .refl s
  | cons e h ih => exact (retains_perform s e.2).trans (ih _)

/-! ### Operations on a store -/

/-- An operation that fails changes nothing. -/
theorem perform_error {c : StoreCall} {e : StoreError}
    (failed : (s.perform names now c).1 = .error e) : (s.perform names now c).2 = s := by
  cases c with
  | createRepository new =>
    simp only [perform, createRepository] at failed ⊢
    split at failed
    · rfl
    · cases failed
  | updateRepository id u =>
    cases found : s.repository? id with
    | some r => simp [perform, updateRepository, found] at failed
    | none => simp [perform, updateRepository, found]
  | updateJob id u =>
    cases found : s.job? id with
    | some j => simp [perform, updateJob, found] at failed
    | none => simp [perform, updateJob, found]
  | _ => cases failed

theorem perform_read {c : StoreCall} (read : c.IsRead) : (s.perform names now c).2 = s := by
  cases c <;> first | rfl | exact read.elim

theorem createRepository_error (new : NewRepository) :
    (∃ e, (s.perform names now (.createRepository new)).1 = .error e) ↔
      ∃ r ∈ s.repositories, r.url = new.url := by
  cases found : s.repositoryByUrl? new.url with
  | some r => simpa [perform, createRepository, found] using ⟨r, mem_of_repositoryByUrl? found⟩
  | none =>
    have absent := repositoryByUrl?_eq_none.1 found
    simpa [perform, createRepository, found] using absent

/-- An update of a repository misses, or sets the fields that it has a value for in one record. -/
theorem perform_updateRepository (nodup : (s.repositories.map (·.id)).Nodup) (id : String)
    (u : RepositoryUpdate) :
    (∀ r ∈ s.repositories, r.id ≠ id) ∧
        (∃ e, (s.perform names now (.updateRepository id u)).1 = .error e) ∨
      ∃ r r' rs, s.perform names now (.updateRepository id u) =
          (.ok r', { s with repositories := rs }) ∧
        Replaces (·.id) id r r' s.repositories rs ∧ u.Sets r r' := by
  cases found : s.repository? id with
  | none =>
    have absent : ∀ r ∈ s.repositories, ¬r.id = id := by simpa [repository?] using found
    exact .inl ⟨absent, _, by simp only [perform, updateRepository, found]; rfl⟩
  | some r =>
    obtain ⟨hr, rfl⟩ := mem_of_repository? found
    exact .inr ⟨r, u.apply r, _, updateRepository_some found u,
      replaces_modifyWhere nodup hr u.apply, u.sets_apply r⟩

/-- An update of a job misses, or sets the fields that it has a value for in one record. -/
theorem perform_updateJob (nodup : (s.jobs.map (·.id)).Nodup) (id : String) (u : JobUpdate) :
    (∀ j ∈ s.jobs, j.id ≠ id) ∧
        (∃ e, (s.perform names now (.updateJob id u)).1 = .error e) ∨
      ∃ j j' js, s.perform names now (.updateJob id u) = (.ok j', { s with jobs := js }) ∧
        Replaces (·.id) id j j' s.jobs js ∧ u.Sets now j j' := by
  cases found : s.job? id with
  | none =>
    have absent : ∀ j ∈ s.jobs, ¬j.id = id := by simpa [job?] using found
    exact .inl ⟨absent, _, by simp only [perform, updateJob, found]; rfl⟩
  | some j =>
    obtain ⟨hj, rfl⟩ := mem_of_job? found
    exact .inr ⟨j, u.apply now j, _, updateJob_some found u,
      replaces_modifyWhere nodup hj (u.apply now), u.sets_apply now j⟩

/-- A store is what the log of its operations says: the records are those of the log, reads find them,
and each further operation does to them what its name says and nothing else. -/
structure AsLogged (names : Naming) (h : History) (s : Store) : Prop where
  records : s =
    { repositories := h.repositories names []
      documentation := h.documentation names 0
      jobs := h.jobs names 0 }
  urls : (s.repositories.map (·.url)).Nodup
  byUrl : ∀ now url, ∃ found : Option Repository,
    (s.perform names now (.getRepositoryByUrl url)).1 = .ok found ∧
      ∀ r, found = some r ↔ r ∈ s.repositories ∧ r.url = url
  refuses : ∀ now new, (∃ e, (s.perform names now (.createRepository new)).1 = .error e) ↔
    ∃ r ∈ s.repositories, r.url = new.url
  failed : ∀ now c e, (s.perform names now c).1 = .error e → (s.perform names now c).2 = s
  read : ∀ now c, c.IsRead → (s.perform names now c).2 = s
  updateRepository : ∀ now id u,
    (∀ r ∈ s.repositories, r.id ≠ id) ∧
        (∃ e, (s.perform names now (.updateRepository id u)).1 = .error e) ∨
      ∃ r r' rs, s.perform names now (.updateRepository id u) =
          (.ok r', { s with repositories := rs }) ∧
        Replaces (·.id) id r r' s.repositories rs ∧ u.Sets r r'
  updateJob : ∀ now id u,
    (∀ j ∈ s.jobs, j.id ≠ id) ∧
        (∃ e, (s.perform names now (.updateJob id u)).1 = .error e) ∨
      ∃ j j' js, s.perform names now (.updateJob id u) = (.ok j', { s with jobs := js }) ∧
        Replaces (·.id) id j j' s.jobs js ∧ u.Sets now j j'
  currentJob : ∀ now repositoryId, ∃ found : Option Job,
    (s.perform names now (.currentJob repositoryId)).1 = .ok found ∧
      ∀ j, found = some j ↔ h.LastJob names repositoryId j
  documentationOf : ∀ now repositoryId kind?,
    (s.perform names now (.documentationOf repositoryId kind?)).1 =
      .ok ((h.documentation names 0).filter fun d =>
        d.repositoryId = repositoryId ∧ ∀ kind ∈ kind?, d.kind = kind)
  retains : ∀ later, Retains s (s.replay names later)

/-- The store is what the log of its operations says, whatever they are. -/
theorem replay_asLogged (inj_repository : Function.Injective names.repository)
    (inj_job : Function.Injective names.job) (h : History) :
    AsLogged names h (replay {} names h) where
  records := by simpa using replay_eq {} names h
  urls := (filed_empty.replay h).urls
  byUrl now url := by
    refine ⟨_, rfl, fun r => ⟨mem_of_repositoryByUrl?, ?_⟩⟩
    rintro ⟨hr, rfl⟩
    exact repositoryByUrl?_of_mem (filed_empty.replay h).urls hr
  refuses _ := createRepository_error
  failed _ _ _ := perform_error
  read _ _ := perform_read
  updateRepository _ :=
    perform_updateRepository ((filed_empty.replay h).nodup_repositories inj_repository)
  updateJob _ := perform_updateJob ((filed_empty.replay h).nodup_jobs inj_job)
  currentJob now repositoryId := ⟨_, rfl, fun _ => currentJob?_replay⟩
  documentationOf now repositoryId kind? := by
    rw [replay_eq]
    refine congrArg Except.ok (List.filter_congr fun d _ => ?_)
    rw [Bool.eq_iff_iff]
    cases kind? with
    | none => simp
    | some kind => simp [eq_comm (a := kind)]
  retains := retains_replay _

/-- Two repositories, one of which is asked for twice, and two jobs of the first one, of which the first
is changed last. -/
def twoJobsLogged : History :=
  [(⟨0, 0⟩, .createRepository { url := "u", name := "a", owner := "o" }),
    (⟨1, 0⟩, .createRepository { url := "v", name := "b", owner := "o" }),
    (⟨2, 0⟩, .createRepository { url := "u", name := "c", owner := "p" }),
    (⟨3, 0⟩, .createJob "r"),
    (⟨4, 0⟩, .createJob "r"),
    (⟨5, 0⟩, .updateJob "jj" { percent? := some 10 }),
    (⟨6, 0⟩, .updateJob "j" { status? := some .failed, error? := some "lost" })]

theorem replay_asLogged_twoJobsLogged :
    (Function.Injective Naming.unary.repository ∧ Function.Injective Naming.unary.job) ∧
      AsLogged .unary twoJobsLogged (replay {} .unary twoJobsLogged) ∧
      (replay {} .unary twoJobsLogged).repositories.map (·.name) = ["a", "b"] ∧
      (replay {} .unary twoJobsLogged).currentJob? "r" =
        some { id := "jj", repositoryId := "r", progress := "10", createdAt := ⟨4, 0⟩
               updatedAt := ⟨5, 0⟩ } :=
  ⟨⟨ofList_replicate_injective 'r', ofList_replicate_injective 'j'⟩,
    replay_asLogged (ofList_replicate_injective 'r') (ofList_replicate_injective 'j') _,
    by decide, by decide⟩

end Store

end RepoDocs
