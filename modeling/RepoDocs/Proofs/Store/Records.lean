import Mathlib.Data.List.Nodup
import RepoDocs.Store.Call

/-! What each operation of the store does to the records: which it adds, which it changes, and which it
leaves as they are. -/

namespace RepoDocs

/-- An operation of the store that changes neither repositories nor jobs. -/
def StoreCall.Mild : StoreCall → Prop
  | createRepository _ | updateRepository _ _ | createJob _ | updateJob _ _ => False
  | _ => True

namespace Store

variable {s : Store} {names : Naming} {now : Instant} {id : String}

/-! ### Changes of some elements -/

section ModifyWhere

variable {α β : Type} {p q : α → Bool} {f : α → α} {as : List α}

@[simp] theorem length_modifyWhere : (modifyWhere p f as).length = as.length := List.length_map ..

theorem map_modifyWhere {g : α → β} (h : ∀ a, g (f a) = g a) :
    (modifyWhere p f as).map g = as.map g := by
  rw [modifyWhere, List.map_map]
  refine List.map_congr_left fun a _ => ?_
  by_cases hp : p a = true
  · simp [hp, h]
  · simp [hp]

theorem modifyWhere_of_not (h : ∀ a ∈ as, ¬p a = true) : modifyWhere p f as = as :=
  (List.map_congr_left fun a ha => if_neg (h a ha)).trans (List.map_id as)

theorem find?_modifyWhere (h : ∀ a, q (f a) = q a) :
    (modifyWhere p f as).find? q = (as.find? q).map fun a => if p a then f a else a := by
  rw [modifyWhere, List.find?_map]
  congr 2
  funext a
  by_cases hp : p a = true
  · simp [hp, h]
  · simp [hp]

theorem modifyWhere_modifyWhere {g : α → α} (h : ∀ a, p (g a) = p a) (as : List α) :
    modifyWhere p f (modifyWhere p g as) = modifyWhere p (fun a => f (g a)) as := by
  simp only [modifyWhere, List.map_map]
  refine List.map_congr_left fun a _ => ?_
  by_cases hp : p a = true
  · simp [hp, h]
  · simp [hp]

theorem mem_modifyWhere {b : α} :
    b ∈ modifyWhere p f as ↔ ∃ a ∈ as, (if p a then f a else a) = b := List.mem_map

end ModifyWhere

/-- Where no key is given twice, a search for the key of a record finds the record. -/
theorem find?_of_nodup {α : Type} {key : α → String} {as : List α} (nodup : (as.map key).Nodup) {a : α}
    (ha : a ∈ as) : as.find? (key · == key a) = some a := by
  cases found : as.find? (key · == key a) with
  | none =>
    have other := List.find?_eq_none.1 found a ha
    simp at other
  | some b =>
    have same : key b = key a := by simpa using List.find?_some found
    exact congrArg some (List.inj_on_of_nodup_map nodup (List.mem_of_find?_eq_some found) ha same)

/-! ### Repositories -/

theorem mem_of_repository? {r : Repository} (h : s.repository? id = some r) :
    r ∈ s.repositories ∧ r.id = id :=
  ⟨List.mem_of_find?_eq_some h, by simpa using List.find?_some h⟩

theorem exists_repository? {r : Repository} (h : r ∈ s.repositories) (hid : r.id = id) :
    ∃ r', s.repository? id = some r' := by
  refine Option.isSome_iff_exists.1 (List.find?_isSome.2 ⟨r, h, ?_⟩)
  simpa using hid

theorem updateRepository_some {r : Repository} (h : s.repository? id = some r)
    (u : RepositoryUpdate) : s.updateRepository id u =
      (.ok (u.apply r),
        { s with repositories := modifyWhere (·.id == id) u.apply s.repositories }) := by
  simp [updateRepository, h]

theorem updateRepository_eq (u : RepositoryUpdate) : (s.updateRepository id u).2 =
    { s with repositories := modifyWhere (·.id == id) u.apply s.repositories } := by
  cases h : s.repository? id with
  | some r => rw [updateRepository_some h]
  | none =>
    have absent : ∀ r ∈ s.repositories, ¬r.id = id := by simpa [repository?] using h
    simp only [updateRepository, h]
    rw [modifyWhere_of_not fun r hr => by simpa using absent r hr]

theorem jobs_updateRepository (u : RepositoryUpdate) :
    (s.updateRepository id u).2.jobs = s.jobs := by
  rw [updateRepository_eq]

theorem repository?_updateRepository (u : RepositoryUpdate) (id' : String) :
    (s.updateRepository id u).2.repository? id' =
      (s.repository? id').map fun r => if r.id == id then u.apply r else r := by
  rw [updateRepository_eq]
  exact find?_modifyWhere (f := u.apply) fun _ => rfl

theorem repository?_updateRepository_self {r : Repository} (h : s.repository? id = some r)
    (u : RepositoryUpdate) : (s.updateRepository id u).2.repository? id = some (u.apply r) := by
  rw [repository?_updateRepository, h, Option.map_some,
    if_pos (by simpa using (mem_of_repository? h).2)]

theorem mem_of_repositoryByUrl? {url : String} {r : Repository}
    (h : s.repositoryByUrl? url = some r) : r ∈ s.repositories ∧ r.url = url :=
  ⟨List.mem_of_find?_eq_some h, by simpa using List.find?_some h⟩

theorem repositoryByUrl?_eq_none {url : String} :
    s.repositoryByUrl? url = none ↔ ∀ r ∈ s.repositories, r.url ≠ url := by
  simp [repositoryByUrl?]

/-- Where no address is on record twice, no other repository has the address of one. -/
theorem repositoryByUrl?_of_mem (nodup : (s.repositories.map (·.url)).Nodup) {r : Repository}
    (h : r ∈ s.repositories) : s.repositoryByUrl? r.url = some r := find?_of_nodup nodup h

/-! ### Jobs -/

theorem mem_of_job? {j : Job} (h : s.job? id = some j) : j ∈ s.jobs ∧ j.id = id :=
  ⟨List.mem_of_find?_eq_some h, by simpa using List.find?_some h⟩

theorem updateJob_some {j : Job} (h : s.job? id = some j) (u : JobUpdate) :
    s.updateJob id now u =
      (.ok (u.apply now j), { s with jobs := modifyWhere (·.id == id) (u.apply now) s.jobs }) := by
  simp [updateJob, h]

theorem updateJob_eq (u : JobUpdate) : (s.updateJob id now u).2 =
    { s with jobs := modifyWhere (·.id == id) (u.apply now) s.jobs } := by
  cases h : s.job? id with
  | some j => rw [updateJob_some h]
  | none =>
    have absent : ∀ j ∈ s.jobs, ¬j.id = id := by simpa [job?] using h
    simp only [updateJob, h]
    rw [modifyWhere_of_not fun j hj => by simpa using absent j hj]

theorem repositories_updateJob (u : JobUpdate) :
    (s.updateJob id now u).2.repositories = s.repositories := by
  rw [updateJob_eq]

theorem job?_updateJob (u : JobUpdate) (id' : String) :
    (s.updateJob id now u).2.job? id' =
      (s.job? id').map fun j => if j.id == id then u.apply now j else j := by
  rw [updateJob_eq]
  exact find?_modifyWhere (f := u.apply now) fun _ => rfl

theorem job?_updateJob_self {j : Job} (h : s.job? id = some j) (u : JobUpdate) :
    (s.updateJob id now u).2.job? id = some (u.apply now j) := by
  rw [job?_updateJob, h, Option.map_some, if_pos (by simpa using (mem_of_job? h).2)]

theorem job?_updateRepository (u : RepositoryUpdate) (id' : String) :
    (s.updateRepository id u).2.job? id' = s.job? id' := by
  rw [job?, jobs_updateRepository, job?]

theorem repository?_updateJob (u : JobUpdate) (id' : String) :
    (s.updateJob id now u).2.repository? id' = s.repository? id' := by
  rw [repository?, repositories_updateJob, repository?]

theorem exists_job? {j : Job} (h : j ∈ s.jobs) (hid : j.id = id) : ∃ j', s.job? id = some j' := by
  refine Option.isSome_iff_exists.1 (List.find?_isSome.2 ⟨j, h, ?_⟩)
  simpa using hid

/-- Where no id is given twice, no other record has the id of a job. -/
theorem eq_of_job? (nodup : (s.jobs.map (·.id)).Nodup) {j j' : Job} (h : s.job? id = some j)
    (h' : j' ∈ s.jobs) (hid : j'.id = id) : j' = j := by
  obtain ⟨hj, hjid⟩ := mem_of_job? h
  exact List.inj_on_of_nodup_map nodup h' hj (hid.trans hjid.symm)

theorem mem_of_currentJob? {repositoryId : String} {j : Job}
    (h : s.currentJob? repositoryId = some j) : j ∈ s.jobs ∧ j.repositoryId = repositoryId := by
  rw [currentJob?, List.findRev?_eq_find?_reverse] at h
  exact ⟨List.mem_reverse.1 (List.mem_of_find?_eq_some h), by simpa using List.find?_some h⟩

theorem currentJob?_createJob (repositoryId repositoryId' : String) :
    (s.createJob id now repositoryId).2.currentJob? repositoryId' =
      if repositoryId = repositoryId' then some (s.createJob id now repositoryId).1
      else s.currentJob? repositoryId' := by
  simp only [currentJob?, List.findRev?_eq_find?_reverse, createJob, List.reverse_append,
    List.reverse_singleton, List.singleton_append, List.find?_cons]
  by_cases h : repositoryId = repositoryId'
  · simp [h]
  · simp [beq_false_of_ne h, h]

/-- Changes of jobs do not touch the order in which they were created. -/
theorem currentJob?_updateJob (u : JobUpdate) (repositoryId : String) :
    (s.updateJob id now u).2.currentJob? repositoryId =
      (s.currentJob? repositoryId).map fun j => if j.id == id then u.apply now j else j := by
  rw [updateJob_eq]
  simp only [currentJob?, List.findRev?_eq_find?_reverse]
  rw [modifyWhere, ← List.map_reverse]
  exact find?_modifyWhere (f := u.apply now) fun _ => rfl

/-! ### Changes of one job and one repository -/

/-- The store after changes of one job and one repository. -/
def changed (s : Store) (jobId repositoryId : String) (f : Job → Job)
    (g : Repository → Repository) : Store :=
  { s with
    jobs := modifyWhere (·.id == jobId) f s.jobs
    repositories := modifyWhere (·.id == repositoryId) g s.repositories }

section Changed

variable {jobId repositoryId : String} {f : Job → Job} {g : Repository → Repository}

theorem changed_self : s.changed jobId repositoryId (fun j => j) (fun r => r) = s := by
  simp [changed, modifyWhere]

theorem job?_changed (hf : ∀ j, (f j).id = j.id) {j : Job} (hj : s.job? jobId = some j) :
    (s.changed jobId repositoryId f g).job? jobId = some (f j) := by
  have found : (modifyWhere (·.id == jobId) f s.jobs).find? (·.id == jobId) = _ :=
    find?_modifyWhere fun j => by rw [hf]
  rw [show s.jobs.find? (·.id == jobId) = some j from hj, Option.map_some,
    if_pos (by simpa using (mem_of_job? hj).2)] at found
  exact found

theorem repository?_changed (hg : ∀ r, (g r).id = r.id) {r : Repository}
    (hr : s.repository? repositoryId = some r) :
    (s.changed jobId repositoryId f g).repository? repositoryId = some (g r) := by
  have found :
      (modifyWhere (·.id == repositoryId) g s.repositories).find? (·.id == repositoryId) = _ :=
    find?_modifyWhere fun r => by rw [hg]
  rw [show s.repositories.find? (·.id == repositoryId) = some r from hr, Option.map_some,
    if_pos (by simpa using (mem_of_repository? hr).2)] at found
  exact found

theorem updateJob_changed (hf : ∀ j, (f j).id = j.id) {j : Job} (hj : s.job? jobId = some j)
    (now : Instant) (u : JobUpdate) :
    (s.changed jobId repositoryId f g).updateJob jobId now u =
      (.ok (u.apply now (f j)),
        s.changed jobId repositoryId (fun j => u.apply now (f j)) g) := by
  have twice := modifyWhere_modifyWhere (p := fun j : Job => j.id == jobId) (f := u.apply now)
    (g := f) (fun j => by rw [hf]) s.jobs
  rw [updateJob_some (job?_changed hf hj)]
  simp only [changed, twice]

theorem updateRepository_changed (hg : ∀ r, (g r).id = r.id) {r : Repository}
    (hr : s.repository? repositoryId = some r) (u : RepositoryUpdate) :
    (s.changed jobId repositoryId f g).updateRepository repositoryId u =
      (.ok (u.apply (g r)), s.changed jobId repositoryId f fun r => u.apply (g r)) := by
  have twice := modifyWhere_modifyWhere (p := fun r : Repository => r.id == repositoryId)
    (f := u.apply) (g := g) (fun r => by rw [hg]) s.repositories
  rw [updateRepository_some (repository?_changed hg hr)]
  simp only [changed, twice]

end Changed

/-! ### Operations -/

theorem perform_mild {c : StoreCall} (h : c.Mild) :
    (s.perform names now c).2.repositories = s.repositories ∧
      (s.perform names now c).2.jobs = s.jobs := by
  cases c <;> first | exact ⟨rfl, rfl⟩ | exact h.elim

/-- No operation takes a repository off the record, or changes its id or its address. -/
theorem exists_repository_perform (call : StoreCall) {r : Repository} (hr : r ∈ s.repositories) :
    ∃ r' ∈ (s.perform names now call).2.repositories, r'.id = r.id ∧ r'.url = r.url := by
  cases call with
  | createRepository new =>
    simp only [perform, createRepository]
    split
    · exact ⟨r, hr, rfl, rfl⟩
    · exact ⟨r, List.mem_append_left _ hr, rfl, rfl⟩
  | updateRepository id u =>
    simp only [perform, updateRepository_eq]
    refine ⟨_, mem_modifyWhere.2 ⟨r, hr, rfl⟩, ?_⟩
    split <;> exact ⟨rfl, rfl⟩
  | updateJob id u =>
    simp only [perform, updateJob_eq]
    exact ⟨r, hr, rfl, rfl⟩
  | _ => exact ⟨r, hr, rfl, rfl⟩

/-- The record of a job remains as it is unless it is changed outright. -/
theorem job?_perform {call : StoreCall} (other : ∀ u, call ≠ .updateJob id u) {j : Job}
    (hj : s.job? id = some j) : (s.perform names now call).2.job? id = some j := by
  cases call with
  | createRepository new =>
    simp only [perform, createRepository]
    split <;> exact hj
  | updateRepository id u =>
    simp only [perform, updateRepository_eq]
    exact hj
  | createJob repositoryId =>
    have found : s.jobs.find? (·.id == id) = some j := hj
    simp [perform, createJob, job?, found]
  | updateJob id' u =>
    have hid : j.id ≠ id' := by
      rintro rfl
      exact other u (by rw [(mem_of_job? hj).2])
    simp [perform, job?_updateJob, hj, hid]
  | _ => exact hj

/-- The record of a repository remains as it is unless it is changed outright. -/
theorem repository?_perform_other {call : StoreCall} (other : ∀ u, call ≠ .updateRepository id u)
    {r : Repository} (hr : s.repository? id = some r) :
    (s.perform names now call).2.repository? id = some r := by
  have found : s.repositories.find? (·.id == id) = some r := hr
  cases call with
  | createRepository new =>
    simp only [perform, createRepository]
    split
    · exact hr
    · simp [repository?, found]
  | updateRepository id' u =>
    have hid : r.id ≠ id' := by
      rintro rfl
      exact other u (by rw [(mem_of_repository? hr).2])
    simp [perform, repository?_updateRepository, hr, hid]
  | updateJob id' u =>
    simp only [perform, repository?_updateJob]
    exact hr
  | _ => exact hr

/-- A store with one repository and a job of it, which is queued. -/
def single : Store where
  repositories :=
    [{ id := "r", url := "https://github.com/o/r", name := "r", owner := "o", createdAt := ⟨0, 0⟩ }]
  jobs := [{ id := "j", repositoryId := "r", createdAt := ⟨0, 0⟩, updatedAt := ⟨0, 0⟩ }]

end Store

/-- Names that tell by their length how many records came before. -/
def Naming.unary : Naming where
  repository n := String.ofList (List.replicate (n + 1) 'r')
  documentation n := String.ofList (List.replicate (n + 1) 'd')
  job n := String.ofList (List.replicate (n + 1) 'j')

theorem ofList_replicate_injective (c : Char) :
    Function.Injective fun n => String.ofList (List.replicate (n + 1) c) := by
  intro m n h
  have h := congrArg String.length h
  simpa using h

end RepoDocs
