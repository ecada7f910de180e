import RepoDocs.Proofs.Store.History
import Std.Data.HashMap.Lemmas

/-! The store as tables.  Repositories and jobs are in hash tables under their ids, and the order in which
the jobs were created is in a list beside them.  Whatever the operations, the tables reply as the store whose
records are in lists, and the table of the jobs and their order stay in step. -/

namespace RepoDocs

/-! ### Tables and lists of records -/

/-- The table has the records of the list, each under its key. -/
structure Indexes {α : Type} (key : α → String) (table : Std.HashMap String α) (as : List α) :
    Prop where
  find : ∀ id, table[id]? = as.find? (key · == id)
  size : table.size = as.length

namespace Indexes

variable {α : Type} {key : α → String} {table : Std.HashMap String α} {as : List α} {a : α}
  {id : String}

theorem empty : Indexes key {} [] := ⟨fun _ => Std.HashMap.getElem?_empty, Std.HashMap.size_empty⟩

theorem mem_iff (h : Indexes key table as) : id ∈ table ↔ id ∈ as.map key := by
  rw [Std.HashMap.mem_iff_isSome_getElem?, h.find, List.find?_isSome]
  simp

theorem insert (h : Indexes key table as) (fresh : key a ∉ as.map key) :
    Indexes key (table.insert (key a) a) (as ++ [a]) where
  find id := by
    rw [Std.HashMap.getElem?_insert, h.find, List.find?_append]
    by_cases same : key a = id
    · have absent : as.find? (key · == id) = none := by
        rw [List.find?_eq_none]
        intro b hb hid
        exact fresh (List.mem_map.2 ⟨b, hb, (beq_iff_eq.1 hid).trans same.symm⟩)
      simp [absent, same]
    · simp [same]
  size := by
    rw [Std.HashMap.size_insert, if_neg (mt h.mem_iff.1 fresh), h.size, List.length_append]
    rfl

theorem modify (h : Indexes key table as) (found : as.find? (key · == id) = some a) {f : α → α}
    (kept : ∀ b, key (f b) = key b) :
    Indexes key (table.insert id (f a)) (Store.modifyWhere (key · == id) f as) where
  find id' := by
    rw [Std.HashMap.getElem?_insert, h.find, Store.find?_modifyWhere fun b => by rw [kept b]]
    by_cases same : id = id'
    · have hid : key a = id := by simpa using List.find?_some found
      simp [← same, found, hid]
    · cases other : as.find? (key · == id') with
      | none => simp [same]
      | some b =>
        have hid : key b = id' := by simpa using List.find?_some other
        simp [same, hid, Ne.symm same]
  size := by
    have present : id ∈ table := by
      rw [Std.HashMap.mem_iff_isSome_getElem?, h.find, found]
      rfl
    rw [Std.HashMap.size_insert, if_pos present, h.size, Store.length_modifyWhere]

end Indexes

/-! ### The tables -/

structure Tables where
  repositories : Std.HashMap String Repository := {}
  documentation : List Documentation := []
  jobs : Std.HashMap String Job := {}
  /-- The ids of the jobs in the order in which they were created. -/
  jobOrder : List String := []

namespace Tables

/-- The repositories, in an order that the table decides. -/
def records (t : Tables) : List Repository := t.repositories.toList.map (·.2)

def createRepository (t : Tables) (r : Repository) : Except StoreError Repository × Tables :=
  if t.records.any (·.url == r.url) then (.error ⟨s!"repository already exists: {r.url}"⟩, t)
  else (.ok r, { t with repositories := t.repositories.insert r.id r })

def updateRepository (t : Tables) (id : String) (u : RepositoryUpdate) :
    Except StoreError Repository × Tables :=
  match t.repositories[id]? with
  | none => (.error ⟨s!"repository not found: {id}"⟩, t)
  | some r => (.ok (u.apply r), { t with repositories := t.repositories.insert id (u.apply r) })

/-- The job of a repository that comes last in the order of the jobs. -/
def currentJob? (t : Tables) (repositoryId : String) : Option Job :=
  (t.jobOrder.reverse.filterMap (t.jobs[·]?)).find? (·.repositoryId == repositoryId)

def updateJob (t : Tables) (id : String) (now : Instant) (u : JobUpdate) :
    Except StoreError Job × Tables :=
  match t.jobs[id]? with
  | none => (.error ⟨s!"analysis job not found: {id}"⟩, t)
  | some j => (.ok (u.apply now j), { t with jobs := t.jobs.insert id (u.apply now j) })

/-- Carry out an operation. -/
def perform (t : Tables) (names : Naming) (now : Instant) :
    (c : StoreCall) → Except StoreError c.Reply × Tables
  | .createRepository new =>
    t.createRepository (new.record (names.repository t.repositories.size) now)
  | .getRepository id => (.ok t.repositories[id]?, t)
  | .getRepositoryByUrl url => (.ok (t.records.find? (·.url == url)), t)
  | .updateRepository id u => t.updateRepository id u
  | .createDocumentation new =>
    let d := new.record (names.documentation t.documentation.length) now
    (.ok d, { t with documentation := t.documentation ++ [d] })
  | .getDocumentation id => (.ok (t.documentation.find? (·.id == id)), t)
  | .documentationOf repositoryId kind? =>
    (.ok ((t.documentation.filter (·.repositoryId == repositoryId)).filter fun d =>
      kind?.all (· = d.kind)), t)
  | .createJob repositoryId =>
    let j := Job.record (names.job t.jobOrder.length) repositoryId now
    (.ok j, { t with jobOrder := t.jobOrder ++ [j.id], jobs := t.jobs.insert j.id j })
  | .getJob id => (.ok t.jobs[id]?, t)
  | .currentJob repositoryId => (.ok (t.currentJob? repositoryId), t)
  | .updateJob id u => t.updateJob id now u

/-- The tables after some operations. -/
def replay (t : Tables) (names : Naming) (h : History) : Tables :=
  h.foldl (fun t e => (t.perform names e.1 e.2).2) t

/-- The tables hold what the store does. -/
structure Represents (t : Tables) (s : Store) : Prop where
  repositories : Indexes (·.id) t.repositories s.repositories
  documentation : t.documentation = s.documentation
  jobs : Indexes (·.id) t.jobs s.jobs
  jobOrder : t.jobOrder = s.jobs.map (·.id)

variable {t : Tables} {s : Store} {names : Naming} {now : Instant} {h : History}

theorem represents_empty : Represents {} {} := ⟨.empty, rfl, .empty, rfl⟩

namespace Represents

theorem mem_records (represents : t.Represents s) (nodup : (s.repositories.map (·.id)).Nodup)
    {r : Repository} : r ∈ t.records ↔ r ∈ s.repositories := by
  simp only [records, List.mem_map, Prod.exists, exists_eq_right,
    Std.HashMap.mem_toList_iff_getElem?_eq_some, represents.repositories.find]
  exact ⟨fun ⟨_, found⟩ => List.mem_of_find?_eq_some found,
    fun mem => ⟨r.id, Store.find?_of_nodup nodup mem⟩⟩

/-- No two repositories have one address, so the order of the table does not matter. -/
theorem repositoryByUrl? (represents : t.Represents s) (nodup : (s.repositories.map (·.id)).Nodup)
    (urls : (s.repositories.map (·.url)).Nodup) (url : String) :
    t.records.find? (·.url == url) = s.repositoryByUrl? url := by
  cases found : t.records.find? (·.url == url) with
  | none =>
    have absent := List.find?_eq_none.1 found
    refine (Store.repositoryByUrl?_eq_none.2 fun r hr same => ?_).symm
    exact absent r ((represents.mem_records nodup).2 hr) (by simpa using same)
  | some r =>
    have mem := (represents.mem_records nodup).1 (List.mem_of_find?_eq_some found)
    have same : r.url = url := by simpa using List.find?_some found
    exact same ▸ (Store.repositoryByUrl?_of_mem urls mem).symm

theorem currentJob? (represents : t.Represents s) (nodup : (s.jobs.map (·.id)).Nodup)
    (repositoryId : String) : t.currentJob? repositoryId = s.currentJob? repositoryId := by
  have inOrder : t.jobOrder.reverse.filterMap (t.jobs[·]?) = s.jobs.reverse := by
    rw [represents.jobOrder, ← List.map_reverse, List.filterMap_map]
    refine (List.filterMap_congr fun j hj => ?_).trans List.filterMap_some
    exact (represents.jobs.find j.id).trans (Store.find?_of_nodup nodup (List.mem_reverse.1 hj))
  rw [Tables.currentJob?, inOrder, Store.currentJob?, List.findRev?_eq_find?_reverse]

theorem createRepository (represents : t.Represents s) (nodup : (s.repositories.map (·.id)).Nodup)
    (urls : (s.repositories.map (·.url)).Nodup) {id : String} (fresh : id ∉ s.repositories.map (·.id))
    (now : Instant) (new : NewRepository) :
    (t.createRepository (new.record id now)).1 = (s.createRepository id now new).1 ∧
      (t.createRepository (new.record id now)).2.Represents (s.createRepository id now new).2 := by
  have any : t.records.any (·.url == new.url) = (s.repositoryByUrl? new.url).isSome := by
    rw [← represents.repositoryByUrl? nodup urls, Bool.eq_iff_iff, List.find?_isSome, List.any_eq_true]
  have url : (new.record id now).url = new.url := rfl
  rw [Tables.createRepository, Store.createRepository, url, any]
  cases found : s.repositoryByUrl? new.url with
  | some r =>
    rw [← (Store.mem_of_repositoryByUrl? found).2]
    exact ⟨rfl, represents⟩
  | none =>
    have inserted := represents.repositories.insert (a := new.record id now) fresh
    exact ⟨rfl, { represents with repositories := inserted }⟩

theorem updateRepository (represents : t.Represents s) (id : String) (u : RepositoryUpdate) :
    (t.updateRepository id u).1 = (s.updateRepository id u).1 ∧
      (t.updateRepository id u).2.Represents (s.updateRepository id u).2 := by
  have same : t.repositories[id]? = s.repository? id := represents.repositories.find id
  rw [Tables.updateRepository, Store.updateRepository, same]
  cases found : s.repository? id with
  | none => exact ⟨rfl, represents⟩
  | some r =>
    have changed := represents.repositories.modify found (f := u.apply) fun _ => rfl
    exact ⟨rfl, { represents with repositories := changed }⟩

theorem createJob (represents : t.Represents s) {id : String} (fresh : id ∉ s.jobs.map (·.id))
    (now : Instant) (repositoryId : String) :
    Represents { t with jobOrder := t.jobOrder ++ [id]
                        jobs := t.jobs.insert id (.record id repositoryId now) }
      (s.createJob id now repositoryId).2 :=
  { represents with
    jobs := represents.jobs.insert (a := .record id repositoryId now) fresh
    jobOrder := by simp [Store.createJob, represents.jobOrder] }

theorem updateJob (represents : t.Represents s) (id : String) (now : Instant) (u : JobUpdate) :
    (t.updateJob id now u).1 = (s.updateJob id now u).1 ∧
      (t.updateJob id now u).2.Represents (s.updateJob id now u).2 := by
  have same : t.jobs[id]? = s.job? id := represents.jobs.find id
  rw [Tables.updateJob, Store.updateJob, same]
  cases found : s.job? id with
  | none => exact ⟨rfl, represents⟩
  | some j =>
    have changed := represents.jobs.modify found (f := u.apply now) fun _ => rfl
    have jobOrder : t.jobOrder = (Store.modifyWhere (·.id == id) (u.apply now) s.jobs).map (·.id) := by
      rw [Store.map_modifyWhere (f := u.apply now) fun _ => rfl]
      exact represents.jobOrder
    exact ⟨rfl, { represents with jobs := changed, jobOrder }⟩

end Represents

/-! ### Operations -/

/-- No record has the id that the next one is given. -/
theorem fresh_of_range {name : Nat → String} (inj : Function.Injective name) {ids : List String} {n : Nat}
    (named : ids = (List.range n).map name) : name n ∉ ids := by
  rw [named, List.mem_map_of_injective inj, List.mem_range]
  exact Nat.lt_irrefl n

section Operations

variable (inj_repository : Function.Injective names.repository) (inj_job : Function.Injective names.job)

include inj_repository inj_job

/-- An operation replies the same on the tables, and then they hold what the store does. -/
theorem Represents.perform (represents : t.Represents s) (filed : s.Filed names) (now : Instant)
    (c : StoreCall) : (t.perform names now c).1 = (s.perform names now c).1 ∧
      (t.perform names now c).2.Represents (s.perform names now c).2 := by
  have nodup := filed.nodup_repositories inj_repository
  cases c with
  | createRepository new =>
    have fresh := fresh_of_range inj_repository filed.repositories
    simp only [Tables.perform, Store.perform, represents.repositories.size]
    exact represents.createRepository nodup filed.urls fresh now new
  | getRepository id => exact ⟨congrArg Except.ok (represents.repositories.find id), represents⟩
  | getRepositoryByUrl url =>
    exact ⟨congrArg Except.ok (represents.repositoryByUrl? nodup filed.urls url), represents⟩
  | updateRepository id u => exact represents.updateRepository id u
  | createDocumentation new =>
    simp only [Tables.perform, Store.perform, represents.documentation]
    exact ⟨rfl, { represents with documentation := rfl }⟩
  | getDocumentation id =>
    simp only [Tables.perform, represents.documentation]
    exact ⟨rfl, represents⟩
  | documentationOf repositoryId kind? =>
    simp only [Tables.perform, represents.documentation, List.filter_filter]
    exact ⟨congrArg Except.ok (List.filter_congr fun d _ => Bool.and_comm ..), represents⟩
  | createJob repositoryId =>
    have fresh := fresh_of_range inj_job filed.jobs
    have length : t.jobOrder.length = s.jobs.length := by rw [represents.jobOrder, List.length_map]
    simp only [Tables.perform, Store.perform, length]
    exact ⟨rfl, represents.createJob fresh now repositoryId⟩
  | getJob id => exact ⟨congrArg Except.ok (represents.jobs.find id), represents⟩
  | currentJob repositoryId =>
    have nodup := filed.nodup_jobs inj_job
    exact ⟨congrArg Except.ok (represents.currentJob? nodup repositoryId), represents⟩
  | updateJob id u => exact represents.updateJob id now u

theorem Represents.replay (represents : t.Represents s) (filed : s.Filed names) (h : History) :
    (t.replay names h).Represents (s.replay names h) := by
  induction h generalizing t s with
  | nil => exact represents
  | cons e h ih =>
    have after := (represents.perform inj_repository inj_job filed e.1 e.2).2
    exact ih after (filed.perform e.2)

/-- Whatever the operations before, the next one replies the same on the tables as on the store. -/
theorem perform_replay (h : History) (now : Instant) (c : StoreCall) :
    ((replay {} names h).perform names now c).1 = ((Store.replay {} names h).perform names now c).1 :=
  have represents := represents_empty.replay inj_repository inj_job Store.filed_empty h
  (represents.perform inj_repository inj_job (Store.filed_empty.replay h) now c).1

/-- The table of the jobs has one job for each entry of their order, and the order has no id twice. -/
theorem inStep_replay (h : History) :
    (replay {} names h).jobOrder.Nodup ∧
      (replay {} names h).jobs.size = (replay {} names h).jobOrder.length ∧
      ∀ id, id ∈ (replay {} names h).jobOrder ↔ id ∈ (replay {} names h).jobs := by
  have represents := represents_empty.replay inj_repository inj_job Store.filed_empty h
  have nodup := (Store.filed_empty.replay h).nodup_jobs inj_job
  refine ⟨represents.jobOrder ▸ nodup, ?_, fun id => ?_⟩
  · rw [represents.jobs.size, represents.jobOrder, List.length_map]
  · rw [represents.jobOrder, represents.jobs.mem_iff]

/-- What the tables give as the current job of a repository is the one that was created last, with every
change since. -/
theorem currentJob?_replay (h : History) (repositoryId : String) (j : Job) :
    (replay {} names h).currentJob? repositoryId = some j ↔ h.LastJob names repositoryId j := by
  have represents := represents_empty.replay inj_repository inj_job Store.filed_empty h
  have nodup := (Store.filed_empty.replay h).nodup_jobs inj_job
  rw [represents.currentJob? nodup, Store.currentJob?_replay]

end Operations

end Tables

end RepoDocs
