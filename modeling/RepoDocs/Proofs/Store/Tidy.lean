import RepoDocs.Proofs.Store.Orderly
import RepoDocs.Text.Blank

/-! The repositories of a store and their jobs, tidy: no two repositories have one address, and of the
jobs of a repository only the one that was created last may be live.  A new job keeps them so if the
last one before it is over. -/

namespace RepoDocs.Store

/-- Each repository has an id and an address of its own, every job belongs to a repository, and a job
that is live is the current one of its repository. -/
structure Tidy (names : Naming) (s : Store) : Prop extends s.Orderly names where
  repositories : s.repositories.map (·.id) =
    (List.range s.repositories.length).map names.repository
  urls : (s.repositories.map (·.url)).Nodup
  trimmed : ∀ r ∈ s.repositories, Text.trimmed r.url = r.url
  owned : ∀ j ∈ s.jobs, ∃ r ∈ s.repositories, r.id = j.repositoryId
  current : ∀ j ∈ s.jobs, j.isTerminal = false → s.currentJob? j.repositoryId = some j

namespace Tidy

variable {names : Naming} {s s' : Store} {now : Instant}

theorem empty : Tidy names {} := ⟨⟨rfl, nofun⟩, rfl, List.nodup_nil, nofun, nofun, nofun⟩

/-- A repository has at most one live job. -/
theorem live_nodup (inj : Function.Injective names.job) (h : s.Tidy names) :
    ((s.jobs.filter fun j => !j.isTerminal).map (·.repositoryId)).Nodup := by
  refine List.Nodup.map_on ?_ ((h.nodup inj).of_map.filter _)
  intro j hj j' hj' hid
  obtain ⟨hj, hlive⟩ := List.mem_filter.1 hj
  obtain ⟨hj', hlive'⟩ := List.mem_filter.1 hj'
  have hcurrent := h.current j hj (by simpa using hlive)
  have hcurrent' := h.current j' hj' (by simpa using hlive')
  rw [hid, hcurrent'] at hcurrent
  exact (Option.some.inj hcurrent).symm

theorem of_same (h : s.Tidy names) (hrepositories : s'.repositories = s.repositories)
    (hjobs : s'.jobs = s.jobs) : s'.Tidy names where
  toOrderly := h.toOrderly.of_jobs hjobs
  repositories := by rw [hrepositories]; exact h.repositories
  urls := by rw [hrepositories]; exact h.urls
  trimmed := by rw [hrepositories]; exact h.trimmed
  owned := by rw [hrepositories, hjobs]; exact h.owned
  current := by simp only [currentJob?, hjobs]; exact h.current

/-- No change of a repository touches its id or its address. -/
theorem updateRepository (h : s.Tidy names) (id : String) (u : RepositoryUpdate) :
    (s.updateRepository id u).2.Tidy names := by
  rw [updateRepository_eq]
  refine ⟨h.toOrderly.of_jobs rfl, ?_, ?_, ?_, ?_, h.current⟩
  · rw [length_modifyWhere, map_modifyWhere (f := u.apply) fun _ => rfl]
    exact h.repositories
  · rw [map_modifyWhere (f := u.apply) fun _ => rfl]
    exact h.urls
  · intro r' hr'
    obtain ⟨r, hr, rfl⟩ := mem_modifyWhere.1 hr'
    split <;> exact h.trimmed r hr
  · intro j hj
    obtain ⟨r, hr, hid⟩ := h.owned j hj
    refine ⟨_, mem_modifyWhere.2 ⟨r, hr, rfl⟩, ?_⟩
    split <;> exact hid

/-- A job that is live after a planned change was live before. -/
theorem updateJob (inj : Function.Injective names.job) (h : s.Tidy names) {id : String}
    {u : JobUpdate} (plans : ∀ j, s.job? id = some j → j.Plans u) :
    (s.updateJob id now u).2.Tidy names := by
  have orderly : (s.updateJob id now u).2.Orderly names := (h.toOrderly.updateJob inj plans).1
  have current (repositoryId : String) :
      (s.updateJob id now u).2.currentJob? repositoryId = _ :=
    currentJob?_updateJob u repositoryId
  rw [updateJob_eq] at orderly current ⊢
  refine ⟨orderly, h.repositories, h.urls, h.trimmed, ?_, ?_⟩
  · intro j' hj'
    obtain ⟨j, hj, rfl⟩ := mem_modifyWhere.1 hj'
    obtain ⟨r, hr, hid⟩ := h.owned j hj
    refine ⟨r, hr, ?_⟩
    split <;> exact hid
  · intro j' hj' live
    obtain ⟨j, hj, rfl⟩ := mem_modifyWhere.1 hj'
    have before : j.isTerminal = false ∧
        (if j.id == id then u.apply now j else j).repositoryId = j.repositoryId := by
      split at live
      · rename_i hid
        have hid : j.id = id := by simpa using hid
        obtain ⟨j', hj'⟩ := exists_job? hj hid
        have planned : j.Plans u := eq_of_job? (h.nodup inj) hj' hj hid ▸ plans j' hj'
        rw [if_pos (by simpa using hid)]
        exact ⟨(planned.advance now).live, rfl⟩
      · rw [if_neg ‹_›]
        exact ⟨live, rfl⟩
    rw [before.2, current, h.current j hj before.1]
    rfl

/-- A new repository gets a new id, and its address was not on record. -/
theorem createRepository (h : s.Tidy names) {r : Repository}
    (hid : r.id = names.repository s.repositories.length)
    (absent : s.repositoryByUrl? r.url = none) (trimmed : Text.trimmed r.url = r.url) :
    Tidy names { s with repositories := s.repositories ++ [r] } where
  toOrderly := h.toOrderly.of_jobs rfl
  repositories := by simp [h.repositories, List.range_succ, hid]
  urls := by
    rw [List.map_append, List.nodup_append]
    refine ⟨h.urls, List.nodup_singleton _, ?_⟩
    have absent := repositoryByUrl?_eq_none.1 absent
    simpa using absent
  trimmed := List.forall_mem_append.2 ⟨h.trimmed, List.forall_mem_singleton.2 trimmed⟩
  owned j hj := by
    obtain ⟨r', hr', hid⟩ := h.owned j hj
    exact ⟨r', List.mem_append_left _ hr', hid⟩
  current := h.current

/-- A new job of a repository becomes its current one, so the one before must be over. -/
theorem createJob (h : s.Tidy names) {r : Repository} (hr : r ∈ s.repositories)
    (vacant : ∀ j, s.currentJob? r.id = some j → j.isTerminal = true) :
    (s.createJob (names.job s.jobs.length) now r.id).2.Tidy names where
  toOrderly := (h.toOrderly.createJob r.id).1
  repositories := h.repositories
  urls := h.urls
  trimmed := h.trimmed
  owned := by
    refine List.forall_mem_append.2 ⟨h.owned, List.forall_mem_singleton.2 ⟨r, hr, rfl⟩⟩
  current := by
    intro j hj live
    rw [currentJob?_createJob]
    rcases List.mem_append.1 hj with hj | hj
    · have hcurrent := h.current j hj live
      have other : r.id ≠ j.repositoryId := by
        intro hid
        rw [← hid] at hcurrent
        exact absurd (vacant j hcurrent) (by simp [live])
      rw [if_neg other]
      exact hcurrent
    · obtain rfl := List.mem_singleton.1 hj
      exact if_pos rfl

/-- A repository that is yet to be named has no jobs. -/
theorem currentJob?_new (inj : Function.Injective names.repository) (h : s.Tidy names) :
    s.currentJob? (names.repository s.repositories.length) = none := by
  cases hcurrent : s.currentJob? (names.repository s.repositories.length) with
  | none => rfl
  | some j =>
    obtain ⟨hj, hid⟩ := mem_of_currentJob? hcurrent
    obtain ⟨r, hr, hr'⟩ := h.owned j hj
    have named : r.id ∈ (List.range s.repositories.length).map names.repository :=
      h.repositories ▸ List.mem_map_of_mem hr
    obtain ⟨n, hn, hname⟩ := List.mem_map.1 named
    have : n = s.repositories.length := inj (hname.trans (hr'.trans hid))
    exact absurd (List.mem_range.1 hn) (by omega)

end Tidy

end RepoDocs.Store
