import RepoDocs.Proofs.Analysis.Completion
import RepoDocs.Proofs.Process.Course

/-! What a run that succeeds leaves of the record of its repository, when nobody else changes that record
during the run: whatever it held before, it holds what the source told, but a description or a language
that the source told nothing of remains from before. -/

namespace RepoDocs

/-- The change of a repository's record that an event has made. -/
def Event.update? (id : String) : Event Effects → Option RepositoryUpdate
  | ⟨.store (.updateRepository id' u), x⟩ => if id' = id ∧ x.isOk then some u else none
  | _ => none

/-- What the source has told about a repository. -/
def Event.metadata? : Event Effects → Option RepositoryMetadata
  | ⟨.call (.metadata _) _, some (.ok m)⟩ => some m
  | _ => none

theorem Event.update?_error (id : String) (c : StoreCall) (e : StoreError) :
    Event.update? id ⟨.store c, .error e⟩ = none := by
  cases c <;> simp [update?, Except.isOk, Except.toBool]

theorem Event.update?_other {id : String} {c : StoreCall} (other : ∀ u, c ≠ .updateRepository id u)
    (x : Except StoreError c.Reply) : Event.update? id ⟨.store c, x⟩ = none := by
  cases c with
  | updateRepository id' u => exact if_neg fun (h : id' = id ∧ _) => other u (h.1 ▸ rfl)
  | _ => rfl

namespace Circumstances

variable {k : Circumstances} {id : String} {s s' : Store} {events : List (Event Effects)}

/-- Others leave the record of a repository as it is. -/
def Spares (k : Circumstances) (id : String) : Prop :=
  ∀ s s' r, k.others s s' → s.repository? id = some r → s'.repository? id = some r

theorem Spares.quiet (names : Naming) (reply : (c : Call) → c.Reply) :
    (quiet names reply).Spares id :=
  fun _ _ _ h => h.elim

/-- After a course, the record of a repository has the changes of its events, one upon the other. -/
theorem Along.repository? (h : k.Along s events s') (spares : k.Spares id) {r : Repository}
    (hr : s.repository? id = some r) : s'.repository? id =
      some ((events.filterMap (Event.update? id)).foldl (fun r u => u.apply r) r) := by
  induction h generalizing r with
  | rest => exact hr
  | meanwhile step _ ih => exact ih (spares _ _ _ step hr)
  | failed _ _ ih =>
    rw [List.filterMap_cons_none (Event.update?_error ..)]
    exact ih hr
  | @performed c s _ _ now _ ih =>
    by_cases other : ∀ u, c ≠ .updateRepository id u
    · rw [List.filterMap_cons_none (Event.update?_other other _)]
      exact ih (Store.repository?_perform_other other hr)
    · push Not at other
      obtain ⟨u, rfl⟩ := other
      have updated : s.perform k.names now (.updateRepository id u) = _ :=
        Store.updateRepository_some hr u
      have changed : Event.update? id
          ⟨.store (.updateRepository id u), (s.perform k.names now (.updateRepository id u)).1⟩ =
            some u := by
        rw [updated]
        exact if_pos ⟨rfl, rfl⟩
      rw [List.filterMap_cons_some changed]
      exact ih (Store.repository?_updateRepository_self hr u)
  | replied _ _ ih => exact ih hr

end Circumstances

/-- A request that neither changes the record of a repository nor asks for its metadata. -/
def Effect.Unnoted : Effect → Prop
  | store (.updateRepository _ _) | call (.metadata _) _ => False
  | _ => True

/-- The changes of a repository's record and the metadata among some events. -/
structure Notes (id : String) (updates : List RepositoryUpdate)
    (metadata : List RepositoryMetadata) (events : List (Event Effects)) : Prop where
  updates : events.filterMap (Event.update? id) = updates
  metadata : events.filterMap Event.metadata? = metadata

section Notes

variable {k : Circumstances} {id : String} {updates : List RepositoryUpdate}
  {metadata : List RepositoryMetadata} {events : List (Event Effects)}

theorem Notes.snoc (notes : Notes id updates metadata events) (v : Event Effects) :
    Notes id (updates ++ (v.update? id).toList) (metadata ++ v.metadata?.toList)
      (events ++ [v]) where
  updates := by cases h : v.update? id <;> simp [notes.updates, h]
  metadata := by cases h : v.metadata? <;> simp [notes.metadata, h]

theorem Event.update?_unnoted {r : Effect} (h : r.Unnoted) (x : r.Reply) :
    Event.update? id ⟨r, x⟩ = none := by
  rcases r with c | _
  · exact Event.update?_other (fun u hc => by cases hc; exact h) x
  · rfl

theorem Event.metadata?_unnoted {r : Effect} (h : r.Unnoted) (x : r.Reply) :
    Event.metadata? ⟨r, x⟩ = none := by
  rcases r with _ | ⟨c, _⟩
  · rfl
  · cases c with
    | metadata => exact h.elim
    | _ => rfl

theorem Notes.unnoted (notes : Notes id updates metadata events) {r : Effect} (h : r.Unnoted)
    (x : r.Reply) : Notes id updates metadata (events ++ [⟨r, x⟩]) := by
  have snoc := notes.snoc ⟨r, x⟩
  rwa [Event.update?_unnoted h, Event.metadata?_unnoted h, Option.toList_none, Option.toList_none,
    List.append_nil, List.append_nil] at snoc

end Notes

namespace Analysis

open Program

variable {k : Circumstances} {id : String} {updates : List RepositoryUpdate}
  {metadata : List RepositoryMetadata} {events : List (Event Effects)} {config : AnalysisConfig}

/-- What has to hold of the events before a request, which may get any reply that the circumstances
admit. -/
abbrev told (k : Circumstances) : Rule Effects (List (Event Effects)) :=
  telling (fun _ _ => True) k.Admits

theorem keeps_notes {x : Program Effects α} (h : x.Asks Effect.Unnoted) :
    x.Keeps (told k) (Notes id updates metadata) :=
  h.keeps_telling (fun _ _ _ => trivial) fun _ unnoted x _ notes => notes.unnoted unnoted x

theorem wp_told_updateRepository {u : RepositoryUpdate}
    {post : Except AnalysisError Repository → List (Event Effects) → Prop}
    (notes : Notes id updates metadata events) (failed : ∀ e events, post (.error e) events)
    (h : ∀ r events, r.id = id → Notes id (updates ++ [u]) metadata events →
      post (.ok (u.apply r)) events) :
    (onRecord (.updateRepository id u)).run.wp (told k) post events := by
  rw [wp_onRecord]
  refine ⟨trivial, fun x admitted => ?_⟩
  rcases admitted with ⟨e, -, rfl⟩ | ⟨s, now, rfl⟩
  · exact failed _ _
  · cases known : s.repository? id with
    | none =>
      simp only [Store.perform, Store.updateRepository, known]
      exact failed _ _
    | some r =>
      have snoc := notes.snoc ⟨.store (.updateRepository id u), .ok (u.apply r)⟩
      simp only [Store.perform, Store.updateRepository_some known]
      refine h r _ (Store.mem_of_repository? known).2 ?_
      simpa [Event.update?, Event.metadata?, Except.isOk, Except.toBool] using snoc

theorem wp_told_fetchMetadata {url : String}
    {post : Except AnalysisError RepositoryMetadata → List (Event Effects) → Prop}
    (notes : Notes id updates metadata events) (failed : ∀ e events, post (.error e) events)
    (h : ∀ m events, Notes id updates (metadata ++ [m]) events → post (.ok m) events) :
    (fetchMetadata config url).run.wp (told k) post events := by
  rw [wp_fetchMetadata]
  refine ⟨trivial, fun x _ => ?_⟩
  rcases x with _ | e | m
  · exact failed _ _
  · exact failed _ _
  · have snoc := notes.snoc ⟨.call (.metadata url) config.deadline?, some (.ok m)⟩
    refine h m _ ?_
    simpa [Event.update?, Event.metadata?] using snoc

/-- The events of a run that has succeeded: the source has told about its repository once, and the
record was changed accordingly. -/
def Completes (config : AnalysisConfig) (o : Outcome) (events : List (Event Effects)) : Prop :=
  ∃ m, Notes o.repository.id [.ofStatus .analyzing, describe m, .ofStatus .completed] [m] events ∧
    o.mainFiles = mainFilesOf config m

theorem keeps_notes_advance (jobId : String) (c : Checkpoint) :
    (advance jobId c).run.Keeps (told k) (Notes id updates metadata) :=
  keeps_notes (asks_advance trivial fun _ => trivial)

theorem wp_told_execute (jobId : String) (r : Repository) (notes : Notes r.id [] [] events) :
    (execute config jobId r).run.wp (told k) (fun
      | .ok o => Completes config o
      | .error _ => fun _ => True) events := by
  have mono : (told k).Mono := telling_mono
  rw [execute]
  refine (keeps_notes_advance jobId _).wp_run_bind mono notes (fun _ _ _ => trivial)
    fun _ _ notes => ?_
  rw [wp_run_bind]
  refine wp_told_updateRepository notes (fun _ _ => trivial) fun _ _ _ notes => ?_
  dsimp only
  rw [wp_run_bind]
  refine wp_told_fetchMetadata notes (fun _ _ => trivial) fun m _ notes => ?_
  dsimp only
  rw [wp_run_bind]
  refine wp_told_updateRepository notes (fun _ _ => trivial) fun r₁ _ hid notes => ?_
  simp only [apply_describe]
  -- From here on the record goes by the reply to its change.
  have same : (r₁.described m).id = r.id := hid
  have files : FileNode.mainFiles config.maxMainFiles (r₁.described m).files =
    mainFilesOf config m := rfl
  generalize r₁.described m = r₁ at same files ⊢
  rw [← same] at notes
  refine (keeps_notes_advance jobId _).wp_run_bind mono notes (fun _ _ _ => trivial)
    fun _ _ notes => ?_
  refine ((keeps_notes (asks_fetchMany (fun _ => trivial) _)).run_lift mono).wp_run_bind mono notes
    (fun _ _ _ => trivial) fun _ _ notes => ?_
  refine (keeps_notes_advance jobId _).wp_run_bind mono notes (fun _ _ _ => trivial)
    fun _ _ notes => ?_
  refine (keeps_notes (asks_reportQuality trivial)).wp_run_bind mono notes (fun _ _ _ => trivial)
    fun _ _ notes => ?_
  refine (keeps_notes_advance jobId _).wp_run_bind mono notes (fun _ _ _ => trivial)
    fun _ _ notes => ?_
  refine (keeps_notes (asks_onRecord (c := .createDocumentation _) trivial)).wp_run_bind mono notes
    (fun _ _ _ => trivial) fun _ _ notes => ?_
  rw [wp_run_bind]
  refine wp_told_updateRepository notes (fun _ _ => trivial) fun r₂ _ hid notes => ?_
  dsimp only
  refine (keeps_notes_advance jobId _).wp_run_bind mono notes (fun _ _ _ => trivial)
    fun _ _ notes => ?_
  rw [← hid] at notes
  exact ⟨m, notes, files⟩

/-- A run looks up its job and its repository before its work, and marks them after a failure of it.
Where that meets the demand, a run that succeeds is known by its work. -/
theorem wp_telling_run {demand : Effect → List (Event Effects) → Prop}
    {admits : (r : Effect) → r.Reply → Prop} {jobId : String} (may : Effect → Prop)
    (post : Outcome → List (Event Effects) → Prop) (met : ∀ r, may r → ∀ before, demand r before)
    (getJob : may (.store (.getJob jobId))) (getRepository : ∀ id, may (.store (.getRepository id)))
    (updateJob : ∀ u, may (.store (.updateJob jobId u)))
    (updateRepository : ∀ id u, may (.store (.updateRepository id u)))
    (works : ∀ r id x y, (execute config jobId r).run.wp (telling demand admits)
      (fun
        | .ok o => post o
        | .error _ => fun _ => True)
      [⟨.store (.getJob jobId), x⟩, ⟨.store (.getRepository id), y⟩]) :
    (run config jobId).run.wp (telling demand admits) (fun
      | .ok o => post o
      | .error _ => fun _ => True) [] := by
  rw [wp_run]
  refine ⟨met _ getJob _, fun x _ => ?_⟩
  dsimp only
  cases loaded (.jobNotFound jobId) x with
  | error e => trivial
  | ok job =>
    refine ⟨met _ (getRepository _) _, fun y _ => ?_⟩
    dsimp only
    cases loaded (.repositoryNotFound job.repositoryId) y with
    | error e => trivial
    | ok r =>
      refine wp_mono telling_mono (fun result events h => ?_) _ _ (works r _ x y)
      cases result with
      | ok o => exact h
      | error e =>
        have marks := asks_fail getJob updateJob (updateRepository r.id) e
        exact marks.keeps_telling (I := fun _ => True) met (fun _ _ _ _ => id) events trivial

theorem wp_told_run (config : AnalysisConfig) (jobId : String) :
    (run config jobId).run.wp (told k) (fun
      | .ok o => Completes config o
      | .error _ => fun _ => True) [] :=
  wp_telling_run (fun _ => True) (Completes config) (fun _ _ _ => trivial) trivial
    (fun _ => trivial) (fun _ => trivial) (fun _ _ => trivial)
    fun r _ _ _ => wp_told_execute jobId r ⟨rfl, rfl⟩

theorem completes_run {jobId : String} {o : Outcome} {s s' : Store}
    (leads : (run config jobId).run.Leads events (.done (.ok o))) (along : k.Along s events s') :
    Completes config o events :=
  leads.wp along.admits (wp_told_run config jobId)

theorem Completes.repository? {o : Outcome} {s s' : Store} (completes : Completes config o events)
    (along : k.Along s events s') (spares : k.Spares o.repository.id) {r : Repository}
    (hr : s.repository? o.repository.id = some r) :
    ∃ m, events.filterMap Event.metadata? = [m] ∧ o.mainFiles = mainFilesOf config m ∧
      s'.repository? o.repository.id = some ((r.described m).withStatus .completed) := by
  obtain ⟨m, notes, mainFiles⟩ := completes
  refine ⟨m, notes.metadata, mainFiles, ?_⟩
  rw [along.repository? spares hr, notes.updates]
  rfl

/-- The record of a repository says what its source tells about it. -/
structure Agrees (r : Repository) (m : RepositoryMetadata) : Prop where
  name : r.name = m.name
  owner : r.owner = m.owner
  description : r.description? = m.description?
  language : r.language? = m.language?
  files : r.files = FileNode.sortForest m.files

theorem or_eq_left_iff {a b : Option α} : (a <|> b) = a ↔ (a = none → b = none) := by
  cases a <;> simp

theorem agrees_described {r : Repository} {m : RepositoryMetadata} {status : AnalysisStatus} :
    Agrees ((r.described m).withStatus status) m ↔
      (m.description? = none → r.description? = none) ∧
        (m.language? = none → r.language? = none) := by
  constructor
  · intro h
    exact ⟨or_eq_left_iff.1 h.description, or_eq_left_iff.1 h.language⟩
  · rintro ⟨description, language⟩
    exact ⟨rfl, rfl, or_eq_left_iff.2 description, or_eq_left_iff.2 language, rfl⟩

/-- A run that succeeds, while nobody else changes the record of its repository, has the source tell
about the repository once, and merges that into the record: afterwards it says what the source told if
and only if neither a description nor a language was there before of which the source told nothing. -/
theorem completed_run_merges_metadata (config : AnalysisConfig) (jobId : String)
    {k : Circumstances} {events : List (Event Effects)} {o : Outcome} {s s' : Store}
    {r : Repository} (leads : (run config jobId).run.Leads events (.done (.ok o)))
    (along : k.Along s events s') (spares : k.Spares o.repository.id)
    (hr : s.repository? o.repository.id = some r) :
    ∃ m r', events.filterMap Event.metadata? = [m] ∧
      s'.repository? o.repository.id = some r' ∧
      r' = (r.described m).withStatus .completed ∧
      (Agrees r' m ↔ (m.description? = none → r.description? = none) ∧
        (m.language? = none → r.language? = none)) := by
  obtain ⟨m, told, -, hr'⟩ := (completes_run leads along).repository? along spares hr
  exact ⟨m, _, told, hr', rfl, agrees_described⟩

/-- A store with a repository that has a description, and a job of it. -/
def describedOnce : Store :=
  { Store.single with
    repositories := Store.single.repositories.map fun r => { r with description? := some "old" } }

/-- A source that has no description of a repository. -/
def undescribing : (c : Call) → c.Reply
  | .metadata _ => .ok { name := "r", owner := "o" }
  | .file _ path => .error (.notFound path)
  | .quality _ => .ok { score := 1 }
  | .readme _ | .apiDocs _ | .comments _ _ => .error ⟨"write", "nothing to write"⟩

/-- The description from before is on record after a run that was told of none. -/
theorem completed_run_leaves_old_description :
    ∃ events o s' m r', (run {} "j").run.Leads events (.done (.ok o)) ∧
      (Circumstances.quiet .unary undescribing).Along describedOnce events s' ∧
      events.filterMap Event.metadata? = [m] ∧ m.description? = none ∧
      s'.repository? "r" = some r' ∧ r'.description? = some "old" ∧ ¬Agrees r' m := by
  have leads := leads_eventsIn (S := Effects) (Circumstances.quietReply .unary undescribing)
    (run {} "j").run describedOnce
  have along := Circumstances.along_quiet .unary undescribing (run {} "j").run describedOnce
  obtain ⟨o, ended, hid⟩ : ∃ o, ((run {} "j").run.run (S := Effects)
      (Circumstances.quietReply .unary undescribing) describedOnce).1 = .ok o ∧
        o.repository.id = "r" := by
    with_unfolding_all exact ⟨_, rfl, rfl⟩
  rw [ended] at leads
  obtain ⟨m, r', told, hr', rfl, agrees⟩ := completed_run_merges_metadata {} "j" leads along
    (.quiet _ _) (by rw [hid]; rfl)
  have untold : m = { name := "r", owner := "o" } := by
    have : [m] = [{ name := "r", owner := "o" }] := told.symm.trans (by with_unfolding_all rfl)
    simpa using this
  subst untold
  rw [hid] at hr'
  refine ⟨_, o, _, _, _, leads, along, told, rfl, hr', rfl, fun h => ?_⟩
  cases (agrees.1 h).1 rfl

end Analysis

end RepoDocs
