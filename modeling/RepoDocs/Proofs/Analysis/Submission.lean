import RepoDocs.Proofs.Repository.Address
import RepoDocs.Proofs.Session.Engine
import RepoDocs.Proofs.Session.Fairness
import RepoDocs.Proofs.Session.Play
import RepoDocs.Proofs.Session.Turns
import RepoDocs.Proofs.Store.Tidy

/-! Submissions.  A submission finds its repository by its address, or puts it on record, and looks at
the current job of it alone.  In a session where nothing else creates repositories and jobs that is
enough: the store remains tidy, so no other job of the repository can be live. -/

namespace RepoDocs

open Analysis Program

namespace Analysis

variable {τ : Type} (rule : Rule Controls τ)

theorem wp_recorded (call : StoreCall) (post : Except AnalysisError call.Reply → τ → Prop) :
    (recorded call).run.wp rule post =
      rule (.effect (.store call)) fun x => post (x.mapError .store) := by
  change (onRecord call).run.lift.wp rule post = _
  exact (wp_rename ..).trans (wp_onRecord ..)

theorem wp_ensureRepository (url : String) (coordinates : Coordinates)
    (post : Except AnalysisError Repository → τ → Prop) :
    (ensureRepository url coordinates).run.wp rule post =
      rule (.effect (.store (.getRepositoryByUrl url))) fun
        | .error e => post (.error (.store e))
        | .ok (some r) => post (.ok r)
        | .ok none =>
          rule (.effect (.store (.createRepository
            { url, name := coordinates.name, owner := coordinates.owner }))) fun x =>
              post (x.mapError .store) := by
  rw [ensureRepository, wp_run_bind, wp_recorded]
  congr 1
  funext x
  rcases x with e | (_ | r)
  · rfl
  · exact wp_recorded ..
  · rfl

theorem wp_startJob (r : Repository) (post : Except AnalysisError Submission → τ → Prop) :
    (startJob r).run.wp rule post =
      rule (.effect (.store (.createJob r.id))) fun
        | .error e => post (.error (.store e))
        | .ok j => rule (.start j.id) fun _ => post (.ok ⟨r, j, true⟩) := by
  rw [startJob, wp_run_bind, wp_recorded]
  congr 1
  funext x
  cases x <;> rfl

theorem submit_of_error {address : String} {f : Coordinates.Fault}
    (h : Coordinates.parse address = .error f) :
    (submit address).run = .done (.error (.invalidInput f.message)) := by
  rw [submit, h]
  rfl

theorem wp_submit {address : String} {coordinates : Coordinates}
    (h : Coordinates.parse address = .ok coordinates)
    (post : Except AnalysisError Submission → τ → Prop) :
    (submit address).run.wp rule post =
      (ensureRepository (Text.trimmed address) coordinates).run.wp rule fun
        | .error e => post (.error e)
        | .ok r => rule (.effect (.store (.currentJob r.id))) fun
          | .error e => post (.error (.store e))
          | .ok none => (startJob r).run.wp rule post
          | .ok (some j) =>
            if j.isTerminal then (startJob r).run.wp rule post else post (.ok ⟨r, j, false⟩) := by
  rw [submit, h]
  dsimp only
  rw [wp_run_bind]
  congr 1
  funext x
  cases x with
  | error e => rfl
  | ok r =>
    dsimp only
    rw [wp_run_bind, wp_recorded]
    congr 1
    funext x
    rcases x with e | (_ | j)
    · rfl
    · rfl
    · dsimp only [Except.mapError]
      split <;> rfl

end Analysis

/-- Repositories and jobs are not created but by submissions, and jobs not changed but by runs. -/
structure Conditions.Indirect (c : Conditions) : Prop where
  createRepository : ∀ new, ¬c.begins (.store (.createRepository new))
  createJob : ∀ id, ¬c.begins (.store (.createJob id))
  updateJob : ∀ id u, ¬c.begins (.store (.updateJob id u))

/-- The same conditions, under which no operation of the store is made to fail. -/
def Conditions.faultless (c : Conditions) : Conditions := { c with fails _ := False }

namespace Session

variable {c : Conditions} {s s' : Session} {address url : String}

/-! ### How a submission goes -/

/-- The repository with an address was found, or put on record because there was none. -/
inductive Ensured (c : Conditions) (url : String) (s : Session) : Repository → Session → Prop
  | found {r : Repository} (found : s.store.repositoryByUrl? url = some r) : Ensured c url s r s
  | created {r : Repository} (absent : s.store.repositoryByUrl? url = none) (address : r.url = url)
      (named : r.id = c.names.repository s.store.repositories.length) :
      Ensured c url s r
        { s with store := { s.store with repositories := s.store.repositories ++ [r] } }

/-- The session after a new job was created and its run was started. -/
def withJob (c : Conditions) (s : Session) (j : Job) : Session :=
  { s with
    store := { s.store with jobs := s.store.jobs ++ [j] }
    registered := s.registered ++ [j.id]
    ready := s.ready ++ [(Operation.background j.id).task c.config] }

/-- How a submission ends, and the session after it. -/
inductive Submitted (c : Conditions) (address : String) (s : Session) :
    Except AnalysisError Submission → Session → Prop
  | rejected {f : Coordinates.Fault} (unreadable : Coordinates.parse address = .error f) :
      Submitted c address s (.error (.invalidInput f.message)) s
  | lost {coordinates : Coordinates} {call : StoreCall} {e : StoreError}
      (readable : Coordinates.parse address = .ok coordinates) (fails : c.fails call) :
      Submitted c address s (.error (.store e)) s
  | lostLater {coordinates : Coordinates} {r : Repository} {s' : Session} {call : StoreCall}
      {e : StoreError} (readable : Coordinates.parse address = .ok coordinates)
      (ensured : Ensured c (Text.trimmed address) s r s') (fails : c.fails call) :
      Submitted c address s (.error (.store e)) s'
  | shared {r : Repository} {s' : Session} {j : Job}
      (ensured : Ensured c (Text.trimmed address) s r s')
      (current : s'.store.currentJob? r.id = some j) (live : j.isTerminal = false) :
      Submitted c address s (.ok ⟨r, j, false⟩) s'
  | started {r : Repository} {s' : Session} {j : Job}
      (ensured : Ensured c (Text.trimmed address) s r s')
      (vacant : ∀ j, s'.store.currentJob? r.id = some j → j.isTerminal = true)
      (fresh : j.Fresh) (owner : j.repositoryId = r.id) :
      Submitted c address s (.ok ⟨r, j, true⟩) (s'.withJob c j)

theorem wp_turn_ensureRepository (coordinates : Coordinates) (s : Session) :
    (ensureRepository url coordinates).run.wp (turnRule c) (fun
      | .ok r, s' => Ensured c url s r s'
      | .error e, s' => s' = s ∧ ∃ call e', c.fails call ∧ e = .store e') s := by
  rw [wp_ensureRepository]
  refine ⟨fun fails e => ⟨rfl, _, e, fails, rfl⟩, fun now => ?_⟩
  simp only [Store.perform]
  cases found : s.store.repositoryByUrl? url with
  | some r => exact .found found
  | none =>
    refine ⟨fun fails e => ⟨rfl, _, e, fails, rfl⟩, fun now => ?_⟩
    simp only [Store.perform, Store.createRepository, found]
    exact .created found rfl rfl

theorem wp_turn_startJob {coordinates : Coordinates} {r : Repository}
    (readable : Coordinates.parse address = .ok coordinates)
    (ensured : Ensured c (Text.trimmed address) s r s')
    (vacant : ∀ j, s'.store.currentJob? r.id = some j → j.isTerminal = true) :
    (startJob r).run.wp (turnRule c) (Submitted c address s) s' := by
  rw [wp_startJob]
  refine ⟨fun fails e => .lostLater readable ensured fails, fun now => ?_⟩
  exact .started ensured vacant ⟨rfl, rfl, rfl, rfl⟩ rfl

theorem wp_turn_submit (address : String) (s : Session) :
    (submit address).run.wp (turnRule c) (Submitted c address s) s := by
  cases parsed : Coordinates.parse address with
  | error f =>
    rw [submit_of_error parsed]
    exact .rejected parsed
  | ok coordinates =>
    rw [wp_submit _ parsed]
    refine wp_mono (turnRule_mono c) (fun x s' hx => ?_) _ s
      (wp_turn_ensureRepository coordinates s)
    cases x with
    | error e =>
      obtain ⟨rfl, call, e, fails, rfl⟩ := hx
      exact .lost parsed fails
    | ok r =>
      refine ⟨fun fails e => .lostLater parsed hx fails, fun now => ?_⟩
      simp only [Store.perform]
      cases current : s'.store.currentJob? r.id with
      | none => exact wp_turn_startJob parsed hx (by simp [current])
      | some j =>
        cases live : j.isTerminal with
        | true =>
          simp only [live, if_true]
          exact wp_turn_startJob parsed hx (by simp [current, live])
        | false =>
          simp only [live, Bool.false_eq_true, if_false]
          exact .shared hx current live

/-! ### What submissions keep -/

/-- Wherever `I` holds, so does what a submission may do: put a repository on record whose address is
not, and create a job of a repository whose current job has ended. -/
structure Accepts (c : Conditions) (I : Store → Prop) (G : Store → Store → Prop) : Prop where
  mild : ∀ s call, I s → call.Mild → Admissible c I G s call
  createRepository : ∀ s new, I s → s.repositoryByUrl? new.url = none →
    Text.trimmed new.url = new.url → new.status = .pending →
    Admissible c I G s (.createRepository new)
  createJob : ∀ s r, I s → r ∈ s.repositories →
    (∀ j, s.currentJob? r.id = some j → j.isTerminal = true) →
    Admissible c I G s (.createJob r.id)

namespace Accepts

variable {I : Store → Prop} {G : Store → Store → Prop} (accepts : Accepts c I G)
include accepts

theorem keeps_startJob {r : Repository} {s : Store} (hI : I s) (hr : r ∈ s.repositories)
    (vacant : ∀ j, s.currentJob? r.id = some j → j.isTerminal = true) :
    (startJob r).run.wp (rule c I G) (fun _ => I) s := by
  rw [wp_startJob]
  refine rule_store hI (accepts.createJob s r hI hr vacant) fun x s hI => ?_
  cases x <;> exact hI

theorem keeps_ensureRepository (trimmed : Text.trimmed url = url) (coordinates : Coordinates)
    {s : Store} (hI : I s) :
    (ensureRepository url coordinates).run.wp (rule c I G)
      (fun x s => I s ∧ ∀ r, x = .ok r → r ∈ s.repositories) s := by
  rw [wp_ensureRepository]
  refine ⟨fun _ _ => ⟨hI, by simp⟩, fun now => ⟨?_, ?_⟩⟩
  · exact (accepts.mild s (.getRepositoryByUrl url) hI trivial now).1
  simp only [Store.perform]
  cases found : s.repositoryByUrl? url with
  | some r =>
    refine ⟨hI, fun r' hr' => ?_⟩
    cases hr'
    exact (Store.mem_of_repositoryByUrl? found).1
  | none =>
    refine ⟨fun _ _ => ⟨hI, by simp [Except.mapError]⟩, fun now => ?_⟩
    obtain ⟨hG, hI⟩ := accepts.createRepository s
      { url, name := coordinates.name, owner := coordinates.owner } hI found trimmed rfl now
    refine ⟨hG, hI, fun r' hr' => ?_⟩
    simp only [Store.perform, Store.createRepository, found] at hr' ⊢
    cases hr'
    simp

theorem fair_submit (address : String) : Fair c I G (submit address).run := by
  intro s hI
  cases parsed : Coordinates.parse address with
  | error f =>
    rw [submit_of_error parsed]
    exact hI
  | ok coordinates =>
    rw [wp_submit _ parsed]
    refine wp_mono (rule_mono _ _ _) (fun x s hx => ?_) _ s
      (accepts.keeps_ensureRepository (Text.trimmed_trimmed address) coordinates hI)
    cases x with
    | error e => exact hx.1
    | ok r =>
      have hr := hx.2 r rfl
      refine ⟨fun _ _ => hx.1, fun now => ⟨?_, ?_⟩⟩
      · exact (accepts.mild s (.currentJob r.id) hx.1 trivial now).1
      simp only [Store.perform]
      cases current : s.currentJob? r.id with
      | none => exact accepts.keeps_startJob hx.1 hr (by simp [current])
      | some j =>
        cases live : j.isTerminal with
        | true =>
          simp only [live, if_true]
          exact accepts.keeps_startJob hx.1 hr (by simp [current, live])
        | false =>
          simp only [live, Bool.false_eq_true, if_false]
          exact hx.1

end Accepts

/-! ### Submissions keep the store tidy -/

/-- The store that each operation of it is to leave behind. -/
def Tidied (c : Conditions) (_ s' : Store) : Prop := s'.Tidy c.names

theorem tidy_respects (inj : Function.Injective c.names.job) :
    Respects c (Store.Tidy c.names) (Tidied c) where
  mild _ _ h hcall _ :=
    have ⟨hrepositories, hjobs⟩ := Store.perform_mild hcall
    ⟨h.of_same hrepositories hjobs, h.of_same hrepositories hjobs⟩
  updateRepository _ id u h _ := ⟨h.updateRepository id u, h.updateRepository id u⟩
  updateJob _ _ _ h plans _ := ⟨h.updateJob inj plans, h.updateJob inj plans⟩

theorem tidy_accepts (inj : Function.Injective c.names.job) :
    Accepts c (Store.Tidy c.names) (Tidied c) where
  mild := (tidy_respects inj).mild
  createRepository s new h absent trimmed _ now := by
    have created : Store.Tidy c.names (s.perform c.names now (.createRepository new)).2 := by
      simp only [Store.perform, Store.createRepository, absent]
      exact h.createRepository rfl absent trimmed
    exact ⟨created, created⟩
  createJob _ _ h hr vacant _ := ⟨h.createJob hr vacant, h.createJob hr vacant⟩

theorem Reachable.tidy (inj : Function.Injective c.names.job) (indirect : c.Indirect)
    (h : Reachable c s) : s.store.Tidy c.names := by
  refine h.always Store.Tidy.empty (fun o ho => ?_) fun change => change
  refine (tidy_respects inj).fair (fun call begins s h => ?_) (tidy_accepts inj).fair_submit o ho
  have respects := tidy_respects inj
  cases call with
  | createRepository new => exact (indirect.createRepository new begins).elim
  | updateRepository id u => exact respects.updateRepository s id u h
  | createJob id => exact (indirect.createJob id begins).elim
  | updateJob id u => exact (indirect.updateJob id u begins).elim
  | _ => exact respects.mild s _ h trivial

/-! ### What a submission finds and leaves behind -/

/-- The job is live, and its repository has the address. -/
def LiveAt (s : Session) (url : String) (j : Job) : Prop :=
  j ∈ s.store.jobs ∧ j.isTerminal = false ∧
    ∃ r ∈ s.store.repositories, r.url = url ∧ r.id = j.repositoryId

namespace Ensured

variable {r : Repository}

theorem tidy (h : Ensured c (Text.trimmed address) s r s') (tidy : s.store.Tidy c.names) :
    s'.store.Tidy c.names := by
  cases h with
  | found found => exact tidy
  | created absent hurl named =>
    rw [← hurl] at absent
    exact tidy.createRepository named absent (by rw [hurl, Text.trimmed_trimmed])

theorem mem (h : Ensured c url s r s') : r ∈ s'.store.repositories ∧ r.url = url := by
  cases h with
  | found found => exact Store.mem_of_repositoryByUrl? found
  | created absent hurl named => exact ⟨by simp, hurl⟩

/-- No job can be live for the address but the current one of the repository. -/
theorem liveAt_iff (inj : Function.Injective c.names.repository) (h : Ensured c url s r s')
    (tidy : s.store.Tidy c.names) (j : Job) :
    s.LiveAt url j ↔ s'.store.currentJob? r.id = some j ∧ j.isTerminal = false := by
  cases h with
  | found found =>
    obtain ⟨hr, hurl⟩ := Store.mem_of_repositoryByUrl? found
    constructor
    · rintro ⟨hj, live, r', hr', hurl', hid⟩
      have same := Store.repositoryByUrl?_of_mem tidy.urls hr'
      rw [hurl', found] at same
      rw [Option.some.inj same, hid]
      exact ⟨tidy.current j hj live, live⟩
    · rintro ⟨hcurrent, live⟩
      obtain ⟨hj, hid⟩ := Store.mem_of_currentJob? hcurrent
      exact ⟨hj, live, r, hr, hurl, hid.symm⟩
  | created absent hurl named =>
    constructor
    · rintro ⟨hj, live, r', hr', hurl', -⟩
      exact absurd hurl' (Store.repositoryByUrl?_eq_none.1 absent r' hr')
    · rintro ⟨hcurrent, -⟩
      have none := tidy.currentJob?_new inj
      rw [← named] at none
      cases none.symm.trans hcurrent

/-- A repository that has a job was on record before. -/
theorem eq_of_current (inj : Function.Injective c.names.repository) (h : Ensured c url s r s')
    (tidy : s.store.Tidy c.names) {j : Job} (current : s'.store.currentJob? r.id = some j) :
    s' = s := by
  cases h with
  | found found => rfl
  | created absent hurl named =>
    have none := tidy.currentJob?_new inj
    rw [← named] at none
    cases none.symm.trans current

/-- A repository that is on record is found. -/
theorem of_known (h : Ensured c url s r s') (tidy : s.store.Tidy c.names) {r' : Repository}
    (hr' : r' ∈ s.store.repositories) (hurl' : r'.url = url) : r = r' ∧ s' = s := by
  have known := Store.repositoryByUrl?_of_mem tidy.urls hr'
  rw [hurl'] at known
  cases h with
  | found found => exact ⟨Option.some.inj (found.symm.trans known), rfl⟩
  | created absent hurl named => cases absent.symm.trans known

end Ensured

/-- A submission begins in the one session and has come to its end in the other. -/
structure Submits (c : Conditions) (address : String) (s : Session)
    (result : Except AnalysisError Submission) (s' : Session) : Prop where
  begun : s.active? = some ((Operation.submit address).task c.config)
  turns : Turns c s s'
  ended : s'.active? = some ⟨.submit address, .done result⟩

/-- A job and its run are new in the session, and nothing else but perhaps the repository. -/
structure Starts (c : Conditions) (s : Session) (sub : Submission) (s' : Session) : Prop where
  fresh : sub.job.Fresh
  repositories : s'.store.repositories = s.store.repositories ∨
    s'.store.repositories = s.store.repositories ++ [sub.repository]
  documentation : s'.store.documentation = s.store.documentation
  jobs : s'.store.jobs = s.store.jobs ++ [sub.job]
  registered : s'.registered = s.registered ++ [sub.job.id]
  ready : s'.ready = s.ready ++ [(Operation.background sub.job.id).task c.config]
  waiting : s'.waiting = s.waiting

variable {result : Except AnalysisError Submission}

theorem Submits.submitted (h : Submits c address s result s') :
    Submitted c address s.idle result s'.idle :=
  h.turns.wp h.begun h.ended (wp_turn_submit address s.idle)

theorem Starts.of_idle {sub : Submission} (h : Starts c s.idle sub s'.idle) : Starts c s sub s' :=
  ⟨h.fresh, h.repositories, h.documentation, h.jobs, h.registered, h.ready, h.waiting⟩

theorem Ensured.starts {r : Repository} {j : Job} (h : Ensured c url s r s') (fresh : j.Fresh) :
    Starts c s ⟨r, j, true⟩ (s'.withJob c j) := by
  cases h with
  | found found => exact ⟨fresh, .inl rfl, rfl, rfl, rfl, rfl, rfl⟩
  | created absent hurl named => exact ⟨fresh, .inr rfl, rfl, rfl, rfl, rfl, rfl⟩

namespace Submitted

/-- A submission that succeeds shares the live job of its address, or starts one if there is none. -/
theorem of_ok (inj : Function.Injective c.names.repository) (tidy : s.store.Tidy c.names)
    {sub : Submission} (h : Submitted c address s (.ok sub) s') :
    (sub.started = true ↔ ∀ j, ¬s.LiveAt (Text.trimmed address) j) ∧
      (sub.started = true → Starts c s sub s') ∧
      (sub.started = false → s.LiveAt (Text.trimmed address) sub.job ∧ s' = s) := by
  cases h with
  | shared ensured current live =>
    have liveAt := (ensured.liveAt_iff inj tidy _).2 ⟨current, live⟩
    refine ⟨⟨nofun, fun none => absurd liveAt (none _)⟩, nofun, fun _ => ⟨liveAt, ?_⟩⟩
    exact ensured.eq_of_current inj tidy current
  | started ensured vacant fresh owner =>
    refine ⟨⟨fun _ j liveAt => ?_, fun _ => rfl⟩, fun _ => ensured.starts fresh, nofun⟩
    obtain ⟨current, live⟩ := (ensured.liveAt_iff inj tidy j).1 liveAt
    exact absurd (vacant j current) (by simp [live])

/-- What a submission that succeeds replies is on record. -/
theorem on_record {sub : Submission} (h : Submitted c address s (.ok sub) s') :
    sub.repository ∈ s'.store.repositories ∧ sub.repository.url = Text.trimmed address ∧
      sub.job ∈ s'.store.jobs ∧ sub.job.repositoryId = sub.repository.id := by
  cases h with
  | shared ensured current live =>
    obtain ⟨hj, owner⟩ := Store.mem_of_currentJob? current
    exact ⟨ensured.mem.1, ensured.mem.2, hj, owner⟩
  | started ensured vacant fresh owner =>
    exact ⟨ensured.mem.1, ensured.mem.2, by simp [withJob], owner⟩

/-- Where the store is not made to fail, a submission finds the repository that is on record. -/
theorem of_known {result : Except AnalysisError Submission} (h : Submitted c address s result s')
    {coordinates : Coordinates} (parsed : Coordinates.parse address = .ok coordinates)
    (faultless : ∀ call, ¬c.fails call) (tidy : s.store.Tidy c.names) {r : Repository}
    (hr : r ∈ s.store.repositories) (hurl : r.url = Text.trimmed address) :
    ∃ sub, result = .ok sub ∧ sub.repository = r ∧
      s'.store.repositories = s.store.repositories := by
  cases h with
  | rejected unreadable => cases unreadable.symm.trans parsed
  | lost readable fails => exact absurd fails (faultless _)
  | lostLater readable ensured fails => exact absurd fails (faultless _)
  | shared ensured current live =>
    obtain ⟨rfl, rfl⟩ := ensured.of_known tidy hr hurl
    exact ⟨_, rfl, rfl, rfl⟩
  | started ensured vacant fresh owner =>
    obtain ⟨rfl, rfl⟩ := ensured.of_known tidy hr hurl
    exact ⟨_, rfl, rfl, rfl⟩

/-- Where the store is not made to fail and the last job of the repository is over, a submission
starts a new one. -/
theorem of_vacant {result : Except AnalysisError Submission} (h : Submitted c address s result s')
    {coordinates : Coordinates} (parsed : Coordinates.parse address = .ok coordinates)
    (faultless : ∀ call, ¬c.fails call) {r : Repository}
    (found : s.store.repositoryByUrl? (Text.trimmed address) = some r) {j : Job}
    (current : s.store.currentJob? r.id = some j) (ended : j.isTerminal = true) :
    ∃ sub, result = .ok sub ∧ sub.started = true := by
  cases h with
  | rejected unreadable => cases unreadable.symm.trans parsed
  | lost readable fails => exact absurd fails (faultless _)
  | lostLater readable ensured fails => exact absurd fails (faultless _)
  | shared ensured current' live =>
    cases ensured with
    | found found' =>
      obtain rfl := Option.some.inj (found.symm.trans found')
      obtain rfl := Option.some.inj (current.symm.trans current')
      cases ended.symm.trans live
    | created absent => cases absent.symm.trans found
  | started ensured vacant fresh owner => exact ⟨_, rfl, rfl⟩

theorem unreadable {message : String}
    (h : Submitted c address s (.error (.invalidInput message)) s') :
    (submit address).run = .done (.error (.invalidInput message)) := by
  cases h with
  | rejected unreadable => exact submit_of_error unreadable

theorem readable {e : StoreError} (h : Submitted c address s (.error (.store e)) s') :
    ∃ coordinates, Coordinates.parse address = .ok coordinates := by
  cases h with
  | lost readable fails => exact ⟨_, readable⟩
  | lostLater readable ensured fails => exact ⟨_, readable⟩

end Submitted

/-- A repository remains on record as the session goes on. -/
theorem Steps.exists_repository (h : Steps c s s') {r : Repository}
    (hr : r ∈ s.store.repositories) :
    ∃ r' ∈ s'.store.repositories, r'.id = r.id ∧ r'.url = r.url := by
  induction h with
  | refl => exact ⟨r, hr, rfl, rfl⟩
  | tail _ step ih =>
    obtain ⟨r₁, hr₁, hid, hurl⟩ := ih
    rcases step.store with same | ⟨now, call, performed⟩
    · exact ⟨r₁, by rw [same]; exact hr₁, hid, hurl⟩
    · obtain ⟨r₂, hr₂, hid', hurl'⟩ := Store.exists_repository_perform call hr₁
      exact ⟨r₂, by rw [performed]; exact hr₂, hid'.trans hid, hurl'.trans hurl⟩

theorem exists_submits (begun : s.active? = some ((Operation.submit address).task c.config)) :
    ∃ result s', Submits c address s result s' := by
  have immediate : ∀ r : Control, r.Submits → r.Immediate := by
    intro r h
    cases r with
    | effect e => cases e <;> trivial
    | start job => trivial
    | _ => exact h.elim
  obtain ⟨s', result, turns, ended⟩ := exists_turns ((asks_submit address).mono immediate) begun
  exact ⟨result, s', begun, turns, ended⟩

/-- A submission that the store does not fail ends well, with the repository of its address, if there
is one. -/
theorem submits_known (inj : Function.Injective c.names.job) (indirect : c.Indirect)
    (h : Reachable c s) {coordinates : Coordinates}
    (parsed : Coordinates.parse address = .ok coordinates) {r : Repository}
    (hr : r ∈ s.store.repositories) (hurl : r.url = Text.trimmed address)
    (begun : s.active? = some ((Operation.submit address).task c.config)) :
    (∃ result s', Submits c.faultless address s result s') ∧
      ∀ result s', Submits c.faultless address s result s' → ∃ sub, result = .ok sub ∧
        sub.repository = r ∧ s'.store.repositories = s.store.repositories := by
  refine ⟨exists_submits (c := c.faultless) begun, fun result s' submits => ?_⟩
  have tidy := h.tidy inj indirect
  exact submits.submitted.of_known parsed (fun _ => id) tidy hr hurl

/-- In a session where repositories and jobs are created by submissions only, an address has one
repository, and a repository one live job, its current one.  A submission shares that job or, if there
is none, starts one; it changes nothing if its address is unreadable; and if the store fails it, a later
one of the same address goes on with the repository that it left. -/
theorem submissions_keep_one_live_job (injRepository : Function.Injective c.names.repository)
    (injJob : Function.Injective c.names.job) (indirect : c.Indirect) (h : Reachable c s) :
    (s.store.repositories.map fun r => Text.trimmed r.url).Nodup ∧
      ((s.store.jobs.filter fun j => !j.isTerminal).map (·.repositoryId)).Nodup ∧
      (∀ j ∈ s.store.jobs, j.isTerminal = false →
        s.store.currentJob? j.repositoryId = some j) ∧
      ∀ address result s', Submits c address s result s' →
        (∀ sub, result = .ok sub →
          (sub.repository ∈ s'.store.repositories ∧
            sub.repository.url = Text.trimmed address ∧
            sub.job ∈ s'.store.jobs ∧ sub.job.repositoryId = sub.repository.id) ∧
          (sub.started = true ↔ ∀ j, ¬s.LiveAt (Text.trimmed address) j) ∧
          (sub.started = true → Starts c s sub s') ∧
          (sub.started = false →
            s.LiveAt (Text.trimmed address) sub.job ∧ s'.idle = s.idle)) ∧
        (∀ message, result = .error (.invalidInput message) →
          (submit address).run = .done result ∧ s' = s) ∧
        ∀ e, result = .error (.store e) →
          ∀ address' s₁, Text.trimmed address' = Text.trimmed address → Steps c s' s₁ →
            s₁.active? = some ((Operation.submit address').task c.config) →
            ∀ r ∈ s'.store.repositories, r.url = Text.trimmed address →
              (∃ result' s₂, Submits c.faultless address' s₁ result' s₂) ∧
                ∀ result' s₂, Submits c.faultless address' s₁ result' s₂ →
                  ∃ sub, result' = .ok sub ∧ sub.repository.id = r.id ∧
                    s₂.store.repositories = s₁.store.repositories := by
  have tidy := h.tidy injJob indirect
  refine ⟨?_, tidy.live_nodup injJob, tidy.current, fun address result s' submits => ?_⟩
  · rw [List.map_congr_left tidy.trimmed]
    exact tidy.urls
  have submitted := submits.submitted
  refine ⟨?_, ?_, ?_⟩
  · rintro sub rfl
    obtain ⟨started, starts, shares⟩ := Submitted.of_ok (s := s.idle) injRepository tidy submitted
    exact ⟨submitted.on_record, started, fun h => (starts h).of_idle, shares⟩
  · rintro message rfl
    have done := submitted.unreadable
    have begun := submits.begun
    rw [Operation.task, show (Operation.submit address).program c.config = _ from done] at begun
    exact ⟨done, submits.turns.eq_of_done begun⟩
  · rintro e rfl address' s₁ same steps begun r hr hurl
    obtain ⟨r', hr', hid, hurl'⟩ := steps.exists_repository hr
    obtain ⟨coordinates, parsed⟩ := submitted.readable
    rw [← Coordinates.parse_congr same] at parsed
    have reachable : Reachable c s₁ := (h.trans submits.turns.steps).trans steps
    have known := submits_known injJob indirect reachable parsed hr'
      (hurl'.trans (hurl.trans same.symm)) begun
    refine ⟨known.1, fun result' s₂ submits' => ?_⟩
    obtain ⟨sub, hsub, hrepository, hrepositories⟩ := known.2 result' s₂ submits'
    exact ⟨sub, hsub, hrepository ▸ hid, hrepositories⟩

/-- Repositories are submitted only, and each operation of the store may fail. -/
def submitting : Conditions where
  names := .unary
  config := {}
  begins o := ∃ address, o = .submit address
  fails _ := True

/-- A session in which only one operation is under way, which is at work. -/
def working (store : Store) (t : Task) : Session := { store, active? := some t }

/-- A submission that has its repository put on record, but not its job. -/
def lostJob : List Move :=
  [.work ⟨0, 0⟩, .work ⟨0, 0⟩, .work ⟨0, 0⟩, .fail ⟨"full"⟩]

/-- The store that such a submission leaves. -/
def withoutJob : Store where
  repositories :=
    [{ id := "r", url := "https://github.com/o/r", name := "r", owner := "o", createdAt := ⟨0, 0⟩ }]

/-- A submission that lost its job leaves a repository, which the next one takes up. -/
theorem submission_after_lost_job :
    ∃ s s' s₁, Reachable submitting s ∧
      Submits submitting "https://github.com/o/r" s (.error (.store ⟨"full"⟩)) s' ∧
      s'.store = withoutJob ∧ Steps submitting s' s₁ ∧
      (∃ result s₂, Submits submitting.faultless " https://github.com/o/r " s₁ result s₂) ∧
      ∀ result s₂, Submits submitting.faultless " https://github.com/o/r " s₁ result s₂ →
        ∃ sub, result = .ok sub ∧ sub.repository.id = "r" ∧
          s₂.store.repositories = s₁.store.repositories := by
  let first : Operation := .submit "https://github.com/o/r"
  let second : Operation := .submit " https://github.com/o/r "
  have reachable : Reachable submitting (working {} (first.task {})) := by
    refine Steps.of_play [.ask first, .resume 0] ?_ rfl
    simp [Move.Allowed, submitting, first, Operation.isBackground]
  have turns : Turns submitting (working {} (first.task {}))
      (working withoutJob ⟨first, .done (.error (.store ⟨"full"⟩))⟩) := by
    refine Turns.of_play lostJob ?_ ?_ (by rfl) rfl
    · simp [lostJob, Move.Allowed, submitting]
    · simp [lostJob, Move.isTurn]
  have submits : Submits submitting "https://github.com/o/r" _ (.error (.store ⟨"full"⟩)) _ :=
    ⟨rfl, turns, rfl⟩
  have steps : Steps submitting (working withoutJob ⟨first, .done (.error (.store ⟨"full"⟩))⟩)
      (working withoutJob (second.task {})) := by
    refine Steps.of_play [.work ⟨0, 0⟩, .ask second, .resume 0] ?_ rfl
    simp [Move.Allowed, submitting, second, Operation.isBackground]
  have indirect : submitting.Indirect := by
    constructor <;> simp [submitting]
  have kept := submissions_keep_one_live_job (ofList_replicate_injective 'r')
    (ofList_replicate_injective 'j') indirect reachable
  obtain ⟨-, -, reused⟩ := kept.2.2.2 _ _ _ submits
  exact ⟨_, _, _, reachable, submits, rfl, steps,
    reused _ rfl " https://github.com/o/r " _ rfl steps rfl _ (.head _) rfl⟩

end Session

/-- Whatever submissions an engine has run, and the runs that they started, its store is tidy. -/
theorem Engine.Reached.tidy {w : World σ} {c : Conditions} {e : Engine σ} (suits : w.Suits c)
    (inj : Function.Injective c.names.job) (indirect : c.Indirect) (h : Reached w c e) :
    e.store.Tidy c.names := by
  obtain ⟨s, reachable, shows⟩ := h.exists_session suits
  rw [← shows.store]
  exact reachable.tidy inj indirect

end RepoDocs
