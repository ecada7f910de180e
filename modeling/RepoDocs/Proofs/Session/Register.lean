import RepoDocs.Proofs.Analysis.Submission
import RepoDocs.Proofs.Store.History

/-! The register of background runs.  A run is on it from its start to its end, unless a join takes it
off before: then it is no longer on it, although it is under way, whether that join still waits for it or
was given up.  So the register counts the runs that no join has asked for, and a second join finds
nothing to wait for. -/

namespace RepoDocs

/-- The job of a background run. -/
def Operation.background? : Operation → Option String
  | background job => some job
  | _ => none

/-- A request that starts no run. -/
def Control.StartsNone : Control → Prop
  | start _ => False
  | _ => True

namespace Session

open Analysis Program

variable {c : Conditions} {s s' : Session} {k k' : Nat} {job : String}

/-- The operations that are under way, without what is left of them. -/
def operations (s : Session) : List Operation := s.tasks.map (·.operation)

/-- The jobs whose background runs are under way. -/
def underway (s : Session) : List String := s.operations.filterMap (·.background?)

/-- A join takes the background run of a job off the register and begins to wait for it. -/
inductive TakesOff (job : String) (s : Session) : Session → Prop
  | intro {o : Operation} {next} (present : job ∈ s.registered)
      (active : s.active? = some ⟨o, .ask (.join job) next⟩) :
      TakesOff job s { s with
        registered := s.registered.erase job
        active? := none
        waiting := s.waiting ++ [⟨o, .ask (.join job) next⟩] }

theorem TakesOff.step (h : TakesOff job s s') : Step c s s' := by
  obtain ⟨present, active⟩ := h
  exact .joined present active

/-- At some time before, a join took the background run of a job off the register. -/
def TakenOff (c : Conditions) (s : Session) (job : String) : Prop :=
  ∃ s₀ s₁, Reachable c s₀ ∧ TakesOff job s₀ s₁ ∧ Steps c s₁ s

/-! ### Runs are started for new jobs -/

/-- As many of the jobs on record may have had runs started for them. -/
def Below (σ : Store × Nat) : Prop := σ.2 ≤ σ.1.jobs.length

/-- What has to hold before each request for runs to be started only for jobs that were created since
the last one was. -/
def startRule (c : Conditions) : Rule Controls (Store × Nat)
  | .effect (.store call), post => fun σ =>
    (∀ e, post (.error e) σ) ∧
      ∀ now, post (σ.1.perform c.names now call).1 ((σ.1.perform c.names now call).2, σ.2)
  | .effect (.call _ _), post => fun _ => ∀ x σ, Below σ → post x σ
  | .pause _, post => fun _ => ∀ x σ, Below σ → post x σ
  | .start job, post => fun σ =>
    ∃ n, σ.2 ≤ n ∧ n < σ.1.jobs.length ∧ job = c.names.job n ∧ post () (σ.1, n + 1)
  | .running, post => fun σ => ∀ n, post n σ
  | .join _, post => fun _ => ∀ x σ, Below σ → post x σ

/-- The program starts runs for new jobs only, wherever it goes on. -/
abbrev StartsNew (c : Conditions) (p : Program Controls α) : Prop := p.Keeps (startRule c) Below

theorem below_perform {σ : Store × Nat} (h : Below σ) (now : Instant) (call : StoreCall) :
    Below ((σ.1.perform c.names now call).2, σ.2) := by
  have retained : Store.Retains σ.1 (σ.1.perform c.names now call).2 := Store.retains_perform σ.1 call
  have kept := retained.jobs.length_le
  simp only [List.length_map] at kept
  exact h.trans kept

theorem startRule_mono (c : Conditions) : (startRule c).Mono := by
  intro r post post' h σ hr
  cases r with
  | effect e =>
    cases e with
    | store call => exact ⟨fun e => h _ _ (hr.1 e), fun now => h _ _ (hr.2 now)⟩
    | call call deadline? => exact fun x σ hσ => h _ _ (hr x σ hσ)
  | pause ms => exact fun x σ hσ => h _ _ (hr x σ hσ)
  | start job =>
    obtain ⟨n, new, known, named, hpost⟩ := hr
    exact ⟨n, new, known, named, h _ _ hpost⟩
  | running => exact fun n => h _ _ (hr n)
  | join job => exact fun x σ hσ => h _ _ (hr x σ hσ)

theorem startRule_store {call : StoreCall} {post : Except StoreError call.Reply → Store × Nat → Prop}
    (hpost : ∀ x σ, Below σ → post x σ) (σ : Store × Nat) (hσ : Below σ) :
    startRule c (.effect (.store call)) post σ :=
  ⟨fun _ => hpost _ _ hσ, fun now => hpost _ _ (below_perform hσ now call)⟩

theorem startsNew_of_asks {x : Program Controls α} (hx : x.Asks Control.StartsNone) :
    StartsNew c x := by
  refine hx.keeps fun r hr post hpost σ hσ => ?_
  cases r with
  | effect e =>
    cases e with
    | store call => exact startRule_store hpost σ hσ
    | call call deadline? => exact hpost
  | pause ms => exact hpost
  | start job => exact hr.elim
  | running => exact fun n => hpost _ _ hσ
  | join job => exact hpost

theorem asks_lift (x : Program Effects α) : x.lift.Asks Control.StartsNone := by
  induction x with
  | done a => trivial
  | ask r next ih => exact ⟨trivial, ih⟩

theorem startsNew_of_mild {x : Program Controls α} (h : x.Asks Control.Mild) : StartsNew c x :=
  startsNew_of_asks <| h.mono fun r hr => by
    cases r with
    | start job => exact hr.elim
    | _ => trivial

/-- A run is started for the job that was created just before. -/
theorem startsNew_startJob (r : Repository) : StartsNew c (startJob r).run := by
  intro σ hσ
  rw [wp_startJob]
  refine ⟨fun e => hσ, fun now => ⟨σ.1.jobs.length, hσ, ?_, rfl, ?_⟩⟩
  · simp [Store.perform, Store.createJob]
  · simp [Below, Store.perform, Store.createJob]

theorem startsNew_submit (address : String) : StartsNew c (submit address).run := by
  have mono := startRule_mono c
  have record (call : StoreCall) : StartsNew c (recorded call).run := by
    intro σ hσ
    rw [wp_recorded]
    exact startRule_store (fun _ _ hσ => hσ) σ hσ
  rw [submit]
  cases Coordinates.parse address with
  | error f => exact Keeps.pure _
  | ok coordinates =>
    refine Keeps.run_bind mono ?_ fun r => ?_
    · refine (record _).run_bind mono fun r? => ?_
      cases r? with
      | some r => exact Keeps.pure _
      | none => exact record _
    · refine (record _).run_bind mono fun job? => ?_
      cases job? with
      | none => exact startsNew_startJob r
      | some job =>
        dsimp only
        split
        · exact startsNew_startJob r
        · exact Keeps.pure _

theorem startsNew (o : Operation) : StartsNew c (o.program c.config) := by
  cases o with
  | submit address => exact startsNew_submit address
  | join job => exact startsNew_of_mild (asks_join job)
  | jobStatus repository => exact startsNew_of_mild (asks_jobStatus repository)
  | detail repository => exact startsNew_of_mild (asks_detail repository)
  | watch repository interval reads =>
    exact startsNew_of_mild (asks_watch repository interval reads none)
  | activeRuns => exact startsNew_of_asks (Asks.request trivial)
  | store call => exact startsNew_of_asks (asks_lift _)
  | run job => exact startsNew_of_asks (asks_lift _)
  | generate repository kind => exact startsNew_of_asks (asks_lift _)
  | fileContent repository path => exact startsNew_of_asks (asks_lift _)
  | background job => exact startsNew_of_asks (asks_lift _)

/-- Runs were started for the first `k` names at most, and each operation under way will start runs for
new jobs only. -/
structure Numbered (c : Conditions) (k : Nat) (s : Session) : Prop where
  bound : k ≤ s.store.jobs.length
  active : ∀ t, s.active? = some t → t.rest.wp (startRule c) (fun _ => Below) (s.store, k)
  ready : ∀ t ∈ s.ready, StartsNew c t.rest
  waiting : ∀ t ∈ s.waiting, StartsNew c t.rest

/-- What a step does to the background runs under way and to their register. -/
inductive RegisterChange (c : Conditions) (k k' : Nat) (s s' : Session) : Prop
  | same (underway : s'.underway.Perm s.underway) (registered : s'.registered = s.registered)
  | started {n : Nat} (new : k ≤ n) (known : n < k')
      (underway : s'.underway.Perm (c.names.job n :: s.underway))
      (registered : s'.registered = s.registered ++ [c.names.job n])
  | takenOff {job : String} (takes : TakesOff job s s') (underway : s'.underway.Perm s.underway)
  | ended {job : String} (underway : s.underway.Perm (job :: s'.underway))
      (registered : s'.registered = s.registered.erase job)

/-- The operation at work goes on. -/
theorem Numbered.goOn (numbered : Numbered c k s) {t : Task} {store : Store}
    (bound : k ≤ store.jobs.length)
    (ht : t.rest.wp (startRule c) (fun _ => Below) (store, k)) :
    Numbered c k { s with store, active? := some t } :=
  ⟨bound, fun _ h => Option.some.inj h ▸ ht, numbered.ready, numbered.waiting⟩

/-- The operation at work begins to wait. -/
theorem Numbered.wait (numbered : Numbered c k s) {t : Task} {registered : List String}
    (ht : StartsNew c t.rest) :
    Numbered c k { s with registered, active? := none, waiting := s.waiting ++ [t] } :=
  ⟨numbered.bound, Task.forall_none, numbered.ready,
    List.forall_mem_append.2 ⟨numbered.waiting, List.forall_mem_singleton.2 ht⟩⟩

/-- What an operation asks for when it begins to wait is to be had at any time. -/
theorem startsNew_of_waits {r : Control} {next : r.Reply → Program Controls α} {σ : Store × Nat}
    (waits : ∀ post σ, startRule c r post σ = ∀ x σ, Below σ → post x σ)
    (h : (Program.ask (S := Controls) r next).wp (startRule c) (fun _ => Below) σ) :
    StartsNew c (.ask (S := Controls) r next) := by
  intro σ' _
  rw [Program.wp, waits] at h ⊢
  exact h

theorem startsNew_reply {r : Control} {next : r.Reply → Program Controls α} {x : r.Reply}
    (h : StartsNew c (.ask (S := Controls) r next)) (admits : s.Admits r x) :
    StartsNew c (next x) := by
  intro σ hσ
  cases r with
  | effect e =>
    cases e with
    | store call => exact admits.elim
    | call call deadline? => exact h σ hσ x σ hσ
  | pause ms => exact h σ hσ x σ hσ
  | start job => exact admits.elim
  | running => exact admits.elim
  | join job => exact h σ hσ x σ hσ

/-! ### Steps and the register -/

theorem background?_of_front {o : Operation} (front : o.isBackground = false) :
    o.background? = none := by
  cases o <;> first | rfl | cases front

/-- The operation at work remains under way when it begins to wait. -/
theorem operations_wait {t : Task} {registered : List String} (active : s.active? = some t)
    {t' : Task} (same : t'.operation = t.operation) :
    (operations { s with registered, active? := none, waiting := s.waiting ++ [t'] }).Perm
      s.operations := by
  simp only [operations, tasks, active, List.map_append, List.map_cons, List.map_nil, same,
    Option.toList_none, Option.toList_some, List.nil_append, List.cons_append, ← List.append_assoc]
  exact List.perm_append_singleton ..

theorem Numbered.step (numbered : Numbered c k s) (h : Step c s s') :
    ∃ k', k ≤ k' ∧ Numbered c k' s' ∧ RegisterChange c k k' s s' := by
  obtain ⟨bound, active', ready, waiting⟩ := id numbered
  cases h with
  | turn h =>
    cases h with
    | failed e fails active =>
      refine ⟨k, le_rfl, numbered.goOn bound ((active' _ active).1 e), .same ?_ rfl⟩
      simp [underway, operations, tasks, active]
    | performed now active =>
      have grown := below_perform (c := c) (σ := (s.store, k)) bound now
      refine ⟨k, le_rfl, numbered.goOn (grown _) ((active' _ active).2 now), .same ?_ rfl⟩
      simp [underway, operations, tasks, active]
    | started active =>
      obtain ⟨n, new, known, rfl, h⟩ := active' _ active
      refine ⟨n + 1, by omega, ⟨known, fun _ ht => Option.some.inj ht ▸ h, ?_, waiting⟩,
        .started new (Nat.lt_succ_self n) ?_ rfl⟩
      · exact List.forall_mem_append.2
          ⟨ready, List.forall_mem_singleton.2 (startsNew (Operation.background _))⟩
      · have added : ((s.active?.toList ++ s.ready).map (·.operation) ++
            .background (c.names.job n) :: s.waiting.map (·.operation)).Perm _ := List.perm_middle
        refine List.Perm.filterMap _ (?_ : List.Perm _ (.background (c.names.job n) :: s.operations))
        simpa [operations, tasks, active, Operation.task] using added
    | counted active =>
      refine ⟨k, le_rfl, numbered.goOn bound (active' _ active _), .same ?_ rfl⟩
      simp [underway, operations, tasks, active]
    | unregistered absent active =>
      refine ⟨k, le_rfl, numbered.goOn bound (active' _ active _ _ bound), .same ?_ rfl⟩
      simp [underway, operations, tasks, active]
  | asked o begins front =>
    refine ⟨k, le_rfl, ⟨bound, active', ?_, waiting⟩, .same ?_ rfl⟩
    · exact List.forall_mem_append.2 ⟨ready, List.forall_mem_singleton.2 (startsNew o)⟩
    · simp [underway, operations, tasks, Operation.task, background?_of_front front]
  | @resumed t later idle next =>
    have hready : ∀ t' ∈ t :: later, StartsNew c t'.rest :=
      fun t' ht => ready t' (next.mem_iff.2 ht)
    obtain ⟨ht, hlater⟩ := List.forall_mem_cons.1 hready
    refine ⟨k, le_rfl, ⟨bound, fun _ h => Option.some.inj h ▸ ht _ bound, hlater, waiting⟩,
      .same (.filterMap _ ?_) rfl⟩
    have moved := (next.map (·.operation)).symm.append_right (s.waiting.map (·.operation))
    simpa [operations, tasks, idle] using moved
  | called active =>
    exact ⟨k, le_rfl, numbered.wait (startsNew_of_waits (fun _ _ => rfl) (active' _ active)),
      .same (.filterMap _ (operations_wait active rfl)) rfl⟩
  | paused active =>
    exact ⟨k, le_rfl, numbered.wait (startsNew_of_waits (fun _ _ => rfl) (active' _ active)),
      .same (.filterMap _ (operations_wait active rfl)) rfl⟩
  | joined present active =>
    exact ⟨k, le_rfl, numbered.wait (startsNew_of_waits (fun _ _ => rfl) (active' _ active)),
      .takenOff ⟨present, active⟩ (.filterMap _ (operations_wait active rfl))⟩
  | @replied o r next later x due admits =>
    have hwaiting : ∀ t ∈ ⟨o, .ask r next⟩ :: later, StartsNew c t.rest :=
      fun t ht => waiting t (due.mem_iff.2 ht)
    obtain ⟨ht, hlater⟩ := List.forall_mem_cons.1 hwaiting
    refine ⟨k, le_rfl, ⟨bound, active', ?_, hlater⟩, .same (.filterMap _ ?_) rfl⟩
    · exact List.forall_mem_append.2
        ⟨ready, List.forall_mem_singleton.2 (startsNew_reply ht admits)⟩
    · have moved := (due.map (·.operation)).symm.append_left
        ((s.active?.toList ++ s.ready).map (·.operation))
      simpa [operations, tasks] using moved
  | @dropped t later front gone =>
    refine ⟨k, le_rfl, ⟨bound, active', ready, fun t ht => waiting t ?_⟩, .same ?_ rfl⟩
    · exact gone.mem_iff.2 (List.mem_cons_of_mem _ ht)
    · have moved := ((gone.map (·.operation)).symm.append_left
        ((s.active?.toList ++ s.ready).map (·.operation))).filterMap (·.background?)
      simpa [underway, operations, tasks, background?_of_front front] using moved
  | @ended o a active =>
    refine ⟨k, le_rfl, ⟨bound, Task.forall_none, ready, waiting⟩, ?_⟩
    cases o with
    | background job =>
      exact .ended (by simp [underway, operations, tasks, active, Operation.background?]) rfl
    | _ => exact .same (by simp [underway, operations, tasks, active, Operation.background?]) rfl

/-- Each run under way was started for a name of its own among the first `k`, and only runs under way are
on the register, once each. -/
structure Registered (c : Conditions) (k : Nat) (s : Session) : Prop where
  named : ∀ job ∈ s.underway, ∃ n < k, job = c.names.job n
  underway : s.underway.Nodup
  nodup : s.registered.Nodup
  subset : ∀ job ∈ s.registered, job ∈ s.underway

section Injective

variable (inj : Function.Injective c.names.job)
include inj

theorem Registered.change (registered : Registered c k s) (hk : k ≤ k')
    (change : RegisterChange c k k' s s') : Registered c k' s' := by
  obtain ⟨named, underway, nodup, subset⟩ := registered
  have named' : ∀ job ∈ s.underway, ∃ n < k', job = c.names.job n := fun job hjob =>
    have ⟨n, hn, hname⟩ := named job hjob
    ⟨n, hn.trans_le hk, hname⟩
  cases change with
  | same same kept =>
    rw [← kept] at nodup subset
    exact ⟨fun job hjob => named' job (same.mem_iff.1 hjob), same.nodup_iff.2 underway, nodup,
      fun job hjob => same.mem_iff.2 (subset job hjob)⟩
  | @started n new known added put =>
    have fresh : c.names.job n ∉ s.underway := by
      intro mem
      obtain ⟨m, hm, hname⟩ := named _ mem
      exact absurd (inj hname) (by omega)
    refine ⟨fun job hjob => ?_, ?_, ?_, fun job hjob => ?_⟩
    · rcases List.mem_cons.1 (added.mem_iff.1 hjob) with rfl | hjob
      · exact ⟨n, known, rfl⟩
      · exact named' job hjob
    · exact added.nodup_iff.2 (List.nodup_cons.2 ⟨fresh, underway⟩)
    · rw [put, List.nodup_append_comm]
      exact List.nodup_cons.2 ⟨fun mem => fresh (subset _ mem), nodup⟩
    · rw [put] at hjob
      rw [added.mem_iff, List.mem_cons]
      rcases List.mem_append.1 hjob with hjob | hjob
      · exact .inr (subset job hjob)
      · exact .inl (List.mem_singleton.1 hjob)
  | takenOff takes same =>
    obtain ⟨present, active⟩ := takes
    exact ⟨fun job hjob => named' job (same.mem_iff.1 hjob), same.nodup_iff.2 underway,
      nodup.erase _, fun job hjob => same.mem_iff.2 (subset job (List.mem_of_mem_erase hjob))⟩
  | ended removed off =>
    obtain ⟨-, underway'⟩ := List.nodup_cons.1 (removed.nodup_iff.1 underway)
    refine ⟨fun job hjob => ?_, underway', off ▸ nodup.erase _, fun job hjob => ?_⟩
    · exact named' job (removed.mem_iff.2 (List.mem_cons_of_mem _ hjob))
    · rw [off, nodup.mem_erase_iff] at hjob
      exact (List.mem_cons.1 (removed.mem_iff.1 (subset job hjob.2))).resolve_left hjob.1

/-- Wherever a session comes to, its runs are numbered and registered. -/
theorem Reachable.registered (h : Reachable c s) :
    ∃ k, Numbered c k s ∧ Registered c k s := by
  induction h with
  | refl =>
    exact ⟨0, ⟨Nat.zero_le _, Task.forall_none, List.forall_mem_nil _, List.forall_mem_nil _⟩,
      ⟨List.forall_mem_nil _, .nil, .nil, List.forall_mem_nil _⟩⟩
  | tail _ step ih =>
    obtain ⟨k, numbered, registered⟩ := ih
    obtain ⟨k', hk, numbered', change⟩ := numbered.step step
    exact ⟨k', numbered', registered.change inj hk change⟩

/-- A run that is under way but not on the register was taken off by a join. -/
theorem Reachable.registered_or_takenOff (h : Reachable c s) :
    ∀ job ∈ s.underway, job ∈ s.registered ∨ TakenOff c s job := by
  induction h with
  | refl => exact nofun
  | @tail s s' h step ih =>
    obtain ⟨k, numbered, registered⟩ := Reachable.registered inj h
    obtain ⟨k', hk, -, change⟩ := numbered.step step
    have later {job : String} (hjob : TakenOff c s job) : TakenOff c s' job := by
      obtain ⟨s₀, s₁, before, takes, after⟩ := hjob
      exact ⟨s₀, s₁, before, takes, after.tail step⟩
    cases change with
    | same same kept =>
      rw [kept]
      exact fun job hjob => (ih job (same.mem_iff.1 hjob)).imp_right later
    | started new known added put =>
      intro job hjob
      rw [put, List.mem_append, List.mem_singleton]
      rcases List.mem_cons.1 (added.mem_iff.1 hjob) with rfl | hjob
      · exact .inl (.inr rfl)
      · exact (ih job hjob).imp .inl later
    | @takenOff taken takes same =>
      intro job hjob
      by_cases other : job = taken
      · subst other
        exact .inr ⟨s, s', h, takes, .refl⟩
      · obtain ⟨present, active⟩ := takes
        refine (ih job (same.mem_iff.1 hjob)).imp (fun hjob => ?_) later
        exact (List.mem_erase_of_ne other).2 hjob
    | @ended ended removed off =>
      intro job hjob
      have other : job ≠ ended := by
        rintro rfl
        exact (List.nodup_cons.1 (removed.nodup_iff.1 registered.underway)).1 hjob
      rw [off, List.mem_erase_of_ne other]
      exact (ih job (removed.mem_iff.2 (List.mem_cons_of_mem _ hjob))).imp_right later

/-- What was taken off the register does not come back to it, since no run is started twice. -/
theorem not_registered_of_steps {n : Nat} (numbered : Numbered c k s)
    (registered : Registered c k s) (known : n < k) (absent : c.names.job n ∉ s.registered)
    (steps : Steps c s s') : c.names.job n ∉ s'.registered := by
  have kept : ∃ k', n < k' ∧ Numbered c k' s' ∧ Registered c k' s' ∧
      c.names.job n ∉ s'.registered := by
    induction steps with
    | refl => exact ⟨k, known, numbered, registered, absent⟩
    | tail _ step ih =>
      obtain ⟨k, known, numbered, registered, absent⟩ := ih
      obtain ⟨k', hk, numbered', change⟩ := numbered.step step
      refine ⟨k', known.trans_le hk, numbered', registered.change inj hk change, fun mem => ?_⟩
      cases change with
      | same same kept => exact absent (kept ▸ mem)
      | started new known' added put =>
        rw [put, List.mem_append, List.mem_singleton] at mem
        rcases mem with mem | same
        · exact absent mem
        · exact absurd (inj same) (by omega)
      | takenOff takes same =>
        obtain ⟨present, active⟩ := takes
        exact absent (List.mem_of_mem_erase mem)
      | ended removed off => exact absent (List.mem_of_mem_erase (off ▸ mem))
  exact kept.choose_spec.2.2.2

theorem not_registered_of_takenOff (h : TakenOff c s job) : job ∉ s.registered := by
  obtain ⟨s₀, s₁, before, takes, after⟩ := h
  obtain ⟨k, numbered, registered⟩ := Reachable.registered inj before
  obtain ⟨k', hk, numbered', change⟩ := numbered.step takes.step
  have registered' := registered.change inj hk change
  obtain ⟨present, active⟩ := takes
  obtain ⟨n, known, rfl⟩ := registered.named job (registered.subset job present)
  refine not_registered_of_steps inj numbered' registered' (known.trans_le hk) ?_ after
  exact fun mem => (registered.nodup.mem_erase_iff.1 mem).1 rfl

/-- The register holds the runs that are under way and were not taken off by a join. -/
theorem Reachable.mem_registered_iff (h : Reachable c s) :
    job ∈ s.registered ↔ job ∈ s.underway ∧ ¬TakenOff c s job := by
  obtain ⟨k, -, registered⟩ := h.registered inj
  constructor
  · exact fun mem => ⟨registered.subset job mem, fun taken => not_registered_of_takenOff inj taken mem⟩
  · exact fun ⟨mem, free⟩ => (h.registered_or_takenOff inj job mem).resolve_right free

end Injective

/-! ### Counting and joining -/

/-- What a join comes to that finds no run on the register: it looks at the record of the job. -/
inductive Missed (c : Conditions) (store : Store) (job : String) : Except AnalysisError Unit → Prop
  | lost {e : StoreError} (fails : c.fails (.getJob job)) : Missed c store job (.error (.store e))
  | ended {j : Job} (found : store.job? job = some j) (ended : j.isTerminal = true) :
      Missed c store job (.ok ())
  | notFound (live : ∀ j, store.job? job = some j → j.isTerminal = false) :
      Missed c store job (.error (.jobNotFound job))

theorem wp_join {τ : Type} (rule : Rule Controls τ) (job : String)
    (post : Except AnalysisError Unit → τ → Prop) :
    (join job).run.wp rule post = rule (.join job) fun
      | true => post (.ok ())
      | false => rule (.effect (.store (.getJob job))) fun
        | .error e => post (.error (.store e))
        | .ok none => post (.error (.jobNotFound job))
        | .ok (some j) =>
          if j.isTerminal then post (.ok ()) else post (.error (.jobNotFound job)) := by
  rw [join, wp_run_bind, wp_run_lift, wp_request]
  congr 1
  funext present
  cases present with
  | true => rfl
  | false =>
    simp only [Bool.false_eq_true, if_false]
    rw [wp_run_bind, wp_recorded]
    congr 1
    funext x
    rcases x with e | (_ | j)
    · rfl
    · rfl
    · dsimp only [Except.mapError]
      split <;> rfl

/-- What is left of a join that finds no run on the register. -/
def afterMiss (job : String) : Program Controls (Except AnalysisError Unit) :=
  ExceptT.run do
    match ← recorded (.getJob job) with
    | none => throw (.jobNotFound job)
    | some j => if j.isTerminal then return else throw (.jobNotFound job)

theorem asks_afterMiss (job : String) : (afterMiss job).Asks Control.Immediate := by
  refine (asks_recorded (c := .getJob job) trivial).run_bind fun x => ?_
  cases x with
  | none => exact Asks.pure _
  | some j =>
    dsimp only
    split <;> exact Asks.pure _

/-- A join that comes upon a session where the run is not on the register looks at the record. -/
theorem wp_turn_join (job : String) (s : Session) :
    (join job).run.wp (turnRule c) (fun a _ => Missed c s.store job a) s := by
  rw [wp_join]
  refine fun _ => ⟨fun fails e => .lost fails, fun now => ?_⟩
  simp only [Store.perform]
  cases found : s.store.job? job with
  | none => exact .notFound (by simp [found])
  | some j =>
    cases ended : j.isTerminal with
    | true => simpa [ended] using .ended found ended
    | false => simpa [ended] using .notFound (by simp [found, ended])

/-- A join whose run is on the register makes no turn, but begins to wait. -/
theorem eq_of_turns_join (active : s.active? = some ((Operation.join job).task c.config))
    (present : job ∈ s.registered) (turns : Turns c s s') : s' = s := by
  rcases Relation.ReflTransGen.cases_head turns with rfl | ⟨s₁, turn, -⟩
  · rfl
  · cases turn with
    | failed e fails active' => cases active.symm.trans active'
    | performed now active' => cases active.symm.trans active'
    | started active' => cases active.symm.trans active'
    | counted active' => cases active.symm.trans active'
    | unregistered absent active' =>
      cases active.symm.trans active'
      exact absurd present absent

/-- A join that waits is done when the background run of the job is no longer under way. -/
theorem not_underway_of_admits {x : Bool} (admits : s.Admits (.join job) x) :
    x = true ∧ job ∉ s.underway := by
  obtain ⟨rfl, ended⟩ := admits
  refine ⟨rfl, fun mem => ?_⟩
  obtain ⟨o, ho, run⟩ := List.mem_filterMap.1 mem
  obtain ⟨t, ht, rfl⟩ := List.mem_map.1 ho
  have ended := ended t ht
  cases hop : t.operation with
  | background job' =>
    rw [hop] at run ended
    cases run
    simp [Operation.isBackgroundOf] at ended
  | _ =>
    rw [hop] at run
    cases run

/-- The register against the background runs under way, and what counting and joining make of it. -/
structure KeepsRegister (c : Conditions) (s : Session) : Prop where
  underway : s.underway.Nodup
  registered : s.registered.Nodup
  mem_registered : ∀ job, job ∈ s.registered ↔ job ∈ s.underway ∧ ¬TakenOff c s job
  counts : s.active? = some (Operation.activeRuns.task c.config) →
    (∃ s' n, Turns c s s' ∧ s'.active? = some ⟨.activeRuns, .done n⟩) ∧
      ∀ s' n, Turns c s s' → s'.active? = some ⟨.activeRuns, .done n⟩ → n = s.registered.length ∧
        (n = s.underway.length ↔ ∀ job ∈ s.underway, ¬TakenOff c s job)
  waits : ∀ job, s.active? = some ((Operation.join job).task c.config) → job ∈ s.registered →
    (∃ s', TakesOff job s s') ∧ ∀ s', Turns c s s' → s' = s
  returns : ∀ job next x, (⟨.join job, .ask (.join job) next⟩ : Task) =
      (Operation.join job).task c.config → s.Admits (.join job) x →
    job ∉ s.underway ∧ next x = .done (.ok ())
  misses : ∀ job, s.active? = some ((Operation.join job).task c.config) → job ∉ s.registered →
    (∃ s' a, Turns c s s' ∧ s'.active? = some ⟨.join job, .done a⟩) ∧
      ∀ s' a, Turns c s s' → s'.active? = some ⟨.join job, .done a⟩ → Missed c s.store job a

/-- The register holds the background runs under way that no join has asked for.  So they are counted, a
join of one of them waits for its end, and a join of any other looks at the record of the job. -/
theorem register_holds_unjoined_runs (inj : Function.Injective c.names.job)
    (h : Reachable c s) : KeepsRegister c s := by
  obtain ⟨k, -, registered⟩ := h.registered inj
  refine ⟨registered.underway, registered.nodup, fun job => h.mem_registered_iff inj, ?_, ?_, ?_, ?_⟩
  · intro active
    refine ⟨exists_turns (o := .activeRuns) (Asks.request trivial) active, fun s' n turns ended => ?_⟩
    have counted : activeRuns.wp (turnRule c) (fun n _ => n = s.registered.length) s.idle := rfl
    obtain rfl : n = s.registered.length := turns.wp active ended counted
    have within := List.subperm_of_subset registered.nodup registered.subset
    refine ⟨rfl, fun same job hjob => ?_, fun free => le_antisymm within.length_le ?_⟩
    · have all := within.perm_of_length_le same.ge
      exact ((h.mem_registered_iff inj).1 (all.mem_iff.2 hjob)).2
    · refine (List.subperm_of_subset registered.underway fun job hjob => ?_).length_le
      exact (h.mem_registered_iff inj).2 ⟨hjob, free job hjob⟩
  · exact fun job active present => ⟨⟨_, present, active⟩, fun s' => eq_of_turns_join active present⟩
  · rintro job next x ⟨⟩ admits
    obtain ⟨rfl, ended⟩ := not_underway_of_admits admits
    exact ⟨ended, rfl⟩
  · intro job active absent
    refine ⟨?_, fun s' a turns ended => turns.wp active ended (wp_turn_join job s.idle)⟩
    obtain ⟨s', a, turns, ended⟩ := exists_turns (c := c) (asks_afterMiss job)
      (s := { s with active? := some ⟨.join job, afterMiss job⟩ }) rfl
    exact ⟨s', a, .head (.unregistered absent active) turns, ended⟩

/-- Anything may be asked for, and the store does not fail. -/
def joining : Conditions where
  names := .unary
  config := {}
  begins _ := True
  fails _ := False

/-- A repository is submitted, the run of its job comes to its first call, and a join waits for it. -/
def joinedRun : List Move :=
  .ask (.submit "https://github.com/o/r") :: .resume 0 :: List.replicate 6 (.work ⟨0, 0⟩) ++
    .resume 0 :: List.replicate 6 (.work ⟨0, 0⟩) ++ [.ask (.join "j"), .resume 0, .work ⟨0, 0⟩]

/-- The session in which the join was given up and another one comes to work. -/
def joinedAgain : Session :=
  let s := (joinedRun.foldlM (play joining) {}).getD {}
  { s with active? := some ((Operation.join "j").task {}), waiting := s.waiting.eraseIdx 1 }

/-- After a join that was given up the run is still under way, but it is not counted, and the next join
does not find it. -/
theorem register_misses_run_after_join :
    KeepsRegister joining joinedAgain ∧ joinedAgain.underway = ["j"] ∧
      joinedAgain.registered = [] ∧ joinedAgain.store.jobs.map (·.isTerminal) = [false] ∧
      joinedAgain.active? = some ((Operation.join "j").task {}) ∧
      ∃ s', Turns joining joinedAgain s' ∧
        s'.active? = some ⟨.join "j", .done (.error (.jobNotFound "j"))⟩ := by
  let waits : Session := (joinedRun.foldlM (play joining) {}).getD {}
  have joined : Reachable joining waits := by
    refine Steps.of_play joinedRun ?_ rfl
    simp [joinedRun, List.replicate, Move.Allowed, joining, Operation.isBackground]
  have dropped : Step joining waits { waits with waiting := waits.waiting.eraseIdx 1 } :=
    .dropped rfl (perm_cons_eraseIdx (a := (Operation.join "j").task {}) rfl)
  have again : Steps joining { waits with waiting := waits.waiting.eraseIdx 1 } joinedAgain := by
    refine Steps.of_play [.ask (.join "j"), .resume 0] ?_ rfl
    simp [Move.Allowed, joining, Operation.isBackground]
  have missed : Turns joining joinedAgain _ :=
    Turns.of_play [.work ⟨0, 0⟩, .work ⟨0, 0⟩] (by simp [Move.Allowed]) (by simp [Move.isTurn]) rfl rfl
  exact ⟨register_holds_unjoined_runs (ofList_replicate_injective 'j')
    ((joined.tail dropped).trans again), rfl, rfl, rfl, rfl, _, missed, rfl⟩

end Session

end RepoDocs
