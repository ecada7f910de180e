import Mathlib.Logic.Function.Iterate
import RepoDocs.Proofs.Analysis.Requests
import RepoDocs.Proofs.Analysis.Timeliness
import RepoDocs.Proofs.Analysis.Watching
import RepoDocs.Proofs.Process.Passing

/-! Watches in an engine.  While a watch pauses, the background runs work; they create no jobs, so the
current job of a repository goes on in its course.  A watch that has reads enough left ends within one
interval of the time at which the job has. -/

namespace RepoDocs

open Analysis Session

/-! ### Background runs create no jobs -/

theorem Store.length_jobsOf_perform {s : Store} {names : Naming} {now : Instant} {c : StoreCall}
    (h : c.CreatesNoJob) (repositoryId : String) :
    ((s.perform names now c).2.jobsOf repositoryId).length = (s.jobsOf repositoryId).length := by
  cases c with
  | createJob _ => exact h.elim
  | updateJob id u =>
    rw [Store.perform, Store.jobsOf_updateJob, Store.modifyWhere, List.length_map]
  | createRepository new =>
    simp only [Store.perform, Store.createRepository]
    split <;> rfl
  | updateRepository id u =>
    simp only [Store.perform, Store.updateRepository]
    split <;> rfl
  | _ => rfl

namespace Engine

variable {w : World σ} {c : Conditions} {e : Engine σ} {repositoryId : String}

/-- How many jobs a repository has. -/
def jobCount (e : Engine σ) (repositoryId : String) : Nat := (e.store.jobsOf repositoryId).length

theorem jobCount_performStore {call : StoreCall} (h : call.CreatesNoJob) (e : Engine σ) :
    (e.performStore w call).2.jobCount repositoryId = e.jobCount repositoryId := by
  unfold performStore
  split
  · rfl
  · exact Store.length_jobsOf_perform h repositoryId

theorem jobCount_work {q : Program Effects Unit} (h : q.Asks Effect.CreatesNoJob) (job : String)
    (e : Engine σ) : (e.work w job q).jobCount repositoryId = e.jobCount repositoryId := by
  induction q generalizing e with
  | done a => rfl
  | ask r next ih =>
    cases r with
    | store call =>
      rw [work, begin_store]
      exact (ih _ (h.2 _) _).trans (jobCount_performStore h.1 e)
    | call call deadline? =>
      rw [work, begin_call]
      cases (w.begin call e.world).1.within deadline? with
      | never => rfl
      | after ms x =>
        cases ms with
        | zero => exact ih x (h.2 x) { e with world := (w.begin call e.world).2 }
        | succ ms => rfl

theorem jobCount_foldl_work {runs : List BackgroundRun}
    (h : ∀ r ∈ runs, r.rest.Asks Effect.CreatesNoJob) (e : Engine σ) :
    (runs.foldl (fun e r => e.work w r.job r.rest) e).jobCount repositoryId =
      e.jobCount repositoryId := by
  induction runs generalizing e with
  | nil => rfl
  | cons r runs ih =>
    obtain ⟨first, others⟩ := List.forall_mem_cons.1 h
    exact (ih others _).trans (jobCount_work first r.job e)

theorem hereditary_asks (may : Effect → Prop) : Hereditary (·.Asks may) :=
  fun _ _ h x => h.2 x

/-- The background runs create no jobs while time goes by. -/
theorem jobCount_pass (h : e.Holds (·.Asks Effect.CreatesNoJob)) (met : Engine σ → Bool)
    (goal fuel : Nat) : (e.pass w met goal fuel).2.jobCount repositoryId = e.jobCount repositoryId := by
  have hereditary := hereditary_asks Effect.CreatesNoJob
  refine (pass_keeps (I := fun e' => e'.Holds (·.Asks Effect.CreatesNoJob) ∧
    e'.jobCount repositoryId = e.jobCount repositoryId) ?_ ?_ ⟨h, rfl⟩ met goal fuel).2
  · rintro e' ⟨h', same⟩
    exact ⟨h'.drain hereditary w, (jobCount_foldl_work h'.ready _).trans same⟩
  · rintro e' time ⟨h', same⟩
    exact ⟨h'.wakeAt time, same⟩

/-! ### Engines whose program in front pauses -/

/-- An engine as it is while the program in front pauses: it shows in a session, no wait is overdue, and
no background run will create a job. -/
structure Settled (c : Conditions) (e : Engine σ) : Prop where
  shown : ∃ s, Reachable c s ∧ e.Shows none [] s
  timely : e.Timely
  holds : e.Holds (·.Asks Effect.CreatesNoJob)

theorem Reached.settled (suits : w.Suits c) (h : Reached w c e) : e.Settled c where
  shown := h.exists_session suits
  timely := h.timely
  holds := .of_reached (hereditary_asks _) (asks_background c.config) h

namespace Settled

theorem pass (h : e.Settled c) (suits : w.Suits c) (met : Engine σ → Bool) (goal fuel : Nat) :
    (e.pass w met goal fuel).2.Settled c where
  shown := by
    obtain ⟨s, reachable, shows⟩ := h.shown
    obtain ⟨s', steps, shows'⟩ := shows.pass suits met goal fuel
    exact ⟨s', reachable.trans steps, shows'⟩
  timely := h.timely.pass w met goal fuel
  holds := h.holds.pass (hereditary_asks _) w met goal fuel

/-- The current job goes on while time goes by. -/
theorem current (h : e.Settled c) (suits : w.Suits c) (inj : Function.Injective c.names.job)
    (indirect : ∀ id u, ¬c.begins (.store (.updateJob id u))) {j : Job}
    (current : e.store.currentJob? repositoryId = some j) (met : Engine σ → Bool) (goal fuel : Nat) :
    ∃ j', (e.pass w met goal fuel).2.store.currentJob? repositoryId = some j' ∧ j.GoesOn j' := by
  obtain ⟨s, reachable, shows⟩ := h.shown
  obtain ⟨s', steps, shows'⟩ := shows.pass suits met goal fuel
  have same : (e.pass w met goal fuel).2.jobCount repositoryId = e.jobCount repositoryId :=
    jobCount_pass h.holds met goal fuel
  rw [jobCount, jobCount, ← shows.store, ← shows'.store] at same
  rw [← shows.store] at current
  rw [← shows'.store]
  exact steps.current inj indirect reachable same current

end Settled

/-! ### The reads of a watch -/

/-- The engine at the next read of a watch, after one read and the time up to the other. -/
def reread (w : World σ) (repositoryId : String) (interval : Nat) (e : Engine σ) : Engine σ :=
  ((e.performStore w (.currentJob repositoryId)).2.passUntil w (fun _ => false)
    (e.clock + interval)).2

/-- A read changes the world alone. -/
theorem performStore_currentJob (sound : w.Sound) (e : Engine σ) (repositoryId : String) :
    e.performStore w (.currentJob repositoryId) = (.ok (e.store.currentJob? repositoryId),
      { e with world := (w.storeFailure? (.currentJob repositoryId) e.world).2 }) := by
  obtain ⟨now, performed⟩ := performStore_of_sound sound e (.currentJob repositoryId)
  exact performed

theorem Settled.withWorld (h : e.Settled c) (world : σ) : Settled c { e with world } where
  shown := h.shown
  timely := h.timely.of_same rfl rfl
  holds := h.holds.of_same rfl rfl

theorem clock_reread (e : Engine σ) (repositoryId : String) (interval : Nat) :
    (e.reread w repositoryId interval).clock = e.clock + interval := by
  refine clock_pass _ ?_ (Nat.lt_succ_self _)
  rw [clock_performStore]
  exact Nat.le_add_right ..

section Reread

variable (sound : w.Sound) (suits : w.Suits c)
include sound suits

theorem Settled.reread (h : e.Settled c) (repositoryId : String) (interval : Nat) :
    (e.reread w repositoryId interval).Settled c := by
  rw [Engine.reread, performStore_currentJob sound]
  exact (h.withWorld _).pass suits _ _ _

theorem Settled.current_reread (h : e.Settled c) (inj : Function.Injective c.names.job)
    (indirect : ∀ id u, ¬c.begins (.store (.updateJob id u))) {j : Job}
    (current : e.store.currentJob? repositoryId = some j) (interval : Nat) :
    ∃ j', (e.reread w repositoryId interval).store.currentJob? repositoryId = some j' ∧
      j.GoesOn j' := by
  rw [Engine.reread, performStore_currentJob sound]
  have h := h.withWorld (w.storeFailure? (.currentJob repositoryId) e.world).2
  exact h.current suits inj indirect current (fun _ => false) _ _

/-- The jobs that a watch may read. -/
theorem Settled.exists_read (h : e.Settled c) (inj : Function.Injective c.names.job)
    (indirect : ∀ id u, ¬c.begins (.store (.updateJob id u)))
    (current : ∃ j, e.store.currentJob? repositoryId = some j) (interval : Nat) :
    ∃ read : Nat → Job,
      (∀ i, ((Engine.reread w repositoryId interval)^[i] e).store.currentJob? repositoryId =
        some (read i)) ∧
      ∀ i, (read i).GoesOn (read (i + 1)) := by
  have settled (i : Nat) : ((Engine.reread w repositoryId interval)^[i] e).Settled c := by
    induction i with
    | zero => exact h
    | succ i ih =>
      rw [Function.iterate_succ_apply']
      exact ih.reread sound suits repositoryId interval
  refine exists_reads current fun i j hj => ?_
  rw [Function.iterate_succ_apply']
  exact (settled i).current_reread sound suits inj indirect hj interval

end Reread

section Run

variable {background : String → Program Effects Unit} {limit interval : Nat} {j : Job}
  (sound : w.Sound) (current : e.store.currentJob? repositoryId = some j)
include sound current

/-- A watch that reads a job at its end is over. -/
theorem run_watch_of_ended (terminal : j.isTerminal = true) (reads : Nat) (last? : Option Job) :
    e.run w background limit (watch repositoryId interval (reads + 1) last?) =
      (some (changes last? [j], .ended j), (e.performStore w (.currentJob repositoryId)).2) := by
  obtain ⟨next, watched, seen⟩ := exists_watch_eq repositoryId interval reads last?
  rw [watched, run, begin_store, performStore_currentJob sound, current]
  simp [seen, terminal, changes, run]

/-- A watch that reads a live job pauses and goes on, unless it is given up on before. -/
theorem run_watch_of_live (live : j.isTerminal = false) (positive : 0 < interval) (reads : Nat)
    (last? : Option Job) :
    e.run w background limit (watch repositoryId interval (reads + 1) last?) =
      if e.clock + interval ≤ limit then
        match (e.reread w repositoryId interval).run w background limit
          (watch repositoryId interval reads (some j)) with
        | (some (later, sighting), e') =>
          (some ((if last?.any (sameProgress j) then [] else [j]) ++ later, sighting), e')
        | (none, e') => (none, e')
      else
        (none, ((e.performStore w (.currentJob repositoryId)).2.passUntil w (fun _ => false)
          limit).2) := by
  obtain ⟨next, watched, seen⟩ := exists_watch_eq repositoryId interval reads last?
  obtain ⟨ms, rfl⟩ := Nat.exists_eq_add_one.2 positive
  rw [watched, run, begin_store, reread, performStore_currentJob sound, current]
  simp only [seen, live, Bool.false_eq_true, if_false, run, waitFor, Nat.add_assoc]
  by_cases inTime : e.clock + (ms + 1) ≤ limit
  · simp only [inTime, decide_true, if_true, Nat.min_eq_left, run_bind]
    split <;> simp_all [run]
  · simp only [inTime, decide_false, if_false, Nat.min_eq_right (Nat.le_of_not_le inTime)]

end Run

/-- What a watch has seen that came to its end, and the job that is on record then. -/
theorem run_watch (sound : w.Sound) {background : String → Program Effects Unit}
    {limit interval reads : Nat} (positive : 0 < interval) {last? : Option Job} {read : Nat → Job}
    (current : ∀ i, ((reread w repositoryId interval)^[i] e).store.currentJob? repositoryId =
      some (read i))
    {jobs : List Job} {sighting : Sighting} {e' : Engine σ}
    (h : e.run w background limit (watch repositoryId interval reads last?) =
      (some (jobs, sighting), e')) :
    jobs = changes last? (sights read reads).1 ∧ sighting = (sights read reads).2 ∧
      ∀ job, sighting = .ended job → e'.store.currentJob? repositoryId = some job := by
  induction reads generalizing e last? read jobs sighting with
  | zero =>
    cases h
    exact ⟨rfl, rfl, nofun⟩
  | succ reads ih =>
    have first : e.store.currentJob? repositoryId = some (read 0) := current 0
    cases terminal : (read 0).isTerminal with
    | true =>
      rw [run_watch_of_ended sound first terminal, performStore_currentJob sound] at h
      cases h
      rw [sights_of_ended terminal]
      refine ⟨rfl, rfl, ?_⟩
      rintro _ ⟨⟩
      exact first
    | false =>
      rw [run_watch_of_live sound first terminal positive] at h
      split at h
      · split at h
        · rename_i later sighting' e₁ rest
          cases h
          obtain ⟨rfl, rfl, ended⟩ := ih (fun i => current (i + 1)) rest
          rw [sights_of_live terminal]
          exact ⟨rfl, rfl, ended⟩
        · cases h
      · cases h

/-- Where the job has ended when the watch is given up on between two reads, the next read would have
shown so. -/
theorem Settled.current_reread_of_ended (h : e.Settled c) (inj : Function.Injective c.names.job)
    (indirect : ∀ id u, ¬c.begins (.store (.updateJob id u))) (sound : w.Sound) (suits : w.Suits c)
    {time interval : Nat} (ahead : e.clock ≤ time) (between : time < e.clock + interval) {j : Job}
    (current : ((e.performStore w (.currentJob repositoryId)).2.passUntil w (fun _ => false)
      time).2.store.currentJob? repositoryId = some j) (terminal : j.isTerminal = true) :
    (e.reread w repositoryId interval).store.currentJob? repositoryId = some j := by
  rw [Engine.reread]
  rw [performStore_currentJob sound] at current ⊢
  have h₁ := h.withWorld (w.storeFailure? (.currentJob repositoryId) e.world).2
  have h₂ := h₁.pass suits (fun _ => false) time (time - e.clock + 1)
  obtain ⟨j', current', goesOn⟩ := h₂.current suits inj indirect current (fun _ => false)
    (e.clock + interval) _
  rw [goesOn.ended terminal] at current'
  rw [← passUntil_passUntil h₁.timely ahead between]
  exact current'

/-- A watch that goes on ends within an interval after its job has. -/
theorem run_watch_ends (inj : Function.Injective c.names.job)
    (indirect : ∀ id u, ¬c.begins (.store (.updateJob id u))) (sound : w.Sound) (suits : w.Suits c)
    {background : String → Program Effects Unit} {time limit interval reads : Nat}
    (positive : 0 < interval) {last? : Option Job} (h : e.Settled c)
    (current : ∃ j, e.store.currentJob? repositoryId = some j) (ahead : e.clock ≤ time) {j : Job}
    (ended : (e.run w background time
      (watch repositoryId interval reads last?)).2.store.currentJob? repositoryId = some j)
    (terminal : j.isTerminal = true) (enough : time - e.clock + interval < reads * interval)
    (inTime : time + interval ≤ limit) :
    ∃ jobs e', e.run w background limit (watch repositoryId interval reads last?) =
      (some (jobs, .ended j), e') ∧ e'.clock ≤ time + interval := by
  induction reads generalizing e last? with
  | zero => omega
  | succ reads ih =>
    obtain ⟨j₀, current⟩ := current
    cases terminal₀ : j₀.isTerminal with
    | true =>
      rw [run_watch_of_ended sound current terminal₀, performStore_currentJob sound] at ended
      obtain rfl := Option.some.inj (current.symm.trans ended)
      refine ⟨_, _, run_watch_of_ended sound current terminal₀ reads last?, ?_⟩
      rw [clock_performStore]
      omega
    | false =>
      rw [run_watch_of_live sound current terminal₀ positive] at ended ⊢
      have clock := clock_reread (w := w) e repositoryId interval
      have rest : ∃ jobs e', (e.reread w repositoryId interval).run w background limit
          (watch repositoryId interval reads (some j₀)) = (some (jobs, .ended j), e') ∧
          e'.clock ≤ time + interval := by
        rw [Nat.succ_mul] at enough
        by_cases again : e.clock + interval ≤ time
        · rw [if_pos again] at ended
          obtain ⟨j₁, current₁, -⟩ := h.current_reread sound suits inj indirect current interval
          refine ih (h.reread sound suits repositoryId interval) ⟨j₁, current₁⟩ (by omega) ?_ (by omega)
          split at ended <;> simp_all
        · rw [if_neg again] at ended
          have next := h.current_reread_of_ended inj indirect sound suits ahead
            (Nat.lt_of_not_le again) ended terminal
          cases reads with
          | zero => omega
          | succ reads =>
            refine ⟨_, _, run_watch_of_ended sound next terminal reads _, ?_⟩
            rw [clock_performStore, clock]
            omega
      obtain ⟨jobs, e', rest, soon⟩ := rest
      rw [if_pos (by omega), rest]
      exact ⟨_, e', rfl, soon⟩

end Engine

namespace Analysis

open Engine

/-- What a watch on the current job of a repository reports, as long as the job remains the current one
and the reads do not fail.  Beside any session, and in any engine, it reports each change of what the
reads show, in order and once, from the job as it was in the beginning to the job at its end, which is
what the watch ends with and what is on record then.  It ends at the first read of a job that has ended.
In an engine, whose background runs create no jobs, that is within an interval after the job has. -/
theorem watch_follows_job {c : Conditions} (inj : Function.Injective c.names.job)
    (indirect : ∀ id u, ¬c.begins (.store (.updateJob id u))) (repositoryId : String)
    (interval reads : Nat) :
    (∀ moment : Nat → Session, Lasts c repositoryId moment →
      ∃ read count jobs sighting,
        ((watch repositoryId interval reads none).run (serve c) moment).1 = (jobs, sighting) ∧
        (∀ i, (moment i).store.currentJob? repositoryId = some (read i)) ∧
        Watched read reads count jobs sighting ∧
        ∀ i s job, i + 1 < reads → Steps c (moment i) s → Steps c s (moment (i + 1)) →
          s.store.currentJob? repositoryId = some job → job.isTerminal = true →
            sighting = .ended job ∧ count ≤ i + 2) ∧
    ∀ {σ : Type} {w : World σ} {e : Engine σ}, w.Suits c → w.Sound → Reached w c e →
      (∃ job, e.store.currentJob? repositoryId = some job) → 0 < interval →
      let watched (limit : Nat) :=
        e.run w (background c.config) limit (watch repositoryId interval reads none)
      (∃ read : Nat → Job,
        (∀ i, ((reread w repositoryId interval)^[i] e).store.currentJob? repositoryId =
          some (read i)) ∧
        ∀ limit jobs sighting e', watched limit = (some (jobs, sighting), e') →
          (∃ count, Watched read reads count jobs sighting) ∧
          ∀ job, sighting = .ended job → e'.store.currentJob? repositoryId = some job) ∧
      ∀ time limit job, e.clock ≤ time →
        (watched time).2.store.currentJob? repositoryId = some job → job.isTerminal = true →
        time - e.clock + interval < reads * interval → time + interval ≤ limit →
          ∃ jobs e', watched limit = (some (jobs, .ended job), e') ∧ e'.clock ≤ time + interval := by
  refine ⟨fun moment lasts => lasts.watch inj indirect interval reads, ?_⟩
  intro σ w e suits sound reached current positive watched
  have settled := reached.settled suits
  refine ⟨?_, fun time limit job ahead ended terminal enough inTime => ?_⟩
  · obtain ⟨read, hread, goesOn⟩ := settled.exists_read sound suits inj indirect current interval
    refine ⟨read, hread, fun limit jobs sighting e' ended => ?_⟩
    obtain ⟨rfl, rfl, record⟩ := run_watch sound positive hread ended
    exact ⟨Analysis.watched goesOn reads, record⟩
  · exact run_watch_ends inj indirect sound suits positive settled current ahead ended terminal enough
      inTime

/-- A source that fails after a while. -/
def failing : (c : Call) → Conduct c.Reply
  | .metadata _ => .after 700 (.error (.other "down"))
  | _ => .never

/-- What the current job of a repository shows, and how many jobs the repository has. -/
def looks (s : Store) : Option (JobStatus × String) × Nat :=
  ((s.currentJob? "r").map display, (s.jobsOf "r").length)

/-- A job is submitted, begun, and failed by a second run of it, which cannot mark the repository. -/
theorem exists_lasts_failed :
    ∃ moment, Lasts indirect "r" moment ∧
      ((moment 0).store.currentJob? "r").map display = some (.queued, "0") ∧
      ((moment 2).store.currentJob? "r").map display = some (.failed, "10") := by
  have played : ((secondRun.take 8).foldlM (play indirect) {} >>= fun s₀ =>
      ((secondRun.drop 8).take 7).foldlM (play indirect) s₀ >>= fun s₁ =>
        (secondRun.drop 15).foldlM (play indirect) s₁ >>= fun s₂ =>
          some (looks s₀.store, looks s₁.store, looks s₂.store)) =
      some ((some (.queued, "0"), 1), (some (.processing, "10"), 1), (some (.failed, "10"), 1)) := by
    rfl
  simp only [Option.bind_eq_bind, Option.bind_eq_some_iff, looks, Option.some.injEq,
    Prod.mk.injEq] at played
  obtain ⟨s₀, first, s₁, second, s₂, third, ⟨submitted, one₀⟩, ⟨-, one₁⟩, failed, one₂⟩ := played
  have allowed : ∀ m ∈ secondRun, m.Allowed indirect := by
    simp [secondRun, Move.Allowed, indirect, Operation.isBackground]
  have begun : Steps indirect s₀ s₁ := Steps.of_play _
    (fun m hm => allowed m (List.mem_of_mem_drop (List.mem_of_mem_take hm))) second
  have ended : Steps indirect s₁ s₂ :=
    Steps.of_play _ (fun m hm => allowed m (List.mem_of_mem_drop hm)) third
  obtain ⟨job, current, -⟩ := Option.map_eq_some_iff.1 submitted
  refine ⟨fun i => [s₀, s₁].getD i s₂, ⟨?_, ?_, ⟨job, current⟩, ?_⟩, submitted, failed⟩
  · exact Steps.of_play _ (fun m hm => allowed m (List.mem_of_mem_take hm)) first
  · rintro (_ | _ | i)
    · exact begun
    · exact ended
    · exact .refl
  · rintro (_ | _ | i)
    · rfl
    · exact one₁.trans one₀.symm
    · exact one₂.trans one₀.symm

/-- A watch shows how a job is submitted and fails, by another run beside a session, and in an engine
because the source fails. -/
theorem watch_follows_job_failed :
    (∃ moment jobs job, Lasts indirect "r" moment ∧
      ((watch "r" 300 5 none).run (serve indirect) moment).1 = (jobs, .ended job) ∧
      jobs.head?.map display = some (.queued, "0") ∧ display job = (.failed, "10")) ∧
    ∃ e : Engine Unit, Reached (conducting .unary failing) indirect e ∧
      ∃ jobs job e', e.run (conducting .unary failing) (background indirect.config) 1100
          (watch "r" 300 5 none) = (some (jobs, .ended job), e') ∧
        jobs.map display = [(.queued, "0"), (.processing, "10"), (.failed, "10")] ∧
        e'.store.currentJob? "r" = some job ∧ e'.clock ≤ 1100 := by
  have outright : ∀ id u, ¬indirect.begins (.store (.updateJob id u)) :=
    fun id u begins => begins id u rfl
  obtain ⟨beside, inEngine⟩ :=
    watch_follows_job (ofList_replicate_injective 'j') outright "r" 300 5
  constructor
  · obtain ⟨moment, lasts, submitted, failed⟩ := exists_lasts_failed
    obtain ⟨read, count, jobs, sighting, reports, current, watched, ends⟩ := beside moment lasts
    obtain ⟨job, ended, shows⟩ := Option.map_eq_some_iff.1 failed
    have terminal : job.isTerminal = true :=
      congrArg (fun shown : JobStatus × String => shown.1.isTerminal) shows
    obtain ⟨rfl, -⟩ := ends 1 (moment 2) job (by decide) (lasts.steps 1) .refl ended terminal
    refine ⟨moment, jobs, job, lasts, reports, ?_, shows⟩
    rw [watched.first (by decide), ← current 0, submitted]
  · let e : Engine Unit := (Engine.run (conducting .unary failing) (background {}) 0
      (Operation.program {} (.submit "https://github.com/o/r")) { world := () }).2
    have reached : Reached (conducting .unary failing) indirect e :=
      .ran (o := .submit "https://github.com/o/r") (fun _ _ => nofun) rfl 0 (.start ())
    have submitted : ∃ job, e.store.currentJob? "r" = some job := ⟨_, rfl⟩
    have clock : e.clock = 0 := rfl
    have failed : ((e.run (conducting .unary failing) (background indirect.config) 800
        (watch "r" 300 5 none)).2.store.currentJob? "r").map (·.isTerminal) = some true := by
      decide
    have shown : (e.run (conducting .unary failing) (background indirect.config) 1100
        (watch "r" 300 5 none)).1.map (fun r => r.1.map display) =
        some [(.queued, "0"), (.processing, "10"), (.failed, "10")] := by
      decide
    clear_value e
    obtain ⟨⟨read, -, reports⟩, ends⟩ := inEngine (w := conducting .unary failing)
      ⟨rfl, fun _ _ _ _ => trivial⟩ (fun _ _ => rfl) reached submitted (by decide)
    beta_reduce at reports ends
    obtain ⟨job, current, terminal⟩ := Option.map_eq_some_iff.1 failed
    obtain ⟨jobs, e', ended, soon⟩ :=
      ends 800 1100 job (by omega) current terminal (by omega) (by decide)
    obtain ⟨-, record⟩ := reports 1100 jobs _ e' ended
    rw [ended] at shown
    exact ⟨e, reached, jobs, job, e', ended, Option.some.inj shown, record job rfl, soon⟩

end Analysis

end RepoDocs
