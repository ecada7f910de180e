import RepoDocs.Proofs.CommandLine.Requests

/-! An analysis that a command waits for, which is the only one in its engine.  It stands where the watch
on its job does, and until it has ended nobody asks for documentation; after that, a request for
documentation works alone. -/

namespace RepoDocs.CommandLine

open Analysis

variable {σ : Type}

/-! ### The analysis -/

section Analysis

variable {w : World σ} {config : AnalysisConfig} {kept : σ → Prop} {pause : Nat} {url : String}
  {c : Coordinates} {world : σ}

/-- An analysis submits the repository, watches its job and looks up the detail in the end. -/
theorem run_analysis (steady : w.Steady) (background : String → Program Effects Unit)
    (parsed : Coordinates.parse url = .ok c) (world : σ) (limit pause reads : Nat) :
    let sub := firstSubmission w.names (w.now world) url c
    Engine.run w background limit (analysis pause reads url).run { world } =
      match (sub.engine background world).run w background limit
        (watch sub.repository.id pause reads none) with
      | (some (_, .lost e), e') => (some (.error e), e')
      | (some _, e') =>
        e'.run w background limit (join sub.job.id >>= fun _ => detail sub.repository.id).run
      | (none, e') => (none, e') := by
  intro sub
  rw [analysis, Engine.run_attempt_bind, run_submit steady background limit parsed]
  dsimp only
  rw [Engine.run_attempt_bind, Engine.run_attempt_lift]
  rcases (sub.engine background world).run w background limit
    (watch sub.repository.id pause reads none) with ⟨_ | ⟨jobs, _ | _ | _⟩, e'⟩ <;> rfl

/-- An analysis from the start up to a time, with as many reads of its job as it may need. -/
def analysisUpTo (w : World σ) (config : AnalysisConfig) (pause : Nat) (url : String) (world : σ)
    (limit : Nat) : Option (Except AnalysisError Detail) × Engine σ :=
  Engine.run w (background config) limit (analysis pause (limit + 1) url).run { world }

/-- How an analysis stands that is the only one: it waits, or its job has ended, and the detail has the
job and all else that is on record. -/
inductive Analyzed (w : World σ) (sub : Submission) (kept : σ → Prop) :
    Option (Except AnalysisError Detail) × Engine σ → Prop
  | waits {e : Engine σ} (tended : e.Tended w (sub.charge kept)) : Analyzed w sub kept (none, e)
  | ended {e : Engine σ} {r : Repository} {j : Job} (tended : e.Tended w (sub.charge kept))
      (sole : sub.Sole e.store r j) (terminal : j.isTerminal = true) :
      Analyzed w sub kept (some (.ok ⟨r, some j, e.store.documentation⟩), e)

variable (config) (bears : w.Bears ((firstSubmission w.names (w.now world) url c).charge kept))
  (positive : 0 < pause) (parsed : Coordinates.parse url = .ok c) (h : kept world)
include bears positive parsed h

/-- An analysis stands where the watch on its job does. -/
theorem analyzed (limit : Nat) :
    let sub := firstSubmission w.names (w.now world) url c
    let watched := (sub.engine (background config) world).run w (background config) limit
      (watch sub.repository.id pause (limit + 1) none)
    let x := analysisUpTo w config pause url world limit
    Analyzed w sub kept x ∧ x.2 = watched.2 ∧ (watched.1.isSome = true → x.1.isSome = true) := by
  intro sub watched x
  have ran : x = _ := run_analysis bears.steady (background config) parsed world limit pause (limit + 1)
  have tended := tended_firstSubmission (w := w) config (w.now world) url c h
  have shown := sub.charge_shownBy kept
  cases seen : watched with
  | mk seen? e =>
    obtain ⟨tended, ends⟩ := tended.run_watch bears shown positive seen
    rw [show (sub.engine (background config) world).run w (background config) limit
      (watch sub.repository.id pause (limit + 1) none) = _ from seen] at ran
    rcases seen? with _ | ⟨jobs, sighting⟩
    · rw [ran]
      exact ⟨.waits tended, rfl, id⟩
    · rcases ends jobs sighting rfl with ⟨job, rfl, closed⟩ | late
      · obtain ⟨alone, unregistered⟩ := tended.alone shown.apart closed
        obtain ⟨r, j, sole, terminal⟩ := closed
        dsimp only at ran
        rw [Engine.run_attempt_bind, run_join bears.steady _ _ unregistered sole.job? terminal] at ran
        dsimp only at ran
        rw [run_detail bears.steady _ _ sole] at ran
        rw [ran]
        exact ⟨.ended tended sole terminal, rfl, fun _ => rfl⟩
      · have enough := Nat.le_mul_of_pos_right (limit + 1) positive
        have clock : (sub.engine (background config) world).clock = 0 := rfl
        omega

/-- Once its job has ended, an analysis comes to its end within a pause. -/
theorem analyzed_in_time {time limit : Nat} (inTime : time + pause ≤ limit)
    (closed : (firstSubmission w.names (w.now world) url c).Over
      (analysisUpTo w config pause url world time).2.store) :
    (analysisUpTo w config pause url world limit).1.isSome = true ∧
      (analysisUpTo w config pause url world limit).2.store =
        (analysisUpTo w config pause url world time).2.store := by
  have tended := tended_firstSubmission (w := w) config (w.now world) url c h
  obtain ⟨-, early, -⟩ := analyzed config bears positive parsed h time
  obtain ⟨-, late, ended⟩ := analyzed config bears positive parsed h limit
  have enough : time - 0 < (time + 1) * pause :=
    Nat.lt_of_lt_of_le (Nat.lt_succ_self time) (Nat.le_mul_of_pos_right _ positive)
  have enough' : time - 0 + pause < (limit + 1) * pause :=
    Nat.lt_of_lt_of_le (Nat.lt_succ_of_le inTime) (Nat.le_mul_of_pos_right _ positive)
  rw [early] at closed ⊢
  obtain ⟨jobs, j, e, ran, store⟩ := tended.run_watch_ends bears (Submission.charge_shownBy _ kept)
    positive nofun (Nat.zero_le time) closed enough enough' inTime
  rw [ran] at late ended
  refine ⟨ended rfl, ?_⟩
  rw [late]
  exact store

end Analysis

/-! ### Clients -/

section Clients

variable (s : Surroundings σ) (clients : Clients) (log : σ → List Http.Request)

/-- From `sent` on, requests were made, none of them for documentation. -/
def Clients.Undocumented (sent : List Http.Request) (u : σ) : Prop :=
  ∃ before, log u = sent ++ before ∧ ∀ q ∈ before, ¬clients.Documents q

/-- From `sent` on, requests were made. -/
def Continues (sent : List Http.Request) (u : σ) : Prop := ∃ after, log u = sent ++ after

variable {s clients log} (logs : ∀ r u, log (s.exchange r u).2 = log u ++ [r])
include logs

/-- The run of an analysis makes no request for documentation. -/
theorem bears_undocumented (sub : Submission) (sent : List Http.Request) :
    (clients.world s).Bears (sub.charge (clients.Undocumented log sent)) where
  steady _ _ := rfl
  call call u analyzes kept := by
    refine Program.conduct_keeps (fun r u other kept => ?_) (clients.asks_of_analyzes analyzes) kept
    obtain ⟨before, sofar, none⟩ := kept
    refine ⟨before ++ [r], by rw [logs, sofar, List.append_assoc], ?_⟩
    exact List.forall_mem_append.2 ⟨none, List.forall_mem_singleton.2 other⟩

theorem bears_continues {k : Charge σ} {sent : List Http.Request} (same : k.kept = Continues log sent) :
    (clients.world s).Bears k where
  steady _ _ := rfl
  call call u _ kept := by
    rw [same] at kept ⊢
    have asks := Program.Asks.of_all (fun _ => trivial) (clients.program call)
    refine Program.conduct_keeps (fun r u (_ : True) kept => ?_) asks kept
    obtain ⟨after, sofar⟩ := kept
    exact ⟨after ++ [r], by rw [logs, sofar, List.append_assoc]⟩

variable (clients) in
/-- A request for documentation where the run of the analysis is over: the job stays as it is, and what it
replies is on record. -/
theorem generation {sub : Submission} {e : Engine σ} {r : Repository} {j : Job} (alone : e.Alone)
    (sole : sub.Sole e.store r j) (config : AnalysisConfig) (kind : DocumentationKind)
    (background : String → Program Effects Unit) (limit : Nat) :
    let x := e.run (clients.world s) background limit (generate config r.id kind).run.lift
    sub.Sole x.2.store r j ∧ Continues log (log e.world) x.2.world ∧
      ∀ d, x.1 = some (.ok d) → d ∈ x.2.store.documentation ∧ d.kind = kind := by
  intro x
  let k : Charge σ :=
    { job := j.id, live := (sub.Sole · r j), closed := fun _ => False, may := fun _ => True
      kept := Continues log (log e.world) }
  have bears : (clients.world s).Bears k := bears_continues logs rfl
  have written := Submission.wp_generate s.names config sole kind
  rw [← sole.repository] at written
  have stands := alone.stands bears background limit ⟨[], (List.append_nil _).symm⟩ written
  refine ⟨?_, stands.kept, fun d ended => (stands.ended _ ended).2 d rfl⟩
  cases ended : x.1 with
  | none => exact stands.waits ended
  | some y => exact (stands.ended y ended).1

end Clients

end RepoDocs.CommandLine
