import RepoDocs.Proofs.Analysis.Completion
import RepoDocs.Proofs.Process.Deadline

/-! Runs of analyses whose calls have a deadline.  Besides files, a run makes two calls, so it is over
after as many deadlines and one more for each file, however its calls go.  Where it works alone and the
store does not fail, its job and its repository have ended then, and a call that is given up on counts as
one that has failed. -/

namespace RepoDocs

/-- Whether a call is that for a file. -/
def Call.isFile : Call → Bool
  | file _ _ => true
  | _ => false

/-- The configuration that sets no deadlines. -/
def AnalysisConfig.patient (config : AnalysisConfig) : AnalysisConfig :=
  { config with callTimeoutSecs? := none }

/-- A request that is no call, or a call for a file. -/
def Effect.Plain : Effect → Prop
  | store _ => True
  | call c _ => c.isFile = true

/-- A job and a repository have come to an end. -/
structure Store.Over (s : Store) (jobId repositoryId : String) : Prop where
  job : ∃ j, s.job? jobId = some j ∧ j.isTerminal = true
  repository : ∃ r, s.repository? repositoryId = some r ∧
    (r.status = .completed ∨ r.status = .failed)

namespace Analysis

open Program

variable {config : AnalysisConfig} {limit : Nat} {ε α β : Type}

/-! ### How many calls a run makes -/

/-- Among the answers, at most `n` are not those for files. -/
def Few (n : Nat) (events : List (Event Effects)) : Prop :=
  (answersOf events).length ≤ n + (answersOf events).countP (·.call.isFile)

/-- Whatever the replies are. -/
abbrev anyhow : Rule Effects (List (Event Effects)) :=
  telling (fun _ _ => True) (fun _ _ => True)

/-- The program brings the number of calls that are not for files from `m` to `n` at most. -/
def Raises (m n : Nat) (p : Program Effects α) : Prop :=
  ∀ events, Few m events → p.wp anyhow (fun _ => Few n) events

theorem answersOf_store (events : List (Event Effects)) (c : StoreCall)
    (x : Except StoreError c.Reply) : answersOf (events ++ [⟨.store c, x⟩]) = answersOf events :=
  (List.filterMap_append ..).trans (List.append_nil _)

theorem answersOf_call (events : List (Event Effects)) (c : Call) (deadline? : Option Nat)
    (x : Option c.Reply) : answersOf (events ++ [⟨.call c deadline?, x⟩]) =
      answersOf events ++ [⟨c, x.getD c.late⟩] :=
  List.filterMap_append ..

theorem few_mono {m n : Nat} {events : List (Event Effects)} (few : Few m events) (h : m ≤ n) :
    Few n events := by
  unfold Few at few ⊢
  omega

theorem few_plain {n : Nat} {events : List (Event Effects)} (few : Few n events) {r : Effect}
    (plain : r.Plain) (x : r.Reply) : Few n (events ++ [⟨r, x⟩]) := by
  cases r with
  | store c => rwa [Few, answersOf_store]
  | call c deadline? =>
    have file : c.isFile = true := plain
    unfold Few at few ⊢
    rw [answersOf_call, List.length_append, List.countP_append]
    simp only [List.length_singleton, List.countP_singleton, file, if_true]
    omega

theorem few_call {n : Nat} {events : List (Event Effects)} (few : Few n events) (c : Call)
    (deadline? : Option Nat) (x : Option c.Reply) :
    Few (n + 1) (events ++ [⟨.call c deadline?, x⟩]) := by
  unfold Few at few ⊢
  rw [answersOf_call, List.length_append, List.countP_append, List.length_singleton]
  omega

theorem raises_of_asks {n : Nat} {x : Program Effects α} (h : x.Asks Effect.Plain) : Raises n n x :=
  h.keeps_telling (fun _ _ _ => trivial) fun _ plain x _ few => few_plain few plain x

theorem Raises.run_bind {l m n : Nat} {x : ExceptT ε (Program Effects) α}
    {f : α → ExceptT ε (Program Effects) β} (hx : Raises l m x.run)
    (hf : ∀ a, Raises m n (f a).run) (hmn : m ≤ n) : Raises l n (x >>= f).run := by
  intro events few
  rw [wp_run_bind]
  refine wp_mono telling_mono (fun r events few => ?_) _ _ (hx events few)
  cases r with
  | ok a => exact hf a events few
  | error e => exact few_mono few hmn

theorem Raises.run_tryCatch {m n : Nat} {x : ExceptT ε (Program Effects) α}
    {handle : ε → ExceptT ε (Program Effects) α} (hx : Raises m n x.run)
    (hhandle : ∀ e, Raises n n (handle e).run) : Raises m n (tryCatch x handle).run := by
  intro events few
  rw [wp_run_tryCatch]
  refine wp_mono telling_mono (fun r events few => ?_) _ _ (hx events few)
  cases r with
  | ok a => exact few
  | error e => exact hhandle e events few

/-- The metadata are asked for once. -/
theorem raises_fetchMetadata (url : String) : Raises 0 1 (fetchMetadata config url).run := by
  intro events few
  rw [wp_fetchMetadata]
  exact ⟨trivial, fun x _ => few_call few _ _ x⟩

/-- A report is asked for once. -/
theorem raises_reportQuality (files : List SourceFile) :
    Raises 1 2 (reportQuality config files).run := by
  intro events few
  rw [wp_reportQuality]
  exact ⟨trivial, fun x _ => few_call few _ _ x⟩

theorem raises_run (config : AnalysisConfig) (jobId : String) :
    Raises 0 2 (run config jobId).run := by
  have record {n : Nat} (c : StoreCall) : Raises n n (onRecord c).run :=
    raises_of_asks (asks_onRecord trivial)
  have advanced {n : Nat} (c : Checkpoint) : Raises n n (advance jobId c).run :=
    raises_of_asks (asks_advance trivial fun _ => trivial)
  have within : (0 : Nat) ≤ 2 := by decide
  refine Raises.run_bind (raises_of_asks (asks_loadJob trivial)) (fun job => ?_) within
  refine Raises.run_bind (raises_of_asks (asks_loadRepository trivial)) (fun r => ?_) within
  refine Raises.run_tryCatch ?_ fun e => ?_
  · refine (advanced _).run_bind (fun _ => ?_) within
    refine (record _).run_bind (fun _ => ?_) within
    refine (raises_fetchMetadata _).run_bind (fun m => ?_) (by decide)
    refine (record _).run_bind (fun r => ?_) (by decide)
    refine (advanced _).run_bind (fun _ => ?_) (by decide)
    have fetches (paths : List String) : (fetchMany r.url config.deadline? paths).Asks Effect.Plain :=
      asks_fetchMany (fun _ => rfl) paths
    refine (raises_of_asks (fetches _).run_lift).run_bind (fun files => ?_) (by decide)
    refine (advanced _).run_bind (fun _ => ?_) (by decide)
    refine (raises_reportQuality files).run_bind (fun report => ?_) (Nat.le_refl 2)
    refine (advanced _).run_bind (fun _ => ?_) (Nat.le_refl 2)
    refine (record _).run_bind (fun d => ?_) (Nat.le_refl 2)
    refine (record _).run_bind (fun r => ?_) (Nat.le_refl 2)
    exact (advanced _).run_bind (fun _ => raises_of_asks (Asks.pure _)) (Nat.le_refl 2)
  · refine raises_of_asks (Asks.run_bind (Asks.run_lift ?_) fun _ => Asks.pure _)
    exact asks_fail trivial (fun _ => trivial) (fun _ => trivial) e

/-! ### Runs without deadlines -/

section Unhurried

variable (deadline : config.deadline? = some limit)
include deadline

theorem unhurried_fetchMany (url : String) (paths : List String) :
    Unhurried limit (fetchMany url config.deadline? paths)
      (fetchMany url config.patient.deadline? paths) := by
  induction paths with
  | nil => exact .done _
  | cons path rest ih =>
    rw [fetchMany, fetchMany, deadline] at *
    refine (Unhurried.called (.file url path)).bind fun content => ih.bind fun files => ?_
    cases content <;> exact .done _

theorem unhurried_fetchMetadata (url : String) :
    Unhurried limit (fetchMetadata config url).run (fetchMetadata config.patient url).run := by
  rw [fetchMetadata, fetchMetadata, deadline]
  refine (Unhurried.called (.metadata url)).run_lift.run_bind fun x => ?_
  cases x <;> exact .done _

theorem unhurried_reportQuality (files : List SourceFile) :
    Unhurried limit (reportQuality config files).run (reportQuality config.patient files).run := by
  rw [reportQuality, reportQuality, deadline]
  refine (Unhurried.called (.quality files)).run_lift.run_bind fun x => ?_
  cases x <;> exact .done _

theorem unhurried_run (jobId : String) :
    Unhurried limit (run config jobId).run (run config.patient jobId).run := by
  have record (c : StoreCall) : Unhurried limit (onRecord c).run (onRecord c).run :=
    .refl (asks_onRecord trivial)
  have advanced (c : Checkpoint) : Unhurried limit (advance jobId c).run (advance jobId c).run :=
    .refl (asks_advance trivial fun _ => trivial)
  refine (Unhurried.refl (asks_loadJob trivial)).run_bind fun job => ?_
  refine (Unhurried.refl (asks_loadRepository trivial)).run_bind fun r => ?_
  refine Unhurried.run_tryCatch ?_ fun e => ?_
  · refine (advanced _).run_bind fun _ => ?_
    refine (record _).run_bind fun _ => ?_
    refine (unhurried_fetchMetadata deadline _).run_bind fun m => ?_
    refine (record _).run_bind fun r => ?_
    refine (advanced _).run_bind fun _ => ?_
    refine (unhurried_fetchMany deadline _ _).run_lift.run_bind fun files => ?_
    refine (advanced _).run_bind fun _ => ?_
    refine (unhurried_reportQuality deadline _).run_bind fun report => ?_
    refine (advanced _).run_bind fun _ => ?_
    refine (record _).run_bind fun d => ?_
    refine (record _).run_bind fun r => ?_
    exact (advanced _).run_bind fun _ => .done _
  · refine Unhurried.run_bind (Unhurried.run_lift (.refl ?_)) fun _ => .done _
    exact asks_fail trivial (fun _ => trivial) (fun _ => trivial) e

end Unhurried

/-! ### Runs with deadlines -/

/-- Besides those for files, a run makes at most two calls. -/
theorem few_run {jobId : String} {result : Except AnalysisError Outcome}
    {events : List (Event Effects)} (leads : (run config jobId).run.Leads events (.done result)) :
    Few 2 events :=
  leads.wp (fun _ _ => trivial) (raises_run config jobId [] (Nat.zero_le _))

theorem Concluded.over {names : Naming} {s t : Store} {jobId : String} {r : Repository} {job : Job}
    {result : Except AnalysisError Outcome} {answers : List Answer}
    (h : Concluded names config s jobId r result answers t) (hj : s.job? jobId = some job)
    (hr : s.repository? r.id = some r) : t.Over jobId r.id := by
  have changed {f : Job → Job} {g : Repository → Repository} (hf : ∀ j, (f j).id = j.id)
      (hg : ∀ r, (g r).id = r.id) (ended : (f job).isTerminal = true)
      (closed : (g r).status = .completed ∨ (g r).status = .failed) :
      (s.changed jobId r.id f g).Over jobId r.id :=
    ⟨⟨_, Store.job?_changed hf hj, ended⟩, ⟨_, Store.repository?_changed hg hr, closed⟩⟩
  cases h with
  | ahead | undescribed | unreported =>
    exact changed (fun _ => rfl) (fun _ => rfl) rfl (.inr rfl)
  | completed =>
    obtain ⟨job, repository⟩ := changed (f := (·.passing .completed _))
      (g := fun r => (r.described _).withStatus .completed) (fun _ => rfl) (fun _ => rfl) rfl (.inl rfl)
    exact ⟨job, repository⟩

/-- Where calls have a deadline and the store does not fail, a run comes to its end within two deadlines
and one for each file, whatever else is at work.  Where it works alone on a queued job, it ends as
`Concluded` says, by the answers of a world in which the calls are cut off at the deadline, and its job
and its repository have ended then; in that world, it does the same without a deadline. -/
theorem run_ends_in_time (config : AnalysisConfig) (jobId : String) {secs : Nat}
    (timeout : config.callTimeoutSecs? = some secs) {σ : Type} {w : World σ} (sound : w.Sound)
    (background : String → Program Effects Unit) (e : Engine σ) :
    ∃ bound result e' events,
      (∀ time ≥ bound,
        e.run w background time (run config jobId).run.lift = (some result, e')) ∧
      (run config jobId).run.Leads events (.done result) ∧
      e'.clock ≤ e.clock + (2 + (answersOf events).countP (·.call.isFile)) * (secs * 1000) ∧
      (e.Alone →
        (∀ job r, e.store.job? jobId = some job → job.status = .queued →
          e.store.repository? job.repositoryId = some r →
            Concluded w.names config e.store jobId r result (answersOf events) e'.store ∧
            e'.store.Over jobId r.id) ∧
        (w.cut (secs * 1000)).Gives e.world (answersOf events) e'.world ∧
        ∀ time, e.run w background time (run config jobId).run.lift =
          e.run (w.cut (secs * 1000)) background time (run config.patient jobId).run.lift) := by
  have deadline : config.deadline? = some (secs * 1000) := by
    rw [AnalysisConfig.deadline?, timeout]
    rfl
  have limited : (run config jobId).run.Asks (Effect.Limited (secs * 1000)) :=
    asks_run config (fun _ => trivial) (fun _ => deadline) jobId
  obtain ⟨bound, result, e', events, ended, leads, clock, undisturbed⟩ :=
    Engine.exists_run_in_time sound background _ limited e
  have few : (answersOf events).length ≤ 2 + (answersOf events).countP (·.call.isFile) :=
    few_run leads
  have intime := Nat.le_trans clock
    (Nat.add_le_add_left (Nat.mul_le_mul_right (secs * 1000) few) _)
  refine ⟨bound, result, e', events, ended, leads, intime, fun alone => ?_⟩
  obtain ⟨-, gives, along⟩ := undisturbed alone
  refine ⟨fun job r hj queued hr => ?_, gives, fun time => ?_⟩
  · have concluded := leads.answered along (wp_answered_run config hj queued hr)
    exact ⟨concluded, concluded.over hj ((Store.mem_of_repository? hr).2 ▸ hr)⟩
  · exact Engine.run_unhurried (unhurried_run deadline jobId) background time alone

/-- A world in which a call always goes the same way. -/
def conducting (names : Naming) (conduct : (c : Call) → Conduct c.Reply) : World Unit where
  names
  now _ := ⟨0, 0⟩
  begin c _ := (conduct c, ())
  storeFailure? _ _ := (none, ())

/-- What a call comes to that always goes the same way and is cut off. -/
def cutReply (limit : Nat) (conduct : (c : Call) → Conduct c.Reply) (c : Call) : c.Reply :=
  match (conduct c).cutOff limit c.late with
  | .after _ x => x
  | .never => c.late

theorem reply_of_gives {names : Naming} {conduct : (c : Call) → Conduct c.Reply} {u u' : Unit}
    {answers : List Answer} (h : ((conducting names conduct).cut limit).Gives u answers u') :
    ∀ v ∈ answers, v.reply = cutReply limit conduct v.call := by
  induction h with
  | nil => exact nofun
  | store c later ih => exact ih
  | @call _ _ _ c _ _ conduct' later ih =>
    refine List.forall_mem_cons.2 ⟨?_, ih⟩
    have conduct' : (conduct c).cutOff limit c.late = .after _ _ := conduct'
    simp only [cutReply, conduct']

/-- A source that takes its time and never comes back with one of its files. -/
def halting : (c : Call) → Conduct c.Reply
  | .metadata _ => .after 700 (.ok twoFiles)
  | .file _ path => if path = "a.py" then .never else .after 1000 (.ok "")
  | .quality _ => .after 20 (.ok { score := 1 })
  | .readme _ | .apiDocs _ | .comments _ _ => .never

/-- The file that hangs is left out, and the one after it, which comes just in time, is not. -/
theorem run_ends_in_time_halting :
    ∃ bound o e', (∀ time ≥ bound,
        Engine.run (conducting .unary halting) (fun _ => .done ()) time
          (run { callTimeoutSecs? := some 1 } "j").run.lift { world := (), store := .single } =
            (some (.ok o), e')) ∧
      e'.clock ≤ 4000 ∧ o.outlines = [outline "b.py" ""] ∧ e'.store.Over "j" "r" := by
  let config : AnalysisConfig := { callTimeoutSecs? := some 1 }
  obtain ⟨bound, result, e', events, ended, leads, clock, alone⟩ :=
    run_ends_in_time config "j" rfl (w := conducting .unary halting) (fun _ _ => rfl)
      (fun _ => .done ()) { world := (), store := .single }
  obtain ⟨concluded, gives, -⟩ := alone ⟨rfl, rfl⟩
  obtain ⟨concluded, closed⟩ := concluded _ _ rfl rfl rfl
  have replies := reply_of_gives gives
  have analyzed := concluded.analyzed rfl (by decide) replies
  have paths : pathsOf config twoFiles = ["a.py", "b.py"] := pathsOf_twoFiles
  have files : filesAt (cutReply 1000 halting) "https://github.com/o/r" ["a.py", "b.py"] =
      [⟨"b.py", ""⟩] := by
    decide
  generalize hcalls : (answersOf events).map (·.call) = calls at analyzed
  generalize hstore : e'.store = store at analyzed
  cases analyzed with
  | undescribed metadata => cases metadata
  | unreported metadata fetched quality => cases quality
  | completed metadata fetched quality documentation =>
    obtain rfl := Except.ok.inj metadata
    rw [paths] at fetched hcalls
    obtain rfl := fetched.trans files
    refine ⟨bound, _, e', ended, ?_, rfl, closed⟩
    have count : (answersOf events).countP (·.call.isFile) = 2 := by
      have counted := congrArg (List.countP Call.isFile) hcalls
      rw [List.countP_map] at counted
      exact counted
    rw [count] at clock
    exact clock

end Analysis

end RepoDocs
