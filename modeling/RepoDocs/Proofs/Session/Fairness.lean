import RepoDocs.Proofs.Analysis.Requests
import RepoDocs.Proofs.Job.Course
import RepoDocs.Proofs.Session.Keeping

/-! Which operations keep to the rule of a session.  A run changes a job only by what it has planned
for the record that it has read just before, and most operations change neither repositories nor jobs.
So whatever such changes keep, all operations keep, submissions and direct changes of the store
apart. -/

namespace RepoDocs

/-- Whether an operation is the run of a job. -/
def Operation.isRun : Operation → Bool
  | run _ | background _ => true
  | _ => false

namespace Session

open Analysis Program

variable {c : Conditions} {I : Store → Prop} {G : Store → Store → Prop}

/-- The operation of the store brings `I` about again, by a change as `G` says. -/
def Admissible (c : Conditions) (I : Store → Prop) (G : Store → Store → Prop) (s : Store)
    (call : StoreCall) : Prop :=
  ∀ now, G s (s.perform c.names now call).2 ∧ I (s.perform c.names now call).2

/-- Wherever `I` holds, so does what a run may do: change a repository, change a job as planned, or
change neither. -/
structure Respects (c : Conditions) (I : Store → Prop) (G : Store → Store → Prop) : Prop where
  mild : ∀ s call, I s → call.Mild → Admissible c I G s call
  updateRepository : ∀ s id u, I s → Admissible c I G s (.updateRepository id u)
  updateJob : ∀ s id u, I s → (∀ j, s.job? id = some j → j.Plans u) →
    Admissible c I G s (.updateJob id u)

theorem rule_store {s : Store} {call : StoreCall}
    {post : Except StoreError call.Reply → Store → Prop} (hI : I s)
    (h : Admissible c I G s call) (hpost : ∀ x s, I s → post x s) :
    rule c I G (.effect (.store call)) post s :=
  ⟨fun _ _ => hpost _ _ hI, fun now => ⟨(h now).1, hpost _ _ (h now).2⟩⟩

/-- A request other than for the store keeps `I` by itself. -/
theorem rule_other {r : Control} (hr : ∀ call, r ≠ .effect (.store call))
    {post : r.Reply → Store → Prop} (hpost : ∀ x s, I s → post x s) (s : Store) (hI : I s) :
    rule c I G r post s := by
  cases r with
  | effect e =>
    cases e with
    | store call => exact absurd rfl (hr call)
    | call call deadline? => exact ⟨hI, hpost⟩
  | pause ms => exact ⟨hI, hpost⟩
  | start job => exact hpost _ _ hI
  | running => exact fun n => hpost _ _ hI
  | join job => exact ⟨hI, hpost⟩

/-- A program whose operations of the store are admissible keeps to the rule. -/
theorem fair_of_asks {p : Control → Prop} {x : Program Controls α} (hx : x.Asks p)
    (h : ∀ call, p (.effect (.store call)) → ∀ s, I s → Admissible c I G s call) :
    Fair c I G x := by
  refine hx.keeps fun r hr post hpost s hI => ?_
  by_cases hstore : ∃ call, r = .effect (.store call)
  · obtain ⟨call, rfl⟩ := hstore
    exact rule_store hI (h call hr s hI) hpost
  · exact rule_other (fun call hcall => hstore ⟨call, hcall⟩) hpost s hI

/-- All operations but runs keep to the rule if submissions and operations of the store do. -/
theorem fair_of_not_run (mild : ∀ s call, I s → call.Mild → Admissible c I G s call)
    (store : ∀ call, c.begins (.store call) → ∀ s, I s → Admissible c I G s call)
    (submit : ∀ address, Fair c I G (Analysis.submit address).run) (o : Operation)
    (ho : c.begins o ∨ o.isBackground = true) (notRun : o.isRun = false) :
    Fair c I G (o.program c.config) := by
  have fair_of_mild {α : Type} {x : Program Controls α} (hx : x.Asks Control.Mild) :
      Fair c I G x :=
    fair_of_asks hx fun call hcall s hI => mild s call hI hcall
  cases o with
  | store call =>
    intro s hI
    refine rule_store hI (store call ?_ s hI) fun _ _ hI => hI
    exact ho.resolve_right nofun
  | submit address => exact submit address
  | join job => exact fair_of_mild (asks_join job)
  | jobStatus repository => exact fair_of_mild (asks_jobStatus repository)
  | detail repository => exact fair_of_mild (asks_detail repository)
  | watch repository interval reads =>
    exact fair_of_mild (asks_watch repository interval reads none)
  | activeRuns => exact fair_of_mild (Asks.request trivial)
  | generate repository kind => exact fair_of_mild (Asks.rename (asks_generate _ _ _))
  | fileContent repository path => exact fair_of_mild (Asks.rename (asks_fileContent _ _ _))
  | run job => cases notRun
  | background job => cases notRun

theorem keeps_onRecord {call : StoreCall} (h : ∀ s, I s → Admissible c I G s call) :
    (onRecord call).run.Keeps (effectRule c I G) I := by
  intro s hI
  rw [wp_onRecord]
  exact rule_store hI (h s hI) fun _ _ hI => hI

namespace Respects

variable (respects : Respects c I G)
include respects

theorem fair_of_mild {x : Program Controls α} (hx : x.Asks Control.Mild) : Fair c I G x :=
  fair_of_asks hx fun call hcall s hI => respects.mild s call hI hcall

theorem keeps_of_mild {x : Program Effects α} (hx : x.Asks Effect.Mild) :
    x.Keeps (effectRule c I G) I := by
  have lifted : x.lift.Asks Control.Mild := Asks.rename hx
  intro s hI
  rw [← wp_lift]
  exact respects.fair_of_mild lifted s hI

theorem keeps_advance (id : String) (point : Checkpoint) :
    (advance id point).run.Keeps (effectRule c I G) I := by
  intro s hI
  rw [wp_advance]
  refine ⟨fun _ _ => hI, fun now => ⟨(respects.mild s (.getJob id) hI trivial now).1, ?_⟩⟩
  simp only [Store.perform]
  cases hj : s.job? id with
  | none => exact hI
  | some job =>
    dsimp only [loaded]
    cases hp : job.planCheckpoint point with
    | error r => exact hI
    | ok update =>
      refine rule_store hI (respects.updateJob s id update hI fun j hj' => ?_) fun _ _ hI => hI
      exact Option.some.inj (hj.symm.trans hj') ▸ .inl ⟨point, hp⟩

theorem keeps_fail (id repositoryId : String) (cause : AnalysisError) :
    (fail id repositoryId cause).Keeps (effectRule c I G) I := by
  intro s hI
  rw [wp_fail]
  refine ⟨fun _ _ => hI, fun now => ⟨(respects.mild s (.getJob id) hI trivial now).1, ?_⟩⟩
  simp only [Store.perform]
  cases hj : s.job? id with
  | none => exact hI
  | some job =>
    dsimp only [loaded]
    cases hp : job.planFailure cause.message with
    | error r => exact hI
    | ok update =>
      refine rule_store hI (respects.updateJob s id update hI fun j hj' => ?_) fun _ s hI => ?_
      · exact Option.some.inj (hj.symm.trans hj') ▸ .inr ⟨cause.message, hp⟩
      · exact rule_store hI (respects.updateRepository s _ _ hI) fun _ _ hI => hI

theorem keeps_execute (config : AnalysisConfig) (id : String) (r : Repository) :
    (execute config id r).run.Keeps (effectRule c I G) I := by
  have mono := effectRule_mono c I G
  have update (id : String) (u : RepositoryUpdate) :=
    keeps_onRecord fun s => respects.updateRepository s id u
  have put (new : NewDocumentation) :=
    keeps_onRecord fun s hI => respects.mild s (.createDocumentation new) hI trivial
  refine (respects.keeps_advance id _).run_bind mono fun _ => ?_
  refine (update _ _).run_bind mono fun _ => ?_
  refine (respects.keeps_of_mild (asks_fetchMetadata trivial)).run_bind mono fun _ => ?_
  refine (update _ _).run_bind mono fun _ => ?_
  refine (respects.keeps_advance id _).run_bind mono fun _ => ?_
  refine ((respects.keeps_of_mild (asks_fetchMany (fun _ => trivial) _)).run_lift mono).run_bind mono
    fun _ => ?_
  refine (respects.keeps_advance id _).run_bind mono fun _ => ?_
  refine (respects.keeps_of_mild (asks_reportQuality trivial)).run_bind mono fun _ => ?_
  refine (respects.keeps_advance id _).run_bind mono fun _ => ?_
  refine (put _).run_bind mono fun _ => ?_
  refine (update _ _).run_bind mono fun _ => ?_
  exact (respects.keeps_advance id _).run_bind mono fun _ => Keeps.pure _

theorem keeps_run (config : AnalysisConfig) (id : String) :
    (run config id).run.Keeps (effectRule c I G) I := by
  have mono := effectRule_mono c I G
  refine (respects.keeps_of_mild (asks_loadJob trivial)).run_bind mono fun job => ?_
  refine (respects.keeps_of_mild (asks_loadRepository trivial)).run_bind mono fun r => ?_
  refine (respects.keeps_execute config id r).run_tryCatch mono fun cause => ?_
  exact ((respects.keeps_fail id r.id cause).run_lift mono).run_bind mono fun _ => Keeps.pure _

/-- All operations keep to the rule if submissions and operations of the store do. -/
theorem fair (store : ∀ call, c.begins (.store call) → ∀ s, I s → Admissible c I G s call)
    (submit : ∀ address, Fair c I G (Analysis.submit address).run) (o : Operation)
    (ho : c.begins o ∨ o.isBackground = true) : Fair c I G (o.program c.config) := by
  cases o with
  | run job => exact Fair.lift (respects.keeps_run c.config job)
  | background job =>
    refine Fair.lift ((respects.keeps_run c.config job).bind ?_ fun _ => Keeps.pure _)
    exact effectRule_mono c I G
  | _ => exact fair_of_not_run respects.mild store submit _ ho rfl

end Respects

end Session

end RepoDocs
