import Mathlib.Data.List.Forall2
import RepoDocs.Process.Engine
import RepoDocs.Proofs.Session.Basic

/-! What an engine does is a session.  The engine settles all that a `Step` leaves open: background runs
go on in the order in which their waits end, and how long a wait takes, what the replies are and which
operations of the store fail is up to its world.  So what holds of every session holds of the engine. -/

namespace RepoDocs

open Session

/-- The operations of the store fail in the world only where the conditions of a session let them, and
new records have the same names. -/
structure World.Suits (w : World σ) (c : Conditions) : Prop where
  names : w.names = c.names
  fails : ∀ call u e, (w.storeFailure? call u).1 = some e → c.fails call

/-- A background run is under way as an operation. -/
def BackgroundRun.task (r : BackgroundRun) : Task := ⟨.background r.job, r.rest.lift⟩

/-- The sleeper is an operation that waits, which goes on with a reply that may come. -/
inductive Sleeper.Awaits : Sleeper → Task → Prop
  | reply {call : Call} {deadline? : Option Nat} {next : Option call.Reply → Program Effects Unit}
      (wake? : Option Nat) (job : String) (x : Option call.Reply)
      (due : deadline? = none → x.isSome) :
      Awaits ⟨wake?, job, next x⟩
        ⟨.background job, .ask (.effect (.call call deadline?)) fun x => (next x).lift⟩
  | never (r : BackgroundRun) : Awaits ⟨none, r⟩ r.task

/-- A call without deadline is not given up on. -/
theorem Conduct.isSome_of_within {conduct : Conduct α} {deadline? : Option Nat} {ms : Nat}
    {x : Option α} (h : conduct.within deadline? = .after ms x) (hnone : deadline? = none) :
    x.isSome := by
  subst hnone
  cases conduct with
  | after ms reply => cases h; rfl
  | never => cases h

namespace Engine

variable {w : World σ} {c : Conditions} {e : Engine σ} {o : Operation}
  {front ready waiting : List Task}

/-- The session that has the store and the register of an engine. -/
def session (e : Engine σ) (active? : Option Task) (ready waiting : List Task) : Session :=
  { store := e.store, registered := e.registered, active?, ready, waiting }

/-- Those that wait in a session are the sleepers of the engine and those in front. -/
def Rests (e : Engine σ) (front waiting : List Task) : Prop :=
  ∃ asleep, e.asleep.Forall₂ Sleeper.Awaits asleep ∧ waiting.Perm (front ++ asleep)

theorem Rests.snoc {r : BackgroundRun} {wake? : Option Nat} {t : Task}
    (h : e.Rests front waiting) (awaits : Sleeper.Awaits ⟨wake?, r⟩ t) :
    Rests { e with asleep := e.asleep ++ [⟨wake?, r⟩] } front (waiting ++ [t]) := by
  obtain ⟨asleep, hasleep, perm⟩ := h
  refine ⟨asleep ++ [t], ?_, ?_⟩
  · exact List.rel_append hasleep (.cons awaits .nil)
  · rw [← List.append_assoc]
    exact perm.append_right [t]

/-! ### The requests of the operation at work -/

theorem begin_store (w : World σ) (e : Engine σ) (call : StoreCall) :
    e.begin w (.store call) =
      (.after 0 (e.performStore w call).1, (e.performStore w call).2) := rfl

theorem begin_call (w : World σ) (e : Engine σ) (call : Call) (deadline? : Option Nat) :
    e.begin w (.call call deadline?) =
      ((w.begin call e.world).1.within deadline?, { e with world := (w.begin call e.world).2 }) := rfl

/-- An operation of the store leaves the background runs as they are. -/
theorem performStore_frame (w : World σ) (call : StoreCall) (e : Engine σ) :
    (e.performStore w call).2.ready = e.ready ∧ (e.performStore w call).2.asleep = e.asleep := by
  unfold performStore
  split <;> exact ⟨rfl, rfl⟩

theorem performStore_turn (suits : w.Suits c) (e : Engine σ) (call : StoreCall)
    (next : Except StoreError call.Reply → Program Controls o.Result) :
    Turn c (e.session (some ⟨o, .ask (.effect (.store call)) next⟩) ready waiting)
      ((e.performStore w call).2.session (some ⟨o, next (e.performStore w call).1⟩)
        ready waiting) := by
  unfold performStore
  split
  · rename_i err u hu
    exact .failed err (suits.fails call e.world err (by rw [hu])) rfl
  · rw [suits.names]
    exact .performed _ rfl

/-- What an operation that waits waits for comes about, and it may go on. -/
theorem reply_step {r : Control} {next : r.Reply → Program Controls o.Result} {x : r.Reply}
    {waiting' : List Task} (perm : waiting.Perm (⟨o, .ask r next⟩ :: waiting'))
    (admits : (e.session none ready waiting).Admits r x) :
    Step c (e.session none ready waiting) (e.session none (ready ++ [⟨o, next x⟩]) waiting') :=
  @Step.replied c _ o r next waiting' x perm admits

/-- The operation that was the last to become ready goes on. -/
theorem resume_step (t : Task) :
    Step c (e.session none (ready ++ [t]) waiting) (e.session (some t) ready waiting) :=
  .resumed rfl (List.perm_append_singleton _ _)

/-- A call that takes no time is replied to, and the operation goes on at once. -/
theorem call_steps {call : Call} {deadline? : Option Nat} {x : Option call.Reply}
    (next : Option call.Reply → Program Controls o.Result) (due : deadline? = none → x.isSome) :
    Steps c (e.session (some ⟨o, .ask (.effect (.call call deadline?)) next⟩) ready waiting)
      (e.session (some ⟨o, next x⟩) ready waiting) :=
  .head (.called rfl) <|
    .head (reply_step (r := .effect (.call call deadline?)) (List.perm_append_singleton _ _) due) <|
      .single (resume_step _)

/-! ### Background runs -/

theorem work_ready (w : World σ) (job : String) (p : Program Effects Unit) (e : Engine σ) :
    (e.work w job p).ready = e.ready := by
  induction p generalizing e with
  | done a => rfl
  | ask r next ih =>
    cases r with
    | store call =>
      rw [work, begin_store]
      exact (ih _ _).trans (performStore_frame w call e).1
    | call call deadline? =>
      rw [work, begin_call]
      cases (w.begin call e.world).1.within deadline? with
      | never => rfl
      | after ms x =>
        cases ms with
        | zero => exact ih _ _
        | succ ms => rfl

/-- A background run works up to its next wait or its end. -/
theorem work_steps (suits : w.Suits c) (job : String) (p : Program Effects Unit)
    (rests : e.Rests front waiting) :
    ∃ waiting', (e.work w job p).Rests front waiting' ∧
      Steps c (e.session (some ⟨.background job, p.lift⟩) ready waiting)
        ((e.work w job p).session none ready waiting') := by
  induction p generalizing e waiting with
  | done a =>
    cases a
    exact ⟨waiting, rests, .single (@Step.ended c _ (.background job) () rfl)⟩
  | ask r next ih =>
    cases r with
    | store call =>
      have rests : (e.performStore w call).2.Rests front waiting := by
        rw [Rests, (performStore_frame w call e).2]
        exact rests
      obtain ⟨waiting', rests', steps⟩ := ih (e.performStore w call).1 rests
      rw [work, begin_store]
      exact ⟨waiting', rests', .head (.turn (performStore_turn suits e call _)) steps⟩
    | call call deadline? =>
      rw [work, begin_call]
      cases conduct : (w.begin call e.world).1.within deadline? with
      | never =>
        exact ⟨_, rests.snoc (.never ⟨job, .ask (.call call deadline?) next⟩), .single (.called rfl)⟩
      | after ms x =>
        have due := Conduct.isSome_of_within conduct
        cases ms with
        | zero =>
          have rests : Rests { e with world := (w.begin call e.world).2 } front waiting := rests
          obtain ⟨waiting', rests', steps⟩ := ih x rests
          exact ⟨waiting', rests', (call_steps _ due).trans steps⟩
        | succ ms => exact ⟨_, rests.snoc (.reply _ job x due), .single (.called rfl)⟩

/-- The session shows the engine: the operation at work, the background runs and those in front that
wait. -/
def Shows (e : Engine σ) (active? : Option Task) (front : List Task) (s : Session) : Prop :=
  ∃ waiting, e.Rests front waiting ∧
    s = e.session active? (e.ready.map BackgroundRun.task) waiting

variable {s : Session}

theorem Shows.store {active? : Option Task} (shows : e.Shows active? front s) : s.store = e.store := by
  obtain ⟨waiting, rests, rfl⟩ := shows
  rfl

theorem foldl_work_ready (w : World σ) (runs : List BackgroundRun) (e : Engine σ) :
    (runs.foldl (fun e r => e.work w r.job r.rest) e).ready = e.ready := by
  induction runs generalizing e with
  | nil => rfl
  | cons r runs ih => exact (ih _).trans (work_ready w r.job r.rest e)

theorem foldl_work_steps (suits : w.Suits c) (runs : List BackgroundRun)
    (rests : e.Rests front waiting) :
    ∃ waiting', Rests (runs.foldl (fun e r => e.work w r.job r.rest) e) front waiting' ∧
      Steps c (e.session none (runs.map BackgroundRun.task) waiting)
        (session (runs.foldl (fun e r => e.work w r.job r.rest) e) none [] waiting') := by
  induction runs generalizing e waiting with
  | nil => exact ⟨waiting, rests, .refl⟩
  | cons r runs ih =>
    obtain ⟨waiting₁, rests, first⟩ := work_steps suits r.job r.rest rests
    obtain ⟨waiting', rests', steps⟩ := ih rests
    exact ⟨waiting', rests', .head (.resumed rfl (.refl _)) (first.trans steps)⟩

/-- The background runs whose turn it is work, one after the other. -/
theorem Shows.drain (suits : w.Suits c) (shows : e.Shows none front s) :
    ∃ s', Steps c s s' ∧ (e.drain w).Shows none front s' := by
  obtain ⟨waiting, rests, rfl⟩ := shows
  have rests : Rests { e with ready := [] } front waiting := rests
  obtain ⟨waiting', rests', steps⟩ := foldl_work_steps suits e.ready rests
  have none : (e.drain w).ready = [] := foldl_work_ready w e.ready _
  refine ⟨_, steps, waiting', rests', ?_⟩
  rw [none]
  rfl

/-- The waits that are due end. -/
theorem wake_steps (e : Engine σ) (ready : List Task) {due : Sleeper → Bool}
    (timely : ∀ p, due p = true → p.wake?.isSome)
    {sleepers : List Sleeper} {asleep : List Task}
    (awaits : sleepers.Forall₂ Sleeper.Awaits asleep) (perm : waiting.Perm (front ++ asleep)) :
    ∃ asleep' waiting', (sleepers.filter (!due ·)).Forall₂ Sleeper.Awaits asleep' ∧
      waiting'.Perm (front ++ asleep') ∧
      Steps c (e.session none ready waiting)
        (e.session none (ready ++ ((sleepers.filter due).map (·.run)).map BackgroundRun.task)
          waiting') := by
  induction awaits generalizing front ready waiting with
  | nil => exact ⟨[], waiting, .nil, perm, by simpa using .refl⟩
  | @cons p t sleepers asleep awaits _ ih =>
    cases hdue : due p with
    | false =>
      have perm : waiting.Perm ((front ++ [t]) ++ asleep) := by simpa using perm
      obtain ⟨asleep', waiting', rest, perm', steps⟩ := ih ready perm
      refine ⟨t :: asleep', waiting', ?_, by simpa using perm', ?_⟩
      · simpa [hdue] using ⟨awaits, rest⟩
      · simpa [hdue] using steps
    | true =>
      have perm : waiting.Perm (t :: (front ++ asleep)) := perm.trans List.perm_middle
      cases awaits with
      | never r => cases timely _ hdue
      | @reply call deadline? next wake? job x admits =>
        obtain ⟨asleep', waiting', rest, perm', steps⟩ :=
          ih (ready ++ [BackgroundRun.task ⟨job, next x⟩]) (.refl _)
        refine ⟨asleep', waiting', by simpa [hdue] using rest, perm', ?_⟩
        have replied : Step c (e.session none ready waiting)
            (e.session none (ready ++ [BackgroundRun.task ⟨job, next x⟩]) (front ++ asleep)) :=
          reply_step (r := .effect (.call call deadline?)) perm admits
        refine .head replied ?_
        simpa [hdue] using steps

theorem Shows.wakeAt (time : Nat) (shows : e.Shows none front s) :
    ∃ s', Steps c s s' ∧ (e.wakeAt time).Shows none front s' := by
  obtain ⟨waiting, ⟨asleep, awaits, perm⟩, rfl⟩ := shows
  let due (p : Sleeper) : Bool := p.wake?.any (· ≤ time)
  have timely (p : Sleeper) (h : due p = true) : p.wake?.isSome := by
    cases hp : p.wake? with
    | none => simp [due, hp] at h
    | some t => rfl
  obtain ⟨asleep', waiting', awaits', perm', steps⟩ :=
    wake_steps e (e.ready.map BackgroundRun.task) timely awaits perm
  refine ⟨_, steps, waiting', ⟨asleep', awaits', perm'⟩, ?_⟩
  simp [Engine.wakeAt, session, due]

theorem Shows.pass (suits : w.Suits c) (met : Engine σ → Bool) (goal fuel : Nat)
    (shows : e.Shows none front s) :
    ∃ s', Steps c s s' ∧ (e.pass w met goal fuel).2.Shows none front s' := by
  induction fuel generalizing e s with
  | zero => exact ⟨s, .refl, shows⟩
  | succ fuel ih =>
    obtain ⟨s₁, drained, shows⟩ := shows.drain suits
    rw [Engine.pass]
    split
    · exact ⟨s₁, drained, shows⟩
    · split
      · rename_i t _
        obtain ⟨s₂, woken, shows⟩ := shows.wakeAt (c := c) t
        obtain ⟨s', steps, shows⟩ := ih shows
        exact ⟨s', drained.trans (woken.trans steps), shows⟩
      · obtain ⟨s', woken, shows⟩ := shows.wakeAt (c := c) goal
        exact ⟨s', drained.trans woken, shows⟩

theorem met_of_pass {met : Engine σ → Bool} {goal fuel : Nat} {e' : Engine σ}
    (h : e.pass w met goal fuel = (true, e')) : met e' = true := by
  induction fuel generalizing e with
  | zero => cases h
  | succ fuel ih =>
    rw [Engine.pass] at h
    split at h
    · obtain ⟨-, rfl⟩ := Prod.mk.inj h
      assumption
    · split at h
      · exact ih h
      · cases h

/-! ### The program in front -/

theorem Rests.wait {t : Task} (h : e.Rests [] waiting) :
    e.Rests [t] (waiting ++ [t]) := by
  obtain ⟨asleep, awaits, perm⟩ := h
  exact ⟨asleep, awaits, (List.perm_append_singleton t waiting).trans (perm.cons t)⟩

/-- The operation in front goes on when it is replied to. -/
theorem Shows.resume {r : Control} {next : r.Reply → Program Controls o.Result} {x : r.Reply}
    (shows : e.Shows none [⟨o, .ask r next⟩] s) (admits : s.Admits r x) :
    ∃ s', Steps c s s' ∧ e.Shows (some ⟨o, next x⟩) [] s' := by
  obtain ⟨waiting, ⟨asleep, awaits, perm⟩, rfl⟩ := shows
  exact ⟨_, .head (reply_step perm admits) (.single (resume_step _)), asleep,
    ⟨asleep, awaits, .refl _⟩, rfl⟩

/-- The operation in front is given up on. -/
theorem Shows.drop {t : Task} (shows : e.Shows none [t] s) (ht : t.operation.isBackground = false) :
    ∃ s', Steps c s s' ∧ e.Shows none [] s' := by
  obtain ⟨waiting, ⟨asleep, awaits, perm⟩, rfl⟩ := shows
  have dropped : Step c (e.session none (e.ready.map BackgroundRun.task) waiting)
      (e.session none (e.ready.map BackgroundRun.task) asleep) := .dropped ht perm
  exact ⟨_, .single dropped, asleep, ⟨asleep, awaits, .refl _⟩, rfl⟩

theorem Shows.waitFor (suits : w.Suits c) (time limit : Nat) (shows : e.Shows none front s) :
    ∃ s', Steps c s s' ∧ (e.waitFor w time limit).2.Shows none front s' :=
  shows.pass suits _ _ _

/-- Those that wait are background runs whose sleepers the engine has. -/
theorem exists_sleeper {sleepers : List Sleeper} {asleep : List Task}
    (awaits : sleepers.Forall₂ Sleeper.Awaits asleep) {t : Task} (ht : t ∈ asleep) :
    ∃ p ∈ sleepers, t.operation = .background p.run.job := by
  induction awaits with
  | nil => cases ht
  | @cons p t' sleepers asleep h _ ih =>
    rcases List.mem_cons.1 ht with rfl | ht
    · exact ⟨p, by simp, by cases h <;> rfl⟩
    · obtain ⟨p', hp', ho⟩ := ih ht
      exact ⟨p', by simp [hp'], ho⟩

/-- When the background run of a job has ended, no operation under way is that run. -/
theorem Shows.admits_join {job : String} {t : Task} (shows : e.Shows none [t] s)
    (inFront : t.operation.isBackground = false) (ended : e.hasEnded job = true) :
    s.Admits (.join job) true := by
  obtain ⟨waiting, ⟨asleep, awaits, perm⟩, rfl⟩ := shows
  simp only [hasEnded, Bool.not_eq_true', Bool.or_eq_false_iff, List.any_eq_false, beq_iff_eq]
    at ended
  obtain ⟨notReady, notAsleep⟩ := ended
  refine ⟨rfl, fun t' ht' => ?_⟩
  rcases List.mem_append.1 ht' with hready | hwaiting
  · obtain ⟨r, hr, rfl⟩ := List.mem_map.1 hready
    simpa [BackgroundRun.task, Operation.isBackgroundOf] using notReady r hr
  · rcases List.mem_cons.1 (perm.mem_iff.1 hwaiting) with rfl | hasleep
    · cases ho : t'.operation with
      | background job' => simp [ho, Operation.isBackground] at inFront
      | _ => rfl
    · obtain ⟨p, hp, ho⟩ := exists_sleeper awaits hasleep
      simpa [ho, Operation.isBackgroundOf] using notAsleep p hp

/-- The session shows the engine when the operation in front has ended or is given up on. -/
def ShowsEnd (o : Operation) (r : Option o.Result × Engine σ) (s : Session) : Prop :=
  r.2.Shows (r.1.map fun a => ⟨o, .done a⟩) [] s

/-- The engine runs what is left of the operation in front as a session goes on. -/
def Follows (w : World σ) (c : Conditions) (limit : Nat) (p : Program Controls o.Result) : Prop :=
  ∀ {e : Engine σ} {s : Session}, e.Shows (some ⟨o, p⟩) [] s →
    ∃ s', Steps c s s' ∧ ShowsEnd o (e.run w (Analysis.background c.config) limit p) s'

section Requests

variable {limit : Nat}

/-- The operation in front goes on after its wait if the reply comes in time. -/
theorem Shows.goOn (inFront : o.isBackground = false) {r : Control}
    {next : r.Reply → Program Controls o.Result} {x : r.Reply}
    (h : Follows w c limit (next x)) {passed : Bool × Engine σ}
    (shows : passed.2.Shows none [⟨o, .ask r next⟩] s) (admits : passed.1 = true → s.Admits r x) :
    ∃ s', Steps c s s' ∧ ShowsEnd o
      (match passed with
        | (true, e) => e.run w (Analysis.background c.config) limit (next x)
        | (false, e) => (none, e)) s' := by
  obtain ⟨inTime, e⟩ := passed
  cases inTime with
  | true =>
    obtain ⟨s₁, resumed, shows⟩ := shows.resume (c := c) (admits rfl)
    obtain ⟨s', steps, ended⟩ := h shows
    exact ⟨s', resumed.trans steps, ended⟩
  | false =>
    obtain ⟨s', dropped, shows⟩ := shows.drop (c := c) inFront
    exact ⟨s', dropped, shows⟩

theorem follows_store (suits : w.Suits c) {call : StoreCall}
    {next : Except StoreError call.Reply → Program Controls o.Result}
    (h : ∀ x, Follows w c limit (next x)) :
    Follows w c limit (.ask (.effect (.store call)) next) := by
  rintro e _ ⟨waiting, rests, rfl⟩
  obtain ⟨ready, asleep⟩ := performStore_frame w call e
  have rests : (e.performStore w call).2.Rests [] waiting := by
    rw [Rests, asleep]
    exact rests
  obtain ⟨s', steps, ended⟩ := h (e.performStore w call).1 ⟨waiting, rests, rfl⟩
  rw [ready] at steps
  rw [Engine.run, begin_store]
  exact ⟨s', .head (.turn (performStore_turn suits e call next)) steps, ended⟩

theorem follows_call (suits : w.Suits c) (inFront : o.isBackground = false) {call : Call}
    {deadline? : Option Nat} {next : Option call.Reply → Program Controls o.Result}
    (h : ∀ x, Follows w c limit (next x)) :
    Follows w c limit (.ask (.effect (.call call deadline?)) next) := by
  rintro e _ ⟨waiting, rests, rfl⟩
  let e₁ : Engine σ := { e with world := (w.begin call e.world).2 }
  let t : Task := ⟨o, .ask (.effect (.call call deadline?)) next⟩
  have called : e₁.Shows none [t]
      (e.session none (e.ready.map BackgroundRun.task) (waiting ++ [t])) :=
    ⟨_, rests.wait, rfl⟩
  rw [Engine.run, begin_call]
  cases conduct : (w.begin call e.world).1.within deadline? with
  | never =>
    obtain ⟨s₁, waited, shows⟩ := called.waitFor suits limit limit
    obtain ⟨s', dropped, shows⟩ := shows.drop (c := c) inFront
    exact ⟨s', .head (.called rfl) (waited.trans dropped), shows⟩
  | after ms x =>
    have due := Conduct.isSome_of_within conduct
    cases ms with
    | zero =>
      have shows : e₁.Shows (some ⟨o, next x⟩) []
          (e.session (some ⟨o, next x⟩) (e.ready.map BackgroundRun.task) waiting) :=
        ⟨waiting, rests, rfl⟩
      obtain ⟨s', steps, ended⟩ := h x shows
      exact ⟨s', (call_steps next due).trans steps, ended⟩
    | succ ms =>
      obtain ⟨s₁, waited, shows⟩ := called.waitFor suits (e.clock + ms + 1) limit
      obtain ⟨s', steps, ended⟩ := shows.goOn inFront (h x) fun _ => due
      exact ⟨s', .head (.called rfl) (waited.trans steps), ended⟩

theorem follows_pause (suits : w.Suits c) (inFront : o.isBackground = false) {ms : Nat}
    {next : Unit → Program Controls o.Result} (h : Follows w c limit (next ())) :
    Follows w c limit (.ask (.pause ms) next) := by
  rintro e _ ⟨waiting, rests, rfl⟩
  let t : Task := ⟨o, .ask (.pause ms) next⟩
  have paused : e.Shows none [t]
      (e.session none (e.ready.map BackgroundRun.task) (waiting ++ [t])) :=
    ⟨_, rests.wait, rfl⟩
  cases ms with
  | zero =>
    obtain ⟨s₁, resumed, shows⟩ := paused.resume (c := c) (x := ()) trivial
    obtain ⟨s', steps, ended⟩ := h shows
    exact ⟨s', .head (.paused rfl) (resumed.trans steps), ended⟩
  | succ ms =>
    obtain ⟨s₁, waited, shows⟩ := paused.waitFor suits (e.clock + ms + 1) limit
    obtain ⟨s', steps, ended⟩ := shows.goOn inFront h fun _ => trivial
    exact ⟨s', .head (.paused rfl) (waited.trans steps), ended⟩

theorem follows_start {job : String} {next : Unit → Program Controls o.Result}
    (h : Follows w c limit (next ())) : Follows w c limit (.ask (.start job) next) := by
  rintro e _ ⟨waiting, rests, rfl⟩
  let e₁ : Engine σ := { e with
    registered := e.registered ++ [job]
    ready := e.ready ++ [⟨job, Analysis.background c.config job⟩] }
  have rests : e₁.Rests [] waiting := rests
  obtain ⟨s', steps, ended⟩ := h ⟨waiting, rests, rfl⟩
  rw [List.map_append] at steps
  exact ⟨s', .head (.turn (.started rfl)) steps, ended⟩

theorem follows_running {next : Nat → Program Controls o.Result}
    (h : ∀ n, Follows w c limit (next n)) : Follows w c limit (.ask .running next) := by
  rintro e _ ⟨waiting, rests, rfl⟩
  obtain ⟨s', steps, ended⟩ := h e.registered.length ⟨waiting, rests, rfl⟩
  exact ⟨s', .head (.turn (.counted rfl)) steps, ended⟩

theorem follows_join (suits : w.Suits c) (inFront : o.isBackground = false) {job : String}
    {next : Bool → Program Controls o.Result} (h : ∀ x, Follows w c limit (next x)) :
    Follows w c limit (.ask (.join job) next) := by
  rintro e _ ⟨waiting, rests, rfl⟩
  rw [Engine.run]
  split
  · rename_i present
    let e₁ : Engine σ := { e with registered := e.registered.erase job }
    let t : Task := ⟨o, .ask (.join job) next⟩
    have present : job ∈ e.registered := by simpa using present
    have joined : e₁.Shows none [t]
        (e₁.session none (e.ready.map BackgroundRun.task) (waiting ++ [t])) :=
      ⟨_, rests.wait, rfl⟩
    obtain ⟨s₁, waited, shows⟩ := joined.pass suits (hasEnded job) limit (limit - e.clock + 1)
    obtain ⟨s', steps, ended⟩ := shows.goOn inFront (h true) fun inTime =>
      shows.admits_join inFront (met_of_pass (Prod.ext inTime rfl))
    exact ⟨s', .head (.joined present rfl) (waited.trans steps), ended⟩
  · rename_i absent
    have absent : job ∉ e.registered := by simpa using absent
    obtain ⟨s', steps, ended⟩ := h false ⟨waiting, rests, rfl⟩
    exact ⟨s', .head (.turn (.unregistered absent rfl)) steps, ended⟩

/-- The engine runs an operation as a session goes on. -/
theorem follows (suits : w.Suits c) (inFront : o.isBackground = false) (limit : Nat)
    (p : Program Controls o.Result) : Follows w c limit p := by
  induction p with
  | done a => exact fun {e s} shows => ⟨s, .refl, shows⟩
  | ask r next ih =>
    cases r with
    | effect r =>
      cases r with
      | store call => exact follows_store suits ih
      | call call deadline? => exact follows_call suits inFront ih
    | pause ms => exact follows_pause suits inFront (ih ())
    | start job => exact follows_start (ih ())
    | running => exact follows_running ih
    | join job => exact follows_join suits inFront ih

end Requests

/-- The operation in front comes to its end. -/
theorem Shows.ended {a : o.Result} (inFront : o.isBackground = false)
    (shows : e.Shows (some ⟨o, .done a⟩) [] s) : ∃ s', Step c s s' ∧ e.Shows none [] s' := by
  obtain ⟨waiting, rests, rfl⟩ := shows
  have registered : o.signOff e.registered = e.registered := by
    cases o <;> first | rfl | cases inFront
  refine ⟨_, @Step.ended c _ o a rfl, waiting, rests, ?_⟩
  simp only [session, registered]

/-- The engine runs an operation from its beginning. -/
theorem Shows.run (suits : w.Suits c) (begins : c.begins o) (inFront : o.isBackground = false)
    (limit : Nat) (shows : e.Shows none [] s) :
    ∃ s', Steps c s s' ∧
      (e.run w (Analysis.background c.config) limit (o.program c.config)).2.Shows none [] s' := by
  obtain ⟨waiting, rests, rfl⟩ := shows
  have asked : Step c (e.session none (e.ready.map BackgroundRun.task) waiting)
      (e.session none (e.ready.map BackgroundRun.task ++ [o.task c.config]) waiting) :=
    .asked o begins inFront
  have begun : e.Shows (some (o.task c.config)) []
      (e.session (some (o.task c.config)) (e.ready.map BackgroundRun.task) waiting) :=
    ⟨waiting, rests, rfl⟩
  obtain ⟨s₁, steps, shows⟩ := follows suits inFront limit (o.program c.config) begun
  have steps := Relation.ReflTransGen.head asked (.head (resume_step _) steps)
  unfold ShowsEnd at shows
  generalize e.run w (Analysis.background c.config) limit (o.program c.config) = r at shows ⊢
  obtain ⟨a?, e'⟩ := r
  cases a? with
  | none => exact ⟨s₁, steps, shows⟩
  | some a =>
    obtain ⟨s', ended, shows⟩ := shows.ended (c := c) inFront
    exact ⟨s', steps.tail ended, shows⟩

/-- An engine that can come about in a world: operations are run one after the other, and in between the
world may change. -/
inductive Reached (w : World σ) (c : Conditions) : Engine σ → Prop
  | start (world : σ) : Reached w c { world }
  | changed {e : Engine σ} (world : σ) (reached : Reached w c e) : Reached w c { e with world }
  | ran {e : Engine σ} {o : Operation} (begins : c.begins o) (inFront : o.isBackground = false)
      (limit : Nat) (reached : Reached w c e) :
      Reached w c (e.run w (Analysis.background c.config) limit (o.program c.config)).2

/-- Each engine shows in a session. -/
theorem Reached.exists_session (suits : w.Suits c) (h : Reached w c e) :
    ∃ s, Reachable c s ∧ e.Shows none [] s := by
  induction h with
  | start world => exact ⟨{}, .refl, [], ⟨[], .nil, .refl _⟩, rfl⟩
  | changed world _ ih =>
    obtain ⟨s, reachable, waiting, rests, rfl⟩ := ih
    exact ⟨_, reachable, waiting, rests, rfl⟩
  | ran begins inFront limit _ ih =>
    obtain ⟨s, reachable, shows⟩ := ih
    obtain ⟨s', steps, shows⟩ := shows.run suits begins inFront limit
    exact ⟨s', reachable.trans steps, shows⟩

end Engine

end RepoDocs
