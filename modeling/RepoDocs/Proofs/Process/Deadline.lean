import RepoDocs.Proofs.Analysis.Answers
import RepoDocs.Proofs.Process.Alone
import RepoDocs.Proofs.Process.Crowd

/-! Programs whose calls all have one deadline.  Such a program comes to its end however its calls go,
beside whatever else is at work, and each call takes no longer than the deadline.  Where it works alone,
it does as it would without deadlines in a world in which calls are cut off: those that take longer fail
at the deadline, and the others go as they do. -/

namespace RepoDocs

/-- How a call goes that is cut off at a limit: where the reply would come later, it fails then. -/
def Conduct.cutOff (limit : Nat) (late : α) : Conduct α → Conduct α
  | after ms reply => if ms ≤ limit then after ms reply else after limit late
  | never => after limit late

/-- The same world, where calls are cut off. -/
def World.cut (w : World σ) (limit : Nat) : World σ :=
  { w with begin c u := ((w.begin c u).1.cutOff limit c.late, (w.begin c u).2) }

/-- No operation of the store fails. -/
def World.Sound (w : World σ) : Prop := ∀ c u, (w.storeFailure? c u).1 = none

/-- From one of its states to another, a world gives these answers, one after the other. -/
inductive World.Gives (w : World σ) : σ → List Answer → σ → Prop
  | nil {u : σ} : Gives w u [] u
  | store {u u' : σ} {answers : List Answer} (c : StoreCall)
      (later : Gives w (w.storeFailure? c u).2 answers u') : Gives w u answers u'
  | call {u u' : σ} {answers : List Answer} {c : Call} {ms : Nat} {x : c.Reply}
      (conduct : (w.begin c u).1 = .after ms x) (later : Gives w (w.begin c u).2 answers u') :
      Gives w u (⟨c, x⟩ :: answers) u'

/-- The answer that an event has brought, if it is that of a call. -/
def Event.answer? : Event Effects → Option Answer
  | ⟨.call c _, x⟩ => some ⟨c, x.getD c.late⟩
  | _ => none

/-- The answers among some events. -/
def answersOf (events : List (Event Effects)) : List Answer := events.filterMap Event.answer?

/-- The store does not fail, calls may come to anything, and nobody else is at work. -/
def Circumstances.sole (names : Naming) : Circumstances where
  names
  fails _ _ := False
  replies _ _ _ := True
  others _ _ := False

/-- Where nobody else is at work, a program ends as its answers say. -/
theorem Program.Leads.answered {names : Naming} {p : Program Effects α} {a : α}
    {post : α → Store × List Answer → Prop} {events : List (Event Effects)} {s s' : Store}
    {made : List Answer} (h : p.Leads events (.done a))
    (along : (Circumstances.sole names).Along s events s')
    (hp : p.wp (RepoDocs.answered names) post (s, made)) :
    post a (s', made ++ answersOf events) := by
  generalize hend : Program.done a = end? at h
  induction h generalizing s made with
  | here =>
    subst hend
    cases along with
    | rest =>
      rw [show answersOf [] = [] from rfl, List.append_nil]
      exact hp
    | meanwhile step => exact step.elim
  | ask x rest ih =>
    cases along with
    | meanwhile step => exact step.elim
    | failed fails => exact fails.elim
    | performed now later => exact ih later (hp now) hend
    | replied replies later =>
      have h := ih later (hp _) hend
      rwa [List.append_assoc] at h

/-- A request that waits no longer than a limit. -/
def Effect.Limited (limit : Nat) : Effect → Prop
  | store _ => True
  | call _ deadline? => deadline? = some limit

/-- A call with a deadline comes to its reply, or to none, by then, and so does one that is cut off. -/
theorem Conduct.within_some (k : Conduct α) (limit : Nat) (late : α) :
    ∃ ms x, k.within (some limit) = .after ms x ∧ ms ≤ limit ∧
      k.cutOff limit late = .after ms (x.getD late) := by
  cases k with
  | never => exact ⟨limit, none, rfl, Nat.le_refl _, rfl⟩
  | after ms reply =>
    by_cases h : ms ≤ limit
    · exact ⟨ms, some reply, if_pos h, h, if_pos h⟩
    · exact ⟨limit, none, if_neg h, Nat.le_refl _, if_neg h⟩

namespace Engine

variable {α : Type} {w : World σ} {limit : Nat}

/-! ### The clock -/

@[simp] theorem clock_performStore (e : Engine σ) (c : StoreCall) :
    (e.performStore w c).2.clock = e.clock := by
  unfold performStore
  split <;> rfl

@[simp] theorem clock_work (e : Engine σ) (job : String) (q : Program Effects Unit) :
    (e.work w job q).clock = e.clock := by
  induction q generalizing e with
  | done a => rfl
  | ask r next ih =>
    cases r with
    | store c =>
      rw [work, begin_store]
      exact (ih _ _).trans (clock_performStore e c)
    | call c deadline? =>
      rw [work, begin_call]
      cases (w.begin c e.world).1.within deadline? with
      | never => rfl
      | after ms x =>
        cases ms with
        | zero => exact ih x { e with world := (w.begin c e.world).2 }
        | succ ms => rfl

theorem clock_foldl_work (runs : List BackgroundRun) (e : Engine σ) :
    (runs.foldl (fun e r => e.work w r.job r.rest) e).clock = e.clock := by
  induction runs generalizing e with
  | nil => rfl
  | cons r runs ih => exact (ih _).trans (clock_work e r.job r.rest)

@[simp] theorem clock_drain (e : Engine σ) : (e.drain w).clock = e.clock :=
  clock_foldl_work e.ready { e with ready := [] }

theorem nextWake?_between {e : Engine σ} {goal t : Nat} (h : e.nextWake? goal = some t) :
    e.clock < t ∧ t < goal := by
  have mem := List.min?_mem h
  simpa using (List.mem_filter.1 mem).2

/-- Where nothing is waited for but a time, that time comes. -/
theorem clock_pass {goal fuel : Nat} (e : Engine σ) (ahead : e.clock ≤ goal)
    (enough : goal - e.clock < fuel) : (e.pass w (fun _ => false) goal fuel).2.clock = goal := by
  induction fuel generalizing e with
  | zero => omega
  | succ fuel ih =>
    simp only [pass, Bool.false_eq_true, if_false]
    split
    · rename_i t next
      obtain ⟨after, before⟩ := nextWake?_between next
      rw [clock_drain] at after
      exact ih ((e.drain w).wakeAt t) (Nat.le_of_lt before) (by simp only [wakeAt]; omega)
    · rfl

theorem clock_waitFor {time : Nat} (e : Engine σ) (ahead : e.clock ≤ time) (intime : time ≤ limit) :
    (e.waitFor w time limit).2.clock = time := by
  rw [waitFor, Nat.min_eq_left intime]
  exact clock_pass e ahead (Nat.lt_succ_self _)

/-! ### Runs with a deadline -/

/-- From one engine to another, the world gives the answers among some events, and nobody else works in
the store. -/
structure Solo (w : World σ) (limit : Nat) (e : Engine σ) (events : List (Event Effects))
    (e' : Engine σ) : Prop where
  alone : e'.Alone
  gives : (w.cut limit).Gives e.world (answersOf events) e'.world
  along : (Circumstances.sole w.names).Along e.store events e'.store

/-- A call with a deadline is over by then, and the program goes on with what it came to. -/
theorem exists_run_call (limit : Nat) (background : String → Program Effects Unit) (c : Call)
    (next : Option c.Reply → Program Effects α) (e : Engine σ) :
    ∃ x bound, ∃ e' : Engine σ, (∀ time ≥ bound, e.run w background time
          (Program.lift (.ask (.call c (some limit)) next)) =
        e'.run w background time (next x).lift) ∧
      e'.clock ≤ e.clock + limit ∧
      (∀ {answers : List Answer} {u : σ}, (w.cut limit).Gives e'.world answers u → e.Alone →
        (w.cut limit).Gives e.world (⟨c, x.getD c.late⟩ :: answers) u) ∧
      (e.Alone → e'.Alone ∧ e'.store = e.store) := by
  obtain ⟨ms, x, within, intime, cut⟩ := (w.begin c e.world).1.within_some limit c.late
  let e₁ : Engine σ := { e with world := (w.begin c e.world).2 }
  have begun : e.begin w (.call c (some limit)) = (.after ms x, e₁) := by
    rw [begin_call, within]
  have gives {answers : List Answer} {u : σ} (later : (w.cut limit).Gives e₁.world answers u) :
      (w.cut limit).Gives e.world (⟨c, x.getD c.late⟩ :: answers) u := .call cut later
  cases ms with
  | zero =>
    refine ⟨x, 0, e₁, fun time _ => ?_, Nat.le_add_right .., fun later _ => gives later,
      fun alone => ⟨alone.at _ _ _, rfl⟩⟩
    rw [Program.lift, Program.rename, run, begun]
    rfl
  | succ ms =>
    let time := e.clock + ms + 1
    let e₂ := (e₁.passUntil w (fun _ => false) time).2
    have waited {end? : Nat} (h : time ≤ end?) : e₁.waitFor w time end? = (true, e₂) := by
      rw [waitFor, Nat.min_eq_left h, decide_eq_true h]
    have clock : e₂.clock = time := by
      have ahead : e₁.clock ≤ time := by show e.clock ≤ e.clock + ms + 1; omega
      rw [← clock_waitFor (w := w) e₁ ahead (Nat.le_refl time), waited (Nat.le_refl time)]
    have still (alone : e.Alone) : e₂ = { e₁ with clock := time } := by
      have alone₁ : e₁.Alone := alone.at _ _ _
      have same := alone₁.waitFor (w := w) (Nat.le_refl time)
      rw [waited (Nat.le_refl time)] at same
      exact congrArg Prod.snd same
    refine ⟨x, time, e₂, fun end? h => ?_, by omega, fun later alone => gives ?_, fun alone => ?_⟩
    · rw [Program.lift, Program.rename, run, begun]
      dsimp only
      rw [show e₁.clock + ms + 1 = time from rfl, waited h]
      rfl
    · rw [still alone] at later
      exact later
    · rw [still alone]
      exact ⟨alone.at _ _ _, rfl⟩

/-- Where the store does not fail, it does what it is to do. -/
theorem performStore_of_sound (sound : w.Sound) (e : Engine σ) (c : StoreCall) :
    ∃ now, e.performStore w c =
      ((e.store.perform w.names now c).1,
        { e with
          world := (w.storeFailure? c e.world).2
          store := (e.store.perform w.names now c).2 }) := by
  have sound := sound c e.world
  unfold performStore
  split
  · rename_i failure _ fails
    rw [fails] at sound
    cases sound
  · rename_i world fails
    exact ⟨w.now world, by rw [fails]⟩

/-- A program whose calls have a deadline comes to its end within the deadlines of the calls that it
makes, whatever else is at work. -/
theorem exists_run_in_time (sound : w.Sound) (background : String → Program Effects Unit)
    (p : Program Effects α) (limited : p.Asks (Effect.Limited limit)) (e : Engine σ) :
    ∃ bound a, ∃ e' : Engine σ, ∃ events,
      (∀ time ≥ bound, e.run w background time p.lift = (some a, e')) ∧ p.Leads events (.done a) ∧
      e'.clock ≤ e.clock + (answersOf events).length * limit ∧
      (e.Alone → Solo w limit e events e') := by
  induction p generalizing e with
  | done a =>
    exact ⟨0, a, e, [], fun _ _ => rfl, .here, Nat.le_add_right .., fun alone => ⟨alone, .nil, .rest⟩⟩
  | ask q next ih =>
    cases q with
    | store c =>
      obtain ⟨now, performed⟩ := performStore_of_sound sound e c
      obtain ⟨bound, a, e', events, ended, leads, clock, undisturbed⟩ :=
        ih (e.performStore w c).1 (limited.2 _) (e.performStore w c).2
      rw [performed] at ended leads clock undisturbed
      refine ⟨bound, a, e', ⟨.store c, _⟩ :: events, fun time htime => ?_,
        .ask (S := Effects) _ leads, clock, fun alone => ?_⟩
      · rw [Program.lift, Program.rename, run, begin_store, performed]
        exact ended time htime
      · obtain ⟨alone', gives, along⟩ := undisturbed (alone.at _ _ _)
        exact ⟨alone', .store c gives, .performed now along⟩
    | call c deadline? =>
      obtain rfl : deadline? = some limit := limited.1
      obtain ⟨x, bound₁, e₁, begun, clock₁, gives, alone₁⟩ :=
        exists_run_call (w := w) limit background c next e
      obtain ⟨bound, a, e', events, ended, leads, clock, undisturbed⟩ := ih x (limited.2 x) e₁
      refine ⟨max bound₁ bound, a, e', ⟨.call c (some limit), x⟩ :: events, fun time htime => ?_,
        ?_, ?_, fun alone => ?_⟩
      · obtain ⟨h₁, h⟩ := Nat.max_le.1 htime
        exact (begun time h₁).trans (ended time h)
      · exact Program.Leads.ask (S := Effects) (r := .call c (some limit)) x leads
      · have count : (answersOf (⟨.call c (some limit), x⟩ :: events)).length =
            (answersOf events).length + 1 := rfl
        rw [count, Nat.add_mul, Nat.one_mul]
        omega
      · obtain ⟨h₁, same⟩ := alone₁ alone
        obtain ⟨alone', later, along⟩ := undisturbed h₁
        exact ⟨alone', gives later alone, .replied trivial (same ▸ along)⟩

end Engine

/-! ### Runs without deadlines -/

/-- An operation of the store. -/
def Effect.IsStore : Effect → Prop
  | store _ => True
  | call _ _ => False

/-- The second program is the first one without its deadlines: where a deadline would come first, it goes
on as where the call fails in its stead. -/
inductive Unhurried (limit : Nat) : Program Effects α → Program Effects α → Prop
  | done (a : α) : Unhurried limit (.done a) (.done a)
  | store {c : StoreCall} {next next' : Except StoreError c.Reply → Program Effects α}
      (later : ∀ x, Unhurried limit (next x) (next' x)) :
      Unhurried limit (.ask (.store c) next) (.ask (.store c) next')
  | call {c : Call} {next next' : Option c.Reply → Program Effects α}
      (later : ∀ x, Unhurried limit (next x) (next' (some (x.getD c.late)))) :
      Unhurried limit (.ask (.call c (some limit)) next) (.ask (.call c none) next')

namespace Unhurried

variable {limit : Nat} {ε α β : Type}

theorem refl {p : Program Effects α} (h : p.Asks Effect.IsStore) : Unhurried limit p p := by
  induction p with
  | done a => exact .done a
  | ask q next ih =>
    cases q with
    | store c => exact .store fun x => ih x (h.2 x)
    | call c deadline? => exact h.1.elim

theorem bind {p p' : Program Effects α} {f f' : α → Program Effects β} (h : Unhurried limit p p')
    (hf : ∀ a, Unhurried limit (f a) (f' a)) : Unhurried limit (p >>= f) (p' >>= f') := by
  induction h with
  | done a => exact hf a
  | store later ih => exact .store ih
  | call later ih => exact .call ih

theorem run_bind {x x' : ExceptT ε (Program Effects) α} {f f' : α → ExceptT ε (Program Effects) β}
    (hx : Unhurried limit x.run x'.run) (hf : ∀ a, Unhurried limit (f a).run (f' a).run) :
    Unhurried limit (x >>= f).run (x' >>= f').run := by
  rw [ExceptT.run_bind, ExceptT.run_bind]
  refine hx.bind fun r => ?_
  cases r with
  | ok a => exact hf a
  | error e => exact .done _

theorem run_tryCatch {x x' : ExceptT ε (Program Effects) α}
    {handle handle' : ε → ExceptT ε (Program Effects) α} (hx : Unhurried limit x.run x'.run)
    (hhandle : ∀ e, Unhurried limit (handle e).run (handle' e).run) :
    Unhurried limit (tryCatch x handle).run (tryCatch x' handle').run := by
  refine Unhurried.bind (p := x.run) hx fun r => ?_
  cases r with
  | ok a => exact .done _
  | error e => exact hhandle e

theorem run_lift {p p' : Program Effects α} (h : Unhurried limit p p') :
    Unhurried limit (liftM p : ExceptT ε (Program Effects) α).run
      (liftM p' : ExceptT ε (Program Effects) α).run :=
  h.bind fun _ => .done _

/-- A call that is given up on goes on as one that fails by itself. -/
theorem called (c : Call) :
    Unhurried limit (called c (some limit) c.late) (called c none c.late) :=
  .call fun _ => .done _

end Unhurried

namespace Engine

variable {α : Type} {w : World σ} {limit : Nat}

/-- Nothing happens while time goes by, whether the time comes or not. -/
theorem Alone.waitFor_eq {e : Engine σ} (alone : e.Alone) (w : World σ) (time end? : Nat) :
    e.waitFor w time end? = (decide (time ≤ end?), { e with clock := min time end? }) := by
  obtain ⟨world, store, clock, registered, ready, asleep⟩ := e
  obtain ⟨rfl, rfl⟩ := alone
  simp [Engine.waitFor, passUntil, pass, drain, nextWake?, wakeAt]

/-- A program that works alone does with deadlines what it does without them where calls are cut off. -/
theorem run_unhurried {p p' : Program Effects α} (h : Unhurried limit p p')
    (background : String → Program Effects Unit) (time : Nat) {e : Engine σ} (alone : e.Alone) :
    e.run w background time p.lift = e.run (w.cut limit) background time p'.lift := by
  induction h generalizing e with
  | done a => rfl
  | @store c next next' later ih =>
    have alone' : (e.performStore w c).2.Alone := by
      obtain ⟨ready, asleep⟩ := performStore_frame w c e
      exact ⟨ready.trans alone.ready, asleep.trans alone.asleep⟩
    simp only [Program.lift, Program.rename, run, begin_store]
    exact ih _ alone'
  | @call c next next' later ih =>
    obtain ⟨ms, x, within, -, cut⟩ := (w.begin c e.world).1.within_some limit c.late
    let e₁ : Engine σ := { e with world := (w.begin c e.world).2 }
    have begun : e.begin w (.call c (some limit)) = (.after ms x, e₁) := by
      rw [begin_call, within]
    have begun' : e.begin (w.cut limit) (.call c none) = (.after ms (some (x.getD c.late)), e₁) := by
      simp only [begin_call, World.cut, cut]
      rfl
    have alone₁ : e₁.Alone := alone.at _ _ _
    rw [Program.lift, Program.lift, Program.rename, Program.rename, run, run, begun, begun']
    cases ms with
    | zero => exact ih x alone₁
    | succ ms =>
      dsimp only
      rw [alone₁.waitFor_eq, alone₁.waitFor_eq]
      cases decide (e₁.clock + ms + 1 ≤ time) with
      | true => exact ih x (alone₁.at _ _ _)
      | false => rfl

end Engine

end RepoDocs
