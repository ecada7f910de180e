import RepoDocs.Proofs.Process.Deadline

/-! Time that passes while background runs work.  What each of their steps keeps is kept however long that
goes on, and by every program in front.  No run that waits is ever overdue, so it makes no difference
whether time passes at once or in two parts. -/

namespace RepoDocs

/-- What is so of a program is so of the rest of it. -/
def Hereditary (P : Program Effects Unit → Prop) : Prop :=
  ∀ r next, P (.ask r next) → ∀ x, P (next x)

namespace Engine

variable {w : World σ} {e : Engine σ} {α : Type}

/-! ### What engines keep -/

section Keeps

variable {I : Engine σ → Prop}

theorem pass_keeps (drain : ∀ {e : Engine σ}, I e → I (e.drain w))
    (wakeAt : ∀ {e : Engine σ} (time : Nat), I e → I (e.wakeAt time)) (h : I e)
    (met : Engine σ → Bool) (goal fuel : Nat) : I (e.pass w met goal fuel).2 := by
  induction fuel generalizing e with
  | zero => exact h
  | succ fuel ih =>
    rw [pass]
    split
    · exact drain h
    · split
      · exact ih (wakeAt _ (drain h))
      · exact wakeAt goal (drain h)

variable {background : String → Program Effects Unit}
  (frame : ∀ {e e' : Engine σ}, I e → e'.ready = e.ready → e'.asleep = e.asleep →
    e'.clock = e.clock → I e')
  (started : ∀ {e : Engine σ} (job : String), I e →
    I { e with ready := e.ready ++ [⟨job, background job⟩] })
  (passes : ∀ {e : Engine σ} (met : Engine σ → Bool) (goal fuel : Nat), I e →
    I (e.pass w met goal fuel).2)

/-- After a wait the program in front goes on, or it is given up on. -/
theorem goOn_keeps {waited : Bool × Engine σ} {go : Engine σ → Option α × Engine σ} (h : I waited.2)
    (hgo : ∀ {e : Engine σ}, I e → I (go e).2) :
    I (match waited with
      | (true, e) => go e
      | (false, e) => (none, e)).2 := by
  obtain ⟨inTime, e⟩ := waited
  cases inTime with
  | true => exact hgo h
  | false => exact h

include frame started passes

theorem run_keeps (limit : Nat) (p : Program Controls α) (h : I e) :
    I (e.run w background limit p).2 := by
  induction p generalizing e with
  | done a => exact h
  | ask r next ih =>
    cases r with
    | effect r =>
      cases r with
      | store c =>
        rw [run, begin_store]
        refine ih _ (frame h ?_ ?_ (clock_performStore e c))
        · exact (performStore_frame w c e).1
        · exact (performStore_frame w c e).2
      | call c deadline? =>
        have h₁ : I { e with world := (w.begin c e.world).2 } := frame h rfl rfl rfl
        rw [run, begin_call]
        cases (w.begin c e.world).1.within deadline? with
        | never => exact passes _ _ _ h₁
        | after ms x =>
          cases ms with
          | zero => exact ih x h₁
          | succ ms => exact goOn_keeps (passes _ _ _ h₁) (ih x)
    | pause ms =>
      cases ms with
      | zero => exact ih () h
      | succ ms => exact goOn_keeps (passes _ _ _ h) (ih ())
    | start job => exact ih () (frame (started job h) rfl rfl rfl)
    | running => exact ih _ h
    | join job =>
      rw [run]
      split
      · exact goOn_keeps (passes _ _ _ (frame h rfl rfl rfl)) (ih true)
      · exact ih false h

end Keeps

/-- A program in two parts goes on with the second one, unless it is given up on before. -/
theorem run_bind {β : Type} (background : String → Program Effects Unit) (limit : Nat)
    (p : Program Controls α) (f : α → Program Controls β) (e : Engine σ) :
    e.run w background limit (p >>= f) =
      match e.run w background limit p with
      | (some a, e') => e'.run w background limit (f a)
      | (none, e') => (none, e') := by
  induction p generalizing e with
  | done a => rfl
  | ask r next ih =>
    change e.run w background limit (.ask r fun x => next x >>= f) = _
    cases r with
    | effect r =>
      rw [run, run]
      rcases e.begin w r with ⟨conduct, e₁⟩
      cases conduct with
      | never => rfl
      | after ms x =>
        cases ms with
        | zero => exact ih x e₁
        | succ ms =>
          dsimp only
          rcases e₁.waitFor w (e₁.clock + ms + 1) limit with ⟨inTime, e₂⟩
          cases inTime with
          | true => exact ih x e₂
          | false => rfl
    | pause ms =>
      cases ms with
      | zero => exact ih () e
      | succ ms =>
        rw [run, run]
        rcases e.waitFor w (e.clock + ms + 1) limit with ⟨inTime, e₂⟩
        cases inTime with
        | true => exact ih () e₂
        | false => rfl
    | start job => exact ih () _
    | running => exact ih _ e
    | join job =>
      rw [run, run]
      split
      · generalize passUntil w (hasEnded job) limit _ = passed
        obtain ⟨inTime, e₂⟩ := passed
        cases inTime with
        | true => exact ih true e₂
        | false => rfl
      · exact ih false e

/-- An attempt in two parts goes on with the second one, unless the first fails or is given up on. -/
theorem run_attempt_bind {β ε : Type} (background : String → Program Effects Unit) (limit : Nat)
    (x : Attempt ε Controls α) (f : α → Attempt ε Controls β) (e : Engine σ) :
    e.run w background limit (x >>= f).run =
      match e.run w background limit x.run with
      | (some (.ok a), e') => e'.run w background limit (f a).run
      | (some (.error failure), e') => (some (.error failure), e')
      | (none, e') => (none, e') := by
  rw [ExceptT.run_bind, run_bind]
  rcases e.run w background limit x.run with ⟨_ | _ | a, e'⟩ <;> rfl

/-- A program that does not fail, as an attempt. -/
theorem run_attempt_lift {ε : Type} (background : String → Program Effects Unit) (limit : Nat)
    (p : Program Controls α) (e : Engine σ) :
    e.run w background limit (liftM p : Attempt ε Controls α).run =
      match e.run w background limit p with
      | (some a, e') => (some (.ok a), e')
      | (none, e') => (none, e') := by
  change e.run w background limit (p >>= fun a => .done (Except.ok a)) = _
  rw [run_bind]
  rcases e.run w background limit p with ⟨_ | a, e'⟩ <;> rfl

/-- What is so at the start, and is kept, is so of all engines that can come about. -/
theorem Reached.keeps {c : Conditions} {I : Engine σ → Prop}
    (frame : ∀ {e e' : Engine σ}, I e → e'.ready = e.ready → e'.asleep = e.asleep →
      e'.clock = e.clock → I e')
    (start : ∀ world : σ, I { world })
    (started : ∀ {e : Engine σ} (job : String), I e →
      I { e with ready := e.ready ++ [⟨job, Analysis.background c.config job⟩] })
    (passes : ∀ {e : Engine σ} (met : Engine σ → Bool) (goal fuel : Nat), I e →
      I (e.pass w met goal fuel).2)
    (h : Reached w c e) : I e := by
  induction h with
  | start world => exact start world
  | changed world _ ih => exact frame ih rfl rfl rfl
  | ran _ _ limit _ ih => exact run_keeps frame started passes limit _ ih

/-! ### What is left of the background runs -/

/-- What is left of each background run is as `P` says. -/
structure Holds (P : Program Effects Unit → Prop) (e : Engine σ) : Prop where
  ready : ∀ r ∈ e.ready, P r.rest
  asleep : ∀ p ∈ e.asleep, P p.run.rest

namespace Holds

variable {P : Program Effects Unit → Prop}

theorem of_same {e' : Engine σ} (h : e.Holds P) (ready : e'.ready = e.ready)
    (asleep : e'.asleep = e.asleep) : e'.Holds P :=
  ⟨ready ▸ h.ready, asleep ▸ h.asleep⟩

theorem start (h : e.Holds P) {job : String} {q : Program Effects Unit} (hq : P q) :
    Holds P { e with ready := e.ready ++ [⟨job, q⟩] } :=
  ⟨List.forall_mem_append.2 ⟨h.ready, List.forall_mem_singleton.2 hq⟩, h.asleep⟩

theorem sleep {p : Sleeper} (h : e.Holds P) (hp : P p.run.rest) :
    Holds P { e with asleep := e.asleep ++ [p] } :=
  ⟨h.ready, List.forall_mem_append.2 ⟨h.asleep, List.forall_mem_singleton.2 hp⟩⟩

theorem performStore (h : e.Holds P) (w : World σ) (c : StoreCall) :
    (e.performStore w c).2.Holds P :=
  h.of_same (performStore_frame w c e).1 (performStore_frame w c e).2

theorem wakeAt (h : e.Holds P) (time : Nat) : (e.wakeAt time).Holds P where
  ready := by
    refine List.forall_mem_append.2 ⟨h.ready, List.forall_mem_map.2 fun p hp => ?_⟩
    exact h.asleep p (List.mem_of_mem_filter hp)
  asleep p hp := h.asleep p (List.mem_of_mem_filter hp)

variable (hereditary : Hereditary P)
include hereditary

theorem work {q : Program Effects Unit} (h : e.Holds P) (hq : P q) (w : World σ) (job : String) :
    (e.work w job q).Holds P := by
  induction q generalizing e with
  | done a => exact h.of_same rfl rfl
  | ask r next ih =>
    have later := hereditary r next hq
    cases r with
    | store c =>
      rw [Engine.work, begin_store]
      exact ih _ (h.performStore w c) (later _)
    | call c deadline? =>
      have h₁ : Holds P { e with world := (w.begin c e.world).2 } := h.of_same rfl rfl
      rw [Engine.work, begin_call]
      cases (w.begin c e.world).1.within deadline? with
      | never => exact h₁.sleep hq
      | after ms x =>
        cases ms with
        | zero => exact ih x h₁ (later x)
        | succ ms => exact h₁.sleep (later x)

theorem foldl_work {runs : List BackgroundRun} (h : e.Holds P) (hruns : ∀ r ∈ runs, P r.rest)
    (w : World σ) : (runs.foldl (fun e r => e.work w r.job r.rest) e).Holds P := by
  induction runs generalizing e with
  | nil => exact h
  | cons r runs ih =>
    obtain ⟨first, others⟩ := List.forall_mem_cons.1 hruns
    exact ih (h.work hereditary first w r.job) others

theorem drain (h : e.Holds P) (w : World σ) : (e.drain w).Holds P :=
  have rested : Holds P { e with ready := [] } := ⟨List.forall_mem_nil _, h.asleep⟩
  rested.foldl_work hereditary h.ready w

theorem pass (h : e.Holds P) (w : World σ) (met : Engine σ → Bool) (goal fuel : Nat) :
    (e.pass w met goal fuel).2.Holds P :=
  pass_keeps (fun h => h.drain hereditary w) (fun time h => h.wakeAt time) h met goal fuel

theorem of_reached {c : Conditions} (begun : ∀ job, P (Analysis.background c.config job))
    (h : Reached w c e) : e.Holds P :=
  h.keeps (fun h ready asleep _ => h.of_same ready asleep)
    (fun _ => ⟨List.forall_mem_nil _, List.forall_mem_nil _⟩) (fun job h => h.start (begun job))
    fun met goal fuel h => h.pass hereditary w met goal fuel

end Holds

/-! ### When waits end -/

/-- The times at which waits end. -/
def wakes (e : Engine σ) : List Nat := e.asleep.filterMap (·.wake?)

/-- No wait should have ended already. -/
def Timely (e : Engine σ) : Prop := ∀ t ∈ e.wakes, e.clock < t

theorem nextWake?_eq_some {goal t : Nat} : e.nextWake? goal = some t ↔
    t ∈ e.wakes ∧ e.clock < t ∧ t < goal ∧ ∀ t' ∈ e.wakes, e.clock < t' → t' < goal → t ≤ t' := by
  simp only [nextWake?, List.min?_eq_some_iff, List.mem_filter, Bool.and_eq_true, decide_eq_true_eq,
    wakes]
  grind

theorem nextWake?_eq_none {goal : Nat} :
    e.nextWake? goal = none ↔ ∀ t ∈ e.wakes, e.clock < t → goal ≤ t := by
  simp only [nextWake?, List.min?_eq_none_iff, List.filter_eq_nil_iff, Bool.and_eq_true,
    decide_eq_true_eq, wakes]
  grind

theorem mem_wakes_wakeAt {time t : Nat} : t ∈ (e.wakeAt time).wakes ↔ t ∈ e.wakes ∧ time < t := by
  simp only [wakes, wakeAt, List.mem_filterMap, List.mem_filter]
  grind

theorem timely_wakeAt (time : Nat) : (e.wakeAt time).Timely :=
  fun _ ht => (mem_wakes_wakeAt.1 ht).2

theorem Timely.of_same {e' : Engine σ} (h : e.Timely) (asleep : e'.asleep = e.asleep)
    (clock : e'.clock = e.clock) : e'.Timely := by
  rw [Timely, wakes, asleep, clock]
  exact h

theorem Timely.sleep (h : e.Timely) {r : BackgroundRun} {wake? : Option Nat}
    (ahead : ∀ t ∈ wake?, e.clock < t) :
    Timely { e with asleep := e.asleep ++ [⟨wake?, r⟩] } := by
  intro t ht
  rw [wakes, List.filterMap_append, List.mem_append] at ht
  rcases ht with ht | ht
  · exact h t ht
  · exact ahead t (by simpa [eq_comm] using ht)

theorem Timely.work {q : Program Effects Unit} (h : e.Timely) (w : World σ) (job : String) :
    (e.work w job q).Timely := by
  induction q generalizing e with
  | done a => exact h.of_same rfl rfl
  | ask r next ih =>
    cases r with
    | store c =>
      rw [Engine.work, begin_store]
      exact ih _ (h.of_same (performStore_frame w c e).2 (clock_performStore e c))
    | call c deadline? =>
      have h₁ : Timely { e with world := (w.begin c e.world).2 } := h.of_same rfl rfl
      rw [Engine.work, begin_call]
      cases (w.begin c e.world).1.within deadline? with
      | never =>
        refine h₁.sleep ?_
        rintro _ ⟨⟩
      | after ms x =>
        cases ms with
        | zero => exact ih x h₁
        | succ ms =>
          refine h₁.sleep ?_
          rintro _ ⟨⟩
          exact Nat.lt_succ_of_le (Nat.le_add_right ..)

theorem Timely.drain (h : e.Timely) (w : World σ) : (e.drain w).Timely := by
  have go (runs : List BackgroundRun) {e : Engine σ} (h : e.Timely) :
      (runs.foldl (fun e r => e.work w r.job r.rest) e).Timely := by
    induction runs generalizing e with
    | nil => exact h
    | cons r runs ih => exact ih (h.work w r.job)
  exact go e.ready (e := { e with ready := [] }) (h.of_same rfl rfl)

theorem Timely.pass (h : e.Timely) (w : World σ) (met : Engine σ → Bool) (goal fuel : Nat) :
    (e.pass w met goal fuel).2.Timely :=
  pass_keeps (fun h => h.drain w) (fun time _ => timely_wakeAt time) h met goal fuel

theorem Reached.timely {c : Conditions} (h : Reached w c e) : e.Timely :=
  h.keeps (fun h _ asleep clock => h.of_same asleep clock) (fun _ => nofun)
    (fun _ h => h.of_same rfl rfl) fun met goal fuel h => h.pass w met goal fuel

/-! ### Time that passes in two parts -/

/-- It does not matter how much fuel there is beyond what is needed. -/
theorem pass_enough {goal fuel fuel' : Nat} (e : Engine σ) (enough : goal - e.clock < fuel)
    (enough' : goal - e.clock < fuel') :
    e.pass w (fun _ => false) goal fuel = e.pass w (fun _ => false) goal fuel' := by
  induction fuel generalizing e fuel' with
  | zero => omega
  | succ fuel ih =>
    obtain ⟨fuel', rfl⟩ := Nat.exists_eq_add_of_le' (Nat.lt_of_le_of_lt (Nat.zero_le _) enough')
    simp only [pass, Bool.false_eq_true, if_false]
    cases next : (e.drain w).nextWake? goal with
    | none => rfl
    | some t =>
      obtain ⟨after, before⟩ := nextWake?_between next
      rw [clock_drain] at after
      exact ih ((e.drain w).wakeAt t) (by simp only [wakeAt]; omega) (by simp only [wakeAt]; omega)

theorem ready_drain (e : Engine σ) : (e.drain w).ready = [] := by
  have go (runs : List BackgroundRun) (e : Engine σ) :
      (runs.foldl (fun e r => e.work w r.job r.rest) e).ready = e.ready := by
    induction runs generalizing e with
    | nil => rfl
    | cons r runs ih => exact (ih _).trans (work_ready w r.job r.rest e)
  exact go e.ready { e with ready := [] }

/-- Where nobody is ready and no wait ends by then, only the clock changes. -/
theorem wakeAt_eq {time : Nat} (idle : e.ready = []) (later : ∀ t ∈ e.wakes, time < t) :
    e.wakeAt time = { e with clock := time } := by
  have still : ∀ p ∈ e.asleep, (p.wake?.any (· ≤ time)) = false := by
    intro p hp
    cases wake : p.wake? with
    | none => rfl
    | some t =>
      have behind := later t (List.mem_filterMap.2 ⟨p, hp, wake⟩)
      simpa using behind
  have asleep : e.asleep.filter (fun p => !p.wake?.any (· ≤ time)) = e.asleep :=
    List.filter_eq_self.2 fun p hp => by rw [still p hp]; rfl
  have woken : e.asleep.filter (fun p => p.wake?.any (· ≤ time)) = [] :=
    List.filter_eq_nil_iff.2 fun p hp => by rw [still p hp]; exact Bool.false_ne_true
  simp only [wakeAt, idle, asleep, woken, List.map_nil, List.append_nil]

theorem passUntil_eq (e : Engine σ) (goal : Nat) :
    e.passUntil w (fun _ => false) goal =
      match (e.drain w).nextWake? goal with
      | some t => ((e.drain w).wakeAt t).passUntil w (fun _ => false) goal
      | none => (false, (e.drain w).wakeAt goal) := by
  rw [passUntil, pass]
  simp only [Bool.false_eq_true, if_false]
  cases next : (e.drain w).nextWake? goal with
  | none => rfl
  | some t =>
    obtain ⟨after, before⟩ := nextWake?_between next
    rw [clock_drain] at after
    exact pass_enough ((e.drain w).wakeAt t) (by simp only [wakeAt]; omega) (Nat.lt_succ_self _)

/-- Where nobody is ready, and no wait ends before the time is put forward, that makes no difference. -/
theorem passUntil_wakeAt {mid goal : Nat} (idle : e.ready = []) (timely : e.Timely)
    (between : mid < goal) (far : e.nextWake? mid = none) :
    (e.wakeAt mid).passUntil w (fun _ => false) goal =
      match e.nextWake? goal with
      | some t => (e.wakeAt t).passUntil w (fun _ => false) goal
      | none => (false, e.wakeAt goal) := by
  have far : ∀ t ∈ e.wakes, mid ≤ t := fun t ht => nextWake?_eq_none.1 far t ht (timely t ht)
  by_cases due : mid ∈ e.wakes
  · have next : e.nextWake? goal = some mid :=
      nextWake?_eq_some.2 ⟨due, timely mid due, between, fun t ht _ _ => far t ht⟩
    rw [next]
  · have later : ∀ t ∈ e.wakes, mid < t := by
      intro t ht
      exact Nat.lt_of_le_of_ne (far t ht) fun same => due (same ▸ ht)
    have still := wakeAt_eq idle later
    have drained : (e.wakeAt mid).drain w = e.wakeAt mid := by
      rw [still, drain]
      simp only [idle, List.foldl_nil]
    have next : (e.wakeAt mid).nextWake? goal = e.nextWake? goal := by
      rw [still]
      refine congrArg List.min? (List.filter_congr fun t ht => ?_)
      simp [later t ht, timely t ht]
    have again (t : Nat) : (e.wakeAt mid).wakeAt t = e.wakeAt t := by
      rw [still]
      rfl
    rw [passUntil_eq, drained, next]
    cases e.nextWake? goal with
    | none => simp only [again]
    | some t => simp only [again]

theorem passUntil_pass {mid goal fuel : Nat} (timely : e.Timely) (ahead : e.clock ≤ mid)
    (between : mid < goal) (enough : mid - e.clock < fuel) :
    (e.pass w (fun _ => false) mid fuel).2.passUntil w (fun _ => false) goal =
      e.passUntil w (fun _ => false) goal := by
  induction fuel generalizing e with
  | zero => omega
  | succ fuel ih =>
    have drained : (e.drain w).Timely := timely.drain w
    have clock : (e.drain w).clock = e.clock := clock_drain e
    rw [pass, passUntil_eq e]
    simp only [Bool.false_eq_true, if_false]
    cases next : (e.drain w).nextWake? mid with
    | none => exact passUntil_wakeAt (ready_drain e) drained between next
    | some t =>
      obtain ⟨wakes, after, before, first⟩ := nextWake?_eq_some.1 next
      have next' : (e.drain w).nextWake? goal = some t := by
        refine nextWake?_eq_some.2 ⟨wakes, after, Nat.lt_trans before between, fun t' ht' h _ => ?_⟩
        by_cases early : t' < mid
        · exact first t' ht' h early
        · omega
      rw [next']
      exact ih (timely_wakeAt t) (Nat.le_of_lt before) (by simp only [wakeAt]; omega)

/-- Time passes in two parts as it does at once. -/
theorem passUntil_passUntil {mid goal : Nat} (timely : e.Timely) (ahead : e.clock ≤ mid)
    (between : mid < goal) :
    (e.passUntil w (fun _ => false) mid).2.passUntil w (fun _ => false) goal =
      e.passUntil w (fun _ => false) goal :=
  passUntil_pass timely ahead between (Nat.lt_succ_self _)

end Engine

end RepoDocs
