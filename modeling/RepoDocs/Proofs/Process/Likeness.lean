import RepoDocs.Proofs.Process.Passing

/-! Replies that programs do not tell apart.  Where two worlds differ in such replies alone, an engine
does the same in both. -/

namespace RepoDocs

/-- Which replies to a call are alike. -/
abbrev Likeness := (c : Call) → c.Reply → c.Reply → Prop

/-- Two ways in which a call may go take the same time, and the replies are alike. -/
inductive Conduct.Resembles (like : α → α → Prop) : Conduct α → Conduct α → Prop
  | after (ms : Nat) {x y : α} (alike : like x y) : Resembles like (.after ms x) (.after ms y)
  | never : Resembles like .never .never

/-- Calls go in the second world as they do in the first, up to likeness of the replies, and all else is
the same. -/
structure World.Resembles (like : Likeness) (w w' : World σ) : Prop where
  names : w'.names = w.names
  now : w'.now = w.now
  storeFailure? : w'.storeFailure? = w.storeFailure?
  conduct : ∀ c u, (w.begin c u).1.Resembles (like c) (w'.begin c u).1
  after : ∀ c u, (w'.begin c u).2 = (w.begin c u).2

/-- The same world, which keeps the calls that are made in their order. -/
def World.logging (w : World σ) : World (σ × List Call) where
  names := w.names
  now u := w.now u.1
  begin c u := ((w.begin c u.1).1, (w.begin c u.1).2, u.2 ++ [c])
  storeFailure? c u := ((w.storeFailure? c u.1).1, (w.storeFailure? c u.1).2, u.2)

variable {like : Likeness} {α β ε : Type}

theorem World.Resembles.logging {w w' : World σ} (h : w.Resembles like w') :
    w.logging.Resembles like w'.logging where
  names := h.names
  now := by simp only [World.logging, h.now]
  storeFailure? := by simp only [World.logging, h.storeFailure?]
  conduct c u := h.conduct c u.1
  after c u := by simp only [World.logging, h.after]

theorem Conduct.Resembles.within {like : α → α → Prop} {k k' : Conduct α}
    (h : k.Resembles like k') (deadline? : Option Nat) :
    (k.within deadline?).Resembles (Option.Rel like) (k'.within deadline?) := by
  cases h with
  | after ms alike =>
    cases deadline? with
    | none => exact .after ms (.some alike)
    | some limit =>
      simp only [Conduct.within]
      split
      · exact .after ms (.some alike)
      · exact .after limit .none
  | never =>
    cases deadline? with
    | none => exact .never
    | some limit => exact .after limit .none

/-! ### Programs that do not tell them apart -/

/-- What follows a request is the same for replies that are alike. -/
def Effect.Overlooks (like : Likeness) : (e : Effect) → (e.Reply → β) → Prop
  | store _, _ => True
  | call c _, next => ∀ x y, like c x y → next (some x) = next (some y)

/-- The replies to a request are alike only if they are the same. -/
def Effect.Distinguishes (like : Likeness) : Effect → Prop
  | store _ => True
  | call c _ => ∀ x y, like c x y → x = y

namespace Program

/-- Whatever the replies before it, the rest of the program is the same for replies that are alike. -/
def Overlooks (like : Likeness) : Program Effects α → Prop
  | done _ => True
  | ask r next => Effect.Overlooks like r next ∧ ∀ x, (next x).Overlooks like

theorem Overlooks.pure (a : α) : (pure a : Program Effects α).Overlooks like := trivial

theorem Overlooks.bind {p : Program Effects α} {f : α → Program Effects β} (hp : p.Overlooks like)
    (hf : ∀ a, (f a).Overlooks like) : (p >>= f).Overlooks like := by
  induction p with
  | done a => exact hf a
  | ask r next ih =>
    refine ⟨?_, fun x => ih x (hp.2 x)⟩
    cases r with
    | store c => trivial
    | call c deadline? => exact fun x y alike => congrArg (· >>= f) (hp.1 x y alike)

theorem Overlooks.run_bind {x : ExceptT ε (Program Effects) α}
    {f : α → ExceptT ε (Program Effects) β} (hx : x.run.Overlooks like)
    (hf : ∀ a, (f a).run.Overlooks like) : (x >>= f).run.Overlooks like := by
  rw [ExceptT.run_bind]
  refine hx.bind fun r => ?_
  cases r with
  | ok a => exact hf a
  | error e => exact Overlooks.pure _

theorem Overlooks.run_lift {p : Program Effects α} (hp : p.Overlooks like) :
    (liftM p : ExceptT ε (Program Effects) α).run.Overlooks like :=
  hp.bind fun _ => Overlooks.pure _

theorem Overlooks.run_tryCatch {x : ExceptT ε (Program Effects) α}
    {handle : ε → ExceptT ε (Program Effects) α} (hx : x.run.Overlooks like)
    (hhandle : ∀ e, (handle e).run.Overlooks like) : (tryCatch x handle).run.Overlooks like := by
  refine Overlooks.bind (p := x.run) hx fun r => ?_
  cases r with
  | ok a => exact Overlooks.pure _
  | error e => exact hhandle e

/-- A program overlooks nothing where it asks only for what has no two replies that are alike. -/
theorem Asks.overlooks {p : Program Effects α} (h : p.Asks (Effect.Distinguishes like)) :
    p.Overlooks like := by
  induction p with
  | done a => trivial
  | ask r next ih =>
    refine ⟨?_, fun x => ih x (h.2 x)⟩
    cases r with
    | store c => trivial
    | call c deadline? => exact fun x y alike => by rw [h.1 x y alike]

theorem hereditary_overlooks : Hereditary (Overlooks like) := fun _ _ h => h.2

theorem Leads.overlooks {p q : Program Effects α} {events : List (Event Effects)}
    (h : p.Leads events q) (hp : p.Overlooks like) : q.Overlooks like := by
  induction h with
  | here => exact hp
  | ask x _ ih => exact ih (hp.2 x)

theorem Overlooks.next_eq {c : Call} {deadline? : Option Nat} {next : Option c.Reply → Program Effects α}
    (h : Effect.Overlooks like (.call c deadline?) next) {x y : Option c.Reply}
    (alike : Option.Rel (like c) x y) : next x = next y := by
  cases alike with
  | some alike => exact h _ _ alike
  | none => rfl

end Program

/-! ### Engines -/

namespace Engine

variable {w w' : World σ} {e : Engine σ}

/-! ### Worlds that resemble each other -/

variable (resembles : w.Resembles like w')
include resembles

theorem performStore_eq (e : Engine σ) (c : StoreCall) :
    e.performStore w' c = e.performStore w c := by
  simp only [performStore, resembles.names, resembles.now, resembles.storeFailure?]

/-- A call takes the same time in both worlds, and the replies to it are alike. -/
theorem begin_call_resembles (e : Engine σ) (c : Call) (deadline? : Option Nat) :
    ∃ k k' u, e.begin w (.call c deadline?) = (k, { e with world := u }) ∧
      e.begin w' (.call c deadline?) = (k', { e with world := u }) ∧
      Conduct.Resembles (Option.Rel (like c)) k k' :=
  ⟨_, _, (w.begin c e.world).2, rfl, by rw [begin_call, resembles.after],
    (resembles.conduct c e.world).within deadline?⟩

theorem work_eq {q : Program Effects Unit} (hq : q.Overlooks like) (job : String) (e : Engine σ) :
    e.work w' job q = e.work w job q := by
  induction q generalizing e with
  | done a => rfl
  | ask r next ih =>
    cases r with
    | store c =>
      rw [work, work, begin_store, begin_store, performStore_eq resembles]
      exact ih _ (hq.2 _) _
    | call c deadline? =>
      obtain ⟨k, k', u, first, second, alike⟩ := begin_call_resembles resembles e c deadline?
      rw [work, work, first, second]
      cases alike with
      | never => rfl
      | @after ms x y alike =>
        have same : next x = next y := Program.Overlooks.next_eq hq.1 alike
        cases ms with
        | zero =>
          dsimp only
          rw [same]
          exact ih y (hq.2 y) _
        | succ ms =>
          dsimp only
          rw [same]

theorem foldl_work_eq {runs : List BackgroundRun} (hruns : ∀ r ∈ runs, r.rest.Overlooks like)
    (e : Engine σ) :
    runs.foldl (fun e r => e.work w' r.job r.rest) e =
      runs.foldl (fun e r => e.work w r.job r.rest) e := by
  induction runs generalizing e with
  | nil => rfl
  | cons r runs ih =>
    obtain ⟨first, others⟩ := List.forall_mem_cons.1 hruns
    rw [List.foldl_cons, List.foldl_cons, work_eq resembles first, ih others]

theorem drain_eq (h : e.Holds (Program.Overlooks like)) : e.drain w' = e.drain w :=
  foldl_work_eq resembles h.ready _

theorem pass_eq (h : e.Holds (Program.Overlooks like)) (met : Engine σ → Bool) (goal fuel : Nat) :
    e.pass w' met goal fuel = e.pass w met goal fuel := by
  induction fuel generalizing e with
  | zero => rfl
  | succ fuel ih =>
    rw [pass, pass, drain_eq resembles h]
    split
    · rfl
    · split
      · exact ih ((h.drain Program.hereditary_overlooks w).wakeAt _)
      · rfl

theorem waitFor_eq (h : e.Holds (Program.Overlooks like)) (time limit : Nat) :
    e.waitFor w' time limit = e.waitFor w time limit := by
  rw [waitFor, waitFor, passUntil, passUntil, pass_eq resembles h]

/-- A program that does not tell replies apart that are alike does the same in both worlds, and so does
all else that is at work. -/
theorem run_eq (background : String → Program Effects Unit) (limit : Nat) {p : Program Effects α}
    (hp : p.Overlooks like) (h : e.Holds (Program.Overlooks like)) :
    e.run w' background limit p.lift = e.run w background limit p.lift := by
  induction p generalizing e with
  | done a => rfl
  | ask r next ih =>
    cases r with
    | store c =>
      simp only [Program.lift, Program.rename, run, begin_store, performStore_eq resembles]
      exact ih _ (hp.2 _) (h.performStore w c)
    | call c deadline? =>
      obtain ⟨k, k', u, first, second, alike⟩ := begin_call_resembles resembles e c deadline?
      have h₁ : Holds (Program.Overlooks like) { e with world := u } := h.of_same rfl rfl
      simp only [Program.lift, Program.rename, run, first, second]
      cases alike with
      | never => simp only [waitFor_eq resembles h₁]
      | @after ms x y alike =>
        have same : next x = next y := Program.Overlooks.next_eq hp.1 alike
        cases ms with
        | zero =>
          dsimp only
          rw [same]
          exact ih y (hp.2 y) h₁
        | succ ms =>
          dsimp only
          rw [same, waitFor_eq resembles h₁]
          have h₂ := h₁.pass Program.hereditary_overlooks w (fun _ => false)
            (min (e.clock + ms + 1) limit)
          unfold waitFor passUntil
          cases decide (e.clock + ms + 1 ≤ limit) with
          | true => exact ih y (hp.2 y) (h₂ _)
          | false => rfl

end Engine

end RepoDocs
