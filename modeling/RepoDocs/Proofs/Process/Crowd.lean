import RepoDocs.Proofs.Process.Course
import RepoDocs.Proofs.Session.Engine

/-! A program in front of an engine, beside any number of runs in the background.  What it does is a
course: the world gives the replies, and whenever the program waits, the runs in the background may
carry out operations of the store.  Where each call comes back, the program comes to its end when it is
given enough time. -/

namespace RepoDocs

/-- The circumstances of the program in front. -/
def World.circumstances (w : World σ) : Circumstances where
  names := w.names
  fails c e := ∃ u, (w.storeFailure? c u).1 = some e
  replies c deadline? x := ∃ u ms, (w.begin c u).1.within deadline? = .after ms x
  others s s' := ∃ now c, s' = (s.perform w.names now c).2

namespace Engine

variable {α : Type} (w : World σ) (e : Engine σ)

/-! ### The runs in the background -/

theorem performStore_others (c : StoreCall) :
    w.circumstances.Others e.store (e.performStore w c).2.store := by
  unfold performStore
  split
  · exact .refl
  · exact .single ⟨_, c, rfl⟩

theorem work_others (job : String) (q : Program Effects Unit) :
    w.circumstances.Others e.store (e.work w job q).store := by
  induction q generalizing e with
  | done a => exact .refl
  | ask r next ih =>
    cases r with
    | store c =>
      rw [work, begin_store]
      exact (performStore_others w e c).trans (ih _ _)
    | call c deadline? =>
      rw [work, begin_call]
      cases (w.begin c e.world).1.within deadline? with
      | never => exact .refl
      | after ms x =>
        cases ms with
        | zero => exact ih x { e with world := (w.begin c e.world).2 }
        | succ ms => exact .refl

theorem foldl_work_others (runs : List BackgroundRun) :
    w.circumstances.Others e.store
      (runs.foldl (fun e r => e.work w r.job r.rest) e).store := by
  induction runs generalizing e with
  | nil => exact .refl
  | cons r runs ih => exact (work_others w e r.job r.rest).trans (ih _)

theorem pass_others (met : Engine σ → Bool) (goal fuel : Nat) :
    w.circumstances.Others e.store (e.pass w met goal fuel).2.store := by
  induction fuel generalizing e with
  | zero => exact .refl
  | succ fuel ih =>
    have drained : w.circumstances.Others e.store (e.drain w).store :=
      foldl_work_others w { e with ready := [] } e.ready
    rw [pass]
    split
    · exact drained
    · split
      · rename_i t _
        exact drained.trans (ih ((e.drain w).wakeAt t))
      · exact drained

theorem waitFor_others (time limit : Nat) :
    w.circumstances.Others e.store (e.waitFor w time limit).2.store :=
  pass_others w e _ _ _

/-! ### The program in front -/

variable (background : String → Program Effects Unit) (limit : Nat)

/-- What an engine makes of a program in front is a course of the program, to its end if the engine has
a result. -/
def Courses (p : Program Effects α) (s : Store) (r : Option α × Engine σ) : Prop :=
  ∃ events p', p.Leads events p' ∧ w.circumstances.Along s events r.2.store ∧
    ∀ a, r.1 = some a → p' = .done a

variable {w e} {s s₁ : Store} {r : Option α × Engine σ}

theorem Courses.of_others {p : Program Effects α} (others : w.circumstances.Others s s₁)
    (h : Courses w p s₁ r) : Courses w p s r := by
  obtain ⟨events, p', leads, along, ended⟩ := h
  exact ⟨events, p', leads, .of_others others along, ended⟩

theorem Courses.ask {q : Effect} {next : q.Reply → Program Effects α} (x : q.Reply)
    (along : w.circumstances.Along s [⟨q, x⟩] s₁) (h : Courses w (next x) s₁ r) :
    Courses w (.ask q next) s r := by
  obtain ⟨events, p', leads, later, ended⟩ := h
  exact ⟨⟨q, x⟩ :: events, p', .ask (S := Effects) x leads, along.append later, ended⟩

theorem performStore_along (w : World σ) (e : Engine σ) (c : StoreCall) :
    w.circumstances.Along e.store [⟨.store c, (e.performStore w c).1⟩]
      (e.performStore w c).2.store := by
  unfold performStore
  split
  · rename_i failure _ fails
    exact .failed ⟨e.world, by rw [fails]⟩ .rest
  · exact .performed _ .rest

theorem run_courses (w : World σ) (p : Program Effects α) (e : Engine σ) :
    Courses w p e.store (e.run w background limit p.lift) := by
  induction p generalizing e with
  | done a => exact ⟨[], .done a, .here, .rest, by rintro _ ⟨⟩; rfl⟩
  | ask r next ih =>
    cases r with
    | store c =>
      rw [Program.lift, Program.rename, run, begin_store]
      exact .ask _ (performStore_along w e c) (ih _ _)
    | call c deadline? =>
      rw [Program.lift, Program.rename, run, begin_call]
      cases reply : (w.begin c e.world).1.within deadline? with
      | never =>
        have waited := waitFor_others w { e with world := (w.begin c e.world).2 } limit limit
        exact ⟨[], _, .here, .of_others waited .rest, by rintro _ ⟨⟩⟩
      | after ms x =>
        have replied {s} : w.circumstances.Along s [⟨.call c deadline?, x⟩] s :=
          .replied ⟨e.world, ms, reply⟩ .rest
        cases ms with
        | zero => exact .ask x replied (ih x { e with world := (w.begin c e.world).2 })
        | succ ms =>
          have waited := waitFor_others w { e with world := (w.begin c e.world).2 }
            (e.clock + ms + 1) limit
          dsimp only
          revert waited
          generalize Engine.waitFor w (e.clock + ms + 1) limit _ = passed
          obtain ⟨inTime, e'⟩ := passed
          intro waited
          cases inTime with
          | true => exact .of_others waited (.ask x replied (ih x e'))
          | false => exact ⟨[], _, .here, .of_others waited .rest, by rintro _ ⟨⟩⟩

/-- Where each call comes back, the program has the same end whatever time it is given, if that is
enough. -/
theorem exists_run_ends (w : World σ)
    (timely : ∀ c deadline? u, ∃ ms x, (w.begin c u).1.within deadline? = .after ms x)
    (p : Program Effects α) (e : Engine σ) :
    ∃ bound a e', ∀ limit ≥ bound, e.run w background limit p.lift = (some a, e') := by
  induction p generalizing e with
  | done a => exact ⟨0, a, e, fun _ _ => rfl⟩
  | ask r next ih =>
    cases r with
    | store c =>
      obtain ⟨bound, a, e', ended⟩ := ih (e.performStore w c).1 (e.performStore w c).2
      exact ⟨bound, a, e', ended⟩
    | call c deadline? =>
      obtain ⟨ms, x, reply⟩ := timely c deadline? e.world
      let e₁ : Engine σ := { e with world := (w.begin c e.world).2 }
      cases ms with
      | zero =>
        obtain ⟨bound, a, e', ended⟩ := ih x e₁
        refine ⟨bound, a, e', fun limit hlimit => ?_⟩
        rw [Program.lift, Program.rename, run, begin_call, reply]
        exact ended limit hlimit
      | succ ms =>
        let time := e.clock + ms + 1
        obtain ⟨bound, a, e', ended⟩ := ih x (e₁.passUntil w (fun _ => false) time).2
        refine ⟨max bound time, a, e', fun limit hlimit => ?_⟩
        obtain ⟨hbound, intime⟩ := Nat.max_le.1 hlimit
        have waited : e₁.waitFor w time limit = (true, (e₁.passUntil w (fun _ => false) time).2) := by
          rw [waitFor, Nat.min_eq_left intime, decide_eq_true intime]
        rw [Program.lift, Program.rename, run, begin_call, reply]
        dsimp only
        rw [waited]
        exact ended limit hbound

end Engine

end RepoDocs
