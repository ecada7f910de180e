import RepoDocs.Proofs.Process.Alone
import RepoDocs.Proofs.Process.Duo
import RepoDocs.Proofs.Session.Engine

/-! An engine with a program in front and no more than one run in the background.  What it does is a course
of the two in one store, if calls depend on their arguments alone and the store does not fail: when the
program in front waits, it is the turn of the run in the background. -/

namespace RepoDocs

open Duo

/-- Each call goes as it is answered, whenever it is made, and no operation of the store fails. -/
structure World.Answering (w : World σ) (answers : Answers) : Prop where
  call : ∀ c u, (w.begin c u).1 = answers c
  store : ∀ c u, (w.storeFailure? c u).1 = none

namespace Engine

variable {α : Type} {w : World σ} {answers : Answers} {e : Engine σ} {q : Program Effects Unit}

/-- What is left of the run in the background: its turn comes next, it waits, or it has ended. -/
inductive Beside (e : Engine σ) : Program Effects Unit → Prop
  | ready {r : BackgroundRun} (ready : e.ready = [r]) (asleep : e.asleep = []) : Beside e r.rest
  | asleep {p : Sleeper} (ready : e.ready = []) (asleep : e.asleep = [p]) : Beside e p.run.rest
  | ended (ready : e.ready = []) (asleep : e.asleep = []) : Beside e (.done ())

/-- A change of the world, the store or the register leaves what is in the background. -/
theorem Beside.of_same {e' : Engine σ} (beside : e.Beside q) (ready : e'.ready = e.ready)
    (asleep : e'.asleep = e.asleep) : e'.Beside q := by
  cases beside with
  | ready h h' => exact .ready (ready.trans h) (asleep.trans h')
  | asleep h h' => exact .asleep (ready.trans h) (asleep.trans h')
  | ended h h' => exact .ended (ready.trans h) (asleep.trans h')

/-- When nothing is in the background any more, the run that was there has ended. -/
theorem Beside.eq_done (beside : e.Beside q) (alone : e.Alone) : q = .done () := by
  cases beside with
  | ready ready asleep => cases ready.symm.trans alone.ready
  | asleep ready asleep => cases asleep.symm.trans alone.asleep
  | ended ready asleep => rfl

theorem performStore_advances (answering : w.Answering answers) (e : Engine σ) (c : StoreCall)
    (next : Except StoreError c.Reply → Program Effects α) :
    Advances w.names answers (.ask (.store c) next) e.store (next (e.performStore w c).1)
      (e.performStore w c).2.store := by
  have unfailed := answering.store c e.world
  unfold performStore
  split
  · rename_i fails
    rw [fails] at unfailed
    cases unfailed
  · exact .performed _

/-- The run in the background works up to its next wait or its end. -/
theorem work_duo (answering : w.Answering answers) (job : String) (q : Program Effects Unit)
    (p : Program Effects α) (ready : e.ready = []) (asleep : e.asleep = []) :
    ∃ q', (e.work w job q).Beside q' ∧
      Steps w.names answers ⟨e.store, p, q⟩ ⟨(e.work w job q).store, p, q'⟩ := by
  induction q generalizing e with
  | done a => exact ⟨.done (), .ended ready asleep, .refl⟩
  | ask r next ih =>
    cases r with
    | store c =>
      obtain ⟨ready', asleep'⟩ := performStore_frame w c e
      obtain ⟨q', beside, steps⟩ := ih (e.performStore w c).1 (ready'.trans ready)
        (asleep'.trans asleep)
      rw [work, begin_store]
      exact ⟨q', beside, .head (.right (performStore_advances answering e c next)) steps⟩
    | call c deadline? =>
      rw [work, begin_call, answering.call]
      have snoc (p : Sleeper) : e.asleep ++ [p] = [p] := by rw [asleep, List.nil_append]
      cases reply : (answers c).within deadline? with
      | never => exact ⟨_, .asleep ready (snoc _), .refl⟩
      | after ms x =>
        have replied : Step w.names answers ⟨e.store, p, .ask (.call c deadline?) next⟩
            ⟨e.store, p, next x⟩ := .right (.replied reply)
        cases ms with
        | zero =>
          obtain ⟨q', beside, steps⟩ :=
            @ih x { e with world := (w.begin c e.world).2 } ready asleep
          exact ⟨q', beside, .head replied steps⟩
        | succ ms => exact ⟨_, .asleep ready (snoc _), .single replied⟩

namespace Beside

theorem drain (answering : w.Answering answers) (p : Program Effects α) (beside : e.Beside q) :
    ∃ q', (e.drain w).Beside q' ∧
      Steps w.names answers ⟨e.store, p, q⟩ ⟨(e.drain w).store, p, q'⟩ := by
  unfold Engine.drain
  cases beside with
  | ready ready asleep =>
    rw [ready]
    exact work_duo (e := { e with ready := [] }) answering _ _ p rfl asleep
  | asleep ready asleep =>
    rw [ready]
    exact ⟨_, .asleep rfl asleep, .refl⟩
  | ended ready asleep =>
    rw [ready]
    exact ⟨_, .ended rfl asleep, .refl⟩

theorem wakeAt (time : Nat) (beside : e.Beside q) : (e.wakeAt time).Beside q := by
  unfold Engine.wakeAt
  cases beside with
  | ready ready asleep => exact .ready (by simp [ready, asleep]) (by simp [asleep])
  | @asleep p ready asleep =>
    cases due : p.wake?.any (· ≤ time) with
    | true => exact .ready (by simp [ready, asleep, due]) (by simp [asleep, due])
    | false => exact .asleep (by simp [ready, asleep, due]) (by simp [asleep, due])
  | ended ready asleep => exact .ended (by simp [ready, asleep]) (by simp [asleep])

theorem pass (answering : w.Answering answers) (met : Engine σ → Bool) (goal fuel : Nat)
    (p : Program Effects α) (beside : e.Beside q) :
    ∃ q', (e.pass w met goal fuel).2.Beside q' ∧
      Steps w.names answers ⟨e.store, p, q⟩ ⟨(e.pass w met goal fuel).2.store, p, q'⟩ := by
  induction fuel generalizing e q with
  | zero => exact ⟨q, beside, .refl⟩
  | succ fuel ih =>
    obtain ⟨q₁, beside, drained⟩ := beside.drain answering p
    rw [Engine.pass]
    split
    · exact ⟨q₁, beside, drained⟩
    · split
      · rename_i t _
        obtain ⟨q', beside, steps⟩ := ih (beside.wakeAt t)
        exact ⟨q', beside, drained.trans steps⟩
      · exact ⟨q₁, beside.wakeAt goal, drained⟩

theorem waitFor (answering : w.Answering answers) (time limit : Nat) (p : Program Effects α)
    (beside : e.Beside q) :
    ∃ q', (e.waitFor w time limit).2.Beside q' ∧
      Steps w.names answers ⟨e.store, p, q⟩ ⟨(e.waitFor w time limit).2.store, p, q'⟩ :=
  beside.pass answering _ _ _ p

end Beside

/-! ### The program in front -/

/-- Two programs come, in turns, to where an engine has come to: to the result in front, if there is one,
and to what is left in the background. -/
def Arrives (names : Naming) (answers : Answers) (d : Duo α Unit) (r : Option α × Engine σ) : Prop :=
  ∃ p q, r.2.Beside q ∧ Steps names answers d ⟨r.2.store, p, q⟩ ∧ ∀ a, r.1 = some a → p = .done a

variable {names : Naming} {d d' : Duo α Unit} {background : String → Program Effects Unit}
  {limit : Nat} {p : Program Effects α}

theorem Arrives.before {r : Option α × Engine σ} (h : Arrives names answers d' r)
    (steps : Steps names answers d d') : Arrives names answers d r := by
  obtain ⟨p, q, beside, rest, ended⟩ := h
  exact ⟨p, q, beside, steps.trans rest, ended⟩

/-- The program in front goes on after its wait, if the wait ends by `limit`. -/
theorem arrives_goOn
    (h : ∀ {e : Engine σ} {q}, e.Beside q →
      Arrives names answers ⟨e.store, p, q⟩ (e.run w background limit p.lift))
    {passed : Bool × Engine σ} (beside : passed.2.Beside q) :
    Arrives names answers ⟨passed.2.store, p, q⟩
      (match passed with
        | (true, e) => e.run w background limit p.lift
        | (false, e) => (none, e)) := by
  obtain ⟨inTime, e⟩ := passed
  cases inTime with
  | true => exact h beside
  | false => exact ⟨p, q, beside, .refl, by rintro _ ⟨⟩⟩

/-- An engine runs the program in front in turns with the run in the background. -/
theorem Beside.run (answering : w.Answering answers) (background : String → Program Effects Unit)
    (limit : Nat) (p : Program Effects α) (beside : e.Beside q) :
    Arrives w.names answers ⟨e.store, p, q⟩ (e.run w background limit p.lift) := by
  induction p generalizing e q with
  | done a => exact ⟨.done a, q, beside, .refl, by rintro _ ⟨⟩; rfl⟩
  | ask r next ih =>
    cases r with
    | store c =>
      obtain ⟨ready, asleep⟩ := performStore_frame w c e
      have advances := performStore_advances answering e c next
      rw [Program.lift, Program.rename, Engine.run, begin_store]
      exact (ih _ (beside.of_same ready asleep)).before (.single (.left advances))
    | call c deadline? =>
      let e₁ : Engine σ := { e with world := (w.begin c e.world).2 }
      have beside : e₁.Beside q := beside.of_same rfl rfl
      rw [Program.lift, Program.rename, Engine.run, begin_call, answering.call]
      cases reply : (answers c).within deadline? with
      | never =>
        obtain ⟨q', beside, steps⟩ :=
          beside.waitFor answering limit limit (.ask (.call c deadline?) next)
        exact ⟨_, q', beside, steps, by rintro _ ⟨⟩⟩
      | after ms x =>
        have replied : Step w.names answers ⟨e.store, .ask (.call c deadline?) next, q⟩
            ⟨e.store, next x, q⟩ := .left (.replied reply)
        cases ms with
        | zero => exact (ih x beside).before (.single replied)
        | succ ms =>
          obtain ⟨q', beside, waited⟩ :=
            beside.waitFor answering (e.clock + ms + 1) limit (next x)
          exact (arrives_goOn (ih x) beside).before (.head replied waited)

end Engine

end RepoDocs
