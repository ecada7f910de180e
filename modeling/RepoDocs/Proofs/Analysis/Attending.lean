import RepoDocs.Proofs.Analysis.Polling
import RepoDocs.Proofs.Process.Tending

/-! Watches on the job of the only run in the background, in an engine whose store does not fail.  A watch
ends with the job at its end or when the reads are used up; and once the run is over, it ends within an
interval, with nothing on record changed. -/

namespace RepoDocs

open Analysis

theorem World.Steady.sound {w : World σ} (h : w.Steady) : w.Sound := fun c u => by rw [h c u]

/-- The current job of a repository shows whether the run is at work. -/
structure Charge.ShownBy (k : Charge σ) (repositoryId : String) : Prop where
  live : ∀ s, k.live s → ∃ j, s.currentJob? repositoryId = some j ∧ j.isTerminal = false
  closed : ∀ s, k.closed s → ∃ j, s.currentJob? repositoryId = some j ∧ j.isTerminal = true

theorem Charge.ShownBy.apart {k : Charge σ} {repositoryId : String} (shown : k.ShownBy repositoryId)
    (s : Store) (live : k.live s) : ¬k.closed s := by
  intro closed
  obtain ⟨j, current, isLive⟩ := shown.live s live
  obtain ⟨j', current', terminal⟩ := shown.closed s closed
  rw [current] at current'
  cases current'
  rw [isLive] at terminal
  cases terminal

namespace Engine

variable {w : World σ} {k : Charge σ} {e : Engine σ} {repositoryId : String}
  {background : String → Program Effects Unit} {interval : Nat}
  (bears : w.Bears k) (shown : k.ShownBy repositoryId) (positive : 0 < interval)

include bears in
theorem Tended.reread (h : e.Tended w k) (repositoryId : String) (interval : Nat) :
    (e.reread w repositoryId interval).Tended w k := by
  rw [Engine.reread, performStore_of_steady bears.steady]
  exact h.pass bears _ _ _

include bears shown

/-- Where the run is over before the next reading, that one finds what is on record then. -/
theorem Tended.store_reread (h : e.Tended w k) (timely : e.Timely) {time : Nat} (ahead : e.clock ≤ time)
    (before : time < e.clock + interval)
    (closed : k.closed (e.passUntil w (fun _ => false) time).2.store) :
    (e.reread w repositoryId interval).store = (e.passUntil w (fun _ => false) time).2.store := by
  have ended := (h.pass bears (fun _ => false) time (time - e.clock + 1)).alone shown.apart closed
  have only := ended.1.passUntil (w := w) (e.clock + interval)
  have parts := passUntil_passUntil (w := w) timely ahead before
  rw [Engine.reread, performStore_of_steady bears.steady]
  exact (congrArg (·.2.store) parts.symm).trans (congrArg Engine.store only)

include positive

/-- A watch ends with the job at its end, unless the time or the reads are used up. -/
theorem Tended.run_watch (h : e.Tended w k) {limit reads : Nat} {last? : Option Job}
    {r : Option (List Job × Sighting)} {e' : Engine σ}
    (ran : e.run w background limit (watch repositoryId interval reads last?) = (r, e')) :
    e'.Tended w k ∧ ∀ jobs sighting, r = some (jobs, sighting) →
      (∃ j, sighting = .ended j ∧ k.closed e'.store) ∨ reads * interval ≤ limit - e.clock := by
  induction reads generalizing e last? r with
  | zero =>
    cases ran
    exact ⟨h, fun _ _ _ => .inr (by omega)⟩
  | succ reads ih =>
    rcases h.live_or_closed with live | closed
    · obtain ⟨j, current, isLive⟩ := shown.live _ live
      rw [run_watch_of_live bears.steady.sound current isLive positive] at ran
      split at ran
      · next inTime =>
        have clock := clock_reread (w := w) e repositoryId interval
        split at ran
        · next later sighting' e₁ rest =>
          cases ran
          obtain ⟨tended, ends⟩ := ih (h.reread bears repositoryId interval) rest
          refine ⟨tended, ?_⟩
          rintro _ _ ⟨⟩
          rcases ends later sighting' rfl with ended | enough
          · exact .inl ended
          · rw [clock] at enough
            rw [Nat.succ_mul]
            exact .inr (by omega)
        · next e₁ rest =>
          cases ran
          exact ⟨(ih (h.reread bears repositoryId interval) rest).1, nofun⟩
      · cases ran
        rw [performStore_of_steady bears.steady]
        exact ⟨h.pass bears _ _ _, nofun⟩
    · obtain ⟨j, current, terminal⟩ := shown.closed _ closed
      rw [run_watch_of_ended bears.steady.sound current terminal,
        performStore_of_steady bears.steady] at ran
      cases ran
      refine ⟨h, ?_⟩
      rintro _ _ ⟨⟩
      exact .inl ⟨j, rfl, closed⟩

/-- Where the run is over at one time, a watch that has an interval more comes to its end, and nothing on
record has changed. -/
theorem Tended.run_watch_ends (h : e.Tended w k) (timely : e.Timely) {time limit reads reads' : Nat}
    {last? : Option Job} (ahead : e.clock ≤ time)
    (closed : k.closed (e.run w background time (watch repositoryId interval reads last?)).2.store)
    (enough : time - e.clock < reads * interval)
    (enough' : time - e.clock + interval < reads' * interval) (inTime : time + interval ≤ limit) :
    ∃ jobs j e', e.run w background limit (watch repositoryId interval reads' last?) =
        (some (jobs, .ended j), e') ∧
      e'.store = (e.run w background time (watch repositoryId interval reads last?)).2.store := by
  induction reads generalizing e reads' last? with
  | zero => omega
  | succ reads ih =>
    have some_left {n m : Nat} (h : m < n * interval) : 0 < n := by
      refine Nat.pos_of_ne_zero ?_
      rintro rfl
      omega
    obtain ⟨reads', rfl⟩ := Nat.exists_eq_add_one.2 (some_left enough')
    rcases h.live_or_closed with live | closed₀
    · obtain ⟨j, current, isLive⟩ := shown.live _ live
      rw [run_watch_of_live bears.steady.sound current isLive positive] at closed ⊢
      rw [run_watch_of_live bears.steady.sound current isLive positive, if_pos (by omega)]
      have clock := clock_reread (w := w) e repositoryId interval
      have tended := h.reread bears repositoryId interval
      have timely' : (e.reread w repositoryId interval).Timely := by
        rw [Engine.reread, performStore_of_steady bears.steady]
        exact timely.pass w _ _ _
      rw [Nat.succ_mul] at enough enough'
      by_cases again : e.clock + interval ≤ time
      · rw [if_pos again] at closed ⊢
        have rest := @ih _ tended timely' reads' (some j) (by omega)
        generalize (e.reread w repositoryId interval).run w background time
          (watch repositoryId interval reads (some j)) = early at closed rest ⊢
        obtain ⟨_ | ⟨later, sighting⟩, e₁⟩ := early
        all_goals
          obtain ⟨jobs, j', e', ran, store⟩ := rest closed (by omega) (by omega)
          rw [ran]
          exact ⟨_, j', e', rfl, store⟩
      · rw [if_neg again] at closed ⊢
        rw [performStore_of_steady bears.steady] at closed ⊢
        have still : (e.reread w repositoryId interval).store =
            (e.passUntil w (fun _ => false) time).2.store :=
          h.store_reread bears shown timely ahead (Nat.lt_of_not_le again) closed
        obtain ⟨reads', rfl⟩ := Nat.exists_eq_add_one.2 <|
          some_left (n := reads') (m := time - e.clock) (by omega)
        obtain ⟨j', current', terminal⟩ := shown.closed _ closed
        have next : (e.reread w repositoryId interval).store.currentJob? repositoryId = some j' := by
          rw [still]
          exact current'
        rw [run_watch_of_ended bears.steady.sound next terminal,
          performStore_of_steady bears.steady]
        exact ⟨_, j', _, rfl, still⟩
    · obtain ⟨j, current, terminal⟩ := shown.closed _ closed₀
      rw [run_watch_of_ended bears.steady.sound current terminal,
        run_watch_of_ended bears.steady.sound current terminal]
      exact ⟨_, j, _, rfl, rfl⟩

end Engine

end RepoDocs
