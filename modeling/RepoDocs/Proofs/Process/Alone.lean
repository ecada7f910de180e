import RepoDocs.Process.Engine
import RepoDocs.Proofs.Process.Weakest

/-! A program that works alone: no background run is under way while it waits.  Where each of its calls
is replied to and the store does not fail it, what has to hold before it says how it ends and which
calls it has made by then. -/

namespace RepoDocs

/-- Each call comes back with its reply, after any time, and no operation of the store fails.  The
calls that were made are kept in their order. -/
structure World.Replies (w : World σ) (reply : (c : Call) → c.Reply) (calls : σ → List Call) :
    Prop where
  call : ∀ c u, ∃ ms u', w.begin c u = (.after ms (reply c), u') ∧ calls u' = calls u ++ [c]
  store : ∀ c u, ∃ u', w.storeFailure? c u = (none, u') ∧ calls u' = calls u

/-- What has to hold before a request where calls are replied to and none has a deadline.  It is any
time of the calendar. -/
def replying (names : Naming) (reply : (c : Call) → c.Reply) : Rule Effects (Store × List Call)
  | .store c, post => fun (s, calls) =>
    ∀ now, post (s.perform names now c).1 ((s.perform names now c).2, calls)
  | .call c none, post => fun (s, calls) => post (some (reply c)) (s, calls ++ [c])
  | .call _ (some _), _ => fun _ => False

theorem replying_mono (names : Naming) (reply : (c : Call) → c.Reply) :
    (replying names reply).Mono := by
  intro r post post' h t hr
  cases r with
  | store c => exact fun now => h _ _ (hr now)
  | call c deadline? =>
    cases deadline? with
    | none => exact h _ _ hr
    | some limit => exact hr.elim

namespace Engine

variable {w : World σ} {reply : (c : Call) → c.Reply} {calls : σ → List Call}

/-- No background run is under way. -/
structure Alone (s : Engine σ) : Prop where
  ready : s.ready = []
  asleep : s.asleep = []

/-- Nothing happens while time goes by. -/
theorem Alone.waitFor {s : Engine σ} (alone : s.Alone) {time limit : Nat} (h : time ≤ limit) :
    s.waitFor w time limit = (true, { s with clock := time }) := by
  obtain ⟨world, store, clock, registered, ready, asleep⟩ := s
  obtain ⟨rfl, rfl⟩ := alone
  simp [Engine.waitFor, passUntil, pass, drain, nextWake?, wakeAt, h]

theorem Alone.at {s : Engine σ} (alone : s.Alone) (world : σ) (store : Store) (clock : Nat) :
    Alone { s with world, store, clock } :=
  ⟨alone.ready, alone.asleep⟩

/-- The program comes to its end when it is given enough time, and ends as the rule says. -/
theorem exists_run (replies : w.Replies reply calls)
    (background : String → Program Effects Unit) {post : α → Store × List Call → Prop}
    (p : Program Effects α) {s : Engine σ} (alone : s.Alone)
    (h : p.wp (replying w.names reply) post (s.store, calls s.world)) :
    ∃ bound a s', (∀ limit ≥ bound, s.run w background limit p.lift = (some a, s')) ∧
      post a (s'.store, calls s'.world) ∧ s'.Alone ∧ s'.registered = s.registered := by
  induction p generalizing s with
  | done a => exact ⟨0, a, s, fun _ _ => rfl, h, alone, rfl⟩
  | ask e next ih =>
    cases e with
    | store c =>
      obtain ⟨u, hu, hcalls⟩ := replies.store c s.world
      have performed : s.begin w (.store c) =
          (.after 0 (s.store.perform w.names (w.now u) c).1,
            { s with world := u, store := (s.store.perform w.names (w.now u) c).2 }) := by
        simp only [Engine.begin, performStore, hu]
      obtain ⟨bound, a, s', ended, rest⟩ := ih _ (alone.at u _ s.clock) (hcalls ▸ h (w.now u))
      refine ⟨bound, a, s', fun limit hlimit => ?_, rest⟩
      rw [Program.lift, Program.rename, run, performed]
      exact ended limit hlimit
    | call c deadline? =>
      cases deadline? with
      | some limit => exact h.elim
      | none =>
        obtain ⟨ms, u, hu, hcalls⟩ := replies.call c s.world
        have begun : s.begin w (.call c none) =
            (.after ms (some (reply c)), { s with world := u }) := by
          simp only [Engine.begin, hu, Conduct.within]
        have h : (next _).wp (replying w.names reply) post (s.store, calls s.world ++ [c]) := h
        rw [← hcalls] at h
        obtain ⟨bound, a, s', ended, rest⟩ := ih _ (alone.at u s.store (s.clock + ms)) h
        refine ⟨max bound (s.clock + ms), a, s', fun limit hlimit => ?_, rest⟩
        obtain ⟨hbound, intime⟩ := Nat.max_le.1 hlimit
        have ended := ended limit hbound
        rw [Program.lift, Program.rename, run, begun]
        cases ms with
        | zero => exact ended
        | succ ms =>
          dsimp only
          rw [Nat.add_assoc, (alone.at u s.store s.clock).waitFor intime]
          exact ended

end Engine

end RepoDocs
