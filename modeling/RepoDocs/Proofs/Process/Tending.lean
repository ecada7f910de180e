import RepoDocs.Proofs.Process.Alone
import RepoDocs.Proofs.Process.Passing

/-! An engine with one run in the background, while the program in front only looks on.  What is on record
shows whether the run is at work: one condition holds whenever the run makes a call, and another once it
has ended. -/

namespace RepoDocs

/-- No operation of the store fails or changes the surroundings. -/
def World.Steady (w : World σ) : Prop := ∀ c u, w.storeFailure? c u = (none, u)

/-- What has to hold before each request of a run for `live` to hold at each call, and for the calls to be
as `may` says. -/
def tending (names : Naming) (live : Store → Prop) (may : Call → Prop) : Rule Effects Store
  | .store c, post => fun s => ∀ now, post (s.perform names now c).1 (s.perform names now c).2
  | .call c _, post => fun s => live s ∧ may c ∧ ∀ reply, post reply s

theorem tending_mono (names : Naming) (live : Store → Prop) (may : Call → Prop) :
    (tending names live may).Mono := by
  intro r post post' h s hr
  cases r with
  | store c => exact fun now => h _ _ (hr now)
  | call c deadline? => exact ⟨hr.1, hr.2.1, fun reply => h _ _ (hr.2.2 reply)⟩

/-- A run in the background: what is on record while it is at work and when it is over, the calls that it
makes, and what they keep of the surroundings. -/
structure Charge (σ : Type) where
  job : String
  live : Store → Prop
  closed : Store → Prop
  may : Call → Prop
  kept : σ → Prop

/-- The calls of the run keep what they should. -/
structure World.Bears (w : World σ) (k : Charge σ) : Prop where
  steady : w.Steady
  call : ∀ c u, k.may c → k.kept u → k.kept (w.begin c u).2

namespace Engine

variable {w : World σ} {k : Charge σ} {e : Engine σ}

theorem performStore_of_steady (steady : w.Steady) (e : Engine σ) (c : StoreCall) :
    e.performStore w c =
      ((e.store.perform w.names (w.now e.world) c).1,
        { e with store := (e.store.perform w.names (w.now e.world) c).2 }) := by
  rw [performStore, steady]

/-- The run of the charge has its turn next, or waits, or is over, and nothing else is in the
background. -/
inductive Tended (w : World σ) (k : Charge σ) (e : Engine σ) : Prop
  | ready {q : Program Effects Unit} (ready : e.ready = [⟨k.job, q⟩]) (asleep : e.asleep = [])
      (registered : e.registered = [k.job]) (live : k.live e.store)
      (rest : q.wp (tending w.names k.live k.may) (fun _ => k.closed) e.store) (kept : k.kept e.world)
  | asleep {wake? : Option Nat} {q : Program Effects Unit} (ready : e.ready = [])
      (asleep : e.asleep = [⟨wake?, k.job, q⟩]) (registered : e.registered = [k.job])
      (live : k.live e.store) (rest : q.wp (tending w.names k.live k.may) (fun _ => k.closed) e.store)
      (kept : k.kept e.world)
  | closed (ready : e.ready = []) (asleep : e.asleep = []) (registered : e.registered = [])
      (closed : k.closed e.store) (kept : k.kept e.world)

namespace Tended

theorem kept (h : e.Tended w k) : k.kept e.world := by
  cases h with
  | ready _ _ _ _ _ kept => exact kept
  | asleep _ _ _ _ _ kept => exact kept
  | closed _ _ _ _ kept => exact kept

theorem live_or_closed (h : e.Tended w k) : k.live e.store ∨ k.closed e.store := by
  cases h with
  | ready _ _ _ live => exact .inl live
  | asleep _ _ _ live => exact .inl live
  | closed _ _ _ closed => exact .inr closed

/-- Where no record is of both kinds, a run that is over on record has ended. -/
theorem alone (h : e.Tended w k) (apart : ∀ s, k.live s → ¬k.closed s) (closed : k.closed e.store) :
    e.Alone ∧ e.registered = [] := by
  cases h with
  | ready _ _ _ live => exact absurd closed (apart _ live)
  | asleep _ _ _ live => exact absurd closed (apart _ live)
  | closed ready asleep registered => exact ⟨⟨ready, asleep⟩, registered⟩

variable (bears : w.Bears k)
include bears

theorem work {q : Program Effects Unit} (ready : e.ready = []) (asleep : e.asleep = [])
    (registered : e.registered = [k.job]) (kept : k.kept e.world)
    (h : q.wp (tending w.names k.live k.may) (fun _ => k.closed) e.store) :
    (e.work w k.job q).Tended w k := by
  induction q generalizing e with
  | done a =>
    have erased : e.registered.erase k.job = [] := by simp [registered]
    exact .closed ready asleep erased h kept
  | ask r next ih =>
    cases r with
    | store c =>
      rw [Engine.work, begin_store, performStore_of_steady bears.steady]
      exact ih _ ready asleep registered kept (h (w.now e.world))
    | call c deadline? =>
      obtain ⟨live, may, later⟩ := h
      have kept' := bears.call c e.world may kept
      have snoc (p : Sleeper) : e.asleep ++ [p] = [p] := by rw [asleep, List.nil_append]
      rw [Engine.work, begin_call]
      cases (w.begin c e.world).1.within deadline? with
      | never => exact .asleep ready (snoc _) registered live ⟨live, may, later⟩ kept'
      | after ms x =>
        cases ms with
        | zero => exact ih x ready asleep registered kept' (later x)
        | succ ms => exact .asleep ready (snoc _) registered live (later x) kept'

theorem drain (h : e.Tended w k) : (e.drain w).Tended w k := by
  unfold Engine.drain
  cases h with
  | ready ready asleep registered live rest kept =>
    rw [ready]
    exact work (e := { e with ready := [] }) bears rfl asleep registered kept rest
  | asleep ready asleep registered live rest kept =>
    rw [ready]
    exact .asleep rfl asleep registered live rest kept
  | closed ready asleep registered closed kept =>
    rw [ready]
    exact .closed rfl asleep registered closed kept

omit bears in
theorem wakeAt (h : e.Tended w k) (time : Nat) : (e.wakeAt time).Tended w k := by
  unfold Engine.wakeAt
  cases h with
  | ready ready asleep registered live rest kept =>
    exact .ready (by simp [ready, asleep]) (by simp [asleep]) registered live rest kept
  | @asleep wake? q ready asleep registered live rest kept =>
    cases due : wake?.any (· ≤ time) with
    | true =>
      exact .ready (by simp [ready, asleep, due]) (by simp [asleep, due]) registered live rest kept
    | false =>
      have still : e.asleep.filter (fun p => !p.wake?.any (· ≤ time)) = [⟨wake?, k.job, q⟩] := by
        simp [asleep, due]
      exact .asleep (by simp [ready, asleep, due]) still registered live rest kept
  | closed ready asleep registered closed kept =>
    exact .closed (by simp [ready, asleep]) (by simp [asleep]) registered closed kept

theorem pass (h : e.Tended w k) (met : Engine σ → Bool) (goal fuel : Nat) :
    (e.pass w met goal fuel).2.Tended w k :=
  pass_keeps (fun h => h.drain bears) (fun time h => h.wakeAt time) h met goal fuel

end Tended

/-- Where nothing is in the background, only the clock goes on. -/
theorem Alone.passUntil (alone : e.Alone) (goal : Nat) :
    (e.passUntil w (fun _ => false) goal).2 = { e with clock := goal } := by
  obtain ⟨world, store, clock, registered, ready, asleep⟩ := e
  obtain ⟨rfl, rfl⟩ := alone
  simp [Engine.passUntil, Engine.pass, Engine.drain, nextWake?, Engine.wakeAt]

/-- How a run in front stands: it has ended as it should, or it waits for a call. -/
structure Stands {α : Type} (k : Charge σ) (post : α → Store → Prop) (x : Option α × Engine σ) :
    Prop where
  kept : k.kept x.2.world
  ended : ∀ a, x.1 = some a → post a x.2.store
  waits : x.1 = none → k.live x.2.store

theorem Stands.done {α : Type} {post : α → Store → Prop} {a : α} (kept : k.kept e.world)
    (h : post a e.store) : Stands k post (some a, e) where
  kept
  ended := by rintro _ ⟨⟩; exact h
  waits missing := absurd missing (Option.some_ne_none a)

theorem Stands.waiting {α : Type} {post : α → Store → Prop} (kept : k.kept e.world)
    (live : k.live e.store) : Stands k post (none, e) where
  kept
  ended a ends := absurd ends.symm (Option.some_ne_none a)
  waits _ := live

/-- A run in front that nothing in the background disturbs. -/
theorem Alone.stands {α : Type} {post : α → Store → Prop} (alone : e.Alone) (bears : w.Bears k)
    (background : String → Program Effects Unit) (limit : Nat) {p : Program Effects α}
    (kept : k.kept e.world) (h : p.wp (tending w.names k.live k.may) post e.store) :
    Stands k post (e.run w background limit p.lift) := by
  induction p generalizing e with
  | done a => exact .done kept h
  | ask r next ih =>
    cases r with
    | store c =>
      rw [Program.lift, Program.rename, run, begin_store, performStore_of_steady bears.steady]
      exact ih _ (alone.at _ _ _) kept (h (w.now e.world))
    | call c deadline? =>
      obtain ⟨live, may, later⟩ := h
      have kept' := bears.call c e.world may kept
      have alone' := alone.at (w.begin c e.world).2 e.store e.clock
      rw [Program.lift, Program.rename, run, begin_call]
      cases (w.begin c e.world).1.within deadline? with
      | never =>
        dsimp only
        rw [alone'.waitFor_eq]
        exact .waiting kept' live
      | after ms x =>
        cases ms with
        | zero => exact ih x alone' kept' (later x)
        | succ ms =>
          dsimp only
          rw [alone'.waitFor_eq]
          cases decide (e.clock + ms + 1 ≤ limit) with
          | true => exact ih x (alone'.at _ _ _) kept' (later x)
          | false => exact .waiting kept' live

end Engine

end RepoDocs
