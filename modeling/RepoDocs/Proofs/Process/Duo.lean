import Mathlib.Logic.Relation
import RepoDocs.Process.Conduct
import RepoDocs.Process.Effect

/-! Two programs at work in one store.  Either of them may make its next request at any time.  What calls
come to depends on their arguments alone, and the store does not fail.  A program stops when it is done
or when it waits for a reply that never comes.  What one of the two does is a course of its own, in which
the other one may change the store before each request. -/

namespace RepoDocs

/-- How each call goes, whenever and by whom it is made. -/
abbrev Answers := (c : Call) → Conduct c.Reply

variable {α β : Type} {names : Naming} {answers : Answers}

/-- A program makes its next request and goes on with the reply. -/
inductive Advances (names : Naming) (answers : Answers) :
    Program Effects α → Store → Program Effects α → Store → Prop
  | performed {c : StoreCall} {next} {s : Store} (now : Instant) :
      Advances names answers (.ask (.store c) next) s (next (s.perform names now c).1)
        (s.perform names now c).2
  | replied {c : Call} {deadline? : Option Nat} {next} {s : Store} {ms : Nat} {x : Option c.Reply}
      (reply : (answers c).within deadline? = .after ms x) :
      Advances names answers (.ask (.call c deadline?) next) s (next x) s

/-- A program goes no further: it has come to a result, or to a call that is never replied to. -/
inductive Stops (answers : Answers) : Program Effects α → Option α → Prop
  | done {a : α} : Stops answers (.done a) (some a)
  | never {c : Call} {deadline? : Option Nat} {next}
      (reply : (answers c).within deadline? = .never) :
      Stops answers (.ask (.call c deadline?) next) none

/-- Two programs in one store. -/
structure Duo (α β : Type) where
  store : Store
  left : Program Effects α
  right : Program Effects β

namespace Duo

/-- One of the two programs makes its next request. -/
inductive Step (names : Naming) (answers : Answers) (d : Duo α β) : Duo α β → Prop
  | left {p : Program Effects α} {s : Store} (step : Advances names answers d.left d.store p s) :
      Step names answers d ⟨s, p, d.right⟩
  | right {p : Program Effects β} {s : Store} (step : Advances names answers d.right d.store p s) :
      Step names answers d ⟨s, d.left, p⟩

/-- The two programs take turns. -/
abbrev Steps (names : Naming) (answers : Answers) : Duo α β → Duo α β → Prop :=
  Relation.ReflTransGen (Step names answers)

/-- The same programs with their places changed. -/
def swap (d : Duo α β) : Duo β α := ⟨d.store, d.right, d.left⟩

theorem Step.swap {d d' : Duo α β} (h : Step names answers d d') :
    Step names answers d.swap d'.swap := by
  cases h with
  | left step => exact .right step
  | right step => exact .left step

theorem Steps.swap {d d' : Duo α β} (h : Steps names answers d d') :
    Steps names answers d.swap d'.swap :=
  h.lift Duo.swap fun _ _ => Step.swap

theorem exists_left_stopped (names : Naming) (answers : Answers) (p : Program Effects α)
    (q : Program Effects β) (s : Store) :
    ∃ p' s' r, Steps names answers ⟨s, p, q⟩ ⟨s', p', q⟩ ∧ Stops answers p' r := by
  induction p generalizing s with
  | done a => exact ⟨.done a, s, some a, .refl, .done⟩
  | ask r next ih =>
    cases r with
    | store c =>
      obtain ⟨p', s', r, steps, stops⟩ := ih _ (s.perform names ⟨0, 0⟩ c).2
      exact ⟨p', s', r, .head (.left (.performed ⟨0, 0⟩)) steps, stops⟩
    | call c deadline? =>
      cases reply : (answers c).within deadline? with
      | after ms x =>
        obtain ⟨p', s', r, steps, stops⟩ := ih x s
        exact ⟨p', s', r, .head (.left (.replied reply)) steps, stops⟩
      | never => exact ⟨_, s, none, .refl, .never reply⟩

/-- Wherever the two programs are, they can go on until both stop. -/
theorem exists_stopped (d : Duo α β) (names : Naming) (answers : Answers) :
    ∃ d' r r', Steps names answers d d' ∧ Stops answers d'.left r ∧ Stops answers d'.right r' := by
  obtain ⟨s, p, q⟩ := d
  obtain ⟨p', s₁, r, first, left⟩ := exists_left_stopped names answers p q s
  obtain ⟨q', s', r', second, right⟩ := exists_left_stopped names answers q p' s₁
  exact ⟨⟨s', p', q'⟩, r, r', first.trans second.swap, left, right⟩

end Duo

/-! ### The course of one program -/

/-- A program comes to a stop, while others may change the store before each of its requests and
afterwards. -/
inductive Goes (names : Naming) (answers : Answers) (others : Store → Store → Prop) :
    Program Effects α → Store → Option α → Store → Prop
  | stops {p : Program Effects α} {r : Option α} {s s' : Store} (meanwhile : others s s')
      (stops : Stops answers p r) : Goes names answers others p s r s'
  | advances {p p' : Program Effects α} {r : Option α} {s s₁ s₂ s' : Store}
      (meanwhile : others s s₁) (step : Advances names answers p s₁ p' s₂)
      (rest : Goes names answers others p' s₂ r s') : Goes names answers others p s r s'

/-- What others do before a program begins belongs to its course. -/
theorem Goes.before {others : Store → Store → Prop}
    (trans : ∀ s₁ s₂ s₃, others s₁ s₂ → others s₂ s₃ → others s₁ s₃) {p : Program Effects α}
    {r : Option α} {s s₁ s' : Store} (meanwhile : others s s₁)
    (h : Goes names answers others p s₁ r s') : Goes names answers others p s r s' := by
  cases h with
  | stops later stops => exact .stops (trans _ _ _ meanwhile later) stops
  | advances later step rest => exact .advances (trans _ _ _ meanwhile later) step rest

/-- A program that has stopped does not advance. -/
theorem Stops.not_advances {p p' : Program Effects α} {r : Option α} {s s' : Store}
    (h : Stops answers p r) : ¬Advances names answers p s p' s' := by
  intro step
  cases h with
  | done => cases step
  | never never =>
    cases step with
    | replied reply => cases never.symm.trans reply

/-! ### One program alone -/

/-- How a request goes that is made by a program alone.  Operations of the store are counted, for the
time of each. -/
def soleConduct (names : Naming) (clock : Nat → Instant) (answers : Answers) :
    (r : Effect) → Store × Nat → Conduct r.Reply × (Store × Nat)
  | .store c, (s, n) =>
    (.after 0 (s.perform names (clock n) c).1, ((s.perform names (clock n) c).2, n + 1))
  | .call c deadline?, t => ((answers c).within deadline?, t)

/-- What a conduct comes to, if it comes to an end. -/
def Conduct.result? : Conduct α → Option α
  | after _ a => some a
  | never => none

/-- The result of a program that is executed alone, if it comes to one, and the store after it. -/
def Program.alone (names : Naming) (clock : Nat → Instant) (answers : Answers)
    (p : Program Effects α) (s : Store) (n : Nat) : Option α × Store :=
  let (conduct, s, _) := p.conduct (soleConduct names clock answers) (s, n)
  (conduct.result?, s)

section Alone

variable {clock : Nat → Instant} {s : Store} {n : Nat}

theorem alone_store (c : StoreCall) (next : Except StoreError c.Reply → Program Effects α) :
    (Program.ask (S := Effects) (.store c) next).alone names clock answers s n =
      (next (s.perform names (clock n) c).1).alone names clock answers
        (s.perform names (clock n) c).2 (n + 1) := by
  simp only [Program.alone, Program.conduct, soleConduct]
  generalize Program.conduct _ _ _ = conduct
  obtain ⟨_ | _, s, n⟩ := conduct <;> rfl

theorem alone_call (c : Call) (deadline? : Option Nat)
    (next : Option c.Reply → Program Effects α) :
    (Program.ask (S := Effects) (.call c deadline?) next).alone names clock answers s n =
      match (answers c).within deadline? with
      | .after _ x => (next x).alone names clock answers s n
      | .never => (none, s) := by
  simp only [Program.alone, Program.conduct, soleConduct]
  cases (answers c).within deadline? with
  | never => rfl
  | after ms x =>
    dsimp only
    generalize Program.conduct _ _ _ = conduct
    obtain ⟨_ | _, s, n⟩ := conduct <;> rfl

end Alone

/-- A program that is executed alone comes to a stop. -/
theorem goes_alone (names : Naming) (clock : Nat → Instant) (answers : Answers)
    (p : Program Effects α) (s : Store) (n : Nat) :
    Goes names answers Eq p s (p.alone names clock answers s n).1
      (p.alone names clock answers s n).2 := by
  induction p generalizing s n with
  | done a => exact .stops rfl .done
  | ask r next ih =>
    cases r with
    | store c =>
      rw [alone_store]
      exact .advances rfl (.performed (clock n)) (ih _ _ _)
    | call c deadline? =>
      rw [alone_call]
      cases reply : (answers c).within deadline? with
      | after ms x => exact .advances rfl (.replied reply) (ih _ _ _)
      | never => exact .stops rfl (.never reply)

end RepoDocs
