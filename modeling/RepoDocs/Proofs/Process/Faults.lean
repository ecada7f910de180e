import Mathlib.Logic.Relation
import RepoDocs.Proofs.Process.Weakest
import RepoDocs.Proofs.Store.Records

/-! A run beside others, with at most one operation of the store that fails it.  The operations that the
run makes are counted; the one with the number `faulty?` fails and has no effect.  Others may be at work
in the store before each request, but change no record of the job that the run is about. -/

namespace RepoDocs

/-- What others do in the store in the meantime: any operations that do not change the job. -/
abbrev Meanwhile (names : Naming) (job : String) : Store → Store → Prop :=
  Relation.ReflTransGen fun s s' =>
    ∃ now call, (∀ u, call ≠ .updateJob job u) ∧ s' = (s.perform names now call).2

/-- From one store, and after so many operations of it, a program ends in another. -/
inductive Ends (names : Naming) (job : String) (faulty? : Option Nat) :
    Program Effects α → Store → Nat → α → Store → Nat → Prop
  | done {a : α} {s : Store} {n : Nat} : Ends names job faulty? (.done a) s n a s n
  | failed {c : StoreCall} {next} {s s₁ s' : Store} {n n' : Nat} {a : α} (e : StoreError)
      (meanwhile : Meanwhile names job s s₁) (faulty : faulty? = some n)
      (rest : Ends names job faulty? (next (.error e)) s₁ (n + 1) a s' n') :
      Ends names job faulty? (.ask (.store c) next) s n a s' n'
  | performed {c : StoreCall} {next} {s s₁ s' : Store} {n n' : Nat} {a : α} (now : Instant)
      (meanwhile : Meanwhile names job s s₁) (sound : faulty? ≠ some n)
      (rest : Ends names job faulty? (next (s₁.perform names now c).1)
        (s₁.perform names now c).2 (n + 1) a s' n') :
      Ends names job faulty? (.ask (.store c) next) s n a s' n'
  | replied {c : Call} {deadline? : Option Nat} {next} {s s₁ s' : Store} {n n' : Nat} {a : α}
      (x : Option c.Reply) (meanwhile : Meanwhile names job s s₁)
      (due : deadline? = none → x.isSome)
      (rest : Ends names job faulty? (next x) s₁ n a s' n') :
      Ends names job faulty? (.ask (.call c deadline?) next) s n a s' n'

/-- What has to hold before a request of such a run, of the store and the number of operations. -/
def beside (names : Naming) (job : String) (faulty? : Option Nat) : Rule Effects (Store × Nat)
  | .store c, post => fun (s, n) => ∀ s₁, Meanwhile names job s s₁ →
    (faulty? = some n → ∀ e, post (.error e) (s₁, n + 1)) ∧
      (faulty? ≠ some n → ∀ now,
        post (s₁.perform names now c).1 ((s₁.perform names now c).2, n + 1))
  | .call _ deadline?, post => fun (s, n) => ∀ s₁, Meanwhile names job s s₁ →
    ∀ x, (deadline? = none → x.isSome) → post x (s₁, n)

variable {names : Naming} {job : String} {faulty? : Option Nat} {s s' : Store} {n n' : Nat}
  {a : α}

theorem beside_mono (names : Naming) (job : String) (faulty? : Option Nat) :
    (beside names job faulty?).Mono := by
  intro r post post' h t hr
  cases r with
  | store c =>
    intro s₁ meanwhile
    obtain ⟨failed, performed⟩ := hr s₁ meanwhile
    exact ⟨fun faulty e => h _ _ (failed faulty e), fun sound now => h _ _ (performed sound now)⟩
  | call c deadline? => exact fun s₁ meanwhile x due => h _ _ (hr s₁ meanwhile x due)

namespace Ends

theorem wp {p : Program Effects α} {post : α → Store × Nat → Prop}
    (h : Ends names job faulty? p s n a s' n') (hp : p.wp (beside names job faulty?) post (s, n)) :
    post a (s', n') := by
  induction h with
  | done => exact hp
  | failed e meanwhile faulty rest ih => exact ih ((hp _ meanwhile).1 faulty e)
  | performed now meanwhile sound rest ih => exact ih ((hp _ meanwhile).2 sound now)
  | replied x meanwhile due rest ih => exact ih (hp _ meanwhile x due)

/-- A program in two parts ends where the second part does that begins where the first one ends. -/
theorem of_bind {p : Program Effects α} {f : α → Program Effects β} {b : β}
    (h : Ends names job faulty? (p >>= f) s n b s' n') :
    ∃ a s₁ n₁, Ends names job faulty? p s n a s₁ n₁ ∧ Ends names job faulty? (f a) s₁ n₁ b s' n' := by
  induction p generalizing s n with
  | done a => exact ⟨a, s, n, .done, h⟩
  | ask r next ih =>
    have h : Ends names job faulty? (.ask r fun x => next x >>= f) s n b s' n' := h
    cases h with
    | failed e meanwhile faulty rest =>
      obtain ⟨a, s₁, n₁, first, second⟩ := ih _ rest
      exact ⟨a, s₁, n₁, .failed e meanwhile faulty first, second⟩
    | performed now meanwhile sound rest =>
      obtain ⟨a, s₁, n₁, first, second⟩ := ih _ rest
      exact ⟨a, s₁, n₁, .performed now meanwhile sound first, second⟩
    | replied x meanwhile due rest =>
      obtain ⟨a, s₁, n₁, first, second⟩ := ih _ rest
      exact ⟨a, s₁, n₁, .replied x meanwhile due first, second⟩

/-- A program that may fail ends with a failure of its first part or as its second one does. -/
theorem of_run_bind {x : ExceptT ε (Program Effects) α} {f : α → ExceptT ε (Program Effects) β}
    {b : Except ε β} (h : Ends names job faulty? (x >>= f).run s n b s' n') :
    (∃ e, Ends names job faulty? x.run s n (.error e) s' n' ∧ b = .error e) ∨
      ∃ a s₁ n₁, Ends names job faulty? x.run s n (.ok a) s₁ n₁ ∧
        Ends names job faulty? (f a).run s₁ n₁ b s' n' := by
  rw [ExceptT.run_bind] at h
  obtain ⟨a, s₁, n₁, first, second⟩ := h.of_bind
  cases a with
  | ok a => exact .inr ⟨a, s₁, n₁, first, second⟩
  | error e =>
    cases second
    exact .inl ⟨e, first, rfl⟩

end Ends

end RepoDocs
