import RepoDocs.Proofs.Process.Weakest
import RepoDocs.Proofs.Session.Basic

/-! What a session keeps.  Each operation is looked at alone: when it goes on after a wait it may rely
on a condition `I` of the store, which it has to bring about again before it waits or ends, and each
operation of the store that it carries out has to be a change as `G` says.  If all operations do so,
then `I` holds whenever none is at work, and each step of a session changes the store as `G` says or
not at all. -/

namespace RepoDocs.Session

variable {c : Conditions} {I : Store → Prop} {G : Store → Store → Prop} {s s' : Session}

/-- What an operation may rely on and has to guarantee at each of its requests. -/
def rule (c : Conditions) (I : Store → Prop) (G : Store → Store → Prop) : Rule Controls Store
  | .effect (.store call), post => fun s =>
    (c.fails call → ∀ e, post (.error e) s) ∧
      ∀ now, G s (s.perform c.names now call).2 ∧
        post (s.perform c.names now call).1 (s.perform c.names now call).2
  | .effect (.call _ _), post => fun s => I s ∧ ∀ x s', I s' → post x s'
  | .pause _, post => fun s => I s ∧ ∀ x s', I s' → post x s'
  | .start _, post => post ()
  | .running, post => fun s => ∀ n, post n s
  | .join _, post => fun s => I s ∧ ∀ x s', I s' → post x s'

theorem rule_mono (c : Conditions) (I : Store → Prop) (G : Store → Store → Prop) :
    (rule c I G).Mono := by
  intro r post post' h s hr
  cases r with
  | effect e =>
    cases e with
    | store call =>
      exact ⟨fun fails e => h _ _ (hr.1 fails e), fun now => ⟨(hr.2 now).1, h _ _ (hr.2 now).2⟩⟩
    | call call deadline? => exact ⟨hr.1, fun x s' hI => h _ _ (hr.2 x s' hI)⟩
  | pause ms => exact ⟨hr.1, fun x s' hI => h _ _ (hr.2 x s' hI)⟩
  | start job => exact h _ _ hr
  | running => exact fun n => h _ _ (hr n)
  | join job => exact ⟨hr.1, fun x s' hI => h _ _ (hr.2 x s' hI)⟩

/-- The rule for the requests of a single run. -/
def effectRule (c : Conditions) (I : Store → Prop) (G : Store → Store → Prop) :
    Rule Effects Store := fun e => rule c I G (.effect e)

theorem effectRule_mono (c : Conditions) (I : Store → Prop) (G : Store → Store → Prop) :
    (effectRule c I G).Mono := fun e => rule_mono c I G (.effect e)

theorem wp_lift (p : Program Effects α) (post : α → Store → Prop) :
    p.lift.wp (rule c I G) post = p.wp (effectRule c I G) post :=
  Program.wp_rename ..

/-- The program keeps to the rule wherever it goes on with the store as `I` says. -/
abbrev Fair (c : Conditions) (I : Store → Prop) (G : Store → Store → Prop)
    (p : Program Controls α) : Prop :=
  p.Keeps (rule c I G) I

theorem Fair.lift {p : Program Effects α} (h : p.Keeps (effectRule c I G) I) :
    Fair c I G p.lift := by
  intro s hI
  rw [wp_lift]
  exact h s hI

/-- The store is as `I` says unless an operation is at work, which will bring that about, and the
others keep to the rule when they go on. -/
structure Kept (c : Conditions) (I : Store → Prop) (G : Store → Store → Prop) (s : Session) :
    Prop where
  idle : s.active? = none → I s.store
  active : ∀ t, s.active? = some t → t.rest.wp (rule c I G) (fun _ => I) s.store
  ready : ∀ t ∈ s.ready, Fair c I G t.rest
  waiting : ∀ t ∈ s.waiting, Fair c I G t.rest

/-- How one step changes the store. -/
def Changes (G : Store → Store → Prop) (s s' : Session) : Prop :=
  s'.store = s.store ∨ G s.store s'.store

theorem Kept.start (h : I {}) : Kept c I G {} :=
  ⟨fun _ => h, Task.forall_none, List.forall_mem_nil _, List.forall_mem_nil _⟩

/-- An operation that waits goes on by the rule, whatever the reply. -/
theorem Fair.reply {r : Control} {next : r.Reply → Program Controls α} {x : r.Reply}
    (h : Fair c I G (.ask r next)) (admits : s.Admits r x) : Fair c I G (next x) := by
  intro store hI
  cases r with
  | effect e =>
    cases e with
    | store call => exact admits.elim
    | call call deadline? => exact (h store hI).2 x store hI
  | pause ms => exact (h store hI).2 x store hI
  | start job => exact admits.elim
  | running => exact admits.elim
  | join job => exact (h store hI).2 x store hI

/-- The operation at work goes on. -/
theorem Kept.goOn {t : Task} {store : Store} (kept : Kept c I G s)
    (ht : t.rest.wp (rule c I G) (fun _ => I) store) :
    Kept c I G { s with store, active? := some t } :=
  ⟨nofun, fun _ h => Option.some.inj h ▸ ht, kept.ready, kept.waiting⟩

theorem Kept.turn (fair : ∀ job, Fair c I G ((Operation.background job).program c.config))
    (kept : Kept c I G s) (h : Turn c s s') : Kept c I G s' ∧ Changes G s s' := by
  cases h with
  | failed e fails active => exact ⟨kept.goOn ((kept.active _ active).1 fails e), .inl rfl⟩
  | performed now active =>
    obtain ⟨hG, h⟩ := (kept.active _ active).2 now
    exact ⟨kept.goOn h, .inr hG⟩
  | @started o job next active =>
    have h : (next ()).wp (rule c I G) (fun _ => I) s.store := kept.active _ active
    refine ⟨⟨nofun, fun _ ht => Option.some.inj ht ▸ h, ?_, kept.waiting⟩, .inl rfl⟩
    exact List.forall_mem_append.2 ⟨kept.ready, List.forall_mem_singleton.2 (fair job)⟩
  | counted active => exact ⟨kept.goOn (kept.active _ active s.registered.length), .inl rfl⟩
  | unregistered absent active =>
    obtain ⟨hI, h⟩ := kept.active _ active
    exact ⟨kept.goOn (h false _ hI), .inl rfl⟩

/-- The operation at work begins to wait. -/
theorem Kept.wait {o : Operation} {r : Control} {next : r.Reply → Program Controls o.Result}
    {registered : List String} (kept : Kept c I G s)
    (waits : ∀ post s, rule c I G r post s = (I s ∧ ∀ x s', I s' → post x s'))
    (active : s.active? = some ⟨o, .ask r next⟩) :
    Kept c I G { s with
      registered, active? := none, waiting := s.waiting ++ [⟨o, .ask r next⟩] } := by
  have h := kept.active _ active
  rw [Program.wp, waits] at h
  refine ⟨fun _ => h.1, Task.forall_none, kept.ready, List.forall_mem_append.2 ⟨kept.waiting, ?_⟩⟩
  refine List.forall_mem_singleton.2 fun store hI => ?_
  rw [Program.wp, waits]
  exact ⟨hI, h.2⟩

theorem Kept.step
    (fair : ∀ o, c.begins o ∨ o.isBackground = true → Fair c I G (o.program c.config))
    (kept : Kept c I G s) (h : Step c s s') : Kept c I G s' ∧ Changes G s s' := by
  cases h with
  | turn h => exact kept.turn (fun job => fair _ (.inr rfl)) h
  | asked o begins front =>
    refine ⟨⟨kept.idle, kept.active, List.forall_mem_append.2 ⟨kept.ready, ?_⟩, kept.waiting⟩,
      .inl rfl⟩
    exact List.forall_mem_singleton.2 (fair o (.inl begins))
  | @resumed t ready idle next =>
    have hready : ∀ t' ∈ t :: ready, Fair c I G t'.rest :=
      fun t' ht => kept.ready t' (next.mem_iff.2 ht)
    obtain ⟨ht, hready⟩ := List.forall_mem_cons.1 hready
    exact ⟨⟨nofun, fun _ h => Option.some.inj h ▸ ht _ (kept.idle idle), hready, kept.waiting⟩,
      .inl rfl⟩
  | called active => exact ⟨kept.wait (fun _ _ => rfl) active, .inl rfl⟩
  | paused active => exact ⟨kept.wait (fun _ _ => rfl) active, .inl rfl⟩
  | joined present active => exact ⟨kept.wait (fun _ _ => rfl) active, .inl rfl⟩
  | @replied o r next waiting x due admits =>
    have hwaiting : ∀ t ∈ ⟨o, .ask r next⟩ :: waiting, Fair c I G t.rest :=
      fun t ht => kept.waiting t (due.mem_iff.2 ht)
    obtain ⟨ht, hwaiting⟩ := List.forall_mem_cons.1 hwaiting
    refine ⟨⟨kept.idle, kept.active, List.forall_mem_append.2 ⟨kept.ready, ?_⟩, hwaiting⟩,
      .inl rfl⟩
    exact List.forall_mem_singleton.2 (ht.reply admits)
  | dropped front gone =>
    refine ⟨⟨kept.idle, kept.active, kept.ready, ?_⟩, .inl rfl⟩
    exact fun t ht => kept.waiting t (gone.mem_iff.2 (List.mem_cons_of_mem _ ht))
  | ended active =>
    exact ⟨⟨fun _ => kept.active _ active, Task.forall_none, kept.ready, kept.waiting⟩, .inl rfl⟩

section Reachable

variable (start : I {})
  (fair : ∀ o, c.begins o ∨ o.isBackground = true → Fair c I G (o.program c.config))
include start fair

/-- A session is kept as long as it goes on. -/
theorem Reachable.kept (h : Reachable c s) : Kept c I G s := by
  induction h with
  | refl => exact Kept.start start
  | tail _ h ih => exact (ih.step fair h).1

theorem Reachable.changes (h : Reachable c s) (step : Step c s s') : Changes G s s' :=
  ((h.kept start fair).step fair step).2

/-- A condition that each change brings about holds at any time, also while an operation is at
work. -/
theorem Reachable.always (brings : ∀ {s s'}, G s s' → I s') (h : Reachable c s) : I s.store := by
  induction h with
  | refl => exact start
  | tail h step ih =>
    rcases Reachable.changes start fair h step with same | change
    · rw [same]
      exact ih
    · exact brings change

end Reachable

end RepoDocs.Session
