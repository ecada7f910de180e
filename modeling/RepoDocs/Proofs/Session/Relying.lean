import RepoDocs.Proofs.Session.Keeping

/-! What a session keeps where an operation also relies on the others.  While it waits, they change the
store as `R` says at most, so it may go by what it knew before, as far as `R` leaves that true.  Some
operations are steady: they never leave the condition `I`, not even between two of their requests. -/

namespace RepoDocs.Session

variable {c : Conditions} {I : Store → Prop} {R : Store → Store → Prop}
  {steady : Operation → Prop} {s s' : Session}

/-- The rule for an operation that may rely on `R` while it waits. -/
def relyRule (c : Conditions) (I : Store → Prop) (R : Store → Store → Prop)
    (G : Store → Store → Prop) : Rule Controls Store :=
  fun r post s => rule c (fun s' => R s s' ∧ I s') G r post s

theorem relyRule_mono (c : Conditions) (I : Store → Prop) (R : Store → Store → Prop)
    (G : Store → Store → Prop) : (relyRule c I R G).Mono :=
  fun r post post' h s => rule_mono c _ G r post post' h s

/-- An operation that keeps to the rule by itself need not rely on others. -/
theorem relyRule_of_rule (refl : ∀ s, R s s) {G : Store → Store → Prop} {r : Control}
    {post : r.Reply → Store → Prop} {s : Store} (h : rule c I G r post s) :
    relyRule c I R G r post s := by
  cases r with
  | effect e =>
    cases e with
    | store call => exact h
    | call call deadline? => exact ⟨⟨refl s, h.1⟩, fun x s' hs' => h.2 x s' hs'.2⟩
  | pause ms => exact ⟨⟨refl s, h.1⟩, fun x s' hs' => h.2 x s' hs'.2⟩
  | start job => exact h
  | running => exact h
  | join job => exact ⟨⟨refl s, h.1⟩, fun x s' hs' => h.2 x s' hs'.2⟩

/-- What an operation guarantees of each change that it makes. -/
def Guarantees (I : Store → Prop) (steady : Operation → Prop) (o : Operation) (_ s' : Store) :
    Prop :=
  steady o → I s'

/-- What is left of an operation keeps to its rule from a store on. -/
def KeepsOn (c : Conditions) (I : Store → Prop) (R : Store → Store → Prop)
    (steady : Operation → Prop) (t : Task) (s : Store) : Prop :=
  t.rest.wp (relyRule c I R (Guarantees I steady t.operation)) (fun _ => I) s

/-- The operation keeps to its rule when it goes on, whatever the others did until then. -/
def Relies (c : Conditions) (I : Store → Prop) (R : Store → Store → Prop)
    (steady : Operation → Prop) (s : Store) (t : Task) : Prop :=
  ∀ s', R s s' → I s' → KeepsOn c I R steady t s'

/-- The store is as `I` says unless an operation is at work that is not steady, and all operations
keep to their rules. -/
structure Relied (c : Conditions) (I : Store → Prop) (R : Store → Store → Prop)
    (steady : Operation → Prop) (s : Session) : Prop where
  quiet : (∀ t, s.active? = some t → steady t.operation) → I s.store
  active : ∀ t, s.active? = some t → KeepsOn c I R steady t s.store
  ready : ∀ t ∈ s.ready, Relies c I R steady s.store t
  waiting : ∀ t ∈ s.waiting, Relies c I R steady s.store t

/-- The operation keeps to its rule wherever it is asked for. -/
def Reliable (c : Conditions) (I : Store → Prop) (R : Store → Store → Prop)
    (steady : Operation → Prop) (o : Operation) : Prop :=
  ∀ s, I s → KeepsOn c I R steady (o.task c.config) s

/-- A program that has come to its end, or to a call that takes its time. -/
def Rests : Program Controls α → Prop
  | .done _ | .ask (.effect (.call _ _)) _ => True
  | _ => False

/-- An operation that does not work on the store has brought `I` about again. -/
theorem KeepsOn.of_rests {o : Operation} {p : Program Controls o.Result} {store : Store}
    (h : KeepsOn c I R steady ⟨o, p⟩ store) (rests : Rests p) : I store := by
  cases p with
  | done a => exact h
  | ask r next =>
    cases r with
    | effect e =>
      cases e with
      | store call => exact rests.elim
      | call call deadline? => exact h.1.2
    | _ => exact rests.elim

theorem Relied.start (h : I {}) : Relied c I R steady {} :=
  ⟨fun _ => h, Task.forall_none, List.forall_mem_nil _, List.forall_mem_nil _⟩

section Preorder

variable (hrefl : ∀ s, R s s) (htrans : ∀ s₁ s₂ s₃, R s₁ s₂ → R s₂ s₃ → R s₁ s₃)

include htrans in
theorem Relies.after {store store' : Store} {t : Task} (h : Relies c I R steady store t)
    (change : R store store') : Relies c I R steady store' t :=
  fun s' hs' => h s' (htrans _ _ _ change hs')

include hrefl in
/-- An operation that waits goes on by its rule, whatever the reply. -/
theorem Relies.reply {store : Store} {o : Operation} {r : Control}
    {next : r.Reply → Program Controls o.Result} {x : r.Reply}
    (h : Relies c I R steady store ⟨o, .ask r next⟩) (admits : s.Admits r x) :
    Relies c I R steady store ⟨o, next x⟩ := by
  intro store' hR hI
  have asked := h store' hR hI
  cases r with
  | effect e =>
    cases e with
    | store call => exact admits.elim
    | call call deadline? => exact asked.2 x store' ⟨hrefl store', hI⟩
  | pause ms => exact asked.2 x store' ⟨hrefl store', hI⟩
  | start job => exact admits.elim
  | running => exact admits.elim
  | join job => exact asked.2 x store' ⟨hrefl store', hI⟩

include htrans in
/-- The operation at work goes on. -/
theorem Relied.goOn {t : Task} {store : Store} (relied : Relied c I R steady s)
    (change : R s.store store) (quiet : steady t.operation → I store)
    (ht : KeepsOn c I R steady t store) :
    Relied c I R steady { s with store, active? := some t } := by
  refine ⟨fun h => quiet (h t rfl), fun _ h => Option.some.inj h ▸ ht, ?_, ?_⟩
  · exact fun t ht => (relied.ready t ht).after htrans change
  · exact fun t ht => (relied.waiting t ht).after htrans change

/-- The operation at work goes on and leaves the store as it is. -/
theorem Relied.stay {o : Operation} {p p' : Program Controls o.Result}
    (relied : Relied c I R steady s) (active : s.active? = some ⟨o, p⟩)
    (hp : KeepsOn c I R steady ⟨o, p'⟩ s.store) :
    Relied c I R steady { s with active? := some ⟨o, p'⟩ } := by
  refine ⟨fun h => relied.quiet fun t ht => ?_, fun _ h => Option.some.inj h ▸ hp, relied.ready,
    relied.waiting⟩
  obtain rfl := Option.some.inj (active.symm.trans ht)
  exact h ⟨o, p'⟩ rfl

include hrefl htrans in
/-- The operation at work begins to wait. -/
theorem Relied.wait {o : Operation} {r : Control} {next : r.Reply → Program Controls o.Result}
    {registered : List String} (relied : Relied c I R steady s)
    (waits : ∀ I G post s, rule c I G r post s = (I s ∧ ∀ x s', I s' → post x s'))
    (active : s.active? = some ⟨o, .ask r next⟩) :
    Relied c I R steady { s with
      registered, active? := none, waiting := s.waiting ++ [⟨o, .ask r next⟩] } := by
  have h := relied.active _ active
  rw [KeepsOn, Program.wp, relyRule, waits] at h
  have idle : ∀ t, none = some t → KeepsOn c I R steady t s.store := by
    rintro _ ⟨⟩
  refine ⟨fun _ => h.1.2, idle, relied.ready, List.forall_mem_append.2 ⟨relied.waiting, ?_⟩⟩
  refine List.forall_mem_singleton.2 fun store hR hI => ?_
  rw [KeepsOn, Program.wp, relyRule, waits]
  exact ⟨⟨hrefl store, hI⟩, fun x store' h' => h.2 x store' ⟨htrans _ _ _ hR h'.1, h'.2⟩⟩

include htrans in
theorem Relied.turn (reliable : ∀ job, Reliable c I R steady (.background job))
    (relied : Relied c I R steady s) (h : Turn c s s') (change : R s.store s'.store) :
    Relied c I R steady s' := by
  cases h with
  | failed e fails active => exact relied.stay active ((relied.active _ active).1 fails e)
  | performed now active =>
    obtain ⟨quiet, h⟩ := (relied.active _ active).2 now
    exact relied.goOn htrans change quiet h
  | @started o job next active =>
    have asked := relied.active _ active
    have h : KeepsOn c I R steady ⟨o, next ()⟩ s.store := asked
    have stayed := relied.stay active h
    refine ⟨stayed.quiet, stayed.active, List.forall_mem_append.2 ⟨relied.ready, ?_⟩,
      relied.waiting⟩
    exact List.forall_mem_singleton.2 fun s' _ => reliable job s'
  | counted active => exact relied.stay active (relied.active _ active s.registered.length)
  | unregistered absent active =>
    obtain ⟨h, next⟩ := relied.active _ active
    exact relied.stay active (next false _ h)

include hrefl htrans

theorem Relied.step
    (reliable : ∀ o, c.begins o ∨ o.isBackground = true → Reliable c I R steady o)
    (relied : Relied c I R steady s) (h : Step c s s') (change : R s.store s'.store) :
    Relied c I R steady s' := by
  cases h with
  | turn h => exact relied.turn htrans (fun job => reliable _ (.inr rfl)) h change
  | asked o begins front =>
    refine ⟨relied.quiet, relied.active, List.forall_mem_append.2 ⟨relied.ready, ?_⟩,
      relied.waiting⟩
    exact List.forall_mem_singleton.2 fun s' _ => reliable o (.inl begins) s'
  | @resumed t ready idle next =>
    have hready : ∀ t' ∈ t :: ready, Relies c I R steady s.store t' :=
      fun t' ht => relied.ready t' (next.mem_iff.2 ht)
    obtain ⟨ht, hready⟩ := List.forall_mem_cons.1 hready
    have quiet : I s.store := relied.quiet (by simp [idle])
    exact ⟨fun _ => quiet, fun _ h => Option.some.inj h ▸ ht _ (hrefl _) quiet, hready,
      relied.waiting⟩
  | called active => exact relied.wait hrefl htrans (fun _ _ _ _ => rfl) active
  | paused active => exact relied.wait hrefl htrans (fun _ _ _ _ => rfl) active
  | joined present active => exact relied.wait hrefl htrans (fun _ _ _ _ => rfl) active
  | @replied o r next waiting x due admits =>
    have hwaiting : ∀ t ∈ ⟨o, .ask r next⟩ :: waiting, Relies c I R steady s.store t :=
      fun t ht => relied.waiting t (due.mem_iff.2 ht)
    obtain ⟨ht, hwaiting⟩ := List.forall_mem_cons.1 hwaiting
    refine ⟨relied.quiet, relied.active, List.forall_mem_append.2 ⟨relied.ready, ?_⟩, hwaiting⟩
    exact List.forall_mem_singleton.2 (ht.reply hrefl admits)
  | dropped front gone =>
    refine ⟨relied.quiet, relied.active, relied.ready, ?_⟩
    exact fun t ht => relied.waiting t (gone.mem_iff.2 (List.mem_cons_of_mem _ ht))
  | ended active =>
    exact ⟨fun _ => relied.active _ active, Task.forall_none, relied.ready, relied.waiting⟩

/-- Where each step of a session changes the store as `R` says, the operations may rely on that. -/
theorem Reachable.relied (start : I {})
    (changes : ∀ s s', Reachable c s → Step c s s' → R s.store s'.store)
    (reliable : ∀ o, c.begins o ∨ o.isBackground = true → Reliable c I R steady o)
    (h : Reachable c s) : Relied c I R steady s := by
  induction h with
  | refl => exact Relied.start start
  | tail h step ih => exact ih.step hrefl htrans reliable step (changes _ _ h step)

end Preorder

end RepoDocs.Session
