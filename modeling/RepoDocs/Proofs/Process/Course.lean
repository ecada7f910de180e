import Mathlib.Logic.Relation
import RepoDocs.Proofs.Process.Weakest
import RepoDocs.Proofs.Store.Records

/-! The course of a program: the requests it has made so far, each with the reply to it, and what is left
of it then.  The replies belong to circumstances, which say how the store may fail, what calls may come
to and what others may do in the store at any time.  A course in given circumstances takes the store
from one state to another. -/

namespace RepoDocs

/-- A request and the reply to it. -/
structure Event (S : Signature) where
  request : S.Request
  reply : S.Reply request

namespace Program

variable {S : Signature} {α β ε : Type} {events : List (Event S)}

/-- After some events, the second program is what is left of the first one. -/
inductive Leads : Program S α → List (Event S) → Program S α → Prop
  | here {p : Program S α} : Leads p [] p
  | ask {r : S.Request} {next : S.Reply r → Program S α} {events : List (Event S)}
      {q : Program S α} (x : S.Reply r) (rest : Leads (next x) events q) :
      Leads (.ask r next) (⟨r, x⟩ :: events) q

namespace Leads

theorem eq_of_done {a : α} {q : Program S α} (h : (Program.done a).Leads events q) :
    events = [] ∧ q = .done a := by
  cases h
  exact ⟨rfl, rfl⟩

/-- A program in two parts is still in the first one, or has come to the second one. -/
theorem of_bind {p : Program S α} {f : α → Program S β} {q : Program S β}
    (h : (p >>= f).Leads events q) :
    (∃ p', p.Leads events p' ∧ q = p' >>= f) ∨
      ∃ a first second, events = first ++ second ∧ p.Leads first (.done a) ∧
        (f a).Leads second q := by
  induction p generalizing events with
  | done a => exact .inr ⟨a, [], events, rfl, .here, h⟩
  | ask r next ih =>
    have h : (Program.ask r fun x => next x >>= f).Leads events q := h
    cases h with
    | here => exact .inl ⟨_, .here, rfl⟩
    | ask x rest =>
      rcases ih x rest with ⟨p', first, rfl⟩ | ⟨a, first, second, rfl, hfirst, hsecond⟩
      · exact .inl ⟨p', .ask x first, rfl⟩
      · exact .inr ⟨a, ⟨r, x⟩ :: first, second, rfl, .ask x hfirst, hsecond⟩

/-- A program that may fail has not come to its second part, or the first part has succeeded.  In the
first case the program is at its end only if the first part has failed. -/
theorem of_run_bind {x : ExceptT ε (Program S) α} {f : α → ExceptT ε (Program S) β}
    {q : Program S (Except ε β)} (h : (x >>= f).run.Leads events q) :
    (∃ p, x.run.Leads events p ∧
        ∀ b, q = .done b → ∃ e, p = .done (.error e) ∧ b = .error e) ∨
      ∃ a first second, events = first ++ second ∧ x.run.Leads first (.done (.ok a)) ∧
        (f a).run.Leads second q := by
  rw [ExceptT.run_bind] at h
  rcases h.of_bind with ⟨p, first, rfl⟩ | ⟨a, first, second, rfl, hfirst, hsecond⟩
  · rcases p with (e | a) | ⟨r, next⟩
    · refine .inl ⟨_, first, ?_⟩
      rintro _ ⟨⟩
      exact ⟨e, rfl, rfl⟩
    · exact .inr ⟨a, events, [], (List.append_nil events).symm, first, .here⟩
    · exact .inl ⟨_, first, nofun⟩
  · cases a with
    | ok a => exact .inr ⟨a, first, second, rfl, hfirst, hsecond⟩
    | error e =>
      obtain ⟨rfl, rfl⟩ := eq_of_done hsecond
      rw [List.append_nil]
      refine .inl ⟨_, hfirst, ?_⟩
      rintro _ ⟨⟩
      exact ⟨e, rfl, rfl⟩

theorem asks {p q : Program S α} {may : S.Request → Prop} (h : p.Leads events q)
    (hp : p.Asks may) : ∀ v ∈ events, may v.request := by
  induction h with
  | here => exact nofun
  | ask x rest ih => exact List.forall_mem_cons.2 ⟨hp.1, ih (hp.2 x)⟩

end Leads

/-! ### Replies that end a program -/

/-- After each bad reply the program is at its end, and has failed. -/
def Heeds (bad : (r : S.Request) → S.Reply r → Prop) : Program S (Except ε α) → Prop
  | done _ => True
  | ask r next => ∀ x, (bad r x → ∃ e, next x = done (.error e)) ∧ (next x).Heeds bad

variable {bad : (r : S.Request) → S.Reply r → Prop}

theorem Heeds.pure (a : α) : (pure a : ExceptT ε (Program S) α).run.Heeds bad := trivial

theorem Heeds.run_bind {x : ExceptT ε (Program S) α} {f : α → ExceptT ε (Program S) β}
    (hx : x.run.Heeds bad) (hf : ∀ a, (f a).run.Heeds bad) : (x >>= f).run.Heeds bad := by
  rw [ExceptT.run_bind]
  generalize x.run = p at hx ⊢
  induction p with
  | done a =>
    cases a with
    | ok a => exact hf a
    | error e => exact trivial
  | ask r next ih =>
    refine fun y => ⟨fun hbad => ?_, ih y (hx y).2⟩
    obtain ⟨e, he⟩ := (hx y).1 hbad
    exact ⟨e, congrArg (· >>= _) he⟩

/-- A program none of whose replies can be bad goes on as the rest of it does. -/
theorem Heeds.run_lift_bind {p : Program S α} {f : α → ExceptT ε (Program S) β}
    (hp : p.Asks fun r => ∀ x, ¬bad r x) (hf : ∀ a, (f a).run.Heeds bad) :
    ((liftM p : ExceptT ε (Program S) α) >>= f).run.Heeds bad := by
  refine Heeds.run_bind ?_ hf
  change (p >>= fun a => Program.done (.ok a)).Heeds bad
  induction p with
  | done a => exact trivial
  | ask r next ih => exact fun y => ⟨fun hbad => (hp.1 y hbad).elim, ih y (hp.2 y)⟩

theorem Heeds.eq_error {p q : Program S (Except ε α)} (hp : p.Heeds bad) (h : p.Leads events q)
    {v : Event S} (hv : v ∈ events) (hbad : bad v.request v.reply) : ∃ e, q = .done (.error e) := by
  induction h with
  | here => cases hv
  | ask x rest ih =>
    rcases List.mem_cons.1 hv with rfl | hv
    · obtain ⟨e, he⟩ := (hp x).1 hbad
      rw [he] at rest
      exact ⟨e, rest.eq_of_done.2⟩
    · exact ih (hp x).2 hv

/-! ### What a program has been told -/

/-- What has to hold before a request so that the demand is met and, where the reply is one of those
admitted, a condition on the events holds after it. -/
def telling (demand : S.Request → List (Event S) → Prop)
    (admits : (r : S.Request) → S.Reply r → Prop) : Rule S (List (Event S)) :=
  fun r post before => demand r before ∧ ∀ x, admits r x → post x (before ++ [⟨r, x⟩])

variable {demand : S.Request → List (Event S) → Prop}
  {admits : (r : S.Request) → S.Reply r → Prop}

theorem telling_mono : (telling demand admits).Mono :=
  fun _ _ _ h _ hr => ⟨hr.1, fun x hx => h x _ (hr.2 x hx)⟩

/-- A program keeps what each of its requests keeps, whatever the reply, if they meet the demand. -/
theorem Asks.keeps_telling {p : Program S α} {may : S.Request → Prop}
    {I : List (Event S) → Prop} (h : p.Asks may) (met : ∀ r, may r → ∀ before, demand r before)
    (same : ∀ r, may r → ∀ x before, I before → I (before ++ [⟨r, x⟩])) :
    p.Keeps (telling demand admits) I :=
  h.keeps fun r hr _ hpost before hI =>
    ⟨met r hr before, fun x _ => hpost x _ (same r hr x before hI)⟩

/-- Along a course with admitted replies, what had to hold before the program does so before the rest
of it. -/
theorem Leads.wp {p q : Program S α} {post : α → List (Event S) → Prop}
    {before : List (Event S)} (h : p.Leads events q) (admitted : ∀ v ∈ events, admits v.request v.reply)
    (hp : p.wp (telling demand admits) post before) :
    q.wp (telling demand admits) post (before ++ events) := by
  induction h generalizing before with
  | here => rwa [List.append_nil]
  | ask x rest ih =>
    obtain ⟨hx, admitted⟩ := List.forall_mem_cons.1 admitted
    rw [List.append_cons]
    exact ih admitted (hp.2 x hx)

/-- Each request of a course meets the demand. -/
theorem Leads.demanded {p q : Program S α} {post : α → List (Event S) → Prop}
    {first second : List (Event S)} {v : Event S} (h : p.Leads (first ++ v :: second) q)
    (admitted : ∀ u ∈ first ++ v :: second, admits u.request u.reply)
    (hp : p.wp (telling demand admits) post []) : demand v.request first := by
  generalize hbefore : ([] : List (Event S)) = before at hp
  suffices demand v.request (before ++ first) by rwa [← hbefore] at this
  clear hbefore
  induction first generalizing p before with
  | nil =>
    cases h with
    | ask x rest => simpa using hp.1
  | cons u first ih =>
    cases h with
    | ask x rest =>
      obtain ⟨hx, admitted⟩ := List.forall_mem_cons.1 admitted
      rw [List.append_cons]
      exact ih rest admitted _ (hp.2 x hx)

end Program

/-! ### Circumstances -/

/-- What the surroundings of a program may do: the failures of the store, the replies to calls with
and without a deadline, and the changes that others make to the store. -/
structure Circumstances where
  names : Naming
  fails : StoreCall → StoreError → Prop
  replies : (c : Call) → Option Nat → Option c.Reply → Prop
  others : Store → Store → Prop

namespace Circumstances

variable {k : Circumstances} {s s₁ s' : Store} {events later : List (Event Effects)}

/-- A course takes the store from one state to another.  Others may work in it before the first event
and after each. -/
inductive Along (k : Circumstances) : Store → List (Event Effects) → Store → Prop
  | rest {s : Store} : Along k s [] s
  | meanwhile {s s₁ s' : Store} {events : List (Event Effects)} (step : k.others s s₁)
      (later : Along k s₁ events s') : Along k s events s'
  | failed {c : StoreCall} {e : StoreError} {s s' : Store} {events : List (Event Effects)}
      (fails : k.fails c e) (later : Along k s events s') :
      Along k s (⟨.store c, .error e⟩ :: events) s'
  | performed {c : StoreCall} {s s' : Store} {events : List (Event Effects)} (now : Instant)
      (later : Along k (s.perform k.names now c).2 events s') :
      Along k s (⟨.store c, (s.perform k.names now c).1⟩ :: events) s'
  | replied {c : Call} {deadline? : Option Nat} {x : Option c.Reply} {s s' : Store}
      {events : List (Event Effects)} (replies : k.replies c deadline? x)
      (later : Along k s events s') : Along k s (⟨.call c deadline?, x⟩ :: events) s'

/-- What others do to the store while a program waits. -/
abbrev Others (k : Circumstances) : Store → Store → Prop := Relation.ReflTransGen k.others

namespace Along

theorem of_others (h : k.Others s s₁) (later : k.Along s₁ events s') : k.Along s events s' := by
  induction h using Relation.ReflTransGen.head_induction_on with
  | refl => exact later
  | head step _ ih => exact .meanwhile step ih

theorem append (h : k.Along s events s₁) (h' : k.Along s₁ later s') :
    k.Along s (events ++ later) s' := by
  induction h with
  | rest => exact h'
  | meanwhile step _ ih => exact .meanwhile step (ih h')
  | failed fails _ ih => exact .failed fails (ih h')
  | performed now _ ih => exact .performed now (ih h')
  | replied replies _ ih => exact .replied replies (ih h')

theorem of_append (h : k.Along s (events ++ later) s') :
    ∃ s₁, k.Along s events s₁ ∧ k.Along s₁ later s' := by
  generalize hall : events ++ later = all at h
  induction h generalizing events with
  | rest =>
    obtain ⟨rfl, rfl⟩ := List.append_eq_nil_iff.1 hall
    exact ⟨_, .rest, .rest⟩
  | meanwhile step _ ih =>
    obtain ⟨s₁, first, second⟩ := ih hall
    exact ⟨s₁, .meanwhile step first, second⟩
  | @failed c e s _ _ fails h ih =>
    rcases List.append_eq_cons_iff.1 hall with ⟨rfl, rfl⟩ | ⟨events, rfl, rfl⟩
    · exact ⟨s, .rest, .failed fails h⟩
    · obtain ⟨s₁, first, second⟩ := ih rfl
      exact ⟨s₁, .failed fails first, second⟩
  | @performed c s _ _ now h ih =>
    rcases List.append_eq_cons_iff.1 hall with ⟨rfl, rfl⟩ | ⟨events, rfl, rfl⟩
    · exact ⟨s, .rest, .performed now h⟩
    · obtain ⟨s₁, first, second⟩ := ih rfl
      exact ⟨s₁, .performed now first, second⟩
  | @replied c deadline? x s _ _ replies h ih =>
    rcases List.append_eq_cons_iff.1 hall with ⟨rfl, rfl⟩ | ⟨events, rfl, rfl⟩
    · exact ⟨s, .rest, .replied replies h⟩
    · obtain ⟨s₁, first, second⟩ := ih rfl
      exact ⟨s₁, .replied replies first, second⟩

end Along

/-- The replies that a request may get: those of the store from any of its states. -/
def Admits (k : Circumstances) : (r : Effect) → r.Reply → Prop
  | .store c, x => (∃ e, k.fails c e ∧ x = .error e) ∨
    ∃ (s : Store) (now : Instant), x = (s.perform k.names now c).1
  | .call c deadline?, x => k.replies c deadline? x

theorem Along.admits (h : k.Along s events s') : ∀ v ∈ events, k.Admits v.request v.reply := by
  induction h with
  | rest => exact List.forall_mem_nil _
  | meanwhile _ _ ih => exact ih
  | @failed c e _ _ _ fails _ ih => exact List.forall_mem_cons.2 ⟨.inl ⟨e, fails, rfl⟩, ih⟩
  | @performed c s _ _ now _ ih => exact List.forall_mem_cons.2 ⟨.inr ⟨s, now, rfl⟩, ih⟩
  | replied replies _ ih => exact List.forall_mem_cons.2 ⟨replies, ih⟩

/-- A part of the store that neither the requests of a course nor others change is the same after it. -/
theorem Along.keeps {R : Store → Store → Prop} (refl : ∀ s, R s s)
    (trans : ∀ s₁ s₂ s₃, R s₁ s₂ → R s₂ s₃ → R s₁ s₃) (others : ∀ s s', k.others s s' → R s s')
    (h : k.Along s events s')
    (performs : ∀ v ∈ events, ∀ c, v.request = .store c → ∀ s now,
      R s (s.perform k.names now c).2) : R s s' := by
  induction h with
  | rest => exact refl _
  | meanwhile step _ ih => exact trans _ _ _ (others _ _ step) (ih performs)
  | failed _ _ ih => exact ih (List.forall_mem_cons.1 performs).2
  | performed now _ ih =>
    obtain ⟨first, performs⟩ := List.forall_mem_cons.1 performs
    exact trans _ _ _ (first _ rfl _ now) (ih performs)
  | replied _ _ ih => exact ih (List.forall_mem_cons.1 performs).2

/-- A course without operations of the store leaves it to others. -/
theorem Along.others_of_idle (h : k.Along s events s')
    (idle : ∀ v ∈ events, ∀ c, v.request ≠ .store c) : k.Others s s' :=
  h.keeps (fun _ => .refl) (fun _ _ _ => .trans) (fun _ _ => .single)
    fun v hv c hc => (idle v hv c hc).elim

theorem Along.others_of_nil (h : k.Along s [] s') : k.Others s s' := h.others_of_idle (List.forall_mem_nil _)

/-- The operation of the store at the beginning of a course fails, or it is performed where others have
brought the store. -/
theorem Along.of_store {c : StoreCall} {x : Except StoreError c.Reply}
    (h : k.Along s (⟨.store c, x⟩ :: events) s') :
    (∃ e, x = .error e ∧ k.Along s events s') ∨ ∃ s₁ now, k.Others s s₁ ∧
      x = (s₁.perform k.names now c).1 ∧ k.Along (s₁.perform k.names now c).2 events s' := by
  generalize hall : (⟨.store c, x⟩ : Event Effects) :: events = all at h
  induction h with
  | rest => cases hall
  | meanwhile step later ih =>
    rcases ih hall with ⟨e, hx, later⟩ | ⟨s₁, now, others, hx, later⟩
    · exact .inl ⟨e, hx, .meanwhile step later⟩
    · exact .inr ⟨s₁, now, .head step others, hx, later⟩
  | @failed _ e _ _ _ fails later =>
    cases hall
    exact .inl ⟨e, rfl, later⟩
  | @performed _ s _ _ now later =>
    cases hall
    exact .inr ⟨s, now, .refl, rfl, later⟩
  | replied => cases hall

end Circumstances

/-! ### A program that nobody disturbs -/

/-- The events of a program in a world that replies to each request from its state. -/
def Program.eventsIn {S : Signature} (answer : (r : S.Request) → σ → S.Reply r × σ) :
    Program S α → σ → List (Event S)
  | done _, _ => []
  | ask r next, s =>
    ⟨r, (answer r s).1⟩ :: (next (answer r s).1).eventsIn answer (answer r s).2

theorem Program.leads_eventsIn {S : Signature} (answer : (r : S.Request) → σ → S.Reply r × σ)
    (p : Program S α) (s : σ) : p.Leads (p.eventsIn answer s) (.done (p.run answer s).1) := by
  induction p generalizing s with
  | done a => exact .here
  | ask r next ih => exact .ask _ (ih _ _)

namespace Circumstances

/-- The store does not fail, calls are replied to, and nobody else is at work. -/
def quiet (names : Naming) (reply : (c : Call) → c.Reply) : Circumstances where
  names
  fails _ _ := False
  replies c _ x := x = some (reply c)
  others _ _ := False

theorem eq_of_quiet {names : Naming} {reply : (c : Call) → c.Reply} {s s' : Store}
    (h : (quiet names reply).Others s s') : s' = s := by
  cases h with
  | refl => rfl
  | tail _ step => exact step.elim

/-- The replies in such circumstances, at one time of the calendar. -/
def quietReply (names : Naming) (reply : (c : Call) → c.Reply) :
    (r : Effect) → Store → r.Reply × Store
  | .store c, s => s.perform names ⟨0, 0⟩ c
  | .call c _, s => (some (reply c), s)

theorem along_quiet (names : Naming) (reply : (c : Call) → c.Reply) (p : Program Effects α)
    (s : Store) : (quiet names reply).Along s (p.eventsIn (S := Effects) (quietReply names reply) s)
      (p.run (S := Effects) (quietReply names reply) s).2 := by
  induction p generalizing s with
  | done a => exact .rest
  | ask r next ih =>
    cases r with
    | store c => exact .performed ⟨0, 0⟩ (ih _ _)
    | call c deadline? => exact .replied rfl (ih _ _)

end Circumstances

end RepoDocs
