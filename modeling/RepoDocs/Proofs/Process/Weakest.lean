import RepoDocs.Process.Effect

/-! What has to hold before a program for a condition to hold after it.  A `Rule` says this of each
request, and `Program.wp` of the programs that make them; the rule for a sequence is `wp_bind`.  A
program `Asks` some requests when it makes no others, whatever the replies. -/

namespace RepoDocs

/-- What has to hold before each request for a condition on the reply and the state to hold after
it. -/
abbrev Rule (S : Signature) (τ : Type) := (r : S.Request) → (S.Reply r → τ → Prop) → τ → Prop

/-- Where a rule admits a condition after a request, it admits each weaker one. -/
def Rule.Mono {S : Signature} {τ : Type} (rule : Rule S τ) : Prop :=
  ∀ r (post post' : S.Reply r → τ → Prop), (∀ x s, post x s → post' x s) →
    ∀ s, rule r post s → rule r post' s

namespace Program

variable {S T : Signature} {τ α β ε : Type}

/-- What has to hold before a program for `post` to hold of its result and the state after it. -/
def wp (rule : Rule S τ) : Program S α → (post : α → τ → Prop) → τ → Prop
  | done a, post => post a
  | ask r next, post => rule r fun x => (next x).wp rule post

section Rules

variable (rule : Rule S τ)

@[simp] theorem wp_pure (a : α) (post : α → τ → Prop) :
    (pure a : Program S α).wp rule post = post a := rfl

@[simp] theorem wp_request (r : S.Request) (post : S.Reply r → τ → Prop) :
    (request r).wp rule post = rule r post := rfl

@[simp] theorem wp_bind (p : Program S α) (f : α → Program S β) (post : β → τ → Prop) :
    (p >>= f).wp rule post = p.wp rule fun a => (f a).wp rule post := by
  induction p with
  | done a => rfl
  | ask r next ih => exact congrArg (rule r) (funext fun x => ih x)

/-- A program that may fail goes on with the second part only if the first did not fail. -/
theorem wp_run_bind (x : ExceptT ε (Program S) α) (f : α → ExceptT ε (Program S) β)
    (post : Except ε β → τ → Prop) :
    (x >>= f).run.wp rule post = x.run.wp rule fun
      | .ok a => (f a).run.wp rule post
      | .error e => post (.error e) := by
  rw [ExceptT.run_bind, wp_bind]
  congr 1
  funext r
  cases r <;> rfl

theorem wp_rename (rule : Rule T τ) (f : S.Request → T.Request)
    (reply : ∀ r, T.Reply (f r) → S.Reply r) (p : Program S α) (post : α → τ → Prop) :
    (p.rename f reply).wp rule post =
      p.wp (fun r post => rule (f r) fun x => post (reply r x)) post := by
  induction p with
  | done a => rfl
  | ask r next ih => exact congrArg (rule (f r)) (funext fun x => ih (reply r x))

/-- A program that may fail goes on with the handler only if it failed. -/
theorem wp_run_tryCatch (rule : Rule S τ) (x : ExceptT ε (Program S) α)
    (handle : ε → ExceptT ε (Program S) α) (post : Except ε α → τ → Prop) :
    (tryCatch x handle).run.wp rule post = x.run.wp rule fun
      | .ok a => post (.ok a)
      | .error e => (handle e).run.wp rule post := by
  refine (wp_bind rule x.run _ post).trans (congrArg (x.run.wp rule) (funext fun r => ?_))
  cases r <;> rfl

/-- A program that does not fail, as one that may. -/
theorem wp_run_lift (rule : Rule S τ) (p : Program S α) (post : Except ε α → τ → Prop) :
    (liftM p : ExceptT ε (Program S) α).run.wp rule post = p.wp rule fun a => post (.ok a) := by
  change (p >>= fun a => pure (Except.ok a)).wp rule post = _
  rw [wp_bind]
  rfl

end Rules

theorem wp_mono {rule : Rule S τ} (mono : rule.Mono) {post post' : α → τ → Prop}
    (h : ∀ a s, post a s → post' a s) (p : Program S α) :
    ∀ s, p.wp rule post s → p.wp rule post' s := by
  induction p with
  | done a => exact h a
  | ask r next ih => exact mono r _ _ ih

/-- What holds by one rule holds by each rule that is easier to meet. -/
theorem wp_of_rule {rule rule' : Rule S τ} (mono : rule'.Mono)
    (h : ∀ r post s, rule r post s → rule' r post s) {post : α → τ → Prop} (p : Program S α) :
    ∀ s, p.wp rule post s → p.wp rule' post s := by
  induction p with
  | done a => exact fun _ h => h
  | ask r next ih => exact fun s hr => mono r _ _ ih s (h r _ s hr)

/-! ### The requests that a program makes -/

/-- Each request that the program makes satisfies `p`, whatever the replies. -/
def Asks (p : S.Request → Prop) : Program S α → Prop
  | done _ => True
  | ask r next => p r ∧ ∀ x, (next x).Asks p

variable {p q : S.Request → Prop}

theorem Asks.pure (a : α) : (pure a : Program S α).Asks p := trivial

theorem Asks.request {r : S.Request} (h : p r) : (Program.request r).Asks p := ⟨h, fun _ => trivial⟩

theorem Asks.bind {x : Program S α} {f : α → Program S β} (hx : x.Asks p)
    (hf : ∀ a, (f a).Asks p) : (x >>= f).Asks p := by
  induction x with
  | done a => exact hf a
  | ask r next ih => exact ⟨hx.1, fun y => ih y (hx.2 y)⟩

theorem Asks.run_bind {x : ExceptT ε (Program S) α} {f : α → ExceptT ε (Program S) β}
    (hx : x.run.Asks p) (hf : ∀ a, (f a).run.Asks p) : (x >>= f).run.Asks p := by
  rw [ExceptT.run_bind]
  refine hx.bind fun r => ?_
  cases r with
  | ok a => exact hf a
  | error e => exact Asks.pure _

theorem Asks.run_lift {x : Program S α} (hx : x.Asks p) :
    (liftM x : ExceptT ε (Program S) α).run.Asks p :=
  hx.bind fun _ => Asks.pure _

theorem Asks.run_tryCatch {x : ExceptT ε (Program S) α} {handle : ε → ExceptT ε (Program S) α}
    (hx : x.run.Asks p) (hhandle : ∀ e, (handle e).run.Asks p) :
    (tryCatch x handle).run.Asks p := by
  refine Asks.bind (x := x.run) hx fun r => ?_
  cases r with
  | ok a => exact Asks.pure _
  | error e => exact hhandle e

theorem Asks.rename {p : T.Request → Prop} {x : Program S α} {f : S.Request → T.Request}
    {reply : ∀ r, T.Reply (f r) → S.Reply r} (h : x.Asks fun r => p (f r)) :
    (x.rename f reply).Asks p := by
  induction x with
  | done a => trivial
  | ask r next ih => exact ⟨h.1, fun y => ih _ (h.2 _)⟩

theorem Asks.mono (h : ∀ r, p r → q r) {x : Program S α} (hx : x.Asks p) : x.Asks q := by
  induction x with
  | done a => trivial
  | ask r next ih => exact ⟨h r hx.1, fun y => ih y (hx.2 y)⟩

/-! ### What a program keeps -/

/-- Where `I` holds before the program, it holds after it. -/
def Keeps (rule : Rule S τ) (I : τ → Prop) (x : Program S α) : Prop :=
  ∀ s, I s → x.wp rule (fun _ => I) s

variable {rule : Rule S τ} {I : τ → Prop}

theorem Keeps.pure (a : α) : (pure a : Program S α).Keeps rule I := fun _ h => h

theorem Keeps.bind (mono : rule.Mono) {x : Program S α} {f : α → Program S β}
    (hx : x.Keeps rule I) (hf : ∀ a, (f a).Keeps rule I) : (x >>= f).Keeps rule I := by
  intro s h
  rw [wp_bind]
  exact wp_mono mono (fun a s h => hf a s h) x s (hx s h)

theorem Keeps.run_bind (mono : rule.Mono) {x : ExceptT ε (Program S) α}
    {f : α → ExceptT ε (Program S) β} (hx : x.run.Keeps rule I)
    (hf : ∀ a, (f a).run.Keeps rule I) : (x >>= f).run.Keeps rule I := by
  rw [ExceptT.run_bind]
  refine hx.bind mono fun r => ?_
  cases r with
  | ok a => exact hf a
  | error e => exact Keeps.pure _

theorem Keeps.run_lift (mono : rule.Mono) {x : Program S α} (hx : x.Keeps rule I) :
    (liftM x : ExceptT ε (Program S) α).run.Keeps rule I :=
  hx.bind mono fun _ => Keeps.pure _

theorem Keeps.run_tryCatch (mono : rule.Mono) {x : ExceptT ε (Program S) α}
    {handle : ε → ExceptT ε (Program S) α} (hx : x.run.Keeps rule I)
    (hhandle : ∀ e, (handle e).run.Keeps rule I) : (tryCatch x handle).run.Keeps rule I := by
  intro s h
  rw [wp_run_tryCatch]
  refine wp_mono mono (fun r s h => ?_) x.run s (hx s h)
  cases r with
  | ok a => exact h
  | error e => exact hhandle e s h

/-- After a part that keeps `I`, a program goes on where `I` holds. -/
theorem Keeps.wp_run_bind (mono : rule.Mono) {x : ExceptT ε (Program S) α}
    {f : α → ExceptT ε (Program S) β} {post : Except ε β → τ → Prop} {s : τ}
    (hx : x.run.Keeps rule I) (h : I s) (error : ∀ e s, I s → post (.error e) s)
    (ok : ∀ a s, I s → (f a).run.wp rule post s) : (x >>= f).run.wp rule post s := by
  rw [Program.wp_run_bind]
  refine wp_mono mono (fun r s h => ?_) x.run s (hx s h)
  cases r with
  | ok a => exact ok a s h
  | error e => exact error e s h

/-- A program keeps what each of its requests keeps. -/
theorem Asks.keeps {x : Program S α} (hx : x.Asks p)
    (h : ∀ r, p r → ∀ (post : S.Reply r → τ → Prop), (∀ x s, I s → post x s) →
      ∀ s, I s → rule r post s) : x.Keeps rule I := by
  induction x with
  | done a => exact fun _ h => h
  | ask r next ih => exact h r hx.1 _ fun y => ih y (hx.2 y)

end Program

end RepoDocs
