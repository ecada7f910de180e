import RepoDocs.Proofs.Process.Weakest
import RepoDocs.Proofs.Session.Basic

/-! The turns of one operation.  While it is at work, nothing else happens, so what has to hold before
its program says all that it does up to its end.  A program that makes no request that takes its time
does come to its end. -/

namespace RepoDocs

/-- A request to which the reply comes at once. -/
def Control.Immediate : Control → Prop
  | effect (.store _) | start _ | running => True
  | _ => False

namespace Session

variable {c : Conditions} {s s' : Session} {o : Operation}

/-- The session when the operation at work has ended or begun to wait. -/
def idle (s : Session) : Session := { s with active? := none }

/-- What has to hold of the rest of a session before each request of the operation at work.  Nothing
is said about requests that take their time. -/
def turnRule (c : Conditions) : Rule Controls Session
  | .effect (.store call), post => fun s =>
    (c.fails call → ∀ e, post (.error e) s) ∧
      ∀ now, post (s.store.perform c.names now call).1
        { s with store := (s.store.perform c.names now call).2 }
  | .start job, post => fun s =>
    post () { s with
      registered := s.registered ++ [job]
      ready := s.ready ++ [(Operation.background job).task c.config] }
  | .running, post => fun s => post s.registered.length s
  | .join job, post => fun s => job ∉ s.registered → post false s
  | _, _ => fun _ => True

theorem turnRule_mono (c : Conditions) : (turnRule c).Mono := by
  intro r post post' h s hr
  cases r with
  | effect e =>
    cases e with
    | store call => exact ⟨fun fails e => h _ _ (hr.1 fails e), fun now => h _ _ (hr.2 now)⟩
    | call call deadline? => trivial
  | pause ms => trivial
  | start job => exact h _ _ hr
  | running => exact h _ _ hr
  | join job => exact fun absent => h _ _ (hr absent)

/-- The operation is at work, and what is left of it leads to `post`. -/
def Bound (c : Conditions) (o : Operation) (post : o.Result → Session → Prop) (s : Session) :
    Prop :=
  ∃ p : Program Controls o.Result, s.active? = some ⟨o, p⟩ ∧ p.wp (turnRule c) post s.idle

theorem Bound.turn {post : o.Result → Session → Prop} (h : Bound c o post s)
    (turn : Turn c s s') : Bound c o post s' := by
  obtain ⟨p, active, hp⟩ := h
  cases turn with
  | failed e fails active' =>
    cases active.symm.trans active'
    exact ⟨_, rfl, hp.1 fails e⟩
  | performed now active' =>
    cases active.symm.trans active'
    exact ⟨_, rfl, hp.2 now⟩
  | started active' =>
    cases active.symm.trans active'
    exact ⟨_, rfl, hp⟩
  | counted active' =>
    cases active.symm.trans active'
    exact ⟨_, rfl, hp⟩
  | unregistered absent active' =>
    cases active.symm.trans active'
    exact ⟨_, rfl, hp absent⟩

theorem Bound.turns {post : o.Result → Session → Prop} (h : Bound c o post s)
    (turns : Turns c s s') : Bound c o post s' := by
  induction turns with
  | refl => exact h
  | tail _ turn ih => exact ih.turn turn

/-- Where the program leads to `post`, the operation ends so. -/
theorem Turns.wp {p : Program Controls o.Result} {post : o.Result → Session → Prop}
    {a : o.Result} (h : Turns c s s') (begun : s.active? = some ⟨o, p⟩)
    (ended : s'.active? = some ⟨o, .done a⟩) (hp : p.wp (turnRule c) post s.idle) :
    post a s'.idle := by
  have bound : Bound c o post s := ⟨p, begun, hp⟩
  obtain ⟨p', active, hp'⟩ := bound.turns h
  cases active.symm.trans ended
  exact hp'

/-- An operation that has come to its end makes no more turns. -/
theorem Turns.eq_of_done {a : o.Result} (h : Turns c s s')
    (ended : s.active? = some ⟨o, .done a⟩) : s' = s := by
  rcases Relation.ReflTransGen.cases_head h with rfl | ⟨s₁, turn, -⟩
  · rfl
  · cases turn with
    | failed e fails active => cases ended.symm.trans active
    | performed now active => cases ended.symm.trans active
    | started active => cases ended.symm.trans active
    | counted active => cases ended.symm.trans active
    | unregistered absent active => cases ended.symm.trans active

/-- An operation none of whose requests takes its time can go on to its end. -/
theorem exists_turns {p : Program Controls o.Result} (hp : p.Asks Control.Immediate)
    (active : s.active? = some ⟨o, p⟩) :
    ∃ s' a, Turns c s s' ∧ s'.active? = some ⟨o, .done a⟩ := by
  induction p generalizing s with
  | done a => exact ⟨s, a, .refl, active⟩
  | ask r next ih =>
    have onward {s₁ : Session} {x : Controls.Reply r} (turn : Turn c s s₁)
        (h : s₁.active? = some ⟨o, next x⟩) :
        ∃ s' a, Turns c s s' ∧ s'.active? = some ⟨o, .done a⟩ := by
      obtain ⟨s', a, turns, ended⟩ := ih x (hp.2 x) h
      exact ⟨s', a, .head turn turns, ended⟩
    cases r with
    | effect e =>
      cases e with
      | store call => exact onward (.performed ⟨0, 0⟩ active) rfl
      | call call deadline? => exact hp.1.elim
    | pause ms => exact hp.1.elim
    | start job => exact onward (.started active) rfl
    | running => exact onward (.counted active) rfl
    | join job => exact hp.1.elim

/-- A step of a session leaves the store as it is or carries out one operation of it. -/
theorem Step.store (h : Step c s s') :
    s'.store = s.store ∨ ∃ now call, s'.store = (s.store.perform c.names now call).2 := by
  cases h with
  | turn h =>
    cases h with
    | performed now active => exact .inr ⟨now, _, rfl⟩
    | _ => exact .inl rfl
  | _ => exact .inl rfl

/-- The operation at work goes on as the session does. -/
theorem Turns.steps (h : Turns c s s') : Steps c s s' :=
  Relation.ReflTransGen.mono (fun _ _ => Step.turn) _ _ h

end Session

end RepoDocs
