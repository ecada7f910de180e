import Mathlib.Data.List.Perm.Basic
import RepoDocs.Proofs.Session.Basic

/-! Sessions that are played move by move.  What `Step` leaves open, a `Move` decides, so that sessions
can be computed; `Steps.of_play` says that they are sessions indeed. -/

namespace RepoDocs.Session

/-- What happens next in a session: an operation is asked for, the operation at an index of those that
are ready goes on, the operation at work makes its next request, at which the store may fail, or a reply
comes to the operation at an index of those that wait. -/
inductive Move where
  | ask (o : Operation)
  | resume (index : Nat)
  | work (now : Instant)
  | fail (e : StoreError)
  | reply (index : Nat) (answer : (c : Call) → Option c.Reply)

/-- The operation at work makes its next request, begins to wait for a reply, or ends. -/
def work (c : Conditions) (now : Instant) (s : Session) : Option Session :=
  match s.active? with
  | none => none
  | some ⟨o, .done _⟩ => some { s with active? := none, registered := o.signOff s.registered }
  | some ⟨o, .ask (.effect (.store call)) next⟩ =>
    let (reply, store) := s.store.perform c.names now call
    some { s with store, active? := some ⟨o, next reply⟩ }
  | some ⟨o, .ask (.effect (.call call deadline?)) next⟩ =>
    some { s with
      active? := none
      waiting := s.waiting ++ [⟨o, .ask (.effect (.call call deadline?)) next⟩] }
  | some ⟨o, .ask (.pause ms) next⟩ =>
    some { s with active? := none, waiting := s.waiting ++ [⟨o, .ask (.pause ms) next⟩] }
  | some ⟨o, .ask (.start job) next⟩ =>
    some { s with
      registered := s.registered ++ [job]
      ready := s.ready ++ [(Operation.background job).task c.config]
      active? := some ⟨o, next ()⟩ }
  | some ⟨o, .ask .running next⟩ => some { s with active? := some ⟨o, next s.registered.length⟩ }
  | some ⟨o, .ask (.join job) next⟩ =>
    if job ∈ s.registered then
      some { s with
        registered := s.registered.erase job
        active? := none
        waiting := s.waiting ++ [⟨o, .ask (.join job) next⟩] }
    else some { s with active? := some ⟨o, next false⟩ }

/-- A reply comes to an operation that waits. -/
def reply (answer : (c : Call) → Option c.Reply) (s : Session) : Task → Option Task
  | ⟨o, .ask (.effect (.call call deadline?)) next⟩ =>
    if deadline?.isSome || (answer call).isSome then some ⟨o, next (answer call)⟩ else none
  | ⟨o, .ask (.pause _) next⟩ => some ⟨o, next ()⟩
  | ⟨o, .ask (.join job) next⟩ =>
    if s.tasks.all fun t => !t.operation.isBackgroundOf job then some ⟨o, next true⟩ else none
  | _ => none

/-- The session after a move, if it can be made. -/
def play (c : Conditions) (s : Session) : Move → Option Session
  | .ask o => some { s with ready := s.ready ++ [o.task c.config] }
  | .resume index =>
    match s.active?, s.ready[index]? with
    | none, some t => some { s with active? := some t, ready := s.ready.eraseIdx index }
    | _, _ => none
  | .work now => s.work c now
  | .fail e =>
    match s.active? with
    | some ⟨o, .ask (.effect (.store _)) next⟩ =>
      some { s with active? := some ⟨o, next (.error e)⟩ }
    | _ => none
  | .reply index answer => do
    let t ← s.reply answer (← s.waiting[index]?)
    return { s with ready := s.ready ++ [t], waiting := s.waiting.eraseIdx index }

/-- The move is one that the conditions of a session allow. -/
def Move.Allowed (c : Conditions) : Move → Prop
  | ask o => c.begins o ∧ o.isBackground = false
  | fail _ => ∀ call, c.fails call
  | _ => True

variable {c : Conditions} {s s' : Session}

theorem perm_cons_eraseIdx {as : List α} {index : Nat} {a : α} (h : as[index]? = some a) :
    as.Perm (a :: as.eraseIdx index) := by
  obtain ⟨hlt, rfl⟩ := List.getElem?_eq_some_iff.1 h
  exact (List.getElem_cons_eraseIdx_perm hlt).symm

theorem Step.of_work {now : Instant} (h : s.work c now = some s') : Step c s s' := by
  unfold work at h
  split at h
  · cases h
  all_goals rename_i active
  · cases h; exact .ended active
  · cases h; exact .turn (.performed now active)
  · cases h; exact .called active
  · cases h; exact .paused active
  · cases h; exact .turn (.started active)
  · cases h; exact .turn (.counted active)
  · split at h
    · cases h; exact .joined ‹_› active
    · cases h; exact .turn (.unregistered ‹_› active)

/-- The reply that comes is one that the session admits. -/
theorem exists_admits_of_reply {answer : (c : Call) → Option c.Reply} {t t' : Task}
    (h : s.reply answer t = some t') :
    ∃ o r next, ∃ x : r.Reply, t = ⟨o, .ask r next⟩ ∧ s.Admits r x ∧ t' = ⟨o, next x⟩ := by
  unfold reply at h
  split at h
  · split at h
    · cases h
      refine ⟨_, _, _, _, rfl, fun hnone => ?_, rfl⟩
      simp_all
    · cases h
  · cases h
    exact ⟨_, _, _, _, rfl, trivial, rfl⟩
  · split at h
    · rename_i hall
      cases h
      exact ⟨_, _, _, _, rfl, ⟨rfl, by simpa using hall⟩, rfl⟩
    · cases h
  · cases h

theorem Step.of_play {m : Move} (allowed : m.Allowed c) (h : s.play c m = some s') :
    Step c s s' := by
  cases m with
  | ask o =>
    cases h
    exact .asked o allowed.1 allowed.2
  | resume index =>
    simp only [play] at h
    split at h
    · cases h
      exact .resumed ‹_› (perm_cons_eraseIdx ‹_›)
    · cases h
  | work now => exact Step.of_work h
  | fail e =>
    simp only [play] at h
    split at h
    · cases h
      exact .turn (.failed e (allowed _) ‹_›)
    · cases h
  | reply index answer =>
    simp only [play, Option.bind_eq_bind, Option.bind_eq_some_iff, Option.pure_def,
      Option.some.injEq] at h
    obtain ⟨t, ht, t', ht', rfl⟩ := h
    obtain ⟨o, r, next, x, rfl, admits, rfl⟩ := exists_admits_of_reply ht'
    exact .replied x (perm_cons_eraseIdx ht) admits

theorem Steps.of_play (moves : List Move) (allowed : ∀ m ∈ moves, m.Allowed c)
    (h : moves.foldlM (play c) s = some s') : Steps c s s' := by
  induction moves generalizing s with
  | nil =>
    cases h
    exact .refl
  | cons m rest ih =>
    rw [List.foldlM_cons, Option.bind_eq_bind, Option.bind_eq_some_iff] at h
    obtain ⟨s₁, first, h⟩ := h
    exact .head (Step.of_play (allowed m (by simp)) first)
      (ih (fun m' hm => allowed m' (by simp [hm])) h)

/-- The move is one of the operation at work. -/
def Move.isTurn : Move → Bool
  | work _ | fail _ => true
  | _ => false

theorem Turn.of_work {now : Instant} (h : s.work c now = some s') (active : s'.active?.isSome) :
    Turn c s s' := by
  unfold work at h
  split at h
  · cases h
  all_goals rename_i active'
  · cases h; simp at active
  · cases h; exact .performed now active'
  · cases h; simp at active
  · cases h; simp at active
  · cases h; exact .started active'
  · cases h; exact .counted active'
  · split at h
    · cases h; simp at active
    · cases h; exact .unregistered ‹_› active'

theorem active_of_play {moves : List Move} (turns : ∀ m ∈ moves, m.isTurn = true)
    (h : moves.foldlM (play c) s = some s') (active : s'.active?.isSome) : s.active?.isSome := by
  cases moves with
  | nil =>
    cases h
    exact active
  | cons m rest =>
    rw [List.foldlM_cons, Option.bind_eq_bind, Option.bind_eq_some_iff] at h
    obtain ⟨s₁, first, -⟩ := h
    cases hs : s.active? with
    | some t => rfl
    | none =>
      have turn := turns m (by simp)
      cases m with
      | work now => simp [play, work, hs] at first
      | fail e => simp [play, hs] at first
      | _ => cases turn

/-- As long as the operation at work remains at work, its moves are its turns. -/
theorem Turns.of_play (moves : List Move) (allowed : ∀ m ∈ moves, m.Allowed c)
    (turns : ∀ m ∈ moves, m.isTurn = true) (h : moves.foldlM (play c) s = some s')
    (active : s'.active?.isSome) : Turns c s s' := by
  induction moves generalizing s with
  | nil =>
    cases h
    exact .refl
  | cons m rest ih =>
    rw [List.foldlM_cons, Option.bind_eq_bind, Option.bind_eq_some_iff] at h
    obtain ⟨s₁, first, h⟩ := h
    obtain ⟨turn, others⟩ := List.forall_mem_cons.1 turns
    obtain ⟨allow, allowed⟩ := List.forall_mem_cons.1 allowed
    refine .head ?_ (ih allowed others h)
    cases m with
    | work now => exact Turn.of_work first (active_of_play others h active)
    | fail e =>
      simp only [play] at first
      split at first
      · cases first
        exact .failed e (allow _) ‹_›
      · cases first
    | _ => cases turn

end RepoDocs.Session
