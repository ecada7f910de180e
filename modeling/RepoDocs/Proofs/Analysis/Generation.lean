import RepoDocs.Proofs.Analysis.Requests
import RepoDocs.Proofs.Process.Course

/-! Documentation on demand, whatever comes of its calls and of its operations of the store, and
whatever others do in the meantime.  It adds one record or none, and nothing else in the store is its
work. -/

namespace RepoDocs

/-- The store with one more record of documentation. -/
def Store.adding (s : Store) (d : Documentation) : Store :=
  { s with documentation := s.documentation ++ [d] }

/-- A reply that a request for documentation cannot do without is missing.  Files may be missing. -/
def Effect.Fails : (r : Effect) → r.Reply → Prop
  | store _, x => ∃ e, x = .error e
  | call (.file _ _) _, _ => False
  | call (.metadata _) _, x => ∀ m, x ≠ some (.ok m)
  | call (.readme _) _, x => ∀ artifact, x ≠ some (.ok artifact)
  | call (.apiDocs _) _, x => ∀ markdown, x ≠ some (.ok markdown)
  | call (.comments _ _) _, x => ∀ suggestions, x ≠ some (.ok suggestions)
  | call (.quality _) _, x => ∀ report, x ≠ some (.ok report)

namespace Analysis

open Program

variable {config : AnalysisConfig} {id : String} {kind : DocumentationKind}
  {events : List (Event Effects)}

/-! ### The parts of a request -/

/-- What is written of a kind for a repository. -/
def draft (config : AnalysisConfig) (kind : DocumentationKind) (r : Repository) :
    Attempt GenerateError Effects Draft :=
  let mainFiles := FileNode.mainFiles config.maxMainFiles r.files
  match kind with
  | .readme => draftReadme config r mainFiles
  | .api => draftApi config r mainFiles
  | .comments => draftComments config r mainFiles
  | .quality => throw (.unsupportedKind kind.name)

/-- Put what was written for a repository on record. -/
def putDraft (kind : DocumentationKind) (r : Repository) (d : Draft) :
    Attempt GenerateError Effects Documentation :=
  kept (.createDocumentation
    { repositoryId := r.id, kind, content := d.content, metadata := d.metadata })

theorem generate_eq (config : AnalysisConfig) (id : String) (kind : DocumentationKind) :
    generate config id kind =
      repositoryFor id >>= fun r => draft config kind r >>= putDraft kind r := by
  cases kind <;> rfl

theorem run_kept (c : StoreCall) :
    (kept c).run = .ask (.store c) fun x => .done (x.mapError .store) := by
  change Program.ask (S := Effects) (.store c) _ = _
  congr 1
  funext x
  cases x <;> rfl

/-- What looking up a repository comes to. -/
def found (id : String) : Except StoreError (Option Repository) → Except GenerateError Repository
  | .ok (some r) => .ok r
  | .ok none => .error (.repositoryNotFound id)
  | .error e => .error (.store e)

theorem run_repositoryFor (id : String) :
    (repositoryFor id).run = .ask (.store (.getRepository id)) fun x => .done (found id x) := by
  rw [repositoryFor, ExceptT.run_bind, run_kept]
  change Program.ask (S := Effects) (.store (.getRepository id)) _ = _
  congr 1
  funext x
  rcases x with e | (_ | r) <;> rfl

/-- A request first looks up its repository. -/
theorem run_generate (config : AnalysisConfig) (id : String) (kind : DocumentationKind) :
    (generate config id kind).run = .ask (.store (.getRepository id)) fun x =>
      match found id x with
      | .ok r => (draft config kind r >>= putDraft kind r).run
      | .error e => .done (.error e) := by
  rw [generate_eq, ExceptT.run_bind, run_repositoryFor]
  change Program.ask (S := Effects) (.store (.getRepository id)) _ = _
  congr 1
  funext x
  rcases x with e | (_ | r) <;> rfl

theorem asks_draft (config : AnalysisConfig) (kind : DocumentationKind) (r : Repository) :
    (draft config kind r).run.Asks Effect.IsCall := by
  cases kind with
  | readme => exact asks_draftReadme config r _
  | api => exact asks_draftApi config r _
  | comments => exact asks_draftComments config r _
  | quality => exact Asks.pure _

/-! ### Replies that are missing -/

theorem heeds_called {call : Call} {deadline? : Option Nat} {late : call.Reply}
    {f : call.Reply → Attempt GenerateError Effects α}
    (ends : ∀ x, Effect.Fails (.call call deadline?) x →
      ∃ e, (f (x.getD late)).run = .done (.error e))
    (hf : ∀ x, (f x).run.Heeds Effect.Fails) :
    ((liftM (called call deadline? late) : Attempt GenerateError Effects call.Reply) >>= f).run.Heeds
      Effect.Fails :=
  fun x => ⟨ends x, hf (x.getD late)⟩

theorem heeds_written (x : Except SynthesisError α) : (written x).run.Heeds Effect.Fails := by
  cases x <;> exact trivial

/-- What was written late or not at all ends a request. -/
theorem written_missing {operation : String} {x : Option (Except SynthesisError α)}
    {f : α → Attempt GenerateError Effects β} (missing : ∀ a, x ≠ some (.ok a)) :
    ∃ e, (written (x.getD (timedOut operation)) >>= f).run = .done (.error e) := by
  rcases x with _ | e | a
  · exact ⟨_, rfl⟩
  · exact ⟨_, rfl⟩
  · exact (missing a rfl).elim

theorem heeds_suggestAll (config : AnalysisConfig) (files : List SourceFile) :
    (suggestAll config files).run.Heeds Effect.Fails := by
  induction files with
  | nil => exact Heeds.pure _
  | cons f rest ih =>
    refine heeds_called (fun _ missing => written_missing missing) fun x => ?_
    exact (heeds_written x).run_bind fun _ => ih.run_bind fun _ => Heeds.pure _

theorem heeds_draft (config : AnalysisConfig) (kind : DocumentationKind) (r : Repository) :
    (draft config kind r).run.Heeds Effect.Fails := by
  cases kind with
  | readme =>
    refine heeds_called (fun _ missing => written_missing missing) fun x => ?_
    exact (heeds_written x).run_bind fun _ => Heeds.pure _
  | api =>
    refine Heeds.run_lift_bind (asks_fetchMany (fun _ _ => not_false) _) fun files => ?_
    refine heeds_called (fun _ missing => written_missing missing) fun x => ?_
    exact (heeds_written x).run_bind fun _ => Heeds.pure _
  | comments =>
    refine Heeds.run_lift_bind (asks_fetchMany (fun _ _ => not_false) _) fun files => ?_
    exact (heeds_suggestAll config files).run_bind fun _ => Heeds.pure _
  | quality => exact trivial

theorem heeds_kept (c : StoreCall) : (kept c).run.Heeds Effect.Fails := by
  rw [run_kept]
  rintro x
  refine ⟨?_, trivial⟩
  rintro ⟨e, rfl⟩
  exact ⟨_, rfl⟩

theorem heeds_generate (config : AnalysisConfig) (id : String) (kind : DocumentationKind) :
    (generate config id kind).run.Heeds Effect.Fails := by
  rw [generate_eq, repositoryFor]
  refine ((heeds_kept _).run_bind fun r? => ?_).run_bind fun r =>
    (heeds_draft config kind r).run_bind fun d => heeds_kept _
  cases r? <;> exact trivial

/-! ### What a request makes of the store -/

/-- What a request has made of the store: nothing, or it has ended well and what it replies was put on
record, once. -/
inductive Delivers (k : Circumstances) (id : String) (kind : DocumentationKind) (s s' : Store) :
    Program Effects (Except GenerateError Documentation) → Prop
  | nothing {p} (unfinished : ∀ d, p ≠ .done (.ok d)) (others : k.Others s s') :
      Delivers k id kind s s' p
  | record {d : Documentation} {s₁ : Store} (repository : d.repositoryId = id)
      (ofKind : d.kind = kind) (before : k.Others s s₁) (after : k.Others (s₁.adding d) s') :
      Delivers k id kind s s' (.done (.ok d))

variable {k : Circumstances} {s s₁ s' : Store}

theorem Delivers.of_others {p} (others : k.Others s s₁) (h : Delivers k id kind s₁ s' p) :
    Delivers k id kind s s' p := by
  cases h with
  | nothing unfinished later => exact .nothing unfinished (others.trans later)
  | record repository ofKind before after =>
    exact .record repository ofKind (others.trans before) after

theorem others_of_calls (along : k.Along s events s') (calls : ∀ v ∈ events, v.request.IsCall) :
    k.Others s s' :=
  along.others_of_idle fun v hv c hc => (hc ▸ calls v hv : (Effect.store c).IsCall)

theorem delivers_putDraft {r : Repository} {d : Draft} {p}
    (leads : (putDraft kind r d).run.Leads events p) (along : k.Along s events s') :
    Delivers k r.id kind s s' p := by
  rw [putDraft, run_kept] at leads
  cases leads with
  | here => exact .nothing nofun along.others_of_nil
  | ask x rest =>
    obtain ⟨rfl, rfl⟩ := rest.eq_of_done
    rcases along.of_store with ⟨e, rfl, later⟩ | ⟨s₁, now, before, rfl, later⟩
    · exact .nothing nofun later.others_of_nil
    · exact .record rfl rfl before later.others_of_nil

theorem delivers_draft {r : Repository} {p}
    (leads : (draft config kind r >>= putDraft kind r).run.Leads events p)
    (along : k.Along s events s') : Delivers k r.id kind s s' p := by
  rcases leads.of_run_bind with ⟨q, drafting, ends⟩ | ⟨d, first, second, rfl, drafting, putting⟩
  · refine .nothing (fun d hp => ?_) (others_of_calls along (drafting.asks (asks_draft _ _ _)))
    obtain ⟨e, -, he⟩ := ends _ hp
    cases he
  · obtain ⟨s₁, along₁, along₂⟩ := along.of_append
    exact (delivers_putDraft putting along₂).of_others
      (others_of_calls along₁ (drafting.asks (asks_draft _ _ _)))

theorem id_of_found {x : Except StoreError (Option Repository)} {r : Repository}
    (admitted : k.Admits (.store (.getRepository id)) x) (h : found id x = .ok r) : r.id = id := by
  rcases admitted with ⟨e, -, rfl⟩ | ⟨s, now, rfl⟩
  · cases h
  · cases known : s.repository? id with
    | none => simp [Store.perform, known, found] at h
    | some r' =>
      simp only [Store.perform, known, found, Except.ok.injEq] at h
      exact h ▸ (Store.mem_of_repository? known).2

theorem delivers_generate {p} (leads : (generate config id kind).run.Leads events p)
    (along : k.Along s events s') : Delivers k id kind s s' p := by
  have admitted := along.admits
  rw [run_generate] at leads
  cases leads with
  | here => exact .nothing nofun along.others_of_nil
  | @ask _ _ rest _ x goesOn =>
    obtain ⟨s₁, before, later⟩ : ∃ s₁, k.Others s s₁ ∧ k.Along s₁ rest s' := by
      rcases along.of_store with ⟨e, -, later⟩ | ⟨s₁, now, before, -, later⟩
      · exact ⟨s, .refl, later⟩
      · exact ⟨s₁, before, later⟩
    refine .of_others before ?_
    cases sought : found id x with
    | error e =>
      simp only [sought] at goesOn
      obtain ⟨rfl, rfl⟩ := goesOn.eq_of_done
      exact .nothing nofun later.others_of_nil
    | ok r =>
      simp only [sought] at goesOn
      have hid : r.id = id := id_of_found (admitted _ List.mem_cons_self) sought
      exact hid ▸ delivers_draft goesOn later

/-- How a request begins: it looks up its repository, and goes no further where there is none or where
a report on the quality is asked for. -/
def Begins (id : String) (kind : DocumentationKind) (events : List (Event Effects))
    (p : Program Effects (Except GenerateError Documentation)) : Prop :=
  events = [] ∧ (∀ a, p ≠ .done a) ∨
    ∃ (x : Except StoreError (Option Repository)) (later : List (Event Effects)),
      events = ⟨.store (.getRepository id), x⟩ :: later ∧
      (x = .ok none → later = [] ∧ p = .done (.error (.repositoryNotFound id))) ∧
      (kind = .quality → later = [] ∧ ∃ e, p = .done (.error e) ∧
        ∀ r, x = .ok (some r) → e = .unsupportedKind "quality")

theorem begins_generate {p} (leads : (generate config id kind).run.Leads events p) :
    Begins id kind events p := by
  rw [run_generate] at leads
  cases leads with
  | here => exact .inl ⟨rfl, nofun⟩
  | ask x goesOn =>
    refine .inr ⟨x, _, rfl, ?_, ?_⟩
    · rintro rfl
      exact goesOn.eq_of_done
    · rintro rfl
      rcases x with e | (_ | r)
      · obtain ⟨rfl, rfl⟩ := goesOn.eq_of_done
        exact ⟨rfl, _, rfl, nofun⟩
      · obtain ⟨rfl, rfl⟩ := goesOn.eq_of_done
        exact ⟨rfl, _, rfl, nofun⟩
      · obtain ⟨rfl, rfl⟩ := goesOn.eq_of_done
        exact ⟨rfl, _, rfl, fun _ _ => rfl⟩

/-- A request for documentation, wherever it has come to and however the source, the writer and the
store behave, has put nothing on record unless it has ended well; then it is what it replies, for the
repository and of the kind.  The first reply that it cannot do without and does not get ends it with a
failure.  An unknown repository and the kind of quality reports are refused before any call. -/
theorem generate_keeps_all_or_nothing (config : AnalysisConfig) (id : String)
    (kind : DocumentationKind) {k : Circumstances} {events : List (Event Effects)}
    {p : Program Effects (Except GenerateError Documentation)} {s s' : Store}
    (leads : (generate config id kind).run.Leads events p) (along : k.Along s events s') :
    Delivers k id kind s s' p ∧
      (∀ v ∈ events, Effect.Fails v.request v.reply → ∃ e, p = .done (.error e)) ∧
      Begins id kind events p :=
  ⟨delivers_generate leads along,
    fun _ hv missing => (heeds_generate config id kind).eq_error leads hv missing,
    begins_generate leads⟩

/-- A store with a repository of two files. -/
def twoFilesKept : Store where
  repositories := [{
    id := "r", url := "https://github.com/o/r", name := "r", owner := "o"
    files := [.file "a.py" none, .file "b.py" none], createdAt := ⟨0, 0⟩ }]

/-- A source in which each file holds its own name, and a writer that has comments on one of them. -/
def halfCommented : (c : Call) → c.Reply
  | .metadata _ => .error (.other "no metadata")
  | .file _ path => .ok path
  | .comments _ file =>
    if file = "a.py" then .ok [⟨1, "what for?", .warning, none⟩]
    else .error ⟨"generate comments", "too long"⟩
  | .readme _ | .apiDocs _ | .quality _ => .error ⟨"write", "nothing to write"⟩

/-- The comments on the first file are lost when there are none on the second one. -/
theorem generate_keeps_nothing_half_commented :
    ∃ events p s', (generate {} "r" .comments).run.Leads events p ∧
      (Circumstances.quiet .unary halfCommented).Along twoFilesKept events s' ∧
      ⟨.call (.comments "a.py" "a.py") none, some (.ok [⟨1, "what for?", .warning, none⟩])⟩ ∈ events ∧
      (∃ e, p = .done (.error e)) ∧ s' = twoFilesKept := by
  have leads := leads_eventsIn (S := Effects) (Circumstances.quietReply .unary halfCommented)
    (generate {} "r" .comments).run twoFilesKept
  have along := Circumstances.along_quiet .unary halfCommented (generate {} "r" .comments).run
    twoFilesKept
  obtain ⟨delivers, fails, -⟩ := generate_keeps_all_or_nothing {} "r" .comments leads along
  obtain ⟨e, failed⟩ := fails
    ⟨.call (.comments "b.py" "b.py") none, some (.error ⟨"generate comments", "too long"⟩)⟩
    (List.mem_of_getElem? (i := 4) (by with_unfolding_all rfl)) nofun
  refine ⟨_, _, _, leads, along, List.mem_of_getElem? (i := 3) (by with_unfolding_all rfl),
    ⟨e, failed⟩, ?_⟩
  rw [failed] at delivers
  cases delivers with
  | nothing _ others => exact Circumstances.eq_of_quiet others

end Analysis

end RepoDocs
