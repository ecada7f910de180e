import RepoDocs.Proofs.Analysis.Description
import RepoDocs.Proofs.Analysis.Generation
import RepoDocs.Proofs.Process.Crowd

/-! What documentation on demand is written from, where each call comes back and the store does not
fail: which files are fetched, what is sent to the writer, and what is put on record of its replies.
Other runs may be under way in the background. -/

namespace RepoDocs

/-- Each call comes back with its reply, after any time, and no operation of the store fails. -/
structure World.Provides (w : World σ) (reply : (c : Call) → c.Reply) : Prop where
  call : ∀ c u, ∃ ms, (w.begin c u).1 = .after ms (reply c)
  store : ∀ c u, (w.storeFailure? c u).1 = none

/-- Calls without a deadline come back with their replies, and no operation of the store fails. -/
structure Circumstances.Provides (k : Circumstances) (reply : (c : Call) → c.Reply) : Prop where
  call : ∀ c x, k.replies c none x → x = some (reply c)
  store : ∀ c e, ¬k.fails c e

theorem World.Provides.circumstances {w : World σ} {reply : (c : Call) → c.Reply}
    (provides : w.Provides reply) : w.circumstances.Provides reply where
  call := by
    rintro c x ⟨u, ms, replied⟩
    obtain ⟨ms', hc⟩ := provides.call c u
    rw [hc] at replied
    cases replied
    rfl
  store := by
    rintro c e ⟨u, fails⟩
    cases (provides.store c u).symm.trans fails

theorem World.Provides.timely {w : World σ} {reply : (c : Call) → c.Reply}
    (provides : w.Provides reply) (c : Call) (deadline? : Option Nat) (u : σ) :
    ∃ ms x, (w.begin c u).1.within deadline? = .after ms x := by
  obtain ⟨ms, hc⟩ := provides.call c u
  rw [hc]
  cases deadline? with
  | none => exact ⟨_, _, rfl⟩
  | some limit =>
    unfold Conduct.within
    dsimp only
    split <;> exact ⟨_, _, rfl⟩

/-- The call that an event is. -/
def Event.call? : Event Effects → Option Call
  | ⟨.call c _, _⟩ => some c
  | ⟨.store _, _⟩ => none

/-- A call that has come back. -/
def Event.answered (reply : (c : Call) → c.Reply) (c : Call) : Event Effects :=
  ⟨.call c none, some (reply c)⟩

theorem filterMap_answered (reply : (c : Call) → c.Reply) (calls : List Call) :
    (calls.map (Event.answered reply)).filterMap Event.call? = calls := by
  rw [List.filterMap_map]
  exact List.filterMap_some

namespace Analysis

open Program Json

/-! ### What is written from what -/

variable (config : AnalysisConfig) (reply : (c : Call) → c.Reply)

/-- The entries of a file in an API reference: its functions by their names, then the methods of each
class by the names of the class and the method. -/
def entries (f : SourceFile) : List (String × FunctionOutline) :=
  let o := outline f.name f.content
  o.functions.map (fun g => (g.name, g)) ++
    o.classes.flatMap fun c => c.methods.map fun m => (c.name ++ "." ++ m.name, m)

/-- The number of functions and methods of some files. -/
def entryCount : List SourceFile → Nat
  | [] => 0
  | f :: rest =>
    let o := outline f.name f.content
    o.functions.length + (o.classes.flatMap (·.methods)).length + entryCount rest

/-- The call for comments on a file. -/
def askComments (f : SourceFile) : Call := .comments f.content f.name

/-- The comments on a file, each with the path of the file, whatever path it had. -/
def tagged (f : SourceFile) (suggestions : List CommentSuggestion) : List CommentSuggestion :=
  suggestions.map fun s => { s with file? := some f.name }

/-- Comments are asked for file by file until there are none for one of them. -/
inductive Suggested (files : List SourceFile) :
    List Call → Except GenerateError (List CommentSuggestion) → Prop
  | all {suggestions : List (List CommentSuggestion)}
      (written : files.Forall₂ (fun f l => reply (askComments f) = .ok l) suggestions) :
      Suggested files (files.map askComments) (.ok (List.zipWith tagged files suggestions).flatten)
  | upTo {before after : List SourceFile} {f : SourceFile} {e : SynthesisError}
      (split : files = before ++ f :: after)
      (written : ∀ g ∈ before, ∃ l, reply (askComments g) = .ok l)
      (failed : reply (askComments f) = .error e) :
      Suggested files ((before ++ [f]).map askComments) (.error (.synthesis e))

/-- What is written of a kind for a repository, and the calls for it. -/
inductive Drafted (r : Repository) :
    DocumentationKind → List Call → Except GenerateError Draft → Prop
  | readme {request : ReadmeRequest} {x : Except SynthesisError ReadmeArtifact}
      (asked : request = { name := r.name, description? := r.description?
                           files := FileNode.mainFiles config.maxMainFiles r.files, tree := r.files })
      (written : reply (.readme request) = x) :
      Drafted r .readme [.readme request]
        ((x.mapError .synthesis).map fun artifact => ⟨artifact.content,
          .object (Value.optionalField "bannerAssetPath" .string artifact.bannerAssetPath?)⟩)
  | api {paths : List String} {files : List SourceFile} {functions : List ApiFunction}
      {x : Except SynthesisError String}
      (first : paths = (FileNode.mainFiles config.maxMainFiles r.files).take config.apiDocFiles)
      (fetched : files = filesAt reply r.url paths)
      (asked : functions = (files.flatMap entries).map fun (name, g) =>
        { name, parameters := g.parameters.map Parameter.signature })
      (written : reply (.apiDocs functions) = x) :
      Drafted r .api (paths.map (.file r.url) ++ [.apiDocs functions])
        ((x.mapError .synthesis).map fun markdown => ⟨markdown,
          .object [("files", .ofStrings (files.map (·.name))),
            ("functionCount", .ofNat (entryCount files))]⟩)
  | comments {paths : List String} {files : List SourceFile} {calls : List Call}
      {x : Except GenerateError (List CommentSuggestion)}
      (first : paths = (FileNode.mainFiles config.maxMainFiles r.files).take config.commentFiles)
      (fetched : files = filesAt reply r.url paths) (written : Suggested reply files calls x) :
      Drafted r .comments (paths.map (.file r.url) ++ calls) (x.map fun suggestions =>
        ⟨(Value.array (suggestions.map CommentSuggestion.toJson)).pretty,
          .object [("suggestions", (Value.array (suggestions.map CommentSuggestion.toJson)).sorted)]⟩)
  | quality : Drafted r .quality [] (.error (.unsupportedKind "quality"))

variable {config reply}

theorem ofFiles_eq (files : List SourceFile) :
    ApiFunction.ofFiles (files.map fun f => outline f.name f.content) =
      (files.flatMap entries).map fun (name, g) =>
        { name, parameters := g.parameters.map Parameter.signature } := by
  simp [ApiFunction.ofFiles, ApiFunction.ofFile, ApiFunction.ofFunction, entries, List.flatMap_map,
    List.map_flatMap, Function.comp_def, toString]

theorem length_flatMap_entries (files : List SourceFile) :
    (files.flatMap entries).length = entryCount files := by
  induction files with
  | nil => rfl
  | cons f rest ih => simp [entryCount, entries, ih, List.length_flatMap, Nat.add_assoc]

theorem Suggested.cons {f : SourceFile} {rest : List SourceFile} {l : List CommentSuggestion}
    {calls : List Call} {x : Except GenerateError (List CommentSuggestion)}
    (written : reply (askComments f) = .ok l) (h : Suggested reply rest calls x) :
    Suggested reply (f :: rest) (askComments f :: calls) (x.map fun later => tagged f l ++ later) := by
  cases h with
  | all later => exact .all (.cons written later)
  | @upTo before after g e split later failed =>
    have split : f :: rest = (f :: before) ++ g :: after := congrArg (f :: ·) split
    refine .upTo split ?_ failed
    rintro g (_ | ⟨_, hg⟩)
    · exact ⟨l, written⟩
    · exact later g hg

/-! ### The calls of a request -/

section Told

variable {k : Circumstances} {events : List (Event Effects)} {r : Repository}

theorem wp_told_called (provides : k.Provides reply) {c : Call} {late : c.Reply}
    {post : c.Reply → List (Event Effects) → Prop}
    (h : post (reply c) (events ++ [.answered reply c])) :
    (called c none late).wp (told k) post events := by
  refine ⟨trivial, fun x admitted => ?_⟩
  obtain rfl := provides.call c x admitted
  exact h

theorem wp_told_fetchMany (provides : k.Provides reply) {url : String} (paths : List String)
    {post : List SourceFile → List (Event Effects) → Prop}
    (h : post (filesAt reply url paths)
      (events ++ (paths.map (.file url)).map (.answered reply))) :
    (fetchMany url none paths).wp (told k) post events := by
  induction paths generalizing post events with
  | nil => simpa [fetchMany, filesAt] using h
  | cons path rest ih =>
    rw [fetchMany, wp_bind]
    refine wp_told_called provides ?_
    rw [wp_bind]
    refine ih ?_
    rw [List.append_assoc, List.singleton_append]
    cases found : reply (.file url path) with
    | ok content => simpa [filesAt, found] using h
    | error e => simpa [filesAt, found] using h

theorem wp_told_suggestAll (provides : k.Provides reply) (deadline : config.deadline? = none)
    (files : List SourceFile)
    {post : Except GenerateError (List CommentSuggestion) → List (Event Effects) → Prop}
    (h : ∀ calls x, Suggested reply files calls x →
      post x (events ++ calls.map (.answered reply))) :
    (suggestAll config files).run.wp (told k) post events := by
  induction files generalizing post events with
  | nil => simpa [suggestAll] using h _ _ (.all .nil)
  | cons f rest ih =>
    rw [suggestAll, wp_run_bind, wp_run_lift, deadline]
    refine wp_told_called provides ?_
    cases written : reply (.comments f.content f.name) with
    | error e => exact h _ _ (.upTo (List.nil_append _).symm nofun written)
    | ok l =>
      have later calls x (rest : Suggested reply _ calls x) := h _ _ (rest.cons written)
      change (suggestAll config rest >>= _).run.wp _ _ _
      rw [wp_run_bind]
      refine ih fun calls x suggested => ?_
      have goal := later calls x suggested
      rw [List.append_assoc]
      cases x with
      | ok suggestions => exact goal
      | error e => exact goal

theorem wp_told_draft (provides : k.Provides reply) (deadline : config.deadline? = none)
    (kind : DocumentationKind) {post : Except GenerateError Draft → List (Event Effects) → Prop}
    (h : ∀ calls x, Drafted config reply r kind calls x →
      post x (events ++ calls.map (.answered reply))) :
    (draft config kind r).run.wp (told k) post events := by
  cases kind with
  | readme =>
    change (draftReadme config r _).run.wp _ _ _
    rw [draftReadme, wp_run_bind, wp_run_lift, deadline]
    refine wp_told_called provides ?_
    have drafted := h _ _ (.readme rfl rfl)
    revert drafted
    cases reply (.readme _) <;> exact id
  | api =>
    change (draftApi config r _).run.wp _ _ _
    rw [draftApi, wp_run_bind, wp_run_lift, deadline]
    refine wp_told_fetchMany provides _ ?_
    dsimp only
    rw [wp_run_bind, wp_run_lift, ofFiles_eq]
    refine wp_told_called provides ?_
    have drafted := h _ _ (.api rfl rfl rfl rfl)
    rw [List.map_append, ← List.append_assoc] at drafted
    simp only [List.length_map, length_flatMap_entries]
    revert drafted
    cases reply (.apiDocs _) <;> exact id
  | comments =>
    change (draftComments config r _).run.wp _ _ _
    rw [draftComments, wp_run_bind, wp_run_lift, deadline]
    refine wp_told_fetchMany provides _ ?_
    dsimp only
    rw [wp_run_bind]
    refine wp_told_suggestAll provides deadline _ fun calls x suggested => ?_
    have drafted := h _ _ (.comments rfl rfl suggested)
    rw [List.map_append, ← List.append_assoc] at drafted
    cases x with
    | ok suggestions => exact drafted
    | error e => exact drafted
  | quality =>
    have drafted := h _ _ .quality
    rw [List.map_nil, List.append_nil] at drafted
    exact drafted

/-- What a request replies, and puts on record, of what was written. -/
inductive Kept (id : String) (kind : DocumentationKind) :
    Except GenerateError Draft → Except GenerateError Documentation → Prop
  | draft {x : Draft} {d : Documentation} (repository : d.repositoryId = id) (ofKind : d.kind = kind)
      (content : d.content = x.content) (metadata : d.metadata = x.metadata) :
      Kept id kind (.ok x) (.ok d)
  | failure {e : GenerateError} : Kept id kind (.error e) (.error e)

theorem Kept.of_ok {id : String} {kind : DocumentationKind} {x : Draft}
    {result : Except GenerateError Documentation} (h : Kept id kind (.ok x) result) :
    ∃ d, result = .ok d ∧ d.kind = kind ∧ d.content = x.content ∧ d.metadata = x.metadata := by
  cases h with
  | draft repository ofKind content metadata => exact ⟨_, rfl, ofKind, content, metadata⟩

theorem wp_told_putDraft (provides : k.Provides reply) (kind : DocumentationKind) (x : Draft) :
    (putDraft kind r x).run.wp (told k) (fun result later =>
      Kept r.id kind (.ok x) result ∧ later.filterMap Event.call? = events.filterMap Event.call?)
      events := by
  rw [putDraft, run_kept]
  refine ⟨trivial, fun y admitted => ?_⟩
  have calls {c : StoreCall} (y : Except StoreError c.Reply) :
      (events ++ [(⟨.store c, y⟩ : Event Effects)]).filterMap Event.call? =
        events.filterMap Event.call? := by
    simp [Event.call?]
  rcases admitted with ⟨e, fails, -⟩ | ⟨s, now, rfl⟩
  · exact (provides.store _ e fails).elim
  · exact ⟨.draft rfl rfl rfl rfl, calls _⟩

/-- What a request has asked of the source and of the writer, and what it replies. -/
def Served (config : AnalysisConfig) (reply : (c : Call) → c.Reply) (r : Repository)
    (kind : DocumentationKind) (result : Except GenerateError Documentation)
    (events : List (Event Effects)) : Prop :=
  ∃ x, Drafted config reply r kind (events.filterMap Event.call?) x ∧ Kept r.id kind x result

theorem wp_told_write (provides : k.Provides reply) (deadline : config.deadline? = none)
    (kind : DocumentationKind) :
    (draft config kind r >>= putDraft kind r).run.wp (told k) (Served config reply r kind) [] := by
  rw [wp_run_bind]
  refine wp_told_draft provides deadline kind fun calls x drafted => ?_
  rw [List.nil_append]
  cases x with
  | ok x =>
    refine wp_mono telling_mono (fun result later h => ?_) _ _ (wp_told_putDraft provides kind x)
    refine ⟨_, ?_, h.1⟩
    rwa [h.2, filterMap_answered]
  | error e =>
    refine ⟨_, ?_, .failure⟩
    rwa [filterMap_answered]

end Told

/-- The main files that a run has found are those of the repository as it is on record, until another
run changes that record. -/
theorem mainFiles_of_completed {k : Circumstances} {events : List (Event Effects)} {jobId : String}
    {o : Outcome} {s s' : Store} {r : Repository}
    (leads : (run config jobId).run.Leads events (.done (.ok o))) (along : k.Along s events s')
    (spares : k.Spares o.repository.id) (known : (s.repository? o.repository.id).isSome)
    (hr : s'.repository? o.repository.id = some r) :
    o.mainFiles = FileNode.mainFiles config.maxMainFiles r.files := by
  obtain ⟨r₀, hr₀⟩ := Option.isSome_iff_exists.1 known
  obtain ⟨m, -, mainFiles, hr'⟩ := (completes_run leads along).repository? along spares hr₀
  cases hr.symm.trans hr'
  exact mainFiles

/-- A request for documentation that is given enough time comes to its end, whatever runs are under way
in the background, if each call comes back, no call has a deadline and the store does not fail.  It
makes the calls that `Drafted` lists, in their order, and puts on record what was written of their
replies.  The main files that it starts from are those that a completed run has found, if no later run
has changed the record of the repository. -/
theorem generate_serves (config : AnalysisConfig) (id : String) (kind : DocumentationKind) {σ : Type}
    {w : World σ} {reply : (c : Call) → c.Reply} (provides : w.Provides reply)
    (background : String → Program Effects Unit) {e : Engine σ} {r : Repository}
    (deadline : config.deadline? = none) (hr : e.store.repository? id = some r) :
    (∃ bound result e' events,
      (∀ limit ≥ bound,
        e.run w background limit (generate config id kind).run.lift = (some result, e')) ∧
      (generate config id kind).run.Leads events (.done result) ∧
      w.circumstances.Along e.store events e'.store ∧
      Served config reply r kind result events ∧
      Delivers w.circumstances id kind e.store e'.store (.done result)) ∧
    ∀ (k : Circumstances) jobId events o s, (run config jobId).run.Leads events (.done (.ok o)) →
      k.Along s events e.store → k.Spares id → o.repository.id = id → (s.repository? id).isSome →
      FileNode.mainFiles config.maxMainFiles r.files = o.mainFiles := by
  obtain ⟨-, rfl⟩ := Store.mem_of_repository? hr
  constructor
  · let p := (draft config kind r >>= putDraft kind r).run
    -- The record is read before anything in the background has its turn.
    let e₁ : Engine σ := { e with world := (w.storeFailure? (.getRepository r.id) e.world).2 }
    have looked : e.performStore w (.getRepository r.id) = (.ok (some r), e₁) := by
      have unfailed := provides.store (.getRepository r.id) e.world
      unfold Engine.performStore
      split
      · rename_i fails
        rw [fails] at unfailed
        cases unfailed
      · rename_i world unfailing
        simp only [Store.perform, hr, e₁, unfailing]
    have begun limit : e.run w background limit (generate config r.id kind).run.lift =
        e₁.run w background limit p.lift := by
      rw [run_generate, Program.lift, Program.rename, Engine.run, Engine.begin_store, looked]
      rfl
    obtain ⟨bound, result, e', ended⟩ := Engine.exists_run_ends background w provides.timely p e₁
    obtain ⟨events, p', leads, along, finished⟩ := Engine.run_courses background bound w p e₁
    rw [ended bound (Nat.le_refl bound)] at along finished
    obtain rfl := finished result rfl
    have served := leads.wp along.admits (wp_told_write provides.circumstances deadline kind)
    have whole : (generate config r.id kind).run.Leads
        (⟨.store (.getRepository r.id), .ok (some r)⟩ :: events) (.done result) := by
      rw [run_generate]
      exact .ask (S := Effects) _ leads
    have alongWhole : w.circumstances.Along e.store
        (⟨.store (.getRepository r.id), .ok (some r)⟩ :: events) e'.store := by
      have first := Engine.performStore_along w e (.getRepository r.id)
      rw [looked] at first
      exact first.append along
    refine ⟨bound, result, e', _, fun limit hlimit => ?_, whole, alongWhole, ?_,
      delivers_generate whole alongWhole⟩
    · rw [begun, ended limit hlimit]
    · exact served
  · intro k jobId events o s leads along spares hid known
    rw [← hid] at spares known hr
    exact (mainFiles_of_completed leads along spares known hr).symm

/-- A source in which each file holds its own name, and a writer that has one comment on each file and
puts it elsewhere. -/
def commented : (c : Call) → c.Reply
  | .metadata _ => .error (.other "no metadata")
  | .file _ path => .ok path
  | .comments _ _ => .ok [⟨1, "what for?", .warning, some "elsewhere.py"⟩]
  | .readme _ | .apiDocs _ | .quality _ => .error ⟨"write", "nothing to write"⟩

theorem answering_provides (names : Naming) (reply : (c : Call) → c.Reply) :
    (answering names reply).Provides reply :=
  ⟨fun _ _ => ⟨0, rfl⟩, fun _ _ => rfl⟩

/-- The comments on record name the files that they are about. -/
theorem generate_serves_commented :
    ∃ bound d e', (∀ limit ≥ bound,
        Engine.run (answering .unary commented) (fun _ => .done ()) limit
          (generate {} "r" .comments).run.lift { world := [], store := twoFilesKept } =
            (some (.ok d), e')) ∧
      d.content = (Value.array ([⟨1, "what for?", .warning, some "a.py"⟩,
        ⟨1, "what for?", .warning, some "b.py"⟩].map CommentSuggestion.toJson)).pretty := by
  obtain ⟨⟨bound, result, e', events, ended, -, -, served, -⟩, -⟩ :=
    generate_serves {} "r" .comments (answering_provides .unary commented) (fun _ => .done ())
      (e := { world := [], store := twoFilesKept }) rfl rfl
  obtain ⟨x, drafted, kept⟩ := served
  generalize events.filterMap Event.call? = calls at drafted
  cases drafted with
  | @comments _ files _ _ first fetched written =>
    have main : FileNode.mainFiles ({} : AnalysisConfig).maxMainFiles
        [.file "a.py" none, .file "b.py" none] = ["a.py", "b.py"] := by decide +kernel
    rw [main] at first
    subst first
    obtain rfl : files = [⟨"a.py", "a.py"⟩, ⟨"b.py", "b.py"⟩] := fetched
    cases written with
    | upTo _ _ failed => cases failed
    | all written =>
      obtain ⟨_, _, ⟨⟩, second, rfl⟩ := List.forall₂_cons_left_iff.1 written
      obtain ⟨_, _, ⟨⟩, none, rfl⟩ := List.forall₂_cons_left_iff.1 second
      obtain rfl := List.forall₂_nil_left_iff.1 none
      obtain ⟨d, rfl, -, content, -⟩ := kept.of_ok
      exact ⟨bound, d, e', ended, content⟩

end Analysis

end RepoDocs
