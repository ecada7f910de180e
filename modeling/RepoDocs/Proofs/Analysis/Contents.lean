import RepoDocs.Proofs.Analysis.Drafting
import RepoDocs.Proofs.Documentation.Suggestions

/-! What the texts on record hold.  The text of comments is read as the comments that the writer gave,
each with its file, and the text of a quality report as the value that is kept beside it. -/

namespace RepoDocs

open Json

/-- The comments that the writer has given on a file, each with the path of the file. -/
def Event.comments : Event Effects → List CommentSuggestion
  | ⟨.call (.comments text file) _, some (.ok suggestions)⟩ =>
    Analysis.tagged ⟨file, text⟩ suggestions
  | _ => []

/-- The request puts no documentation on record. -/
def Effect.PutsNothing : Effect → Prop
  | store (.createDocumentation _) => False
  | _ => True

/-- The request fetches a file. -/
def Effect.IsFetch : Effect → Prop
  | call (.file _ _) _ => True
  | _ => False

/-- What is demanded of documentation that is put on record, in view of the events before. -/
def Effect.Puts (demand : NewDocumentation → List (Event Effects) → Prop) :
    Effect → List (Event Effects) → Prop
  | store (.createDocumentation n), before => demand n before
  | _, _ => True

theorem Effect.puts_of_putsNothing {demand : NewDocumentation → List (Event Effects) → Prop}
    {r : Effect} (h : r.PutsNothing) (before : List (Event Effects)) : r.Puts demand before := by
  rcases r with c | _
  · cases c with
    | createDocumentation n => exact h.elim
    | _ => trivial
  · trivial

theorem Effect.IsCall.putsNothing {r : Effect} (h : r.IsCall) : r.PutsNothing := by
  cases r with
  | store c => exact h.elim
  | call c deadline? => trivial

theorem Circumstances.Admits.put {k : Circumstances} {n : NewDocumentation} {d : Documentation}
    (h : k.Admits (.store (.createDocumentation n)) (.ok d)) :
    d.kind = n.kind ∧ d.content = n.content ∧ d.metadata = n.metadata := by
  rcases h with ⟨e, -, h⟩ | ⟨s, now, h⟩
  · cases h
  · cases h
    exact ⟨rfl, rfl, rfl⟩

namespace Analysis

open Program

section Puts

variable {k : Circumstances} {demand : NewDocumentation → List (Event Effects) → Prop}
  {config : AnalysisConfig} {events : List (Event Effects)}

/-- What has to hold of the events before a request, so that the demand on all documentation that is
put on record is met. -/
abbrev putting (k : Circumstances) (demand : NewDocumentation → List (Event Effects) → Prop) :
    Rule Effects (List (Event Effects)) :=
  telling (Effect.Puts demand) k.Admits

theorem keeps_event {x : Program Effects α} (v : Event Effects) (h : x.Asks Effect.PutsNothing) :
    x.Keeps (putting k demand) (v ∈ ·) :=
  h.keeps_telling (fun _ => Effect.puts_of_putsNothing) fun _ _ _ _ => List.mem_append_left _

theorem wp_putting_trivial {x : Program Effects α} (h : x.Asks Effect.PutsNothing)
    (events : List (Event Effects)) : x.wp (putting k demand) (fun _ _ => True) events :=
  h.keeps_telling (I := fun _ => True) (fun _ => Effect.puts_of_putsNothing)
    (fun _ _ _ _ => id) events trivial

/-- A program may go on in any way from a part of it that puts nothing on record. -/
theorem wp_putting_bind {ε : Type} {x : ExceptT ε (Program Effects) α}
    {f : α → ExceptT ε (Program Effects) β} (h : x.run.Asks Effect.PutsNothing)
    (rest : ∀ a later, (f a).run.wp (putting k demand) (fun _ _ => True) later) :
    (x >>= f).run.wp (putting k demand) (fun _ _ => True) events := by
  rw [wp_run_bind]
  refine wp_mono telling_mono (fun r later _ => ?_) _ _ (wp_putting_trivial h events)
  cases r with
  | ok a => exact rest a later
  | error e => trivial

/-! ### Comments -/

/-- A text and a value that hold the comments given so far. -/
def HoldsComments (content : String) (metadata : Value) (events : List (Event Effects)) : Prop :=
  let suggestions := Value.array ((events.flatMap Event.comments).map CommentSuggestion.toJson)
  content = suggestions.pretty ∧ metadata = .object [("suggestions", suggestions.sorted)]

theorem keeps_comments_fetchMany {url : String} {deadline? : Option Nat} (paths : List String)
    (l : List CommentSuggestion) :
    (fetchMany url deadline? paths).Keeps (putting k demand)
      (fun events => events.flatMap Event.comments = l) := by
  refine (asks_fetchMany (p := Effect.IsFetch) (fun _ => trivial) paths).keeps_telling ?_ ?_
  · rintro (_ | ⟨c, _⟩) fetch _
    · exact fetch.elim
    · trivial
  · rintro (_ | ⟨c, _⟩) fetch x events h
    · exact fetch.elim
    · cases c with
      | file url path => simpa [Event.comments] using h
      | _ => exact fetch.elim

theorem wp_suggestAll (files : List SourceFile)
    {post : Except GenerateError (List CommentSuggestion) → List (Event Effects) → Prop}
    (failed : ∀ e later, post (.error e) later)
    (h : ∀ l later, later.flatMap Event.comments = events.flatMap Event.comments ++ l →
      post (.ok l) later) :
    (suggestAll config files).run.wp (putting k demand) post events := by
  induction files generalizing post events with
  | nil => exact h [] events (List.append_nil _).symm
  | cons f rest ih =>
    rw [suggestAll, wp_run_bind, wp_run_lift]
    refine ⟨trivial, fun x _ => ?_⟩
    rcases x with _ | e | l
    · exact failed _ _
    · exact failed _ _
    · -- The comments on the later files come behind those on this one.
      change (suggestAll config rest >>= _).run.wp _ _ _
      rw [wp_run_bind]
      refine ih (fun e later => failed e later) fun l' later gained => h _ later ?_
      rw [gained, List.flatMap_append, List.append_assoc]
      simp [Event.comments, tagged]

theorem wp_draftComments {r : Repository} {mainFiles : List String}
    (none : events.flatMap Event.comments = [])
    {post : Except GenerateError Draft → List (Event Effects) → Prop}
    (failed : ∀ e later, post (.error e) later)
    (h : ∀ x later, HoldsComments x.content x.metadata later → post (.ok x) later) :
    (draftComments config r mainFiles).run.wp (putting k demand) post events := by
  have mono : (putting k demand).Mono := telling_mono
  rw [draftComments]
  refine ((keeps_comments_fetchMany _ []).run_lift mono).wp_run_bind mono none
    (fun e later _ => failed e later) fun files later none => ?_
  rw [wp_run_bind]
  refine wp_suggestAll files failed fun l later gained => h _ later ?_
  rw [none, List.nil_append] at gained
  exact ⟨by rw [gained], by rw [gained]⟩

/-- Comments are put on record together with nothing but what holds them. -/
def DemandsComments (kind : DocumentationKind) (n : NewDocumentation)
    (before : List (Event Effects)) : Prop :=
  n.kind = kind ∧ (kind = .comments → HoldsComments n.content n.metadata before)

theorem wp_putting_generate (config : AnalysisConfig) (id : String) (kind : DocumentationKind) :
    (generate config id kind).run.wp (putting k (DemandsComments kind)) (fun _ _ => True) [] := by
  rw [run_generate]
  refine ⟨trivial, fun x _ => ?_⟩
  dsimp only
  cases found id x with
  | error e => trivial
  | ok r =>
    dsimp only
    have put (x : Draft) (later : List (Event Effects))
        (h : kind = .comments → HoldsComments x.content x.metadata later) :
        (putDraft kind r x).run.wp (putting k (DemandsComments kind)) (fun _ _ => True) later := by
      rw [putDraft, run_kept]
      exact ⟨⟨rfl, h⟩, fun _ _ => trivial⟩
    by_cases comments : kind = .comments
    · subst comments
      rw [wp_run_bind]
      exact wp_draftComments rfl (fun _ _ => trivial) fun x later h => put x later fun _ => h
    · have silent : (draft config kind r).run.Asks Effect.PutsNothing :=
        (asks_draft config kind r).mono fun _ => Effect.IsCall.putsNothing
      exact wp_putting_bind silent fun x later => put x later fun h => (comments h).elim

theorem HoldsComments.read {content : String} {metadata : Value}
    (h : HoldsComments content metadata events)
    (small : ∀ s ∈ events.flatMap Event.comments, s.line ≤ maxWord) :
    CommentSuggestion.parseList content = .ok (events.flatMap Event.comments) ∧
      ∃ v, metadata.field? "suggestions" = some v ∧
        decodeValue (.list CommentSuggestion.decoder) v = .ok (events.flatMap Event.comments) := by
  obtain ⟨rfl, rfl⟩ := h
  have spelled := CommentSuggestion.spells_toJson_list (events.flatMap Event.comments)
  exact ⟨CommentSuggestion.parseList_array spelled small (writes_pretty _),
    _, rfl, (CommentSuggestion.decodes_sorted_list spelled small).value⟩

/-! ### Quality reports -/

/-- What is put on record is a report that the writer has given before. -/
def DemandsReport (config : AnalysisConfig) (n : NewDocumentation)
    (before : List (Event Effects)) : Prop :=
  ∃ files report, ⟨.call (.quality files) config.deadline?, some (.ok report)⟩ ∈ before ∧
    n.kind = .quality ∧ n.content = report.toJson.pretty ∧ n.metadata = report.toJson.sorted

theorem silent_advance (id : String) (c : Checkpoint) :
    (advance id c).run.Asks Effect.PutsNothing :=
  asks_advance trivial fun _ => trivial

theorem wp_putting_execute (jobId : String) (r : Repository) :
    (execute config jobId r).run.wp (putting k (DemandsReport config)) (fun _ _ => True) events := by
  rw [execute]
  refine wp_putting_bind (silent_advance jobId _) fun _ _ => ?_
  refine wp_putting_bind (asks_onRecord (c := .updateRepository _ _) trivial) fun _ _ => ?_
  refine wp_putting_bind (asks_fetchMetadata trivial) fun _ _ => ?_
  refine wp_putting_bind (asks_onRecord (c := .updateRepository _ _) trivial) fun _ _ => ?_
  refine wp_putting_bind (silent_advance jobId _) fun _ _ => ?_
  refine wp_putting_bind (asks_fetchMany (fun _ => trivial) _).run_lift fun files _ => ?_
  refine wp_putting_bind (silent_advance jobId _) fun _ before => ?_
  rw [wp_run_bind, wp_reportQuality]
  refine ⟨trivial, fun x _ => ?_⟩
  rcases x with _ | e | report
  · trivial
  · trivial
  · -- From here on the reply of the writer is among the events.
    let given : Event Effects := ⟨.call (.quality files) config.deadline?, some (.ok report)⟩
    have mem : given ∈ before ++ [given] := List.mem_append_right _ List.mem_cons_self
    refine (keeps_event given (silent_advance jobId _)).wp_run_bind telling_mono mem
      (fun _ _ _ => trivial) fun _ later mem => ?_
    rw [wp_run_bind, wp_onRecord]
    refine ⟨⟨files, report, mem, rfl, rfl, rfl⟩, fun x _ => ?_⟩
    cases x with
    | error e => trivial
    | ok d =>
      refine wp_putting_bind (asks_onRecord (c := .updateRepository _ _) trivial) fun _ _ => ?_
      exact wp_putting_bind (silent_advance jobId _) fun _ _ => trivial

theorem wp_putting_run (config : AnalysisConfig) (jobId : String) :
    (run config jobId).run.wp (putting k (DemandsReport config)) (fun _ _ => True) [] := by
  refine wp_mono telling_mono (fun _ _ _ => trivial) _ _ (wp_telling_run Effect.PutsNothing
    (fun _ _ => True) (fun _ => Effect.puts_of_putsNothing) trivial (fun _ => trivial)
    (fun _ => trivial) (fun _ _ => trivial) fun r _ _ _ => ?_)
  refine wp_mono telling_mono (fun result _ _ => ?_) _ _ (wp_putting_execute jobId r)
  cases result <;> trivial

end Puts

/-- Suggestions are read back from every text of a list of them, and of an object that holds the list as
its suggestions, whichever of its names each category goes by.  So the comments that a request puts on
record are those that the writer gave it, in their order and each with its file, both as the text and as
the value beside it is read; and the text of the report that a run puts on record is read as the value
beside it, if the numbers of the report are read as they are printed. -/
theorem documentation_reads_back :
    (∀ (suggestions : List CommentSuggestion) (vs : List Value) (v : Value) (text : String),
      vs.Forall₂ CommentSuggestion.Spells suggestions → (∀ s ∈ suggestions, s.line ≤ maxWord) →
      v = .array vs ∨ v = .object [("suggestions", .array vs)] →
      text = v.compact ∨ text = v.pretty ∨ Writes v text.toList →
      CommentSuggestion.parseList text = .ok suggestions) ∧
    (∀ (config : AnalysisConfig) (id : String) (kind : DocumentationKind) (k : Circumstances)
        (first second : List (Event Effects)) (n : NewDocumentation) (d : Documentation)
        (p : Program Effects (Except GenerateError Documentation)) (s s' : Store),
      (generate config id kind).run.Leads
        (first ++ ⟨.store (.createDocumentation n), .ok d⟩ :: second) p →
      k.Along s (first ++ ⟨.store (.createDocumentation n), .ok d⟩ :: second) s' →
      d.kind = .comments → (∀ c ∈ first.flatMap Event.comments, c.line ≤ maxWord) →
      CommentSuggestion.parseList d.content = .ok (first.flatMap Event.comments) ∧
        ∃ v, d.metadata.field? "suggestions" = some v ∧
          decodeValue (.list CommentSuggestion.decoder) v = .ok (first.flatMap Event.comments)) ∧
    (∀ (config : AnalysisConfig) (jobId : String) (k : Circumstances)
        (first second : List (Event Effects)) (n : NewDocumentation) (d : Documentation)
        (p : Program Effects (Except AnalysisError Outcome)) (s s' : Store),
      (run config jobId).run.Leads
        (first ++ ⟨.store (.createDocumentation n), .ok d⟩ :: second) p →
      k.Along s (first ++ ⟨.store (.createDocumentation n), .ok d⟩ :: second) s' →
      ∃ files report, ⟨.call (.quality files) config.deadline?, some (.ok report)⟩ ∈ first ∧
        d.kind = .quality ∧ (report.Legible → parse d.content = .ok d.metadata)) := by
  refine ⟨?_, ?_, ?_⟩
  · intro suggestions vs v text spelled small hv text_of
    have written : Writes v text.toList := by
      rcases text_of with rfl | rfl | written
      · exact writes_compact v
      · exact writes_pretty v
      · exact written
    rcases hv with rfl | rfl
    · exact CommentSuggestion.parseList_array spelled small written
    · exact CommentSuggestion.parseList_object spelled small written
  · intro config id kind k first second n d p s s' leads along comments small
    obtain ⟨ofKind, content, metadata⟩ :=
      (along.admits _ (List.mem_append_right _ List.mem_cons_self)).put
    obtain ⟨kind_eq, holds⟩ := leads.demanded along.admits (wp_putting_generate config id kind)
    rw [content, metadata]
    exact (holds (kind_eq.symm.trans (ofKind.symm.trans comments))).read small
  · intro config jobId k first second n d p s s' leads along
    obtain ⟨ofKind, content, metadata⟩ :=
      (along.admits _ (List.mem_append_right _ List.mem_cons_self)).put
    obtain ⟨files, report, given, quality, text, value⟩ :=
      leads.demanded along.admits (wp_putting_run config jobId)
    refine ⟨files, report, given, ofKind.trans quality, fun legible => ?_⟩
    rw [content, metadata, text, value]
    exact legible.parse_pretty

/-- A suggestion whose category is called its type is read, and so are the comments of a request and the
report of a run that nobody disturbs. -/
theorem documentation_reads_back_commented :
    CommentSuggestion.parseList (Value.object [("suggestions", .array [.object
        [("line", .ofNat 7), ("comment", .string "say \"why\"\n"),
          ("type", .string "warning")]])]).pretty =
      .ok [⟨7, "say \"why\"\n", .warning, none⟩] ∧
    (∃ first n d p s', (generate {} "r" .comments).run.Leads
        (first ++ [⟨.store (.createDocumentation n), .ok d⟩]) p ∧
      (Circumstances.quiet .unary commented).Along twoFilesKept
        (first ++ [⟨.store (.createDocumentation n), .ok d⟩]) s' ∧
      CommentSuggestion.parseList d.content =
        .ok [⟨1, "what for?", .warning, some "a.py"⟩, ⟨1, "what for?", .warning, some "b.py"⟩]) ∧
    ∃ first n d second p s', (run {} "j").run.Leads
        (first ++ ⟨.store (.createDocumentation n), .ok d⟩ :: second) p ∧
      (Circumstances.quiet .unary undescribing).Along Store.single
        (first ++ ⟨.store (.createDocumentation n), .ok d⟩ :: second) s' ∧
      parse d.content = .ok d.metadata := by
  obtain ⟨texts, comments, reports⟩ := documentation_reads_back
  refine ⟨?_, ?_, ?_⟩
  · have spelled : CommentSuggestion.Spells
        (.object [("line", .ofNat 7), ("comment", .string "say \"why\"\n"),
          ("type", .string "warning")]) ⟨7, "say \"why\"\n", .warning, none⟩ :=
      .object (.inr rfl) (.refl _)
    exact texts _ _ _ _ (.cons spelled .nil) (by decide) (.inr rfl) (.inr (.inl rfl))
  · have leads := leads_eventsIn (S := Effects) (Circumstances.quietReply .unary commented)
      (generate {} "r" .comments).run twoFilesKept
    have along := Circumstances.along_quiet .unary commented (generate {} "r" .comments).run
      twoFilesKept
    obtain ⟨first, n, d, split, ofKind, given⟩ : ∃ first n d,
        (generate {} "r" .comments).run.eventsIn (S := Effects)
            (Circumstances.quietReply .unary commented) twoFilesKept =
          first ++ [⟨.store (.createDocumentation n), .ok d⟩] ∧ d.kind = .comments ∧
        first.flatMap Event.comments =
          [⟨1, "what for?", .warning, some "a.py"⟩, ⟨1, "what for?", .warning, some "b.py"⟩] := by
      with_unfolding_all exact ⟨[_, _, _, _, _], _, _, rfl, rfl, rfl⟩
    rw [split] at leads along
    obtain ⟨read, -⟩ := comments {} "r" .comments _ _ _ _ _ _ _ _ leads along ofKind
      (by rw [given]; decide)
    exact ⟨_, _, _, _, _, leads, along, given ▸ read⟩
  · have leads := leads_eventsIn (S := Effects) (Circumstances.quietReply .unary undescribing)
      (run {} "j").run Store.single
    have along := Circumstances.along_quiet .unary undescribing (run {} "j").run Store.single
    obtain ⟨first, n, d, second, split⟩ : ∃ first n d second,
        (run {} "j").run.eventsIn (S := Effects)
            (Circumstances.quietReply .unary undescribing) Store.single =
          first ++ ⟨.store (.createDocumentation n), .ok d⟩ :: second := by
      with_unfolding_all
        exact ⟨[_, _, _, _, _, _, _, _, _, _, _, _, _, _], _, _, [_, _, _], rfl⟩
    rw [split] at leads along
    obtain ⟨files, report, given, -, read⟩ := reports {} "j" _ _ _ _ _ _ _ _ leads along
    have replied : some (.ok report) = some (undescribing (.quality files)) :=
      along.admits _ (List.mem_append_left _ given)
    cases replied
    have score : parse (Value.ofFloat 1).compact = .ok (Value.ofFloat 1) := by
      with_unfolding_all rfl
    exact ⟨_, _, _, _, _, _, leads, along, read ⟨score, List.forall_mem_nil _⟩⟩

end Analysis

end RepoDocs
