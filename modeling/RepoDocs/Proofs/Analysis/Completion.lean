import RepoDocs.Proofs.Analysis.Answers
import RepoDocs.Proofs.Process.Alone

/-! A run from its start to its end, where it works alone and each of its calls is replied to: which
calls it makes, in which order, what it replies and what is on record afterwards.  Files that the source
does not have are left out; without metadata or a report on the quality, the job and its repository are
marked as failed. -/

namespace RepoDocs

/-- A request that may take any time. -/
def Effect.Patient : Effect → Prop
  | store _ => True
  | call _ deadline? => deadline? = none

namespace Analysis

open Program

/-- Those of the files at some paths that the source has. -/
def filesAt (reply : (c : Call) → c.Reply) (url : String) (paths : List String) :
    List SourceFile :=
  paths.filterMap fun path =>
    match reply (.file url path) with
    | .ok content => some ⟨path, content⟩
    | .error _ => none

/-- How the run of a job ends, which calls it makes, and the store after it. -/
inductive Analyzed (names : Naming) (config : AnalysisConfig) (reply : (c : Call) → c.Reply)
    (s : Store) (jobId : String) (r : Repository) :
    Except AnalysisError Outcome → List Call → Store → Prop
  | undescribed {e : SourceError} {now later : Instant}
      (metadata : reply (.metadata r.url) = .error e) :
      Analyzed names config reply s jobId r (.error (.source .fetchStructure e))
        [.metadata r.url]
        (s.changed jobId r.id
          (fun j => (j.passing .started now).failing
            (AnalysisError.source .fetchStructure e).message later)
          (·.withStatus .failed))
  | unreported {m : RepositoryMetadata} {e : SynthesisError} {files : List SourceFile}
      {now later : Instant} (metadata : reply (.metadata r.url) = .ok m)
      (fetched : files = filesAt reply r.url (pathsOf config m))
      (quality : reply (.quality files) = .error e) :
      Analyzed names config reply s jobId r (.error (.synthesis .qualityScan e))
        (.metadata r.url :: (pathsOf config m).map (.file r.url) ++ [.quality files])
        (s.changed jobId r.id
          (fun j => (j.passing .contentsFetched now).failing
            (AnalysisError.synthesis .qualityScan e).message later)
          fun r => (r.described m).withStatus .failed)
  | completed {m : RepositoryMetadata} {report : QualityReport} {files : List SourceFile}
      {d : Documentation} {now written : Instant} (metadata : reply (.metadata r.url) = .ok m)
      (fetched : files = filesAt reply r.url (pathsOf config m))
      (quality : reply (.quality files) = .ok report)
      (documentation : d =
        { id := names.documentation s.documentation.length, repositoryId := r.id, kind := .quality
          content := report.toJson.pretty, metadata := report.toJson.sorted
          createdAt := written }) :
      Analyzed names config reply s jobId r
        (.ok {
          repository := (r.described m).withStatus .completed
          mainFiles := mainFilesOf config m
          outlines := files.map fun f => outline f.name f.content
          quality := report
          qualityDocumentationId := d.id })
        (.metadata r.url :: (pathsOf config m).map (.file r.url) ++ [.quality files])
        { s.changed jobId r.id (·.passing .completed now)
            (fun r => (r.described m).withStatus .completed) with
          documentation := s.documentation ++ [d] }

variable {names : Naming} {config : AnalysisConfig} {reply : (c : Call) → c.Reply} {s : Store}
  {made : List Call} {jobId : String} {r : Repository} {job : Job}

/-- Where each call is replied to, its answer is the reply. -/
theorem wp_replying_of_answered {p : Program Effects α} (patient : p.Asks Effect.Patient)
    {post : α → Store × List Answer → Prop} {answers : List Answer}
    (h : p.wp (answered names) post (s, answers)) :
    p.wp (replying names reply) (fun a t => ∃ later, post a (t.1, answers ++ later) ∧
      t.2 = made ++ later.map (·.call) ∧ ∀ v ∈ later, v.reply = reply v.call) (s, made) := by
  induction p generalizing s made answers with
  | done a => exact ⟨[], by rwa [List.append_nil], by simp, nofun⟩
  | ask q next ih =>
    cases q with
    | store c => exact fun now => ih _ (patient.2 _) (h now)
    | call c deadline? =>
      obtain rfl : deadline? = none := patient.1
      refine wp_mono (replying_mono names reply) (fun a t ht => ?_) _ _
        (@ih (some (reply c)) _ (made ++ [c]) (patient.2 _) _ (h _))
      obtain ⟨later, hpost, hcalls, replies⟩ := ht
      refine ⟨⟨c, reply c⟩ :: later, ?_, ?_, List.forall_mem_cons.2 ⟨rfl, replies⟩⟩
      · rwa [List.append_cons]
      · rw [hcalls, List.append_assoc, List.map_cons, List.singleton_append]

theorem Fetched.eq_filesAt {url : String} {paths : List String} {answers : List Answer}
    {files : List SourceFile} (fetched : Fetched url paths answers files)
    (replies : ∀ v ∈ answers, v.reply = reply v.call) :
    answers.map (·.call) = paths.map (.file url) ∧ files = filesAt reply url paths := by
  induction fetched with
  | nil => exact ⟨rfl, rfl⟩
  | @had path content _ _ _ _ ih =>
    obtain ⟨first, replies⟩ := List.forall_mem_cons.1 replies
    have first : reply (.file url path) = .ok content := first.symm
    obtain ⟨calls, files⟩ := ih replies
    exact ⟨congrArg (_ :: ·) calls, by simp [filesAt, first, files]⟩
  | @missed path e _ _ _ _ ih =>
    obtain ⟨first, replies⟩ := List.forall_mem_cons.1 replies
    have first : reply (.file url path) = .error e := first.symm
    obtain ⟨calls, files⟩ := ih replies
    exact ⟨congrArg (_ :: ·) calls, by simp [filesAt, first, files]⟩

theorem Concluded.analyzed {result : Except AnalysisError Outcome} {answers : List Answer}
    {t : Store} (h : Concluded names config s jobId r result answers t)
    (hj : s.job? jobId = some job) (percent : job.percent ≤ Checkpoint.started.percent)
    (replies : ∀ v ∈ answers, v.reply = reply v.call) :
    Analyzed names config reply s jobId r result (answers.map (·.call)) t := by
  cases h with
  | ahead found ahead =>
    obtain rfl := Option.some.inj (hj.symm.trans found)
    exact absurd percent (Nat.not_le.2 ahead)
  | undescribed =>
    have metadata := (replies _ (List.mem_singleton_self _)).symm
    exact .undescribed metadata
  | unreported fetched =>
    obtain ⟨metadata, replies⟩ := List.forall_mem_cons.1 replies
    obtain ⟨fetches, quality⟩ := List.forall_mem_append.1 replies
    obtain ⟨calls, files⟩ := fetched.eq_filesAt fetches
    have quality := (quality _ (List.mem_singleton_self _)).symm
    simpa [calls] using Analyzed.unreported metadata.symm files quality
  | completed fetched documentation =>
    obtain ⟨metadata, replies⟩ := List.forall_mem_cons.1 replies
    obtain ⟨fetches, quality⟩ := List.forall_mem_append.1 replies
    obtain ⟨calls, files⟩ := fetched.eq_filesAt fetches
    have quality := (quality _ (List.mem_singleton_self _)).symm
    simpa [calls] using Analyzed.completed metadata.symm files quality documentation

/-- A run of a job that has not begun passes all its checkpoints or is marked as failed. -/
theorem wp_replying_run (deadline : config.deadline? = none) (hj : s.job? jobId = some job)
    (queued : job.status = .queued) (percent : job.percent ≤ Checkpoint.started.percent)
    (hr : s.repository? job.repositoryId = some r) :
    (run config jobId).run.wp (replying names reply) (fun result t =>
      ∃ calls, t.2 = made ++ calls ∧ Analyzed names config reply s jobId r result calls t.1)
      (s, made) := by
  refine wp_mono (replying_mono names reply) (fun result t ht => ?_) _ _
    (wp_replying_of_answered (asks_run config (fun _ => trivial) (fun _ => deadline) jobId)
      (wp_answered_run config hj queued hr))
  obtain ⟨answers, concluded, calls, replies⟩ := ht
  exact ⟨_, calls, concluded.analyzed hj percent replies⟩

theorem Analyzed.ok_iff {result : Except AnalysisError Outcome} {t : Store}
    (h : Analyzed names config reply s jobId r result made t) :
    (∃ o, result = .ok o) ↔ ∃ m report, reply (.metadata r.url) = .ok m ∧
      reply (.quality (filesAt reply r.url (pathsOf config m))) = .ok report := by
  cases h with
  | undescribed metadata => simp [metadata]
  | unreported metadata fetched quality =>
    subst fetched
    simp [metadata, quality]
  | completed metadata fetched quality documentation =>
    subst fetched
    simp [metadata, quality]

/-- A run that works alone on a queued job, which is at 0 percent by `Job.Consistent.queued`, comes to its
end.  It asks for the metadata, for the first main files one after the other and for a report on those
that the source has, and is a success if and only if it gets the metadata and the report; `Analyzed`
says what it replies and leaves on record. -/
theorem run_analyzes (config : AnalysisConfig) (jobId : String) {σ : Type} {w : World σ}
    {calls : σ → List Call}
    (replies : w.Replies reply calls) (background : String → Program Effects Unit)
    {e : Engine σ} (alone : e.Alone) (deadline : config.deadline? = none)
    (hj : e.store.job? jobId = some job) (queued : job.status = .queued)
    (percent : job.percent ≤ Checkpoint.started.percent)
    (hr : e.store.repository? job.repositoryId = some r) :
    ∃ bound result e' made,
      (∀ limit ≥ bound,
        e.run w background limit (run config jobId).run.lift = (some result, e')) ∧
      calls e'.world = calls e.world ++ made ∧
      Analyzed w.names config reply e.store jobId r result made e'.store ∧
      ((∃ o, result = .ok o) ↔ ∃ m report, reply (.metadata r.url) = .ok m ∧
        reply (.quality (filesAt reply r.url (pathsOf config m))) = .ok report) := by
  obtain ⟨bound, result, e', ended, ⟨made, hmade, analyzed⟩, -, -⟩ :=
    Engine.exists_run replies background (run config jobId).run alone
      (wp_replying_run deadline hj queued percent hr)
  exact ⟨bound, result, e', made, ended, hmade, analyzed, analyzed.ok_iff⟩

/-- A world in which calls are replied to at once. -/
def answering (names : Naming) (reply : (c : Call) → c.Reply) : World (List Call) where
  names
  now _ := ⟨0, 0⟩
  begin c calls := (.after 0 (reply c), calls ++ [c])
  storeFailure? _ calls := (none, calls)

theorem answering_replies (names : Naming) (reply : (c : Call) → c.Reply) :
    (answering names reply).Replies reply id :=
  ⟨fun _ _ => ⟨0, _, rfl, rfl⟩, fun _ _ => ⟨_, rfl, rfl⟩⟩

/-- What a source of two files tells about them. -/
def twoFiles : RepositoryMetadata where
  name := "r"
  owner := "o"
  files := [.file "b.py" none, .file "a.py" none]

theorem pathsOf_twoFiles : pathsOf {} twoFiles = ["a.py", "b.py"] := by
  have sorted : FileNode.sortForest twoFiles.files = [.file "a.py" none, .file "b.py" none] := by
    simp [twoFiles, FileNode.sortForest, FileNode.sortedEach, FileNode.sorted, FileNode.file,
      FileNode.precedes, List.mergeSort]
  rw [pathsOf, mainFilesOf, sorted]
  decide +kernel

/-- A source that gives out only one of its files, and a writer that has no remarks. -/
def halfReadable : (c : Call) → c.Reply
  | .metadata _ => .ok twoFiles
  | .file _ path => if path = "b.py" then .ok "" else .error (.notFound path)
  | .quality _ => .ok { score := 1 }
  | .readme _ | .apiDocs _ | .comments _ _ => .error ⟨"write", "nothing to write"⟩

/-- The file that cannot be had is left out of the report. -/
theorem run_analyzes_half_readable :
    ∃ bound o e', (∀ limit ≥ bound,
        Engine.run (answering .unary halfReadable) (fun _ => .done ()) limit
          (run {} "j").run.lift { world := [], store := .single } = (some (.ok o), e')) ∧
      e'.world = [.metadata "https://github.com/o/r", .file "https://github.com/o/r" "a.py",
        .file "https://github.com/o/r" "b.py", .quality [⟨"b.py", ""⟩]] ∧
      e'.store.jobs.map (·.progress) = ["100"] := by
  obtain ⟨bound, result, e', made, ended, hmade, analyzed, -⟩ :=
    run_analyzes {} "j" (answering_replies .unary halfReadable) (fun _ => .done ())
      (e := { world := [], store := .single }) ⟨rfl, rfl⟩ rfl rfl rfl (by decide) rfl
  generalize hstore : e'.store = store at analyzed
  cases analyzed with
  | undescribed metadata => cases metadata
  | unreported metadata fetched quality => cases quality
  | completed metadata fetched quality documentation =>
    cases metadata
    subst fetched
    refine ⟨bound, _, e', ended, hmade.trans ?_, ?_⟩
    · rw [pathsOf_twoFiles]
      rfl
    · rw [hstore]
      rfl

end Analysis

end RepoDocs
