import RepoDocs.Proofs.CommandLine.Analyses

/-! Commands that analyze a repository.  Each is refused before any request, or it has one job, whose end
it waits for: what it prints, writes and fails with follows that job. -/

namespace RepoDocs.CommandLine

open Analysis

variable {σ : Type}

/-! ### Outcomes -/

/-- A failure of which nothing is printed or left to be written. -/
structure Outcome.Fails (o : Outcome) : Prop where
  errors : o.errors ≠ []
  stdout : o.stdout = ""
  write? : o.write? = none

/-- The detail of a repository is printed, and its job has ended.  The command succeeds if the job has
completed. -/
structure Outcome.Reports (o : Outcome) (d : Detail) (j : Job) : Prop where
  job : d.job? = some j
  terminal : j.isTerminal = true
  stdout : o.stdout = d.toJson.pretty ++ "\n"
  write? : o.write? = none
  success : o.errors = [] ↔ j.status = .completed

/-- The content of documentation is all that is written to the file, or printed with one newline. -/
structure Outcome.Delivers (o : Outcome) (output? : Option String) (d : Documentation) : Prop where
  errors : o.errors = []
  stdout : o.stdout = if output?.isSome then "" else d.content ++ "\n"
  write? : o.write? = output?.map fun path => (path, d.content)

theorem Outcome.failed_fails (message : String) (cause? : Option String) :
    (Outcome.failed message cause?).Fails := ⟨nofun, rfl, rfl⟩

theorem Outcome.ofTrouble_fails (t : Trouble) : (Outcome.ofTrouble (.error t)).Fails :=
  failed_fails t.message t.cause?

theorem deliver_delivers (output? : Option String) (d : Documentation) :
    (deliver output? d.content).Delivers output? d := by
  cases output? <;> exact ⟨rfl, rfl, rfl⟩

/-- An analysis falls short unless its job has completed. -/
theorem shortfall?_eq_none {d : Detail} {j : Job} (job : d.job? = some j) :
    shortfall? d = none ↔ j.status = .completed := by
  simp [shortfall?, job]

/-! ### Sessions -/

/-- What a command that analyzes a repository works with, unless it is refused. -/
def prepare (s : Surroundings σ) (config? : Option String) (url : String) :
    Except Trouble (Configuration × Clients) := do
  checkAddress url
  let config ← configure s config?
  return (config, ← Clients.ofEnvironment config s.env?)

/-- A program in front of the analyses of some clients, where nothing is on record. -/
def session (s : Surroundings σ) (config : Configuration) (clients : Clients) (limit : Nat)
    (program : Program Controls α) (st : σ) : Option α × Engine σ :=
  Engine.run (clients.world s) (background config.analysis) limit program { world := st }

theorem exists_parsed {s : Surroundings σ} {config? : Option String} {url : String}
    {x : Configuration × Clients} (prepared : prepare s config? url = .ok x) :
    ∃ c, Coordinates.parse url = .ok c := by
  cases parsed : Coordinates.parse url with
  | ok c => exact ⟨c, rfl⟩
  | error f =>
    simp only [prepare, checkAddress, parsed] at prepared
    cases prepared

/-- What becomes of `analyze`: it ends when the job of its submission has, and in time. -/
structure Follows (sub : Submission) (pause : Nat) (x : Nat → Option Outcome × Engine σ) : Prop where
  onRecord : ∀ limit, ∃ r j, sub.Sole (x limit).2.store r j ∧
    ∀ o, (x limit).1 = some o → o.Reports ⟨r, some j, (x limit).2.store.documentation⟩ j
  inTime : ∀ time limit, time + pause ≤ limit → sub.Over (x time).2.store →
    ∃ o, (x limit).1 = some o ∧ (x limit).2.store = (x time).2.store

/-- What becomes of `generate`: it fails, or delivers documentation that is on record of a job that has
completed.  What it sends after the analysis, it sends for such a job, and before there is nothing that
asks for documentation. -/
structure Produces (clients : Clients) (log : σ → List Http.Request) (sent : List Http.Request)
    (sub : Submission) (kind : DocumentationKind) (output? : Option String)
    (analysis : Option (Except AnalysisError Detail) × Engine σ) (x : Option Outcome × Engine σ) :
    Prop where
  onRecord : ∃ r j, sub.Sole x.2.store r j ∧ ∀ o, x.1 = some o → o.Fails ∨
    j.status = .completed ∧ ∃ d ∈ x.2.store.documentation, d.kind = kind ∧ o.Delivers output? d
  requests : ∃ before after, log x.2.world = sent ++ before ++ after ∧
    (∀ q ∈ before, ¬clients.Documents q) ∧ (after ≠ [] → log analysis.2.world = sent ++ before ∧
      ∃ r j, sub.Sole analysis.2.store r j ∧ j.status = .completed ∧
        analysis.1 = some (.ok ⟨r, some j, analysis.2.store.documentation⟩))

/-- Where nothing asked for documentation, nothing is sent after the analysis. -/
theorem Produces.of_undocumented {clients : Clients} {log : σ → List Http.Request}
    {sent : List Http.Request} {sub : Submission} {kind : DocumentationKind} {output? : Option String}
    {analysis : Option (Except AnalysisError Detail) × Engine σ} {x : Option Outcome × Engine σ}
    {r : Repository} {j : Job} (kept : clients.Undocumented log sent x.2.world)
    (sole : sub.Sole x.2.store r j) (fails : ∀ o, x.1 = some o → o.Fails) :
    Produces clients log sent sub kind output? analysis x := by
  obtain ⟨before, sofar, other⟩ := kept
  refine ⟨⟨r, j, sole, fun o ended => .inl (fails o ended)⟩, before, [], ?_, other, ?_⟩
  · rw [List.append_nil]
    exact sofar
  · exact fun h => (h rfl).elim

section Session

variable {s : Surroundings σ} {config : Configuration} {clients : Clients} {url : String}
  {c : Coordinates} (parsed : Coordinates.parse url = .ok c) (st : σ)

theorem pause_pos (config : Configuration) : 0 < config.pause := Nat.le_max_right ..

theorem sole_of_tended {sub : Submission} {w : World σ} {kept : σ → Prop} {e : Engine σ}
    (h : e.Tended w (sub.charge kept)) : ∃ r j, sub.Sole e.store r j := by
  rcases h.live_or_closed with ⟨r, j, sole, -⟩ | ⟨r, j, sole, -⟩ <;> exact ⟨r, j, sole⟩

/-- What is printed of a detail says whether its job has completed. -/
theorem reports_of_detail {d : Detail} {j : Job} (job : d.job? = some j)
    (terminal : j.isTerminal = true) :
    ({ stdout := d.toJson.pretty ++ "\n"
       errors := (shortfall? d).toList.map (·.message) } : Outcome).Reports d j where
  job := job
  terminal := terminal
  stdout := rfl
  write? := rfl
  success := by
    rw [← shortfall?_eq_none job, List.map_eq_nil_iff, Option.toList_eq_nil_iff]

/-- The outcome of `analyze` once the analysis has come to its end. -/
def analyzeOutcome : Except AnalysisError Detail → Outcome
  | .error e => .ofTrouble (.error (.ofAnalysis e))
  | .ok d => { stdout := d.toJson.pretty ++ "\n", errors := (shortfall? d).toList.map (·.message) }

theorem session_analyze (s : Surroundings σ) (config : Configuration) (clients : Clients)
    (url : String) (st : σ) (limit : Nat) :
    session s config clients limit (analyzeProgram config (limit + 1) url) st =
      ((analysisUpTo (clients.world s) config.analysis config.pause url st limit).1.map analyzeOutcome,
        (analysisUpTo (clients.world s) config.analysis config.pause url st limit).2) := by
  unfold session analyzeProgram analysisUpTo
  rw [Engine.run_bind]
  rcases Engine.run _ _ limit (analysis config.pause (limit + 1) url).run _ with ⟨_ | _ | d, e⟩ <;> rfl

/-- The outcome of `generate` once the request for documentation has come to its end. -/
def generateOutcome (output? : Option String) : Except GenerateError Documentation → Outcome
  | .error e => .ofTrouble (.error (.ofGeneration e))
  | .ok d => deliver output? d.content

/-- A session of `generate` goes on after the analysis where the job has completed. -/
theorem session_generate (s : Surroundings σ) (config : Configuration) (clients : Clients)
    (url : String) (kind : DocumentationKind) (output? : Option String) (st : σ) (limit : Nat) :
    session s config clients limit (generateProgram config (limit + 1) url kind output?) st =
      match analysisUpTo (clients.world s) config.analysis config.pause url st limit with
      | (some (.ok d), e) =>
        match shortfall? d with
        | some t => (some (.ofTrouble (.error t)), e)
        | none =>
          let x := e.run (clients.world s) (background config.analysis) limit
            (generate config.analysis d.repository.id kind).run.lift
          (x.1.map (generateOutcome output?), x.2)
      | (some (.error failure), e) => (some (.ofTrouble (.error (.ofAnalysis failure))), e)
      | (none, e) => (none, e) := by
  unfold session generateProgram analysisUpTo
  rw [Engine.run_bind]
  rcases Engine.run _ _ limit (analysis config.pause (limit + 1) url).run _ with ⟨_ | _ | d, e⟩
  · rfl
  · rfl
  · dsimp only
    cases shortfall? d with
    | some t => rfl
    | none =>
      dsimp only
      refine (Engine.run_bind ..).trans ?_
      let generation := (generate config.analysis d.repository.id kind).run
      rw [show (liftM generation : Program Controls _) = generation.lift from rfl]
      rcases e.run (clients.world s) (background config.analysis) limit generation.lift with
        ⟨_ | _ | d', e'⟩ <;> rfl

include parsed

/-- However the servers behave, `analyze` follows the job of its submission. -/
theorem analyze_follows :
    Follows (firstSubmission s.names (s.now st) url c) config.pause fun limit =>
      session s config clients limit (analyzeProgram config (limit + 1) url) st := by
  let sub := firstSubmission s.names (s.now st) url c
  have bears : (clients.world s).Bears (sub.charge fun _ => True) :=
    ⟨fun _ _ => rfl, fun _ _ _ _ => trivial⟩
  have positive := pause_pos config
  constructor
  · intro limit
    obtain ⟨stands, -⟩ := analyzed config.analysis bears positive parsed trivial limit
    rw [session_analyze]
    generalize analysisUpTo _ _ _ _ _ limit = x at stands ⊢
    cases stands with
    | waits tended =>
      obtain ⟨r, j, sole⟩ := sole_of_tended tended
      exact ⟨r, j, sole, nofun⟩
    | @ended e r j tended sole terminal =>
      refine ⟨r, j, sole, fun o ended => ?_⟩
      obtain rfl := Option.some.inj ended
      exact reports_of_detail rfl terminal
  · intro time limit inTime closed
    rw [session_analyze] at closed ⊢
    rw [session_analyze]
    dsimp only at closed ⊢
    have ends := analyzed_in_time config.analysis bears positive parsed trivial inTime closed
    generalize analysisUpTo _ _ _ _ _ limit = x at ends ⊢
    obtain ⟨ended, store⟩ := ends
    obtain ⟨result, hresult⟩ := Option.isSome_iff_exists.1 ended
    exact ⟨analyzeOutcome result, congrArg (Option.map analyzeOutcome) hresult, store⟩

variable {log : σ → List Http.Request} (logs : ∀ r u, log (s.exchange r u).2 = log u ++ [r])
include logs

/-- However the servers behave, `generate` produces documentation for a job that has completed. -/
theorem generate_produces (kind : DocumentationKind) (output? : Option String) (limit : Nat) :
    Produces clients log (log st) (firstSubmission s.names (s.now st) url c) kind output?
      (analysisUpTo (clients.world s) config.analysis config.pause url st limit)
      (session s config clients limit (generateProgram config (limit + 1) url kind output?) st) := by
  let sub := firstSubmission s.names (s.now st) url c
  have bears : (clients.world s).Bears (sub.charge (clients.Undocumented log (log st))) :=
    bears_undocumented logs sub (log st)
  obtain ⟨stands, -⟩ := analyzed config.analysis bears (pause_pos config) parsed
    ⟨[], (List.append_nil _).symm, List.forall_mem_nil _⟩ limit
  rw [session_generate]
  generalize analysisUpTo _ _ _ _ _ limit = x at stands ⊢
  cases stands with
  | waits tended =>
    obtain ⟨r, j, sole⟩ := sole_of_tended tended
    exact .of_undocumented tended.kept sole nofun
  | @ended e r j tended sole terminal =>
    have shown := sub.charge_shownBy (clients.Undocumented log (log st))
    obtain ⟨alone, -⟩ := tended.alone shown.apart ⟨r, j, sole, terminal⟩
    dsimp only
    cases short : shortfall? (⟨r, some j, e.store.documentation⟩ : Detail) with
    | some t =>
      refine .of_undocumented tended.kept sole fun o ended => ?_
      obtain rfl := Option.some.inj ended
      exact Outcome.ofTrouble_fails t
    | none =>
      obtain ⟨before, sofar, other⟩ := tended.kept
      have completed := (shortfall?_eq_none rfl).1 short
      obtain ⟨sole', ⟨after, later⟩, written⟩ := generation clients logs alone sole
        config.analysis kind (background config.analysis) limit
      dsimp only
      generalize e.run (clients.world s) (background config.analysis) limit _ = x at sole' later written ⊢
      refine ⟨⟨r, j, sole', fun o ended => ?_⟩, before, after, ?_, other, fun _ => ?_⟩
      · obtain ⟨result, hx, rfl⟩ := Option.map_eq_some_iff.1 ended
        cases result with
        | error failure => exact .inl (Outcome.ofTrouble_fails _)
        | ok d =>
          obtain ⟨stored, ofKind⟩ := written d hx
          exact .inr ⟨completed, d, stored, ofKind, deliver_delivers output? d⟩
      · exact later.trans (congrArg (· ++ after) sofar)
      · exact ⟨sofar, r, j, sole, completed, rfl⟩

end Session

/-! ### Commands -/

/-- The address of the repository that a command analyzes. -/
def Command.address? : Command → Option String
  | analyze url | generate url _ _ => some url
  | file _ _ | extract _ => none

section Preparation

variable {s : Surroundings σ} {config? : Option String} {url : String} {st : σ}

theorem exists_error_of_unreadable (unreadable : ∀ c, Coordinates.parse url ≠ .ok c) :
    ∃ t, prepare s config? url = .error t := by
  cases prepared : prepare s config? url with
  | error t => exact ⟨t, rfl⟩
  | ok x =>
    obtain ⟨c, parsed⟩ := exists_parsed prepared
    exact (unreadable c parsed).elim

theorem withAnalysis_of_error {t : Trouble} (refused : prepare s config? url = .error t) (limit : Nat)
    (program : Configuration → Program Controls Outcome) :
    withAnalysis s limit config? url program st = (some (.ofTrouble (.error t)), st) := by
  unfold prepare at refused
  rw [withAnalysis, refused]

theorem withAnalysis_of_ok {config : Configuration} {clients : Clients}
    (prepared : prepare s config? url = .ok (config, clients)) (limit : Nat)
    (program : Configuration → Program Controls Outcome) :
    withAnalysis s limit config? url program st =
      ((session s config clients limit (program config) st).1,
        (session s config clients limit (program config) st).2.world) := by
  unfold prepare at prepared
  rw [withAnalysis, prepared]
  rfl

end Preparation

/-- What `generate` does unless reports on the quality are asked for. -/
theorem run_generate {kind : DocumentationKind} (other : kind ≠ .quality) (s : Surroundings σ)
    (limit : Nat) (url : String) (output? config? : Option String) (st : σ) :
    Invocation.run s limit ⟨.generate url kind output?, config?⟩ st =
      withAnalysis s limit config? url
        (fun config => generateProgram config (limit + 1) url kind output?) st := by
  cases kind with
  | quality => exact (other rfl).elim
  | readme | api | comments => rfl

/-- Reports on the quality are not generated, and a command that cannot be prepared fails before any
request. -/
theorem run_refused (s : Surroundings σ) {i : Invocation} {url : String}
    (address : i.command.address? = some url)
    (reason : (∃ output?, i.command = .generate url .quality output?) ∨
      ∃ t, prepare s i.config? url = .error t) (limit : Nat) (st : σ) :
    ∃ o, i.run s limit st = (some o, st) ∧ o.Fails := by
  obtain ⟨command, config?⟩ := i
  have refused : (∃ t, prepare s config? url = .error t) → ∀ program,
      ∃ o, withAnalysis s limit config? url program st = (some o, st) ∧ o.Fails := by
    rintro ⟨t, refused⟩ program
    exact ⟨_, withAnalysis_of_error refused limit program, Outcome.ofTrouble_fails t⟩
  cases command with
  | analyze url' =>
    obtain rfl := Option.some.inj address
    rcases reason with ⟨_, ⟨⟩⟩ | error
    exact refused error _
  | generate url' kind output? =>
    obtain rfl := Option.some.inj address
    by_cases quality : kind = .quality
    · subst quality
      exact ⟨_, rfl, Outcome.failed_fails _ none⟩
    · rw [run_generate quality]
      rcases reason with ⟨_, ⟨⟩⟩ | error
      · exact (quality rfl).elim
      · exact refused error _
  | file _ _ | extract _ => cases address

/-- A command that analyzes a repository fails before any request where its address is invalid, reports
on the quality are to be generated, or it cannot be prepared.  Else, however the servers behave, `analyze`
ends with the detail of the repository once the job of its submission has, within a pause, and succeeds
if the job has completed; and `generate` requests documentation only after its job has completed, prints
and writes nothing where it fails, and delivers what it has put on record where it succeeds. -/
theorem commands_follow_job (s : Surroundings σ) (log : σ → List Http.Request)
    (logs : ∀ r u, log (s.exchange r u).2 = log u ++ [r]) (i : Invocation) {url : String}
    (address : i.command.address? = some url) (st : σ) :
    ((∀ c, Coordinates.parse url ≠ .ok c) ∨ (∃ output?, i.command = .generate url .quality output?) ∨
        (∃ t, prepare s i.config? url = .error t) →
      ∀ limit, ∃ o, i.run s limit st = (some o, st) ∧ o.Fails) ∧
    ∀ config clients, prepare s i.config? url = .ok (config, clients) →
      ∃ c, Coordinates.parse url = .ok c ∧
        let sub := firstSubmission s.names (s.now st) url c
        (i.command = .analyze url →
          let x (limit : Nat) := session s config clients limit (analyzeProgram config (limit + 1) url) st
          (∀ limit, i.run s limit st = ((x limit).1, (x limit).2.world)) ∧
            Follows sub config.pause x) ∧
        ∀ kind output?, i.command = .generate url kind output? → kind ≠ .quality → ∀ limit,
          let x := session s config clients limit
            (generateProgram config (limit + 1) url kind output?) st
          i.run s limit st = (x.1, x.2.world) ∧
            Produces clients log (log st) sub kind output?
              (analysisUpTo (clients.world s) config.analysis config.pause url st limit) x := by
  refine ⟨fun reason limit => ?_, fun config clients prepared => ?_⟩
  · refine run_refused s address ?_ limit st
    rcases reason with unreadable | quality | error
    · exact .inr (exists_error_of_unreadable unreadable)
    · exact .inl quality
    · exact .inr error
  · obtain ⟨command, config?⟩ := i
    obtain ⟨c, parsed⟩ := exists_parsed prepared
    refine ⟨c, parsed, ?_, ?_⟩
    · rintro rfl
      exact ⟨fun limit => withAnalysis_of_ok prepared limit _, analyze_follows parsed st⟩
    · rintro kind output? rfl other limit
      rw [run_generate other]
      exact ⟨withAnalysis_of_ok prepared limit _, generate_produces parsed st logs kind output? limit⟩

/-- All that the servers may be asked for in one: the metadata of a repository, a tree without files, and
an answer to a prompt. -/
def everything : String :=
  "\x7b\"name\":\"r\",\"owner\":\x7b\"login\":\"o\"\x7d,\"default_branch\":\"main\",\"tree\":[]," ++
    "\"choices\":[\x7b\"message\":\x7b\"content\":\"\x7b\\\"score\\\":1\x7d\"\x7d\x7d]\x7d"

/-- Servers that tell everything at once, and keep the requests that they got. -/
def candid : Surroundings (List Http.Request) where
  readText _ := .error .missing
  env? _ := some "k"
  names := .unary
  now _ := ⟨0, 0⟩
  exchange r sent := (.after 0 (some { status := ⟨200⟩, body := everything }), sent ++ [r])

/-- A readme is printed once the analysis has completed. -/
theorem commands_follow_job_candid :
    ∃ config clients o e r j,
      session candid config clients 500
        (generateProgram config 501 "https://github.com/o/r" .readme none) [] = (some o, e) ∧
      e.store.repositories = [r] ∧ r.url = Text.trimmed "https://github.com/o/r" ∧
      e.store.jobs = [j] ∧ j.status = .completed ∧
      ∃ d ∈ e.store.documentation, d.kind = .readme ∧ o.stdout = d.content ++ "\n" := by
  let i : Invocation := ⟨.generate "https://github.com/o/r" .readme none, none⟩
  have succeeds : (i.run candid 500 []).1.map (·.errors) = some [] := by decide +kernel
  obtain ⟨refused, follows⟩ := commands_follow_job candid id (fun _ _ => rfl) i rfl []
  cases prepared : prepare candid i.config? "https://github.com/o/r" with
  | error t =>
    obtain ⟨o, ran, fails⟩ := refused (.inr (.inr ⟨t, prepared⟩)) 500
    rw [ran] at succeeds
    exact (fails.errors (Option.some.inj succeeds)).elim
  | ok x =>
    obtain ⟨config, clients⟩ := x
    obtain ⟨c, -, -, follows⟩ := follows config clients prepared
    obtain ⟨ran, produces⟩ := follows .readme none rfl nofun 500
    rw [ran] at succeeds
    obtain ⟨o, ended, errors⟩ := Option.map_eq_some_iff.1 succeeds
    obtain ⟨r, j, sole, ends⟩ := produces.onRecord
    rcases ends o ended with fails | ⟨completed, d, stored, ofKind, delivers⟩
    · exact (fails.errors errors).elim
    · exact ⟨config, clients, o, _, r, j, Prod.ext ended rfl, sole.repositories, sole.url, sole.jobs,
        completed, d, stored, ofKind, delivers.stdout⟩

end RepoDocs.CommandLine
