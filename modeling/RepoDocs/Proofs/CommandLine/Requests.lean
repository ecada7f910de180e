import RepoDocs.CommandLine.Run
import RepoDocs.Proofs.Analysis.Lone
import RepoDocs.Proofs.GitHub.Files

/-! The requests that the calls of an analysis send.  None of them is one that a call for documentation
sends: those for metadata and files get something, and those for reports on the quality of code tell the
model of another role. -/

namespace RepoDocs

open Http Program

theorem Program.Asks.first {S : Signature} {α : Type} {p : S.Request → Prop} {r : S.Request}
    {next : S.Reply r → Program S α} (h : (Program.ask r next).Asks p) : p r := h.1

theorem Program.Asks.of_all {S : Signature} {α : Type} {p : S.Request → Prop} (h : ∀ r, p r)
    (x : Program S α) : x.Asks p := by
  induction x with
  | done a => trivial
  | ask r next ih => exact ⟨h r, ih⟩

/-- What is kept by each request of a program is kept by the program. -/
theorem Program.conduct_keeps {S : Signature} {σ α : Type}
    {answer : (r : S.Request) → σ → Conduct (S.Reply r) × σ} {p : S.Request → Prop} {I : σ → Prop}
    (h : ∀ r u, p r → I u → I (answer r u).2) {x : Program S α} (hx : x.Asks p) {u : σ} (hu : I u) :
    I (x.conduct answer u).2 := by
  induction x generalizing u with
  | done a => exact hu
  | ask r next ih =>
    have hu₁ := h r u hx.1 hu
    rw [conduct]
    generalize answer r u = answered at hu₁ ⊢
    obtain ⟨conduct₁, u₁⟩ := answered
    cases conduct₁ with
    | never => exact hu₁
    | after ms y =>
      have hu₂ := ih y (hx.2 y) hu₁
      dsimp only
      generalize (next y).conduct answer u₁ = answered at hu₂ ⊢
      obtain ⟨conduct₂, u₂⟩ := answered
      cases conduct₂ with
      | never => exact hu₂
      | after more a => exact hu₂

/-! ### What is sent -/

namespace Http

theorem Request.of_ofAddress {method : Method} {address : String} {headers : List (String × String)}
    {body? : Option Json.Value} {r : Request}
    (h : Request.ofAddress method address headers body? = .ok r) :
    r.method = method ∧ r.body? = body? := by
  unfold Request.ofAddress at h
  split at h
  · cases h
  · split_ifs at h
    cases h
    exact ⟨rfl, rfl⟩

theorem asks_send {p : Request → Prop} {method : Method} {address : String}
    {headers : List (String × String)} {body? : Option Json.Value}
    (h : ∀ r : Request, r.method = method → r.body? = body? → p r) :
    (send method address headers body?).Asks p := by
  unfold send
  cases formed : Request.ofAddress method address headers body? with
  | error e => exact Asks.pure _
  | ok r =>
    obtain ⟨ofMethod, ofBody⟩ := Request.of_ofAddress formed
    refine (Asks.request (h r ofMethod ofBody)).bind fun x => ?_
    cases x <;> exact Asks.pure _

end Http

-- The programs below are concrete: were this opened, each step would carry them out symbolically.
attribute [local irreducible] Program.Asks

namespace GitHub

variable {p : Http.Request → Prop} {client : Client} (h : ∀ r : Http.Request, r.method = .get → p r)
include h

theorem asks_get (address accept : String) : (get client address accept).Asks p := by
  refine (asks_send fun r ofMethod _ => h r ofMethod).bind fun x => ?_
  cases x with
  | error e => exact Asks.pure _
  | ok r =>
    dsimp only
    split <;> exact Asks.pure _

theorem asks_getJson (address : String) (dec : Json.Decoder α) :
    (getJson client address dec).run.Asks p := by
  refine Asks.run_bind (x := ExceptT.mk (get _ _ _)) (asks_get h _ _) fun r => ?_
  cases r.decode? dec <;> exact Asks.pure _

theorem asks_fetchMetadata (url : String) : (fetchMetadata client url).run.Asks p := by
  refine Asks.run_bind (x := ExceptT.mk (pure (coordinatesOf url))) (Asks.pure _) fun c => ?_
  refine (asks_getJson h _ _).run_bind fun r => ?_
  exact (asks_getJson h _ _).run_bind fun items => Asks.pure _

theorem asks_fetchContent (url path : String) : (fetchContent client url path).run.Asks p := by
  cases read : coordinatesOf url with
  | error e =>
    have failed : (fetchContent client url path).run = .done (.error e) := by
      rw [fetchContent, read]
      rfl
    rw [failed]
    exact Asks.pure _
  | ok c =>
    rw [run_fetchContent read]
    exact (asks_get h _ _).bind fun x => Asks.pure _

end GitHub

namespace LanguageModel

variable {p : Http.Request → Prop} {client : Client}

theorem asks_complete {operation prompt : String} {role? : Option String} {asJson : Bool}
    (h : ∀ r : Http.Request, r.method = .post →
      r.body? = some (chat client.settings role? prompt asJson) → p r) :
    (complete client operation role? prompt asJson).run.Asks p := by
  refine (asks_send h).run_lift.run_bind fun x => ?_
  cases x with
  | error e => exact Asks.pure _
  | ok r =>
    dsimp only
    split
    · exact Asks.pure _
    · cases r.decode? answerDecoder with
      | none => exact Asks.pure _
      | some answer =>
        dsimp only
        cases answer.filter (!Text.isBlankText ·) <;> exact Asks.pure _

theorem asks_completeJson {operation role prompt : String} {read : String → Except Json.Fault α}
    (h : ∀ r : Http.Request, r.method = .post →
      r.body? = some (chat client.settings (some role) prompt true) → p r) :
    (completeJson client operation role prompt read).run.Asks p := by
  refine (asks_complete h).run_bind fun text => ?_
  cases read text <;> exact Asks.pure _

theorem message_injective (role : String) : Function.Injective (message role) := fun _ _ same =>
  Json.Value.string.inj (Prod.mk.inj (List.cons.inj (Json.Value.object.inj same)).1).2

/-- What is sent to a model shows which role it is told of. -/
theorem role_of_chat {s : Settings} {role? role?' : Option String} {prompt prompt' : String}
    {asJson asJson' : Bool} (h : chat s role? prompt asJson = chat s role?' prompt' asJson') :
    role? = role?' := by
  have fields := (List.cons.inj (Json.Value.object.inj h)).2
  have messages := Json.Value.array.inj (Prod.mk.inj (List.cons.inj fields).1).2
  have told := congrArg List.head? (List.append_inj_left' messages rfl)
  rw [Option.head?_toList, Option.head?_toList] at told
  exact Option.map_injective (message_injective "system") told

end LanguageModel

/-! ### Requests for documentation -/

/-- The calls for documentation. -/
def Call.Writes : Call → Prop
  | readme _ | apiDocs _ | comments _ _ => True
  | metadata _ | file _ _ | quality _ => False

namespace CommandLine

open LanguageModel

/-- A request that a call for documentation begins with. -/
def Clients.Documents (c : Clients) (r : Http.Request) : Prop :=
  ∃ call next, call.Writes ∧ c.program call = .ask r next

/-- A request to a model that is not told of the role for reports on quality. -/
def Clients.OtherRole (c : Clients) (r : Http.Request) : Prop :=
  r.method = .post ∧ ∃ role? prompt asJson, role? ≠ some Prompt.qualityRole ∧
    r.body? = some (chat c.model.settings role? prompt asJson)

theorem commentsRole_ne_qualityRole : Prompt.commentsRole ≠ Prompt.qualityRole := by decide

theorem Clients.Documents.otherRole {c : Clients} {r : Http.Request} (h : c.Documents r) :
    c.OtherRole r := by
  obtain ⟨call, next, writes, begins⟩ := h
  have completes (operation prompt : String) :
      (complete c.model operation none prompt false).run.Asks c.OtherRole :=
    asks_complete fun r post body => ⟨post, _, _, _, (Option.some_ne_none _).symm, body⟩
  have asks : (c.program call).Asks c.OtherRole := by
    cases call with
    | readme request => exact (completes _ _).run_bind fun _ => Asks.pure _
    | apiDocs functions => exact completes _ _
    | comments source file =>
      have other : some Prompt.commentsRole ≠ some Prompt.qualityRole :=
        fun same => commentsRole_ne_qualityRole (Option.some.inj same)
      exact asks_completeJson fun r post body => ⟨post, _, _, true, other, body⟩
    | metadata _ | file _ _ | quality _ => exact writes.elim
  rw [begins] at asks
  exact asks.first

/-- The calls of an analysis send no request for documentation. -/
theorem Clients.asks_of_analyzes (c : Clients) {call : Call} (h : call.Analyzes) :
    (c.program call).Asks fun r => ¬c.Documents r := by
  have gets (r : Http.Request) (get : r.method = .get) : ¬c.Documents r := by
    intro documents
    have post := documents.otherRole.1
    rw [get] at post
    cases post
  cases call with
  | metadata url => exact GitHub.asks_fetchMetadata gets url
  | file url path => exact GitHub.asks_fetchContent gets url path
  | quality files =>
    refine asks_completeJson fun r _ body documents => ?_
    obtain ⟨-, role?, prompt, asJson, other, body'⟩ := documents.otherRole
    exact other (role_of_chat (Option.some.inj (body'.symm.trans body)))
  | readme _ | apiDocs _ | comments _ _ => exact h.elim

end CommandLine

end RepoDocs
