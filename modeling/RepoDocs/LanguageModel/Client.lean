import RepoDocs.Documentation.Prompt
import RepoDocs.Failure
import RepoDocs.Http.Exchange

/-! Documentation written by a language model, which answers to chat messages sent over HTTP. -/

namespace RepoDocs.LanguageModel

open Http Json

structure Settings where
  baseUrl : String := "https://api.openai.com/v1"
  model : String := "gpt-4o"
  maxTokens : Nat := 2000
  deriving DecidableEq, Repr

/-- A user of a model, with the key that admits to it. -/
structure Client where
  settings : Settings
  apiKey : String

/-- What is said when the environment holds no key. -/
def missingKey : String := "OPENAI_API_KEY missing in environment"

/-- The client with the key that the environment holds, unless that is blank. -/
def Client.ofEnvironment? (settings : Settings) (env? : String → Option String) :
    Option Client :=
  ((env? "OPENAI_API_KEY").filter (!Text.isBlankText ·)).map fun apiKey => { settings, apiKey }

/-- The first of the answers that a model gives; it may be missing or have no text. -/
def answerDecoder : Decoder (Option String) :=
  let message := Fields.record "ChatMessage" 1
    (Fields.field "content" (.option .string) (.optional none))
  let choice := Fields.record "Choice" 1 (Fields.field "message" message)
  Fields.record "ChatResponse" 1 <| .map (fun (answers : List (Option String)) => answers.head?.join)
    (Fields.field "choices" (.list choice))

/-- A message in a chat. -/
def message (role content : String) : Value :=
  .object [("content", .string content), ("role", .string role)]

/-- What is sent to a model: the prompt, behind what it is told about its role, and whether the answer
is to be JSON. -/
def chat (s : Settings) (role? : Option String) (prompt : String) (asJson : Bool) : Value :=
  let messages := (role?.map (message "system")).toList ++ [message "user" prompt]
  let format := if asJson then
    [("response_format", Value.object [("type", .string "json_object")])] else []
  .object ([("max_tokens", .ofNat s.maxTokens), ("messages", .array messages),
    ("model", .string s.model)] ++ format)

/-- The answer of a model to a prompt. -/
def complete (client : Client) (operation : String) (role? : Option String) (prompt : String)
    (asJson : Bool) : Attempt SynthesisError Exchange String := do
  let failed (reason : String) : SynthesisError := ⟨operation, reason⟩
  let address := s!"{withoutEndSlashes client.settings.baseUrl}/chat/completions"
  let headers := [("authorization", s!"Bearer {client.apiKey}"), ("content-type", "application/json")]
  match ← send .post address headers (some (chat client.settings role? prompt asJson)) with
  | .error e => throw (failed e.message)
  | .ok r =>
    if !r.status.isSuccess then
      throw (failed s!"model API returned {r.status.text}: {r.text}")
    else
      match r.decode? answerDecoder with
      | none => throw (failed undecodable)
      | some answer =>
        match answer.filter (!Text.isBlankText ·) with
        | some text => return text
        | none => throw (failed "Empty response from model")

/-- A readme. -/
def readme (client : Client) (r : ReadmeRequest) :
    Attempt SynthesisError Exchange ReadmeArtifact := do
  let content ← complete client "generate README" none (Prompt.readme r) false
  return { content }

/-- An API reference. -/
def apiDocs (client : Client) (functions : List ApiFunction) :
    Attempt SynthesisError Exchange String :=
  complete client "generate API documentation" none (Prompt.apiDocs functions) false

/-- An answer in JSON, of which `read` makes the value asked for. -/
def completeJson (client : Client) (operation role prompt : String)
    (read : String → Except Fault α) : Attempt SynthesisError Exchange α := do
  let text ← complete client operation (some role) prompt true
  match read text with
  | .ok a => return a
  | .error f => throw ⟨operation, f.located⟩

/-- Comment suggestions for a file. -/
def comments (client : Client) (source file : String) :
    Attempt SynthesisError Exchange (List CommentSuggestion) :=
  completeJson client "generate code comments" Prompt.commentsRole (Prompt.comments source file)
    CommentSuggestion.parseList

/-- A report on the quality of some files. -/
def quality (client : Client) (files : List SourceFile) :
    Attempt SynthesisError Exchange QualityReport :=
  completeJson client "analyze code quality" Prompt.qualityRole (Prompt.quality files)
    QualityReport.parse

end RepoDocs.LanguageModel
