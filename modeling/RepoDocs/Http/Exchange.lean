import RepoDocs.Http.Status
import RepoDocs.Http.Url
import RepoDocs.Json.Decode
import RepoDocs.Process.Program

/-! Requests to servers and their responses.  A program of exchanges sends requests one after the
other and goes on with what comes back. -/

namespace RepoDocs.Http

open Json

inductive Method where
  | get
  | post
  deriving DecidableEq, Repr

def Method.name : Method → String
  | get => "GET"
  | post => "POST"

/-- A request.  A body is sent as JSON. -/
structure Request where
  method : Method
  url : Url
  headers : List (String × String)
  body? : Option Value := none

/-- What a server sends back.  The names of headers are in lowercase. -/
structure Response where
  status : Status
  headers : List (String × String) := []
  body : String := ""

/-- Why no response came of a request. -/
inductive SendError where
  /-- The address or a header cannot be used. -/
  | unusable (url? : Option Url)
  /-- The server cannot be reached or breaks off. -/
  | unsent (url : Url)

def SendError.message : SendError → String
  | unusable none => "builder error"
  | unusable (some url) => s!"builder error for url ({url.text})"
  | unsent url => s!"error sending request for url ({url.text})"

/-- What is said of a body that is not what it should be. -/
def undecodable : String := "error decoding response body"

/-- Requests may remain without a response. -/
abbrev Exchange : Signature := ⟨Request, fun _ => Option Response⟩

/-- Whether a text may be sent as the value of a header. -/
def isHeaderText (s : String) : Bool :=
  s.toList.all fun c => c = '\t' || (32 ≤ c.toNat && c.toNat ≠ 127)

/-- The request to an address. -/
def Request.ofAddress (method : Method) (address : String) (headers : List (String × String))
    (body? : Option Value) : Except SendError Request :=
  match Url.parse address with
  | none => .error (.unusable none)
  | some url =>
    if !url.hasHost then .error (.unusable (some url))
    else if !headers.all (isHeaderText ·.2) then .error (.unusable none)
    else if !url.isHttp then .error (.unusable (some url))
    else .ok { method, url, headers, body? }

/-- Send a request to an address. -/
def send (method : Method) (address : String) (headers : List (String × String))
    (body? : Option Value := none) : Program Exchange (Except SendError Response) :=
  match Request.ofAddress method address headers body? with
  | .error e => return .error e
  | .ok r => do
    match ← Program.request (S := Exchange) r with
    | some response => return .ok response
    | none => return .error (.unsent r.url)

/-- The value of a header. -/
def Response.header? (r : Response) (name : String) : Option String := r.headers.lookup name

/-- The body as text, without a byte order mark in front. -/
def Response.text (r : Response) : String :=
  match r.body.toList with
  | '\ufeff' :: rest => String.ofList rest
  | _ => r.body

/-- The value that the body holds as JSON. -/
def Response.decode? (r : Response) (dec : Decoder α) : Option α :=
  (decodeText dec r.body).toOption

/-- The address without the slashes at its end. -/
def withoutEndSlashes (address : String) : String :=
  String.ofList (address.toList.reverse.dropWhile (· = '/')).reverse

end RepoDocs.Http
