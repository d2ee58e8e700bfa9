import DeferredSave.Http.Status
import DeferredSave.Json.Parser
import DeferredSave.Retry.Call
import DeferredSave.Text.Quoted

/-! A store on a server, which is reached over HTTP.

A call to the store makes as many requests as its retry policy asks for, under the breaker that all
stores of the same service share. Whatever goes wrong with a call is told in the store's own terms;
failures that neither the way to the server nor its answer can have are passed on as they are. -/

namespace DeferredSave

/-- A request to the server. -/
structure ServerRequest where
  method : String
  url : String
  authorization : Option String
  accept : String
  body : Option Json
deriving Repr

/-- An answer of the server. -/
structure ServerResponse where
  status : Int
  body : List UInt8
deriving DecidableEq, Repr

structure RemoteStore where
  /-- The address of the service, with no slash at its end. -/
  baseUrl : String
  token : Option String
  timeout : Number.Binary64
  policy : RetryPolicy
deriving DecidableEq, Repr

/-! ### What the server has to say about a failure -/

namespace ServerResponse

/-- The text of an answer. A byte that belongs to no character is replaced. -/
def text (r : ServerResponse) : String := String.ofList (Text.Utf8.decodeLossy r.body)

/-- Whether a value says something: it is neither null, false, zero nor empty. -/
def saysSomething : Json → Bool
  | .null => false
  | .bool b => b
  | .int n => n != 0
  | .float x => x.toRat? != some 0
  | .text s => s != ""
  | .array js => !js.isEmpty
  | .object es => !es.isEmpty

/-- The message inside the error of an answer. -/
def errorMessage? (es : List (String × Json)) : Option String :=
  match es.lookup "error" with
  | some (.object error) => ((error.lookup "message").filter saysSomething).map Text.messageOf
  | _ => none

/-- The first of some fields that holds a text. -/
def firstText? (names : List String) (es : List (String × Json)) : Option String :=
  names.findSome? fun name =>
    match es.lookup name with
    | some (.text s) => some s
    | _ => none

/-- What an answer says about the failure that it reports. -/
def detail (r : ServerResponse) : String :=
  match Json.ofBytes r.body with
  | .error _ =>
    let shown := String.ofList (r.text.toList.take 200)
    if shown = "" then Http.reasonPhrase r.status else shown
  | .ok (.object es) =>
    ((errorMessage? es).or (firstText? ["message", "detail", "error"] es)).getD
      (Http.reasonPhrase r.status)
  | .ok _ => Http.reasonPhrase r.status

/-- Reads an answer as a document of a form. -/
def read {α : Type} (reader : Reader α) (r : ServerResponse) : Except Misfit α :=
  match Json.ofBytes r.body with
  | .error .notText => .error .notText
  | .error (.notJson .malformed) => .error .notJson
  | .error (.notJson (.tooManyDigits e)) => .error (.tooManyDigits e)
  | .ok j => (reader j).toExcept.mapError .issues

end ServerResponse

/-! ### Breakers -/

namespace RemoteStore

/-- The service whose breaker the stores share. -/
def service : String := "settings_api"

/-- The policy of that breaker. -/
def breakerPolicy : BreakerPolicy := {}

/-! ### Requests -/

/-- An address without the slashes at its end. -/
def trimUrl (url : String) : String := String.ofList (Text.trimEnd (· = '/') url.toList)

/-- A request of the store; an empty token is none. -/
def request (s : RemoteStore) (method : String) (body : Option Json) : ServerRequest :=
  { method, url := s.baseUrl ++ "/admin/settings", accept := "application/json", body
    authorization := (s.token.filter (· ≠ "")).map ("Bearer " ++ ·) }

/-- How requests are sent, in a state that this may change. -/
abbrev Sending (σ : Type) := Rat → ServerRequest → σ → σ × Except Failure ServerResponse

variable {σ : Type}

/-- Makes one attempt: it fails if the server answers with anything but a success. -/
def attempt (send : Sending σ) (r : ServerRequest) (now : Rat) (state : σ) :
    σ × Except Failure ServerResponse :=
  if r.authorization.any fun a => a.toList.any fun c => 0x7F < c.toNat then
    (state, .error .tokenNotAscii)
  else
    match send now r state with
    | (state, .ok response) =>
      if Http.isSuccess response.status then (state, .ok response)
      else (state, .error (.status response.status response.detail))
    | (state, .error (.status code _)) =>
      (state, .error (.status code (Http.reasonPhrase code)))
    | (state, .error f) => (state, .error f)

/-! ### Calls -/

/-- The failures of a call in the terms of a store. -/
structure Wording where
  what : String
  fail : String → Option Int → Option Misfit → Failure

def fetchWording : Wording := ⟨"Failed to fetch system settings: ", .fetch⟩

def saveWording : Wording := ⟨"Failed to update system settings: ", .save⟩

/-- A failure to make sense of an answer. -/
def Wording.misfit (w : Wording) (m : Misfit) : Failure :=
  w.fail (w.what ++ "invalid response") none (some m)

/-- A failure of a call in the terms of the store. -/
def Wording.restate (w : Wording) (f : Failure) : Failure :=
  match f with
  | .status code detail => w.fail (w.what ++ detail) (some code) none
  | f =>
    if f.kind = .circuitOpen || f.kind.isA .http then w.fail (w.what ++ f.message) none none
    else
      match f.misfit? with
      | some m => w.misfit m
      | none => f

/-- The end of a call to the store, with the breaker as it is by then. -/
structure End (σ α : Type) where
  result : Except Failure α
  state : σ
  breaker : Breaker
  now : Rat

/-- Calls the server, and reads its answer. `u` says where in their ranges the delays lie. -/
def call {α : Type} (s : RemoteStore) (send : Sending σ) (u : Draws) (w : Wording)
    (r : ServerRequest) (reader : Reader α) (state : σ) (breaker : Breaker) (now : Rat) :
    End σ α :=
  let e := runCall s.policy u (attempt send r) state (some breaker) now
  let result :=
    match e.result with
    | .error f => .error (w.restate f)
    | .ok response => (response.read reader).mapError w.misfit
  { result, state := e.state, breaker := e.breaker?.getD breaker, now := e.now }

/-- Loads the catalog. -/
def fetch (s : RemoteStore) (send : Sending σ) (u : Draws) (state : σ) (breaker : Breaker)
    (now : Rat) : End σ Categories :=
  s.call send u fetchWording (s.request "GET" none) Categories.reader state breaker now

/-- Stores a batch. One with an empty key is refused before anything is sent. -/
def update (s : RemoteStore) (send : Sending σ) (u : Draws) (batch : Batch) (state : σ)
    (breaker : Breaker) (now : Rat) : End σ (List Setting) :=
  match batch.updates with
  | .bad issues => { result := .error (.invalid issues), state, breaker, now }
  | .ok updates =>
    s.call send u saveWording (s.request "PATCH" (some (Update.requestJson updates)))
      Setting.updatedReader state breaker now

end RemoteStore

end DeferredSave
