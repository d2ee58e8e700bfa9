import DeferredSave.Engine.Edits
import DeferredSave.Engine.Flight
import DeferredSave.Json.Parser
import DeferredSave.Panel.Health
import DeferredSave.Panel.Request
import DeferredSave.Panel.Route
import DeferredSave.Panel.View

/-! The panel's answers to requests.

A request is turned away in this order: its address is unknown, its body is no document, there is
no engine to serve it, its body is not what is asked for. -/

namespace DeferredSave.Panel

/-! ### Answers -/

inductive Body where
  | empty
  | text (s : String)
  | json (j : Json)
  | issues (is : List Issue)
deriving Repr

structure Answer where
  status : Nat
  body : Body
deriving Repr

namespace Answer

/-- A refusal with a reason. -/
def refusal (status : Nat) (detail : String) : Answer :=
  ⟨status, .json (.object [("detail", .text detail)])⟩

def noEngine : Answer := refusal 503 "Settings engine is not running"

/-- The answer when something went wrong that nobody foresaw. -/
def broken : Answer := ⟨500, .text "Internal Server Error"⟩

/-- The indicator and the pending keys. -/
def saveState {ω : Type} (status : Nat) (g : Engine ω) : Answer :=
  ⟨status, .json (SaveState.of g).toJson⟩

/-- The view, if it can be shown. -/
def view {ω : Type} (g : Engine ω) : Answer :=
  match View.of g with
  | .ok v => ⟨200, .json v.toJson⟩
  | .error _ => broken

end Answer

/-! ### Requests -/

structure Request where
  method : Method
  address : String
  body : Option String
deriving DecidableEq, Repr

/-- What a request leads to. -/
inductive Course (ω : Type) where
  /-- An answer at once, with the engine as it is by then. -/
  | answer (g? : Option (Engine ω)) (a : Answer)
  /-- An answer when the catalog is loaded. -/
  | refresh
  /-- An answer when the edits are saved. -/
  | flush

/-- The document in the body; an empty body has none. -/
def Request.document? (r : Request) : Except Answer (Option Json) :=
  match r.body with
  | none | some "" => .ok none
  | some s =>
    match Json.ofBytes (Text.Utf8.encode s.toList) with
    | .ok j => .ok (some j)
    | .error (.notJson .malformed) => .error ⟨422, .issues [⟨[], .notJson⟩]⟩
    | .error _ => .error (.refusal 400 "There was an error parsing the body")

/-- Reads a body as a model. -/
def readBody {α : Type} (r : List (String × Json) → Checked α) (document? : Option Json) :
    Checked α :=
  let checked : Checked α :=
    match document? with
    | none => .fault .missing
    | some (.object es) => r es
    | some _ => .fault .notModelOrObject
  checked.below (.field "body")

/-- Reads a body that may be left out. -/
def readOptionalBody {α : Type} (r : List (String × Json) → Checked α)
    (document? : Option Json) : Checked (Option α) :=
  match document? with
  | none | some .null => .ok none
  | document? => (readBody r document?).map some

variable {ω : Type}

/-- Makes an edit of a setting that is in the catalog or described. -/
def edit (acting : Engine.Acting ω) (g : Engine ω) (key : String) (document? : Option Json) :
    Engine ω × Answer :=
  match readBody EditRequest.ofEntries document? with
  | .bad issues => (g, ⟨422, .issues issues⟩)
  | .ok request =>
    if (g.catalog.find? key).isNone && !Entries.contains key g.metas then
      (g, .refusal 404 ("Unknown setting key: " ++ key))
    else
      match g.change acting key request.value with
      | (g, .ok ()) => (g, .saveState 202 g)
      | (g, .error .engineClosed) => (g, .refusal 503 Failure.engineClosed.message)
      | (g, .error _) => (g, .broken)

/-- Drops edits. -/
def discard (acting : Engine.Acting ω) (g : Engine ω) (document? : Option Json) :
    Engine ω × Answer :=
  match readOptionalBody DiscardRequest.ofEntries document? with
  | .bad issues => (g, ⟨422, .issues issues⟩)
  | .ok request? =>
    match g.discard acting (request?.bind (·.keys)) with
    | (g, .ok _) => (g, .saveState 200 g)
    | (g, .error _) => (g, .broken)

/-- Serves a request that leads to a route. A closed engine serves none. -/
def serveRoute (acting : Engine.Acting ω) (g? : Option (Engine ω)) (breakers : Breakers)
    (r : Request) (route : Route) : Course ω :=
  let withEngine (serve : Engine ω → Course ω) : Course ω :=
    match g? with
    | some g => if g.closed then .answer g? .noEngine else serve g
    | none => .answer none .noEngine
  let withDocument (serve : Engine ω → Option Json → Engine ω × Answer) : Course ω :=
    match r.document? with
    | .error a => .answer g? a
    | .ok document? => withEngine fun g =>
      let (g, a) := serve g document?
      .answer (some g) a
  match route with
  | .health => .answer g? ⟨200, .json (Health.of g? "memory" breakers).toJson⟩
  | .view => withEngine fun g => .answer g? (.view g)
  | .saveState => withEngine fun g => .answer g? (.saveState 200 g)
  | .refresh => withEngine fun _ => .refresh
  | .flush => withEngine fun _ => .flush
  | .edit key => withDocument fun g document? => edit acting g key document?
  | .discard => withDocument fun g document? => discard acting g document?

/-- Serves a request. -/
def serve (acting : Engine.Acting ω) (g? : Option (Engine ω)) (breakers : Breakers)
    (r : Request) : Course ω :=
  match destination r.method r.address with
  | .route route => serveRoute acting g? breakers r route
  | .redirect => .answer g? ⟨307, .empty⟩
  | .wrongMethod => .answer g? (.refusal 405 "Method Not Allowed")
  | .unknown => .answer g? (.refusal 404 "Not Found")

/-- The answer as it is sent: to a request for the head alone it has no body. -/
def Answer.sent (a : Answer) (method : Method) : Answer :=
  if method = .head then { a with body := .empty } else a

end DeferredSave.Panel
