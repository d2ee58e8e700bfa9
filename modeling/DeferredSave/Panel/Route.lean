import DeferredSave.Text.Blank
import DeferredSave.Text.Utf8
import DeferredSave.Json.Parser

/-! The addresses of the panel. -/

namespace DeferredSave.Panel

/-! ### Paths -/

/-- Replaces every percent sign with two hexadecimal digits after it by the byte they denote. -/
def decodeEscapes : List Char → List UInt8
  | [] => []
  | '%' :: a :: b :: cs =>
    match Json.Parser.hexValue? a, Json.Parser.hexValue? b with
    | some m, some n => UInt8.ofNat (16 * m + n) :: decodeEscapes cs
    | _, _ => Text.Utf8.encode ['%'] ++ decodeEscapes (a :: b :: cs)
  | c :: cs => Text.Utf8.encode [c] ++ decodeEscapes cs

/-- The segments without those that stay in a place or go back by one. -/
def withoutDots (segments : List (List Char)) : List (List Char) :=
  let step (kept : List (List Char)) (segment : List Char) : List (List Char) :=
    if segment = ['.'] then kept
    else if segment = ['.', '.'] then (if kept.isEmpty || kept = [[]] then kept else kept.dropLast)
    else kept ++ [segment]
  segments.foldl step []

/-- The path of an address: what stands before a query or a fragment, decoded. It begins with one
slash. -/
def pathOf (address : String) : List Char :=
  let raw := (address.toList.takeWhile fun c => c ≠ '?' && c ≠ '#').dropWhile (· = '/')
  let segments := withoutDots (Text.cut '/' ('/' :: raw))
  Text.Utf8.decodeLossy (decodeEscapes (['/'].intercalate segments))

/-! ### Routes -/

inductive Method where
  | get | head | post | put | delete | other
deriving DecidableEq, Repr

/-- The method with a name, in any case. -/
def Method.ofName (s : String) : Method :=
  match s.toUpper with
  | "GET" => get
  | "HEAD" => head
  | "POST" => post
  | "PUT" => put
  | "DELETE" => delete
  | _ => other

/-- What can be asked for. -/
inductive Route where
  | health | view | refresh | saveState | edit (key : String) | flush | discard
deriving DecidableEq, Repr

/-- Whether a segment has a fixed name. A line break after the name does not count. -/
def isNamed (name : String) (segment : List Char) : Bool :=
  segment = name.toList || segment = name.toList ++ ['\n']

/-- The routes under a path, each with its method, in the order in which they count. -/
def routesAt (path : List Char) : List (Method × Route) :=
  match Text.cut '/' path with
  | [[], health] => if isNamed "health" health then [(.get, .health)] else []
  | [[], ['a', 'p', 'i'], settings] => if isNamed "settings" settings then [(.get, .view)] else []
  | [[], ['a', 'p', 'i'], settings, name] =>
    if settings ≠ "settings".toList || name = [] then []
    else
      let edit := (Method.put, Route.edit (String.ofList name))
      if isNamed "refresh" name then [(.post, .refresh), edit]
      else if isNamed "autosave" name then [(.get, .saveState), edit]
      else if isNamed "flush" name then [edit, (.post, .flush)]
      else if isNamed "edits" name then [edit, (.delete, .discard)]
      else [edit]
  | _ => []

/-- Where a request leads. -/
inductive Destination where
  | route (r : Route)
  | wrongMethod
  /-- The path is known without the slashes at its end. -/
  | redirect
  | unknown
deriving DecidableEq, Repr

/-- Finds the destination of a request. -/
def destination (method : Method) (address : String) : Destination :=
  let path := pathOf address
  match (routesAt path).find? (·.1 = method) with
  | some (_, r) => .route r
  | none =>
    if routesAt path ≠ [] then .wrongMethod
    else if path.getLast? = some '/' && routesAt (Text.trimEnd (· = '/') path) ≠ [] then .redirect
    else .unknown

end DeferredSave.Panel
