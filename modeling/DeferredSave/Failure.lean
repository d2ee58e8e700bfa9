import DeferredSave.Edit.Buffer
import DeferredSave.Number.Fixed
import DeferredSave.Schema.Issue
import DeferredSave.Status.Indicator
import DeferredSave.Text.Quoted

/-! What a call to a store can fail with.

Failures belong to families: a kind may be a special case of another, and a rule that names a kind
means its special cases too. -/

namespace DeferredSave

/-- The kinds of failure. -/
inductive FailureKind where
  -- of the machine
  | system | connection | connectionReset | brokenPipe | timedOut | value | runtime | key
  | arithmetic | overflow | zeroDivision
  -- on the way to a server
  | http | request | transport | timeout | connectTimeout | readTimeout | writeTimeout
  | poolTimeout | network | connect | read | write | close | protocol | localProtocol
  | remoteProtocol | proxy | unsupportedProtocol | decoding | redirects | status
  -- of this library
  | settings | fetch | save | unknownSetting | circuitOpen | engineClosed | transition
deriving DecidableEq, Repr

namespace FailureKind

/-- The kind that a kind is a special case of. -/
def parent? : FailureKind → Option FailureKind
  | connection | timedOut => some system
  | connectionReset | brokenPipe => some connection
  | overflow | zeroDivision => some arithmetic
  | request | status => some http
  | transport | decoding | redirects => some request
  | timeout | network | protocol | proxy | unsupportedProtocol => some transport
  | connectTimeout | readTimeout | writeTimeout | poolTimeout => some timeout
  | connect | read | write | close => some network
  | localProtocol | remoteProtocol => some protocol
  | fetch | save => some settings
  | unknownSetting => some save
  | _ => none

/-- Whether a kind is `family` or a special case of it; no kind is more than four steps below
another. -/
def isA (k family : FailureKind) : Bool :=
  go 5 k
where
  go : Nat → FailureKind → Bool
    | 0, _ => false
    | n + 1, k => k = family || (k.parent?.any (go n))

/-- The name under which a kind is reported. -/
def name : FailureKind → String
  | system => "OSError"
  | connection => "ConnectionError"
  | connectionReset => "ConnectionResetError"
  | brokenPipe => "BrokenPipeError"
  | timedOut => "TimeoutError"
  | value => "ValueError"
  | runtime => "RuntimeError"
  | key => "KeyError"
  | arithmetic => "ArithmeticError"
  | overflow => "OverflowError"
  | zeroDivision => "ZeroDivisionError"
  | http => "HTTPError"
  | request => "RequestError"
  | transport => "TransportError"
  | timeout => "TimeoutException"
  | connectTimeout => "ConnectTimeout"
  | readTimeout => "ReadTimeout"
  | writeTimeout => "WriteTimeout"
  | poolTimeout => "PoolTimeout"
  | network => "NetworkError"
  | connect => "ConnectError"
  | read => "ReadError"
  | write => "WriteError"
  | close => "CloseError"
  | protocol => "ProtocolError"
  | localProtocol => "LocalProtocolError"
  | remoteProtocol => "RemoteProtocolError"
  | proxy => "ProxyError"
  | unsupportedProtocol => "UnsupportedProtocol"
  | decoding => "DecodingError"
  | redirects => "TooManyRedirects"
  | status => "HTTPStatusError"
  | settings => "SettingsError"
  | fetch => "FetchError"
  | save => "SaveError"
  | unknownSetting => "UnknownSettingError"
  | circuitOpen => "CircuitBreakerOpen"
  | engineClosed => "EngineClosedError"
  | transition => "InvalidStatusTransition"

/-- All kinds. -/
def all : List FailureKind := [
  system, connection, connectionReset, brokenPipe, timedOut, value, runtime, key, arithmetic,
  overflow, zeroDivision, http, request, transport, timeout, connectTimeout, readTimeout,
  writeTimeout, poolTimeout, network, connect, read, write, close, protocol, localProtocol,
  remoteProtocol, proxy, unsupportedProtocol, decoding, redirects, status, settings, fetch, save,
  unknownSetting, circuitOpen, engineClosed, transition]

/-- The kind with a name. -/
def ofName? (s : String) : Option FailureKind := all.find? (·.name = s)

end FailureKind

/-- The circuit of a service is open; the next probe is due after `retryAfter` seconds. -/
structure CircuitOpen where
  service : String
  retryAfter : Rat
deriving DecidableEq, Repr

def CircuitOpen.message (c : CircuitOpen) : String :=
  "Circuit breaker open for " ++ c.service ++ "; next attempt in "
    ++ Number.fixedText 1 c.retryAfter ++ "s"

/-- Why what came from a server, or what is to go to it, cannot be used. -/
inductive Misfit where
  /-- The answer is no text. -/
  | notText
  /-- The answer is no document. -/
  | notJson
  | tooManyDigits (e : Number.TooManyDigits)
  /-- The document is not what was asked for. -/
  | issues (is : List Issue)
  /-- The token holds a character that cannot be sent. -/
  | tokenNotAscii
  /-- Any other value that is not accepted. -/
  | value (message : String)
deriving DecidableEq, Repr

/-- A failure with its cause. -/
inductive Failure where
  /-- A failure of a kind that says nothing else; the message may be absent. -/
  | plain (kind : FailureKind) (message? : Option String)
  /-- A server answered with a status that is no success. -/
  | status (code : Int) (message : String)
  /-- The catalog could not be loaded. -/
  | fetch (message : String) (code? : Option Int) (misfit? : Option Misfit)
  /-- A batch could not be stored. -/
  | save (message : String) (code? : Option Int) (misfit? : Option Misfit)
  /-- A batch names a key that the store does not know. -/
  | unknownSetting (key : String)
  | circuitOpen (c : CircuitOpen)
  | engineClosed
  | transition (t : InvalidTransition)
  | missingKey (m : MissingKey)
  | lengthMismatch (m : LengthMismatch)
  | tooManyDigits (e : Number.TooManyDigits)
  | tokenNotAscii
  /-- What was given does not have the form that it has to have. -/
  | invalid (issues : List Issue)
deriving DecidableEq, Repr

namespace Failure

def kind : Failure → FailureKind
  | plain kind _ => kind
  | status .. => .status
  | fetch .. => .fetch
  | save .. => .save
  | unknownSetting _ => .unknownSetting
  | circuitOpen _ => .circuitOpen
  | engineClosed => .engineClosed
  | transition _ => .transition
  | missingKey _ => .key
  | lengthMismatch _ | tooManyDigits _ | tokenNotAscii | invalid _ => .value

/-- The text of a failure. A missing key stands in quotes. -/
def message : Failure → String
  | plain .key (some key) => Text.quote key
  | plain _ message? => message?.getD ""
  | status _ message => message
  | fetch message .. => message
  | save message .. => message
  | unknownSetting key => "Unknown setting key: " ++ key
  | circuitOpen c => c.message
  | engineClosed => "Autosave engine is closed"
  | transition t => t.message
  | missingKey m => Text.quote m.key
  | lengthMismatch m => m.message
  | tooManyDigits e => e.message
  | tokenNotAscii => "token with a character that is not ASCII"
  | invalid _ => "validation failed"

/-- The misfit that a failure to accept a value is. -/
def misfit? (f : Failure) : Option Misfit :=
  if !f.kind.isA .value then none
  else
    match f with
    | tooManyDigits e => some (.tooManyDigits e)
    | tokenNotAscii => some .tokenNotAscii
    | invalid issues => some (.issues issues)
    | f => some (.value f.message)

def isFetch (f : Failure) : Bool := f.kind = .fetch

end Failure

end DeferredSave
