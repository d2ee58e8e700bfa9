import DeferredSave.Engine.Basic
import DeferredSave.Retry.Breaker

/-! The report on the health of the service. It is healthy as long as its engine runs, whether or
not the store can be reached: edits are accepted and saved later. -/

namespace DeferredSave.Panel

/-- The version that is reported. -/
def version : String := "0.1.0"

structure Health where
  running : Bool
  backend : String
  catalogLoaded : Bool
  breakers : Breakers
deriving DecidableEq, Repr

/-- The health of a service; without an engine, or with one that was closed, it is not healthy. -/
def Health.of {ω : Type} (engine? : Option (Engine ω)) (backend : String) (breakers : Breakers) :
    Health :=
  let running := engine?.any (!·.closed)
  { running, backend, breakers
    catalogLoaded := running && engine?.any (!·.catalog.categories.isEmpty) }

/-- The state of a breaker, with times in seconds. -/
def breakerJson (b : Breaker) : Json :=
  .object [
    ("service_name", .text b.service), ("state", .text b.circuit.name),
    ("failure_count", .int b.failures), ("success_count", .int b.successes),
    ("last_failure_time", match b.lastFailure with
      | some t => .float (.ofRat t)
      | none => .null)]

def Health.toJson (h : Health) : Json :=
  .object [
    ("status", .text (if h.running then "healthy" else "unhealthy")),
    ("version", .text version), ("settings_backend", .text h.backend),
    ("catalog_loaded", .bool h.catalogLoaded),
    ("circuit_breakers", .object (h.breakers.map fun (name, b) => (name, breakerJson b)))]

end DeferredSave.Panel
