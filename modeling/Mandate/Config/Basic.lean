import Mandate.Validation

/-!
# Configuration

The settings of an engine and of the service around it.  Every setting has a default.

Main definitions:

* `DuplicatePolicy`, `RegistryConfig`, `ProviderConfig`, `EngineConfig`.
* `EngineConfig.fault?`: the first setting that the engine cannot operate with.
* `EngineConfig.withDuplicatePolicy` and its companions: a configuration with one setting changed.
-/

namespace Mandate

/-- What happens when a permission that has a constraint is given another one. -/
inductive DuplicatePolicy
  /-- The new constraint is refused. -/
  | reject
  /-- The new constraint takes the place of the old one. -/
  | replace
  deriving DecidableEq

/-- Settings of the registry. -/
structure RegistryConfig where
  duplicatePolicy : DuplicatePolicy := .reject
  /-- The history of a removed constraint stays available. -/
  retainHistory : Bool := true
  /-- A new constraint is evaluated at once. -/
  evaluateOnRegister : Bool := true
  deriving DecidableEq

/-- Settings of the access to facts. -/
structure ProviderConfig where
  /-- The milliseconds after which a fetch is given up. -/
  fetchTimeout : Nat := 5000
  /-- The greatest number of fetches at a time. -/
  maxConcurrentFetches : Nat := 16
  deriving DecidableEq

/-- All settings. -/
structure EngineConfig where
  limits : Limits := .standard
  registry : RegistryConfig := {}
  provider : ProviderConfig := {}
  deriving DecidableEq

/-- A setting that the engine cannot operate with. -/
inductive ConfigFault
  | noTree
  | noIdentifier
  | noFetch
  deriving DecidableEq

/-- The wording of a fault. -/
def ConfigFault.message (f : ConfigFault) : String :=
  "Invalid configuration: " ++
    match f with
    | .noTree => "limits.max_depth and limits.max_nodes must be positive"
    | .noIdentifier => "limits.max_identifier_len must be positive"
    | .noFetch => "provider.max_concurrent_fetches must be positive"

namespace EngineConfig

/-- The first fault of a configuration, if it has one. -/
def fault? (c : EngineConfig) : Option ConfigFault :=
  if c.limits.maxDepth = 0 ∨ c.limits.maxNodes = 0 then some .noTree
  else if c.limits.maxIdentifier = 0 then some .noIdentifier
  else if c.provider.maxConcurrentFetches = 0 then some .noFetch
  else none

/-- The configuration with another policy on duplicates. -/
def withDuplicatePolicy (c : EngineConfig) (policy : DuplicatePolicy) : EngineConfig :=
  { c with registry.duplicatePolicy := policy }

/-- The configuration with another timeout, given in microseconds and cut to whole
milliseconds. -/
def withFetchTimeout (c : EngineConfig) (micros : Nat) : EngineConfig :=
  { c with provider.fetchTimeout := micros / 1000 }

/-- The configuration with other limits. -/
def withLimits (c : EngineConfig) (limits : Limits) : EngineConfig :=
  { c with limits := limits }

/-- The configuration that keeps, or drops, the history of removed constraints. -/
def withRetainedHistory (c : EngineConfig) (retain : Bool) : EngineConfig :=
  { c with registry.retainHistory := retain }

end EngineConfig

end Mandate
