import Mandate.Config.Decoding

/-!
# Configurations in JSON

A list may stand for an object: it holds the values of the fields in order and may end early.
-/

namespace Mandate

open Decode

/-- JSON, with words and records as everywhere else. -/
def Json.dialect : Dialect Json where
  nat := decodeNat
  bool := decodeBool
  word := decodeWord
  record := Record.decode

/-- The word for a policy. -/
def DuplicatePolicy.word : DuplicatePolicy → String
  | .reject => "reject"
  | .replace => "replace"

/-- The document of a policy. -/
def DuplicatePolicy.toJson (p : DuplicatePolicy) : Json :=
  .text p.word

/-- The policy of a document. -/
def DuplicatePolicy.ofJson : Json → Decoded DuplicatePolicy :=
  DuplicatePolicy.ofDocument Json.dialect

/-- The document of limits. -/
def Limits.toJson (l : Limits) : Json :=
  .object [("max_depth", .ofNat l.maxDepth), ("max_nodes", .ofNat l.maxNodes),
    ("max_identifier_len", .ofNat l.maxIdentifier)]

/-- The limits of a document. -/
def Limits.ofJson : Json → Decoded Limits :=
  Limits.ofDocument Json.dialect

/-- The document of the registry settings. -/
def RegistryConfig.toJson (r : RegistryConfig) : Json :=
  .object [("duplicate_policy", r.duplicatePolicy.toJson),
    ("retain_history_on_remove", .bool r.retainHistory),
    ("evaluate_on_register", .bool r.evaluateOnRegister)]

/-- The registry settings of a document. -/
def RegistryConfig.ofJson : Json → Decoded RegistryConfig :=
  RegistryConfig.ofDocument Json.dialect

/-- The document of the provider settings. -/
def ProviderConfig.toJson (p : ProviderConfig) : Json :=
  .object [("fetch_timeout_ms", .ofNat p.fetchTimeout),
    ("max_concurrent_fetches", .ofNat p.maxConcurrentFetches)]

/-- The provider settings of a document. -/
def ProviderConfig.ofJson : Json → Decoded ProviderConfig :=
  ProviderConfig.ofDocument Json.dialect

/-- The document of a configuration. -/
def EngineConfig.toJson (c : EngineConfig) : Json :=
  .object [("limits", c.limits.toJson), ("registry", c.registry.toJson),
    ("provider", c.provider.toJson)]

/-- The configuration of a document. -/
def EngineConfig.ofJson : Json → Decoded EngineConfig :=
  EngineConfig.ofDocument Json.dialect

end Mandate
