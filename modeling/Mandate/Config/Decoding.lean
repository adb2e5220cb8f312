import Mandate.Config.Basic

/-!
# Reading configurations

A configuration is written as a record with one member for each group of settings.  Every member
may be left out.  A dialect tells how the values of one kind of document are read; the settings and
their names are the same in all of them.

Main definitions:

* `Dialect`: how numbers, truth values, words and records are read.
* `Limits.ofDocument`, `RegistryConfig.ofDocument`, `ProviderConfig.ofDocument`: groups of settings.
* `EngineConfig.ofDocument`: all settings.
-/

namespace Mandate

open Decode

/-- How values are read from documents of a kind. -/
structure Dialect (δ : Type) where
  nat : δ → Decoded Nat
  bool : δ → Decoded Bool
  /-- A word out of a table. -/
  word : {α : Type} → List (String × α) → δ → Decoded α
  record : {α : Type} → Record δ α → δ → Decoded α

/-- The words for policies. -/
def DuplicatePolicy.words : List (String × DuplicatePolicy) :=
  [("reject", .reject), ("replace", .replace)]

variable {δ : Type}

/-- The policy of a document. -/
def DuplicatePolicy.ofDocument (dialect : Dialect δ) : δ → Decoded DuplicatePolicy :=
  dialect.word DuplicatePolicy.words

/-- The limits of a document. -/
def Limits.ofDocument (dialect : Dialect δ) : δ → Decoded Limits :=
  let d := Limits.standard
  dialect.record ((Record.three true (.optional "max_depth" dialect.nat d.maxDepth)
    (.optional "max_nodes" dialect.nat d.maxNodes)
    (.optional "max_identifier_len" dialect.nat d.maxIdentifier)).map
    fun (a, b, c) => Limits.mk a b c)

/-- The registry settings of a document. -/
def RegistryConfig.ofDocument (dialect : Dialect δ) : δ → Decoded RegistryConfig :=
  let d : RegistryConfig := {}
  dialect.record ((Record.three true
    (.optional "duplicate_policy" (DuplicatePolicy.ofDocument dialect) d.duplicatePolicy)
    (.optional "retain_history_on_remove" dialect.bool d.retainHistory)
    (.optional "evaluate_on_register" dialect.bool d.evaluateOnRegister)).map
    fun (a, b, c) => RegistryConfig.mk a b c)

/-- The provider settings of a document. -/
def ProviderConfig.ofDocument (dialect : Dialect δ) : δ → Decoded ProviderConfig :=
  let d : ProviderConfig := {}
  dialect.record ((Record.two true (.optional "fetch_timeout_ms" dialect.nat d.fetchTimeout)
    (.optional "max_concurrent_fetches" dialect.nat d.maxConcurrentFetches)).map
    fun (a, b) => ProviderConfig.mk a b)

/-- The configuration of a document. -/
def EngineConfig.ofDocument (dialect : Dialect δ) : δ → Decoded EngineConfig :=
  dialect.record ((Record.three true (.optional "limits" (Limits.ofDocument dialect) .standard)
    (.optional "registry" (RegistryConfig.ofDocument dialect) {})
    (.optional "provider" (ProviderConfig.ofDocument dialect) {})).map
    fun (a, b, c) => EngineConfig.mk a b c)

end Mandate
