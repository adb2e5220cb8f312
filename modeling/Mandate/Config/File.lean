import Mandate.Config.Toml
import Mandate.Config.Yaml
import Mandate.Text.Split

/-!
# Configuration files

A configuration is written in one of two formats; the extension of a file name tells which.

Main definitions:

* `ConfigFormat`, `ConfigError`.
* `EngineConfig.read`: the configuration of a text.
* `ConfigFormat.ofFileName`: the format of a file.
* `EngineConfig.load`: the configuration of a file.
-/

namespace Mandate

/-- The formats of configurations. -/
inductive ConfigFormat
  | toml
  | yaml
  deriving DecidableEq

/-- Why there is no configuration. -/
inductive ConfigError
  /-- There is no such file. -/
  | missing
  /-- The text is no configuration in its format. -/
  | unreadable (format : ConfigFormat)
  | invalid (fault : ConfigFault)
  deriving DecidableEq

/-- The configuration that a text in a format writes, if it is one. -/
def EngineConfig.ofText? : ConfigFormat → String → Option EngineConfig
  | .toml, text => EngineConfig.ofToml? text
  | .yaml, text => EngineConfig.ofYaml? text

/-- The configuration of a text, if the engine can operate with it. -/
def EngineConfig.read (format : ConfigFormat) (text : String) : Except ConfigError EngineConfig :=
  match EngineConfig.ofText? format text with
  | none => .error (.unreadable format)
  | some c =>
    match c.fault? with
    | some fault => .error (.invalid fault)
    | none => .ok c

/-- The extension of a file name: what follows its last point, unless the name starts there. -/
def fileExtension? (name : String) : Option String :=
  let file :=
    match Text.splitLast? '/' name.toList with
    | some (_, file) => file
    | none => name.toList
  match Text.splitLast? '.' file with
  | some (stem, extension) => if stem.isEmpty then none else some (String.ofList extension)
  | none => none

/-- The format of a file. -/
def ConfigFormat.ofFileName (name : String) : ConfigFormat :=
  match fileExtension? name with
  | some "yaml" | some "yml" => .yaml
  | _ => .toml

/-- The configuration of a file with the given text, if there is such a file. -/
def EngineConfig.load (name : String) : (text : Option String) → Except ConfigError EngineConfig
  | none => .error .missing
  | some text => EngineConfig.read (.ofFileName name) text

/-- The configuration that a service starts with: that of a TOML text, or the defaults where the
text is unusable. -/
def EngineConfig.orDefault (text : Option String) : EngineConfig :=
  match text with
  | none => {}
  | some text =>
    match EngineConfig.read .toml text with
    | .ok c => c
    | .error _ => {}

end Mandate
