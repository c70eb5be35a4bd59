import Semijoin.Config.Reader
import Semijoin.Text.Blank

/-!
# Configuration

The only thing to configure is the sentinel index, against which joins without a target
run. It comes from the environment, else from a configuration file, else from the default.
-/

namespace Semijoin

/-- The configuration of a compilation (`CompilerConfig`). -/
structure Config where
  sentinel : String
  deriving DecidableEq, Repr

namespace Config

/-- The configuration without any file or environment. -/
def default : Config := ⟨".filterjoin"⟩

/-- The environment variable that overrides the sentinel index. -/
def environmentKey : String := "FILTERJOIN_SENTINEL_INDEX"

/-- Why there is no configuration. -/
inductive Failure where
  | unreadable (path : String) (reason : String)
  | text (failure : ConfigText.Failure)
  | blankSentinel
  deriving DecidableEq, Repr

/-- The wording of a text that is no configuration, for a reason. -/
def unparsable (reason : String) : String := s!"failed to parse config: {reason}"

/-- The wording of a failure. -/
def Failure.message : Failure → String
  | .unreadable path reason => s!"failed to read config {path}: {reason}"
  | .text failure => unparsable failure.message
  | .blankSentinel => "invalid configuration: sentinel_index must not be empty"

/-- Refuses a sentinel index that is blank (`validate`). -/
def check (config : Config) : Except Failure Config :=
  if config.sentinel.toList.all Text.isBlank then throw .blankSentinel else return config

/-- The configuration in the text of a file (`from_json`). -/
def ofText (text : String) : Except Failure Config := do
  let sentinel ← (ConfigText.read text).mapError .text
  check ⟨sentinel.getD default.sentinel⟩

/-- The configuration with what the environment overrides (`with_overrides`). -/
def override (config : Config) (lookup : String → Option String) : Except Failure Config :=
  check ⟨(lookup environmentKey).getD config.sentinel⟩

/-- The stored form of a configuration. -/
def toStored (config : Config) : Json := .object [(ConfigText.field, .string config.sentinel)]

end Config

end Semijoin
