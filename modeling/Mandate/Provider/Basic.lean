import Mandate.Fact.Text

/-!
# Access to facts

Facts come from a provider outside.  A fetch may fail, and a failure is never fatal: the fact is
unresolved then.

Main definitions:

* `FetchError`: why a provider gives no answer.
* `Fetched`: the answer of a provider.
-/

namespace Mandate

/-- Why a provider gives no answer. -/
inductive FetchError
  | unresolved (key : FactKey)
  | transport (reason : String)
  | timeout (key : FactKey)
  deriving DecidableEq

/-- The wording of the error. -/
def FetchError.message : FetchError → String
  | .unresolved key => "fact " ++ key.display ++ " could not be resolved"
  | .transport reason => "provider transport error: " ++ reason
  | .timeout key => "fetching fact " ++ key.display ++ " timed out"

/-- The answer to a fetch; a fact without a value is unresolved. -/
abbrev Fetched := Except FetchError (Option FactValue)

end Mandate
