import FeatureFlags.Engine.Basic
import FeatureFlags.Store.Basic

/-!
# Errors of sticky resolves

What can go wrong between a request and its answer when records have to be fetched.
-/

namespace FeatureFlags

/-- Why a sticky resolve fails. -/
inductive StickyError where
  /-- A call of the engine fails. -/
  | engine (cause : EngineError)
  /-- Loading records fails. -/
  | store (cause : StoreError)
  /-- The other resolver fails. -/
  | fallback (reason : String)
  /-- Records were still missing after this many rounds of loading. -/
  | notConverged (rounds : Nat)
  deriving DecidableEq, Repr

namespace StickyError

/-- The text of the error. -/
def message : StickyError → String
  | engine cause => cause.message
  | store cause => cause.message
  | fallback reason => "Fallback resolve failed: " ++ reason
  | notConverged rounds => "Sticky resolve did not converge after " ++ toString rounds ++ " rounds"

end StickyError

end FeatureFlags
