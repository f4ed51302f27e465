import FeatureFlags.Resolution.Token
import FeatureFlags.Snapshot.Membership

/-!
# Errors of resolving

What can be wrong with a request, and what can go wrong within a flag.
-/

namespace FeatureFlags

/-- Why a request, or one flag of it, cannot be resolved. -/
inductive ResolveError where
  /-- The request names too many flags. -/
  | tooManyFlags (requested max : Nat)
  /-- No client has the secret. -/
  | invalidClientSecret
  /-- There is no such flag. -/
  | flagNotFound (flag : String)
  /-- The client may not resolve the flag. -/
  | flagNotEligible (flag client : String)
  /-- The name of the unit is too long. -/
  | unitTooLong (length max : Nat)
  /-- An assignment names a variant that the flag does not define. -/
  | unknownVariant (flag variant : String)
  /-- An allocation has no buckets. -/
  | emptyBucketSpace (flag rule : String)
  /-- Membership in a segment cannot be told. -/
  | membership (cause : MembershipError)
  /-- The token is not accepted. -/
  | token (cause : TokenError)
  /-- The token is of another account. -/
  | accountMismatch (expected found : String)
  /-- The token says nothing about the flag. -/
  | flagNotInToken (flag : String)
  deriving DecidableEq, Repr

namespace ResolveError

/-- The text of the error. -/
def message : ResolveError → String
  | tooManyFlags requested max =>
    "Too many flags requested: " ++ toString requested ++ " (max " ++ toString max ++ ")"
  | invalidClientSecret => "Invalid client secret"
  | flagNotFound flag => "Flag not found: " ++ flag
  | flagNotEligible flag client =>
    "Flag '" ++ flag ++ "' is not available to client '" ++ client ++ "'"
  | unitTooLong length max =>
    "Targeting key too long: " ++ toString length ++ " characters (max " ++ toString max ++ ")"
  | unknownVariant flag variant =>
    "Variant '" ++ variant ++ "' of flag '" ++ flag ++ "' is not defined"
  | emptyBucketSpace flag rule => "Rule '" ++ rule ++ "' of flag '" ++ flag ++ "' has no buckets"
  | membership cause => cause.message
  | token cause => cause.message
  | accountMismatch expected found =>
    "Resolve token belongs to account '" ++ found ++ "', expected '" ++ expected ++ "'"
  | flagNotInToken flag => "Flag '" ++ flag ++ "' is not in the resolve token"

/-- Whether the caller is at fault, and not the configuration. -/
def isBadRequest : ResolveError → Bool
  | membership _ | unknownVariant _ _ | emptyBucketSpace _ _ => false
  | _ => true

end ResolveError

end FeatureFlags
