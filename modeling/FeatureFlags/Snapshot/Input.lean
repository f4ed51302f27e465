import FeatureFlags.Fingerprint
import FeatureFlags.Flag.Basic
import FeatureFlags.Json.Reader
import FeatureFlags.Targeting.Segment

/-!
# Snapshots as delivered

The configuration of an account as it arrives: decoded, but not yet checked.
-/

namespace FeatureFlags

/-- A secret, and the client that presents it. -/
structure Credential where
  client : String
  secret : String
  deriving DecidableEq, Repr

namespace Credential

def toJson (c : Credential) : Json :=
  .object [("client", .string c.client), ("secret", .string c.secret)]

def ofJson? (j : Json) : Option Credential := do
  let r ← Record.ofJson? ["client", "secret"] j
  let client ← r.required "client" Json.asString?
  let secret ← r.required "secret" Json.asString?
  return { client, secret }

end Credential

/-- The configuration of an account, not yet checked. -/
structure SnapshotInput where
  /-- The name of the account. -/
  account : String
  flags : List Flag := []
  segments : List Segment := []
  /-- The populations by the names of their segments. -/
  populations : Dict Population := .empty
  credentials : List Credential := []

namespace SnapshotInput

def toJson (s : SnapshotInput) : Json :=
  .object [("account", .string s.account), ("flags", Json.ofList Flag.toJson s.flags),
    ("segments", Json.ofList Segment.toJson s.segments),
    ("bitsets", Json.ofDict Population.toJson s.populations),
    ("clients", Json.ofList Credential.toJson s.credentials)]

def ofJson? (origin : Origin) (j : Json) : Option SnapshotInput := do
  let r ← Record.ofJson? ["account", "flags", "segments", "bitsets", "clients"] j
  let account ← r.required "account" Json.asString?
  let flags ← r.defaulted "flags" [] (Json.asList? (Flag.ofJson? origin))
  let segments ← r.defaulted "segments" [] (Json.asList? (Segment.ofJson? origin))
  let populations ← r.defaulted "bitsets" .empty (Json.asDict? Population.ofJson?)
  let credentials ← r.defaulted "clients" [] (Json.asList? Credential.ofJson?)
  return { account, flags, segments, populations, credentials }

/-- A configuration from a text. -/
def ofText? (text : String) : Option SnapshotInput := (Json.ofText? text).bind (ofJson? .text)

/-- The digest of the written form. -/
def fingerprint (s : SnapshotInput) : String := s.toJson.fingerprint

end SnapshotInput

end FeatureFlags
