import FeatureFlags.Digest.XxHash
import FeatureFlags.Json.Writer
import FeatureFlags.Text.Hex
import FeatureFlags.Text.Utf8

/-!
# Fingerprints

The fingerprint of a value is a digest of its JSON text. The text is a function of
the value, since fields are written in a fixed order and keys ascend, so equal
values have equal fingerprints.
-/

namespace FeatureFlags.Json

/-- The bytes of the text of a tree. -/
def toBytes (j : Json) : List UInt8 := Text.Utf8.encode j.toText

/-- The digest of the text of a tree. -/
def digest (j : Json) : UInt64 := Digest.XxHash.hash j.toBytes

/-- The digest of the text of a tree as sixteen digits. -/
def fingerprint (j : Json) : String := Text.Hex.ofUInt64 j.digest

end FeatureFlags.Json
