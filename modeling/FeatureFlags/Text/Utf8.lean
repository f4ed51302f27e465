/-!
# Texts as bytes

Texts are carried as UTF-8. Bytes that come from outside need not be a text: in
`decode` a byte that belongs to no character keeps its place, so that whoever
reads on decides whether it matters.

`decode_encode`: the bytes of a text decode to its characters, and to nothing else.
-/

namespace FeatureFlags.Text

/-- What bytes say: characters, and `none` for each byte that belongs to no character. -/
abbrev Decoded := List (Option Char)

namespace Utf8

/-- The bytes of characters. -/
def encodeChars (cs : List Char) : List UInt8 := cs.flatMap String.utf8EncodeChar

/-- The bytes of a text. -/
def encode (s : String) : List UInt8 := encodeChars s.toList

/-- The character at the front of the bytes, if they begin with a whole one. -/
def front? (bytes : List UInt8) : Option Char := (bytes.take 4).toByteArray.utf8DecodeChar? 0

/-- What the bytes say. -/
def decode : List UInt8 → Decoded
  | [] => []
  | b :: rest =>
    match front? (b :: rest) with
    | some c => some c :: decode (rest.drop (c.utf8Size - 1))
    | none => none :: decode rest
  termination_by bytes => bytes.length

/-- Bytes that begin with those of a character have it at their front. -/
theorem front?_append (c : Char) (rest : List UInt8) :
    front? (String.utf8EncodeChar c ++ rest) = some c := by
  have hlen : (String.utf8EncodeChar c).length ≤ 4 := by
    rw [String.length_utf8EncodeChar]; exact c.utf8Size_le_four
  rw [front?, List.take_append, List.take_of_length_le hlen, List.toByteArray_append]
  exact ByteArray.utf8DecodeChar?_utf8EncodeChar_append

theorem decode_char_append (c : Char) (rest : List UInt8) :
    decode (String.utf8EncodeChar c ++ rest) = some c :: decode rest := by
  have hfront := front?_append c rest
  have hlen := String.length_utf8EncodeChar c
  cases hbytes : String.utf8EncodeChar c with
  | nil => simp [hbytes] at hlen; exact absurd hlen.symm (Nat.pos_iff_ne_zero.1 c.utf8Size_pos)
  | cons b bytes =>
    have hdrop : (bytes ++ rest).drop (c.utf8Size - 1) = rest := by
      have : bytes.length = c.utf8Size - 1 := by simp [hbytes] at hlen; omega
      rw [← this, List.drop_left]
    rw [hbytes, List.cons_append] at hfront
    rw [List.cons_append, decode, hfront]
    simp [hdrop]

/-- Characters in front of other bytes decode as themselves. -/
theorem decode_encodeChars_append (cs : List Char) (rest : List UInt8) :
    decode (encodeChars cs ++ rest) = cs.map some ++ decode rest := by
  induction cs with
  | nil => rfl
  | cons c cs ih => simp [encodeChars, decode_char_append, ← ih]

/-- The bytes of a text decode to its characters. -/
theorem decode_encode (s : String) : decode (encode s) = s.toList.map some := by
  simpa [encode, decode] using decode_encodeChars_append s.toList []

end Utf8

end FeatureFlags.Text
