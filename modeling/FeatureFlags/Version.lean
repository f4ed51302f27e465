import FeatureFlags.Text.Blank
import FeatureFlags.Text.Digits
import FeatureFlags.Text.Split

/-!
# Semantic versions

- `Version.ofText?` reads `major.minor`, with an optional `v` in front, an
  optional patch number, an optional pre-release tag and optional build text.
- `Version.compare` is the precedence of semantic versions. Versions that compare
  equal may still differ in the spelling of their tags.
-/

namespace FeatureFlags

/-- A semantic version. Build text is not kept. -/
structure Version where
  /-- The major number. -/
  major : Nat
  /-- The minor number. -/
  minor : Nat
  /-- The patch number; zero where none is given. -/
  patch : Nat
  /-- The pre-release tag. -/
  pre : Option String
  deriving DecidableEq, Repr

namespace Version

/-- The characters of tags and build text. -/
def isTagChar (c : Char) : Bool := c.isAlphanum || c = '.' || c = '-'

/-- The numbers of a version lie below this bound. -/
def numberBound : Nat := Nat.pow 2 64

/-! ## Reading -/

/-- A number below the bound and the text behind its digits. -/
def readNumber (cs : List Char) : Option (Nat × List Char) :=
  (Text.Digits.decodeBelow? numberBound (cs.takeWhile Char.isDigit)).map
    fun n => (n, cs.dropWhile Char.isDigit)

/-- A patch number behind its point; zero where there is no point. -/
def readPatch (cs : List Char) : Option (Nat × List Char) :=
  match cs with
  | '.' :: rest => readNumber rest
  | _ => some (0, cs)

/-- Text over tag characters behind `mark`; none where there is no mark. -/
def readTag (mark : Char) (cs : List Char) : Option (Option String × List Char) :=
  match cs with
  | [] => some (none, cs)
  | c :: rest =>
    if c = mark then
      let tag := rest.takeWhile isTagChar
      if tag = [] then none else some (some (String.ofList tag), rest.dropWhile isTagChar)
    else some (none, cs)

/-- The version a text without blanks around it stands for. -/
def ofChars? (cs : List Char) : Option Version := do
  let cs := match cs with
    | 'v' :: rest => rest
    | _ => cs
  let (major, cs) ← readNumber cs
  let (minor, cs) ← match cs with
    | '.' :: rest => readNumber rest
    | _ => none
  let (patch, cs) ← readPatch cs
  let (pre, cs) ← readTag '-' cs
  let (_, cs) ← readTag '+' cs
  if cs = [] then some { major, minor, patch, pre } else none

/-- The version a text stands for; blanks around it do not matter. -/
def ofText? (text : String) : Option Version := ofChars? (Text.trim text.toList)

/-! ## Writing -/

/-- The text of a version, always with its patch number. -/
def toText (v : Version) : String :=
  let numbers := toString v.major ++ "." ++ toString v.minor ++ "." ++ toString v.patch
  match v.pre with
  | some tag => numbers ++ "-" ++ tag
  | none => numbers

/-! ## Precedence -/

/-- The number an identifier counts as: digits that stand for a number below the bound. A plus sign
in front of them does not matter; no tag that is read has one. -/
def identifierNumber? (cs : List Char) : Option Nat := Text.Digits.unsigned? numberBound cs

/-- Identifiers that count as numbers compare as numbers and come before the others, which compare
character by character. So a number of 2^64 or more counts as text. -/
def compareIdentifiers (a b : List Char) : Ordering :=
  match identifierNumber? a, identifierNumber? b with
  | some x, some y => Ord.compare x y
  | some _, none => .lt
  | none, some _ => .gt
  | none, none => Ord.compare a b

/-- Identifiers from left to right; what runs out first comes first. -/
def compareIdentifierLists : List (List Char) → List (List Char) → Ordering
  | [], [] => .eq
  | [], _ :: _ => .lt
  | _ :: _, [] => .gt
  | a :: as, b :: bs => (compareIdentifiers a b).then (compareIdentifierLists as bs)

/-- Tags by their identifiers, which points separate. -/
def compareTags (a b : String) : Ordering :=
  compareIdentifierLists (Text.split '.' a.toList) (Text.split '.' b.toList)

/-- A pre-release comes before its release. -/
def comparePre : Option String → Option String → Ordering
  | none, none => .eq
  | some _, none => .lt
  | none, some _ => .gt
  | some a, some b => compareTags a b

/-- Precedence: the three numbers, then the pre-release tags. -/
def compare (a b : Version) : Ordering :=
  (Ord.compare a.major b.major).then <|
    (Ord.compare a.minor b.minor).then <|
      (Ord.compare a.patch b.patch).then (comparePre a.pre b.pre)

end Version

end FeatureFlags
