import Tsr.Json.Utf8

/-!
# Semver: versions

* `parts`              the shape of a version text, before any number is read;
* `tryParseVersion`    the version, with what was read before the error;
* `Version.compare`    the order of versions; a missing version is below all others;
* `Version.display`    the text of a version.

A Rust `str` is the list of its characters; `asBytes` is its UTF-8.
-/

namespace Tsr.Semver

open Json (Bytes)

abbrev Str := List Char

def asBytes (text : Str) : Bytes := text.flatMap fun c => Json.encodeUtf8 c.toNat

/-- the length in bytes -/
def len (text : Str) : Nat := (asBytes text).length

/-- the text of valid UTF-8: the one whose bytes these are -/
def fromUtf8 (bytes : Bytes) : Option Str :=
  let text := Json.lossyLoop bytes.length bytes
  if asBytes text = bytes then some text else none

structure Version where
  major : UInt32 := 0
  minor : UInt32 := 0
  patch : UInt32 := 0
  prerelease : List Str := []
  build : List Str := []
deriving DecidableEq

inductive ParseError where
  | invalidVersion (input : Bytes)
  | componentOverflow (input : Bytes)
deriving DecidableEq

namespace Version

def incrementMajor (v : Version) : Version := { major := v.major + 1 }

def incrementMinor (v : Version) : Version := { major := v.major, minor := v.minor + 1 }

def incrementPatch (v : Version) : Version :=
  { major := v.major, minor := v.minor, patch := v.patch + 1 }

def zeroPrerelease : Version := { prerelease := [['0']] }

end Version

/-! ## texts -/

def isDigit (c : Char) : Bool := '0' ≤ c && c ≤ '9'

/-- the ASCII letters and the two characters that fold to one -/
def foldedLetter (c : Char) : Bool :=
  ('a' ≤ c && c ≤ 'z') || ('A' ≤ c && c ≤ 'Z') || c == '\u017f' || c == '\u212a'

def numeric (text : Str) : Bool :=
  !text.isEmpty && text.all isDigit && (len text == 1 || text.head? != some '0')

def wildcard (text : Str) : Bool := text == ['x'] || text == ['X'] || text == ['*']

/-- `str::split_once` -/
def splitOnce (sep : Char) (text : Str) : Option (Str × Str) :=
  match text.dropWhile (· != sep) with
  | [] => none
  | _ :: after => some (text.takeWhile (· != sep), after)

/-- `u32::from_str`: a sign is accepted, a value from `2 ^ 32` on is not -/
def parseU32 (text : Str) : Option UInt32 :=
  let digits := match text with
    | '+' :: rest => rest
    | _ => text
  if digits.isEmpty || !digits.all isDigit then none
  else
    let value := Nat.ofDigitChars 10 digits 0
    if value < 2 ^ 32 then some (UInt32.ofNat value) else none

/-- the digits of a number -/
def decimal (n : UInt32) : Str := Nat.toDigits 10 n.toNat

/-! ## parsing -/

structure Parts where
  major : Str
  minor : Option Str
  patch : Option Str
  prerelease : Option Str
  build : Option Str
deriving DecidableEq

def qualifierMark (c : Char) : Bool := c == '-' || c == '+'

def qualifierChar (c : Char) : Bool := foldedLetter c || isDigit c || c == '-' || c == '.'

/-- the prerelease and the build behind the numbers -/
def qualifiers : Str → Option Str × Option Str
  | [] => (none, none)
  | '-' :: qualifier =>
    match splitOnce '+' qualifier with
    | some (pre, metadata) => (some pre, some metadata)
    | none => (some qualifier, none)
  | _ :: qualifier => (none, some qualifier)

def badQualifier (part : Option Str) : Bool :=
  part.any fun part => part.isEmpty || !part.all qualifierChar

def badNumber (wildcards : Bool) (part : Option Str) : Bool :=
  part.any fun part => !(numeric part || wildcards && wildcard part)

def parts (text : Str) (wildcards : Bool) : Option Parts :=
  let numbers := (text.takeWhile fun c => !qualifierMark c).splitOn '.'
  let rest := text.dropWhile fun c => !qualifierMark c
  let major := numbers.headD []
  let minor := numbers[1]?
  let patch := numbers[2]?
  let (prerelease, build) := qualifiers rest
  if numbers[3]?.isSome || badNumber wildcards (some major) || badNumber wildcards minor ||
      badNumber wildcards patch then none
  else if !rest.isEmpty && patch.isNone then none
  else if badQualifier prerelease || badQualifier build then none
  else some { major, minor, patch, prerelease, build }

def uintComponent (text : Str) : Except ParseError UInt32 :=
  match parseU32 text with
  | some value => .ok value
  | none => .error (.componentOverflow (asBytes text))

def Version.setComponent (version : Version) (index : Nat) (value : UInt32) : Version :=
  match index with
  | 0 => { version with major := value }
  | 1 => { version with minor := value }
  | _ => { version with patch := value }

/-- the loop over the numbers; one that is too large is left as the largest value -/
def parseComponents (version : Version) : Nat → List (Option Str) → Version × Option ParseError
  | _, [] => (version, none)
  | index, none :: sources => parseComponents version (index + 1) sources
  | index, some source :: sources =>
    match uintComponent source with
    | .ok value => parseComponents (version.setComponent index value) (index + 1) sources
    | .error error => (version.setComponent index 0xFFFFFFFF, some error)

def prereleasePart (part : Str) : Bool :=
  numeric part ||
    ((part.head?.any fun c => foldedLetter c || c == '-') &&
      part.all fun c => foldedLetter c || isDigit c || c == '-')

def buildPart (part : Str) : Bool :=
  !part.isEmpty && part.all fun c => foldedLetter c || isDigit c || c == '-'

/-- the identifiers of a qualifier, if each of them is allowed -/
def identifiers (allowed : Str → Bool) : Option Str → Option (List Str)
  | none => some []
  | some text => if (text.splitOn '.').all allowed then some (text.splitOn '.') else none

def tryParseVersion (text : Bytes) : Version × Option ParseError :=
  match (fromUtf8 text).bind fun text => parts text false with
  | none => ({}, some (.invalidVersion text))
  | some parts =>
    match parseComponents {} 0 [some parts.major, parts.minor, parts.patch] with
    | (version, some error) => (version, some error)
    | (version, none) =>
      match identifiers prereleasePart parts.prerelease with
      | none => (version, some (.invalidVersion text))
      | some prerelease =>
        let version := { version with prerelease }
        match identifiers buildPart parts.build with
        | none => (version, some (.invalidVersion text))
        | some build => ({ version with build }, none)

def Version.parse (text : Bytes) : Except ParseError Version :=
  match tryParseVersion text with
  | (_, some error) => .error error
  | (version, none) => .ok version

/-! ## order -/

/-- the order of two numerals, through machine integers where both fit -/
def compareNumerals (left right : Str) : Ordering :=
  match parseU32 left, parseU32 right with
  | some left, some right => compare left right
  | _, _ => (compare (len left) (len right)).then (compare (asBytes left) (asBytes right))

def compareIdentifier (left right : Str) : Ordering :=
  let lexical := compare (asBytes left) (asBytes right)
  if lexical = .eq then lexical
  else match numeric left, numeric right with
    | true, false => .lt
    | false, true => .gt
    | true, true => compareNumerals left right
    | false, false => lexical

/-- the first difference, as long as there are two -/
def compareZipped : List Str → List Str → Ordering
  | l :: left, r :: right =>
    let order := compareIdentifier l r
    if order ≠ .eq then order else compareZipped left right
  | _, _ => .eq

def comparePrereleases (left right : List Str) : Ordering :=
  if left.isEmpty then
    if right.isEmpty then .eq else .gt
  else if right.isEmpty then .lt
  else
    let order := compareZipped left right
    if order ≠ .eq then order else compare left.length right.length

namespace Version

def compare : Option Version → Option Version → Ordering
  | none, none => .eq
  | none, some _ => .lt
  | some _, none => .gt
  | some left, some right =>
    (((Ord.compare left.major right.major).then (Ord.compare left.minor right.minor)).then
      (Ord.compare left.patch right.patch)).then (comparePrereleases left.prerelease right.prerelease)

/-! ## text -/

def displayQualifier (marker : Char) (parts : List Str) : Str :=
  if parts.isEmpty then [] else marker :: List.intercalate ['.'] parts

def display (v : Version) : Str :=
  decimal v.major ++ '.' :: decimal v.minor ++ '.' :: decimal v.patch ++
    displayQualifier '-' v.prerelease ++ displayQualifier '+' v.build

end Version

end Tsr.Semver
