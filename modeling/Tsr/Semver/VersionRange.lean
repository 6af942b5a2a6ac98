import Tsr.Semver.Version

/-!
# Semver: version ranges

A range is a list of alternatives, each of them a list of comparators.

* `parsePartial`      an operand, in which numbers may be missing or wildcards;
* `parseComparator`   one operator and its operand, as comparators with full versions;
* `parseHyphen`       two operands with a hyphen between them;
* `VersionRange.test` whether a version is in the range.
-/

namespace Tsr.Semver

open Json (Bytes)

inductive Operator where
  | less
  | lessEqual
  | equal
  | greaterEqual
  | greater
deriving DecidableEq

structure Comparator where
  operator : Operator
  operand : Version
deriving DecidableEq

structure VersionRange where
  alternatives : List (List Comparator) := []
deriving DecidableEq

/-! ## operands -/

structure PartialVersion where
  version : Version
  major : Str
  minor : Str
  patch : Str

/-- the numbers up to the first wildcard -/
def operandNumbers (major minor patch : Str) : Option (UInt32 × UInt32 × UInt32) :=
  if wildcard major then some (0, 0, 0)
  else (parseU32 major).bind fun majorNumber =>
    if wildcard minor then some (majorNumber, 0, 0)
    else (parseU32 minor).bind fun minorNumber =>
      if wildcard patch then some (majorNumber, minorNumber, 0)
      else (parseU32 patch).map fun patchNumber => (majorNumber, minorNumber, patchNumber)

def splitQualifier : Option Str → List Str
  | none => []
  | some text => text.splitOn '.'

def parsePartial (text : Str) : Option PartialVersion :=
  (parts text true).bind fun parts =>
    let minor := parts.minor.getD ['*']
    let patch := parts.patch.getD ['*']
    (operandNumbers parts.major minor patch).map fun (majorNumber, minorNumber, patchNumber) =>
      { version :=
          { major := majorNumber, minor := minorNumber, patch := patchNumber,
            prerelease := splitQualifier parts.prerelease, build := splitQualifier parts.build }
        major := parts.major, minor, patch }

/-! ## comparators -/

def parseHyphen (left right : Str) : Option (List Comparator) :=
  (parsePartial left).bind fun left => (parsePartial right).map fun right =>
    (if wildcard left.major then [] else [⟨.greaterEqual, left.version⟩]) ++
    (if wildcard right.major then []
     else if wildcard right.minor then [⟨.less, right.version.incrementMajor⟩]
     else if wildcard right.patch then [⟨.less, right.version.incrementMinor⟩]
     else [⟨.lessEqual, right.version⟩])

/-- the bound above of `~` and `^` -/
def upperBound (tilde minorWildcard patchWildcard : Bool) (version : Version) : Version :=
  if tilde && minorWildcard || !tilde && (0 < version.major || minorWildcard) then
    version.incrementMajor
  else if tilde || 0 < version.minor || patchWildcard then version.incrementMinor
  else version.incrementPatch

/-- the version with the lowest prerelease -/
def Version.lowest (version : Version) : Version := { version with prerelease := [['0']] }

/-- the version that follows everything the operand stands for, with its lowest prerelease -/
def Version.afterWildcard (version : Version) (minorWildcard : Bool) : Version :=
  (if minorWildcard then version.incrementMajor else version.incrementMinor).lowest

/-- an operator in front of an operand that stands for at least one number -/
def comparators (operator : Str) (version : Version) (minorWildcard patchWildcard : Bool) :
    Option (List Comparator) :=
  let wild := minorWildcard || patchWildcard
  if operator = ['~'] ∨ operator = ['^'] then
    some [⟨.greaterEqual, version⟩,
      ⟨.less, upperBound (operator = ['~']) minorWildcard patchWildcard version⟩]
  else if operator = ['<'] ∨ operator = ['>', '='] then
    some [⟨if operator = ['<'] then .less else .greaterEqual, if wild then version.lowest else version⟩]
  else if operator = ['<', '='] ∨ operator = ['>'] then
    some (if wild then
        [⟨if operator = ['<', '='] then .less else .greaterEqual, version.afterWildcard minorWildcard⟩]
      else [⟨if operator = ['<', '='] then .lessEqual else .greater, version⟩])
  else if operator = ['='] ∨ operator = [] then
    some (if wild then
        [⟨.greaterEqual, version.lowest⟩, ⟨.less, version.afterWildcard minorWildcard⟩]
      else [⟨.equal, version⟩])
  else none

def parseComparator (operator text : Str) : Option (List Comparator) :=
  (parsePartial text).bind fun operand =>
    if wildcard operand.major then
      some (if operator = ['<'] ∨ operator = ['>'] then [⟨.less, Version.zeroPrerelease⟩] else [])
    else comparators operator operand.version (wildcard operand.minor) (wildcard operand.patch)

/-! ## ranges -/

/-- the white space that is trimmed -/
def goSpace (c : Char) : Bool :=
  ('\u0009' ≤ c && c ≤ '\u000d') || c == ' ' || c == '\u0085' || c == '\u00a0' || c == '\u1680' ||
    ('\u2000' ≤ c && c ≤ '\u200a') || c == '\u2028' || c == '\u2029' || c == '\u202f' ||
    c == '\u205f' || c == '\u3000'

/-- the white space between tokens -/
def regexSpace (c : Char) : Bool :=
  c == '\t' || c == '\n' || c == '\u000c' || c == '\r' || c == ' '

/-- `str::trim_matches` -/
def trimMatches (p : Char → Bool) (text : Str) : Str := (text.dropWhile p).rdropWhile p

/-- `text.split("||")` -/
def splitBars : Str → List Str
  | '|' :: '|' :: rest => [] :: splitBars rest
  | c :: rest => (splitBars rest).modifyHead (c :: ·)
  | [] => [[]]

def operatorChar (c : Char) : Bool := c == '<' || c == '>' || c == '=' || c == '~' || c == '^'

/-- a token at its operator -/
def splitOperator : Str → Str × Str
  | '<' :: '=' :: rest => (['<', '='], rest)
  | '>' :: '=' :: rest => (['>', '='], rest)
  | c :: rest => if operatorChar c then ([c], rest) else ([], c :: rest)
  | [] => ([], [])

def parseToken (token : Str) : Option (List Comparator) :=
  let (operator, operand) := splitOperator (trimMatches goSpace token)
  parseComparator operator operand

def tokens (range : Str) : List Str := (range.splitOnP regexSpace).filter fun token => !token.isEmpty

def parseTokens : List Str → Option (List Comparator)
  | [left, ['-'], right] => parseHyphen left right
  | tokens => (tokens.mapM parseToken).map List.flatten

def parseAlternative (range : Str) : Option (List Comparator) := parseTokens (tokens range)

namespace VersionRange

def parse (text : Bytes) : Option VersionRange :=
  (fromUtf8 text).bind fun text =>
    let ranges := ((splitBars (trimMatches goSpace text)).map (trimMatches goSpace)).filter
      fun range => !range.isEmpty
    (ranges.mapM parseAlternative).map fun alternatives => { alternatives }

def accepts (version : Option Version) (comparator : Comparator) : Bool :=
  let order := Version.compare version (some comparator.operand)
  match comparator.operator with
  | .less => order = .lt
  | .lessEqual => order ≠ .gt
  | .equal => order = .eq
  | .greaterEqual => order ≠ .lt
  | .greater => order = .gt

def test (range : VersionRange) (version : Option Version) : Bool :=
  range.alternatives.isEmpty ||
    range.alternatives.any fun alternative => alternative.all fun comparator => accepts version comparator

end VersionRange

end Tsr.Semver
