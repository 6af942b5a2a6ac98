import Tsr.Scanner.Cursor

/-!
# Scanner: escapes and identifiers

* `scanHexDigits`       a run of hexadecimal digits, with separators when the caller admits them;
* `scanUnicodeEscape`   `\u` with four digits, or with any number of them in braces;
* `scanEscapeSequence`  an escape of a string, a template or a regular expression;
* `scanIdentifier`      an identifier, with escapes in it.
-/

namespace Tsr.Scanner
open Tsr.Json (Bytes decodeUtf8 encodeUtf8 isScalar runeError)
open Tsr.Lib.Loop

def isHighSurrogate (rune : Nat) : Bool := 0xD800 ≤ rune && rune ≤ 0xDBFF

def isLowSurrogate (rune : Nat) : Bool := 0xDC00 ≤ rune && rune ≤ 0xDFFF

def surrogatePairToCodePoint (high low : Nat) : Nat :=
  if isHighSurrogate high && isLowSurrogate low then
    ((high - 0xD800) <<< 10) + low - 0xDC00 + 0x10000
  else runeError

/-- a surrogate keeps its three bytes -/
def encodeRune (rune : Nat) : Bytes :=
  if isHighSurrogate rune || isLowSurrogate rune then
    [0xED, UInt8.ofNat (0x80 + rune / 64 % 64), UInt8.ofNat (0x80 + rune % 64)]
  else encodeUtf8 (if isScalar rune then rune else runeError)

def toAsciiLowercase (b : UInt8) : UInt8 := if 0x41 ≤ b ∧ b ≤ 0x5A then b + 0x20 else b

def radixDigit (b : UInt8) : Nat :=
  if isDigit b.toNat then b.toNat - 0x30 else (toAsciiLowercase b).toNat - 0x61 + 10

/-- values above the maximum stay there -/
def saturatedRadix (bytes : Bytes) (base maximum : Nat) : Nat :=
  bytes.foldl (fun value b => min (value * base + radixDigit b) maximum) 0

/-- the subtraction of a digit's value underflows on other bytes -/
def hasRadixDigits (bytes : Bytes) : Bool :=
  bytes.all fun b => isDigit b.toNat || 0x61 ≤ toAsciiLowercase b

def i32Max : Nat := 2 ^ 31 - 1

def digitBytes (base n : Nat) : Bytes := (Nat.toDigits base n).map fun d => UInt8.ofNat d.toNat

inductive IdentifierVariant where
  | standard
  | jsx
  | regExpGroupName
deriving DecidableEq

def IdentifierVariant.language : IdentifierVariant → LanguageVariant
  | .jsx => .jsx
  | _ => .standard

structure EscapeFlags where
  string : Bool := false
  reportErrors : Bool := false
  regularExpression : Bool := false
  annexB : Bool := false
  anyUnicodeMode : Bool := false
  atomEscape : Bool := false
deriving DecidableEq

section
variable (src : Source)

/-! ## digits -/

/-- digits found so far, whether a separator may follow, whether one has just been read -/
structure DigitRun where
  cursor : Cursor
  count : Nat
  allowSeparator : Bool
  previousSeparator : Bool

def DigitRun.ahead (r : DigitRun) : Nat := r.cursor.ahead src

def DigitRun.hang (r : DigitRun) : DigitRun := { r with cursor := r.cursor.panic }

/-- a separator: allowed after a digit, else an error that depends on what stands before it -/
def DigitRun.separator (r : DigitRun) : DigitRun :=
  let c := r.cursor.flag fun f => { f with containsSeparator := true }
  if r.allowSeparator then
    { r with cursor := c.move 1, allowSeparator := false, previousSeparator := true }
  else
    let message := if r.previousSeparator then
      Message.multipleConsecutiveNumericSeparatorsAreNotPermitted
      else .numericSeparatorsAreNotAllowedHere
    { r with cursor := (c.errorAt message c.pos 1 []).move 1 }

def DigitRun.finish (r : DigitRun) : Cursor :=
  if r.previousSeparator then
    r.cursor.errorAt .numericSeparatorsAreNotAllowedHere ((r.cursor.pos : Int) - 1) 1 []
  else r.cursor

def hexPass (minimum : Nat) (many separators : Bool) (r : DigitRun) : Pass DigitRun DigitRun :=
  if r.count < minimum ∨ many = true then
    if (char src r.cursor).any (fun b => isHexDigit b.toNat) then
      .again { cursor := r.cursor.move 1, count := r.count + 1, allowSeparator := separators,
               previousSeparator := false }
    else if separators = true ∧ char src r.cursor = some 0x5F then .again r.separator
    else .leave r
  else .leave r

def hexDigitValue (original : Bytes) (containsSeparator : Bool) : Bytes :=
  if original.any (fun b => (0x41 ≤ b && b ≤ 0x5A) || b = 0x5F) then
    (original.filter fun b => b ≠ 0x5F || !containsSeparator).map toAsciiLowercase
  else original

def scanHexDigits (minimum : Nat) (many separators : Bool) (c : Cursor) : Bytes × Cursor :=
  let start := c.pos
  let r := loop (hexPass src minimum many separators) DigitRun.hang (DigitRun.ahead src)
    ⟨c, 0, false, false⟩
  let c := r.finish
  if r.count < minimum then ([], c)
  else
    let (original, c) := slice src start c.pos c
    match c.hexDigitCache.lookup original with
    | some cached => (cached, c)
    | none =>
      let value := hexDigitValue original c.tokenFlags.containsSeparator
      (value, { c with hexDigitCache := (original, value) :: c.hexDigitCache })

/-! ## escapes -/

/-- the value of the digits and whether the braces close; `none` stands for `-1` -/
def closeExtended (start value : Nat) (report : Bool) (c : Cursor) : Option Nat × Cursor :=
  let tooLarge := 0x10FFFF < value
  let c := c.errorIf (tooLarge ∧ report = true) .extendedUnicodeEscapeValueOutOfRange (start + 1)
    ((c.pos : Int) - start - 1) []
  if src.text.length ≤ c.pos then
    let c := c.errorIf report .unexpectedEndOfText c.pos 0 []
    (none, c.flag fun f => { f with containsInvalidEscape := true })
  else if char src c = some 0x7D then
    let c := c.move 1
    if tooLarge then (none, c.flag fun f => { f with containsInvalidEscape := true })
    else (some value, c.flag fun f => { f with extendedUnicodeEscape := true })
  else
    let c := c.errorIf report .unterminatedUnicodeEscapeSequence c.pos 0 []
    (none, c.flag fun f => { f with containsInvalidEscape := true })

/-- the digits of a Unicode escape: any number of them in braces, else four -/
def unicodeDigits (c : Cursor) : Bytes × Cursor :=
  if char src c = some 0x7B then scanHexDigits src 1 true false (c.move 1)
  else scanHexDigits src 4 false false (c.flag fun f => { f with unicodeEscape := true })

def scanUnicodeEscape (report : Bool) (c : Cursor) : Option Nat × Cursor :=
  let c := c.move 2
  let start := c.pos
  let extended := char src c = some 0x7B
  let (digits, c) := unicodeDigits src c
  if digits = [] then
    let c := c.flag fun f => { f with containsInvalidEscape := true }
    (none, c.errorIf report .hexadecimalDigitExpected c.pos 0 [])
  else
    let c := c.require (hasRadixDigits digits = true)
    let value := saturatedRadix digits 16 i32Max
    if extended then closeExtended src start value report c else (some value, c)

/-- position and flags as they were -/
def Cursor.restore (saved c : Cursor) : Cursor :=
  { c with pos := saved.pos, tokenFlags := saved.tokenFlags }

def scanLowSurrogateEscape (high : Nat) (c : Cursor) : Option Nat × Cursor :=
  if char src c = some 0x5C ∧ charAt src c 1 = some 0x75 then
    let (low, c') := scanUnicodeEscape src false c
    match low with
    | some low =>
      if isLowSurrogate low then (some (surrogatePairToCodePoint high low), c')
      else (none, Cursor.restore c c')
    | none => (none, Cursor.restore c c')
  else (none, c)

def peekUnicodeEscape (c : Cursor) : Option Nat × Cursor :=
  if charAt src c 1 = some 0x75 then
    let (codePoint, c') := scanUnicodeEscape src false c
    (codePoint, Cursor.restore c c')
  else (none, c)

def EscapeFlags.report (flags : EscapeFlags) : Bool := flags.regularExpression || flags.reportErrors

def EscapeFlags.allowExtended (flags : EscapeFlags) : Bool := flags.string || flags.anyUnicodeMode

/-- up to two more octal digits, one after `4` to `7` -/
def octalDigits (ch : UInt8) (c : Cursor) : Cursor :=
  let c := if ch ≤ 0x33 ∧ (char src c).any (fun b => isOctalDigit b.toNat) = true then c.move 1 else c
  if (char src c).any (fun b => isOctalDigit b.toNat) = true then c.move 1 else c

/-- the value of an octal escape and the error with its hexadecimal spelling -/
def octalValue (flags : EscapeFlags) (start : Nat) (ch : UInt8) (c : Cursor) : Bytes × Cursor :=
  let (digits, c) := slice src (start + 1) c.pos c
  let c := c.require (hasRadixDigits digits = true)
  let code := saturatedRadix digits 8 i32Max
  let message := if flags.regularExpression = true ∧ flags.atomEscape = false ∧ ch ≠ 0x30 then
    Message.octalEscapeSequencesAndBackreferencesAreNotAllowedInACharacterClass
    else .octalEscapeSequencesAreNotAllowed
  let hex := digitBytes 16 code
  let arg := [0x5C, 0x78] ++ (if hex.length < 2 then 0x30 :: hex else hex)
  (encodeRune code, c.errorAt message start ((c.pos : Int) - start) [arg])

/-- `\0` to `\7`, the backslash at `start` -/
def octalEscape (flags : EscapeFlags) (start : Nat) (ch : UInt8) (c : Cursor) : Bytes × Cursor :=
  if ch = 0x30 ∧ (char src c).any (fun b => isDigit b.toNat) = false then ([0], c)
  else
    let c := (octalDigits src ch c).flag fun f => { f with containsInvalidEscape := true }
    if flags.report then octalValue src flags start ch c else slice src start c.pos c

/-- `\8` and `\9` -/
def decimalEscape (flags : EscapeFlags) (start : Nat) (c : Cursor) : Bytes × Cursor :=
  let c := c.flag fun f => { f with containsInvalidEscape := true }
  if flags.report then
    let c := if flags.regularExpression = true ∧ flags.atomEscape = false then
      c.errorAt .decimalEscapeSequencesAndBackreferencesAreNotAllowedInACharacterClass start
        ((c.pos : Int) - start) []
      else
        let (arg, c) := slice src start c.pos c
        c.errorAt .escapeSequenceIsNotAllowed start ((c.pos : Int) - start) [arg]
    slice src (start + 1) c.pos c
  else slice src start c.pos c

/-- a second escape completes a surrogate pair, in a regular expression only in a Unicode mode -/
def pairEscape (flags : EscapeFlags) (codePoint : Nat) (c : Cursor) : Bytes × Cursor :=
  if flags.regularExpression = false then
    let (combined, c) := scanLowSurrogateEscape src codePoint c
    (encodeRune (combined.getD codePoint), c)
  else if flags.anyUnicodeMode = true ∧ char src c = some 0x5C ∧ charAt src c 1 = some 0x75 ∧
      charAt src c 2 ≠ some 0x7B then
    let (next, c') := scanUnicodeEscape src flags.report c
    match next with
    | some next =>
      if isLowSurrogate next then (encodeRune (surrogatePairToCodePoint codePoint next), c')
      else (encodeRune codePoint, { c' with pos := c.pos })
    | none => (encodeRune codePoint, { c' with pos := c.pos })
  else (encodeRune codePoint, c)

/-- braces are an error where the flags do not admit them -/
def checkExtended (flags : EscapeFlags) (start : Nat) (c : Cursor) : Cursor :=
  if flags.allowExtended = false then
    (c.flag fun f => { f with containsInvalidEscape := true }).errorIf flags.report
      .unicodeEscapeSequencesAreOnlyAvailableInUnicodeMode start ((c.pos : Int) - start) []
  else c

/-- `\u`, the cursor behind the `u` -/
def unicodeEscape (flags : EscapeFlags) (start : Nat) (c : Cursor) : Bytes × Cursor :=
  let extended := char src c = some 0x7B
  let (codePoint, c) := scanUnicodeEscape src flags.report { c with pos := c.pos - 2 }
  let c := if extended then checkExtended flags start c else c
  match codePoint with
  | none => slice src start c.pos c
  | some codePoint =>
    if isHighSurrogate codePoint = true ∧ (extended → flags.regularExpression = false) then
      pairEscape src flags codePoint c
    else (encodeRune codePoint, c)

/-- one of the two digits of `\x`; `leave` with whether both are there -/
def hexEscapePass (start : Nat) (c : Cursor) : Pass Cursor (Bool × Cursor) :=
  if c.pos < start + 4 then
    if (char src c).any (fun b => isHexDigit b.toNat) then .again (c.move 1) else .leave (false, c)
  else .leave (true, c)

def hexEscape (flags : EscapeFlags) (start : Nat) (c : Cursor) : Bytes × Cursor :=
  let (complete, c) := loop (hexEscapePass src start) (fun c => (false, c.panic)) (Cursor.ahead src) c
  if complete then
    let c := c.flag fun f => { f with hexEscape := true }
    let (digits, c) := slice src (start + 2) c.pos c
    let c := c.require (hasRadixDigits digits = true)
    (encodeRune (saturatedRadix digits 16 i32Max), c)
  else
    let c := c.flag fun f => { f with containsInvalidEscape := true }
    let c := c.errorIf flags.report .hexadecimalDigitExpected c.pos 0 []
    slice src start c.pos c

/-- the rune behind the backslash: from `0x80` on it is decoded as a whole -/
def escapedRune (ch : UInt8) (c : Cursor) : Nat × Cursor :=
  if 0x80 ≤ ch then
    let (rest, c) := tail src (c.pos - 1) c
    let (rune, size) := decodeUtf8 rest
    (rune, { c with pos := c.pos - 1 + size })
  else (ch.toNat, c)

/-- a rune that stands for itself or, as a line separator, for nothing -/
def plainEscape (flags : EscapeFlags) (start : Nat) (ch : UInt8) (c : Cursor) : Bytes × Cursor :=
  let (rune, c) := escapedRune src ch c
  if rune = 0x2028 ∨ rune = 0x2029 then ([], c)
  else
    (encodeRune rune, c.errorIf (flags.anyUnicodeMode = true ∨
      (flags.regularExpression = true ∧ flags.annexB = false ∧ isIdentifierPart rune = true))
      .thisCharacterCannotBeEscapedInARegularExpression start ((c.pos : Int) - start) [])

/-- the escapes that stand for one byte -/
def simpleEscape (ch : UInt8) : Option Bytes :=
  if ch = 0x62 then some [0x08]
  else if ch = 0x74 then some [0x09]
  else if ch = 0x6E then some [0x0A]
  else if ch = 0x76 then some [0x0B]
  else if ch = 0x66 then some [0x0C]
  else if ch = 0x72 then some [0x0D]
  else if ch = 0x27 ∨ ch = 0x22 then some [ch]
  else none

def scanEscapeSequence (flags : EscapeFlags) (c : Cursor) : Bytes × Cursor :=
  let start := c.pos
  let c := c.move 1
  match char src c with
  | none => ([], c.error .unexpectedEndOfText)
  | some ch =>
    let c := c.move 1
    if 0x30 ≤ ch ∧ ch ≤ 0x37 then octalEscape src flags start ch c
    else if ch = 0x38 ∨ ch = 0x39 then decimalEscape src flags start c
    else if (simpleEscape ch).isSome then ((simpleEscape ch).getD [], c)
    else if ch = 0x75 then unicodeEscape src flags start c
    else if ch = 0x78 then hexEscape src flags start c
    else if ch = 0x0D then ([], if char src c = some 0x0A then c.move 1 else c)
    else if ch = 0x0A then ([], c)
    else plainEscape src flags start ch c

/-! ## identifiers -/

def scanIdentifierEscape (valid : Nat → Bool) (allowPair : Bool) (c : Cursor) :
    Option Nat × Cursor :=
  let (escaped, c) := peekUnicodeEscape src c
  match escaped with
  | none => (none, c)
  | some escaped =>
    if valid escaped then scanUnicodeEscape src true c
    else if allowPair = true ∧ charAt src c 2 ≠ some 0x7B ∧ isHighSurrogate escaped = true then
      let (_, c') := scanUnicodeEscape src false c
      if charAt src c' 2 ≠ some 0x7B then
        let (combined, c'') := scanLowSurrogateEscape src escaped c'
        if combined.any valid then (combined, c'') else (none, Cursor.restore c c'')
      else (none, Cursor.restore c c')
    else (none, c)

/-- the parts read so far: the cursor, the start of the pending slice and the text before it -/
structure Parts where
  cursor : Cursor
  start : Nat
  result : Option Bytes

def Parts.ahead (p : Parts) : Nat := p.cursor.ahead src

def Parts.hang (p : Parts) : Parts := { p with cursor := p.cursor.panic }

/-- the slice from `start` on is put behind the result -/
def Parts.flush (stop : Nat) (p : Parts) : Parts :=
  let (piece, c) := slice src p.start stop p.cursor
  { p with cursor := c, result := some (p.result.getD [] ++ piece) }

/-- the value up to `stop` -/
def Parts.value (stop : Nat) (p : Parts) : Bytes × Cursor :=
  let (piece, c) := slice src p.start stop p.cursor
  (p.result.getD [] ++ piece, c)

def identifierPass (variant : IdentifierVariant) (p : Parts) : Pass Parts Parts :=
  let ((ch, size), c) := charAndSize src p.cursor
  if isIdentifierPartEx ch variant.language then .again { p with cursor := c.move size }
  else if ch = 0x5C then
    let escapeStart := c.pos
    let (escaped, c) := scanIdentifierEscape src (isIdentifierPartEx · variant.language)
      (variant = .regExpGroupName) c
    match escaped with
    | some escaped =>
      let p := Parts.flush src escapeStart { p with cursor := c }
      .again { p with start := p.cursor.pos, result := p.result.map (· ++ encodeRune escaped) }
    | none => .leave { p with cursor := c }
  else .leave { p with cursor := c }

def scanIdentifierParts (variant : IdentifierVariant) (c : Cursor) : Bytes × Cursor :=
  let p := loop (identifierPass src variant) Parts.hang (Parts.ahead src) ⟨c, c.pos, none⟩
  p.value src p.cursor.pos

/-- the ASCII identifier at the position; `none` when another byte or an escape follows -/
def scanAsciiIdentifier (variant : IdentifierVariant) (start : Nat) (c : Cursor) : Option Cursor :=
  if variant ≠ .jsx ∧
      (char src c).any (fun b => isAsciiLetter b.toNat || b = 0x5F || b = 0x24) = true then
    let c := scanAsciiWhile src
      (fun b => isAsciiLetter b.toNat || isDigit b.toNat || b = 0x5F || b = 0x24) (c.move 1)
    if (char src c).all (fun b => b < 0x80 && b ≠ 0x5C) then
      let (value, c) := slice src start c.pos c
      some (c.setValue value)
    else none
  else none

/-- a start and what continues it, decoded rune by rune -/
def scanUnicodeIdentifier (variant : IdentifierVariant) (start size : Nat) (c : Cursor) : Cursor :=
  let c := scanRunesWhile src (fun ch _ => isIdentifierPartEx ch variant.language) (c.move size)
  let (value, c) := slice src start c.pos c
  let c := c.setValue value
  if (charAndSize src c).1.1 = 0x5C then
    let (suffix, c) := scanIdentifierParts src variant c
    c.appendTokenValue suffix
  else c

def scanIdentifier (prefixLength : Nat) (variant : IdentifierVariant) (c : Cursor) :
    Bool × Cursor :=
  let start := c.pos
  let c := c.move prefixLength
  match scanAsciiIdentifier src variant start c with
  | some c => (true, c)
  | none =>
    let identifierStart := c.pos
    let ((ch, size), c) := charAndSize src c
    if isIdentifierStart ch then (true, scanUnicodeIdentifier src variant start size c)
    else if ch = 0x5C then
      let (escaped, c) := scanIdentifierEscape src isIdentifierStart (variant = .regExpGroupName) c
      match escaped with
      | some escaped =>
        let (before, c) := slice src start identifierStart c
        let (parts, c) := scanIdentifierParts src variant c
        (true, c.setValue (before ++ encodeRune escaped ++ parts))
      | none => (false, c)
    else (false, c)

end

end Tsr.Scanner
