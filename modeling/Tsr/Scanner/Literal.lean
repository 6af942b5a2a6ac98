import Tsr.Scanner.Escape

/-!
# Scanner: numbers, strings and templates

* `parsePseudoBigInt`    the decimal numeral of a bigint literal, `none` where the source panics;
* `scanNumber`           decimal literals with fraction, exponent and separators, legacy octals;
* `scanBigIntSuffix`     the `n` of a bigint, or the number of the value through the cache;
* `scanString`           a string, or an attribute value without escapes;
* `scanTemplate`         a template or a part of it (`scan_template_and_set_token_value`).
-/

namespace Tsr.Scanner
open Tsr.Json (Bytes decodeUtf8 runeError)
open Tsr.Lib.Loop

/-! ## bigints -/

/-- the value of a digit of any radix up to 16 -/
def bigDigit (b : UInt8) : Option Nat :=
  if 0x30 ≤ b ∧ b ≤ 0x39 then some (b.toNat - 0x30)
  else if 0x61 ≤ b ∧ b ≤ 0x66 then some (b.toNat - 0x61 + 10)
  else if 0x41 ≤ b ∧ b ≤ 0x46 then some (b.toNat - 0x41 + 10)
  else none

/-- the digits of a numeral and its value: a separator follows the start or a digit, and is not last -/
def goDigits (radix : Nat) : Bytes → (previousDigit : Bool) → (count value : Nat) → Option Nat
  | [], previousDigit, count, value => if count = 0 ∨ previousDigit = false then none else some value
  | b :: rest, previousDigit, count, value =>
    if b = 0x5F then
      if previousDigit then goDigits radix rest false count value else none
    else
      match bigDigit b with
      | none => none
      | some digit =>
        if radix ≤ digit then none else goDigits radix rest true (count + 1) (value * radix + digit)

/-- radix and length of the prefix -/
def goRadix (bytes : Bytes) : Nat × Nat :=
  match bytes with
  | first :: second :: _ =>
    if first = 0x30 then
      if second = 0x62 ∨ second = 0x42 then (2, 2)
      else if second = 0x6F ∨ second = 0x4F then (8, 2)
      else if second = 0x78 ∨ second = 0x58 then (16, 2)
      else (8, 1)
    else (10, 0)
  | _ => (10, 0)

/-- sign and magnitude -/
def parseGoBigInt (bytes : Bytes) : Option (Bool × Nat) :=
  let (negative, bytes) := match bytes with
    | 0x2D :: rest => (true, rest)
    | 0x2B :: rest => (false, rest)
    | _ => (false, bytes)
  let (radix, prefixLength) := goRadix bytes
  (goDigits radix (bytes.drop prefixLength) (prefixLength ≠ 0) 0 0).map fun value => (negative, value)

def stripSuffixN (bytes : Bytes) : Bytes :=
  if bytes.getLast? = some 0x6E then bytes.dropLast else bytes

def isRadixByte (b : UInt8) : Bool :=
  b = 0x62 || b = 0x42 || b = 0x6F || b = 0x4F || b = 0x78 || b = 0x58

def parsePseudoBigInt (bytes : Bytes) : Option Bytes :=
  let bytes := stripSuffixN bytes
  if bytes[1]?.any isRadixByte then
    (parseGoBigInt bytes).map fun (negative, value) =>
      if negative = true ∧ value ≠ 0 then 0x2D :: digitBytes 10 value else digitBytes 10 value
  else
    let digits := bytes.dropWhile (· = 0x30)
    some (if digits = [] then [0x30] else digits)

section
variable (src : Source)

/-! ## numbers -/

def normalizeNumberValue (c : Cursor) : Cursor := c.setValue (src.normalizeNumber c.tokenValue)

def scanBigIntSuffix (c : Cursor) : Kind × Cursor :=
  if char src c = some 0x6E then
    let c := c.appendTokenValue [0x6E]
    let c := if c.tokenFlags.binarySpecifier || c.tokenFlags.octalSpecifier then
      match parsePseudoBigInt c.tokenValue with
      | some value => c.setValue (value ++ [0x6E])
      | none => c.panic
      else c
    (.bigIntLiteral, c.move 1)
  else
    match c.numberCache.lookup c.tokenValue with
    | some value => (.numericLiteral, c.setValue value)
    | none =>
      let original := c.tokenValue
      let c := normalizeNumberValue src c
      (.numericLiteral, { c with numberCache := (original, c.tokenValue) :: c.numberCache })

/-- digits with separators: the pending slice starts at `start`, `result` is the text before it -/
structure Fragment where
  cursor : Cursor
  start : Nat
  result : Bytes
  allowSeparator : Bool
  previousSeparator : Bool

def Fragment.ahead (f : Fragment) : Nat := f.cursor.ahead src

def Fragment.hang (f : Fragment) : Fragment := { f with cursor := f.cursor.panic }

def Fragment.separator (f : Fragment) : Fragment :=
  let c := f.cursor.flag fun f => { f with containsSeparator := true }
  if f.allowSeparator then
    let (piece, c) := slice src f.start c.pos c
    { cursor := c.move 1, start := c.pos + 1, result := f.result ++ piece, allowSeparator := false,
      previousSeparator := true }
  else
    let c := c.flag fun f => { f with containsInvalidSeparator := true }
    let message := if f.previousSeparator then
      Message.multipleConsecutiveNumericSeparatorsAreNotPermitted
      else .numericSeparatorsAreNotAllowedHere
    { f with cursor := (c.errorAt message c.pos 1 []).move 1, start := c.pos + 1 }

def fragmentPass (f : Fragment) : Pass Fragment Fragment :=
  let before := f.cursor.pos
  let c := scanAsciiWhile src (fun b => isDigit b.toNat) f.cursor
  let f := if before < c.pos then
    { f with cursor := c, allowSeparator := true, previousSeparator := false }
    else { f with cursor := c }
  if char src f.cursor = some 0x5F then .again (f.separator src) else .leave f

/-- a separator at the end is an error -/
def Fragment.finish (f : Fragment) : Cursor :=
  if f.previousSeparator then
    (f.cursor.flag fun f => { f with containsInvalidSeparator := true }).errorAt
      .numericSeparatorsAreNotAllowedHere ((f.cursor.pos : Int) - 1) 1 []
  else f.cursor

def scanNumberFragment (c : Cursor) : Bytes × Cursor :=
  let f := loop (fragmentPass src) Fragment.hang (Fragment.ahead src) ⟨c, c.pos, [], false, false⟩
  let c := f.finish
  let (piece, c) := slice src f.start c.pos c
  (f.result ++ piece, c)

/-- the digits and whether all are octal -/
def scanDigits (c : Cursor) : (Bytes × Bool) × Cursor :=
  let start := c.pos
  let c := scanAsciiWhile src (fun b => isDigit b.toNat) c
  let (digits, c) := slice src start c.pos c
  ((digits, digits.all fun b => isOctalDigit b.toNat), c)

/-- a zero and more octal digits; a preceding minus belongs to the replacement -/
def legacyOctal (start : Nat) (digits : Bytes) (c : Cursor) : Cursor :=
  let c := c.require (hasRadixDigits digits = true)
  let value := saturatedRadix digits 8 (2 ^ 63 - 1)
  let c := (c.setValue (digitBytes 10 value)).flag fun f => { f with octal := true }
  let withMinus := c.token = .minusToken
  let start : Int := if withMinus then (start : Int) - 1 else start
  let replacement := (if withMinus then [0x2D] else []) ++ [0x30, 0x6F] ++ digitBytes 8 value
  c.errorAt .octalLiteralsAreNotAllowed start (c.pos - start) [replacement]

/-- the digits before the point; `none` when the literal is a legacy octal and ends here -/
def fixedPart (start : Nat) (c : Cursor) : Option Bytes × Cursor :=
  if char src c = some 0x30 then
    let c := c.move 1
    if char src c = some 0x5F then
      let c := c.flag fun f => { f with containsSeparator := true, containsInvalidSeparator := true }
      let c := c.errorAt .numericSeparatorsAreNotAllowedHere c.pos 1 []
      let (fixed, c) := scanNumberFragment src { c with pos := start }
      (some fixed, c)
    else
      let ((digits, isOctal), c) := scanDigits src c
      if digits = [] then (some [0x30], c)
      else if isOctal = false then
        (some digits, c.flag fun f => { f with containsLeadingZero := true })
      else (none, legacyOctal start digits c)
  else
    let (fixed, c) := scanNumberFragment src c
    (some fixed, c)

def fractionalPart (c : Cursor) : Bytes × Cursor :=
  if char src c = some 0x2E then scanNumberFragment src (c.move 1) else ([], c)

/-- preamble and digits of the exponent, and the end of the literal's value -/
def exponentPart (c : Cursor) : (Bytes × Bytes × Nat) × Cursor :=
  let stop := c.pos
  if char src c = some 0x45 ∨ char src c = some 0x65 then
    let c := (c.move 1).flag fun f => { f with scientific := true }
    let c := if char src c = some 0x2B ∨ char src c = some 0x2D then c.move 1 else c
    let startNumericPart := c.pos
    let (digits, c) := scanNumberFragment src c
    if digits = [] then (([], [], stop), c.error .digitExpected)
    else
      let (preamble, c) := slice src stop startNumericPart c
      ((preamble, digits, c.pos), c)
  else (([], [], stop), c)

/-- the value of a literal: its own text unless separators were dropped -/
def numberValue (start stop : Nat) (fixed fraction preamble exponent : Bytes) (c : Cursor) : Cursor :=
  if c.tokenFlags.containsSeparator then
    c.setValue (fixed ++ (if fraction = [] then [] else 0x2E :: fraction) ++
      (if exponent = [] then [] else preamble ++ exponent))
  else
    let (value, c) := slice src start stop c
    c.setValue value

/-- an identifier directly behind the literal; only an `n` after a non-integer stays part of it -/
def identifierAfterNumber (start fixedPartEnd : Nat) (result : Kind) (c : Cursor) : Cursor :=
  let ((ch, _), c) := charAndSize src c
  if isIdentifierStart ch then
    let idStart := c.pos
    let (id, c) := scanIdentifierParts src .standard c
    let single := result ≠ .bigIntLiteral ∧ id.length = 1 ∧ src.text[idStart]? = some 0x6E
    if single ∧ c.tokenFlags.scientific = true then
      c.errorAt .bigintLiteralCannotUseExponentialNotation start ((c.pos : Int) - start) []
    else if single ∧ fixedPartEnd < idStart then
      c.errorAt .bigintLiteralMustBeAnInteger start ((c.pos : Int) - start) []
    else
      let c := c.errorAt .identifierOrKeywordCannotImmediatelyFollowANumericLiteral idStart
        ((c.pos : Int) - idStart) []
      { c with pos := idStart }
  else c

def scanNumber (c : Cursor) : Kind × Cursor :=
  let start := c.pos
  let (fixed, c) := fixedPart src start c
  match fixed with
  | none => (.numericLiteral, c)
  | some fixed =>
    let fixedPartEnd := c.pos
    let (fraction, c) := fractionalPart src c
    let ((preamble, exponent, stop), c) := exponentPart src c
    let c := numberValue src start stop fixed fraction preamble exponent c
    if c.tokenFlags.containsLeadingZero then
      let c := c.errorAt .decimalsWithLeadingZerosAreNotAllowed start ((c.pos : Int) - start) []
      (.numericLiteral, normalizeNumberValue src c)
    else
      let (result, c) := if fixedPartEnd = c.pos then scanBigIntSuffix src c
        else (.numericLiteral, normalizeNumberValue src c)
      (result, identifierAfterNumber src start fixedPartEnd result c)

/-- the digits read, whether a separator may follow, whether one has just been read -/
def binaryOrOctalPass (base : Nat) : Bytes × DigitRun → Pass (Bytes × DigitRun) (Bytes × DigitRun)
  | (result, r) =>
    match char src r.cursor with
    | some ch =>
      if isDigit ch.toNat = true ∧ ch.toNat - 0x30 < base then
        .again (result ++ [ch], ⟨r.cursor.move 1, r.count + 1, true, false⟩)
      else if ch = 0x5F then .again (result, r.separator)
      else .leave (result, r)
    | none => .leave (result, r)

def scanBinaryOrOctalDigits (base : Nat) (c : Cursor) : Bytes × Cursor :=
  let (result, r) := loop (binaryOrOctalPass src base) (fun s => (s.1, s.2.hang))
    (fun s => s.2.ahead src) ([], ⟨c, 0, false, false⟩)
  (result, r.finish)

/-- a prefix without digits counts as zero -/
def orZero (message : Message) (digits : Bytes) (c : Cursor) : Bytes × Cursor :=
  if digits = [] then ([0x30], c.error message) else (digits, c)

/-- the value of `0x` and digits, built once for each text of digits -/
def hexNumberValue (start : Nat) (digits : Bytes) (c : Cursor) : Cursor :=
  match c.hexNumberCache.lookup digits with
  | some value => c.setValue value
  | none =>
    let (raw, c) := slice src start c.pos c
    let value := if raw.take 2 = [0x30, 0x78] ∧ raw.drop 2 = digits then raw
      else [0x30, 0x78] ++ digits
    { c with tokenValue := value, hexNumberCache := (digits, value) :: c.hexNumberCache }

/-- `0x` -/
def scanHexNumber (c : Cursor) : Kind × Cursor :=
  let start := c.pos
  let (digits, c) := scanHexDigits src 1 true true (c.move 2)
  let (digits, c) := orZero .hexadecimalDigitExpected digits c
  let c := hexNumberValue src start digits c
  scanBigIntSuffix src (c.flag fun f => { f with hexSpecifier := true })

/-- `0b` and `0o` -/
def scanBinaryOrOctalNumber (binary : Bool) (c : Cursor) : Kind × Cursor :=
  let (digits, c) := scanBinaryOrOctalDigits src (if binary then 2 else 8) (c.move 2)
  let (digits, c) := orZero (if binary then .binaryDigitExpected else .octalDigitExpected) digits c
  let c := c.setValue ((if binary then [0x30, 0x62] else [0x30, 0x6F]) ++ digits)
  let c := c.flag fun f =>
    if binary then { f with binarySpecifier := true } else { f with octalSpecifier := true }
  scanBigIntSuffix src c

/-! ## strings and templates -/

/-- one byte or escape of a string; `leave` with the end of its value -/
def stringPass (jsxAttribute : Bool) (quote : Option UInt8) (p : Parts) : Pass Parts (Nat × Parts) :=
  match char src p.cursor with
  | none => .leave (p.cursor.pos, { p with cursor := (p.cursor.flag fun f =>
      { f with unterminated := true }).error .unterminatedStringLiteral })
  | some ch =>
    if jsxAttribute = false ∧ (ch = 0x0A ∨ ch = 0x0D) then
      .leave (p.cursor.pos, { p with cursor := (p.cursor.flag fun f =>
        { f with unterminated := true }).error .unterminatedStringLiteral })
    else if some ch = quote then .leave (p.cursor.pos, { p with cursor := p.cursor.move 1 })
    else if ch = 0x5C ∧ jsxAttribute = false then
      let p := p.flush src p.cursor.pos
      let (escape, c) := scanEscapeSequence src { string := true, reportErrors := true } p.cursor
      .again ⟨c, c.pos, p.result.map (· ++ escape)⟩
    else .again { p with cursor := p.cursor.move 1 }

def scanString (jsxAttribute : Bool) (c : Cursor) : Bytes × Cursor :=
  let quote := char src c
  let c := if quote = some 0x27 then c.flag fun f => { f with singleQuote := true } else c
  let c := c.move 1
  let (rest, c) := tail src c.pos c
  let direct := (rest.findIdx? fun b => some b = quote).filter fun length =>
    jsxAttribute || !(rest.take length).any fun b => b = 0x5C || b = 0x0D || b = 0x0A
  match direct with
  | some length => (rest.take length, c.move (length + 1))
  | none =>
    let (valueEnd, p) := loop (stringPass src jsxAttribute quote) (fun p => (p.cursor.pos, p.hang))
      (Parts.ahead src) ⟨c, c.pos, none⟩
    p.value src valueEnd

/-- one run of plain bytes and what ends it; `leave` with the token and the end of its value -/
def templatePass (report backtick : Bool) (p : Parts) : Pass Parts ((Kind × Nat) × Parts) :=
  let c := scanAsciiWhile src (fun b => !(b = 0x60 || b = 0x24 || b = 0x5C || b = 0x0D)) p.cursor
  let p := { p with cursor := c }
  let last := if backtick then Kind.noSubstitutionTemplateLiteral else .templateTail
  match char src c with
  | none => .leave ((last, c.pos), { p with cursor := (c.flag fun f =>
      { f with unterminated := true }).error .unterminatedTemplateLiteral })
  | some ch =>
    if ch = 0x60 then .leave ((last, c.pos), { p with cursor := c.move 1 })
    else if ch = 0x24 ∧ charAt src c 1 = some 0x7B then
      .leave ((if backtick then .templateHead else .templateMiddle, c.pos),
        { p with cursor := c.move 2 })
    else if ch = 0x5C then
      let p := p.flush src c.pos
      let (escape, c) := scanEscapeSequence src { string := true, reportErrors := report } p.cursor
      .again ⟨c, c.pos, p.result.map (· ++ escape)⟩
    else if ch = 0x0D then
      let p := p.flush src c.pos
      let c := p.cursor.move 1
      let c := if char src c = some 0x0A then c.move 1 else c
      .again ⟨c, c.pos, p.result.map (· ++ [0x0A])⟩
    else .again { p with cursor := c.move 1 }

def scanTemplate (report : Bool) (c : Cursor) : Kind × Cursor :=
  let backtick := char src c = some 0x60
  let c := c.move 1
  let ((token, valueEnd), p) := loop (templatePass src report backtick)
    (fun p => ((.unknown, p.cursor.pos), p.hang)) (Parts.ahead src) ⟨c, c.pos, none⟩
  let (value, c) := p.value src valueEnd
  (token, c.setValue value)

end

end Tsr.Scanner
