import Tsr.Scanner.Literal

/-!
# Scanner: `scan`

`Scanner::scan` is one loop over the text: each pass sets the start of the token and then either moves
over trivia and goes on, or scans a token and returns.

* `punctuation`              the operator at a byte, by the two bytes behind it;
* `processCommentDirective`  `@ts-expect-error` and `@ts-ignore` at the start of a comment line;
* `scanPass`                 one pass;
* `scan`                     the loop.
-/

namespace Tsr.Scanner
open Tsr.Json (Bytes decodeUtf8 runeError asBytes)
open Tsr.Lib.Loop

inductive DirectiveKind where
  | expectError
  | ignore
deriving DecidableEq

structure CommentDirective where
  start : Nat
  stop : Nat
  kind : DirectiveKind
deriving DecidableEq

structure ScannerState where
  cursor : Cursor
  fullStartPos : Nat := 0
  tokenStart : Nat := 0
  commentDirectives : List CommentDirective := []
  skipJsdocLeadingAsterisks : Int := 0
deriving DecidableEq

namespace ScannerState

def onCursor (f : Cursor → Cursor) (s : ScannerState) : ScannerState := { s with cursor := f s.cursor }

/-- the token whose kind and end a scanning function returns -/
def token (result : Kind × Cursor) (s : ScannerState) : ScannerState :=
  { s with cursor := result.2.takeToken result.1 0 }

def hang (s : ScannerState) : ScannerState := s.onCursor Cursor.panic

end ScannerState

/-! ## comments -/

def startsWith (text word : Bytes) : Bool := text.take word.length = word

def hasJsdocTag (text : Bytes) (tags : List String) : Bool :=
  tags.any fun tag =>
    startsWith text (asBytes tag) &&
      (text.drop (asBytes tag).length).head?.all fun b =>
        b = 0x20 || b = 0x09 || b = 0x0A || b = 0x0D || b = 0x7D || b = 0x2A

/-- the flags after the tags of a comment, read until both are set -/
def scanJsdocCommentForTags : Bytes → TokenFlags → TokenFlags
  | [], flags => flags
  | b :: rest, flags =>
    if b = 0x40 then
      let flags := if hasJsdocTag rest ["deprecated"] then
        { flags with precedingJsdocWithDeprecated := true } else flags
      let flags := if hasJsdocTag rest ["see", "link", "linkcode", "linkplain"] then
        { flags with precedingJsdocWithSeeOrLink := true } else flags
      if flags.precedingJsdocWithDeprecated && flags.precedingJsdocWithSeeOrLink then flags
      else scanJsdocCommentForTags rest flags
    else scanJsdocCommentForTags rest flags

section
variable (src : Source)

/-- the first position from `pos` on, before `stop`, whose byte is not of a class -/
def spanWhile (pred : UInt8 → Bool) (stop pos : Nat) : Nat :=
  pos + (((src.text.take stop).drop pos).takeWhile pred).length

def isBlank (b : UInt8) : Bool := b = 0x20 || b = 0x09

def processCommentDirective (start stop : Nat) (multiline : Bool) (s : ScannerState) : ScannerState :=
  let s := s.onCursor (Cursor.require (stop ≤ src.text.length))
  let pos := if multiline then
    spanWhile src (fun b => b = 0x2F || b = 0x2A) stop (spanWhile src isBlank stop start)
    else spanWhile src (fun b => b = 0x2F) stop (start + 2)
  let pos := spanWhile src isBlank stop pos
  if stop ≤ pos ∨ src.text[pos]? ≠ some 0x40 then s
  else
    let rest := src.text.drop (pos + 1)
    if startsWith rest (asBytes "ts-expect-error") then
      { s with commentDirectives := s.commentDirectives ++ [⟨start, stop, .expectError⟩] }
    else if startsWith rest (asBytes "ts-ignore") then
      { s with commentDirectives := s.commentDirectives ++ [⟨start, stop, .ignore⟩] }
    else s

/-- a directive is recorded, nothing else changes -/
theorem processCommentDirective_eq (start stop : Nat) (multiline : Bool) (s : ScannerState) :
    ∃ directives, processCommentDirective src start stop multiline s =
      { s with cursor := s.cursor.require (stop ≤ src.text.length)
               commentDirectives := directives } := by
  simp only [processCommentDirective]
  split_ifs
  all_goals exact ⟨_, rfl⟩

/-- up to a line break: ASCII runs, then rune by rune -/
def linePass (c : Cursor) : Pass Cursor Cursor :=
  let c := scanAsciiWhile src (fun b => b ≠ 0x0A && b ≠ 0x0D) c
  let ((rune, size), c) := charAndSize src c
  if size = 0 ∨ isLineBreak rune = true then .leave c else .again (c.move size)

/-- the cursor inside a block comment and the start of its last line -/
structure Block where
  cursor : Cursor
  lastLineStart : Nat

/-- `leave` with whether the comment is closed -/
def blockPass (b : Block) : Pass Block (Bool × Block) :=
  let c := scanAsciiWhile src (fun b => !(b = 0x2A || b = 0x0A || b = 0x0D)) b.cursor
  let ((rune, size), c) := charAndSize src c
  if size = 0 then .leave (false, { b with cursor := c })
  else if rune = 0x2A ∧ charAt src c 1 = some 0x2F then .leave (true, { b with cursor := c.move 2 })
  else
    let c := c.move size
    if isLineBreak rune then
      .again ⟨c.flag fun f => { f with precedingLineBreak := true }, c.pos⟩
    else .again { b with cursor := c }

def scanLineComment (s : ScannerState) : ScannerState :=
  let s := s.onCursor fun c => scanLoop src (linePass src) (c.move 2)
  processCommentDirective src s.tokenStart s.cursor.pos false s

/-- the flags of a comment that starts with two asterisks -/
def markJsdoc (start : Nat) (c : Cursor) : Cursor :=
  let (comment, c) := slice src start c.pos
    (c.flag fun f => { f with precedingJsdocComment := true })
  c.flag (scanJsdocCommentForTags comment)

/-- the rest of a block comment and whether it is closed -/
def blockLoop (b : Block) : Bool × Block :=
  loop (blockPass src) (fun b => (false, { b with cursor := b.cursor.panic }))
    (fun b => b.cursor.ahead src) b

/-- the comment at the token start and whether it is closed -/
def scanBlockComment (s : ScannerState) : Bool × ScannerState :=
  let c := s.cursor.move 2
  let jsdoc := char src c = some 0x2A ∧ charAt src c 1 ≠ some 0x2F
  let (closed, b) := blockLoop src ⟨c, s.tokenStart⟩
  let c := if jsdoc then markJsdoc src s.tokenStart b.cursor else b.cursor
  let s := processCommentDirective src b.lastLineStart c.pos true { s with cursor := c }
  (closed, if closed then s else s.onCursor (Cursor.error .asteriskSlashExpected))

/-! ## tokens -/

/-- the operator that a byte starts, by the next two bytes, and its width -/
def operator (next third : Option UInt8) (byte : UInt8) : Option (Kind × Nat) :=
  let equals := next = some 0x3D
  if byte = 0x21 then
    some (if equals then
      (if third = some 0x3D then (.exclamationEqualsEqualsToken, 3) else (.exclamationEqualsToken, 2))
      else (.exclamationToken, 1))
  else if byte = 0x25 then some (if equals then (.percentEqualsToken, 2) else (.percentToken, 1))
  else if byte = 0x5E then some (if equals then (.caretEqualsToken, 2) else (.caretToken, 1))
  else if byte = 0x2B then
    some (if equals then (.plusEqualsToken, 2)
      else if next = some 0x2B then (.plusPlusToken, 2) else (.plusToken, 1))
  else if byte = 0x2D then
    some (if equals then (.minusEqualsToken, 2)
      else if next = some 0x2D then (.minusMinusToken, 2) else (.minusToken, 1))
  else if byte = 0x2A then
    some (if equals then (.asteriskEqualsToken, 2)
      else if next = some 0x2A then
        (if third = some 0x3D then (.asteriskAsteriskEqualsToken, 3) else (.asteriskAsteriskToken, 2))
      else (.asteriskToken, 1))
  else if byte = 0x26 then
    some (if next = some 0x26 then
        (if third = some 0x3D then (.ampersandAmpersandEqualsToken, 3)
        else (.ampersandAmpersandToken, 2))
      else if equals then (.ampersandEqualsToken, 2) else (.ampersandToken, 1))
  else if byte = 0x7C then
    some (if next = some 0x7C then
        (if third = some 0x3D then (.barBarEqualsToken, 3) else (.barBarToken, 2))
      else if equals then (.barEqualsToken, 2) else (.barToken, 1))
  else if byte = 0x3F then
    some (if next = some 0x2E ∧ third.any (fun b => isDigit b.toNat) = false then (.questionDotToken, 2)
      else if next = some 0x3F then
        (if third = some 0x3D then (.questionQuestionEqualsToken, 3) else (.questionQuestionToken, 2))
      else (.questionToken, 1))
  else if byte = 0x3C then
    some (if next = some 0x3C then
        (if third = some 0x3D then (.lessThanLessThanEqualsToken, 3) else (.lessThanLessThanToken, 2))
      else if equals then (.lessThanEqualsToken, 2)
      else if src.languageVariant = .jsx ∧ next = some 0x2F ∧ third ≠ some 0x2A then
        (.lessThanSlashToken, 2)
      else (.lessThanToken, 1))
  else if byte = 0x3D then
    some (if equals then
        (if third = some 0x3D then (.equalsEqualsEqualsToken, 3) else (.equalsEqualsToken, 2))
      else if next = some 0x3E then (.equalsGreaterThanToken, 2) else (.equalsToken, 1))
  else if byte = 0x3E then some (.greaterThanToken, 1)
  else if byte = 0x28 then some (.openParenToken, 1)
  else if byte = 0x29 then some (.closeParenToken, 1)
  else if byte = 0x2C then some (.commaToken, 1)
  else if byte = 0x3A then some (.colonToken, 1)
  else if byte = 0x3B then some (.semicolonToken, 1)
  else if byte = 0x5B then some (.openBracketToken, 1)
  else if byte = 0x5D then some (.closeBracketToken, 1)
  else if byte = 0x7B then some (.openBraceToken, 1)
  else if byte = 0x7D then some (.closeBraceToken, 1)
  else if byte = 0x7E then some (.tildeToken, 1)
  else if byte = 0x40 then some (.atToken, 1)
  else none

/-- `punctuation` is dispatched on operator bytes only, the source panics on another one -/
def takePunctuation (byte : UInt8) (c : Cursor) : Kind × Cursor :=
  match operator src (charAt src c 1) (charAt src c 2) byte with
  | some (kind, width) => (kind, c.move width)
  | none => (.unknown, c.panic)

def scanInvalidCharacter (c : Cursor) : Kind × Cursor :=
  let ((_, size), c) := charAndSize src c
  (.unknown, (c.errorAt .invalidCharacter c.pos size []).move size)

def consumeConflictMarker (c : Cursor) : Cursor :=
  let c := c.errorAt .mergeConflictMarkerEncountered c.pos 7 []
  { c with pos := scanConflictMarkerTrivia src.text c.pos }

/-- a literal that starts with a digit, by the byte behind a zero -/
def scanNumeric (ch : UInt8) (c : Cursor) : Kind × Cursor :=
  if ch = 0x30 ∧ (charAt src c 1 = some 0x58 ∨ charAt src c 1 = some 0x78) then scanHexNumber src c
  else if ch = 0x30 ∧ (charAt src c 1 = some 0x42 ∨ charAt src c 1 = some 0x62) then
    scanBinaryOrOctalNumber src true c
  else if ch = 0x30 ∧ (charAt src c 1 = some 0x4F ∨ charAt src c 1 = some 0x6F) then
    scanBinaryOrOctalNumber src false c
  else scanNumber src c

def scanDot (c : Cursor) : Kind × Cursor :=
  if (charAt src c 1).any (fun b => isDigit b.toNat) then scanNumber src c
  else if charAt src c 1 = some 0x2E ∧ charAt src c 2 = some 0x2E then (.dotDotDotToken, c.move 3)
  else (.dotToken, c.move 1)

/-- an identifier or keyword, else an invalid character -/
def scanBackslash (c : Cursor) : Kind × Cursor :=
  let (found, c) := scanIdentifier src 0 .standard c
  if found then (getIdentifierToken c.tokenValue, c) else scanInvalidCharacter src c

/-! ## one pass -/

def isAsciiSpace (b : UInt8) : Bool := b = 0x20 || (0x09 ≤ b && b ≤ 0x0D)

def whiteSpacePass (s : ScannerState) : Pass ScannerState ScannerState :=
  let s := s.onCursor (Cursor.move 1)
  if src.skipTrivia then .again s
  else .leave (s.token (.whitespaceTrivia,
    scanRunesWhile src (fun rune _ => isWhiteSpaceSingleLine rune) s.cursor))

def newLinePass (ch : UInt8) (s : ScannerState) : Pass ScannerState ScannerState :=
  let s := s.onCursor (Cursor.flag fun f => { f with precedingLineBreak := true })
  if src.skipTrivia then .again (s.onCursor fun c => scanAsciiWhile src isAsciiSpace (c.move 1))
  else
    let size := if ch = 0x0D ∧ charAt src s.cursor 1 = some 0x0A then 2 else 1
    .leave (s.onCursor (Cursor.takeToken .newLineTrivia size))

def slashPass (s : ScannerState) : Pass ScannerState ScannerState :=
  if charAt src s.cursor 1 = some 0x2F then
    let s := scanLineComment src s
    if src.skipTrivia then .again s
    else .leave (s.onCursor (Cursor.takeToken .singleLineCommentTrivia 0))
  else if charAt src s.cursor 1 = some 0x2A then
    let (closed, s) := scanBlockComment src s
    if src.skipTrivia then .again s
    else
      let s := if closed then s else s.onCursor (Cursor.flag fun f => { f with unterminated := true })
      .leave (s.onCursor (Cursor.takeToken .multiLineCommentTrivia 0))
  else if charAt src s.cursor 1 = some 0x3D then .leave (s.onCursor (Cursor.takeToken .slashEqualsToken 2))
  else .leave (s.onCursor (Cursor.takeToken .slashToken 1))

def hashPass (s : ScannerState) : Pass ScannerState ScannerState :=
  if charAt src s.cursor 1 = some 0x21 then
    if s.cursor.pos = 0 then
      .again (s.onCursor fun c =>
        scanRunesWhile src (fun rune size => size ≠ 0 && !isLineBreak rune) (c.move 2))
    else
      .leave (s.onCursor fun c =>
        (c.errorAt .canOnlyBeUsedAtTheStartOfAFile c.pos 2 []).takeToken .unknown 2)
  else
    let (found, c) := scanIdentifier src 1 .standard s.cursor
    let c := if found then c
      else (c.errorAt .invalidCharacter ((c.pos : Int) - 1) 1 []).setValue [0x23]
    .leave (s.token (.privateIdentifier, c))

def markerPass (ch : UInt8) (s : ScannerState) : Pass ScannerState ScannerState :=
  if charAt src s.cursor 1 = some ch ∧ isConflictMarkerTrivia src.text s.cursor.pos = true then
    let s := s.onCursor (consumeConflictMarker src)
    if src.skipTrivia then .again s
    else .leave (s.onCursor (Cursor.takeToken .conflictMarkerTrivia 0))
  else .leave (s.token (takePunctuation src ch s.cursor))

/-- the leading asterisk of a line is moved over when the caller asks for it -/
def asteriskPass (s : ScannerState) : Pass ScannerState ScannerState :=
  let (kind, c) := takePunctuation src 0x2A s.cursor
  if kind = .asteriskToken ∧ s.skipJsdocLeadingAsterisks ≠ 0 ∧
      c.tokenFlags.precedingJsdocLeadingAsterisks = false ∧
      c.tokenFlags.precedingLineBreak = true then
    .again { s with cursor := c.flag fun f => { f with precedingJsdocLeadingAsterisks := true } }
  else .leave (s.token (kind, c))

/-- identifiers, white space and line breaks outside ASCII, invalid characters -/
def otherPass (s : ScannerState) : Pass ScannerState ScannerState :=
  let (found, c) := scanIdentifier src 0 .standard s.cursor
  if found then .leave (s.token (getIdentifierToken c.tokenValue, c))
  else
    let ((rune, size), c) := charAndSize src c
    if rune = runeError then
      let c := c.errorAt .fileAppearsToBeBinary 0 0 []
      .leave (s.token (.nonTextFileMarkerTrivia, { c with pos := src.text.length }))
    else if isWhiteSpaceSingleLine rune then
      let c := c.move size
      if rune = 0x85 ∨ src.skipTrivia = true then .again { s with cursor := c }
      else .leave (s.token (.whitespaceTrivia,
        scanRunesWhile src (fun rune _ => isWhiteSpaceSingleLine rune) c))
    else if isLineBreak rune then
      .again { s with cursor := (c.flag fun f => { f with precedingLineBreak := true }).move size }
    else .leave (s.token (scanInvalidCharacter src c))

def isPunctuationByte (b : UInt8) : Bool :=
  b = 0x21 || b = 0x25 || b = 0x26 || b = 0x28 || b = 0x29 || b = 0x2B || b = 0x2C || b = 0x2D ||
    b = 0x3A || b = 0x3B || b = 0x3F || b = 0x5B || b = 0x5D || b = 0x5E || b = 0x7B || b = 0x7D ||
    b = 0x7E || b = 0x40

/-- what the byte at the token start decides -/
def dispatch (ch : UInt8) (s : ScannerState) : Pass ScannerState ScannerState :=
  if ch = 0x09 ∨ ch = 0x0B ∨ ch = 0x0C ∨ ch = 0x20 then whiteSpacePass src s
  else if ch = 0x0A ∨ ch = 0x0D then newLinePass src ch s
  else if ch = 0x27 ∨ ch = 0x22 then
    let (value, c) := scanString src false s.cursor
    .leave (s.token (.stringLiteral, c.setValue value))
  else if ch = 0x60 then .leave (s.token (scanTemplate src false s.cursor))
  else if ch = 0x2F then slashPass src s
  else if isDigit ch.toNat then .leave (s.token (scanNumeric src ch s.cursor))
  else if ch = 0x2E then .leave (s.token (scanDot src s.cursor))
  else if ch = 0x23 then hashPass src s
  else if ch = 0x3C ∨ ch = 0x7C ∨ ch = 0x3D ∨ ch = 0x3E then markerPass src ch s
  else if ch = 0x2A then asteriskPass src s
  else if isPunctuationByte ch then .leave (s.token (takePunctuation src ch s.cursor))
  else if ch = 0x5C then .leave (s.token (scanBackslash src s.cursor))
  else otherPass src s

def scanPass (s : ScannerState) : Pass ScannerState ScannerState :=
  let s := { s with tokenStart := s.cursor.pos }
  match char src s.cursor with
  | none => .leave (s.onCursor (Cursor.takeToken .endOfFile 0))
  | some ch => dispatch src ch s

def scan (s : ScannerState) : ScannerState :=
  loop (scanPass src) ScannerState.hang (fun s => s.cursor.ahead src)
    { s with fullStartPos := s.cursor.pos, cursor := s.cursor.flag fun _ => {} }

end

end Tsr.Scanner
