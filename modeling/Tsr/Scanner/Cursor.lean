import Tsr.Scanner.Trivia

/-!
# Scanner: the cursor

What the scanning functions below `Scanner::scan` read and change: the position and the token under
construction (kind, value, flags), the caches and the errors.  The bounds of a token are kept by the
callers, no function of this layer assigns them.

A panic of the source (an index or a slice out of range, an `expect`) sets `panicked` and the function
goes on; a loop that does not come to an end sets it as well.

* `Source`         the text and what does not change while it is scanned;
* `Cursor`         the state;
* `charAndSize`    the rune at the position, decoded from the bytes ahead;
* `scanAsciiWhile` the run of ASCII bytes of a class.
-/

namespace Tsr.Scanner
open Tsr.Json (Bytes decodeUtf8 runeError asBytes)
open Tsr.Lib.Loop

/-- the kinds of tokens, in the order of `SyntaxKind` -/
inductive Kind where
  | unknown | endOfFile | singleLineCommentTrivia | multiLineCommentTrivia | newLineTrivia
  | whitespaceTrivia | conflictMarkerTrivia | nonTextFileMarkerTrivia | numericLiteral
  | bigIntLiteral | stringLiteral | jsxText | jsxTextAllWhiteSpaces | regularExpressionLiteral
  | noSubstitutionTemplateLiteral | templateHead | templateMiddle | templateTail | openBraceToken
  | closeBraceToken | openParenToken | closeParenToken | openBracketToken | closeBracketToken
  | dotToken | dotDotDotToken | semicolonToken | commaToken | questionDotToken | lessThanToken
  | lessThanSlashToken | greaterThanToken | lessThanEqualsToken | greaterThanEqualsToken
  | equalsEqualsToken | exclamationEqualsToken | equalsEqualsEqualsToken
  | exclamationEqualsEqualsToken | equalsGreaterThanToken | plusToken | minusToken | asteriskToken
  | asteriskAsteriskToken | slashToken | percentToken | plusPlusToken | minusMinusToken
  | lessThanLessThanToken | greaterThanGreaterThanToken | greaterThanGreaterThanGreaterThanToken
  | ampersandToken | barToken | caretToken | exclamationToken | tildeToken
  | ampersandAmpersandToken | barBarToken | questionToken | colonToken | atToken
  | questionQuestionToken | backtickToken | hashToken | equalsToken | plusEqualsToken
  | minusEqualsToken | asteriskEqualsToken | asteriskAsteriskEqualsToken | slashEqualsToken
  | percentEqualsToken | lessThanLessThanEqualsToken | greaterThanGreaterThanEqualsToken
  | greaterThanGreaterThanGreaterThanEqualsToken | ampersandEqualsToken | barEqualsToken
  | barBarEqualsToken | ampersandAmpersandEqualsToken | questionQuestionEqualsToken
  | caretEqualsToken | identifier | privateIdentifier | jsDocCommentTextToken | breakKeyword
  | caseKeyword | catchKeyword | classKeyword | constKeyword | continueKeyword | debuggerKeyword
  | defaultKeyword | deleteKeyword | doKeyword | elseKeyword | enumKeyword | exportKeyword
  | extendsKeyword | falseKeyword | finallyKeyword | forKeyword | functionKeyword | ifKeyword
  | importKeyword | inKeyword | instanceOfKeyword | newKeyword | nullKeyword | returnKeyword
  | superKeyword | switchKeyword | thisKeyword | throwKeyword | trueKeyword | tryKeyword
  | typeOfKeyword | varKeyword | voidKeyword | whileKeyword | withKeyword | implementsKeyword
  | interfaceKeyword | letKeyword | packageKeyword | privateKeyword | protectedKeyword
  | publicKeyword | staticKeyword | yieldKeyword | abstractKeyword | accessorKeyword | asKeyword
  | assertsKeyword | assertKeyword | anyKeyword | asyncKeyword | awaitKeyword | booleanKeyword
  | constructorKeyword | declareKeyword | getKeyword | immediateKeyword | inferKeyword
  | intrinsicKeyword | isKeyword | keyOfKeyword | moduleKeyword | namespaceKeyword | neverKeyword
  | outKeyword | readonlyKeyword | requireKeyword | numberKeyword | objectKeyword
  | satisfiesKeyword | setKeyword | stringKeyword | symbolKeyword | typeKeyword | undefinedKeyword
  | uniqueKeyword | unknownKeyword | usingKeyword | fromKeyword | globalKeyword | bigIntKeyword
  | overrideKeyword | ofKeyword | deferKeyword
deriving DecidableEq

def keywords : List (String × Kind) :=
  [
    ("abstract", .abstractKeyword), ("accessor", .accessorKeyword), ("any", .anyKeyword),
    ("as", .asKeyword), ("assert", .assertKeyword), ("asserts", .assertsKeyword),
    ("async", .asyncKeyword), ("await", .awaitKeyword), ("bigint", .bigIntKeyword),
    ("boolean", .booleanKeyword), ("break", .breakKeyword), ("case", .caseKeyword),
    ("catch", .catchKeyword), ("class", .classKeyword), ("const", .constKeyword),
    ("constructor", .constructorKeyword), ("continue", .continueKeyword),
    ("debugger", .debuggerKeyword), ("declare", .declareKeyword), ("default", .defaultKeyword),
    ("defer", .deferKeyword), ("delete", .deleteKeyword), ("do", .doKeyword),
    ("else", .elseKeyword), ("enum", .enumKeyword), ("export", .exportKeyword),
    ("extends", .extendsKeyword), ("false", .falseKeyword), ("finally", .finallyKeyword),
    ("for", .forKeyword), ("from", .fromKeyword), ("function", .functionKeyword),
    ("get", .getKeyword), ("global", .globalKeyword), ("if", .ifKeyword),
    ("immediate", .immediateKeyword), ("implements", .implementsKeyword),
    ("import", .importKeyword), ("in", .inKeyword), ("infer", .inferKeyword),
    ("instanceof", .instanceOfKeyword), ("interface", .interfaceKeyword),
    ("intrinsic", .intrinsicKeyword), ("is", .isKeyword), ("keyof", .keyOfKeyword),
    ("let", .letKeyword), ("module", .moduleKeyword), ("namespace", .namespaceKeyword),
    ("never", .neverKeyword), ("new", .newKeyword), ("null", .nullKeyword),
    ("number", .numberKeyword), ("object", .objectKeyword), ("of", .ofKeyword),
    ("out", .outKeyword), ("override", .overrideKeyword), ("package", .packageKeyword),
    ("private", .privateKeyword), ("protected", .protectedKeyword), ("public", .publicKeyword),
    ("readonly", .readonlyKeyword), ("require", .requireKeyword), ("return", .returnKeyword),
    ("satisfies", .satisfiesKeyword), ("set", .setKeyword), ("static", .staticKeyword),
    ("string", .stringKeyword), ("super", .superKeyword), ("switch", .switchKeyword),
    ("symbol", .symbolKeyword), ("this", .thisKeyword), ("throw", .throwKeyword),
    ("true", .trueKeyword), ("try", .tryKeyword), ("type", .typeKeyword),
    ("typeof", .typeOfKeyword), ("undefined", .undefinedKeyword), ("unique", .uniqueKeyword),
    ("unknown", .unknownKeyword), ("using", .usingKeyword), ("var", .varKeyword),
    ("void", .voidKeyword), ("while", .whileKeyword), ("with", .withKeyword),
    ("yield", .yieldKeyword)
  ]

def keywordKind (text : Bytes) : Option Kind :=
  (keywords.find? fun entry => asBytes entry.1 = text).map Prod.snd

def getIdentifierToken (text : Bytes) : Kind :=
  if 2 ≤ text.length ∧ text.length ≤ 12 ∧ text.head?.any (fun b => 0x61 ≤ b && b ≤ 0x7A) = true then
    (keywordKind text).getD .identifier
  else .identifier

def tokenIsIdentifierOrKeyword (token : Kind) : Bool := Kind.identifier.ctorIdx ≤ token.ctorIdx

structure TokenFlags where
  precedingLineBreak : Bool := false
  precedingJsdocComment : Bool := false
  unterminated : Bool := false
  extendedUnicodeEscape : Bool := false
  scientific : Bool := false
  octal : Bool := false
  hexSpecifier : Bool := false
  binarySpecifier : Bool := false
  octalSpecifier : Bool := false
  containsSeparator : Bool := false
  unicodeEscape : Bool := false
  containsInvalidEscape : Bool := false
  hexEscape : Bool := false
  containsLeadingZero : Bool := false
  containsInvalidSeparator : Bool := false
  precedingJsdocLeadingAsterisks : Bool := false
  singleQuote : Bool := false
  precedingJsdocWithDeprecated : Bool := false
  precedingJsdocWithSeeOrLink : Bool := false
deriving DecidableEq

inductive Message where
  | mergeConflictMarkerEncountered
  | asteriskSlashExpected
  | hexadecimalDigitExpected
  | binaryDigitExpected
  | octalDigitExpected
  | canOnlyBeUsedAtTheStartOfAFile
  | invalidCharacter
  | fileAppearsToBeBinary
  | unterminatedStringLiteral
  | unterminatedTemplateLiteral
  | unexpectedEndOfText
  | octalEscapeSequencesAndBackreferencesAreNotAllowedInACharacterClass
  | octalEscapeSequencesAreNotAllowed
  | decimalEscapeSequencesAndBackreferencesAreNotAllowedInACharacterClass
  | escapeSequenceIsNotAllowed
  | unicodeEscapeSequencesAreOnlyAvailableInUnicodeMode
  | thisCharacterCannotBeEscapedInARegularExpression
  | extendedUnicodeEscapeValueOutOfRange
  | unterminatedUnicodeEscapeSequence
  | numericSeparatorsAreNotAllowedHere
  | multipleConsecutiveNumericSeparatorsAreNotPermitted
  | octalLiteralsAreNotAllowed
  | digitExpected
  | decimalsWithLeadingZerosAreNotAllowed
  | bigintLiteralCannotUseExponentialNotation
  | bigintLiteralMustBeAnInteger
  | identifierOrKeywordCannotImmediatelyFollowANumericLiteral
  | unterminatedRegularExpressionLiteral
  | unexpectedTokenDidYouMeanGt
  | unexpectedTokenDidYouMeanRbrace
deriving DecidableEq

structure Diagnostic where
  message : Message
  start : Int
  length : Int
  args : List Bytes
deriving DecidableEq

/-- `normalizeNumber` stands for the text of the number that `tsr_jsnum` reads in a literal -/
structure Source where
  text : Bytes
  languageVariant : LanguageVariant
  skipTrivia : Bool
  normalizeNumber : Bytes → Bytes

structure Cursor where
  pos : Nat
  token : Kind := .unknown
  tokenValue : Bytes := []
  tokenFlags : TokenFlags := {}
  numberCache : List (Bytes × Bytes) := []
  hexNumberCache : List (Bytes × Bytes) := []
  hexDigitCache : List (Bytes × Bytes) := []
  errors : List Diagnostic := []
  panicked : Bool := false
deriving DecidableEq

namespace Cursor

def panic (c : Cursor) : Cursor := { c with panicked := true }

/-- the source panics here unless `ok` -/
def require (ok : Prop) [Decidable ok] (c : Cursor) : Cursor := if ok then c else c.panic

def move (width : Nat) (c : Cursor) : Cursor := { c with pos := c.pos + width }

def takeToken (token : Kind) (width : Nat) (c : Cursor) : Cursor :=
  { c with pos := c.pos + width, token := token }

def errorAt (message : Message) (start length : Int) (args : List Bytes) (c : Cursor) : Cursor :=
  { c with errors := c.errors ++ [⟨message, start, length, args⟩] }

def error (message : Message) (c : Cursor) : Cursor := c.errorAt message c.pos 0 []

/-- an error that is reported on a condition -/
def errorIf (report : Prop) [Decidable report] (message : Message) (start length : Int)
    (args : List Bytes) (c : Cursor) : Cursor :=
  if report then c.errorAt message start length args else c

def flag (set : TokenFlags → TokenFlags) (c : Cursor) : Cursor :=
  { c with tokenFlags := set c.tokenFlags }

def setValue (value : Bytes) (c : Cursor) : Cursor := { c with tokenValue := value }

def appendTokenValue (suffix : Bytes) (c : Cursor) : Cursor :=
  { c with tokenValue := c.tokenValue ++ suffix }

@[simp] theorem pos_panic (c : Cursor) : c.panic.pos = c.pos := rfl

@[simp] theorem pos_require (ok : Prop) [Decidable ok] (c : Cursor) : (c.require ok).pos = c.pos := by
  rw [require]
  split_ifs <;> rfl

@[simp] theorem pos_move (width : Nat) (c : Cursor) : (c.move width).pos = c.pos + width := rfl

@[simp] theorem pos_errorAt (message : Message) (start length : Int) (args : List Bytes)
    (c : Cursor) : (c.errorAt message start length args).pos = c.pos := rfl

@[simp] theorem pos_error (message : Message) (c : Cursor) : (c.error message).pos = c.pos := rfl

@[simp] theorem pos_flag (set : TokenFlags → TokenFlags) (c : Cursor) : (c.flag set).pos = c.pos := rfl

@[simp] theorem pos_setValue (value : Bytes) (c : Cursor) : (c.setValue value).pos = c.pos := rfl

end Cursor

section
variable (src : Source)

/-- `None` stands for `-1`, the end of the text -/
def char (c : Cursor) : Option UInt8 := src.text[c.pos]?

def charAt (c : Cursor) (offset : Nat) : Option UInt8 := src.text[c.pos + offset]?

def slice (start stop : Nat) (c : Cursor) : Bytes × Cursor :=
  ((src.text.take stop).drop start, c.require (start ≤ stop ∧ stop ≤ src.text.length))

def tail (start : Nat) (c : Cursor) : Bytes × Cursor :=
  (src.text.drop start, c.require (start ≤ src.text.length))

/-- an ASCII byte is taken as it is -/
def charAndSize (c : Cursor) : (Nat × Nat) × Cursor :=
  if (char src c).any (fun b => b < 0x80) = true then (((char src c).elim 0 UInt8.toNat, 1), c)
  else
    let (rest, c) := tail src c.pos c
    (decodeUtf8 rest, c)

def scanAsciiWhile (pred : UInt8 → Bool) (c : Cursor) : Cursor :=
  let (rest, c) := slice src c.pos src.text.length c
  c.move (rest.takeWhile fun b => b < 0x80 && pred b).length

/-- bytes ahead of the cursor -/
def Cursor.ahead (c : Cursor) : Nat := src.text.length - c.pos

/-- a loop over the cursor -/
def scanLoop (body : Cursor → Pass Cursor Cursor) (c : Cursor) : Cursor :=
  loop body Cursor.panic (Cursor.ahead src) c

@[simp] theorem pos_slice (start stop : Nat) (c : Cursor) : (slice src start stop c).2.pos = c.pos :=
  Cursor.pos_require _ c

@[simp] theorem pos_charAndSize (c : Cursor) : (charAndSize src c).2.pos = c.pos := by
  rw [charAndSize]
  split_ifs
  · rfl
  · exact Cursor.pos_require _ c

/-- the shortcut for ASCII bytes agrees with the decoder -/
@[simp] theorem charAndSize_eq (c : Cursor) :
    (charAndSize src c).1 = decodeUtf8 (src.text.drop c.pos) := by
  rw [charAndSize]
  split_ifs with h
  · obtain ⟨b, hb, hlt⟩ := (Option.any_eq_true _ _).1 h
    rw [hb, decode_ascii src.text hb (of_decide_eq_true hlt)]
    rfl
  · rfl

/-- length of the run of ASCII bytes of a class at a position -/
def asciiRun (pred : UInt8 → Bool) (pos : Nat) : Nat :=
  ((src.text.drop pos).takeWhile fun b => b < 0x80 && pred b).length

@[simp] theorem pos_scanAsciiWhile (pred : UInt8 → Bool) (c : Cursor) :
    (scanAsciiWhile src pred c).pos = c.pos + asciiRun src pred c.pos := by
  simp only [scanAsciiWhile, Cursor.pos_move, Cursor.pos_require, slice, List.take_length, asciiRun]

/-- **What each byte of a class keeps is kept by a run of them.** -/
theorem asciiRun_eq {α : Type*} (f : Nat → α) (pred : UInt8 → Bool)
    (h : ∀ p b, src.text[p]? = some b → b < 0x80 → pred b = true → f p = f (p + 1)) (pos : Nat) :
    f pos = f (pos + asciiRun src pred pos) := by
  induction hn : asciiRun src pred pos generalizing pos with
  | zero => rfl
  | succ n ih =>
    rw [asciiRun] at hn
    cases hb : src.text[pos]? with
    | none =>
      rw [List.drop_eq_nil_of_le (List.getElem?_eq_none_iff.1 hb)] at hn
      simp at hn
    | some b =>
      rw [drop_of_byte src.text hb, List.takeWhile_cons] at hn
      split_ifs at hn with hpred
      simp only [Bool.and_eq_true, decide_eq_true_eq] at hpred
      have hstep := h pos b hb hpred.1 hpred.2
      have hrun : asciiRun src pred (pos + 1) = n := by
        simpa [asciiRun] using hn
      rw [hstep, ih (pos + 1) hrun]
      congr 1
      omega

def runePass (pred : Nat → Nat → Bool) (c : Cursor) : Pass Cursor Cursor :=
  let ((rune, size), c) := charAndSize src c
  if pred rune size then .again (c.move size) else .leave c

/-- move over the runes of a class; a size of zero stands for the end of the text -/
def scanRunesWhile (pred : Nat → Nat → Bool) (c : Cursor) : Cursor :=
  scanLoop src (runePass src pred) c

end

end Tsr.Scanner
