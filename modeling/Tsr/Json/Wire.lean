import Tsr.Lib.Fallible
import Tsr.Json.State

/-!
# Json: the byte lexer

`Input` buffers what its reader has delivered and refills on demand; the scanners below walk it by
index.  A reader is the list of what its next reads return; past the end of the list every read
returns zero bytes.

* `atIndex`, `fill`     one byte of the input, reading until it is there or the input ends;
* `space`, `number`, `literal`, `stringInto`   the scanners; each returns the index after its token;
* `appendString`, `validNumber`   what the encoder writes and accepts.

Every loop runs on a fuel that counts the bytes still ahead of its index, so it never runs out.
-/

namespace Tsr.Json
open Tsr.Lib Tsr.Lib.Fallible

/-! ## the reader -/

/-- what one successful read of a 512-byte buffer delivers -/
structure Chunk where
  bytes : Bytes
  nonempty : bytes ≠ []
  fits : bytes.length ≤ 512

inductive ReadResult where
  | interrupted
  | chunk (c : Chunk)
  | failed (message : String)

def ReadResult.bytes : ReadResult → Bytes
  | .chunk c => c.bytes
  | _ => []

/-- `noncanonical` is set where the text would not come back byte for byte from the encoder -/
structure Input where
  reader : List ReadResult
  bytes : Bytes
  eof : Bool
  noncanonical : Bool

abbrev Lex := Fallible Input Error

namespace Input

def new (reader : List ReadResult) : Input where
  reader := reader
  bytes := []
  eof := false
  noncanonical := false

def fromSlice (bytes : Bytes) : Input where
  reader := []
  bytes := bytes
  eof := true
  noncanonical := false

/-- bytes still to come from the reader -/
def ahead (inp : Input) : Bytes := inp.reader.flatMap ReadResult.bytes

/-- an upper bound for the indices of the input, as fuel -/
def total (inp : Input) : Nat := inp.bytes.length + inp.ahead.length

/-- the reads of `fill`, for an input that has not ended -/
def fillFrom (noncanonical : Bool) (index : Nat) :
    List ReadResult → Bytes → Except Error (Option UInt8) × Input
  | [], bytes =>
    if index < bytes.length then (.ok bytes[index]?, ⟨[], bytes, false, noncanonical⟩)
    else (.ok bytes[index]?, ⟨[], bytes, true, noncanonical⟩)
  | r :: reader, bytes =>
    if index < bytes.length then (.ok bytes[index]?, ⟨r :: reader, bytes, false, noncanonical⟩)
    else match r with
      | .interrupted => fillFrom noncanonical index reader bytes
      | .failed message => (.error (.io "read" message), ⟨reader, bytes, false, noncanonical⟩)
      | .chunk c => fillFrom noncanonical index reader (bytes ++ c.bytes)

def fill (index : Nat) : Lex (Option UInt8) := fun inp =>
  if inp.eof then (.ok inp.bytes[index]?, inp)
  else fillFrom inp.noncanonical index inp.reader inp.bytes

def atIndex (index : Nat) : Lex (Option UInt8) := fun inp =>
  match inp.bytes[index]? with
  | some byte => (.ok (some byte), inp)
  | none => fill index inp

def markNoncanonical : Lex Unit := change fun inp => { inp with noncanonical := true }

/-- loop fuel: one more than the bytes from `index` on -/
def fuelFrom (index : Nat) : Lex Nat := read fun inp => inp.total + 1 - index

/-- buffered bytes of a range -/
def slice (start stop : Nat) : Lex Bytes := read fun inp => (inp.bytes.take stop).drop start

/-! ## space and errors -/

def isSpace (b : UInt8) : Bool := b = 0x20 || b = 0x09 || b = 0x0D || b = 0x0A

def spaceLoop : Nat → Nat → Lex Nat
  | 0, index => pure index
  | fuel + 1, index => do
    let b ← atIndex index
    if b.any isSpace then spaceLoop fuel (index + 1) else pure index

def space (index : Nat) : Lex Nat := do
  let fuel ← fuelFrom index
  let stop ← spaceLoop fuel index
  if stop ≠ index then
    markNoncanonical
    pure stop
  else pure stop

def hexDigit (n : Nat) : Char := if n < 10 then Char.ofNat (48 + n) else Char.ofNat (87 + n)

/-- a byte as an error message quotes it -/
def quoteByte (byte : UInt8) : String :=
  if byte = 0x0A then "'\\n'"
  else if byte = 0x0D then "'\\r'"
  else if byte = 0x09 then "'\\t'"
  else if byte = 0x27 then "'\\''"
  else if byte = 0x5C then "'\\\\'"
  else if 32 ≤ byte ∧ byte ≤ 126 then String.ofList ['\'', Char.ofNat byte.toNat, '\'']
  else String.ofList
    ['\'', '\\', 'x', hexDigit (byte.toNat / 16), hexDigit (byte.toNat % 16), '\'']

def invalidError (index : Nat) (pointer context : String) (byte : UInt8) : Error :=
  Error.syntaxAt index pointer ("invalid character " ++ quoteByte byte ++ " " ++ context)

/-- the error about the buffered byte at `index` -/
def invalid {α : Type} (index : Nat) (pointer context : String) : Lex α := do
  let byte ← read fun inp => inp.bytes.getD index 0
  fail (invalidError index pointer context byte)

/-! ## strings -/

/-- bytes that end a run of plain text -/
def isSpecial (b : UInt8) : Bool := b = 0x22 || b = 0x5C || b ≤ 31 || 0x80 ≤ b

/-- append to the decoded text, when one is kept -/
def emit (out : Option Bytes) (bytes : Bytes) : Option Bytes := out.map (· ++ bytes)

def hexValue (b : UInt8) : Option Nat :=
  if 0x30 ≤ b ∧ b ≤ 0x39 then some (b.toNat - 0x30)
  else if 0x61 ≤ b ∧ b ≤ 0x66 then some (b.toNat - 0x61 + 10)
  else if 0x41 ≤ b ∧ b ≤ 0x46 then some (b.toNat - 0x41 + 10)
  else none

/-- `count` hexadecimal digits from `i` on; the escape starts at `slash` -/
def hexDigits (slash : Nat) (pointer : String) : Nat → Nat → Nat → Lex Nat
  | 0, _, value => pure value
  | count + 1, i, value => do
    match ← atIndex i with
    | none => fail (Error.truncated slash pointer)
    | some b =>
      match hexValue b with
      | none => invalid i pointer "in string escape sequence"
      | some digit => hexDigits slash pointer count (i + 1) (value * 16 + digit)

def hex4 (start slash : Nat) (pointer : String) : Lex Nat := hexDigits slash pointer 4 start 0

def isSurrogate (rune : Nat) : Bool := 0xD800 ≤ rune && rune ≤ 0xDFFF

/-- the second half of a surrogate pair, when an escape at `i` spells one -/
def pairAt (i first : Nat) (pointer : String) : Lex (Option Nat) := do
  if first ≤ 0xDBFF then
    if (← atIndex i) = some 0x5C then
      if (← atIndex (i + 1)) = some 0x75 then
        let second ← attempt (hex4 (i + 2) i pointer)
        pure (second.filter fun second => decide (0xDC00 ≤ second ∧ second ≤ 0xDFFF))
      else pure none
    else pure none
  else pure none

def surrogateError (slash : Nat) (pointer : String) (text : Bytes) : Error :=
  Error.syntaxAt slash pointer ("invalid surrogate pair \x60" ++ fromUtf8Lossy text ++ "\x60 in string")

/-- an escape `\\u` whose digits start at `i`: the index after it and its rune -/
def unicodeEscape (i slash : Nat) (pointer : String) (allowInvalid : Bool) : Lex (Nat × Nat) := do
  markNoncanonical
  let first ← hex4 i slash pointer
  if isSurrogate first then
    match ← pairAt (i + 4) first pointer with
    | some second => pure (i + 10, 0x10000 + ((first - 0xD800) <<< 10) + (second - 0xDC00))
    | none =>
      if allowInvalid then pure (i + 4, runeError)
      else do
        let _ ← atIndex (slash + 11)
        let text ← slice slash (slash + 12)
        fail (surrogateError slash pointer text)
  else pure (i + 4, first)

/-- the byte that a one-letter escape stands for -/
def simpleEscape (escape : UInt8) : Option UInt8 :=
  if escape = 0x22 ∨ escape = 0x5C ∨ escape = 0x2F then some escape
  else if escape = 0x62 then some 8
  else if escape = 0x66 then some 12
  else if escape = 0x6E then some 10
  else if escape = 0x72 then some 13
  else if escape = 0x74 then some 9
  else none

/-- where a scan stands after one item: past the closing quote, or at the next item -/
inductive Scan where
  | closed (stop : Nat) (out : Option Bytes)
  | more (i : Nat) (out : Option Bytes)

/-- the escape at `slash` -/
def escapeItem (slash : Nat) (pointer : String) (allowInvalid : Bool) (out : Option Bytes) :
    Lex Scan := do
  match ← atIndex (slash + 1) with
  | none => fail (Error.truncated slash pointer)
  | some escape =>
    if escape = 0x75 then do
      let (i, rune) ← unicodeEscape (slash + 2) slash pointer allowInvalid
      pure (.more i (emit out (appendRune rune)))
    else
      match simpleEscape escape with
      | none => invalid (slash + 1) pointer "in string escape sequence"
      | some byte =>
        if escape = 0x2F then do
          markNoncanonical
          pure (.more (slash + 2) (emit out [byte]))
        else pure (.more (slash + 2) (emit out [byte]))

/-- the multi-byte rune at `i` -/
def runeItem (i : Nat) (pointer : String) (allowInvalid : Bool) (out : Option Bytes) :
    Lex Scan := do
  let _ ← atIndex (i + 3)
  let (rune, width) ← read fun inp => decodeUtf8 (inp.bytes.drop i)
  if rune = runeError ∧ width = 1 then
    if allowInvalid then do
      markNoncanonical
      pure (.more (i + width) (emit out (appendRune rune)))
    else fail (Error.syntaxAt i pointer "invalid UTF-8")
  else pure (.more (i + width) (emit out (appendRune rune)))

/-- the item at `i`: the closing quote, an escape, a rune, or a plain byte that a refill brought -/
def stringItem (i : Nat) (pointer : String) (allowInvalid : Bool) (out : Option Bytes) :
    Lex Scan := do
  match ← atIndex i with
  | none => fail (Error.truncated i pointer)
  | some b =>
    if b = 0x22 then pure (.closed (i + 1) out)
    else if b = 0x5C then escapeItem i pointer allowInvalid out
    else if b ≤ 31 then invalid i pointer "in string"
    else if 0x80 ≤ b then runeItem i pointer allowInvalid out
    else pure (.more (i + 1) (emit out [b]))

/-- the plain bytes buffered from `i` on -/
def plainRun (i : Nat) : Lex Bytes :=
  read fun inp => (inp.bytes.drop i).takeWhile fun b => !isSpecial b

def stringLoop (pointer : String) (allowInvalid : Bool) :
    Nat → Nat → Option Bytes → Lex (Nat × Option Bytes)
  | 0, i, _ => fail (Error.truncated i pointer)
  | fuel + 1, i, out => do
    let run ← plainRun i
    match ← stringItem (i + run.length) pointer allowInvalid (emit out run) with
    | .closed stop out => pure (stop, out)
    | .more i out => stringLoop pointer allowInvalid fuel i out

/-- the index after the string that opens at `start`, with its decoded text when `out` keeps one -/
def stringInto (start : Nat) (pointer : String) (allowInvalid : Bool) (out : Option Bytes) :
    Lex (Nat × Option Bytes) := do
  let fuel ← fuelFrom (start + 1)
  stringLoop pointer allowInvalid fuel (start + 1) out

/-- the decoded text of a string, and the index after it -/
def string (start : Nat) (pointer : String) (allowInvalid : Bool) : Lex (Bytes × Nat) := do
  let (stop, out) ← stringInto start pointer allowInvalid (some [])
  pure (out.getD [], stop)

/-! ## numbers and literals -/

def digitLoop : Nat → Nat → Lex Nat
  | 0, i => pure i
  | fuel + 1, i => do
    let b ← atIndex i
    if b.any isDigit then digitLoop fuel (i + 1) else pure i

/-- the index after the digits from `i` on, none needed -/
def skipDigits (i : Nat) : Lex Nat := do
  let fuel ← fuelFrom i
  digitLoop fuel i

def digits (i : Nat) (pointer : String) : Lex Nat := do
  match ← atIndex i with
  | none => fail (Error.truncated i pointer)
  | some b =>
    if isDigit b then skipDigits i else invalid i pointer "in number (expecting digit)"

def signPart (i : Nat) : Lex Nat := do
  if (← atIndex i) = some 0x2D then pure (i + 1) else pure i

def integerPart (i : Nat) (pointer : String) : Lex Nat := do
  match ← atIndex i with
  | none => fail (Error.truncated i pointer)
  | some b =>
    if b = 0x30 then pure (i + 1)
    else if isDigit b then skipDigits (i + 1)
    else invalid i pointer "in number (expecting digit)"

def fractionPart (i : Nat) (pointer : String) : Lex Nat := do
  if (← atIndex i) = some 0x2E then digits (i + 1) pointer else pure i

def exponentPart (i : Nat) (pointer : String) : Lex Nat := do
  let b ← atIndex i
  if b = some 0x65 ∨ b = some 0x45 then
    let sign ← atIndex (i + 1)
    digits (if sign = some 0x2B ∨ sign = some 0x2D then i + 2 else i + 1) pointer
  else pure i

def number (start : Nat) (pointer : String) : Lex Nat := do
  let i ← signPart start
  let i ← integerPart i pointer
  let i ← fractionPart i pointer
  exponentPart i pointer

/-- the rest of `word` at `i` -/
def literalLoop (word : Bytes) (pointer : String) : Bytes → Nat → Lex Nat
  | [], i => pure i
  | b :: rest, i => do
    match ← atIndex i with
    | none => fail (Error.truncated i pointer)
    | some actual =>
      if actual = b then literalLoop word pointer rest (i + 1)
      else invalid i pointer ("in literal " ++ fromUtf8Lossy word)

def literal (start : Nat) (word : Bytes) (pointer : String) : Lex Nat :=
  literalLoop word pointer word start

end Input

/-! ## the encoder's side -/

/-- a rune as the encoder spells it -/
def escapeRune (rune : Nat) : Bytes :=
  if rune = 8 then [0x5C, 0x62]
  else if rune = 9 then [0x5C, 0x74]
  else if rune = 10 then [0x5C, 0x6E]
  else if rune = 12 then [0x5C, 0x66]
  else if rune = 13 then [0x5C, 0x72]
  else if rune = 34 then [0x5C, 0x22]
  else if rune = 92 then [0x5C, 0x5C]
  else if rune ≤ 31 then
    [0x5C, 0x75, 0x30, 0x30, UInt8.ofNat (Input.hexDigit (rune / 16)).toNat,
      UInt8.ofNat (Input.hexDigit (rune % 16)).toNat]
  else appendRune rune

/-- the spelling of the text and the text as it will be read back, or the offset of an invalid
byte; a run of plain bytes is copied as one slice -/
def appendStringLoop (allowInvalid : Bool) : Nat → Nat → Bytes → Bytes → Bytes →
    Except Nat (Bytes × Bytes)
  | 0, _, _, out, decoded => .ok (out, decoded)
  | fuel + 1, offset, bytes, out, decoded =>
    if bytes = [] then .ok (out, decoded)
    else
      let run := bytes.takeWhile fun b => !Input.isSpecial b
      if run ≠ [] then
        appendStringLoop allowInvalid fuel (offset + run.length) (bytes.drop run.length)
          (out ++ run) (decoded ++ run)
      else
        let (rune, width) := decodeUtf8 bytes
        if rune = runeError ∧ width = 1 then
          if allowInvalid then
            appendStringLoop allowInvalid fuel (offset + width) (bytes.drop width)
              (out ++ escapeRune rune) (decoded ++ appendRune rune)
          else .error offset
        else
          appendStringLoop allowInvalid fuel (offset + width) (bytes.drop width)
            (out ++ escapeRune rune) (decoded ++ bytes.take width)

def appendString (out bytes : Bytes) (allowInvalid : Bool) : Except Nat (Bytes × Bytes) := do
  let (out, decoded) ← appendStringLoop allowInvalid bytes.length 0 bytes (out ++ [0x22]) []
  pure (out ++ [0x22], decoded)

/-- the bytes after a run of digits, which must not be empty -/
def afterDigits (bytes : Bytes) : Option Bytes :=
  if bytes.head?.any isDigit then some (bytes.dropWhile isDigit) else none

def validNumber (bytes : Bytes) : Bool :=
  let bytes := if bytes.head? = some 0x2D then bytes.drop 1 else bytes
  let afterInteger :=
    if bytes.head? = some 0x30 then some (bytes.drop 1) else afterDigits bytes
  let afterFraction := afterInteger.bind fun bytes =>
    if bytes.head? = some 0x2E then afterDigits (bytes.drop 1) else some bytes
  let afterExponent := afterFraction.bind fun bytes =>
    if bytes.head? = some 0x65 ∨ bytes.head? = some 0x45 then
      let bytes := bytes.drop 1
      afterDigits
        (if bytes.head? = some 0x2B ∨ bytes.head? = some 0x2D then bytes.drop 1 else bytes)
    else some bytes
  afterExponent = some []

end Tsr.Json
