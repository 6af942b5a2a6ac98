import Tsr.Json.Wire

/-!
# Json: the decoder

`next` reads one token: `prepareInner` consumes the delimiter that the innermost container calls
for, the first byte of the token tells its kind, and the stack advances by it.  `Decoder` adds the
position in the whole input, which `compact` keeps when it drops the bytes already consumed.

* `readToken`                  the next token;
* `readValue`, `skipValue`     one complete value, with its original spelling;
* `peekKind`                   the kind of the next token;
* `finish`                     nothing but space is left.

`run` performs a sequence of these calls and lists what each returned and the offset it left.
-/

namespace Tsr.Json
open Tsr.Lib Tsr.Lib.Fallible

structure Options where
  indent : Option Bytes
  linePrefix : Option Bytes
  allowDuplicateNames : Option Bool
  allowInvalidUtf8 : Option Bool
deriving DecidableEq

def Options.duplicates (o : Options) : Bool := o.allowDuplicateNames.getD false
def Options.invalidUtf8 (o : Options) : Bool := o.allowInvalidUtf8.getD false

/-! ## the innermost container -/

namespace Stack

/-- change the innermost container -/
def modifyTop (g : Frame → Frame) : Stack → Stack
  | [] => []
  | f :: outer => g f :: outer

/-- whether a member name is still free; it is taken then -/
def insertName (name : Bytes) : Stack → Bool × Stack
  | [] => (true, [])
  | f :: outer => ((f.names.insert name).1, { f with names := (f.names.insert name).2 } :: outer)

/-- the duplicate check, when the options ask for it -/
def checkName (options : Options) (name : Bytes) (stack : Stack) : Bool × Stack :=
  if options.duplicates then (true, stack) else insertName name stack

def setName (name : Bytes) (stack : Stack) : Stack :=
  modifyTop (fun f => { f with name := name }) stack

def countOne (stack : Stack) : Stack := modifyTop (fun f => { f with count := f.count + 1 }) stack

def topKind (stack : Stack) : Option Kind := stack.head?.map Frame.kind

end Stack

/-! ## delimiters -/

def Frame.closer (f : Frame) : UInt8 := if f.kind = .beginObject then 0x7D else 0x5D

def Frame.afterValue (f : Frame) : String :=
  if f.kind = .beginObject then "after object value (expecting ',' or '\x7d')"
  else "after array element (expecting ',' or ']')"

/-- the delimiter in front of the next token in an open container -/
def delimiter (f : Frame) (i : Nat) : Lex Nat := do
  let ch ← Input.atIndex i
  if f.kind = .beginObject ∧ ¬ f.expectsName then
    match ch with
    | none => fail (Error.truncated i "")
    | some b =>
      if b = 0x3A then Input.space (i + 1)
      else Input.invalid i "" "after object name (expecting ':')"
  else if 0 < f.count ∧ ch ≠ some f.closer then
    match ch with
    | none => fail (Error.truncated i "")
    | some b =>
      if b = 0x2C then do
        let i ← Input.space (i + 1)
        let ch ← Input.atIndex i
        if ch = some 0x7D ∨ ch = some 0x5D then Input.invalid i "" "at start of value"
        else pure i
      else Input.invalid i "" f.afterValue
  else pure i

def prepareInner (pos : Nat) (stack : Stack) : Lex Nat := do
  let i ← Input.space pos
  match stack with
  | [] => pure i
  | f :: _ => delimiter f i

def prepare (pos : Nat) (stack : Stack) : Lex Nat :=
  mapError (fun _ e => e.within (pointer true stack)) (prepareInner pos stack)

/-! ## one token -/

/-- what `next` works on -/
structure Cursor where
  input : Input
  pos : Nat
  stack : Stack

abbrev Scanner := Fallible Cursor Error

def onInput {α : Type} (x : Lex α) : Scanner α :=
  onPart Cursor.input (fun inp c => { c with input := inp }) x

/-- the token of the given kind at `start`, and the index after it; a string that is not decoded
carries no text -/
def scanToken (kind : Kind) (start : Nat) (options : Options) (decode : Bool) :
    Lex (Token × Nat) :=
  match kind with
  | .string =>
    if decode then do
      let (value, stop) ← Input.string start "" options.invalidUtf8
      pure (.string value, stop)
    else do
      let (stop, _) ← Input.stringInto start "" options.invalidUtf8 none
      pure (.string [], stop)
  | .number => do
    let stop ← Input.number start ""
    let text ← Input.slice start stop
    pure (.number text, stop)
  | .null => do
    let stop ← Input.literal start nullText ""
    pure (.null, stop)
  | .true => do
    let stop ← Input.literal start trueText ""
    pure (.boolean true, stop)
  | .false => do
    let stop ← Input.literal start falseText ""
    pure (.boolean false, stop)
  | .beginObject => pure (.beginObject, start + 1)
  | .beginArray => pure (.beginArray, start + 1)
  | _ => Input.invalid start "" "at start of value"

/-- an end token must close the innermost container, and an object only before a name -/
def closes (kind : Kind) (stack : Stack) : Bool :=
  if kind = .endObject then stack.topKind = some .beginObject && stack.expectsName
  else stack.topKind = some .beginArray

def endToken (kind : Kind) : Token := if kind = .endObject then .endObject else .endArray

def closeContainer (kind : Kind) (start : Nat) : Scanner (Token × Nat) := do
  let stack ← read Cursor.stack
  if closes kind stack then do
    change fun c => { c with stack := c.stack.tail, pos := start + 1 }
    pure (endToken kind, start)
  else onInput (Input.invalid start "" "at start of value")

/-- a member name becomes the last name of its object -/
def enterName (options : Options) (start : Nat) (name : Bytes) : Scanner Unit := do
  let checked ← read fun c => c.stack.checkName options name
  change fun c => { c with stack := checked.2 }
  if checked.1 then change fun c => { c with stack := c.stack.setName name }
  else fail (Error.duplicate start (appendPointer "" name))

/-- the stack and the position after a token that is no end token -/
def advance (kind : Kind) (stop : Nat) (c : Cursor) : Cursor :=
  let stack := c.stack.countOne
  { c with stack := if kind.isBegin then Frame.new kind :: stack else stack, pos := stop }

def nextInner (options : Options) (baseDepth : Nat) (keep : Bool) : Scanner (Token × Nat) := do
  let pos ← read Cursor.pos
  let stack ← read Cursor.stack
  let start ← onInput (prepareInner pos stack)
  match ← onInput (Input.atIndex start) with
  | none => fail (if stack = [] then .eof else Error.truncated start "")
  | some b =>
    let kind := Kind.fromByte b
    if kind.isEnd then closeContainer kind start
    else if stack.expectsName ∧ kind ≠ .string then
      fail (Error.syntaxAt start "" "object member name must be a string")
    else if kind.isBegin ∧ 10000 ≤ baseDepth + stack.length then
      fail (Error.syntaxAt start "" "exceeded max depth")
    else do
      let scanned ← onInput (scanToken kind start options (keep || stack.expectsName))
      if stack.expectsName then do
        enterName options start scanned.1.text
        change (advance kind scanned.2)
        pure (scanned.1, start)
      else do
        change (advance kind scanned.2)
        pure (scanned.1, start)

def next (options : Options) (baseDepth : Nat) (keep : Bool) : Scanner (Token × Nat) :=
  mapError (fun c e => e.within (pointer true c.stack)) (nextInner options baseDepth keep)

/-! ## the decoder -/

structure Decoder where
  input : Input
  pos : Nat
  base : Nat
  stack : Stack
  options : Options
  rootCount : Nat
  previousStart : Option Nat
  baseDepth : Nat

namespace Decoder

def fromInput (input : Input) (options : Options) : Decoder where
  input := input
  pos := 0
  base := 0
  stack := []
  options := options
  rootCount := 0
  previousStart := none
  baseDepth := 0

def withOptions (reader : List ReadResult) (options : Options) : Decoder :=
  fromInput (Input.new reader) options

def fromSliceWithOptions (bytes : Bytes) (options : Options) : Decoder :=
  fromInput (Input.fromSlice bytes) options

def inputOffset (d : Decoder) : Nat := d.base + d.pos

/-- drop the consumed bytes; an input that has ended is left as it is -/
def compact (d : Decoder) : Decoder :=
  if 4096 ≤ d.pos ∧ d.input.eof = false then
    { d with input := { d.input with bytes := d.input.bytes.drop d.pos }, base := d.base + d.pos
             pos := 0 }
  else d

abbrev Op := Fallible Decoder Error

/-- errors carry offsets in the whole input -/
def absoluteError {α : Type} (x : Op α) : Op α := mapError (fun d e => e.moveBy d.base) x

/-- a computation on the input alone -/
def lex {α : Type} (x : Lex α) : Op α :=
  onPart Decoder.input (fun inp d => { d with input := inp }) x

/-- a computation on the decoder's own cursor -/
def scan {α : Type} (x : Scanner α) : Op α :=
  onPart (fun d => ⟨d.input, d.pos, d.stack⟩)
    (fun c d => { d with input := c.input, pos := c.pos, stack := c.stack }) x

/-- a computation on a cursor of its own; only the input is shared -/
def scanFrom {α : Type} (start : Nat) (x : Scanner α) : Op α :=
  onPart (fun d => ⟨d.input, start, []⟩) (fun c d => { d with input := c.input }) x

def peekKind : Op Kind := do
  change fun d => { d with previousStart := none }
  let pos ← read Decoder.pos
  let stack ← read Decoder.stack
  let b ← attempt (lex (prepare pos stack >>= Input.atIndex))
  match b with
  | some (some b) => pure (Kind.fromByte b)
  | _ => pure .invalid

def afterToken (start : Nat) (atRoot : Bool) (d : Decoder) : Decoder :=
  { d with previousStart := some (d.base + start)
           rootCount := if atRoot then d.rootCount + 1 else d.rootCount }

/-- `readToken` behind `compact` -/
def tokenHere : Op Token := do
  let stack ← read Decoder.stack
  let options ← read Decoder.options
  let baseDepth ← read Decoder.baseDepth
  let (token, start) ← absoluteError (scan (next options baseDepth true))
  change (afterToken start stack.isEmpty)
  pure token

def readToken : Op Token := do
  change compact
  tokenHere

/-- tokens until no container is open -/
def skipLoop (options : Options) (depth : Nat) : Nat → Scanner Unit
  | 0 => pure ()
  | fuel + 1 => do
    let stack ← read Cursor.stack
    if stack.isEmpty then pure ()
    else do
      let _ ← next options depth false
      skipLoop options depth fuel

/-- the first token of a value, which may be a member name, and the index after the value -/
def valueTokens (options : Options) (depth : Nat) : Scanner (Token × Nat) := do
  let (first, _) ← next options depth true
  let fuel ← read fun c => c.input.total + 1 - c.pos
  skipLoop options depth fuel
  let stop ← read Cursor.pos
  pure (first, stop)

/-- an error inside a value: its pointer continues the one of the value -/
def valueError (start : Nat) (stack : Stack) (e : Error) : Error :=
  (if e = .eof ∧ stack ≠ [] then Error.truncated start "" else e).within (pointer true stack)

/-- a value in the place of a member name -/
def valueName (start : Nat) (first : Token) : Op Unit := do
  let stack ← read Decoder.stack
  let base ← read Decoder.base
  match first with
  | .string name => do
    let options ← read Decoder.options
    let checked ← read fun d => d.stack.checkName options name
    change fun d => { d with stack := checked.2 }
    if checked.1 then change fun d => { d with stack := (d.stack.setName name).countOne }
    else fail (Error.duplicate (base + start) (appendPointer (pointer true checked.2) name))
  | _ =>
    fail (Error.syntaxAt (base + start) (pointer true stack) "object member name must be a string")

def afterValue (start stop : Nat) (d : Decoder) : Decoder :=
  { d with pos := stop, previousStart := some (d.base + start) }

/-- one more value in the innermost container, or at the top level -/
def countValue (d : Decoder) : Decoder :=
  { d with stack := d.stack.countOne
           rootCount := if d.stack.isEmpty then d.rootCount + 1 else d.rootCount }

/-- `readValueRange` behind `compact` -/
def rangeHere : Op (Nat × Nat) := do
  let pos ← read Decoder.pos
  let stack ← read Decoder.stack
  let start ← absoluteError (lex (prepare pos stack))
  let options ← read Decoder.options
  let depth ← read fun d => d.baseDepth + d.stack.length
  let (first, stop) ← absoluteError
    (mapError (fun _ e => valueError start stack e) (scanFrom start (valueTokens options depth)))
  if stack.expectsName then valueName start first
  else change countValue
  change (afterValue start stop)
  pure (start, stop)

def readValueRange : Op (Nat × Nat) := do
  change compact
  rangeHere

def readValue : Op Bytes := do
  let (start, stop) ← readValueRange
  lex (Input.slice start stop)

def skipValue : Op Unit := do
  let _ ← readValueRange
  pure ()

def finish : Op Unit := do
  let pos ← read Decoder.pos
  let p ← lex (Input.space pos)
  let b ← lex (Input.atIndex p)
  if b.isSome then absoluteError (lex (Input.invalid p "" "after top-level value")) else pure ()

/-! ## sequences of calls -/

inductive Call where
  | readToken
  | readValue
  | skipValue
  | peekKind
  | finish
deriving DecidableEq

/-- what a call returned -/
inductive Answer where
  | token (r : Except Error Token)
  | value (r : Except Error Bytes)
  | done (r : Except Error Unit)
  | kind (r : Except Error Kind)

def perform : Call → Decoder → Answer × Decoder
  | .readToken, d => (.token (readToken d).1, (readToken d).2)
  | .readValue, d => (.value (readValue d).1, (readValue d).2)
  | .skipValue, d => (.done (skipValue d).1, (skipValue d).2)
  | .peekKind, d => (.kind (peekKind d).1, (peekKind d).2)
  | .finish, d => (.done (finish d).1, (finish d).2)

/-- the answers of the calls, each with the input offset after it -/
def run : List Call → Decoder → List (Answer × Nat)
  | [], _ => []
  | call :: calls, d =>
    ((perform call d).1, (perform call d).2.inputOffset) :: run calls (perform call d).2

end Decoder

end Tsr.Json
