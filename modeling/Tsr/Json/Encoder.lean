import Tsr.Json.Decoder

/-!
# Json: the encoder

`writeToken` appends one token behind the delimiter and the indentation that its place calls for,
and advances the same stack of frames that the decoder keeps.  A completed top-level value ends in a
newline.  Output is committed by `flush`: to the writer, when there is one, or by moving the mark
`flushed`.

* `tokenPrefix`, `TokenPrefix.bytes`   what stands in front of a token;
* `appendToken`, `writeToken`          one token; a refused token leaves the output as it was;
* `writeValue`                         a value by its bytes: copied when the decoder calls them
                                       canonical, and otherwise written token by token.
-/

namespace Tsr.Json
open Tsr.Lib Tsr.Lib.Fallible

/-! ## the writer -/

/-- what one write returns -/
inductive WriteResult where
  | accepted (count : Nat)
  | interrupted
  | failed (message : String)

/-- a writer is the list of what its next writes return, then it takes everything offered;
`delivered` is what it has taken -/
structure Sink where
  script : List WriteResult
  delivered : Bytes

structure Encoder where
  bytes : Bytes
  base : Nat
  rootCount : Nat
  flushed : Nat
  stack : Stack
  options : Options
  sink : Option Sink
  omitTopLevelNewline : Bool

/-! ## the text in front of a token -/

structure TokenPrefix where
  delimiter : Option UInt8
  space : Bool
  indent : Option Bytes
  depth : Nat
  lineStart : Bytes

namespace TokenPrefix

def len (p : TokenPrefix) : Nat :=
  (if p.delimiter.isSome then 1 else 0) + (if p.space then 1 else 0)
    + (p.indent.elim 0 fun s => 1 + p.lineStart.length + p.depth * s.length)

def bytes (p : TokenPrefix) : Bytes :=
  p.delimiter.toList ++ (if p.space then [0x20] else [])
    ++ p.indent.elim [] fun s => 0x0A :: p.lineStart ++ (List.replicate p.depth s).flatten

end TokenPrefix

/-- the delimiter in front of a token of this kind, in the container `f` -/
def Frame.delimiter (f : Frame) (kind : Kind) : Option UInt8 :=
  if kind.isEnd then none
  else if f.kind = .beginObject ∧ ¬ f.expectsName then some 0x3A
  else if 0 < f.count then some 0x2C
  else none

namespace Encoder

abbrev Op := Fallible Encoder Error

def isBlank (bytes : Bytes) : Bool := bytes.all fun b => b = 0x20 || b = 0x09

def new (options : Options) : Except Error Encoder :=
  if isBlank (options.linePrefix.getD []) && options.indent.all isBlank then
    .ok
      { bytes := [], base := 0, rootCount := 0, flushed := 0, stack := [], options := options
        sink := none, omitTopLevelNewline := false }
  else .error .invalidIndent

def withWriter (script : List WriteResult) (options : Options) : Except Error Encoder :=
  match new options with
  | .ok e => .ok { e with sink := some ⟨script, []⟩ }
  | .error err => .error err

def outputOffset (e : Encoder) : Nat := e.base + e.bytes.length

/-- everything written so far, committed or not -/
def output (e : Encoder) : Bytes :=
  match e.sink with
  | none => e.bytes
  | some sink => sink.delivered ++ e.bytes.drop e.flushed

def tokenPrefix (e : Encoder) (kind : Kind) : TokenPrefix :=
  let bare : TokenPrefix :=
    { delimiter := none, space := false, indent := none, depth := 0
      lineStart := e.options.linePrefix.getD [] }
  match e.stack with
  | [] => bare
  | f :: _ =>
    let delimited := { bare with delimiter := f.delimiter kind }
    match e.options.indent with
    | none => delimited
    | some indent =>
      if f.kind = .beginObject ∧ ¬ f.expectsName ∧ ¬ kind.isEnd then
        { delimited with space := true }
      else if ¬ kind.isEnd ∨ 0 < f.count then
        { delimited with
          indent := some indent
          depth := e.stack.length - (if kind.isEnd then 1 else 0) }
      else delimited

/-! ## output -/

def append (text : Bytes) (e : Encoder) : Encoder := { e with bytes := e.bytes ++ text }

/-- the writes of `flush`: the bytes still pending are offered until all are taken -/
def drain : List WriteResult → Bytes → Bytes → Except Error Unit × Sink × Bytes
  | script, delivered, [] => (.ok (), ⟨script, delivered⟩, [])
  | [], delivered, pending => (.ok (), ⟨[], delivered ++ pending⟩, [])
  | .interrupted :: script, delivered, b :: pending => drain script delivered (b :: pending)
  | .failed message :: script, delivered, b :: pending =>
    (.error (.io "write" message), ⟨script, delivered⟩, b :: pending)
  | .accepted 0 :: script, delivered, b :: pending =>
    (.error (.io "write" "failed to write whole buffer"), ⟨script, delivered⟩, b :: pending)
  | .accepted (count + 1) :: script, delivered, b :: pending =>
    drain script (delivered ++ (b :: pending).take (count + 1)) ((b :: pending).drop (count + 1))

def flush : Op Unit := fun e =>
  match e.sink with
  | none => (.ok (), { e with flushed := e.bytes.length })
  | some sink =>
    match drain sink.script sink.delivered (e.bytes.drop e.flushed) with
    | (.ok _, sink, _) =>
      (.ok (), { e with sink := some sink, base := e.base + e.bytes.length, bytes := []
                        flushed := 0 })
    | (.error err, sink, pending) =>
      (.error err, { e with sink := some sink, flushed := e.bytes.length - pending.length })

/-- what follows a completed token -/
def commit : Op Unit := do
  let atRoot ← read fun e => e.stack.isEmpty
  if atRoot then do
    change fun e => if e.omitTopLevelNewline then e else e.append [0x0A]
    flush
  else do
    let full ← read fun e => decide (4096 ≤ e.bytes.length - e.flushed)
    if full then flush else pure ()

/-! ## tokens -/

/-- why a token of this kind cannot stand here -/
def refusal (stack : Stack) (kind : Kind) : Option String :=
  if kind.isEnd then
    let required := if kind = .endObject then Kind.beginObject else Kind.beginArray
    if stack.topKind ≠ some required then
      some "mismatching structural token for object or array"
    else if required = .beginObject ∧ ¬ stack.expectsName then
      some "missing value after object name"
    else none
  else if stack.expectsName ∧ kind ≠ .string then some "object member name must be a string"
  else if kind.isBegin ∧ 10000 ≤ stack.length then some "exceeded max depth"
  else none

/-- a reader over bytes in memory -/
def cursorReader : Nat → Bytes → List ReadResult
  | 0, _ => []
  | fuel + 1, bytes =>
    if h : bytes = [] then []
    else
      .chunk ⟨bytes.take 512, by simpa using h, by simp⟩ :: cursorReader fuel (bytes.drop 512)

/-- the error about a number that is none, found by the scanner -/
def numberError (offset : Nat) (pointer : String) (text : Bytes) : Error :=
  match (Input.number 0 "" (Input.new (cursorReader text.length text))).1 with
  | .error (.malformed e) => .malformed { e with offset := e.offset + offset, pointer := pointer }
  | .error e => e
  | .ok stop => Error.syntaxAt (offset + stop) pointer "invalid number token"

/-- the token itself; a string gives back the text it will be read as -/
def appendBody (offset : Nat) (token : Token) : Op Bytes := do
  let e ← read id
  match token with
  | .string text =>
    match appendString e.bytes text e.options.invalidUtf8 with
    | .error at_ => fail (Error.syntaxAt (offset + 1 + at_) (pointer true e.stack) "invalid UTF-8")
    | .ok (out, decoded) => do
      change fun e => { e with bytes := out }
      pure decoded
  | .number text =>
    if validNumber text then do
      change (append text)
      pure []
    else fail (numberError offset (pointer true e.stack) text)
  | token => do
    change (append token.text)
    pure []

/-- a member name becomes the last name of its object -/
def enterName (offset : Nat) (name : Bytes) : Op Unit := do
  let checked ← read fun e => e.stack.checkName e.options name
  change fun e => { e with stack := checked.2 }
  if checked.1 then change fun e => { e with stack := e.stack.setName name }
  else fail (Error.duplicate offset (appendPointer (pointer true checked.2) name))

/-- the grammar after a token -/
def advance (kind : Kind) (e : Encoder) : Encoder :=
  if kind.isEnd then { e with stack := e.stack.tail }
  else
    { e with
      stack := if kind.isBegin then Frame.new kind :: e.stack.countOne else e.stack.countOne
      rootCount := if e.stack.isEmpty then e.rootCount + 1 else e.rootCount }

def appendToken (token : Token) : Op Unit := do
  let e ← read id
  let kind := token.kind
  let front := e.tokenPrefix kind
  let offset := e.outputOffset + front.len
  match refusal e.stack kind with
  | some message => fail (Error.syntaxAt offset (pointer true e.stack) message)
  | none => do
    change (append front.bytes)
    let decoded ← appendBody offset token
    if e.stack.expectsName && !kind.isEnd then do
      enterName offset decoded
      change (advance kind)
    else change (advance kind)

/-- a refused token is taken back -/
def orTruncate {α : Type} (x : Op α) : Op α := fun e =>
  match x e with
  | (.ok a, e') => (.ok a, e')
  | (.error err, e') => (.error err, { e' with bytes := e'.bytes.take e.bytes.length })

def writeToken (token : Token) : Op Unit := do
  orTruncate (appendToken token)
  commit

/-- tokens one by one -/
def writeTokens : List Token → Op Unit
  | [] => pure ()
  | token :: tokens => do
    writeToken token
    writeTokens tokens

/-! ## values -/

/-- one validated value, verbatim -/
def appendValue (bytes : Bytes) : Op Unit := do
  let e ← read id
  let kind := Kind.fromByte (bytes.headD 0)
  change (append ((e.tokenPrefix kind).bytes ++ bytes))
  change fun e =>
    { e with stack := e.stack.countOne
             rootCount := if e.stack.isEmpty then e.rootCount + 1 else e.rootCount }
  commit

/-- the decoder that validates a value in the place where the encoder stands -/
def validator (e : Encoder) (bytes : Bytes) : Decoder :=
  { Decoder.fromSliceWithOptions bytes e.options with baseDepth := e.stack.length }

/-- the first error of a value, as the encoder reports it -/
def valueError (e : Encoder) (bytes : Bytes) (err : Error) : Error :=
  let err := if err = .eof then Error.truncated bytes.length "" else err
  let offset := e.outputOffset + (e.tokenPrefix (Kind.fromByte (bytes.headD 0))).len
  (err.moveBy offset).within (pointer true e.stack)

/-- the tokens of the decoder, written one by one until it ends -/
def copyTokens : Nat → Decoder → Op Unit
  | 0, _ => pure ()
  | fuel + 1, d =>
    match Decoder.readToken d with
    | (.ok token, d) => do
      writeToken token
      copyTokens fuel d
    | (.error .eof, _) => pure ()
    | (.error err, _) => fail err

def writeValue (bytes : Bytes) : Op Unit := do
  let e ← read id
  match (do Decoder.skipValue; Decoder.finish) (e.validator bytes) with
  | (.error err, _) => fail (e.valueError bytes err)
  | (.ok _, d) =>
    if !d.input.noncanonical && e.options.indent.isNone && !e.stack.expectsName then
      appendValue bytes
    else copyTokens (bytes.length + 1) (Decoder.fromSliceWithOptions bytes e.options)

end Encoder

end Tsr.Json
