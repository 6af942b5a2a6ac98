import Tsr.Json.Utf8

/-!
# Json: tokens, errors and the grammar stack

Encoder and decoder share the stack of open containers: a `Frame` for each, with the number of
tokens seen in it, the last member name and the names already taken.  `pointer` renders the stack
as the JSON pointer that an error carries.
-/

namespace Tsr.Json

inductive Kind where
  | invalid
  | null
  | false
  | true
  | string
  | number
  | beginObject
  | endObject
  | beginArray
  | endArray
deriving DecidableEq

def isDigit (b : UInt8) : Bool := 0x30 ≤ b && b ≤ 0x39

def Kind.fromByte (b : UInt8) : Kind :=
  if b = 0x6E then .null
  else if b = 0x66 then .false
  else if b = 0x74 then .true
  else if b = 0x22 then .string
  else if b = 0x2D ∨ isDigit b then .number
  else if b = 0x7B then .beginObject
  else if b = 0x7D then .endObject
  else if b = 0x5B then .beginArray
  else if b = 0x5D then .endArray
  else .invalid

def Kind.isEnd : Kind → Bool
  | .endObject => Bool.true
  | .endArray => Bool.true
  | _ => Bool.false

def Kind.isBegin : Kind → Bool
  | .beginObject => Bool.true
  | .beginArray => Bool.true
  | _ => Bool.false

/-- numbers keep their spelling -/
inductive Token where
  | null
  | boolean (value : Bool)
  | string (text : Bytes)
  | number (text : Bytes)
  | beginObject
  | endObject
  | beginArray
  | endArray
deriving DecidableEq

def Token.kind : Token → Kind
  | .null => .null
  | .boolean Bool.false => .false
  | .boolean Bool.true => .true
  | .string _ => .string
  | .number _ => .number
  | .beginObject => .beginObject
  | .endObject => .endObject
  | .beginArray => .beginArray
  | .endArray => .endArray

def nullText : Bytes := [0x6E, 0x75, 0x6C, 0x6C]
def falseText : Bytes := [0x66, 0x61, 0x6C, 0x73, 0x65]
def trueText : Bytes := [0x74, 0x72, 0x75, 0x65]

def Token.text : Token → Bytes
  | .null => nullText
  | .boolean Bool.false => falseText
  | .boolean Bool.true => trueText
  | .string s => s
  | .number s => s
  | .beginObject => [0x7B]
  | .endObject => [0x7D]
  | .beginArray => [0x5B]
  | .endArray => [0x5D]

/-! ## errors -/

structure SyntaxError where
  offset : Nat
  pointer : String
  message : String
  duplicateName : Bool
  unexpectedEof : Bool
deriving DecidableEq

inductive Error where
  | malformed (e : SyntaxError)
  | eof
  | io (action message : String)
  | invalidIndent
deriving DecidableEq

namespace Error

def syntaxAt (offset : Nat) (pointer message : String) : Error :=
  .malformed
    { offset := offset, pointer := pointer, message := message, duplicateName := false
      unexpectedEof := false }

def truncated (offset : Nat) (pointer : String) : Error :=
  .malformed
    { offset := offset, pointer := pointer, message := "unexpected EOF", duplicateName := false
      unexpectedEof := true }

def duplicate (offset : Nat) (pointer : String) : Error :=
  .malformed
    { offset := offset, pointer := pointer, message := "duplicate object member name"
      duplicateName := true, unexpectedEof := false }

/-- a syntax error found `base` bytes further on -/
def moveBy (base : Nat) : Error → Error
  | .malformed e => .malformed { e with offset := base + e.offset }
  | e => e

/-- a syntax error with a pointer in front of its own -/
def within (pointer : String) : Error → Error
  | .malformed e => .malformed { e with pointer := pointer ++ e.pointer }
  | e => e

end Error

/-! ## member names -/

/-- `bytes` holds the names one after the other, `ends` where each of them ends; a large object
also keeps them in a set -/
structure Names where
  bytes : Bytes
  ends : List Nat
  large : Option (List Bytes)
deriving DecidableEq

namespace Names

def empty : Names where
  bytes := []
  ends := []
  large := none

/-- the names in `bytes`, from `start` on -/
def split (bytes : Bytes) : Nat → List Nat → List Bytes
  | _, [] => []
  | start, stop :: ends => (bytes.drop start).take (stop - start) :: split bytes stop ends

/-- the switch to a set is made before the name is looked up, and stays -/
def enlarge (n : Names) : Names :=
  if n.large = none ∧ (64 < n.ends.length ∨ 1024 < n.bytes.length) then
    { n with large := some (split n.bytes 0 n.ends) }
  else n

def push (n : Names) (name : Bytes) : Names :=
  { n with bytes := n.bytes ++ name, ends := n.ends ++ [(n.bytes ++ name).length] }

def insert (n : Names) (name : Bytes) : Bool × Names :=
  let n := n.enlarge
  match n.large with
  | some large =>
    if name ∈ large then (false, n)
    else (true, { n with large := some (name :: large) }.push name)
  | none =>
    if name ∈ split n.bytes 0 n.ends then (false, n)
    else (true, n.push name)

end Names

/-! ## the stack -/

structure Frame where
  kind : Kind
  count : Nat
  name : Bytes
  names : Names
deriving DecidableEq

namespace Frame

def new (kind : Kind) : Frame where
  kind := kind
  count := 0
  name := []
  names := Names.empty

def expectsName (f : Frame) : Bool := f.kind = .beginObject && f.count % 2 = 0

end Frame

/-- open containers, the innermost one first -/
abbrev Stack := List Frame

/-- the innermost container waits for a member name -/
def Stack.expectsName (stack : Stack) : Bool := stack.head?.any Frame.expectsName

def escapePointer : List Char → List Char
  | [] => []
  | c :: cs =>
    if c = '~' then '~' :: '0' :: escapePointer cs
    else if c = '/' then '~' :: '1' :: escapePointer cs
    else c :: escapePointer cs

/-- one step of a pointer -/
def pointerStep (text : String) : String := "/" ++ String.ofList (escapePointer text.toList)

def appendPointer (out : String) (name : Bytes) : String := out ++ pointerStep (fromUtf8Lossy name)

/-- the step into a container; `next` asks for its next value instead of its last one -/
def framePointer (next : Bool) (f : Frame) : String :=
  if f.kind = .beginObject then
    if f.count = 0 ∨ (next && f.expectsName) then "" else appendPointer "" f.name
  else if 0 < f.count ∨ next then pointerStep (toString (if next then f.count else f.count - 1))
  else ""

def pointer (next : Bool) : Stack → String
  | [] => ""
  | f :: outer => String.join (outer.reverse.map (framePointer false)) ++ framePointer next f

end Tsr.Json
