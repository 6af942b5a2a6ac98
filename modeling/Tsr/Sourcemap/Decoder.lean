import Mathlib

/-!
# Source maps: the `mappings` decoder

`MappingsDecoder` walks a `mappings` string and yields one `Mapping` per segment.  The fields of
a segment are base-64 VLQ numbers, relative to the accumulated state of the decoder:

* `base64FormatDecode`      the value of one base-64 character, `-1` for any other byte;
* `base64VlqFormatDecode`   one VLQ number, least significant five bits first;
* `next`                    the next segment, or `none` at the end and at the first malformed one;
* `values`                  the iteration of `next`.

Lines, columns and indices are signed 64-bit integers with wrapping arithmetic, as in the source.
-/

namespace Tsr.Sourcemap

/-- bytes of a `JsString` -/
abbrev JsString := List UInt8

/-- one segment; an absent field holds `-1` -/
structure Mapping where
  generatedLine : Int64
  generatedCharacter : Int64
  sourceIndex : Int64
  sourceLine : Int64
  sourceCharacter : Int64
  nameIndex : Int64
deriving DecidableEq

def missingSource : Int64 := -1
def missingName : Int64 := -1
def missingLineOrColumn : Int64 := -1
def missingUtf16Column : Int64 := -1

def Mapping.isSourceMapping (m : Mapping) : Bool :=
  m.sourceIndex != missingSource && m.sourceLine != missingLineOrColumn &&
    m.sourceCharacter != missingUtf16Column

/-- `rest` is the part of the mappings string from `pos` on -/
structure MappingsDecoder where
  rest : JsString
  done : Bool
  pos : Nat
  generatedLine : Int64
  generatedCharacter : Int64
  sourceIndex : Int64
  sourceLine : Int64
  sourceCharacter : Int64
  nameIndex : Int64
  error : Option String
deriving DecidableEq

def decodeMappings (mappings : JsString) : MappingsDecoder where
  rest := mappings
  done := false
  pos := 0
  generatedLine := 0
  generatedCharacter := 0
  sourceIndex := 0
  sourceLine := 0
  sourceCharacter := 0
  nameIndex := 0
  error := none

def comma : UInt8 := 0x2C
def semicolon : UInt8 := 0x3B

/-- value of a base-64 character, `-1` for a byte that is none -/
def base64FormatDecode (ch : UInt8) : Int64 :=
  if 0x41 ≤ ch ∧ ch ≤ 0x5A then (ch - 0x41).toUInt64.toInt64
  else if 0x61 ≤ ch ∧ ch ≤ 0x7A then (ch - 0x61 + 26).toUInt64.toInt64
  else if 0x30 ≤ ch ∧ ch ≤ 0x39 then (ch - 0x30 + 52).toUInt64.toInt64
  else if ch = 0x2B then 62
  else if ch = 0x2F then 63
  else -1

namespace MappingsDecoder

def captureMapping (d : MappingsDecoder) (hasSource hasName : Bool) : Mapping where
  generatedLine := d.generatedLine
  generatedCharacter := d.generatedCharacter
  sourceIndex := if hasSource then d.sourceIndex else missingSource
  sourceLine := if hasSource then d.sourceLine else missingLineOrColumn
  sourceCharacter := if hasSource then d.sourceCharacter else missingUtf16Column
  nameIndex := if hasName then d.nameIndex else missingName

def setError (d : MappingsDecoder) (err : String) : MappingsDecoder := { d with error := some err }

def hasReportedError (d : MappingsDecoder) : Bool := d.error.isSome

/-- consume one byte; `tail` is what follows it -/
def advance (d : MappingsDecoder) (tail : JsString) : MappingsDecoder :=
  { d with pos := d.pos + 1, rest := tail }

def isSourceMappingSegmentEnd (d : MappingsDecoder) : Bool :=
  match d.rest with
  | [] => true
  | ch :: _ => ch == comma || ch == semicolon

/-- `checked_shl(..).unwrap_or(0)`: a shift by 64 or more gives 0 -/
def checkedShl (x : Int64) (shift : Nat) : Int64 :=
  if shift < 64 then x <<< Int64.ofNat shift else 0

/-- the digit loop of `base64_vlq_format_decode` over the bytes from `pos` on; `none` after an
error -/
def vlqDigits (d : MappingsDecoder) (shiftCount : Nat) (value : Int64) :
    List UInt8 → Option Int64 × MappingsDecoder
  | [] => (none, d.setError "Error in decoding base64VLQFormatDecode, past the mapping string")
  | ch :: tail =>
    let currentByte := base64FormatDecode ch
    if currentByte = -1 then (none, d.setError "Invalid character in VLQ")
    else
      let value := value ||| checkedShl (currentByte &&& 31) shiftCount
      -- the shift count is a `u32` that saturates
      let shiftCount := min (shiftCount + 5) (2 ^ 32 - 1)
      if currentByte &&& 32 ≠ 0 then vlqDigits (d.advance tail) shiftCount value tail
      else (some value, d.advance tail)

/-- the number a digit string stands for: the lowest bit is the sign -/
def unsignVlq (value : Int64) : Int64 :=
  if value &&& 1 = 0 then value >>> 1 else -(value >>> 1)

def base64VlqFormatDecode (d : MappingsDecoder) : Int64 × MappingsDecoder :=
  match vlqDigits d 0 0 d.rest with
  | (none, d) => (-1, d)
  | (some value, d) => (unsignVlq value, d)

/-- Adds a VLQ number to one field of the state.  `Except.error d` is the early return of `next`
that yields nothing and leaves the decoder at `d`. -/
def readField (get : MappingsDecoder → Int64) (set : MappingsDecoder → Int64 → MappingsDecoder)
    (invalid : String) (d : MappingsDecoder) : Except MappingsDecoder MappingsDecoder :=
  let (delta, d') := d.base64VlqFormatDecode
  let d' := set d' (get d + delta)
  if d'.hasReportedError then .error { d' with done := true }
  else if get d' < 0 then .error { d'.setError invalid with done := true }
  else .ok d'

def readGeneratedCharacter : MappingsDecoder → Except MappingsDecoder MappingsDecoder :=
  readField generatedCharacter (fun d v => { d with generatedCharacter := v })
    "Invalid generatedCharacter found"

def readSourceIndex : MappingsDecoder → Except MappingsDecoder MappingsDecoder :=
  readField sourceIndex (fun d v => { d with sourceIndex := v }) "Invalid sourceIndex found"

def readSourceLine : MappingsDecoder → Except MappingsDecoder MappingsDecoder :=
  readField sourceLine (fun d v => { d with sourceLine := v }) "Invalid sourceLine found"

def readSourceCharacter : MappingsDecoder → Except MappingsDecoder MappingsDecoder :=
  readField sourceCharacter (fun d v => { d with sourceCharacter := v })
    "Invalid sourceCharacter found"

def readNameIndex : MappingsDecoder → Except MappingsDecoder MappingsDecoder :=
  readField nameIndex (fun d v => { d with nameIndex := v }) "Invalid nameIndex found"

/-- the checks of a segment that ends, or does not end, too early -/
def failIf (b : Bool) (err : String) (d : MappingsDecoder) : Except MappingsDecoder Unit :=
  if b then .error { d.setError err with done := true } else .ok ()

/-- one segment, the decoder standing on its first byte -/
def segment (d : MappingsDecoder) : Except MappingsDecoder (Mapping × MappingsDecoder) := do
  let d ← d.readGeneratedCharacter
  if d.isSourceMappingSegmentEnd then return (d.captureMapping false false, d)
  let d ← d.readSourceIndex
  failIf d.isSourceMappingSegmentEnd "Unsupported Format: No entries after sourceIndex" d
  let d ← d.readSourceLine
  failIf d.isSourceMappingSegmentEnd "Unsupported Format: No entries after sourceLine" d
  let d ← d.readSourceCharacter
  if d.isSourceMappingSegmentEnd then return (d.captureMapping true false, d)
  let d ← d.readNameIndex
  failIf (!d.isSourceMappingSegmentEnd) "Unsupported Error Format: Entries after nameIndex" d
  return (d.captureMapping true true, d)

/-- the loop of `next` over the bytes from `pos` on: delimiters, then one segment -/
def nextLoop (d : MappingsDecoder) : List UInt8 → Option Mapping × MappingsDecoder
  | [] => (none, { d with done := true })
  | ch :: tail =>
    if ch = semicolon then
      nextLoop { d.advance tail with
        generatedLine := d.generatedLine + 1, generatedCharacter := 0 } tail
    else if ch = comma then nextLoop (d.advance tail) tail
    else
      match d.segment with
      | .ok (m, d) => (some m, d)
      | .error d => (none, d)

def next (d : MappingsDecoder) : Option Mapping × MappingsDecoder :=
  if d.done then (none, d) else nextLoop d d.rest

/-- the remaining mappings, at most `fuel` of them, and the decoder left behind -/
def values : Nat → MappingsDecoder → List Mapping × MappingsDecoder
  | 0, d => ([], d)
  | fuel + 1, d =>
    match d.next with
    | (none, d) => ([], d)
    | (some m, d) => let (ms, d) := values fuel d; (m :: ms, d)

end MappingsDecoder

/-- All mappings of a string and the error, if there is one.  A segment takes at least one byte,
so the fuel is one more than the number of segments can be. -/
def decodeAll (mappings : JsString) : List Mapping × Option String :=
  let (ms, d) := MappingsDecoder.values (mappings.length + 1) (decodeMappings mappings)
  (ms, d.error)

end Tsr.Sourcemap
