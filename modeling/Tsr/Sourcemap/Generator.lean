import Tsr.Sourcemap.Decoder

/-!
# Source maps: the generator

`Generator` builds a `mappings` string incrementally.  Mappings arrive in generated order; one
pending mapping is held so that later mappings at the same generated position can replace it.

* `appendBase64Vlq`        one VLQ number at the end of the string;
* `commitPendingMapping`   the pending mapping as a segment, relative to the last committed one;
* `addMapping` and the three public `add…Mapping` calls with their checks;
* `rawSourceMap`           commits what is pending and hands out the map;
* `Call`, `Generator.call`, `Generator.run`   a client's sequence of calls.

The field `committed` is a ghost: the list of the mappings committed so far.  Nothing reads it.
-/

namespace Tsr.Sourcemap

/-- a returned `Err`, or a panic -/
inductive Fault where
  | error (message : String)
  | panic (message : String)
deriving DecidableEq

def sourceIndexNotSet : Int64 := -1
def nameIndexNotSet : Int64 := -1
def notSet : Int64 := -1
def notSetUtf16 : Int64 := -1

structure Generator where
  file : JsString
  sourceRoot : JsString
  rawSources : List JsString
  sources : List JsString
  sourceToSourceIndexMap : Std.ExtTreeMap JsString Int64
  sourcesContent : List (Option JsString)
  names : List JsString
  nameToNameIndexMap : Std.ExtTreeMap JsString Int64
  mappings : List UInt8
  lastGeneratedLine : Int64
  lastGeneratedCharacter : Int64
  lastSourceIndex : Int64
  lastSourceLine : Int64
  lastSourceCharacter : Int64
  lastNameIndex : Int64
  hasLast : Bool
  pendingGeneratedLine : Int64
  pendingGeneratedCharacter : Int64
  pendingSourceIndex : Int64
  pendingSourceLine : Int64
  pendingSourceCharacter : Int64
  pendingNameIndex : Int64
  hasPending : Bool
  hasPendingSource : Bool
  hasPendingName : Bool
  committed : List Mapping

structure RawSourceMap where
  version : Int64
  file : JsString
  sourceRoot : JsString
  sources : List JsString
  names : List JsString
  mappings : JsString
  sourcesContent : Option (List (Option JsString))
deriving DecidableEq

def newGenerator (file sourceRoot : JsString) : Generator where
  file := file
  sourceRoot := sourceRoot
  rawSources := []
  sources := []
  sourceToSourceIndexMap := ∅
  sourcesContent := []
  names := []
  nameToNameIndexMap := ∅
  mappings := []
  lastGeneratedLine := 0
  lastGeneratedCharacter := 0
  lastSourceIndex := 0
  lastSourceLine := 0
  lastSourceCharacter := 0
  lastNameIndex := 0
  hasLast := false
  pendingGeneratedLine := 0
  pendingGeneratedCharacter := 0
  pendingSourceIndex := 0
  pendingSourceLine := 0
  pendingSourceCharacter := 0
  pendingNameIndex := 0
  hasPending := false
  hasPendingSource := false
  hasPendingName := false
  committed := []

def base64FormatEncode (value : Int64) : Except Fault UInt8 :=
  if 0 ≤ value ∧ value ≤ 25 then .ok (0x41 + value.toUInt64.toUInt8)
  else if 26 ≤ value ∧ value ≤ 51 then .ok (0x61 + value.toUInt64.toUInt8 - 26)
  else if 52 ≤ value ∧ value ≤ 61 then .ok (0x30 + value.toUInt64.toUInt8 - 52)
  else if value = 62 then .ok 0x2B
  else if value = 63 then .ok 0x2F
  else .error (.panic "not a base64 value")

namespace Generator

def addName (g : Generator) (name : JsString) : Generator × Int64 :=
  match g.nameToNameIndexMap[name]? with
  | some nameIndex => (g, nameIndex)
  | none =>
    let nameIndex := Int64.ofNat g.names.length
    ({ g with
      names := g.names ++ [name]
      nameToNameIndexMap := g.nameToNameIndexMap.insert name nameIndex }, nameIndex)

section
/- `relative` is the relative path or URL of a file from the sources directory of the generator,
`relative_to_directory_or_url` at the generator's own directory, current directory and case
sensitivity. -/
variable (relative : JsString → JsString)

def addSource (g : Generator) (fileName : JsString) : Generator × Int64 :=
  let source := relative fileName
  match g.sourceToSourceIndexMap[source]? with
  | some sourceIndex => (g, sourceIndex)
  | none =>
    let sourceIndex := Int64.ofNat g.sources.length
    ({ g with
      sources := g.sources ++ [source]
      rawSources := g.rawSources ++ [fileName]
      sourceToSourceIndexMap := g.sourceToSourceIndexMap.insert source sourceIndex }, sourceIndex)

end

def setSourceContent (g : Generator) (sourceIndex : Int64) (content : JsString) :
    Except Fault Generator :=
  if sourceIndex < 0 ∨ sourceIndex ≥ Int64.ofNat g.sources.length then
    .error (.error "sourceIndex is out of range")
  else
    let i := sourceIndex.toNatClampNeg
    let padded := g.sourcesContent ++ List.replicate (i + 1 - g.sourcesContent.length) none
    .ok { g with sourcesContent := padded.set i (some content) }

def isNewGeneratedPosition (g : Generator) (generatedLine generatedCharacter : Int64) : Bool :=
  !g.hasPending || g.pendingGeneratedLine != generatedLine ||
    g.pendingGeneratedCharacter != generatedCharacter

def isBacktrackingSourcePosition (g : Generator)
    (sourceIndex sourceLine sourceCharacter : Int64) : Bool :=
  sourceIndex != sourceIndexNotSet && sourceLine != notSet && sourceCharacter != notSetUtf16 &&
    g.pendingSourceIndex == sourceIndex &&
    (decide (g.pendingSourceLine > sourceLine) ||
      g.pendingSourceLine == sourceLine && decide (g.pendingSourceCharacter > sourceCharacter))

def shouldCommitMapping (g : Generator) : Bool :=
  g.hasPending && (!g.hasLast ||
    g.lastGeneratedLine != g.pendingGeneratedLine ||
    g.lastGeneratedCharacter != g.pendingGeneratedCharacter ||
    g.lastSourceIndex != g.pendingSourceIndex ||
    g.lastSourceLine != g.pendingSourceLine ||
    g.lastSourceCharacter != g.pendingSourceCharacter ||
    g.lastNameIndex != g.pendingNameIndex)

def appendMappingCharCode (g : Generator) (charCode : UInt8) : Generator :=
  { g with mappings := g.mappings ++ [charCode] }

/-- the sign of the value becomes its least significant bit -/
def signVlq (inValue : Int64) : Int64 :=
  if inValue < 0 then ((-inValue) <<< 1) + 1 else inValue <<< 1

/-- the digit loop of `append_base64_vlq`, at most `fuel` digits -/
def vlqLoop : Nat → Generator → Int64 → Except Fault Generator
  | 0, g, _ => .ok g
  | fuel + 1, g, inValue => do
    let currentDigit := inValue &&& 31
    let inValue := inValue >>> 5
    let currentDigit := if inValue > 0 then currentDigit ||| 32 else currentDigit
    let ch ← base64FormatEncode currentDigit
    let g := g.appendMappingCharCode ch
    if inValue ≤ 0 then .ok g else vlqLoop fuel g inValue

/-- 13 digits of five bits hold any 64-bit value -/
def appendBase64Vlq (g : Generator) (inValue : Int64) : Except Fault Generator :=
  vlqLoop 13 g (signVlq inValue)

/-- The loop that emits line delimiters, run at most `fuel` times. -/
def lineLoop : Nat → Generator → Generator
  | 0, g => g
  | fuel + 1, g =>
    let g := g.appendMappingCharCode semicolon
    let g := { g with lastGeneratedLine := g.lastGeneratedLine + 1 }
    if g.lastGeneratedLine ≥ g.pendingGeneratedLine then g else lineLoop fuel g

/-- the delimiter in front of a segment: one `;` per new line, or a `,` after the first segment -/
def appendDelimiters (g : Generator) : Except Fault Generator :=
  if g.lastGeneratedLine < g.pendingGeneratedLine then
    let lines := (g.pendingGeneratedLine - g.lastGeneratedLine).toNatClampNeg
    .ok { g.lineLoop lines with lastGeneratedCharacter := 0 }
  else if g.lastGeneratedLine ≠ g.pendingGeneratedLine then
    .error (.panic "generatedLine cannot backtrack")
  else if g.hasLast then .ok (g.appendMappingCharCode comma)
  else .ok g

/-- the mapping that is pending, as the decoder would hand it out -/
def pendingMapping (g : Generator) : Mapping where
  generatedLine := g.pendingGeneratedLine
  generatedCharacter := g.pendingGeneratedCharacter
  sourceIndex := if g.hasPendingSource then g.pendingSourceIndex else missingSource
  sourceLine := if g.hasPendingSource then g.pendingSourceLine else missingLineOrColumn
  sourceCharacter := if g.hasPendingSource then g.pendingSourceCharacter else missingUtf16Column
  nameIndex := if g.hasPendingSource && g.hasPendingName then g.pendingNameIndex else missingName

def appendGeneratedCharacter (g : Generator) : Except Fault Generator := do
  let g ← g.appendBase64Vlq (g.pendingGeneratedCharacter - g.lastGeneratedCharacter)
  return { g with lastGeneratedCharacter := g.pendingGeneratedCharacter }

def appendSourcePosition (g : Generator) : Except Fault Generator := do
  let g ← g.appendBase64Vlq (g.pendingSourceIndex - g.lastSourceIndex)
  let g := { g with lastSourceIndex := g.pendingSourceIndex }
  let g ← g.appendBase64Vlq (g.pendingSourceLine - g.lastSourceLine)
  let g := { g with lastSourceLine := g.pendingSourceLine }
  let g ← g.appendBase64Vlq (g.pendingSourceCharacter - g.lastSourceCharacter)
  return { g with lastSourceCharacter := g.pendingSourceCharacter }

def appendNameIndex (g : Generator) : Except Fault Generator := do
  let g ← g.appendBase64Vlq (g.pendingNameIndex - g.lastNameIndex)
  return { g with lastNameIndex := g.pendingNameIndex }

/-- the name is written only behind a source -/
def appendSource (g : Generator) : Except Fault Generator :=
  if g.hasPendingSource then do
    let g ← g.appendSourcePosition
    if g.hasPendingName then g.appendNameIndex else .ok g
  else .ok g

def commitPendingMapping (g : Generator) : Except Fault Generator := do
  if !g.shouldCommitMapping then return g
  let m := g.pendingMapping
  let g ← g.appendDelimiters
  let g ← g.appendGeneratedCharacter
  let g ← g.appendSource
  return { g with hasLast := true, committed := g.committed ++ [m] }

/-- a new position becomes the pending one -/
def startPending (g : Generator) (generatedLine generatedCharacter : Int64) : Generator :=
  { g with
    pendingGeneratedLine := generatedLine
    pendingGeneratedCharacter := generatedCharacter
    hasPendingSource := false
    hasPendingName := false
    hasPending := true }

/-- the second half of `add_mapping`: a source, and a name if there is one, joins the position -/
def setPendingSource (g : Generator) (sourceIndex sourceLine sourceCharacter nameIndex : Int64) :
    Generator :=
  if sourceIndex ≠ sourceIndexNotSet ∧ sourceLine ≠ notSet ∧ sourceCharacter ≠ notSetUtf16 then
    let g := { g with
      pendingSourceIndex := sourceIndex
      pendingSourceLine := sourceLine
      pendingSourceCharacter := sourceCharacter
      hasPendingSource := true }
    if nameIndex ≠ nameIndexNotSet then
      { g with pendingNameIndex := nameIndex, hasPendingName := true }
    else g
  else g

def addMapping (g : Generator)
    (generatedLine generatedCharacter sourceIndex sourceLine sourceCharacter nameIndex : Int64) :
    Except Fault Generator :=
  if g.isNewGeneratedPosition generatedLine generatedCharacter ||
      g.isBacktrackingSourcePosition sourceIndex sourceLine sourceCharacter then do
    let g ← g.commitPendingMapping
    let g := g.startPending generatedLine generatedCharacter
    return g.setPendingSource sourceIndex sourceLine sourceCharacter nameIndex
  else return g.setPendingSource sourceIndex sourceLine sourceCharacter nameIndex

/-- a check of an `add_*_mapping` call -/
def failIf (p : Prop) [Decidable p] (message : String) : Except Fault Unit :=
  if p then .error (.error message) else .ok ()

def addGeneratedMapping (g : Generator) (generatedLine generatedCharacter : Int64) :
    Except Fault Generator := do
  failIf (generatedLine < g.pendingGeneratedLine) "generatedLine cannot backtrack"
  failIf (generatedCharacter < 0) "generatedCharacter cannot be negative"
  let g ← g.addMapping generatedLine generatedCharacter
    sourceIndexNotSet notSet notSetUtf16 nameIndexNotSet
  return { g with hasPendingSource := false, hasPendingName := false }

/-- the checks that both calls with a source make -/
def checkSourceMapping (g : Generator)
    (generatedLine generatedCharacter sourceIndex sourceLine sourceCharacter : Int64) :
    Except Fault Unit := do
  failIf (generatedLine < g.pendingGeneratedLine) "generatedLine cannot backtrack"
  failIf (generatedCharacter < 0) "generatedCharacter cannot be negative"
  failIf (sourceIndex < 0 ∨ sourceIndex ≥ Int64.ofNat g.sources.length)
    "sourceIndex is out of range"
  failIf (sourceLine < 0) "sourceLine cannot be negative"
  failIf (sourceCharacter < 0) "sourceCharacter cannot be negative"

/-- a mapping without a source is pending at this very position: it stays -/
def keepsPendingMapping (g : Generator) (generatedLine generatedCharacter : Int64) : Bool :=
  g.hasPending && !g.isNewGeneratedPosition generatedLine generatedCharacter &&
    !g.hasPendingSource

def addSourceMapping (g : Generator)
    (generatedLine generatedCharacter sourceIndex sourceLine sourceCharacter : Int64) :
    Except Fault Generator := do
  g.checkSourceMapping generatedLine generatedCharacter sourceIndex sourceLine sourceCharacter
  if g.keepsPendingMapping generatedLine generatedCharacter then return g
  g.addMapping generatedLine generatedCharacter sourceIndex sourceLine sourceCharacter
    nameIndexNotSet

def addNamedSourceMapping (g : Generator)
    (generatedLine generatedCharacter sourceIndex sourceLine sourceCharacter nameIndex : Int64) :
    Except Fault Generator := do
  g.checkSourceMapping generatedLine generatedCharacter sourceIndex sourceLine sourceCharacter
  failIf (nameIndex < 0 ∨ nameIndex ≥ Int64.ofNat g.names.length) "nameIndex is out of range"
  if g.keepsPendingMapping generatedLine generatedCharacter then return g
  g.addMapping generatedLine generatedCharacter sourceIndex sourceLine sourceCharacter nameIndex

def rawSourceMap (g : Generator) : Except Fault (RawSourceMap × Generator) := do
  let g ← g.commitPendingMapping
  return (⟨3, g.file, g.sourceRoot, g.sources, g.names, g.mappings,
    if g.sourcesContent.isEmpty then none else some g.sourcesContent⟩, g)

end Generator

/-! ## Clients -/

/-- a call on a generator -/
inductive Call where
  | addSource (fileName : JsString)
  | setSourceContent (sourceIndex : Int64) (content : JsString)
  | addName (name : JsString)
  | addGeneratedMapping (generatedLine generatedCharacter : Int64)
  | addSourceMapping
      (generatedLine generatedCharacter sourceIndex sourceLine sourceCharacter : Int64)
  | addNamedSourceMapping
      (generatedLine generatedCharacter sourceIndex sourceLine sourceCharacter nameIndex : Int64)
  | rawSourceMap
deriving DecidableEq

/-- the lines, columns and indices a mapping call passes -/
def Call.values : Call → List Int64
  | .addGeneratedMapping gl gc => [gl, gc]
  | .addSourceMapping gl gc si sl sc => [gl, gc, si, sl, sc]
  | .addNamedSourceMapping gl gc si sl sc ni => [gl, gc, si, sl, sc, ni]
  | _ => []

/-- all of them are below `2^62` -/
def Call.Bounded (c : Call) : Prop := ∀ v ∈ c.values, v.toInt < 2 ^ 62

instance (c : Call) : Decidable c.Bounded :=
  inferInstanceAs (Decidable (∀ v ∈ c.values, v.toInt < 2 ^ 62))

namespace Generator
section
variable (relative : JsString → JsString)

/-- one call; what it returns besides the generator is left out -/
def call (g : Generator) : Call → Except Fault Generator
  | .addSource fileName => .ok (g.addSource relative fileName).1
  | .setSourceContent sourceIndex content => g.setSourceContent sourceIndex content
  | .addName name => .ok (g.addName name).1
  | .addGeneratedMapping gl gc => g.addGeneratedMapping gl gc
  | .addSourceMapping gl gc si sl sc => g.addSourceMapping gl gc si sl sc
  | .addNamedSourceMapping gl gc si sl sc ni => g.addNamedSourceMapping gl gc si sl sc ni
  | .rawSourceMap => do let (_, g) ← g.rawSourceMap; return g

/-- a sequence of calls, all of them successful -/
def run (g : Generator) : List Call → Except Fault Generator
  | [] => .ok g
  | c :: cs => do let g ← g.call relative c; run g cs

end
end Generator

end Tsr.Sourcemap
