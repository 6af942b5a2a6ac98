import Tsr.Core.GoSort
import Tsr.Jsstring.EcmaLines
import Tsr.Sourcemap.Generator

/-!
# Positions of a document and its sources

A mapper is built from a source map: every mapping is turned into a pair of offsets, in the generated
file and in its source.  The mappings are kept in the order of the generated offsets, and those of each
source in the order of their source offsets; a position is looked up in these lists.

The paths are taken by three functions, of which nothing is assumed; the outer `none` of a result
stands for a panic.

* `createDocumentPositionMapper`              the mapper of a map;
* `getSourcePosition`, `getGeneratedPosition` the queries.
-/

set_option linter.unusedSectionVars false

namespace Tsr.Sourcemap
open Tsr.Jsstring
open Tsr.Lib.Loop

/-! ## what is read -/

/-- a text with the lines that are found in it, as every host makes it; it does not fill the memory -/
structure LineInfo where
  text : JsString
  lineStarts : List Int
  made : ecmaLineStarts text = some lineStarts
  small : text.length < 2 ^ 63 - 1

structure Host where
  useCaseSensitiveFileNames : Bool
  getEcmaLineInfo : JsString → Option LineInfo
  readFile : JsString → Option JsString

/-- the functions of paths -/
structure Paths where
  directory : JsString → JsString
  absolute : JsString → JsString → JsString
  canonical : JsString → Bool → JsString

/-! ## mapped positions -/

/-- an offset in a text, or `-1` -/
abbrev Offset := { p : Int // -1 ≤ p ∧ p < 2 ^ 63 - 1 }

def missingPosition : Offset := ⟨-1, by decide⟩

structure MappedPosition where
  generatedPosition : Offset
  sourcePosition : Offset
  sourceIndex : Int64
  nameIndex : Int64
deriving DecidableEq

def MappedPosition.isSourceMappedPosition (m : MappedPosition) : Bool :=
  m.sourceIndex != missingSource && m.sourcePosition != missingPosition

structure DocumentPosition where
  fileName : JsString
  pos : Int
deriving DecidableEq

structure DocumentPositionMapper where
  useCaseSensitiveFileNames : Bool
  sourceFileAbsolutePaths : List JsString
  sourceToSourceIndexMap : Std.ExtTreeMap JsString Int
  generatedAbsoluteFilePath : JsString
  generatedMappings : List MappedPosition
  sourceMappings : List (Int64 × List MappedPosition)

/-! ## the mapper of a map -/

theorem LineInfo.offset (info : LineInfo) {line character p : Int}
    (h : computePositionOfLineAndUtf16Character info.lineStarts line character info.text true = some p) :
    -1 ≤ p ∧ p < 2 ^ 63 - 1 := by
  rcases ecmaLineStarts_table info.text with ⟨hnone, -⟩ | ⟨starts, hsome, htable⟩
  · rw [info.made] at hnone
    cases hnone
  · rw [info.made] at hsome
    obtain ⟨q, hq, hposition⟩ := computePosition_edits htable line character
    rw [Option.some.inj hsome, hposition] at h
    have hsmall := info.small
    cases h
    omega

/-- the offset of a line and a character -/
def LineInfo.position (info : LineInfo) (line character : Int) : Option Offset :=
  match h : computePositionOfLineAndUtf16Character info.lineStarts line character info.text true with
  | none => none
  | some p => some ⟨p, info.offset h⟩

/-- the offset in a file, missing where the host has no such file -/
def positionIn (info : Option LineInfo) (line character : Int) : Option Offset :=
  match info with
  | none => some missingPosition
  | some info => info.position line character

section
variable (host : Host) (paths : Paths) (map : RawSourceMap) (mapPath : JsString)

def sourceRootOf : JsString :=
  if map.sourceRoot.isEmpty then paths.directory mapPath
  else paths.absolute map.sourceRoot (paths.directory mapPath)

def generatedPathOf : JsString := paths.absolute map.file (paths.directory mapPath)

def sourcePathsOf : List JsString :=
  map.sources.map fun source => paths.absolute source (sourceRootOf paths map mapPath)

/-- the index of a source by its path; of two that have one path the later counts -/
def sourceIndicesOf : Std.ExtTreeMap JsString Int :=
  (sourcePathsOf paths map mapPath).zipIdx.foldl
    (fun indices source =>
      indices.insert (paths.canonical source.1 host.useCaseSensitiveFileNames) source.2) ∅

def sourcePositionOf (m : Mapping) : Option Offset :=
  if m.isSourceMapping then do
    let source ← at? (sourcePathsOf paths map mapPath) m.sourceIndex.toInt
    positionIn (host.getEcmaLineInfo source) m.sourceLine.toInt m.sourceCharacter.toInt
  else some missingPosition

def processMapping (m : Mapping) : Option MappedPosition := do
  let generatedPosition ← positionIn (host.getEcmaLineInfo (generatedPathOf paths map mapPath))
    m.generatedLine.toInt m.generatedCharacter.toInt
  let sourcePosition ← sourcePositionOf host paths map mapPath m
  return ⟨generatedPosition, sourcePosition, m.sourceIndex, m.nameIndex⟩

/-- the mappings of a map; none if it does not decode to its end -/
def decodedMappings : Option (List MappedPosition) := do
  let decoded ← (decodeAll map.mappings).1.mapM (processMapping host paths map mapPath)
  if (decodeAll map.mappings).2.isSome then some [] else some decoded

end

/-- the mappings of each source, in the order in which they are met -/
def groupBySource (groups : List (Int64 × List MappedPosition)) (m : MappedPosition) :
    List (Int64 × List MappedPosition) :=
  if groups.any fun g => g.1 = m.sourceIndex then
    groups.map fun g => if g.1 = m.sourceIndex then (g.1, g.2 ++ [m]) else g
  else groups ++ [(m.sourceIndex, [m])]

/-- the sign of a difference of machine words -/
def signOf (difference : Int) : Ordering := compare (Int.bmod difference (2 ^ 64)) 0

def compareSource (a b : MappedPosition) : Ordering := signOf (a.sourcePosition.1 - b.sourcePosition.1)

def compareGenerated (a b : MappedPosition) : Ordering :=
  signOf (a.generatedPosition.1 - b.generatedPosition.1)

def sortLikeGo (compare : MappedPosition → MappedPosition → Ordering) (ms : List MappedPosition) :
    Option (List MappedPosition) := (Core.GoSort.sort compare ms.toArray).map Array.toList

/-- the names do not count -/
def SamePosition (last next : MappedPosition) : Prop :=
  last.generatedPosition = next.generatedPosition ∧ last.sourceIndex = next.sourceIndex ∧
    last.sourcePosition = next.sourcePosition

instance : DecidableRel SamePosition := fun last next =>
  inferInstanceAs (Decidable (last.generatedPosition = next.generatedPosition ∧
    last.sourceIndex = next.sourceIndex ∧ last.sourcePosition = next.sourcePosition))

/-- elements that repeat the last one that was kept are left out -/
def deduplicateSorted (ms : List MappedPosition) : List MappedPosition :=
  ms.destutter fun last next => ¬ SamePosition last next

def orderMappings (compare : MappedPosition → MappedPosition → Ordering) (ms : List MappedPosition) :
    Option (List MappedPosition) := (sortLikeGo compare ms).map deduplicateSorted

def createDocumentPositionMapper (host : Host) (paths : Paths) (map : RawSourceMap) (mapPath : JsString) :
    Option DocumentPositionMapper := do
  let decoded ← decodedMappings host paths map mapPath
  let groups := (decoded.filter MappedPosition.isSourceMappedPosition).foldl groupBySource []
  let sourceMappings ← groups.mapM fun g => (orderMappings compareSource g.2).map fun ms => (g.1, ms)
  let generatedMappings ← orderMappings compareGenerated decoded
  return {
    useCaseSensitiveFileNames := host.useCaseSensitiveFileNames
    sourceFileAbsolutePaths := sourcePathsOf paths map mapPath
    sourceToSourceIndexMap := sourceIndicesOf host paths map mapPath
    generatedAbsoluteFilePath := generatedPathOf paths map mapPath
    generatedMappings := generatedMappings
    sourceMappings := sourceMappings }

/-! ## the queries -/

/-- `i` and `j`; the comparison with the target is negative in front of `i` -/
def binarySearchPass (ms : List MappedPosition) (before : MappedPosition → Bool) (s : Nat × Nat) :
    Pass (Nat × Nat) (Option Nat) :=
  if s.1 < s.2 then
    let h := (s.1 + s.2) / 2
    match ms[h]? with
    | none => .leave none
    | some m => if before m then .again (h + 1, s.2) else .again (s.1, h)
  else .leave (some s.1)

/-- the first index whose comparison with the target is not negative -/
def binarySearchFunc (ms : List MappedPosition) (target : Int) (position : MappedPosition → Offset) :
    Option Nat :=
  loop (binarySearchPass ms fun m => signOf ((position m).1 - target) = .lt) (fun _ => none)
    (fun s => s.2 - s.1) (0, ms.length)

namespace DocumentPositionMapper
variable (mapper : DocumentPositionMapper) (loc : DocumentPosition)

def getSourcePosition : Option (Option DocumentPosition) := do
  if mapper.generatedMappings.isEmpty then return none
  let targetIndex ← binarySearchFunc mapper.generatedMappings loc.pos MappedPosition.generatedPosition
  match mapper.generatedMappings[targetIndex]? with
  | none => return none
  | some mapping =>
    if !mapping.isSourceMappedPosition then return none
    let fileName ← at? mapper.sourceFileAbsolutePaths mapping.sourceIndex.toInt
    return some ⟨fileName, mapping.sourcePosition.1⟩

/-- the mappings of a source; none where it has no list -/
def mappingsOf (sourceIndex : Int) : List MappedPosition :=
  match mapper.sourceMappings.find? fun g => g.1.toInt = sourceIndex with
  | none => []
  | some g => g.2

/-- the index is compared with the number of lists -/
def getGeneratedPosition (paths : Paths) : Option (Option DocumentPosition) := do
  match mapper.sourceToSourceIndexMap[paths.canonical loc.fileName mapper.useCaseSensitiveFileNames]? with
  | none => return none
  | some sourceIndex =>
    if sourceIndex < 0 ∨ (mapper.sourceMappings.length : Int) ≤ sourceIndex then return none
    let mappings := mapper.mappingsOf sourceIndex
    let targetIndex ← binarySearchFunc mappings loc.pos MappedPosition.sourcePosition
    match mappings[targetIndex]? with
    | none => return none
    | some mapping =>
      if mapping.sourceIndex.toInt ≠ sourceIndex then return none
      return some ⟨mapper.generatedAbsoluteFilePath, mapping.generatedPosition.1⟩

end DocumentPositionMapper

end Tsr.Sourcemap
