import Tsr.Lib.Search
import Tsr.Lib.JoinTree

/-!
# Span maps

The segments of a content mapper's virtual text that correspond to the original text.  Positions are
signed words of 32 bits.

* `SpanMap.new`, `SpanMap.validate`      the segments by virtual start, and the first violation of the
                                         contract;
* `SpanMap.virtualToOriginalSpan`        the original range of a virtual one, and how faithful it is;
                                         `none` is a panic;
* `originalIndex`                        the segments in original order, under a tree of maximal ends;
* `segmentsAtOriginalPosition`, `segmentGroupsAtOriginalPosition`   its queries.
-/

set_option linter.unusedSectionVars false

namespace Tsr.Ast
open Tsr.Lib.Search Tsr.Lib.JoinTree

structure SpanSegment where
  virtualStart : Int32
  virtualEnd : Int32
  originalStart : Int32
  originalEnd : Int32
  kind : Int32
  features : Int32
deriving DecidableEq

structure TextRange where
  pos : Int32
  stop : Int32
deriving DecidableEq

def kindVerbatim : Int32 := 0
def kindAtom : Int32 := 1
def kindAlias : Int32 := 2
def featureAll : Int32 := 1048575

inductive Fidelity where
  | exact
  | atom
  | approximate
  | none
deriving DecidableEq

inductive MappingErrorKind where
  | overlap
  | outOfBounds
  | verbatimMismatch
  | kind
  | feature
deriving DecidableEq

structure MappingError where
  kind : MappingErrorKind
  virtualPos : Int32
  originalPos : Int32
deriving DecidableEq

/-- the segments in virtual order; the index is computed from them -/
structure SpanMap where
  segments : List SpanSegment
deriving DecidableEq

def clamp (value low high : Int32) : Int32 := max (min value high) low

/-- by the difference, which wraps -/
def comparePositions (a b : Int32) : Ordering :=
  if a - b < 0 then .lt else if a - b = 0 then .eq else .gt

/-- the bytes from `start` to `stop` -/
def slice (text : List UInt8) (start stop : Int32) : List UInt8 :=
  (text.drop start.toNatClampNeg).take (stop.toNatClampNeg - start.toNatClampNeg)

/-! ## the contract -/

def SpanMap.new (sortLikeGo : SortFunc SpanSegment) (segments : List SpanSegment) : SpanMap :=
  ⟨sortLikeGo.run (fun a b => comparePositions a.virtualStart b.virtualStart) segments⟩

/-- a length that does not fit is the largest word -/
def textLength (text : List UInt8) : Int32 :=
  if text.length < 2 ^ 31 then Int32.ofNat text.length else Int32.maxValue

section
variable (virtualText original : List UInt8)

/-- the first violation of one segment behind another one -/
def validateSegment (previousVirtualEnd : Int32) (segment : SpanSegment) : Option MappingError :=
  let error (violation : MappingErrorKind) (originalPos : Int32) : Option MappingError :=
    some ⟨violation, segment.virtualStart, originalPos⟩
  if segment.virtualStart < previousVirtualEnd ∨ segment.virtualEnd < segment.virtualStart ∨
      textLength virtualText < segment.virtualEnd then
    error .overlap 0
  else if segment.originalStart < 0 ∨ segment.originalEnd < segment.originalStart ∨
      textLength original < segment.originalEnd then
    error .outOfBounds segment.originalEnd
  else if ¬ (segment.kind = kindVerbatim ∨ segment.kind = kindAtom ∨ segment.kind = kindAlias) then
    error .kind segment.originalStart
  else if segment.kind = kindVerbatim ∧
      (segment.virtualEnd - segment.virtualStart ≠ segment.originalEnd - segment.originalStart ∨
        slice virtualText segment.virtualStart segment.virtualEnd ≠
          slice original segment.originalStart segment.originalEnd) then
    error .verbatimMismatch segment.originalStart
  else if segment.features &&& ~~~featureAll ≠ 0 then
    error .feature segment.originalStart
  else none

def validateSegments : Int32 → List SpanSegment → Option MappingError
  | _, [] => none
  | previousVirtualEnd, segment :: segments =>
    match validateSegment virtualText original previousVirtualEnd segment with
    | some error => some error
    | none => validateSegments segment.virtualEnd segments

def SpanMap.validate (map : SpanMap) : Option MappingError :=
  validateSegments virtualText original 0 map.segments

end

/-! ## virtual to original -/

section
variable (P : PartitionPoint SpanSegment)

/-- the segment at a position, or the one in front of it, and whether the position lies inside; the
end of the last segment does -/
def segmentAt (segments : List SpanSegment) (pos : Int32) : Option Nat × Bool :=
  let index := P.index (fun s => s.virtualStart - pos < 0) segments
  if (segments[index]?.any fun s => s.virtualStart = pos) = true then (some index, true)
  else
    let previous := if index = 0 then none else some (index - 1)
    let inside := (previous.bind fun i => segments[i]?.map fun s =>
      decide (pos < s.virtualEnd) || (i + 1 == segments.length && decide (pos = s.virtualEnd))).getD false
    (previous, inside)

/-- behind the segment in front -/
def insertionPoint (segments : List SpanSegment) : Option Nat → Option Int32
  | none => some 0
  | some index => segments[index]?.map SpanSegment.originalEnd

def verbatimPosition (segment : SpanSegment) (pos : Int32) : Int32 :=
  clamp (segment.originalStart + (pos - segment.virtualStart)) segment.originalStart segment.originalEnd

def mapLow (segments : List SpanSegment) (pos : Int32) (index : Option Nat) (inside : Bool) :
    Option Int32 :=
  if inside = false then insertionPoint segments index
  else index.bind fun i => segments[i]?.map fun segment =>
    if segment.kind = kindVerbatim then verbatimPosition segment pos else segment.originalStart

def mapHigh (segments : List SpanSegment) (pos : Int32) (index : Option Nat) (inside : Bool) :
    Option Int32 :=
  if inside = false then insertionPoint segments index
  else index.bind fun i => segments[i]?.map fun segment =>
    if segment.kind = kindVerbatim then verbatimPosition segment pos else segment.originalEnd

def virtualToOriginalPosition (segments : List SpanSegment) (pos : Int32) : Option (Int32 × Fidelity) :=
  let (index, inside) := segmentAt P segments pos
  if inside = false then (insertionPoint segments index).map fun p => (p, .none)
  else index.bind fun i => segments[i]?.map fun segment =>
    if segment.kind = kindVerbatim then (verbatimPosition segment pos, .exact)
    else (segment.originalStart, .atom)

/-- the end at least the start -/
def virtualBounds (range : TextRange) : Int32 × Int32 := (range.pos, max range.stop range.pos)

/-- a range inside of one segment -/
def segmentSpan (segment : SpanSegment) (start stop : Int32) : TextRange × Fidelity :=
  if segment.kind = kindVerbatim then
    let low := verbatimPosition segment start
    let high := clamp (segment.originalStart + (stop - segment.virtualStart)) low segment.originalEnd
    (⟨low, high⟩, .exact)
  else (⟨segment.originalStart, segment.originalEnd⟩, .atom)

def SpanMap.virtualToOriginalSpan (map : SpanMap) (range : TextRange) : Option (TextRange × Fidelity) :=
  let (start, stop) := virtualBounds range
  if start = stop then
    (virtualToOriginalPosition P map.segments start).map fun (position, fidelity) =>
      (⟨position, position⟩, fidelity)
  else
    let (startIndex, startInside) := segmentAt P map.segments start
    let (stopIndex, stopInside) := segmentAt P map.segments (stop - 1)
    if startIndex = stopIndex ∧ startInside = stopInside then
      if startInside = true then
        startIndex.bind fun i => map.segments[i]?.map fun segment => segmentSpan segment start stop
      else (insertionPoint map.segments startIndex).map fun p => (⟨p, p⟩, .none)
    else
      (mapLow map.segments start startIndex startInside).bind fun low =>
        (mapHigh map.segments stop stopIndex stopInside).map fun high =>
          (⟨low, max high low⟩, .approximate)

end

/-! ## original to virtual -/

structure OriginalIndex where
  segments : List SpanSegment
  leafCount : Nat
  maxEnds : List Int32
deriving DecidableEq

structure SegmentGroup where
  segments : List SpanSegment
  atEnd : Bool
deriving DecidableEq

/-- by original start, original end and virtual start -/
def compareOriginal (a b : SpanSegment) : Ordering :=
  (comparePositions a.originalStart b.originalStart).then
    ((comparePositions a.originalEnd b.originalEnd).then
      (comparePositions a.virtualStart b.virtualStart))

def SpanMap.originalIndex (sortLikeGo : SortFunc SpanSegment) (map : SpanMap) : OriginalIndex :=
  let segments := sortLikeGo.run compareOriginal map.segments
  ⟨segments, leafCount segments.length, build max 0 (segments.map SpanSegment.originalEnd)⟩

/-- an end that is not in front of a position, nor at it if `includeEnd` is not set -/
def reaches (pos : Int32) (includeEnd : Bool) (stop : Int32) : Bool :=
  !(decide (stop < pos) || !includeEnd && decide (stop = pos))

namespace OriginalIndex
variable (P : PartitionPoint SpanSegment) (index : OriginalIndex)

def collectSegmentsEndingAtOrAfter (limit : Nat) (pos : Int32) (includeEnd : Bool) :
    List SpanSegment :=
  collect 0 index.maxEnds (reaches pos includeEnd) index.segments limit 1 0 index.leafCount

def segmentsEndingAfterPosition (limit : Nat) (pos : Int32) : List SpanSegment :=
  index.collectSegmentsEndingAtOrAfter limit pos false

def segmentsAtOriginalPosition (pos : Int32) : List SpanSegment × Bool :=
  let start := P.index (fun segment => segment.originalStart < pos) index.segments
  let ending := index.segmentsEndingAfterPosition start pos
  let stop := P.index (fun segment => segment.originalStart ≤ pos) index.segments
  let results := ending ++ (index.segments.take stop).drop start
  (results, !results.isEmpty)

def sameOriginalRange (left right : SpanSegment) : Bool :=
  left.originalStart = right.originalStart ∧ left.originalEnd = right.originalEnd

/-- the segments behind the first with the same range, one group after the other -/
def groupsOf (pos : Int32) : List SpanSegment → List SegmentGroup
  | [] => []
  | segment :: segments =>
    let same := segments.takeWhile (sameOriginalRange segment)
    let rest := groupsOf pos (segments.dropWhile (sameOriginalRange segment))
    if pos ≤ segment.originalEnd then
      ⟨segment :: same, pos = segment.originalEnd ∧ pos ≠ segment.originalStart⟩ :: rest
    else rest
termination_by segments => segments.length
decreasing_by
  have := (List.dropWhile_sublist (sameOriginalRange segment) (l := segments)).length_le
  rw [List.length_cons]
  omega

def segmentGroupsAtOriginalPosition (pos : Int32) : List SegmentGroup :=
  let limit := P.index (fun segment => segment.originalStart ≤ pos) index.segments
  groupsOf pos (index.collectSegmentsEndingAtOrAfter limit pos true)

end OriginalIndex
end Tsr.Ast
