import Tsr.Ast.OriginalIndex

/-!
# Original positions and ranges in the virtual text

* `originalToVirtualPositions`   every projection of a position through a segment with the feature;
* `originalToVirtualSpans`       of a range: inside the segments that contain it, else from the
                                 projections of its start and of its end.
-/

namespace Tsr.Ast
open Tsr.Lib.Search

structure MappedPosition where
  position : Int32
  fidelity : Fidelity
deriving DecidableEq

structure MappedSpan where
  span : TextRange
  fidelity : Fidelity
deriving DecidableEq

def supportsFeature (segment : SpanSegment) (feature : Int32) : Bool := segment.features &&& feature ≠ 0

/-- an original position inside of a verbatim segment -/
def virtualPosition (segment : SpanSegment) (pos low : Int32) : Int32 :=
  clamp (segment.virtualStart + (pos - segment.originalStart)) low segment.virtualEnd

/-! ## positions -/

def mappedPosition (pos : Int32) (atEnd : Bool) (segment : SpanSegment) : MappedPosition :=
  if segment.kind = kindVerbatim then ⟨virtualPosition segment pos segment.virtualStart, .exact⟩
  else ⟨if atEnd then segment.virtualEnd else segment.virtualStart, .atom⟩

def groupPositions (pos feature : Int32) (group : SegmentGroup) : List MappedPosition :=
  (group.segments.filter fun segment => supportsFeature segment feature).map (mappedPosition pos group.atEnd)

/-- a projection that is there already is not taken twice -/
def pushNew (results : List MappedPosition) (mapped : MappedPosition) : List MappedPosition :=
  if mapped ∈ results then results else results ++ [mapped]

/-- the searches and the sorts that are used -/
structure Searches where
  segmentPoint : PartitionPoint SpanSegment
  segmentSort : SortFunc SpanSegment
  positionSort : SortFunc MappedPosition
  spanSort : SortFunc MappedSpan
  wordSort : SortFunc Int32
  wordPoint : PartitionPoint Int32

section
variable (L : Searches) (map : SpanMap)

def originalToVirtualPositions (pos feature : Int32) : List MappedPosition :=
  let groups := (map.originalIndex L.segmentSort).segmentGroupsAtOriginalPosition L.segmentPoint pos
  let results := (groups.flatMap (groupPositions pos feature)).foldl pushNew []
  L.positionSort.run (fun a b => comparePositions a.position b.position) results

/-! ## spans -/

def startProjection (start : Int32) (segment : SpanSegment) : Int32 :=
  if segment.kind = kindVerbatim then virtualPosition segment start segment.virtualStart else segment.virtualStart

def endProjection (stop : Int32) (segment : SpanSegment) : Int32 :=
  if segment.kind = kindVerbatim then virtualPosition segment stop segment.virtualStart else segment.virtualEnd

def originalStartProjections (segments : List SpanSegment) (start feature : Int32) : List Int32 :=
  (segments.filter fun segment => supportsFeature segment feature).map (startProjection start)

def originalEndProjections (segments : List SpanSegment) (stop feature : Int32) : List Int32 :=
  (segments.filter fun segment => supportsFeature segment feature).map (endProjection stop)

/-- a range that a segment contains -/
def spanInSegment (start stop : Int32) (segment : SpanSegment) : MappedSpan :=
  if segment.kind = kindVerbatim then
    let virtualStart := virtualPosition segment start segment.virtualStart
    ⟨⟨virtualStart, virtualPosition segment stop virtualStart⟩, .exact⟩
  else ⟨⟨segment.virtualStart, segment.virtualEnd⟩, .atom⟩

def originalToVirtualSpansInSegments (segments : List SpanSegment) (start stop feature : Int32) : List MappedSpan :=
  (segments.filter fun segment => supportsFeature segment feature).map (spanInSegment start stop)

/-- each start with the first end behind it, unless the next start comes before that end -/
def approximateSpans (ends : List Int32) : List Int32 → List MappedSpan
  | [] => []
  | virtualStart :: starts =>
    match ends[L.wordPoint.index (fun stop => stop < virtualStart) ends]? with
    | none => approximateSpans ends starts
    | some stop =>
      if starts.head?.any (· ≤ stop) then approximateSpans ends starts
      else ⟨⟨virtualStart, stop⟩, .approximate⟩ :: approximateSpans ends starts

def sortWords (words : List Int32) : List Int32 := L.wordSort.run (fun a b => compare a.toInt b.toInt) words

def originalToVirtualSpans (range : TextRange) (feature : Int32) : List MappedSpan :=
  let (start, stop) := virtualBounds range
  if start = stop then
    (originalToVirtualPositions L map start feature).map fun mapped =>
      ⟨⟨mapped.position, mapped.position⟩, mapped.fidelity⟩
  else
    let index := map.originalIndex L.segmentSort
    let (startSegments, startInside) := index.segmentsAtOriginalPosition L.segmentPoint start
    let (endSegments, endInside) := index.segmentsAtOriginalPosition L.segmentPoint (stop - 1)
    if startInside = false ∨ endInside = false then []
    else
      let containing := startSegments.filter fun segment => stop ≤ segment.originalEnd
      let results := originalToVirtualSpansInSegments containing start stop feature
      if results ≠ [] then
        L.spanSort.run (fun a b => compare (a.span.pos.toInt - b.span.pos.toInt) 0) results
      else
        approximateSpans L (sortWords L (originalEndProjections endSegments stop feature))
          (sortWords L (originalStartProjections startSegments start feature))

end
end Tsr.Ast
