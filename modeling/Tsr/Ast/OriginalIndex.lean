import Tsr.Ast.SpanMapExact

/-!
# The original index answers as a filter

The index holds the segments by original start, end and virtual start, if no two positions lie so far
apart that their difference wraps.

* `Spread`                  positions less than `2^31` apart, as in every validated map;
* `segmentsAt_eq`, `groupsAt_eq`   the queries are filters of the sorted segments;
* `originalIndex_queries`   for every map with `Spread`; `originalIndex_wraps` is a map without it.
-/

namespace Tsr.Ast
open Tsr.Lib.Search Tsr.Lib.JoinTree

variable {segments : List SpanSegment} {pos : Int32}

/-! ## the order of the segments -/

/-- differences of positions do not wrap -/
structure Spread (segments : List SpanSegment) : Prop where
  originalStart : ∀ a ∈ segments, ∀ b ∈ segments, a.originalStart.toInt - b.originalStart.toInt < 2 ^ 31
  originalEnd : ∀ a ∈ segments, ∀ b ∈ segments, a.originalEnd.toInt - b.originalEnd.toInt < 2 ^ 31
  virtualStart : ∀ a ∈ segments, ∀ b ∈ segments, a.virtualStart.toInt - b.virtualStart.toInt < 2 ^ 31

theorem Validated.spread {virtualText original : List UInt8} (h : Validated virtualText original segments) :
    Spread segments := by
  refine ⟨?_, ?_, ?_⟩
  · intro a ha b hb
    have h1 := a.originalStart.toInt_lt
    have h2 := (h.valid b hb).originalStart
    omega
  · intro a ha b hb
    have h1 := a.originalEnd.toInt_lt
    have h2 := (h.valid b hb).originalStart
    have h3 := (h.valid b hb).originalLe
    omega
  · intro a ha b hb
    have h1 := a.virtualStart.toInt_lt
    have h2 := (h.valid b hb).virtualStart
    omega

theorem comparePositions_eq {a b : Int32} (hab : a.toInt - b.toInt < 2 ^ 31)
    (hba : b.toInt - a.toInt < 2 ^ 31) : comparePositions a b = compare a.toInt b.toInt := by
  have hsub := toInt_sub_of a b (by omega) hab
  have hzero : (0 : Int32).toInt = 0 := rfl
  rw [comparePositions]
  by_cases hlt : a - b < 0
  · rw [if_pos hlt]
    rw [Int32.lt_iff_toInt_lt, hsub, hzero] at hlt
    exact (compare_lt_iff_lt.2 (by omega)).symm
  · rw [if_neg hlt]
    rw [Int32.lt_iff_toInt_lt, hsub, hzero] at hlt
    by_cases heq : a - b = 0
    · rw [if_pos heq]
      rw [← Int32.toInt_inj, hsub, hzero] at heq
      exact (compare_eq_iff_eq.2 (by omega)).symm
    · rw [if_neg heq]
      rw [← Int32.toInt_inj, hsub, hzero] at heq
      exact (compare_gt_iff_gt.2 (by omega)).symm

/-- the order that the comparison is without wrapping -/
def originalOrder : SpanSegment → SpanSegment → Ordering :=
  compareLex (compareOn fun s => s.originalStart.toInt)
    (compareLex (compareOn fun s => s.originalEnd.toInt) (compareOn fun s => s.virtualStart.toInt))

instance : Std.TransCmp originalOrder := by
  unfold originalOrder
  infer_instance

theorem compareOriginal_eq (h : Spread segments) {a b : SpanSegment} (ha : a ∈ segments)
    (hb : b ∈ segments) : compareOriginal a b = originalOrder a b := by
  rw [compareOriginal,
    comparePositions_eq (h.originalStart a ha b hb) (h.originalStart b hb a ha),
    comparePositions_eq (h.originalEnd a ha b hb) (h.originalEnd b hb a ha),
    comparePositions_eq (h.virtualStart a ha b hb) (h.virtualStart b hb a ha)]
  rfl

theorem ordersOn_compareOriginal (h : Spread segments) : OrdersOn compareOriginal segments := by
  refine ⟨?_, ?_⟩
  · intro a ha b hb
    rw [compareOriginal_eq h ha hb, compareOriginal_eq h hb ha]
    exact Std.OrientedCmp.eq_swap
  · intro a ha b hb d hd hab hbd
    rw [compareOriginal_eq h ha hb] at hab
    rw [compareOriginal_eq h hb hd] at hbd
    rw [compareOriginal_eq h ha hd]
    exact Std.TransCmp.isLE_trans hab hbd

theorem start_le_of_order {a b : SpanSegment} (h : (originalOrder a b).isLE = true) :
    a.originalStart.toInt ≤ b.originalStart.toInt := by
  by_contra hgt
  have hfirst : compare a.originalStart.toInt b.originalStart.toInt = .gt :=
    compare_gt_iff_gt.2 (by omega)
  rw [originalOrder, compareLex, compareOn, hfirst] at h
  cases h

/-- the sorted segments -/
theorem sorted_originalIndex (S : SortFunc SpanSegment) (map : SpanMap) (h : Spread map.segments) :
    (map.originalIndex S).segments.Pairwise fun a b => (originalOrder a b).isLE = true := by
  have hperm := S.perm compareOriginal map.segments
  refine (S.sorted compareOriginal map.segments (ordersOn_compareOriginal h)).imp_of_mem ?_
  intro a b ha hb hab
  rwa [compareOriginal_eq h (hperm.mem_iff.1 ha) (hperm.mem_iff.1 hb)] at hab

/-! ## the queries -/

theorem partitioned_lt (pos : Int32)
    (h : segments.Pairwise fun a b => a.originalStart.toInt ≤ b.originalStart.toInt) :
    Partitioned (fun s : SpanSegment => decide (s.originalStart < pos)) segments := by
  refine h.imp ?_
  intro a b hab hb
  rw [decide_eq_true_eq, Int32.lt_iff_toInt_lt] at hb ⊢
  omega

theorem partitioned_le (pos : Int32)
    (h : segments.Pairwise fun a b => a.originalStart.toInt ≤ b.originalStart.toInt) :
    Partitioned (fun s : SpanSegment => decide (s.originalStart ≤ pos)) segments := by
  refine h.imp ?_
  intro a b hab hb
  rw [decide_eq_true_eq, Int32.le_iff_toInt_le] at hb ⊢
  omega

theorem reaches_iff {includeEnd : Bool} {stop : Int32} :
    reaches pos includeEnd stop = true ↔
      pos.toInt < stop.toInt ∨ includeEnd = true ∧ stop.toInt = pos.toInt := by
  have heq : stop = pos ↔ stop.toInt = pos.toInt := Int32.toInt_inj.symm
  rw [reaches, Bool.not_eq_true', Bool.or_eq_false_iff, decide_eq_false_iff_not, Int32.lt_iff_toInt_lt]
  cases includeEnd with
  | true =>
    simp only [Bool.not_true, Bool.false_and, true_and, and_true]
    omega
  | false =>
    simp only [Bool.not_false, Bool.true_and, decide_eq_false_iff_not, heq, Bool.false_eq_true,
      false_and, or_false]
    omega

theorem reaches_max (includeEnd : Bool) (a b : Int32) :
    reaches pos includeEnd (max a b) = (reaches pos includeEnd a || reaches pos includeEnd b) := by
  rw [Bool.eq_iff_iff, Bool.or_eq_true, reaches_iff, reaches_iff, reaches_iff, toInt_max]
  cases includeEnd with
  | true =>
    simp only [true_and]
    omega
  | false =>
    simp only [Bool.false_eq_true, false_and, or_false]
    omega

/-- what the tree yields is the filter of the segments in front of the limit -/
theorem collect_segments (S : SortFunc SpanSegment) (map : SpanMap) {limit : Nat} (includeEnd : Bool)
    (hlimit : limit ≤ (map.originalIndex S).segments.length) :
    (map.originalIndex S).collectSegmentsEndingAtOrAfter limit pos includeEnd =
      ((map.originalIndex S).segments.take limit).filter fun s => reaches pos includeEnd s.originalEnd :=
  collect_root SpanSegment.originalEnd (reaches_max includeEnd) hlimit

/-- `start ≤ pos < end`, or `start = pos` where the range is empty -/
def containsOriginal (pos : Int32) (s : SpanSegment) : Bool :=
  (s.originalStart ≤ pos ∧ pos < s.originalEnd) ∨ (s.originalEnd ≤ s.originalStart ∧ s.originalStart = pos)

/-- `start ≤ pos ≤ end` -/
def touchesOriginal (pos : Int32) (s : SpanSegment) : Bool :=
  s.originalStart ≤ pos ∧ pos ≤ s.originalEnd

theorem containsOriginal_iff {s : SpanSegment} : containsOriginal pos s = true ↔
    s.originalStart.toInt ≤ pos.toInt ∧ (pos.toInt < s.originalEnd.toInt ∨ s.originalStart.toInt = pos.toInt) := by
  have heq : s.originalStart = pos ↔ s.originalStart.toInt = pos.toInt := Int32.toInt_inj.symm
  rw [containsOriginal, decide_eq_true_eq, heq, Int32.le_iff_toInt_le, Int32.lt_iff_toInt_lt,
    Int32.le_iff_toInt_le]
  omega

section
variable (P : PartitionPoint SpanSegment) (S : SortFunc SpanSegment) (map : SpanMap)

theorem segmentsAt_eq (h : Spread map.segments) (pos : Int32) :
    ((map.originalIndex S).segmentsAtOriginalPosition P pos).1 =
      (map.originalIndex S).segments.filter (containsOriginal pos) := by
  have hsorted : (map.originalIndex S).segments.Pairwise
      fun a b => a.originalStart.toInt ≤ b.originalStart.toInt :=
    (sorted_originalIndex S map h).imp fun hab => start_le_of_order hab
  have hlt := partitioned_lt pos hsorted
  have hle := partitioned_le pos hsorted
  rw [OriginalIndex.segmentsAtOriginalPosition]
  dsimp only
  rw [OriginalIndex.segmentsEndingAfterPosition, collect_segments S map false (index_le P hlt),
    take_index P hlt, between P hlt hle]
  · rw [filter_parts hlt (containsOriginal pos), List.filter_filter, List.filter_filter,
      List.filter_filter]
    congr 1
    · refine List.filter_congr ?_
      intro s _
      rw [Bool.eq_iff_iff, Bool.and_eq_true, Bool.and_eq_true, reaches_iff, containsOriginal_iff,
        decide_eq_true_eq, Int32.lt_iff_toInt_lt]
      simp only [Bool.false_eq_true, false_and, or_false]
      omega
    · refine List.filter_congr ?_
      intro s _
      rw [Bool.eq_iff_iff, Bool.and_eq_true, Bool.and_eq_true, containsOriginal_iff,
        Bool.not_eq_true', decide_eq_false_iff_not, decide_eq_true_eq, Int32.lt_iff_toInt_lt,
        Int32.le_iff_toInt_le]
      omega
  · intro s hs
    rw [decide_eq_true_eq, Int32.lt_iff_toInt_lt] at hs
    rw [decide_eq_true_eq, Int32.le_iff_toInt_le]
    omega

/-- the groups are a division of the segments -/
theorem groupsOf_segments (pos : Int32) (found : List SpanSegment)
    (h : ∀ s ∈ found, pos.toInt ≤ s.originalEnd.toInt) :
    (OriginalIndex.groupsOf pos found).flatMap SegmentGroup.segments = found := by
  induction hn : found.length using Nat.strong_induction_on generalizing found with
  | _ n ih =>
    cases found with
    | nil => rw [OriginalIndex.groupsOf, List.flatMap_nil]
    | cons segment segments =>
      have hsub := List.dropWhile_sublist (OriginalIndex.sameOriginalRange segment) (l := segments)
      have hlen := hsub.length_le
      rw [List.length_cons] at hn
      have hrest := ih _ (by omega) _ (fun s hs => h s (List.mem_cons_of_mem _ (hsub.subset hs))) rfl
      have hend : pos ≤ segment.originalEnd := Int32.le_iff_toInt_le.2 (h segment List.mem_cons_self)
      rw [OriginalIndex.groupsOf, if_pos hend, List.flatMap_cons, hrest, List.cons_append,
        List.takeWhile_append_dropWhile]

theorem groupsAt_eq (h : Spread map.segments) (pos : Int32) :
    ((map.originalIndex S).segmentGroupsAtOriginalPosition P pos).flatMap SegmentGroup.segments =
      (map.originalIndex S).segments.filter (touchesOriginal pos) := by
  have hsorted : (map.originalIndex S).segments.Pairwise
      fun a b => a.originalStart.toInt ≤ b.originalStart.toInt :=
    (sorted_originalIndex S map h).imp fun hab => start_le_of_order hab
  have hle := partitioned_le pos hsorted
  rw [OriginalIndex.segmentGroupsAtOriginalPosition, collect_segments S map true (index_le P hle), take_index P hle, groupsOf_segments]
  · rw [List.filter_filter]
    refine List.filter_congr ?_
    intro s _
    rw [Bool.eq_iff_iff, Bool.and_eq_true, reaches_iff, touchesOriginal, decide_eq_true_eq,
      decide_eq_true_eq, Int32.le_iff_toInt_le, Int32.le_iff_toInt_le]
    simp only [true_and]
    omega
  · intro s hs
    have hreach := (List.mem_filter.1 hs).2
    rw [reaches_iff] at hreach
    omega

end

/-- **The index answers as the filter of its segments**, which are those of the map in original
order. -/
theorem originalIndex_queries (P : PartitionPoint SpanSegment) (S : SortFunc SpanSegment)
    (map : SpanMap) (h : Spread map.segments) (pos : Int32) :
    let index := map.originalIndex S
    index.segments.Perm map.segments ∧
      index.segments.Pairwise (fun a b => (originalOrder a b).isLE = true) ∧
      (index.segmentsAtOriginalPosition P pos).1 = index.segments.filter (containsOriginal pos) ∧
      (index.segmentsAtOriginalPosition P pos).2 = index.segments.any (containsOriginal pos) ∧
      (index.segmentGroupsAtOriginalPosition P pos).flatMap SegmentGroup.segments =
        index.segments.filter (touchesOriginal pos) := by
  have hat := segmentsAt_eq P S map h pos
  refine ⟨S.perm _ _, sorted_originalIndex S map h, hat, ?_, groupsAt_eq P S map h pos⟩
  have hinside : ((map.originalIndex S).segmentsAtOriginalPosition P pos).2 =
      !((map.originalIndex S).segmentsAtOriginalPosition P pos).1.isEmpty := rfl
  rw [hinside, hat, Bool.eq_iff_iff, Bool.not_eq_true', List.isEmpty_eq_false_iff_exists_mem,
    List.any_eq_true]
  simp only [List.mem_filter]

/-- a verbatim segment, an empty one at its start and a wider one around both -/
def nested : SpanMap :=
  .new (.insertion _) [⟨0, 4, 2, 6, kindVerbatim, featureAll⟩, ⟨4, 5, 2, 2, kindAtom, featureAll⟩,
    ⟨5, 6, 0, 9, kindAtom, featureAll⟩]

theorem spread_nested : Spread nested.segments := ⟨by decide +kernel, by decide +kernel, by decide +kernel⟩

theorem originalIndex_queries_nested :
    ((nested.originalIndex (.insertion _)).segmentsAtOriginalPosition (.counting _) 2).1 =
      [⟨5, 6, 0, 9, kindAtom, featureAll⟩, ⟨4, 5, 2, 2, kindAtom, featureAll⟩,
        ⟨0, 4, 2, 6, kindVerbatim, featureAll⟩] := by
  rw [(originalIndex_queries (.counting _) (.insertion _) nested spread_nested 2).2.2.1]
  decide +kernel

/-! ## positions that lie too far apart -/

/-- starts at the position that the other one is compared with only after wrapping -/
def positive : SpanSegment := ⟨0, 1, 1, 10, kindAtom, featureAll⟩

def negative : SpanSegment := ⟨1, 2, -2147483648, 5, kindAtom, featureAll⟩

def wrapping : SpanMap := .new (.insertion _) [positive, negative]

def wrappingIndex : OriginalIndex := wrapping.originalIndex (.insertion _)

/-- whatever the limit, the segment that starts later is found first -/
theorem collect_wrapping (limit : Nat) :
    ∃ rest, wrappingIndex.collectSegmentsEndingAtOrAfter (limit + 1) 0 false = positive :: rest := by
  have hcount : wrappingIndex.leafCount = 2 := by decide +kernel
  have hroot : reaches 0 false (wrappingIndex.maxEnds.getD 1 0) = true := by decide +kernel
  have hleaf : reaches 0 false (wrappingIndex.maxEnds.getD (2 * 1) 0) = true := by decide +kernel
  have hfirst : wrappingIndex.segments[0]? = some positive := by decide +kernel
  rw [OriginalIndex.collectSegmentsEndingAtOrAfter, hcount, collect, hroot, if_neg (by simp),
    if_neg (by decide), dif_pos (by decide)]
  dsimp only
  rw [show 0 + (2 - 0) / 2 = 1 from rfl]
  have hleft : collect 0 wrappingIndex.maxEnds (reaches 0 false) wrappingIndex.segments (limit + 1)
      (2 * 1) 0 1 = [positive] := by
    rw [collect, hleaf, if_neg (by simp), if_pos (by decide), hfirst]
    rfl
  rw [hleft]
  exact ⟨_, rfl⟩

/-- Positions whose difference wraps are out of order, and the index does not find the segment that
contains a position, wherever it looks for it. -/
theorem originalIndex_wraps :
    wrapping.segments.filter (containsOriginal 0) = [negative] ∧
      ∀ P : PartitionPoint SpanSegment,
        (wrappingIndex.segmentsAtOriginalPosition P 0).1 ≠ [negative] := by
  refine ⟨by decide +kernel, ?_⟩
  intro P hfound
  have hne : positive ≠ negative := by decide
  rw [OriginalIndex.segmentsAtOriginalPosition] at hfound
  dsimp only at hfound
  rw [OriginalIndex.segmentsEndingAfterPosition] at hfound
  generalize P.index (fun segment => decide (segment.originalStart ≤ 0)) wrappingIndex.segments = stop
    at hfound
  cases hstart : P.index (fun segment => decide (segment.originalStart < 0)) wrappingIndex.segments with
  | succ limit =>
    rw [hstart] at hfound
    obtain ⟨rest, hrest⟩ := collect_wrapping limit
    rw [hrest] at hfound
    exact hne (List.cons.inj hfound).1
  | zero =>
    rw [hstart, OriginalIndex.collectSegmentsEndingAtOrAfter, collect, if_pos (Or.inl (Nat.le_refl 0)),
      List.nil_append, List.drop_zero] at hfound
    have hsegments : wrappingIndex.segments = [positive, negative] := by decide +kernel
    rw [hsegments] at hfound
    cases stop with
    | zero => cases hfound
    | succ stop =>
      rw [List.take_succ_cons] at hfound
      exact hne (List.cons.inj hfound).1

end Tsr.Ast
