import Tsr.Ast.OriginalToVirtual

/-!
# Both directions of a span map

* `position_found`     a virtual position in a verbatim segment is among the projections of its original;
* `Apart`              two spans that have no position in common;
* `spans_in_segments`  the spans in the segments that contain a range, `approximateSpans_spec` the others;
* `original_to_virtual`   the main result.
-/

namespace Tsr.Ast
open Tsr.Lib.Search

variable {virtualText original : List UInt8} {s : SpanSegment} {segments : List SpanSegment}

/-! ## one segment -/

theorem toInt_virtualPosition_bounds {segment : SpanSegment} (pos low : Int32)
    (h : low.toInt ≤ segment.virtualEnd.toInt) :
    low.toInt ≤ (virtualPosition segment pos low).toInt ∧
      (virtualPosition segment pos low).toInt ≤ segment.virtualEnd.toInt := by
  unfold virtualPosition
  rw [toInt_clamp]
  omega

/-- inside of the original range a position keeps its distance from the start -/
theorem Valid.toInt_virtualPosition (h : Valid virtualText original s) (hkind : s.kind = kindVerbatim)
    {pos low : Int32} (hstart : s.originalStart.toInt ≤ pos.toInt) (hend : pos.toInt ≤ s.originalEnd.toInt)
    (hlow : low.toInt ≤ s.virtualStart.toInt + (pos.toInt - s.originalStart.toInt)) :
    (virtualPosition s pos low).toInt = s.virtualStart.toInt + (pos.toInt - s.originalStart.toInt) := by
  have hlength := (h.verbatim hkind).1
  have h1 := h.virtualStart
  have h2 := h.originalStart
  have h3 := s.virtualEnd.toInt_lt
  have h4 := s.originalEnd.toInt_lt
  have hsub := toInt_sub_of pos s.originalStart (by omega) (by omega)
  have hadd := toInt_add_of s.virtualStart (pos - s.originalStart) (by omega) (by omega)
  unfold virtualPosition
  rw [toInt_clamp, hadd, hsub]
  omega

theorem Valid.toInt_verbatimPosition (h : Valid virtualText original s) (hkind : s.kind = kindVerbatim)
    {pos : Int32} (hstart : s.virtualStart.toInt ≤ pos.toInt) (hend : pos.toInt ≤ s.virtualEnd.toInt) :
    (verbatimPosition s pos).toInt = s.originalStart.toInt + (pos.toInt - s.virtualStart.toInt) := by
  have hlength := (h.verbatim hkind).1
  have h1 := h.virtualStart
  have h2 := h.originalStart
  have h3 := s.virtualEnd.toInt_lt
  have h4 := s.originalEnd.toInt_lt
  have hsub := toInt_sub_of pos s.virtualStart (by omega) (by omega)
  have hadd := toInt_add_of s.originalStart (pos - s.virtualStart) (by omega) (by omega)
  unfold verbatimPosition
  rw [toInt_clamp, hadd, hsub]
  omega

/-! ## positions -/

theorem mem_pushNew (results : List MappedPosition) (mapped m : MappedPosition) :
    m ∈ pushNew results mapped ↔ m ∈ results ∨ m = mapped := by
  unfold pushNew
  split
  · rename_i hmem
    constructor
    · exact Or.inl
    · intro h
      rcases h with h | rfl
      · exact h
      · exact hmem
  · rw [List.mem_append, List.mem_singleton]

theorem mem_foldl_pushNew (all results : List MappedPosition) (m : MappedPosition) :
    m ∈ all.foldl pushNew results ↔ m ∈ results ∨ m ∈ all := by
  induction all generalizing results with
  | nil => simp
  | cons mapped all ih =>
    rw [List.foldl_cons, ih, mem_pushNew, List.mem_cons]
    tauto

section
variable (L : Searches) (map : SpanMap)

theorem mem_positions {pos feature : Int32} {m : MappedPosition} :
    m ∈ originalToVirtualPositions L map pos feature ↔
      ∃ group ∈ (map.originalIndex L.segmentSort).segmentGroupsAtOriginalPosition L.segmentPoint pos,
        ∃ segment ∈ group.segments, supportsFeature segment feature = true ∧
          mappedPosition pos group.atEnd segment = m := by
  unfold originalToVirtualPositions
  rw [(L.positionSort.perm _ _).mem_iff, mem_foldl_pushNew, List.mem_flatMap]
  simp only [List.not_mem_nil, false_or, groupPositions, List.mem_map, List.mem_filter, and_assoc]

variable {map} (hvalid : Validated virtualText original map.segments)

include hvalid in
theorem mem_index {segment : SpanSegment} (h : segment ∈ (map.originalIndex L.segmentSort).segments) :
    Valid virtualText original segment :=
  hvalid.valid segment ((L.segmentSort.perm _ _).mem_iff.1 h)

include hvalid in
/-- a segment of a group is a segment of the map and touches the position -/
theorem mem_group {pos : Int32} {group : SegmentGroup}
    (hgroup : group ∈ (map.originalIndex L.segmentSort).segmentGroupsAtOriginalPosition L.segmentPoint pos)
    {segment : SpanSegment} (hsegment : segment ∈ group.segments) :
    Valid virtualText original segment ∧ touchesOriginal pos segment = true := by
  have hmem : segment ∈ ((map.originalIndex L.segmentSort).segmentGroupsAtOriginalPosition
      L.segmentPoint pos).flatMap SegmentGroup.segments := List.mem_flatMap.2 ⟨group, hgroup, hsegment⟩
  rw [groupsAt_eq L.segmentPoint L.segmentSort map hvalid.spread pos, List.mem_filter] at hmem
  exact ⟨mem_index L hvalid hmem.1, hmem.2⟩

include hvalid in
theorem position_nonneg {pos feature : Int32} {m : MappedPosition}
    (h : m ∈ originalToVirtualPositions L map pos feature) : 0 ≤ m.position.toInt := by
  obtain ⟨group, hgroup, segment, hsegment, -, rfl⟩ := (mem_positions L map).1 h
  obtain ⟨hvalid, -⟩ := mem_group L hvalid hgroup hsegment
  have hstart := hvalid.virtualStart
  have hle := hvalid.virtualLe
  unfold mappedPosition
  split
  · exact hstart.trans (toInt_virtualPosition_bounds pos _ hle).1
  · split
    · exact hstart.trans hle
    · exact hstart

include hvalid in
theorem positions_sorted (pos feature : Int32) :
    (originalToVirtualPositions L map pos feature).Pairwise fun a b => a.position.toInt ≤ b.position.toInt := by
  have hnonneg : ∀ m ∈ originalToVirtualPositions L map pos feature, 0 ≤ m.position.toInt :=
    fun m hm => position_nonneg L hvalid hm
  unfold originalToVirtualPositions at hnonneg ⊢
  dsimp only at hnonneg ⊢
  have hperm := L.positionSort.perm (fun a b => comparePositions a.position b.position)
    ((((map.originalIndex L.segmentSort).segmentGroupsAtOriginalPosition L.segmentPoint pos).flatMap
      (groupPositions pos feature)).foldl pushNew [])
  have heq : ∀ a b : MappedPosition, 0 ≤ a.position.toInt → 0 ≤ b.position.toInt →
      comparePositions a.position b.position = compare a.position.toInt b.position.toInt := by
    intro a b ha hb
    have h1 := a.position.toInt_lt
    have h2 := b.position.toInt_lt
    exact comparePositions_eq (by omega) (by omega)
  have horders : OrdersOn (fun a b : MappedPosition => comparePositions a.position b.position)
      ((((map.originalIndex L.segmentSort).segmentGroupsAtOriginalPosition L.segmentPoint pos).flatMap
      (groupPositions pos feature)).foldl pushNew []) := by
    refine ⟨?_, ?_⟩
    · intro a ha b hb
      have ha := hnonneg a (hperm.mem_iff.2 ha)
      have hb := hnonneg b (hperm.mem_iff.2 hb)
      rw [heq a b ha hb, heq b a hb ha]
      exact Std.OrientedCmp.eq_swap
    · intro a ha b hb d hd hab hbd
      have ha := hnonneg a (hperm.mem_iff.2 ha)
      have hb := hnonneg b (hperm.mem_iff.2 hb)
      have hd := hnonneg d (hperm.mem_iff.2 hd)
      rw [heq a b ha hb] at hab
      rw [heq b d hb hd] at hbd
      rw [heq a d ha hd]
      exact Std.TransCmp.isLE_trans hab hbd
  refine (L.positionSort.sorted _ _ horders).imp_of_mem ?_
  intro a b ha hb hab
  rw [heq a b (hnonneg a ha) (hnonneg b hb)] at hab
  exact compare_le_iff_le.1 (Ordering.isLE_iff_ne_gt.1 hab)

include hvalid in
/-- **there and back**, in any verbatim segment with the feature -/
theorem position_found {pos feature : Int32} (hs : s ∈ map.segments) (hkind : s.kind = kindVerbatim)
    (hfeature : supportsFeature s feature = true) (hstart : s.virtualStart.toInt ≤ pos.toInt)
    (hend : pos.toInt ≤ s.virtualEnd.toInt) :
    ⟨pos, .exact⟩ ∈ originalToVirtualPositions L map (verbatimPosition s pos) feature := by
  have hseg := hvalid.valid s hs
  have hposition := hseg.toInt_verbatimPosition hkind hstart hend
  have hlength := (hseg.verbatim hkind).1
  have htouches : touchesOriginal (verbatimPosition s pos) s = true := by
    rw [touchesOriginal, decide_eq_true_eq, Int32.le_iff_toInt_le, Int32.le_iff_toInt_le]
    omega
  have hmem : s ∈ ((map.originalIndex L.segmentSort).segmentGroupsAtOriginalPosition
      L.segmentPoint (verbatimPosition s pos)).flatMap SegmentGroup.segments := by
    rw [groupsAt_eq L.segmentPoint L.segmentSort map hvalid.spread, List.mem_filter]
    exact ⟨(L.segmentSort.perm _ _).mem_iff.2 hs, htouches⟩
  obtain ⟨group, hgroup, hsegment⟩ := List.mem_flatMap.1 hmem
  refine (mem_positions L map).2 ⟨group, hgroup, s, hsegment, hfeature, ?_⟩
  unfold mappedPosition
  rw [if_pos hkind]
  congr 1
  rw [← Int32.toInt_inj, hseg.toInt_virtualPosition hkind (by omega) (by omega) (by omega)]
  omega

end

/-! ## spans that are apart -/

/-- no position lies inside of both -/
def Apart (a b : MappedSpan) : Prop :=
  min a.span.stop.toInt b.span.stop.toInt ≤ max a.span.pos.toInt b.span.pos.toInt

/-- in order, and pairwise apart -/
structure InOrder (spans : List MappedSpan) : Prop where
  forward : ∀ m ∈ spans, m.span.pos.toInt ≤ m.span.stop.toInt
  sorted : spans.Pairwise fun a b => a.span.pos.toInt ≤ b.span.pos.toInt
  apart : spans.Pairwise Apart

theorem inOrder_nil : InOrder [] := by
  refine ⟨?_, List.Pairwise.nil, List.Pairwise.nil⟩
  intro m hm
  cases hm

/-- one behind the other -/
theorem inOrder_of_behind {spans : List MappedSpan} (hforward : ∀ m ∈ spans, m.span.pos.toInt ≤ m.span.stop.toInt)
    (h : spans.Pairwise fun a b => a.span.stop.toInt ≤ b.span.pos.toInt) : InOrder spans := by
  refine ⟨hforward, h.imp_of_mem ?_, h.imp ?_⟩
  · intro a b ha _ hab
    exact (hforward a ha).trans hab
  · intro a b hab
    unfold Apart
    omega

/-- points in order -/
theorem inOrder_points {positions : List MappedPosition}
    (h : positions.Pairwise fun a b => a.position.toInt ≤ b.position.toInt) :
    InOrder (positions.map fun m => ⟨⟨m.position, m.position⟩, m.fidelity⟩) := by
  refine inOrder_of_behind ?_ ?_
  · intro m hm
    obtain ⟨position, -, rfl⟩ := List.mem_map.1 hm
    exact le_refl _
  · rw [List.pairwise_map]
    exact h

/-! ## inside of the segments that contain the range -/

/-- the span lies in the segment -/
structure Within (segment : SpanSegment) (m : MappedSpan) : Prop where
  start : segment.virtualStart.toInt ≤ m.span.pos.toInt
  forward : m.span.pos.toInt ≤ m.span.stop.toInt
  stop : m.span.stop.toInt ≤ segment.virtualEnd.toInt

theorem Valid.within (h : Valid virtualText original s) (start stop : Int32) :
    Within s (spanInSegment start stop s) := by
  unfold spanInSegment
  split
  · have hstart := toInt_virtualPosition_bounds start s.virtualStart h.virtualLe
    have hstop := toInt_virtualPosition_bounds stop _ hstart.2
    exact ⟨hstart.1, hstop.1, hstop.2⟩
  · exact ⟨le_refl _, h.virtualLe, le_refl _⟩

theorem Valid.slice_spanInSegment (h : Valid virtualText original s) {start stop : Int32}
    (hstart : s.originalStart.toInt ≤ start.toInt) (hlt : start.toInt < stop.toInt)
    (hstop : stop.toInt ≤ s.originalEnd.toInt) (hexact : (spanInSegment start stop s).fidelity = .exact) :
    slice virtualText (spanInSegment start stop s).span.pos (spanInSegment start stop s).span.stop =
      slice original start stop := by
  by_cases hkind : s.kind = kindVerbatim
  · have hpos : (spanInSegment start stop s).span.pos.toInt =
        s.virtualStart.toInt + (start.toInt - s.originalStart.toInt) := by
      unfold spanInSegment
      rw [if_pos hkind]
      exact h.toInt_virtualPosition hkind hstart (by omega) (by omega)
    have hend : (spanInSegment start stop s).span.stop.toInt =
        s.virtualStart.toInt + (stop.toInt - s.originalStart.toInt) := by
      unfold spanInSegment at hpos ⊢
      rw [if_pos hkind] at hpos ⊢
      exact h.toInt_virtualPosition hkind (by omega) hstop (by dsimp only at hpos; omega)
    obtain ⟨hlength, hslice⟩ := h.verbatim hkind
    have h1 := h.virtualStart
    have h2 := h.originalStart
    obtain ⟨a, ha⟩ := Int.eq_ofNat_of_zero_le h1
    obtain ⟨b, hb⟩ := Int.eq_ofNat_of_zero_le (h1.trans h.virtualLe)
    obtain ⟨c, hc⟩ := Int.eq_ofNat_of_zero_le h2
    obtain ⟨d, hd⟩ := Int.eq_ofNat_of_zero_le (h2.trans h.originalLe)
    obtain ⟨i, hi⟩ := Int.eq_ofNat_of_zero_le (show 0 ≤ start.toInt - c by omega)
    obtain ⟨j, hj⟩ := Int.eq_ofNat_of_zero_le (show 0 ≤ stop.toInt - c by omega)
    rw [slice_eq ha hb, slice_eq hc hd] at hslice
    have hpart := slice_part (i := i) (j := j) hslice (by omega) (by omega)
    rw [slice_eq (show _ = ((a + i : Nat) : Int) by omega) (show _ = ((a + j : Nat) : Int) by omega),
      slice_eq (show start.toInt = ((c + i : Nat) : Int) by omega)
        (show stop.toInt = ((c + j : Nat) : Int) by omega),
      Nat.add_sub_add_left, Nat.add_sub_add_left, hpart]
  · unfold spanInSegment at hexact
    rw [if_neg hkind] at hexact
    cases hexact

/-- spans in segments that follow each other are apart -/
theorem apart_of_within {a b : SpanSegment} {m n : MappedSpan} (ha : Within a m) (hb : Within b n)
    (h : a.virtualEnd.toInt ≤ b.virtualStart.toInt ∨ b.virtualEnd.toInt ≤ a.virtualStart.toInt) : Apart m n := by
  have h1 := ha.start
  have h2 := ha.stop
  have h3 := hb.start
  have h4 := hb.stop
  unfold Apart
  omega

theorem compare_sub_zero (x y : Int) : compare (x - y) 0 = compare x y := by
  rcases lt_trichotomy x y with h | h | h
  · rw [compare_lt_iff_lt.2 h, compare_lt_iff_lt]
    omega
  · rw [compare_eq_iff_eq.2 h, compare_eq_iff_eq]
    omega
  · rw [compare_gt_iff_gt.2 h, compare_gt_iff_gt]
    omega

section
variable (L : Searches) {map : SpanMap} (hvalid : Validated virtualText original map.segments)

include hvalid in
/-- the segments of the index lie apart in the virtual text -/
theorem index_apart : (map.originalIndex L.segmentSort).segments.Pairwise fun a b =>
    a.virtualEnd.toInt ≤ b.virtualStart.toInt ∨ b.virtualEnd.toInt ≤ a.virtualStart.toInt := by
  refine ((L.segmentSort.perm _ _).pairwise_iff ?_).2 (hvalid.ordered.imp Or.inl)
  intro a b hab
  exact hab.symm

include hvalid in
theorem spans_in_segments {containing : List SpanSegment}
    (hsub : containing.Sublist (map.originalIndex L.segmentSort).segments) (start stop feature : Int32) :
    InOrder (L.spanSort.run (fun a b => compare (a.span.pos.toInt - b.span.pos.toInt) 0)
      (originalToVirtualSpansInSegments containing start stop feature)) := by
  have hperm := L.spanSort.perm (fun a b => compare (a.span.pos.toInt - b.span.pos.toInt) 0)
    (originalToVirtualSpansInSegments containing start stop feature)
  have hfilter : (containing.filter fun segment => supportsFeature segment feature).Sublist
      (map.originalIndex L.segmentSort).segments := List.filter_sublist.trans hsub
  refine ⟨?_, ?_, ?_⟩
  · intro m hm
    obtain ⟨segment, hsegment, rfl⟩ := List.mem_map.1 (hperm.mem_iff.1 hm)
    exact ((mem_index L hvalid (hfilter.subset hsegment)).within start stop).forward
  · refine (L.spanSort.sorted _ _ ⟨?_, ?_⟩).imp ?_
    · intro a _ b _
      rw [compare_sub_zero, compare_sub_zero]
      exact Std.OrientedCmp.eq_swap
    · intro a _ b _ d _ hab hbd
      rw [compare_sub_zero] at hab hbd ⊢
      exact Std.TransCmp.isLE_trans hab hbd
    · intro a b hab
      rw [compare_sub_zero] at hab
      exact compare_le_iff_le.1 (Ordering.isLE_iff_ne_gt.1 hab)
  · refine (hperm.pairwise_iff ?_).2 ?_
    · intro a b hab
      unfold Apart at hab ⊢
      omega
    · unfold originalToVirtualSpansInSegments
      rw [List.pairwise_map]
      refine ((index_apart L hvalid).sublist hfilter).imp_of_mem ?_
      intro a b ha hb hab
      exact apart_of_within ((mem_index L hvalid (hfilter.subset ha)).within start stop)
        ((mem_index L hvalid (hfilter.subset hb)).within start stop) hab

/-! ## between projections -/

theorem sortWords_sorted (words : List Int32) :
    (sortWords L words).Pairwise fun a b => a.toInt ≤ b.toInt := by
  refine (L.wordSort.sorted _ _ ⟨?_, ?_⟩).imp ?_
  · intro a _ b _
    exact Std.OrientedCmp.eq_swap
  · intro a _ b _ d _ hab hbd
    exact Std.TransCmp.isLE_trans hab hbd
  · intro a b hab
    exact compare_le_iff_le.1 (Ordering.isLE_iff_ne_gt.1 hab)

theorem partitioned_ends {ends : List Int32} (h : ends.Pairwise fun a b => a.toInt ≤ b.toInt) (start : Int32) :
    Partitioned (fun stop => decide (stop < start)) ends := by
  refine h.imp ?_
  intro a b hab hb
  rw [decide_eq_true_eq, Int32.lt_iff_toInt_lt] at hb ⊢
  omega

/-- the first end that is not in front of the start -/
theorem end_ge {ends : List Int32} (h : ends.Pairwise fun a b => a.toInt ≤ b.toInt) {start stop : Int32}
    (hstop : ends[L.wordPoint.index (fun stop => stop < start) ends]? = some stop) : start.toInt ≤ stop.toInt := by
  have hnot := (lt_index_iff L.wordPoint (partitioned_ends h start) hstop).not.1 (lt_irrefl _)
  rw [decide_eq_true_eq, Int32.lt_iff_toInt_lt] at hnot
  omega

structure Approximate (starts : List Int32) (spans : List MappedSpan) : Prop where
  start : ∀ m ∈ spans, m.span.pos ∈ starts
  forward : ∀ m ∈ spans, m.span.pos.toInt ≤ m.span.stop.toInt
  behind : spans.Pairwise fun a b => a.span.stop.toInt ≤ b.span.pos.toInt
  fidelity : ∀ m ∈ spans, m.fidelity = .approximate

theorem approximateSpans_spec {ends : List Int32} (hends : ends.Pairwise fun a b => a.toInt ≤ b.toInt)
    (starts : List Int32) (hstarts : starts.Pairwise fun a b => a.toInt ≤ b.toInt) :
    Approximate starts (approximateSpans L ends starts) := by
  induction starts with
  | nil =>
    refine ⟨?_, ?_, List.Pairwise.nil, ?_⟩ <;> intro m hm <;> cases hm
  | cons start starts ih =>
    obtain ⟨hle, hstarts⟩ := List.pairwise_cons.1 hstarts
    have hrest := ih hstarts
    have hskip : Approximate (start :: starts) (approximateSpans L ends starts) :=
      ⟨fun m hm => List.mem_cons_of_mem _ (hrest.start m hm), hrest.forward, hrest.behind, hrest.fidelity⟩
    unfold approximateSpans
    split
    · exact hskip
    · rename_i stop hstop
      split
      · exact hskip
      · rename_i hnext
        -- the starts of the spans behind are not in front of the next start
        have hbehind : ∀ m ∈ approximateSpans L ends starts, stop.toInt ≤ m.span.pos.toInt := by
          intro m hm
          have hmem := hrest.start m hm
          cases starts with
          | nil => cases hmem
          | cons next starts =>
            rw [List.head?_cons, Option.any_some, decide_eq_true_eq, Int32.le_iff_toInt_le, not_le] at hnext
            rcases List.mem_cons.1 hmem with heq | hmem
            · rw [heq]
              omega
            · have := (List.pairwise_cons.1 hstarts).1 _ hmem
              omega
        refine ⟨?_, ?_, List.pairwise_cons.2 ⟨hbehind, hrest.behind⟩, ?_⟩
        · intro m hm
          rcases List.mem_cons.1 hm with rfl | hm
          · exact List.mem_cons_self
          · exact hskip.start m hm
        · intro m hm
          rcases List.mem_cons.1 hm with rfl | hm
          · exact end_ge L hends hstop
          · exact hrest.forward m hm
        · intro m hm
          rcases List.mem_cons.1 hm with rfl | hm
          · rfl
          · exact hrest.fidelity m hm

/-! ## a range -/

theorem slice_nil (text : List UInt8) {start stop : Int32} (h : stop.toInt ≤ start.toInt) :
    slice text start stop = [] := by
  unfold slice
  rw [← Int32.toNat_toInt, ← Int32.toNat_toInt, Nat.sub_eq_zero_of_le (by omega), List.take_zero]

include hvalid in
theorem spans_spec (range : TextRange) (feature : Int32) :
    InOrder (originalToVirtualSpans L map range feature) ∧
      ∀ m ∈ originalToVirtualSpans L map range feature, m.fidelity = .exact →
        slice virtualText m.span.pos m.span.stop = slice original range.pos range.stop := by
  have hbounds : virtualBounds range = (range.pos, max range.stop range.pos) := rfl
  unfold originalToVirtualSpans
  rw [hbounds]
  dsimp only
  split
  · rename_i hempty
    refine ⟨inOrder_points (positions_sorted L hvalid _ _), ?_⟩
    intro m hm _
    obtain ⟨position, -, rfl⟩ := List.mem_map.1 hm
    have hle : range.stop.toInt ≤ range.pos.toInt := by
      rw [← Int32.toInt_inj, toInt_max] at hempty
      omega
    rw [slice_nil original hle, slice_nil virtualText (le_refl _)]
  · rename_i hne
    have hlt : range.pos.toInt < range.stop.toInt := by
      rw [← Int32.toInt_inj, toInt_max] at hne
      omega
    have hmax : max range.stop range.pos = range.stop := by
      rw [← Int32.toInt_inj, toInt_max]
      omega
    rw [hmax]
    split
    · refine ⟨inOrder_nil, ?_⟩
      intro m hm
      cases hm
    · split
      · rw [segmentsAt_eq L.segmentPoint L.segmentSort map hvalid.spread]
        have hsub : (((map.originalIndex L.segmentSort).segments.filter (containsOriginal range.pos)).filter
            fun segment => decide (range.stop ≤ segment.originalEnd)).Sublist
            (map.originalIndex L.segmentSort).segments := List.filter_sublist.trans List.filter_sublist
        refine ⟨spans_in_segments L hvalid hsub _ _ _, ?_⟩
        intro m hm hexact
        obtain ⟨segment, hsegment, rfl⟩ := List.mem_map.1 ((L.spanSort.perm _ _).mem_iff.1 hm)
        obtain ⟨hcontaining, -⟩ := List.mem_filter.1 hsegment
        obtain ⟨hcontains, hend⟩ := List.mem_filter.1 hcontaining
        obtain ⟨hindex, hstart⟩ := List.mem_filter.1 hcontains
        rw [containsOriginal_iff] at hstart
        rw [decide_eq_true_eq, Int32.le_iff_toInt_le] at hend
        exact (mem_index L hvalid hindex).slice_spanInSegment hstart.1 hlt hend hexact
      · have hspec := approximateSpans_spec L (sortWords_sorted L (originalEndProjections
          ((map.originalIndex L.segmentSort).segmentsAtOriginalPosition L.segmentPoint (range.stop - 1)).1
          range.stop feature)) _ (sortWords_sorted L (originalStartProjections
          ((map.originalIndex L.segmentSort).segmentsAtOriginalPosition L.segmentPoint range.pos).1
          range.pos feature))
        refine ⟨inOrder_of_behind hspec.forward hspec.behind, ?_⟩
        intro m hm hexact
        rw [hspec.fidelity m hm] at hexact
        cases hexact

end

/-- **both directions of a validated map.**  A virtual position in a verbatim segment with the feature is
among the projections of its original, also if the map itself looks the segment up; the spans of an
original range are in order and pairwise apart, and exact ones have the text of the range -/
theorem original_to_virtual (L : Searches) (map : SpanMap) (virtualText original : List UInt8)
    (hvalid : map.validate virtualText original = none) (feature : Int32) :
    (∀ s ∈ map.segments, s.kind = kindVerbatim → supportsFeature s feature = true → ∀ pos : Int32,
      s.virtualStart ≤ pos → pos ≤ s.virtualEnd →
        ⟨pos, .exact⟩ ∈ originalToVirtualPositions L map (verbatimPosition s pos) feature) ∧
    (∀ pos o : Int32, 0 ≤ pos → ∀ fidelity i s, segmentAt L.segmentPoint map.segments pos = (some i, true) →
      map.segments[i]? = some s → s.kind = kindVerbatim → supportsFeature s feature = true →
      virtualToOriginalPosition L.segmentPoint map.segments pos = some (o, fidelity) →
        ⟨pos, .exact⟩ ∈ originalToVirtualPositions L map o feature) ∧
    ∀ range : TextRange, InOrder (originalToVirtualSpans L map range feature) ∧
      ∀ m ∈ originalToVirtualSpans L map range feature, m.fidelity = .exact →
        slice virtualText m.span.pos m.span.stop = slice original range.pos range.stop := by
  have hvalidated := validate_none hvalid
  refine ⟨?_, ?_, fun range => spans_spec L hvalidated range feature⟩
  · intro s hs hkind hfeature pos hstart hend
    exact position_found L hvalidated hs hkind hfeature (Int32.le_iff_toInt_le.1 hstart)
      (Int32.le_iff_toInt_le.1 hend)
  · intro pos o hpos fidelity i s hfound hs hkind hfeature hmapped
    obtain ⟨t, ht, hinside⟩ := found_cases L.segmentPoint hvalidated (Int32.le_iff_toInt_le.1 hpos) hfound
    rw [hs] at ht
    cases ht
    have hle := (hvalidated.get hs).virtualLe
    have hbounds : s.virtualStart.toInt ≤ pos.toInt ∧ pos.toInt ≤ s.virtualEnd.toInt := by
      rcases hinside with ⟨rfl, -⟩ | ⟨hstart, hend | ⟨-, hend⟩⟩ <;> omega
    have ho : o = verbatimPosition s pos := by
      unfold virtualToOriginalPosition at hmapped
      rw [hfound] at hmapped
      dsimp only at hmapped
      rw [if_neg (fun h => nomatch h), Option.bind_some, hs, Option.map_some, if_pos hkind] at hmapped
      cases hmapped
      rfl
    rw [ho]
    exact position_found L hvalidated (List.mem_of_getElem? hs) hkind hfeature hbounds.1 hbounds.2

/-- the searches by counting, the sorts by insertion -/
def counting : Searches where
  segmentPoint := .counting _
  segmentSort := .insertion _
  positionSort := .insertion _
  spanSort := .insertion _
  wordSort := .insertion _
  wordPoint := .counting _

/-- two verbatim segments show the same three bytes, from 2 on -/
def twice : SpanMap :=
  .new (.insertion _) [⟨0, 3, 2, 5, kindVerbatim, featureAll⟩, ⟨4, 7, 2, 5, kindVerbatim, featureAll⟩]

theorem original_to_virtual_twice :
    originalToVirtualSpans counting twice ⟨3, 5⟩ featureAll = [⟨⟨1, 3⟩, .exact⟩, ⟨⟨5, 7⟩, .exact⟩] ∧
      InOrder (originalToVirtualSpans counting twice ⟨3, 5⟩ featureAll) ∧
      ⟨1, .exact⟩ ∈ originalToVirtualPositions counting twice (verbatimPosition ⟨0, 3, 2, 5, kindVerbatim, featureAll⟩ 1)
        featureAll := by
  have h := original_to_virtual counting twice [97, 98, 99, 44, 97, 98, 99] [47, 47, 97, 98, 99]
    (by decide +kernel) featureAll
  refine ⟨by decide +kernel, (h.2.2 ⟨3, 5⟩).1, ?_⟩
  exact h.1 _ (by decide +kernel) rfl (by decide +kernel) 1 (by decide) (by decide)

end Tsr.Ast
