import Tsr.Ast.SpanMap

/-!
# Exact spans

A validated map keeps its segments in order and the two sides of a verbatim segment the same.

* `Valid`, `validate_none`      what validation leaves of a segment, and of two that follow;
* `segmentAt_start`, `segmentAt_behind`   which segment is found;
* `exactSlice_iff`              an exact span has the bytes of the virtual range, if the range does not
                                run past the verbatim segment it is found in.
-/

set_option linter.unusedSectionVars false

namespace Tsr.Ast
open Tsr.Lib.Search

/-! ## words as integers -/

theorem toInt_max (a b : Int32) : (max a b).toInt = max a.toInt b.toInt := by
  show (if a ≤ b then b else a).toInt = _
  by_cases h : a ≤ b
  · rw [if_pos h, max_eq_right (Int32.le_iff_toInt_le.1 h)]
  · rw [if_neg h]
    rw [Int32.le_iff_toInt_le] at h
    omega

theorem toInt_min (a b : Int32) : (min a b).toInt = min a.toInt b.toInt := by
  show (if a ≤ b then a else b).toInt = _
  by_cases h : a ≤ b
  · rw [if_pos h, min_eq_left (Int32.le_iff_toInt_le.1 h)]
  · rw [if_neg h]
    rw [Int32.le_iff_toInt_le] at h
    omega

theorem toInt_clamp (v low high : Int32) :
    (clamp v low high).toInt = max (min v.toInt high.toInt) low.toInt := by
  rw [clamp, toInt_max, toInt_min]

/-- a sum that fits -/
theorem toInt_add_of (a b : Int32) (hlo : -2 ^ 31 ≤ a.toInt + b.toInt) (hhi : a.toInt + b.toInt < 2 ^ 31) :
    (a + b).toInt = a.toInt + b.toInt := by
  rw [Int32.toInt_add]
  exact Int.bmod_eq_of_le (by omega) (by omega)

/-- a difference that fits -/
theorem toInt_sub_of (a b : Int32) (hlo : -2 ^ 31 ≤ a.toInt - b.toInt) (hhi : a.toInt - b.toInt < 2 ^ 31) :
    (a - b).toInt = a.toInt - b.toInt := by
  rw [Int32.toInt_sub]
  exact Int.bmod_eq_of_le (by omega) (by omega)

theorem toInt_textLength (text : List UInt8) :
    (textLength text).toInt = min (text.length : Int) (2 ^ 31 - 1) := by
  rw [textLength]
  by_cases h : text.length < 2 ^ 31
  · rw [if_pos h, Int32.toInt_ofNat_of_lt h]
    omega
  · rw [if_neg h, Int32.toInt_maxValue]
    omega

theorem slice_eq {text : List UInt8} {start stop : Int32} {a b : Nat} (ha : start.toInt = a)
    (hb : stop.toInt = b) : slice text start stop = (text.drop a).take (b - a) := by
  rw [slice, ← Int32.toNat_toInt, ← Int32.toNat_toInt, ha, hb, Int.toNat_natCast, Int.toNat_natCast]

/-! ## validated segments -/

/-- what validation leaves of a segment -/
structure Valid (virtualText original : List UInt8) (s : SpanSegment) : Prop where
  virtualStart : 0 ≤ s.virtualStart.toInt
  virtualLe : s.virtualStart.toInt ≤ s.virtualEnd.toInt
  virtualEnd : s.virtualEnd.toInt ≤ virtualText.length
  originalStart : 0 ≤ s.originalStart.toInt
  originalLe : s.originalStart.toInt ≤ s.originalEnd.toInt
  originalEnd : s.originalEnd.toInt ≤ original.length
  verbatim : s.kind = kindVerbatim →
    s.virtualEnd.toInt - s.virtualStart.toInt = s.originalEnd.toInt - s.originalStart.toInt ∧
      slice virtualText s.virtualStart s.virtualEnd = slice original s.originalStart s.originalEnd

variable {virtualText original : List UInt8} {previous : Int32} {s : SpanSegment}
  {segments : List SpanSegment}

theorem validateSegment_none (hprevious : 0 ≤ previous.toInt)
    (h : validateSegment virtualText original previous s = none) :
    Valid virtualText original s ∧ previous.toInt ≤ s.virtualStart.toInt := by
  rw [validateSegment] at h
  dsimp only at h
  split_ifs at h with h1 h2 h3 h4 h5
  simp only [not_or, Int32.lt_iff_toInt_lt, toInt_textLength, not_lt] at h1 h2
  obtain ⟨hstart, hle, hend⟩ := h1
  obtain ⟨hostart, hole, hoend⟩ := h2
  have hzero : (0 : Int32).toInt = 0 := rfl
  rw [hzero] at hostart
  refine ⟨⟨by omega, hle, by omega, hostart, hole, by omega, ?_⟩, hstart⟩
  intro hkind
  rw [not_and, not_or, not_not, not_not] at h4
  obtain ⟨hlength, hslice⟩ := h4 hkind
  refine ⟨?_, hslice⟩
  have hv := toInt_sub_of s.virtualEnd s.virtualStart (by omega) (by omega)
  have ho := toInt_sub_of s.originalEnd s.originalStart (by omega) (by omega)
  rw [← hv, ← ho, hlength]

/-- what validation leaves of the segments -/
structure Validated (virtualText original : List UInt8) (segments : List SpanSegment) : Prop where
  valid : ∀ s ∈ segments, Valid virtualText original s
  ordered : segments.Pairwise fun a b => a.virtualEnd.toInt ≤ b.virtualStart.toInt

theorem validateSegments_none (hprevious : 0 ≤ previous.toInt)
    (h : validateSegments virtualText original previous segments = none) :
    Validated virtualText original segments ∧
      ∀ s ∈ segments, previous.toInt ≤ s.virtualStart.toInt := by
  induction segments generalizing previous with
  | nil =>
    refine ⟨⟨?_, List.Pairwise.nil⟩, ?_⟩
    · intro s hs
      cases hs
    · intro s hs
      cases hs
  | cons s segments ih =>
    rw [validateSegments] at h
    split at h
    next => cases h
    next hsegment =>
      obtain ⟨hvalid, hle⟩ := validateSegment_none hprevious hsegment
      have hstart := hvalid.virtualStart
      have hlen := hvalid.virtualLe
      obtain ⟨hrest, hfrom⟩ := ih (by omega) h
      refine ⟨⟨?_, List.pairwise_cons.2 ⟨hfrom, hrest.ordered⟩⟩, ?_⟩
      · intro t ht
        rcases List.mem_cons.1 ht with rfl | ht
        · exact hvalid
        · exact hrest.valid t ht
      · intro t ht
        rcases List.mem_cons.1 ht with rfl | ht
        · exact hle
        · have := hfrom t ht
          omega

theorem validate_none {map : SpanMap} (h : map.validate virtualText original = none) :
    Validated virtualText original map.segments :=
  (validateSegments_none (by decide) h).1

/-! ## the segment at a position -/

section
variable (P : PartitionPoint SpanSegment) (h : Validated virtualText original segments) {pos : Int32}

theorem sub_neg_iff {a b : Int32} (ha : 0 ≤ a.toInt) (hb : 0 ≤ b.toInt) :
    a - b < 0 ↔ a.toInt < b.toInt := by
  have h1 := a.toInt_lt
  have h2 := b.toInt_lt
  have hzero : (0 : Int32).toInt = 0 := rfl
  rw [Int32.lt_iff_toInt_lt, toInt_sub_of a b (by omega) (by omega), hzero]
  omega

include h in
theorem Validated.get {i : Nat} (hs : segments[i]? = some s) : Valid virtualText original s :=
  h.valid s (List.mem_of_getElem? hs)

include h in
theorem Validated.le {i j : Nat} {t : SpanSegment} (hij : i < j) (hs : segments[i]? = some s)
    (ht : segments[j]? = some t) : s.virtualEnd.toInt ≤ t.virtualStart.toInt := by
  obtain ⟨hi, rfl⟩ := List.getElem?_eq_some_iff.1 hs
  obtain ⟨hj, rfl⟩ := List.getElem?_eq_some_iff.1 ht
  exact List.pairwise_iff_getElem.1 h.ordered i j hi hj hij

include h in
theorem partitioned_start (hpos : 0 ≤ pos.toInt) :
    Partitioned (fun s : SpanSegment => decide (s.virtualStart - pos < 0)) segments := by
  refine h.ordered.imp_of_mem ?_
  intro a b ha hb hab hb'
  have hva := h.valid a ha
  have hvb := h.valid b hb
  have h1 := hva.virtualStart
  have h2 := hva.virtualLe
  rw [decide_eq_true_eq, sub_neg_iff hvb.virtualStart hpos] at hb'
  rw [decide_eq_true_eq, sub_neg_iff hva.virtualStart hpos]
  omega

/-- the number of segments that start in front of a position -/
def frontCount (segments : List SpanSegment) (pos : Int32) : Nat :=
  P.index (fun s => s.virtualStart - pos < 0) segments

/-- the segment found, in terms of the count -/
theorem segmentAt_frontCount : segmentAt P segments pos =
    if (segments[frontCount P segments pos]?.any fun s => s.virtualStart = pos) = true then
      (some (frontCount P segments pos), true)
    else
      let previous := if frontCount P segments pos = 0 then none else some (frontCount P segments pos - 1)
      let inside := (previous.bind fun i => segments[i]?.map fun s =>
        decide (pos < s.virtualEnd) || (i + 1 == segments.length && decide (pos = s.virtualEnd))).getD false
      (previous, inside) := rfl

include h in
theorem lt_frontCount (hpos : 0 ≤ pos.toInt) {i : Nat} (hs : segments[i]? = some s) :
    i < frontCount P segments pos ↔ s.virtualStart.toInt < pos.toInt := by
  show i < P.index (fun s => s.virtualStart - pos < 0) segments ↔ _
  rw [lt_index_iff P (partitioned_start h hpos) hs, decide_eq_true_eq,
    sub_neg_iff (h.get hs).virtualStart hpos]

include h in
/-- the first segment that starts at the position -/
theorem segmentAt_start (hpos : 0 ≤ pos.toInt) {i : Nat} (hs : segments[i]? = some s)
    (hstart : s.virtualStart = pos) (hfirst : ∀ j t, j < i → segments[j]? = some t → t.virtualStart ≠ pos) :
    segmentAt P segments pos = (some i, true) := by
  have hcount : frontCount P segments pos = i := by
    refine Nat.le_antisymm ?_ ?_
    · by_contra hlt
      have := (lt_frontCount P h hpos hs).1 (Nat.not_le.1 hlt)
      rw [hstart] at this
      omega
    · by_contra hlt
      have hi := (List.getElem?_eq_some_iff.1 hs).1
      have hget := List.getElem?_eq_getElem (Nat.lt_trans (Nat.not_le.1 hlt) hi)
      have hge := (lt_frontCount P h hpos hget).not.1 (Nat.lt_irrefl _)
      have hle := h.le (Nat.not_le.1 hlt) hget hs
      have hlen := (h.get hget).virtualLe
      refine hfirst _ _ (Nat.not_le.1 hlt) hget ?_
      apply Int32.toInt_inj.1
      rw [hstart] at hle
      omega
  rw [segmentAt_frontCount, hcount, if_pos]
  rw [hs, Option.any_some, hstart]
  exact decide_eq_true rfl

include h in
/-- behind the start of a segment, and in front of the start of the next one -/
theorem segmentAt_behind (hpos : 0 ≤ pos.toInt) {i : Nat} (hs : segments[i]? = some s)
    (hstart : s.virtualStart.toInt < pos.toInt)
    (hnext : ∀ t, segments[i + 1]? = some t → pos.toInt < t.virtualStart.toInt) :
    segmentAt P segments pos =
      (some i, decide (pos < s.virtualEnd) || (i + 1 == segments.length && decide (pos = s.virtualEnd))) := by
  have hi := (List.getElem?_eq_some_iff.1 hs).1
  have hcount : frontCount P segments pos = i + 1 := by
    have hlt := (lt_frontCount P h hpos hs).2 hstart
    refine Nat.le_antisymm ?_ hlt
    by_contra hgt
    have hle : frontCount P segments pos ≤ segments.length := index_le P (partitioned_start h hpos)
    have hget := List.getElem?_eq_getElem (show i + 1 < segments.length by omega)
    have h1 := (lt_frontCount P h hpos hget).1 (by omega)
    have h2 := hnext _ hget
    omega
  rw [segmentAt_frontCount]
  dsimp only
  rw [hcount, if_neg, if_neg (Nat.succ_ne_zero i), Nat.add_sub_cancel, Option.bind_some, hs]
  · rfl
  · cases hget : segments[i + 1]? with
    | none =>
      intro hany
      cases hany
    | some t =>
      rw [Option.any_some, decide_eq_true_eq]
      intro heq
      have := hnext t hget
      rw [heq] at this
      omega

include h in
/-- a segment is found where it starts, inside of it, and at the end of the last -/
theorem found_cases (hpos : 0 ≤ pos.toInt) {i : Nat} (hfound : segmentAt P segments pos = (some i, true)) :
    ∃ s, segments[i]? = some s ∧
      ((s.virtualStart = pos ∧ ∀ j t, j < i → segments[j]? = some t → t.virtualStart ≠ pos) ∨
        (s.virtualStart.toInt < pos.toInt ∧ (pos.toInt < s.virtualEnd.toInt ∨
          i + 1 = segments.length ∧ pos.toInt = s.virtualEnd.toInt))) := by
  have hlt := fun j t (ht : segments[j]? = some t) => lt_frontCount P h hpos ht
  rw [segmentAt_frontCount] at hfound
  dsimp only at hfound
  generalize frontCount P segments pos = k at hfound hlt
  split_ifs at hfound with hany hzero
  · cases hfound
    cases hs : segments[i]? with
    | none =>
      rw [hs] at hany
      cases hany
    | some s =>
      rw [hs, Option.any_some, decide_eq_true_eq] at hany
      refine ⟨s, rfl, Or.inl ⟨hany, ?_⟩⟩
      intro j t hj ht heq
      have := (hlt j t ht).1 hj
      rw [heq] at this
      omega
  · cases hfound
  · rw [Option.bind_some] at hfound
    obtain ⟨hindex, hinside⟩ := Prod.mk.inj hfound
    obtain rfl := Option.some.inj hindex
    cases hs : segments[k - 1]? with
    | none =>
      rw [hs] at hinside
      cases hinside
    | some s =>
      rw [hs, Option.map_some, Option.getD_some, Bool.or_eq_true, Bool.and_eq_true, beq_iff_eq,
        decide_eq_true_eq, decide_eq_true_eq, Int32.lt_iff_toInt_lt] at hinside
      refine ⟨s, rfl, Or.inr ⟨(hlt _ s hs).1 (by omega), ?_⟩⟩
      rcases hinside with hin | ⟨hlast, heq⟩
      · exact Or.inl hin
      · exact Or.inr ⟨hlast, by rw [heq]⟩

end

/-! ## exact spans -/

section
variable (P : PartitionPoint SpanSegment)

/-- the claim of an exact span: it lies in the original text and has the bytes of the range -/
def ExactSlice (map : SpanMap) (virtualText original : List UInt8) (range : TextRange) : Prop :=
  ∀ r, map.virtualToOriginalSpan P range = some (r, .exact) →
    0 ≤ r.pos ∧ r.pos ≤ r.stop ∧ r.stop.toInt ≤ original.length ∧
      slice original r.pos r.stop = slice virtualText range.pos range.stop

/-- the range runs past the verbatim segment it is found in: one byte at an empty segment, the first
that starts there, or one byte past the end of the last segment -/
def RunsPast (segments : List SpanSegment) (range : TextRange) : Prop :=
  ∃ i s, segments[i]? = some s ∧ s.kind = kindVerbatim ∧ s.virtualStart ≤ range.pos ∧
    range.stop.toInt = s.virtualEnd.toInt + 1 ∧
    (∀ j t, j < i → segments[j]? = some t → t.virtualStart ≠ range.pos) ∧
    (s.virtualStart = s.virtualEnd ∨ i + 1 = segments.length)

variable {map : SpanMap} {range : TextRange}
  (h : Validated virtualText original map.segments) (h0 : 0 ≤ range.pos.toInt)
  (hlt : range.pos.toInt < range.stop.toInt)

theorem toInt_sub_one {a : Int32} (h : 0 < a.toInt) : (a - 1).toInt = a.toInt - 1 := by
  have hone : (1 : Int32).toInt = 1 := rfl
  have hbound := a.toInt_lt
  rw [toInt_sub_of a 1 (by omega) (by omega), hone]

include h h0 hlt in
/-- the segment that is run past is found at both ends -/
theorem RunsPast.found (hr : RunsPast map.segments range) :
    ∃ i s, segmentAt P map.segments range.pos = (some i, true) ∧
      segmentAt P map.segments (range.stop - 1) = (some i, true) ∧ map.segments[i]? = some s ∧
      s.kind = kindVerbatim ∧ range.stop.toInt = s.virtualEnd.toInt + 1 := by
  obtain ⟨i, s, hs, hkind, hle, hstop, hfirst, hend⟩ := hr
  rw [Int32.le_iff_toInt_le] at hle
  have hlast := toInt_sub_one (a := range.stop) (by omega)
  have hlen := (h.get hs).virtualLe
  have hnone : i + 1 = map.segments.length → ∀ (p : Int32) t, map.segments[i + 1]? = some t →
      p.toInt < t.virtualStart.toInt := by
    intro hi p t ht
    rw [List.getElem?_eq_none (by omega)] at ht
    cases ht
  refine ⟨i, s, ?_, ?_, hs, hkind, hstop⟩
  · by_cases heq : s.virtualStart = range.pos
    · exact segmentAt_start P h h0 hs heq hfirst
    · have hne : s.virtualStart.toInt ≠ range.pos.toInt := fun h' => heq (Int32.toInt_inj.1 h')
      rcases hend with hempty | hi
      · rw [hempty] at hle hne
        omega
      · rw [segmentAt_behind P h h0 hs (by omega) (hnone hi range.pos)]
        congr 1
        rw [Bool.or_eq_true, Bool.and_eq_true, beq_iff_eq, decide_eq_true_eq, decide_eq_true_eq,
          Int32.lt_iff_toInt_lt]
        rcases Int.lt_or_eq_of_le (show range.pos.toInt ≤ s.virtualEnd.toInt by omega) with hin | hin
        · exact Or.inl hin
        · exact Or.inr ⟨hi, Int32.toInt_inj.1 hin⟩
  · have hsame : range.stop - 1 = s.virtualEnd := Int32.toInt_inj.1 (by omega)
    rw [hsame]
    by_cases hempty : s.virtualStart = s.virtualEnd
    · refine segmentAt_start P h (by rw [← hempty]; exact (h.get hs).virtualStart) hs hempty ?_
      have hpos : range.pos = s.virtualEnd := by
        apply Int32.toInt_inj.1
        rw [hempty] at hle
        omega
      rw [← hpos]
      exact hfirst
    · have hne : s.virtualStart.toInt ≠ s.virtualEnd.toInt := fun h' => hempty (Int32.toInt_inj.1 h')
      have hi := hend.resolve_left hempty
      rw [segmentAt_behind P h (by have := (h.get hs).virtualStart; omega) hs (by omega)
        (hnone hi s.virtualEnd)]
      congr 1
      rw [Bool.or_eq_true, Bool.and_eq_true, beq_iff_eq]
      exact Or.inr ⟨hi, decide_eq_true rfl⟩

include h h0 hlt in
/-- a segment that is found at both ends contains the range, if it is not run past -/
theorem contains_of_found {i : Nat} (hstart : segmentAt P map.segments range.pos = (some i, true))
    (hlast : segmentAt P map.segments (range.stop - 1) = (some i, true)) :
    ∃ s, map.segments[i]? = some s ∧ s.virtualStart.toInt ≤ range.pos.toInt ∧
      (s.kind = kindVerbatim → ¬ RunsPast map.segments range →
        range.stop.toInt ≤ s.virtualEnd.toInt) := by
  have hsub := toInt_sub_one (a := range.stop) (by omega)
  obtain ⟨s, hs, hcase⟩ := found_cases P h h0 hstart
  obtain ⟨s', hs', hcase'⟩ := found_cases P h (by omega) hlast
  obtain rfl := Option.some.inj (hs.symm.trans hs')
  have hlen := (h.get hs).virtualLe
  have hle : s.virtualStart.toInt ≤ range.pos.toInt := by
    rcases hcase with ⟨heq, -⟩ | ⟨hin, -⟩
    · rw [heq]
    · exact hin.le
  refine ⟨s, hs, hle, ?_⟩
  intro hkind hpast
  by_contra hgt
  have hfirst : ∀ j t, j < i → map.segments[j]? = some t → t.virtualStart ≠ range.pos := by
    rcases hcase with ⟨-, hfirst⟩ | ⟨hin, -⟩
    · exact hfirst
    · intro j t hj ht heq
      have h1 := h.le hj ht hs
      have h2 := (h.get ht).virtualLe
      rw [heq] at h2
      omega
  refine hpast ⟨i, s, hs, hkind, Int32.le_iff_toInt_le.2 hle, ?_, hfirst, ?_⟩
  · rcases hcase' with ⟨heq, -⟩ | ⟨hin, hin' | ⟨hi, heq⟩⟩
    · rw [heq] at hlen hle
      omega
    · omega
    · omega
  · rcases hcase' with ⟨heq, -⟩ | ⟨hin, hin' | ⟨hi, heq⟩⟩
    · left
      apply Int32.toInt_inj.1
      rw [heq] at hlen hle ⊢
      omega
    · omega
    · exact Or.inr hi

include h0 hlt in
theorem virtualBounds_eq : virtualBounds range = (range.pos, range.stop) := by
  rw [virtualBounds]
  congr 1
  apply Int32.toInt_inj.1
  rw [toInt_max]
  omega

include h0 hlt in
/-- an exact span comes from a verbatim segment that is found at both ends -/
theorem exact_found {r : TextRange} (hr : map.virtualToOriginalSpan P range = some (r, .exact)) :
    ∃ i s, segmentAt P map.segments range.pos = (some i, true) ∧
      segmentAt P map.segments (range.stop - 1) = (some i, true) ∧ map.segments[i]? = some s ∧
      s.kind = kindVerbatim ∧ segmentSpan s range.pos range.stop = (r, .exact) := by
  rw [SpanMap.virtualToOriginalSpan, virtualBounds_eq h0 hlt] at hr
  dsimp only at hr
  rw [if_neg (by intro heq; rw [heq] at hlt; omega)] at hr
  split_ifs at hr with hsame hinside
  · obtain ⟨hindex, hin⟩ := hsame
    obtain ⟨i, hi, hspan⟩ := Option.bind_eq_some_iff.1 hr
    obtain ⟨s, hs, hspan⟩ := Option.map_eq_some_iff.1 hspan
    refine ⟨i, s, Prod.ext hi hinside, Prod.ext (hindex ▸ hi) (hin ▸ hinside), hs, ?_, hspan⟩
    by_contra hkind
    rw [segmentSpan, if_neg hkind] at hspan
    cases hspan
  · obtain ⟨p, -, hp⟩ := Option.map_eq_some_iff.1 hr
    cases hp
  · obtain ⟨low, -, hlow⟩ := Option.bind_eq_some_iff.1 hr
    obtain ⟨high, -, hhigh⟩ := Option.map_eq_some_iff.1 hlow
    cases hhigh

include h0 hlt in
theorem span_of_found {i : Nat} {s : SpanSegment}
    (hstart : segmentAt P map.segments range.pos = (some i, true))
    (hlast : segmentAt P map.segments (range.stop - 1) = (some i, true))
    (hs : map.segments[i]? = some s) :
    map.virtualToOriginalSpan P range = some (segmentSpan s range.pos range.stop) := by
  rw [SpanMap.virtualToOriginalSpan, virtualBounds_eq h0 hlt]
  dsimp only
  rw [if_neg (by intro heq; rw [heq] at hlt; omega), hstart, hlast]
  dsimp only
  rw [if_pos ⟨rfl, rfl⟩, if_pos rfl, Option.bind_some, hs, Option.map_some]

/-! ## the bytes of a span -/

/-- a span in a verbatim segment; its end is that of the range if the segment goes so far -/
theorem toInt_segmentSpan (hs : Valid virtualText original s) (hkind : s.kind = kindVerbatim)
    {start stop : Int32} {r : TextRange} (hstart : s.virtualStart.toInt ≤ start.toInt)
    (hle : start.toInt ≤ s.virtualEnd.toInt) (hlt : start.toInt < stop.toInt)
    (hr : segmentSpan s start stop = (r, .exact)) :
    r.pos.toInt = s.originalStart.toInt + (start.toInt - s.virtualStart.toInt) ∧
      r.pos.toInt ≤ r.stop.toInt ∧ r.stop.toInt ≤ s.originalEnd.toInt ∧
      (stop.toInt ≤ s.virtualEnd.toInt →
        r.stop.toInt = s.originalStart.toInt + (stop.toInt - s.virtualStart.toInt)) := by
  obtain ⟨hlength, -⟩ := hs.verbatim hkind
  have h1 := hs.virtualStart
  have h2 := hs.originalStart
  have h3 := s.originalEnd.toInt_lt
  have h4 := s.virtualEnd.toInt_lt
  rw [segmentSpan, if_pos hkind] at hr
  obtain ⟨rfl, -⟩ := Prod.mk.inj hr
  have hlow : (verbatimPosition s start).toInt =
      s.originalStart.toInt + (start.toInt - s.virtualStart.toInt) := by
    have hsub := toInt_sub_of start s.virtualStart (by omega) (by omega)
    have hadd := toInt_add_of s.originalStart (start - s.virtualStart) (by omega) (by omega)
    rw [verbatimPosition, toInt_clamp, hadd, hsub]
    omega
  dsimp only
  rw [toInt_clamp, hlow]
  refine ⟨rfl, by omega, by omega, ?_⟩
  intro hin
  have hsub := toInt_sub_of stop s.virtualStart (by omega) (by omega)
  have hadd := toInt_add_of s.originalStart (stop - s.virtualStart) (by omega) (by omega)
  rw [hadd, hsub]
  omega

/-- a part of two slices that are the same -/
theorem slice_part {xs ys : List UInt8} {a b c d i j : Nat}
    (heq : (xs.drop a).take (b - a) = (ys.drop c).take (d - c)) (hj : j ≤ b - a) (hd : b - a = d - c) :
    (xs.drop (a + i)).take (j - i) = (ys.drop (c + i)).take (j - i) := by
  have hcut : ∀ (zs : List UInt8) (m n : Nat), j ≤ n →
      (((zs.drop m).take n).take j).drop i = (zs.drop (m + i)).take (j - i) := by
    intro zs m n hn
    rw [List.take_take, Nat.min_eq_left hn, List.drop_take, List.drop_drop]
  rw [← hcut xs a (b - a) hj, heq, hcut ys c (d - c) (hd ▸ hj)]

theorem length_slice (text : List UInt8) {start stop : Int32} (h0 : 0 ≤ start.toInt)
    (hlt : start.toInt ≤ stop.toInt) (hle : stop.toInt ≤ text.length) :
    ((slice text start stop).length : Int) = stop.toInt - start.toInt := by
  obtain ⟨a, ha⟩ := Int.eq_ofNat_of_zero_le h0
  obtain ⟨b, hb⟩ := Int.eq_ofNat_of_zero_le (h0.trans hlt)
  rw [slice_eq ha hb, List.length_take, List.length_drop, ha, hb]
  omega

theorem slice_segmentSpan (hs : Valid virtualText original s) (hkind : s.kind = kindVerbatim)
    {start stop : Int32} {r : TextRange} (hstart : s.virtualStart.toInt ≤ start.toInt)
    (hlt : start.toInt < stop.toInt) (hstop : stop.toInt ≤ s.virtualEnd.toInt)
    (hr : segmentSpan s start stop = (r, .exact)) :
    slice original r.pos r.stop = slice virtualText start stop := by
  obtain ⟨hpos, -, -, hend⟩ := toInt_segmentSpan hs hkind hstart (by omega) hlt hr
  have hend := hend hstop
  obtain ⟨hlength, hslice⟩ := hs.verbatim hkind
  have h1 := hs.virtualStart
  have h2 := hs.originalStart
  obtain ⟨a, ha⟩ := Int.eq_ofNat_of_zero_le h1
  obtain ⟨b, hb⟩ := Int.eq_ofNat_of_zero_le (h1.trans hs.virtualLe)
  obtain ⟨c, hc⟩ := Int.eq_ofNat_of_zero_le h2
  obtain ⟨d, hd⟩ := Int.eq_ofNat_of_zero_le (h2.trans hs.originalLe)
  obtain ⟨i, hi⟩ := Int.eq_ofNat_of_zero_le (show 0 ≤ start.toInt - a by omega)
  obtain ⟨j, hj⟩ := Int.eq_ofNat_of_zero_le (show 0 ≤ stop.toInt - a by omega)
  rw [slice_eq ha hb, slice_eq hc hd] at hslice
  have hpart := slice_part (i := i) (j := j) hslice (by omega) (by omega)
  rw [slice_eq (show r.pos.toInt = ((c + i : Nat) : Int) by omega)
      (show r.stop.toInt = ((c + j : Nat) : Int) by omega),
    slice_eq (show start.toInt = ((a + i : Nat) : Int) by omega)
      (show stop.toInt = ((a + j : Nat) : Int) by omega),
    Nat.add_sub_add_left, Nat.add_sub_add_left, hpart]

end

/-- **An exact span has the bytes of the virtual range if and only if the range does not run past the
verbatim segment it is found in.** -/
theorem exactSlice_iff (P : PartitionPoint SpanSegment) (map : SpanMap)
    (virtualText original : List UInt8) (hvalid : map.validate virtualText original = none)
    (range : TextRange) (h0 : 0 ≤ range.pos) (hlt : range.pos < range.stop)
    (hle : range.stop.toInt ≤ virtualText.length) :
    ExactSlice P map virtualText original range ↔ ¬ RunsPast map.segments range := by
  have h := validate_none hvalid
  rw [Int32.le_iff_toInt_le] at h0
  rw [Int32.lt_iff_toInt_lt] at hlt
  change 0 ≤ range.pos.toInt at h0
  refine ⟨?_, ?_⟩
  · -- the span that is run past is shorter than the range
    intro hexact hpast
    obtain ⟨i, s, hstart, hlast, hs, hkind, hend⟩ := hpast.found P h h0 hlt
    obtain ⟨s', hs', hin, -⟩ := contains_of_found P h h0 hlt hstart hlast
    obtain rfl := Option.some.inj (hs.symm.trans hs')
    have hv := h.get hs
    have hostart := hv.originalStart
    have hoend := hv.originalEnd
    obtain ⟨hlength, -⟩ := hv.verbatim hkind
    have hr := span_of_found P h0 hlt hstart hlast hs
    have hspan : segmentSpan s range.pos range.stop =
        ((segmentSpan s range.pos range.stop).1, .exact) := by
      rw [segmentSpan, if_pos hkind]
    obtain ⟨hpos, hrange, hrend, -⟩ := toInt_segmentSpan hv hkind hin (by omega) hlt hspan
    rw [hspan] at hr
    obtain ⟨-, -, -, hslice⟩ := hexact _ hr
    have hshort := length_slice original (by omega) hrange (by omega)
    have hlong := length_slice virtualText h0 hlt.le hle
    rw [hslice] at hshort
    omega
  · intro hpast r hr
    obtain ⟨i, s, hstart, hlast, hs, hkind, hspan⟩ := exact_found P h0 hlt hr
    obtain ⟨s', hs', hin, hend⟩ := contains_of_found P h h0 hlt hstart hlast
    obtain rfl := Option.some.inj (hs.symm.trans hs')
    have hend := hend hkind hpast
    have hv := h.get hs
    have hostart := hv.originalStart
    have hoend := hv.originalEnd
    obtain ⟨hpos, hrange, hrend, -⟩ := toInt_segmentSpan hv hkind hin (by omega) hlt hspan
    refine ⟨Int32.le_iff_toInt_le.2 ?_, Int32.le_iff_toInt_le.2 hrange, by omega,
      slice_segmentSpan hv hkind hin hlt hend hspan⟩
    show 0 ≤ r.pos.toInt
    omega

/-- `abc` in front of a byte that is synthesized -/
def generated : SpanMap := .new (.insertion _) [⟨0, 3, 2, 5, kindVerbatim, featureAll⟩]

theorem exactSlice_iff_generated :
    generated.validate [0x61, 0x62, 0x63, 0x58] [0x2F, 0x2F, 0x61, 0x62, 0x63] = none ∧
      (ExactSlice (.counting _) generated [0x61, 0x62, 0x63, 0x58] [0x2F, 0x2F, 0x61, 0x62, 0x63] ⟨1, 3⟩ ↔
        ¬ RunsPast generated.segments ⟨1, 3⟩) := by
  have hvalid : generated.validate [0x61, 0x62, 0x63, 0x58] [0x2F, 0x2F, 0x61, 0x62, 0x63] = none := by
    decide +kernel
  exact ⟨hvalid, exactSlice_iff _ _ _ _ hvalid _ (by decide) (by decide) (by decide)⟩

/-- The range that takes the synthesized byte in is exact as well. -/
theorem virtualToOriginalSpan_past_end :
    generated.validate [0x61, 0x62, 0x63, 0x58] [0x2F, 0x2F, 0x61, 0x62, 0x63] = none ∧
      generated.virtualToOriginalSpan (.counting _) ⟨1, 4⟩ = some (⟨3, 5⟩, .exact) ∧
      slice [0x2F, 0x2F, 0x61, 0x62, 0x63] 3 5 = [0x62, 0x63] ∧
      slice [0x61, 0x62, 0x63, 0x58] 1 4 = [0x62, 0x63, 0x58] ∧
      ¬ ExactSlice (.counting _) generated [0x61, 0x62, 0x63, 0x58] [0x2F, 0x2F, 0x61, 0x62, 0x63]
        ⟨1, 4⟩ := by
  have hspan : generated.virtualToOriginalSpan (.counting _) ⟨1, 4⟩ = some (⟨3, 5⟩, .exact) := by
    decide +kernel
  refine ⟨by decide +kernel, hspan, by decide, by decide, ?_⟩
  intro hexact
  obtain ⟨-, -, -, hslice⟩ := hexact _ hspan
  exact absurd hslice (by decide)

end Tsr.Ast
