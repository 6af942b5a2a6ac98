import Tsr.Checker.TemplateRelation
import Tsr.Lib.Result

/-!
# Checker: the matches of a template

* `Source.rest`         what the source spells behind a cursor;
* `matchSegment_spec`   a match stands for what lies between two cursors, up to the halves it joins;
* `nextCursor_spec`     a cursor moves forward and stays in its text;
* `inferLoop_spec`      the loop, by the inner texts of the target;
* `inferLoop_complete`  in a plain string the leftmost occurrences are enough.
-/

namespace Tsr.Checker.TemplateRelation

open Tsr.Json (Bytes)
open Tsr.Jsstring Tsr.Lib.Result

section
variable {E P M : Type}

/-! ## spelling -/

theorem spell_cut (before : List Bytes) (u v : Bytes) (after : List Bytes) (types types' : List P)
    (h : before.length = types.length) :
    spell (before ++ (u ++ v) :: after) (types ++ types') = spell (before ++ [u]) types ++ spell (v :: after) types' := by
  induction before generalizing types with
  | nil =>
    rw [List.length_eq_zero_iff.1 h.symm]
    show spell ((u ++ v) :: after) types' = pieces u ++ spell (v :: after) types'
    match after, types' with
    | [], [] => exact pieces_append u v
    | [], p :: types' => simp only [spell, pieces_append, List.append_assoc]
    | after :: afters, [] => exact pieces_append u v
    | after :: afters, p :: types' => simp only [spell, pieces_append, List.append_assoc]
  | cons text before ih =>
    match types, h with
    | p :: types, h =>
      show pieces text ++ .hole p :: spell (before ++ (u ++ v) :: after) (types ++ types') =
        (pieces text ++ .hole p :: spell (before ++ [u]) types) ++ spell (v :: after) types'
      rw [ih types (Nat.succ.inj h), List.append_assoc]
      rfl

theorem spell_prefix (u v : Bytes) (after : List Bytes) (types : List P) :
    spell ((u ++ v) :: after) types = pieces u ++ spell (v :: after) types :=
  spell_cut [] u v after [] types rfl

/-! ## the source behind a cursor -/

/-- the texts and types alternate, and the last text is the one that is shortened -/
structure Source.Ok (source : Source P) : Prop where
  texts : source.texts.length = source.last + 1
  types : source.types.length = source.last

namespace Source

/-- the texts, the last one shortened -/
def shortened (source : Source P) : List Bytes := source.texts.take source.last ++ [source.remainingEnd]

def textAt (source : Source P) (index : Nat) : Bytes := source.shortened.getD index []

/-- what the source spells from the cursor on -/
def rest (source : Source P) (cursor : Cursor) : List (Piece P) :=
  spell ((source.textAt cursor.segment).drop cursor.position :: source.shortened.drop (cursor.segment + 1))
    (source.types.drop cursor.segment)

/-- the cursor stands in a text -/
structure Holds (source : Source P) (cursor : Cursor) : Prop where
  segment : cursor.segment ≤ source.last
  position : cursor.position ≤ (source.textAt cursor.segment).length

variable {source : Source P}

theorem Ok.shortened_length (hok : source.Ok) : source.shortened.length = source.last + 1 := by
  unfold shortened
  rw [List.length_append, List.length_take, hok.texts]
  simp

theorem Ok.textAt_last (hok : source.Ok) : source.textAt source.last = source.remainingEnd := by
  have hlength : (source.texts.take source.last).length = source.last := by
    rw [List.length_take, hok.texts]
    omega
  unfold textAt shortened
  rw [List.getD_eq_getElem?_getD, List.getElem?_append_right (by omega), hlength, Nat.sub_self]
  rfl

theorem Ok.textAt_before (hok : source.Ok) {index : Nat} (h : index < source.last) :
    source.texts[index]? = some (source.textAt index) := by
  have hlt : index < source.texts.length := by
    rw [hok.texts]
    omega
  have hlt' : index < (source.texts.take source.last).length := by
    rw [List.length_take]
    omega
  unfold textAt shortened
  rw [List.getD_eq_getElem?_getD, List.getElem?_append_left hlt', List.getElem?_take_of_lt h,
    List.getElem?_eq_getElem hlt]
  rfl

theorem Ok.text_eq (hok : source.Ok) {index : Nat} (h : index ≤ source.last) :
    source.text (E := E) index = .ok (source.textAt index) := by
  unfold text
  split
  · rename_i hlast
    rw [hlast, hok.textAt_last]
  · unfold item
    rw [hok.textAt_before (by omega)]

theorem Ok.drop_eq (hok : source.Ok) {index : Nat} (h : index ≤ source.last) :
    source.shortened.drop index = source.textAt index :: source.shortened.drop (index + 1) := by
  have hlt : index < source.shortened.length := by
    rw [hok.shortened_length]
    omega
  rw [List.drop_eq_getElem_cons hlt]
  unfold textAt
  rw [List.getD_eq_getElem?_getD, List.getElem?_eq_getElem hlt]
  rfl

theorem rest_eq (source : Source P) (segment position count : Nat) :
    source.rest ⟨segment, position⟩ = pieces (((source.textAt segment).drop position).take count) ++
      source.rest ⟨segment, position + count⟩ := by
  have hsplit : (source.textAt segment).drop position =
      ((source.textAt segment).drop position).take count ++ (source.textAt segment).drop (position + count) := by
    rw [← List.drop_drop, List.take_append_drop]
  calc source.rest ⟨segment, position⟩
      = spell ((((source.textAt segment).drop position).take count ++
          (source.textAt segment).drop (position + count)) :: source.shortened.drop (segment + 1))
          (source.types.drop segment) := by rw [← hsplit]; rfl
    _ = _ := spell_prefix _ _ _ _

/-- from a text to a later one: the match is a template -/
theorem Ok.rest_template (hok : source.Ok) {start stop : Cursor} (hlt : start.segment < stop.segment)
    (hstop : stop.segment ≤ source.last) :
    source.rest start = spell ((source.textAt start.segment).drop start.position ::
        (source.texts.take stop.segment).drop (start.segment + 1) ++ [(source.textAt stop.segment).take stop.position])
      ((source.types.take stop.segment).drop start.segment) ++ source.rest stop := by
  have htexts : source.shortened.drop (start.segment + 1) =
      (source.texts.take stop.segment).drop (start.segment + 1) ++ ((source.textAt stop.segment).take stop.position ++
        (source.textAt stop.segment).drop stop.position) :: source.shortened.drop (stop.segment + 1) := by
    rw [List.take_append_drop, ← hok.drop_eq hstop]
    have htake : source.texts.take stop.segment = source.shortened.take stop.segment := by
      unfold shortened
      rw [List.take_append_of_le_length, List.take_take, min_eq_left hstop]
      rw [List.length_take, hok.texts]
      omega
    have hlength : (source.shortened.take stop.segment).length = stop.segment := by
      rw [List.length_take, hok.shortened_length]
      omega
    rw [htake]
    conv => lhs; rw [← List.take_append_drop stop.segment source.shortened]
    rw [List.drop_append_of_le_length (by omega)]
  have htypes : source.types.drop start.segment =
      (source.types.take stop.segment).drop start.segment ++ source.types.drop stop.segment := by
    have hlength : (source.types.take stop.segment).length = stop.segment := by
      rw [List.length_take, hok.types]
      omega
    conv => lhs; rw [← List.take_append_drop stop.segment source.types]
    rw [List.drop_append_of_le_length (by omega)]
  unfold rest
  rw [htexts, htypes, ← List.cons_append]
  refine spell_cut _ _ _ _ _ _ ?_
  rw [List.length_cons, List.length_drop, List.length_drop, List.length_take, List.length_take, hok.texts, hok.types]
  omega

end Source

/-! ## one match -/

theorem slice_eq {α : Type} {list : List α} {start stop : Nat} (h : start ≤ stop) (hstop : stop ≤ list.length) :
    slice (E := E) list start stop = .ok ((list.take stop).drop start) :=
  if_pos ⟨h, hstop⟩

theorem item_eq {α : Type} {list : List α} {index : Nat} {a : α} (h : list[index]? = some a) :
    item (E := E) list index = .ok a := by
  unfold item
  rw [h]

/-- the one cursor stands before the other -/
def Cursor.Before (start stop : Cursor) : Prop :=
  start.segment < stop.segment ∨ start.segment = stop.segment ∧ start.position ≤ stop.position

variable {source : Source P}

theorem matchSegment_spec (hok : source.Ok) {start stop : Cursor} (hstart : source.Holds start)
    (hstop : source.Holds stop) (hbefore : start.Before stop) :
    ∃ segment raw, matchSegment (E := E) source start stop (source.textAt stop.segment) = .ok segment ∧
      HalvesJoined raw segment.pieces ∧ source.rest start = raw ++ source.rest stop := by
  rcases hbefore with hlt | ⟨heq, hle⟩
  · refine ⟨.template _ _, _, ?_, HalvesJoined.refl _, hok.rest_template hlt hstop.segment⟩
    unfold matchSegment
    rw [if_neg (Nat.ne_of_lt hlt), item_eq (hok.textAt_before (Nat.lt_of_lt_of_le hlt hstop.segment)), ok_bind,
      slice_eq hstart.position (Nat.le_refl _), ok_bind,
      slice_eq hlt (by rw [hok.texts]; exact Nat.le_succ_of_le hstop.segment), ok_bind,
      slice_eq (Nat.zero_le _) hstop.position, ok_bind,
      slice_eq (Nat.le_of_lt hlt) (by rw [hok.types]; exact hstop.segment), ok_bind, List.take_length]
    rfl
  · refine ⟨.string _, pieces (((source.textAt stop.segment).take stop.position).drop start.position), ?_,
      joined_combine _, ?_⟩
    · unfold matchSegment
      rw [if_pos heq, slice_eq hle hstop.position]
      rfl
    · obtain ⟨segment, position⟩ := start
      obtain ⟨stopSegment, stopPosition⟩ := stop
      dsimp only at heq hle ⊢
      rw [← heq, source.rest_eq segment position (stopPosition - position), List.take_drop,
        Nat.add_sub_cancel' hle]

/-! ## the next cursor -/

theorem windowPosition_some {delimiter bytes : Bytes} {found : Nat}
    (h : windowPosition delimiter bytes = some found) :
    found ≤ bytes.length ∧ ∃ after, bytes.drop found = delimiter ++ after := by
  induction bytes generalizing found with
  | nil =>
    unfold windowPosition at h
    split at h
    · rename_i hempty
      cases h
      exact ⟨Nat.le_refl _, [], by rw [hempty]; rfl⟩
    · cases h
  | cons b bytes ih =>
    unfold windowPosition at h
    split at h
    · rename_i hprefix
      cases h
      obtain ⟨after, hafter⟩ := List.isPrefixOf_iff_prefix.1 hprefix
      exact ⟨Nat.zero_le _, after, hafter.symm⟩
    · obtain ⟨next, hnext, rfl⟩ := Option.map_eq_some_iff.1 h
      obtain ⟨hle, hafter⟩ := ih hnext
      exact ⟨Nat.succ_le_succ hle, hafter⟩

variable (source) in
/-- a cursor in front of the delimiter, not before the one given -/
structure Found (delimiter : Bytes) (start stop : Cursor) : Prop where
  holds : source.Holds stop
  before : start.Before stop
  here : ∃ after, (source.textAt stop.segment).drop stop.position = delimiter ++ after

theorem findDelimiter_spec (hok : source.Ok) (delimiter : Bytes) (fuel : Nat) (cursor : Cursor)
    (hcursor : source.Holds cursor) (hfuel : source.last + 1 ≤ cursor.segment + fuel) :
    findDelimiter (E := E) source delimiter fuel cursor = .error .noMatch ∨
      ∃ next, findDelimiter (E := E) source delimiter fuel cursor = .ok next ∧ Found source delimiter cursor next := by
  induction fuel generalizing cursor with
  | zero => exact absurd hcursor.segment (by omega)
  | succ fuel ih =>
    unfold findDelimiter
    rw [hok.text_eq hcursor.segment, ok_bind, slice_eq hcursor.position (Nat.le_refl _), ok_bind, List.take_length]
    split
    · rename_i found hfound
      obtain ⟨hle, after, hafter⟩ := windowPosition_some hfound
      rw [List.drop_drop] at hafter
      rw [List.length_drop] at hle
      have hposition := hcursor.position
      exact Or.inr ⟨_, rfl, ⟨hcursor.segment, by dsimp only; omega⟩, Or.inr ⟨rfl, Nat.le_add_right _ _⟩, after, hafter⟩
    · split
      · exact Or.inl rfl
      · rename_i hmore
        have hsegment : cursor.segment + 1 ≤ source.last := by
          have := hok.texts
          have := hcursor.segment
          omega
        rcases ih ⟨cursor.segment + 1, 0⟩ ⟨hsegment, Nat.zero_le _⟩ (by dsimp only; omega) with h | ⟨next, h, hfound⟩
        · exact Or.inl h
        · refine Or.inr ⟨next, h, hfound.holds, Or.inl ?_, hfound.here⟩
          rcases hfound.before with hlt | ⟨heq, -⟩
          · exact Nat.lt_of_succ_lt hlt
          · exact Nat.lt_of_lt_of_eq (Nat.lt_succ_self _) heq

theorem nextCursor_spec (hok : source.Ok) (delimiter : Bytes) (cursor : Cursor) (hcursor : source.Holds cursor) :
    nextCursor (E := E) source delimiter cursor = .error .noMatch ∨
      ∃ next, nextCursor (E := E) source delimiter cursor = .ok next ∧ Found source delimiter cursor next := by
  unfold nextCursor
  split
  · exact findDelimiter_spec hok delimiter _ cursor hcursor (by rw [hok.texts]; omega)
  · rename_i hempty
    have hempty : delimiter = [] := not_not.1 hempty
    rw [hok.text_eq hcursor.segment, ok_bind]
    split
    · rename_i hlt
      have hne : (source.textAt cursor.segment).drop cursor.position ≠ [] := by
        rw [← List.length_pos_iff, List.length_drop]
        omega
      have hwidth := (decodeRune_width hne).2
      rw [List.length_drop] at hwidth
      rw [slice_eq hcursor.position (Nat.le_refl _), ok_bind, List.take_length]
      refine Or.inr ⟨_, rfl, ⟨hcursor.segment, ?_⟩, Or.inr ⟨rfl, Nat.le_add_right _ _⟩, ?_⟩
      · dsimp only
        omega
      · rw [hempty]
        exact ⟨_, rfl⟩
    · split
      · rename_i hlt
        refine Or.inr ⟨_, rfl, ⟨hlt, Nat.zero_le _⟩, Or.inl (Nat.lt_succ_self _), ?_⟩
        rw [hempty]
        exact ⟨_, rfl⟩
      · exact Or.inl rfl

/-! ## the loop -/

/-- the source behind a delimiter -/
theorem rest_delimiter {delimiter after : Bytes} {next : Cursor} (hnext : source.Holds next)
    (h : (source.textAt next.segment).drop next.position = delimiter ++ after) :
    source.rest next = pieces delimiter ++ source.rest ⟨next.segment, next.position + delimiter.length⟩ ∧
      source.Holds ⟨next.segment, next.position + delimiter.length⟩ := by
  obtain ⟨segment, position⟩ := next
  dsimp only at h ⊢
  refine ⟨?_, hnext.segment, ?_⟩
  · rw [source.rest_eq segment position delimiter.length, h, List.take_left']
    rfl
  · have hlength := congrArg List.length h
    rw [List.length_drop, List.length_append] at hlength
    have := hnext.position
    dsimp only at this ⊢
    omega

theorem templateMatchSegment_spec (make : Constructors E P M) (hok : source.Ok) {start stop : Cursor}
    (hstart : source.Holds start) (hstop : source.Holds stop) (hbefore : start.Before stop) :
    ∃ segment raw, templateMatchSegment make source start stop (source.textAt stop.segment) =
        lift (make.build segment) ∧
      HalvesJoined raw segment.pieces ∧ source.rest start = raw ++ source.rest stop := by
  obtain ⟨segment, raw, hmatch, hjoined, hrest⟩ := matchSegment_spec (E := E) hok hstart hstop hbefore
  refine ⟨segment, raw, ?_, hjoined, hrest⟩
  unfold templateMatchSegment
  rw [hmatch, ok_bind]

/-- the matches that the checker made of these segments, written between the texts -/
structure Written (make : Constructors E P M) (source : List (Piece P)) (target : List Bytes)
    (found : List M) (segments : List (Segment P)) : Prop where
  made : List.Forall₂ (fun segment m => make.build segment = .ok m) segments found
  count : segments.length + 1 = target.length
  same : HalvesJoined source (written target segments)

theorem inferLoop_spec (make : Constructors E P M) (hok : source.Ok) (delimiters : List Bytes) (cursor : Cursor)
    (hcursor : source.Holds cursor) (text suffix : Bytes) :
    inferLoop make source delimiters cursor ≠ .error .outOfRange ∧
      ∀ found, inferLoop make source delimiters cursor = .ok found →
        ∃ segments, Written make (pieces text ++ source.rest cursor ++ pieces suffix)
          (text :: delimiters ++ [suffix]) found segments := by
  induction delimiters generalizing cursor text with
  | nil =>
    have hlast : source.Holds ⟨source.last, source.remainingEnd.length⟩ :=
      ⟨Nat.le_refl _, by dsimp only; rw [hok.textAt_last]⟩
    have hbefore : cursor.Before ⟨source.last, source.remainingEnd.length⟩ := by
      rcases Nat.lt_or_eq_of_le hcursor.segment with hlt | heq
      · exact Or.inl hlt
      · refine Or.inr ⟨heq, ?_⟩
        have := hcursor.position
        rw [heq, hok.textAt_last] at this
        exact this
    obtain ⟨segment, raw, hmatch, hjoined, hrest⟩ := templateMatchSegment_spec make hok hcursor hlast hbefore
    have hend : source.rest ⟨source.last, source.remainingEnd.length⟩ = [] := by
      unfold Source.rest
      dsimp only
      rw [hok.textAt_last, List.drop_length, List.drop_eq_nil_of_le (by rw [hok.shortened_length]),
        List.drop_eq_nil_of_le (by rw [hok.types])]
      rfl
    rw [hend, List.append_nil] at hrest
    dsimp only at hmatch
    rw [hok.textAt_last] at hmatch
    unfold inferLoop
    rw [hmatch]
    cases hmade : make.build segment with
    | error error => exact ⟨nofun, nofun⟩
    | ok m =>
      refine ⟨nofun, ?_⟩
      intro found h
      cases h
      refine ⟨[segment], .cons hmade .nil, rfl, ?_⟩
      rw [hrest]
      exact ((HalvesJoined.refl _).append hjoined).append (HalvesJoined.refl _)
  | cons delimiter delimiters ih =>
    unfold inferLoop
    rcases nextCursor_spec (E := E) hok delimiter cursor hcursor with hnext | ⟨next, hnext, hfound⟩
    · rw [hnext]
      exact ⟨nofun, nofun⟩
    · obtain ⟨segment, raw, hmatch, hjoined, hrest⟩ :=
        templateMatchSegment_spec make hok hcursor hfound.holds hfound.before
      obtain ⟨after, hafter⟩ := hfound.here
      obtain ⟨hdelimiter, hholds⟩ := rest_delimiter hfound.holds hafter
      rw [hnext, ok_bind, hok.text_eq hfound.holds.segment, ok_bind, hmatch]
      cases hmade : make.build segment with
      | error error => exact ⟨nofun, nofun⟩
      | ok m =>
        obtain ⟨hrange, hall⟩ := ih _ hholds delimiter
        rw [show (lift (Except.ok m) : Outcome E M) = Except.ok m from rfl, ok_bind]
        cases hloop : inferLoop make source delimiters ⟨next.segment, next.position + delimiter.length⟩ with
        | error stop =>
          rw [hloop] at hrange
          refine ⟨?_, nofun⟩
          intro h
          exact hrange h
        | ok found =>
          refine ⟨nofun, ?_⟩
          intro all h
          cases h
          obtain ⟨segments, hwritten⟩ := hall found hloop
          refine ⟨segment :: segments, .cons hmade hwritten.made, congrArg Nat.succ hwritten.count, ?_⟩
          have hsame := hwritten.same
          rw [← hdelimiter] at hsame
          rw [hrest]
          simp only [List.append_assoc] at hsame ⊢
          show HalvesJoined _ (pieces text ++ segment.pieces ++ written (delimiter :: (delimiters ++ [suffix])) segments)
          rw [List.append_assoc]
          exact (HalvesJoined.refl _).append (hjoined.append hsame)

/-! ## the whole source -/

/-- what is left of the source between the first and the last text of the target -/
def sourceOf (before : List Bytes) (final suffix : Bytes) (types : List P) : Source P :=
  ⟨before ++ [final], types, before.length, final.take (final.length - suffix.length)⟩

/-- the texts at both ends of the target do not fit -/
def EndsDiffer (before : List Bytes) (first final start suffix : Bytes) : Prop :=
  (before.length = 0 ∧ first.length < start.length + suffix.length) ∨ ¬ start.isPrefixOf first ∨
    ¬ suffix.isSuffixOf final

instance (before : List Bytes) (first final start suffix : Bytes) :
    Decidable (EndsDiffer before first final start suffix) :=
  inferInstanceAs (Decidable ((_ ∧ _) ∨ ¬ _ ∨ ¬ _))

theorem inferLiteralParts_eq (make : Constructors E P M) {before : List Bytes} {first final : Bytes}
    (hfirst : (before ++ [final])[0]? = some first) (types : List P) (start : Bytes) (inner : List Bytes)
    (suffix : Bytes) :
    inferLiteralParts make (before ++ [final]) types (start :: (inner ++ [suffix])) =
      if EndsDiffer before first final start suffix then .error .noMatch
      else inferLoop make (sourceOf before final suffix types) inner ⟨0, start.length⟩ := by
  have hlast : (before ++ [final]).length - 1 = before.length := by
    rw [List.length_append]
    rfl
  have hstop : (start :: (inner ++ [suffix])).length - 1 = inner.length + 1 := by
    rw [List.length_cons, List.length_append]
    rfl
  have hfinal : (before ++ [final])[before.length]? = some final := List.getElem?_concat_length
  have hsuffix : (start :: (inner ++ [suffix]))[inner.length + 1]? = some suffix :=
    List.getElem?_concat_length
  have hinner : slice (E := E) (start :: (inner ++ [suffix])) 1 (inner.length + 1) = .ok inner := by
    rw [slice_eq (by omega) (by rw [List.length_cons, List.length_append]; simp)]
    show Except.ok ((inner ++ [suffix]).take inner.length) = Except.ok inner
    rw [List.take_left]
  unfold inferLiteralParts
  rw [if_neg (by rintro (h | h) <;> simp at h)]
  dsimp only
  rw [hlast, hstop, item_eq hfirst, ok_bind, item_eq hfinal, ok_bind, item_eq rfl, ok_bind, item_eq hsuffix, ok_bind,
    hinner]
  rfl

/-- both ends of the target are cut off the source -/
theorem ends_cut {before : List Bytes} {first final start suffix : Bytes}
    (hfirst : (before ++ [final])[0]? = some first) {types : List P} (hlength : before.length = types.length)
    (hends : ¬ EndsDiffer before first final start suffix) :
    (sourceOf before final suffix types).Ok ∧ (sourceOf before final suffix types).Holds ⟨0, start.length⟩ ∧
      spell (before ++ [final]) types =
        pieces start ++ (sourceOf before final suffix types).rest ⟨0, start.length⟩ ++ pieces suffix := by
  obtain ⟨hfits, hends⟩ := not_or.1 hends
  obtain ⟨hstart, hsuffix⟩ := not_or.1 hends
  obtain ⟨after, hafter⟩ := List.isPrefixOf_iff_prefix.1 (not_not.1 hstart)
  obtain ⟨ahead, hahead⟩ := List.isSuffixOf_iff_suffix.1 (not_not.1 hsuffix)
  have hok : (sourceOf before final suffix types).Ok := by
    refine ⟨?_, hlength.symm⟩
    show (before ++ [final]).length = before.length + 1
    rw [List.length_append]
    rfl
  have hremaining : final.take (final.length - suffix.length) = ahead := by
    rw [← hahead, List.length_append, Nat.add_sub_cancel, List.take_left]
  have hshortened : (sourceOf before final suffix types).shortened = before ++ [ahead] := by
    show (before ++ [final]).take before.length ++ [final.take (final.length - suffix.length)] = before ++ [ahead]
    rw [List.take_left, hremaining]
  -- the first text of the target is also in front of what the last one leaves
  have hbegins : ∃ after, (sourceOf before final suffix types).textAt 0 = start ++ after := by
    unfold Source.textAt
    rw [hshortened]
    cases before with
    | nil =>
      cases hfirst
      have hle : start.length ≤ ahead.length := by
        have hlong := not_and.1 hfits rfl
        rw [← hahead, List.length_append] at hlong
        omega
      obtain ⟨after, hafter⟩ := List.prefix_of_prefix_length_le ⟨after, hafter⟩ ⟨suffix, hahead⟩ hle
      exact ⟨after, hafter.symm⟩
    | cons text before =>
      cases hfirst
      exact ⟨after, hafter.symm⟩
  obtain ⟨after, hbegins⟩ := hbegins
  refine ⟨hok, ⟨Nat.zero_le _, ?_⟩, ?_⟩
  · show start.length ≤ ((sourceOf before final suffix types).textAt 0).length
    rw [hbegins, List.length_append]
    omega
  · have hrest := (sourceOf before final suffix types).rest_eq 0 0 start.length
    rw [List.drop_zero, hbegins, List.take_left, Nat.zero_add] at hrest
    have hall : spell (before ++ [ahead]) types = (sourceOf before final suffix types).rest ⟨0, 0⟩ := by
      rw [← hshortened]
      unfold Source.rest
      dsimp only
      rw [List.drop_zero, ← hok.drop_eq (Nat.zero_le _)]
      rfl
    rw [← hrest, ← hall, ← hahead]
    have hcut := spell_cut before ahead suffix [] types [] hlength
    rw [List.append_nil] at hcut
    exact hcut

/-! ## plain strings -/

/-- the texts with strings between them -/
def interleave : List Bytes → List Bytes → Bytes
  | text :: texts, string :: strings => text ++ string ++ interleave texts strings
  | text :: _, [] => text
  | [], _ => []

def Splits (text : Bytes) (target : List Bytes) : Prop :=
  ∃ strings, strings.length + 1 = target.length ∧ text = interleave target strings

theorem windowPosition_le (delimiter before after : Bytes) :
    ∃ found, windowPosition delimiter (before ++ (delimiter ++ after)) = some found ∧ found ≤ before.length := by
  induction before with
  | nil =>
    refine ⟨0, ?_, Nat.le_refl _⟩
    rw [List.nil_append]
    cases hdelimiter : delimiter ++ after with
    | nil =>
      unfold windowPosition
      rw [if_pos (List.append_eq_nil_iff.1 hdelimiter).1]
    | cons b bytes =>
      unfold windowPosition
      rw [if_pos (List.isPrefixOf_iff_prefix.2 ⟨after, hdelimiter⟩)]
  | cons b before ih =>
    rw [List.cons_append]
    unfold windowPosition
    split
    · exact ⟨0, rfl, Nat.zero_le _⟩
    · obtain ⟨found, hfound, hle⟩ := ih
      rw [hfound]
      exact ⟨found + 1, rfl, Nat.succ_le_succ hle⟩

theorem interleave_text (text : Bytes) (texts strings : List Bytes) :
    interleave (text :: texts) strings = text ++ interleave ([] :: texts) strings := by
  cases strings with
  | nil => exact (List.append_nil text).symm
  | cons string strings => exact List.append_assoc _ _ _

theorem interleave_string (before string : Bytes) (texts strings : List Bytes) :
    before ++ interleave ([] :: texts) (string :: strings) = interleave ([] :: texts) ((before ++ string) :: strings) := by
  show before ++ (string ++ interleave texts strings) = (before ++ string) ++ interleave texts strings
  rw [List.append_assoc]

/-- the strings between the delimiters of a text -/
def SplitsAt (text : Bytes) (delimiters : List Bytes) : Prop :=
  ∃ strings, strings.length = delimiters.length + 1 ∧ text = interleave ([] :: (delimiters ++ [[]])) strings

theorem SplitsAt.next {after : Bytes} {delimiters : List Bytes} (h : SplitsAt after delimiters)
    (before delimiter : Bytes) : SplitsAt (before ++ (delimiter ++ after)) (delimiter :: delimiters) := by
  obtain ⟨strings, hlength, rfl⟩ := h
  refine ⟨before :: strings, congrArg Nat.succ hlength, ?_⟩
  rw [← interleave_text]
  rfl

/-- the leftmost delimiter leaves the most -/
theorem SplitsAt.leftmost {text delimiter : Bytes} {delimiters : List Bytes}
    (h : SplitsAt text (delimiter :: delimiters)) :
    ∃ found, windowPosition delimiter text = some found ∧ SplitsAt (text.drop (found + delimiter.length)) delimiters := by
  obtain ⟨strings, hlength, htext⟩ := h
  match strings, hlength with
  | string :: first :: strings, hlength =>
    have hsplit : text = string ++ (delimiter ++ interleave ([] :: (delimiters ++ [[]])) (first :: strings)) := by
      rw [htext, ← interleave_text]
      rfl
    obtain ⟨found, hfound, hle⟩ := windowPosition_le delimiter string
      (interleave ([] :: (delimiters ++ [[]])) (first :: strings))
    refine ⟨found, ?_, ((string ++ delimiter).drop (found + delimiter.length) ++ first) :: strings, ?_, ?_⟩
    · rw [hsplit]
      exact hfound
    · exact Nat.succ.inj hlength
    · rw [← interleave_string, hsplit, ← List.append_assoc, List.drop_append_of_le_length]
      rw [List.length_append]
      omega

/-- a plain string whose last part is cut off -/
def plainSource (text remaining : Bytes) : Source P := ⟨[text], [], 0, remaining⟩

theorem findDelimiter_plain (text remaining delimiter : Bytes) {position : Nat}
    (hposition : position ≤ remaining.length) :
    findDelimiter (E := E) (plainSource (P := P) text remaining) delimiter 1 ⟨0, position⟩ =
      (windowPosition delimiter (remaining.drop position)).elim (.error .noMatch)
        fun found => .ok ⟨0, position + found⟩ := by
  unfold findDelimiter
  have htext : (plainSource (P := P) text remaining).text (E := E) 0 = .ok remaining := rfl
  dsimp only
  rw [htext, ok_bind, slice_eq hposition (Nat.le_refl _), ok_bind, List.take_length]
  cases windowPosition delimiter (remaining.drop position) with
  | none => rfl
  | some found => rfl

theorem templateMatchSegment_plain (make : Constructors E P M) (text : Bytes) {remaining : Bytes} {start stop : Nat}
    (h : start ≤ stop) (hstop : stop ≤ remaining.length) :
    templateMatchSegment make (plainSource text remaining) ⟨0, start⟩ ⟨0, stop⟩ remaining =
      lift (make.getStringLiteralType (combineSurrogatePairs ((remaining.take stop).drop start))) := by
  unfold templateMatchSegment matchSegment
  rw [if_pos rfl, slice_eq h hstop]
  rfl

theorem inferLoop_next (make : Constructors E P M) (text : Bytes) {remaining delimiter : Bytes}
    (hne : delimiter ≠ []) (delimiters : List Bytes) {position : Nat} (hposition : position ≤ remaining.length) :
    inferLoop make (plainSource text remaining) (delimiter :: delimiters) ⟨0, position⟩ =
      (windowPosition delimiter (remaining.drop position)).elim (.error .noMatch) fun found =>
        (templateMatchSegment make (plainSource text remaining) ⟨0, position⟩ ⟨0, position + found⟩ remaining).bind
          fun m => (inferLoop make (plainSource text remaining) delimiters
            ⟨0, position + found + delimiter.length⟩).bind fun rest => .ok (m :: rest) := by
  conv => lhs; unfold inferLoop
  unfold nextCursor
  rw [if_pos hne, show (plainSource (P := P) text remaining).texts.length - 0 = 1 from rfl,
    findDelimiter_plain text remaining delimiter hposition]
  cases windowPosition delimiter (remaining.drop position) with
  | none => rfl
  | some found => rfl

/-- **leftmost search**: on a plain string the loop succeeds only on a split, and misses none -/
theorem inferLoop_plain (make : Constructors E P M) (text remaining : Bytes) (delimiters : List Bytes)
    (hne : ∀ delimiter ∈ delimiters, delimiter ≠ []) (position : Nat) (hposition : position ≤ remaining.length) :
    (∀ found, inferLoop make (plainSource text remaining) delimiters ⟨0, position⟩ = .ok found →
      SplitsAt (remaining.drop position) delimiters) ∧
    (inferLoop make (plainSource text remaining) delimiters ⟨0, position⟩ = .error .noMatch →
      ¬ SplitsAt (remaining.drop position) delimiters) := by
  induction delimiters generalizing position with
  | nil =>
    refine ⟨fun _ _ => ⟨[remaining.drop position], rfl, (List.append_nil _).symm⟩, ?_⟩
    intro h
    have hlast : inferLoop make (plainSource text remaining) [] ⟨0, position⟩ =
        (templateMatchSegment make (plainSource text remaining) ⟨0, position⟩ ⟨0, remaining.length⟩ remaining).bind
          fun m => .ok [m] := rfl
    rw [hlast, templateMatchSegment_plain make text hposition (Nat.le_refl _)] at h
    cases hmade : make.getStringLiteralType
      (combineSurrogatePairs ((remaining.take remaining.length).drop position)) with
    | error error =>
      rw [hmade] at h
      cases h
    | ok m =>
      rw [hmade] at h
      cases h
  | cons delimiter delimiters ih =>
    rw [inferLoop_next make text (hne delimiter List.mem_cons_self) delimiters hposition]
    cases hfound : windowPosition delimiter (remaining.drop position) with
    | none =>
      refine ⟨nofun, ?_⟩
      intro _ hsplits
      obtain ⟨found, hsome, -⟩ := hsplits.leftmost
      rw [hfound] at hsome
      cases hsome
    | some found =>
      obtain ⟨hle, after, hafter⟩ := windowPosition_some hfound
      rw [List.length_drop] at hle
      have hlength := congrArg List.length hafter
      rw [List.length_drop, List.length_drop, List.length_append] at hlength
      have hdrop : remaining.drop (position + found + delimiter.length) = after := by
        rw [← List.drop_drop, ← List.drop_drop, hafter, List.drop_left]
      obtain ⟨hfinds, hfails⟩ := ih (fun d hd => hne d (List.mem_cons_of_mem _ hd))
        (position + found + delimiter.length) (by omega)
      rw [Option.elim_some, templateMatchSegment_plain make text (Nat.le_add_right _ _) (by omega)]
      cases make.getStringLiteralType
          (combineSurrogatePairs ((remaining.take (position + found)).drop position)) with
      | error error => exact ⟨nofun, nofun⟩
      | ok m =>
        cases hloop : inferLoop make (plainSource text remaining) delimiters
            ⟨0, position + found + delimiter.length⟩ with
        | ok rest =>
          refine ⟨?_, nofun⟩
          intro _ _
          have hsplits := (hfinds rest hloop)
          rw [hdrop] at hsplits
          have hwhole := hsplits.next ((remaining.drop position).take found) delimiter
          rw [← hafter, List.take_append_drop] at hwhole
          exact hwhole
        | error stop =>
          refine ⟨nofun, ?_⟩
          intro h hsplits
          obtain ⟨leftmost, hleftmost, hsplits⟩ := hsplits.leftmost
          rw [hfound] at hleftmost
          cases hleftmost
          rw [List.drop_drop, ← Nat.add_assoc] at hsplits
          refine hfails ?_ hsplits
          rw [hloop]
          exact h

theorem interleave_suffix (text : Bytes) (delimiters : List Bytes) (suffix : Bytes) (strings : List Bytes)
    (h : strings.length = delimiters.length + 1) :
    interleave (text :: (delimiters ++ [suffix])) strings =
      interleave (text :: (delimiters ++ [[]])) strings ++ suffix := by
  induction delimiters generalizing text strings with
  | nil =>
    obtain ⟨string, rfl⟩ := List.length_eq_one_iff.1 h
    show text ++ string ++ suffix = text ++ string ++ [] ++ suffix
    rw [List.append_nil]
  | cons delimiter delimiters ih =>
    match strings, h with
    | string :: strings, h =>
      show text ++ string ++ interleave (delimiter :: (delimiters ++ [suffix])) strings =
        text ++ string ++ interleave (delimiter :: (delimiters ++ [[]])) strings ++ suffix
      rw [ih delimiter strings (Nat.succ.inj h), ← List.append_assoc]

theorem splits_iff (text start : Bytes) (inner : List Bytes) (suffix : Bytes) :
    Splits text (start :: (inner ++ [suffix])) ↔
      ∃ middle, text = start ++ (middle ++ suffix) ∧ SplitsAt middle inner := by
  have hlength : (start :: (inner ++ [suffix])).length = inner.length + 1 + 1 := by
    rw [List.length_cons, List.length_append]
    rfl
  unfold Splits SplitsAt
  rw [hlength]
  constructor
  · intro ⟨strings, hcount, htext⟩
    rw [interleave_suffix _ _ _ _ (Nat.succ.inj hcount), interleave_text, List.append_assoc] at htext
    exact ⟨_, htext, strings, Nat.succ.inj hcount, rfl⟩
  · intro ⟨middle, htext, strings, hcount, hmiddle⟩
    refine ⟨strings, congrArg Nat.succ hcount, ?_⟩
    rw [interleave_suffix _ _ _ _ hcount, interleave_text, List.append_assoc, htext, hmiddle]

/-- a split has the ends of the target, and the rest of the split between them -/
theorem splits_ends {text start : Bytes} {inner : List Bytes} {suffix : Bytes}
    (h : Splits text (start :: (inner ++ [suffix]))) :
    ¬ EndsDiffer [] text text start suffix ∧
      SplitsAt ((text.take (text.length - suffix.length)).drop start.length) inner := by
  obtain ⟨middle, rfl, hsplits⟩ := (splits_iff _ _ _ _).1 h
  have hlength : (start ++ (middle ++ suffix)).length = start.length + (middle.length + suffix.length) := by
    rw [List.length_append, List.length_append]
  refine ⟨?_, ?_⟩
  · intro hdiffer
    rcases hdiffer with ⟨-, hshort⟩ | hstart | hsuffix
    · omega
    · exact hstart (List.isPrefixOf_iff_prefix.2 ⟨_, rfl⟩)
    · exact hsuffix (List.isSuffixOf_iff_suffix.2 ⟨start ++ middle, List.append_assoc _ _ _⟩)
  · have htake : (start ++ (middle ++ suffix)).take ((start ++ (middle ++ suffix)).length - suffix.length) =
        start ++ middle := by
      rw [← List.append_assoc, List.length_append, Nat.add_sub_cancel, List.take_left]
    rw [htake, List.drop_left]
    exact hsplits

/-- **matches of a template.**  No slice is out of range; matches are one for each placeholder of the
target, made of segments which, written between its texts, are the source with some surrogate halves
joined; on a plain string with no empty text inside the target there are matches just for a split -/
theorem template_matches {E P M : Type} (make : Constructors E P M) (texts : List Bytes) (types : List P)
    (target : List Bytes) (hsource : texts.length = types.length + 1) (htarget : 2 ≤ target.length) :
    inferLiteralParts make texts types target ≠ .error .outOfRange ∧
    (∀ found, inferLiteralParts make texts types target = .ok found → found.length + 1 = target.length ∧
      ∃ segments, List.Forall₂ (fun segment m => make.build segment = .ok m) segments found ∧
        HalvesJoined (spell texts types) (written target segments)) ∧
    (∀ text, texts = [text] → (∀ delimiter ∈ target.tail.dropLast, delimiter ≠ []) →
      (∀ found, inferLiteralParts make texts types target = .ok found → Splits text target) ∧
      (inferLiteralParts make texts types target = .error .noMatch → ¬ Splits text target)) := by
  obtain ⟨before, final, rfl⟩ : ∃ before final, texts = before ++ [final] :=
    ⟨texts.dropLast, texts.getLast (List.ne_nil_of_length_eq_add_one hsource), (List.dropLast_append_getLast _).symm⟩
  obtain ⟨start, inner, suffix, rfl⟩ : ∃ start inner suffix, target = start :: (inner ++ [suffix]) := by
    match target, htarget with
    | start :: second :: rest, _ =>
      exact ⟨start, (second :: rest).dropLast, (second :: rest).getLast (List.cons_ne_nil _ _),
        congrArg (start :: ·) (List.dropLast_append_getLast _).symm⟩
  obtain ⟨first, hfirst⟩ : ∃ first, (before ++ [final])[0]? = some first := by
    cases before with
    | nil => exact ⟨final, rfl⟩
    | cons text before => exact ⟨text, rfl⟩
  have hlength : before.length = types.length := by
    rw [List.length_append] at hsource
    exact Nat.succ.inj hsource
  rw [inferLiteralParts_eq make hfirst]
  by_cases hends : EndsDiffer before first final start suffix
  · rw [if_pos hends]
    refine ⟨(fun h => nomatch h), (fun found h => nomatch h), ?_⟩
    intro text htext _
    refine ⟨(fun found h => nomatch h), ?_⟩
    intro _ hsplits
    obtain ⟨rfl, hfinal⟩ := List.append_eq_singleton_iff.1 htext |>.resolve_right (fun h => nomatch h.2)
    cases hfinal
    cases hfirst
    exact (splits_ends hsplits).1 hends
  · rw [if_neg hends]
    obtain ⟨hok, hholds, hspell⟩ := ends_cut hfirst hlength hends
    obtain ⟨hrange, hfound⟩ := inferLoop_spec make hok inner ⟨0, start.length⟩ hholds start suffix
    refine ⟨hrange, ?_, ?_⟩
    · intro found h
      obtain ⟨segments, hwritten⟩ := hfound found h
      refine ⟨?_, segments, hwritten.made, ?_⟩
      · rw [← hwritten.made.length_eq]
        exact hwritten.count
      · rw [hspell]
        exact hwritten.same
    · intro text htext hne
      obtain ⟨rfl, hfinal⟩ := List.append_eq_singleton_iff.1 htext |>.resolve_right (fun h => nomatch h.2)
      cases hfinal
      cases hfirst
      obtain rfl := List.length_eq_zero_iff.1 hlength.symm
      have hne : ∀ delimiter ∈ inner, delimiter ≠ [] := by
        intro delimiter hdelimiter
        refine hne delimiter ?_
        rw [List.tail_cons, List.dropLast_concat]
        exact hdelimiter
      obtain ⟨hfinds, hfails⟩ := inferLoop_plain make final (final.take (final.length - suffix.length)) inner hne
        start.length hholds.position
      refine ⟨?_, ?_⟩
      · intro found h
        refine (splits_iff _ _ _ _).2 ⟨_, ?_, hfinds found h⟩
        have hpieces : pieces (P := P) final = pieces (start ++
            ((final.take (final.length - suffix.length)).drop start.length ++ suffix)) := by
          rw [pieces_append, pieces_append, ← List.append_assoc]
          exact hspell
        exact List.map_injective_iff.2 (fun _ _ h => Piece.byte.inj h) hpieces
      · intro h hsplits
        exact hfails h (splits_ends hsplits).2

end

/-! ## two templates -/

/-- the segments themselves -/
def asSegments : Constructors Unit Unit (Segment Unit) where
  getStringLiteralType := fun text => .ok (.string text)
  getTemplateLiteralType := fun texts types => .ok (.template texts types)

def letterThenDash : List Bytes := [[0x61], [0x2D], []]

/-- a letter, a type, and two letters around a dash, against a letter and two parts around a dash -/
theorem template_matches_dash :
    inferLiteralParts asSegments [[0x61], [0x62, 0x2D, 0x63]] [()] letterThenDash =
        .ok [.template [[], [0x62]] [()], .string [0x63]] ∧
      ∃ parts, List.Forall₂ (fun segment m => asSegments.build segment = .ok m) parts
          [.template [[], [0x62]] [()], .string [0x63]] ∧
        HalvesJoined (spell [[0x61], [0x62, 0x2D, 0x63]] [()]) (written letterThenDash parts) := by
  have hrun : inferLiteralParts asSegments [[0x61], [0x62, 0x2D, 0x63]] [()] letterThenDash =
      .ok [.template [[], [0x62]] [()], .string [0x63]] := rfl
  exact ⟨hrun, ((template_matches asSegments [[0x61], [0x62, 0x2D, 0x63]] [()] letterThenDash rfl (by decide)).2.1
    _ hrun).2⟩

/-- the code point whose halves are 0xD83D and 0xDE00 -/
def grinning : Bytes := [0xF0, 0x9F, 0x98, 0x80]

def highThenAny : List Bytes := [[0xED, 0xA0, 0xBD], []]

/-- the low half behind the high half of the target is the source once they are joined, and is not found -/
theorem joined_split_missed :
    inferLiteralParts asSegments [grinning] [] highThenAny = .error .noMatch ∧
      (∀ delimiter ∈ highThenAny.tail.dropLast, delimiter ≠ []) ∧
      HalvesJoined (P := Unit) (pieces (interleave highThenAny [[0xED, 0xB8, 0x80]])) (pieces grinning) := by
  refine ⟨rfl, ?_, ?_⟩
  · intro delimiter h
    cases h
  · exact Relation.ReflTransGen.single (JoinStep.join [] [] (rfl : isHighSurrogate 0xD83D = true)
      (rfl : isLowSurrogate 0xDE00 = true))

end Tsr.Checker.TemplateRelation
