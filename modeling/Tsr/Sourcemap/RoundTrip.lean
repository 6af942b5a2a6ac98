import Tsr.Sourcemap.Vlq

/-!
# Source maps: what the generator commits is what the decoder reads

`lastDecoder g rest` is the decoder that has read everything `g` has written, with `rest` to come:
its accumulated state is the generator's last committed position.  One commit moves the generator
and the decoder together (`commit_step`); the invariant `Inv` carries this through every call.

* `Yields d ms d'`        `next` hands out `ms` one by one, from `d` to `d'`;
* `Inv g`                 the decoder yields `g.committed` on what `g` has written;
* `call_inv`, `run_inv`   every successful call keeps it;
* `decodeAll_rawSourceMap`   the round trip.
-/

set_option linter.unusedSectionVars false

namespace Tsr.Sourcemap
open Tsr.Lib.Word Tsr.Lib.Result

/-! ## The two states side by side -/

/-- the decoder that has read what `g` has written, with `rest` to come -/
def lastDecoder (g : Generator) (rest : JsString) : MappingsDecoder where
  rest := rest
  done := false
  pos := g.mappings.length
  generatedLine := g.lastGeneratedLine
  generatedCharacter := g.lastGeneratedCharacter
  sourceIndex := g.lastSourceIndex
  sourceLine := g.lastSourceLine
  sourceCharacter := g.lastSourceCharacter
  nameIndex := g.lastNameIndex
  error := none

/-- a segment ends where `rest` begins -/
def EndsSegment : JsString → Prop
  | [] => True
  | ch :: _ => IsDelimiter ch

/-- a number begins where `bs` begins -/
def StartsNumber : JsString → Prop
  | [] => False
  | ch :: _ => ¬ IsDelimiter ch

/-- a line, column or index that the round trip covers -/
def Small (x : Int64) : Prop := 0 ≤ x.toInt ∧ x.toInt < 2 ^ 62

theorem small_zero : Small 0 := by unfold Small; decide

theorem isVlq_startsNumber (bs rest : JsString) (v : Int64) (h : IsVlq bs v) :
    StartsNumber (bs ++ rest) := by
  obtain ⟨ch, tail, rfl, hch⟩ := h.head
  exact hch

theorem segmentEnd_of_endsSegment (d : MappingsDecoder) (h : EndsSegment d.rest) :
    d.isSourceMappingSegmentEnd = true := by
  unfold MappingsDecoder.isSourceMappingSegmentEnd
  cases hr : d.rest with
  | nil => rfl
  | cons ch tail =>
    rw [hr] at h
    rcases h with rfl | rfl <;> rfl

theorem segmentEnd_of_startsNumber (d : MappingsDecoder) (h : StartsNumber d.rest) :
    d.isSourceMappingSegmentEnd = false := by
  unfold MappingsDecoder.isSourceMappingSegmentEnd
  cases hr : d.rest with
  | nil => rw [hr] at h; exact h.elim
  | cons ch tail =>
    rw [hr] at h
    obtain ⟨h1, h2⟩ := not_or.1 h
    simp [h1, h2]

/-- the number appended for the step from `last` to `pending` -/
theorem append_delta (last pending : Int64) (hl : Small last) (hp : Small pending) :
    ∃ bs, IsVlq bs (pending - last) ∧ ∀ g : Generator,
      g.appendBase64Vlq (pending - last) = .ok { g with mappings := g.mappings ++ bs } := by
  obtain ⟨hl0, hl1⟩ := hl
  obtain ⟨hp0, hp1⟩ := hp
  have hsub := toInt_sub_of_lt pending last hp0 hp1 hl0 hl1
  exact appendBase64Vlq_spec _ (by omega) (by omega)

/-- the decoder adds the number to its field -/
theorem readField_delta (get : MappingsDecoder → Int64)
    (set : MappingsDecoder → Int64 → MappingsDecoder) (invalid : String)
    (hget : ∀ d v, get (set d v) = v) (herr : ∀ d v, (set d v).error = d.error)
    (d : MappingsDecoder) (bs rest : JsString) (pending : Int64) (hp : Small pending)
    (hbs : IsVlq bs (pending - get d)) (hd : d.rest = bs ++ rest) (hok : d.error = none) :
    MappingsDecoder.readField get set invalid d = .ok (set (d.skip bs rest) pending) := by
  unfold MappingsDecoder.readField
  rw [hbs.reads d rest hd]
  have hne : (set (d.skip bs rest) pending).hasReportedError = false := by
    unfold MappingsDecoder.hasReportedError
    rw [herr]
    show d.error.isSome = false
    rw [hok]
    rfl
  have hnn : ¬ pending < 0 := by
    rw [Int64.lt_iff_toInt_lt, Int64.toInt_zero]
    have := hp.1
    omega
  simp only [add_sub_cancel_word, hne, hget, if_neg hnn]
  rfl

section
variable (g : Generator)

/-- 1. relative generated character -/
theorem generatedCharacter_step (hl : Small g.lastGeneratedCharacter)
    (hp : Small g.pendingGeneratedCharacter) :
    ∃ bs, ∃ g' : Generator, (∀ rest, StartsNumber (bs ++ rest)) ∧
      g' = { g with
        mappings := g.mappings ++ bs
        lastGeneratedCharacter := g.pendingGeneratedCharacter } ∧
      g.appendGeneratedCharacter = .ok g' ∧
      ∀ rest, (lastDecoder g (bs ++ rest)).readGeneratedCharacter = .ok (lastDecoder g' rest) := by
  obtain ⟨bs, hbs, happ⟩ := append_delta _ _ hl hp
  refine ⟨bs, _, fun rest => isVlq_startsNumber bs rest _ hbs, rfl, ?_, fun rest => ?_⟩
  · unfold Generator.appendGeneratedCharacter
    rw [happ]
    rfl
  · refine (readField_delta _ _ _ (by intros; rfl) (by intros; rfl) _ bs rest _ hp hbs rfl
      rfl).trans ?_
    simp [lastDecoder, MappingsDecoder.skip]

/-- 2. to 4. relative source index, source line and source character -/
theorem source_step (hl1 : Small g.lastSourceIndex) (hp1 : Small g.pendingSourceIndex)
    (hl2 : Small g.lastSourceLine) (hp2 : Small g.pendingSourceLine)
    (hl3 : Small g.lastSourceCharacter) (hp3 : Small g.pendingSourceCharacter) :
    ∃ b1 b2 b3, ∃ g1 g2 g3 : Generator, (∀ rest, StartsNumber (b1 ++ rest)) ∧
      (∀ rest, StartsNumber (b2 ++ rest)) ∧ (∀ rest, StartsNumber (b3 ++ rest)) ∧
      g3 = { g with
        mappings := g.mappings ++ (b1 ++ b2 ++ b3)
        lastSourceIndex := g.pendingSourceIndex
        lastSourceLine := g.pendingSourceLine
        lastSourceCharacter := g.pendingSourceCharacter } ∧
      g.appendSourcePosition = .ok g3 ∧
      ∀ rest,
        (lastDecoder g (b1 ++ rest)).readSourceIndex = .ok (lastDecoder g1 rest) ∧
        (lastDecoder g1 (b2 ++ rest)).readSourceLine = .ok (lastDecoder g2 rest) ∧
        (lastDecoder g2 (b3 ++ rest)).readSourceCharacter = .ok (lastDecoder g3 rest) := by
  obtain ⟨b1, hb1, happ1⟩ := append_delta _ _ hl1 hp1
  obtain ⟨b2, hb2, happ2⟩ := append_delta _ _ hl2 hp2
  obtain ⟨b3, hb3, happ3⟩ := append_delta _ _ hl3 hp3
  refine ⟨b1, b2, b3,
    { g with mappings := g.mappings ++ b1, lastSourceIndex := g.pendingSourceIndex },
    { g with
      mappings := g.mappings ++ b1 ++ b2
      lastSourceIndex := g.pendingSourceIndex
      lastSourceLine := g.pendingSourceLine }, _,
    fun rest => isVlq_startsNumber b1 rest _ hb1, fun rest => isVlq_startsNumber b2 rest _ hb2,
    fun rest => isVlq_startsNumber b3 rest _ hb3, rfl, ?_, fun rest => ⟨?_, ?_, ?_⟩⟩
  · unfold Generator.appendSourcePosition
    simp only [happ1, happ2, happ3, ok_bind, List.append_assoc]
    rfl
  · refine (readField_delta _ _ _ (by intros; rfl) (by intros; rfl) _ b1 rest _ hp1 hb1 rfl
      rfl).trans ?_
    simp [lastDecoder, MappingsDecoder.skip]
  · refine (readField_delta _ _ _ (by intros; rfl) (by intros; rfl) _ b2 rest _ hp2 hb2 rfl
      rfl).trans ?_
    simp [lastDecoder, MappingsDecoder.skip, Nat.add_assoc]
  · refine (readField_delta _ _ _ (by intros; rfl) (by intros; rfl) _ b3 rest _ hp3 hb3 rfl
      rfl).trans ?_
    simp [lastDecoder, MappingsDecoder.skip, Nat.add_assoc]

/-- 5. relative name index -/
theorem name_step (hl : Small g.lastNameIndex) (hp : Small g.pendingNameIndex) :
    ∃ bs, ∃ g' : Generator, (∀ rest, StartsNumber (bs ++ rest)) ∧
      g' = { g with mappings := g.mappings ++ bs, lastNameIndex := g.pendingNameIndex } ∧
      g.appendNameIndex = .ok g' ∧
      ∀ rest, (lastDecoder g (bs ++ rest)).readNameIndex = .ok (lastDecoder g' rest) := by
  obtain ⟨bs, hbs, happ⟩ := append_delta _ _ hl hp
  refine ⟨bs, _, fun rest => isVlq_startsNumber bs rest _ hbs, rfl, ?_, fun rest => ?_⟩
  · unfold Generator.appendNameIndex
    rw [happ]
    rfl
  · refine (readField_delta _ _ _ (by intros; rfl) (by intros; rfl) _ bs rest _ hp hbs rfl
      rfl).trans ?_
    simp [lastDecoder, MappingsDecoder.skip]

end

/-! ## One segment -/

section
variable (d d1 d2 d3 d4 d5 : MappingsDecoder) (h1 : d.readGeneratedCharacter = .ok d1)
include h1

theorem segment_generated (hend : EndsSegment d1.rest) :
    d.segment = .ok (d1.captureMapping false false, d1) := by
  simp only [MappingsDecoder.segment, h1, ok_bind, segmentEnd_of_endsSegment d1 hend]
  rfl

variable (n1 : StartsNumber d1.rest) (h2 : d1.readSourceIndex = .ok d2)
  (n2 : StartsNumber d2.rest) (h3 : d2.readSourceLine = .ok d3)
  (n3 : StartsNumber d3.rest) (h4 : d3.readSourceCharacter = .ok d4)
include n1 h2 n2 h3 n3 h4

theorem segment_source (hend : EndsSegment d4.rest) :
    d.segment = .ok (d4.captureMapping true false, d4) := by
  simp only [MappingsDecoder.segment, h1, h2, h3, h4, ok_bind, segmentEnd_of_startsNumber d1 n1,
    segmentEnd_of_startsNumber d2 n2, segmentEnd_of_startsNumber d3 n3,
    segmentEnd_of_endsSegment d4 hend, MappingsDecoder.failIf]
  rfl

theorem segment_name (n4 : StartsNumber d4.rest) (h5 : d4.readNameIndex = .ok d5)
    (hend : EndsSegment d5.rest) :
    d.segment = .ok (d5.captureMapping true true, d5) := by
  simp only [MappingsDecoder.segment, h1, h2, h3, h4, h5, ok_bind,
    segmentEnd_of_startsNumber d1 n1, segmentEnd_of_startsNumber d2 n2,
    segmentEnd_of_startsNumber d3 n3, segmentEnd_of_startsNumber d4 n4,
    segmentEnd_of_endsSegment d5 hend, MappingsDecoder.failIf]
  rfl

end

/-! ## Delimiters -/

/-- the decoder counts a line per `;` -/
theorem nextLoop_semicolon (d : MappingsDecoder) (rest : JsString) :
    d.nextLoop (semicolon :: rest) = MappingsDecoder.nextLoop { d.advance rest with
      generatedLine := d.generatedLine + 1, generatedCharacter := 0 } rest := by
  rw [MappingsDecoder.nextLoop, if_pos rfl]

theorem nextLoop_comma (d : MappingsDecoder) (rest : JsString) :
    d.nextLoop (comma :: rest) = (d.advance rest).nextLoop rest := by
  rw [MappingsDecoder.nextLoop, if_neg (by decide), if_pos rfl]

theorem nextLoop_segment (d d' : MappingsDecoder) (bytes : JsString) (m : Mapping)
    (hnum : StartsNumber bytes) (h : d.segment = .ok (m, d')) :
    d.nextLoop bytes = (some m, d') := by
  cases bytes with
  | nil => exact hnum.elim
  | cons ch tail =>
    obtain ⟨hc, hs⟩ := not_or.1 hnum
    rw [MappingsDecoder.nextLoop, if_neg hs, if_neg hc, h]

/-- the generator after `n` line delimiters -/
def Generator.afterLines (g : Generator) (n : Nat) : Generator :=
  { g with
    mappings := g.mappings ++ List.replicate n semicolon
    lastGeneratedLine := g.pendingGeneratedLine }

theorem toInt_add_one (x : Int64) (h : Small x) : (x + 1).toInt = x.toInt + 1 := by
  obtain ⟨h0, h1⟩ := h
  rw [Int64.toInt_add]
  apply Int.bmod_eq_of_le <;> simp <;> omega

theorem lineLoop_spec (n : Nat) (g : Generator) (hp : Small g.pendingGeneratedLine)
    (hl : 0 ≤ g.lastGeneratedLine.toInt)
    (hn : g.lastGeneratedLine.toInt + (n + 1) = g.pendingGeneratedLine.toInt) :
    g.lineLoop (n + 1) = g.afterLines (n + 1) := by
  induction n generalizing g with
  | zero =>
    have hinc := toInt_add_one g.lastGeneratedLine ⟨hl, by have := hp.2; omega⟩
    have heq : g.lastGeneratedLine + 1 = g.pendingGeneratedLine := Int64.toInt_inj.1 (by omega)
    simp [Generator.lineLoop, Generator.appendMappingCharCode, Generator.afterLines, heq]
  | succ n ih =>
    have hinc := toInt_add_one g.lastGeneratedLine ⟨hl, by have := hp.2; omega⟩
    have hmore : ¬ (g.lastGeneratedLine + 1 ≥ g.pendingGeneratedLine) := by
      show ¬ (g.pendingGeneratedLine ≤ g.lastGeneratedLine + 1)
      rw [Int64.le_iff_toInt_le]
      omega
    have hrec := ih { g.appendMappingCharCode semicolon with
      lastGeneratedLine := g.lastGeneratedLine + 1 } hp
      (by show 0 ≤ (g.lastGeneratedLine + 1).toInt; omega)
      (by show (g.lastGeneratedLine + 1).toInt + (n + 1) = g.pendingGeneratedLine.toInt; omega)
    rw [Generator.lineLoop]
    show (if g.lastGeneratedLine + 1 ≥ g.pendingGeneratedLine then _ else _) = _
    rw [if_neg hmore]
    refine hrec.trans ?_
    simp [Generator.afterLines, Generator.appendMappingCharCode, List.replicate_succ]

/-- the decoder on a run of line delimiters -/
theorem nextLoop_lines (n : Nat) (d : MappingsDecoder) (rest : JsString) :
    d.nextLoop (List.replicate (n + 1) semicolon ++ rest)
      = MappingsDecoder.nextLoop { d with
          rest := rest
          pos := d.pos + (n + 1)
          generatedLine := d.generatedLine + Int64.ofNat (n + 1)
          generatedCharacter := 0 } rest := by
  induction n generalizing d with
  | zero => exact nextLoop_semicolon d rest
  | succ n ih =>
    have hline : d.generatedLine + 1 + Int64.ofNat (n + 1)
        = d.generatedLine + Int64.ofNat (n + 1 + 1) := by
      rw [Int64.ofNat_add (n + 1) 1, Int64.add_assoc, Int64.add_comm 1]
      rfl
    have hpos : d.pos + 1 + (n + 1) = d.pos + (n + 1 + 1) := by omega
    rw [List.replicate_succ, List.cons_append, nextLoop_semicolon, ih]
    simp only [MappingsDecoder.advance, hline, hpos]

theorem with_lastGeneratedLine (g : Generator) (h : g.lastGeneratedLine = g.pendingGeneratedLine) :
    { g with lastGeneratedLine := g.pendingGeneratedLine } = g := by
  cases g
  simp only at h
  subst h
  rfl

/-- what a delimiter leaves of the generator, `n` new lines and a `,` if `n = 0` -/
theorem delimiters_step (g : Generator) (hl : Small g.lastGeneratedLine)
    (hp : Small g.pendingGeneratedLine)
    (hle : g.lastGeneratedLine.toInt ≤ g.pendingGeneratedLine.toInt) :
    ∃ bs, ∃ g' : Generator, ∃ column : Int64,
      (column = 0 ∨ column = g.lastGeneratedCharacter) ∧
      (g.hasLast = true → ∀ rest, EndsSegment (bs ++ rest)) ∧
      g' = { g with
        mappings := g.mappings ++ bs
        lastGeneratedLine := g.pendingGeneratedLine
        lastGeneratedCharacter := column } ∧
      g.appendDelimiters = .ok g' ∧
      ∀ rest, (lastDecoder g (bs ++ rest)).nextLoop (bs ++ rest)
        = (lastDecoder g' rest).nextLoop rest := by
  unfold Generator.appendDelimiters
  by_cases hlt : g.lastGeneratedLine.toInt < g.pendingGeneratedLine.toInt
  · have hlt' : g.lastGeneratedLine < g.pendingGeneratedLine := Int64.lt_iff_toInt_lt.2 hlt
    have hsub := toInt_sub_of_lt _ _ hp.1 hp.2 hl.1 hl.2
    obtain ⟨n, hn⟩ : ∃ n : Nat,
        (g.pendingGeneratedLine - g.lastGeneratedLine).toNatClampNeg = n + 1 := by
      refine ⟨(g.pendingGeneratedLine - g.lastGeneratedLine).toNatClampNeg - 1, ?_⟩
      rw [← Int64.toNat_toInt, hsub]
      omega
    have hn' : g.lastGeneratedLine.toInt + (n + 1) = g.pendingGeneratedLine.toInt := by
      rw [← Int64.toNat_toInt, hsub] at hn
      omega
    have hline : g.lastGeneratedLine + Int64.ofNat (n + 1) = g.pendingGeneratedLine := by
      have h := add_sub_cancel_word g.lastGeneratedLine g.pendingGeneratedLine
      rw [← hn, Int64.ofNat_toNatClampNeg _ (by
        rw [Int64.le_iff_toInt_le, hsub, Int64.toInt_zero]; omega)]
      exact h
    refine ⟨List.replicate (n + 1) semicolon, _, 0, Or.inl rfl, fun _ rest => ?_, rfl, ?_,
      fun rest => ?_⟩
    · exact Or.inr rfl
    · simp only [if_pos hlt', hn, lineLoop_spec n g hp hl.1 hn']
      rfl
    · rw [nextLoop_lines]
      simp only [lastDecoder, hline, List.length_append, List.length_replicate]
  · have heq : g.lastGeneratedLine = g.pendingGeneratedLine := Int64.toInt_inj.1 (by omega)
    have hnlt : ¬ g.lastGeneratedLine < g.pendingGeneratedLine := by
      rw [Int64.lt_iff_toInt_lt]; exact hlt
    rw [if_neg hnlt, if_neg (not_not.2 heq)]
    by_cases hlast : g.hasLast = true
    · refine ⟨[comma], _, _, Or.inr rfl, fun _ rest => Or.inl rfl, rfl, ?_, fun rest => ?_⟩
      · rw [if_pos hlast]
        exact congrArg Except.ok (with_lastGeneratedLine (g.appendMappingCharCode comma) heq).symm
      · rw [List.singleton_append, nextLoop_comma]
        simp [lastDecoder, MappingsDecoder.advance, heq]
    · refine ⟨[], _, _, Or.inr rfl, fun h => absurd h hlast, rfl, ?_, fun rest => ?_⟩
      · rw [if_neg hlast, List.append_nil]
        exact congrArg Except.ok (with_lastGeneratedLine g heq).symm
      · simp [lastDecoder, heq]

/-! ## One commit -/

def Generator.lastFields (g : Generator) : List Int64 :=
  [g.lastGeneratedLine, g.lastGeneratedCharacter, g.lastSourceIndex, g.lastSourceLine,
    g.lastSourceCharacter, g.lastNameIndex]

def Generator.pendingFields (g : Generator) : List Int64 :=
  [g.pendingGeneratedLine, g.pendingGeneratedCharacter, g.pendingSourceIndex, g.pendingSourceLine,
    g.pendingSourceCharacter, g.pendingNameIndex]

/-- positions are in range, and the last line is not behind the pending one -/
structure InRange (g : Generator) : Prop where
  last : ∀ x ∈ g.lastFields, Small x
  pending : ∀ x ∈ g.pendingFields, Small x
  line_le : g.lastGeneratedLine.toInt ≤ g.pendingGeneratedLine.toInt

/-- what `appendSource` leaves of the generator -/
def Generator.afterSource (g : Generator) (bs : JsString) : Generator :=
  { g with
    mappings := g.mappings ++ bs
    lastSourceIndex := if g.hasPendingSource then g.pendingSourceIndex else g.lastSourceIndex
    lastSourceLine := if g.hasPendingSource then g.pendingSourceLine else g.lastSourceLine
    lastSourceCharacter :=
      if g.hasPendingSource then g.pendingSourceCharacter else g.lastSourceCharacter
    lastNameIndex :=
      if g.hasPendingSource && g.hasPendingName then g.pendingNameIndex else g.lastNameIndex }

/-- the rest of a segment, behind the generated character -/
theorem appendSource_step (g : Generator) (hl : ∀ x ∈ g.lastFields, Small x)
    (hp : ∀ x ∈ g.pendingFields, Small x) :
    ∃ bs, g.appendSource = .ok (g.afterSource bs) ∧ ∀ (d : MappingsDecoder) rest, EndsSegment rest →
      d.readGeneratedCharacter = .ok (lastDecoder g (bs ++ rest)) →
      d.segment = .ok ((lastDecoder (g.afterSource bs) rest).captureMapping g.hasPendingSource
        (g.hasPendingSource && g.hasPendingName), lastDecoder (g.afterSource bs) rest) := by
  unfold Generator.appendSource
  by_cases hs : g.hasPendingSource = true
  · obtain ⟨b1, b2, b3, g1, g2, g3, n1, n2, n3, hg3, happ, hread⟩ := source_step g
      (hl _ (by simp [Generator.lastFields])) (hp _ (by simp [Generator.pendingFields]))
      (hl _ (by simp [Generator.lastFields])) (hp _ (by simp [Generator.pendingFields]))
      (hl _ (by simp [Generator.lastFields])) (hp _ (by simp [Generator.pendingFields]))
    have hname : g3.hasPendingName = g.hasPendingName := by rw [hg3]
    rw [if_pos hs, happ, ok_bind, hname]
    by_cases hn : g.hasPendingName = true
    · obtain ⟨b4, g4, n4, hg4, happ4, hread4⟩ := name_step g3
        (by rw [hg3]; exact hl _ (by simp [Generator.lastFields]))
        (by rw [hg3]; exact hp _ (by simp [Generator.pendingFields]))
      have hsn : (g.hasPendingSource && g.hasPendingName) = true := by rw [hs, hn]; rfl
      have hg : g.afterSource (b1 ++ b2 ++ b3 ++ b4) = g4 := by
        simp only [Generator.afterSource, if_pos hs, if_pos hsn, hg4, hg3, List.append_assoc]
      refine ⟨b1 ++ b2 ++ b3 ++ b4, by rw [hg, if_pos hn, happ4], fun d rest hend hd => ?_⟩
      rw [hg, hsn, hs]
      exact segment_name d (lastDecoder g (b1 ++ (b2 ++ (b3 ++ (b4 ++ rest))))) _ _ _ _
        (by simpa using hd) (n1 _) (hread _).1 (n2 _) (hread _).2.1 (n3 _) (hread _).2.2 (n4 _)
        (hread4 _) hend
    · have hsn : ¬ (g.hasPendingSource && g.hasPendingName) = true := by
        rw [hs, Bool.true_and]; exact hn
      have hg : g.afterSource (b1 ++ b2 ++ b3) = g3 := by
        simp only [Generator.afterSource, if_pos hs, if_neg hsn, hg3]
      refine ⟨b1 ++ b2 ++ b3, by rw [hg, if_neg hn], fun d rest hend hd => ?_⟩
      rw [hg, Bool.eq_false_iff.2 hsn, hs]
      exact segment_source d (lastDecoder g (b1 ++ (b2 ++ (b3 ++ rest)))) _ _ _
        (by simpa using hd) (n1 _) (hread _).1 (n2 _) (hread _).2.1 (n3 _) (hread _).2.2 hend
  · have hsn : ¬ (g.hasPendingSource && g.hasPendingName) = true := fun h =>
      hs (Bool.and_eq_true_iff.1 h).1
    have hg : g.afterSource [] = g := by
      simp only [Generator.afterSource, if_neg hs, if_neg hsn, List.append_nil]
    refine ⟨[], by rw [hg, if_neg hs], fun d rest hend hd => ?_⟩
    rw [hg, Bool.eq_false_iff.2 hsn, Bool.eq_false_iff.2 hs]
    exact segment_generated d _ hd hend

/-- what a commit leaves of the generator -/
def Generator.afterCommit (g : Generator) (bs : JsString) : Generator :=
  { g.afterSource bs with
    lastGeneratedLine := g.pendingGeneratedLine
    lastGeneratedCharacter := g.pendingGeneratedCharacter
    hasLast := true
    committed := g.committed ++ [g.pendingMapping] }

/-- the decoder behind a commit holds the committed mapping -/
theorem capture_afterCommit (g : Generator) (bs rest : JsString) :
    (lastDecoder (g.afterCommit bs) rest).captureMapping g.hasPendingSource
      (g.hasPendingSource && g.hasPendingName) = g.pendingMapping := by
  simp only [MappingsDecoder.captureMapping, lastDecoder, Generator.afterCommit,
    Generator.afterSource, Generator.pendingMapping]
  split_ifs <;> rfl

/-- **A commit appends one segment, and the decoder reads the pending mapping off it.** -/
theorem commit_step (g : Generator) (hr : InRange g) (hc : g.shouldCommitMapping = true) :
    ∃ bs, bs ≠ [] ∧ (g.hasLast = true → ∀ rest, EndsSegment (bs ++ rest)) ∧
      g.commitPendingMapping = .ok (g.afterCommit bs) ∧
      ∀ rest, EndsSegment rest → (lastDecoder g (bs ++ rest)).next
        = (some g.pendingMapping, lastDecoder (g.afterCommit bs) rest) := by
  obtain ⟨b0, g0, column, hcol, hend, hg0, happ0, hread0⟩ := delimiters_step g
    (hr.last _ (by simp [Generator.lastFields])) (hr.pending _ (by simp [Generator.pendingFields]))
    hr.line_le
  have hcolumn : Small column := by
    rcases hcol with rfl | rfl
    · exact small_zero
    · exact hr.last _ (by simp [Generator.lastFields])
  obtain ⟨b1, g1, hnum1, hg1, happ1, hread1⟩ := generatedCharacter_step g0
    (by rw [hg0]; exact hcolumn) (by rw [hg0]; exact hr.pending _ (by simp [Generator.pendingFields]))
  have hpf : g1.pendingFields = g.pendingFields := by rw [hg1, hg0]; rfl
  have hlf : ∀ x ∈ g1.lastFields, x ∈ g.lastFields ∨ x ∈ g.pendingFields := by
    rw [hg1, hg0]
    simp [Generator.lastFields, Generator.pendingFields]
  obtain ⟨b2, happ2, hread2⟩ := appendSource_step g1
    (fun x hx => (hlf x hx).elim (hr.last x) (hr.pending x)) (by rw [hpf]; exact hr.pending)
  have hafter : ({ g1.afterSource b2 with
      hasLast := true, committed := (g1.afterSource b2).committed ++ [g.pendingMapping] } : Generator)
      = g.afterCommit (b0 ++ (b1 ++ b2)) := by
    rw [hg1, hg0]
    simp [Generator.afterCommit, Generator.afterSource]
  have hlast : ∀ rest, lastDecoder (g1.afterSource b2) rest
      = lastDecoder (g.afterCommit (b0 ++ (b1 ++ b2))) rest := fun rest => by
    rw [← hafter]
    rfl
  refine ⟨b0 ++ (b1 ++ b2), ?_, fun hlast rest => ?_, ?_, fun rest hrest => ?_⟩
  · intro hnil
    have := hnum1 []
    simp_all [StartsNumber]
  · rw [List.append_assoc]
    exact hend hlast _
  · unfold Generator.commitPendingMapping
    simp only [hc, happ0, happ1, ok_bind, happ2]
    rw [← hafter]
    rfl
  · show (lastDecoder g (b0 ++ (b1 ++ b2) ++ rest)).nextLoop (b0 ++ (b1 ++ b2) ++ rest) = _
    rw [List.append_assoc, hread0]
    have hseg := hread2 _ rest hrest (hread1 _)
    rw [List.append_assoc]
    have hs1 : g1.hasPendingSource = g.hasPendingSource := by rw [hg1, hg0]
    have hn1 : g1.hasPendingName = g.hasPendingName := by rw [hg1, hg0]
    rw [nextLoop_segment _ _ _ _ (hnum1 _) hseg, hlast, hs1, hn1, capture_afterCommit]

/-! ## Whole runs -/

/-- `next` hands out the mappings `ms` one by one -/
inductive Yields : MappingsDecoder → List Mapping → MappingsDecoder → Prop where
  | refl (d : MappingsDecoder) : Yields d [] d
  | step (d d1 d2 : MappingsDecoder) (m : Mapping) (ms : List Mapping)
      (hnext : d.next = (some m, d1)) (hlen : d1.rest.length < d.rest.length)
      (hrest : Yields d1 ms d2) : Yields d (m :: ms) d2

theorem yields_append {d d1 d2 : MappingsDecoder} {ms ms' : List Mapping} (h : Yields d ms d1)
    (h' : Yields d1 ms' d2) : Yields d (ms ++ ms') d2 := by
  induction h with
  | refl d => exact h'
  | step d d1 _ m ms hnext hlen _ ih => exact Yields.step d d1 d2 m _ hnext hlen (ih h')

theorem values_of_yields {d d' : MappingsDecoder} {ms : List Mapping} (h : Yields d ms d')
    (hend : d'.rest = []) (hdone : d'.done = false) (fuel : Nat) (hfuel : d.rest.length < fuel) :
    d.values fuel = (ms, { d' with done := true }) := by
  induction h generalizing fuel with
  | refl d =>
    cases fuel with
    | zero => omega
    | succ fuel =>
      have hnext : d.next = (none, { d with done := true }) := by
        unfold MappingsDecoder.next
        rw [if_neg (by simp [hdone])]
        exact congrArg d.nextLoop hend
      rw [MappingsDecoder.values, hnext]
  | step d d1 d2 m ms hnext hlen _ ih =>
    cases fuel with
    | zero => omega
    | succ fuel =>
      simp only [MappingsDecoder.values, hnext, ih hend hdone fuel (by omega)]

/-- The decoder yields the committed mappings on what the generator has written.  Before the
first commit nothing has to separate what is written from what comes next. -/
structure Inv (g : Generator) : Prop extends InRange g where
  name_source : g.hasPendingName = true → g.hasPendingSource = true
  decodes : ∀ rest, (g.hasLast = true → EndsSegment rest) →
    Yields (decodeMappings (g.mappings ++ rest)) g.committed (lastDecoder g rest)

theorem inv_newGenerator (file sourceRoot : JsString) : Inv (newGenerator file sourceRoot) where
  last := by
    intro x hx
    simp [Generator.lastFields, newGenerator] at hx
    subst hx
    exact small_zero
  pending := by
    intro x hx
    simp [Generator.pendingFields, newGenerator] at hx
    subst hx
    exact small_zero
  line_le := le_refl _
  name_source := fun h => absurd h Bool.false_ne_true
  decodes := fun rest _ => Yields.refl _

/-- only the written part and the ranges matter -/
theorem Inv.setPending {g g' : Generator} (hg : Inv g) (hm : g'.mappings = g.mappings)
    (hl : g'.lastFields = g.lastFields) (hh : g'.hasLast = g.hasLast)
    (hc : g'.committed = g.committed) (hp : ∀ x ∈ g'.pendingFields, Small x)
    (hline : g.pendingGeneratedLine.toInt ≤ g'.pendingGeneratedLine.toInt)
    (hns : g'.hasPendingName = true → g'.hasPendingSource = true) : Inv g' := by
  have hl' := hl
  simp only [Generator.lastFields, List.cons.injEq] at hl'
  obtain ⟨h1, h2, h3, h4, h5, h6, _⟩ := hl'
  refine ⟨⟨by rw [hl]; exact hg.last, hp, ?_⟩, hns, fun rest hrest => ?_⟩
  · rw [h1]
    exact le_trans hg.line_le hline
  · have hd : lastDecoder g' rest = lastDecoder g rest := by
      simp only [lastDecoder, h1, h2, h3, h4, h5, h6, hm]
    rw [hm, hc, hd]
    exact hg.decodes rest (by rw [← hh]; exact hrest)

theorem afterCommit_inv (g : Generator) (hg : Inv g) (bs : JsString) (hne : bs ≠ [])
    (hend : g.hasLast = true → ∀ rest, EndsSegment (bs ++ rest))
    (hnext : ∀ rest, EndsSegment rest → (lastDecoder g (bs ++ rest)).next
      = (some g.pendingMapping, lastDecoder (g.afterCommit bs) rest)) :
    Inv (g.afterCommit bs) where
  last := by
    intro x hx
    have h : x ∈ g.lastFields ∨ x ∈ g.pendingFields := by
      simp only [Generator.lastFields, Generator.afterCommit, Generator.afterSource,
        List.mem_cons, List.not_mem_nil, or_false] at hx
      simp only [Generator.lastFields, Generator.pendingFields, List.mem_cons, List.not_mem_nil,
        or_false]
      split_ifs at hx <;> tauto
    exact h.elim (hg.last x) (hg.pending x)
  pending := hg.pending
  line_le := le_refl _
  name_source := hg.name_source
  decodes := by
    intro rest hrest
    show Yields (decodeMappings (g.mappings ++ bs ++ rest)) (g.committed ++ [g.pendingMapping]) _
    rw [List.append_assoc]
    refine yields_append (hg.decodes (bs ++ rest) fun h => hend h rest) ?_
    refine Yields.step _ _ _ _ _ (hnext rest (hrest rfl)) ?_ (Yields.refl _)
    show rest.length < (bs ++ rest).length
    have := List.length_pos_of_ne_nil hne
    rw [List.length_append]
    omega

/-- a commit succeeds, keeps the invariant and leaves the pending mapping alone -/
theorem commitPendingMapping_inv (g : Generator) (hg : Inv g) :
    ∃ g', g.commitPendingMapping = .ok g' ∧ Inv g' ∧ g'.pendingFields = g.pendingFields := by
  by_cases hc : g.shouldCommitMapping = true
  · obtain ⟨bs, hne, hend, hok, hnext⟩ := commit_step g hg.toInRange hc
    exact ⟨_, hok, afterCommit_inv g hg bs hne hend hnext, rfl⟩
  · refine ⟨g, ?_, hg, rfl⟩
    unfold Generator.commitPendingMapping
    rw [Bool.eq_false_iff.2 hc]
    rfl

theorem startPending_inv (g : Generator) (hg : Inv g) (gl gc : Int64) (hgl : Small gl)
    (hgc : Small gc) (hline : g.pendingGeneratedLine.toInt ≤ gl.toInt) :
    Inv (g.startPending gl gc) := by
  refine hg.setPending rfl rfl rfl rfl ?_ hline (fun h => absurd h Bool.false_ne_true)
  have hp := hg.pending
  simp only [Generator.pendingFields, List.forall_mem_cons] at hp ⊢
  exact ⟨hgl, hgc, hp.2.2⟩

theorem setPendingSource_inv (g : Generator) (hg : Inv g) (si sl sc ni : Int64)
    (hsrc : si ≠ sourceIndexNotSet ∧ sl ≠ notSet ∧ sc ≠ notSetUtf16 → Small si ∧ Small sl ∧ Small sc)
    (hni : ni ≠ nameIndexNotSet → Small ni) : Inv (g.setPendingSource si sl sc ni) := by
  have hp := hg.pending
  simp only [Generator.pendingFields, List.forall_mem_cons] at hp
  unfold Generator.setPendingSource
  by_cases hset : si ≠ sourceIndexNotSet ∧ sl ≠ notSet ∧ sc ≠ notSetUtf16
  · obtain ⟨hsi, hsl, hsc⟩ := hsrc hset
    rw [if_pos hset]
    by_cases hname : ni ≠ nameIndexNotSet
    · simp only [if_pos hname]
      refine hg.setPending rfl rfl rfl rfl ?_ (le_refl _) (fun _ => rfl)
      simp only [Generator.pendingFields, List.forall_mem_cons]
      exact ⟨hp.1, hp.2.1, hsi, hsl, hsc, hni hname, hp.2.2.2.2.2.2⟩
    · simp only [if_neg hname]
      refine hg.setPending rfl rfl rfl rfl ?_ (le_refl _) (fun _ => rfl)
      simp only [Generator.pendingFields, List.forall_mem_cons]
      exact ⟨hp.1, hp.2.1, hsi, hsl, hsc, hp.2.2.2.2.2⟩
  · rw [if_neg hset]
    exact hg

theorem addMapping_inv (g : Generator) (hg : Inv g) (gl gc si sl sc ni : Int64) (hgl : Small gl)
    (hgc : Small gc) (hline : g.pendingGeneratedLine.toInt ≤ gl.toInt)
    (hsrc : si ≠ sourceIndexNotSet ∧ sl ≠ notSet ∧ sc ≠ notSetUtf16 → Small si ∧ Small sl ∧ Small sc)
    (hni : ni ≠ nameIndexNotSet → Small ni) :
    ∃ g', g.addMapping gl gc si sl sc ni = .ok g' ∧ Inv g' := by
  unfold Generator.addMapping
  split
  · obtain ⟨g1, hok, hg1, hp⟩ := commitPendingMapping_inv g hg
    have hline1 : g1.pendingGeneratedLine.toInt ≤ gl.toInt := by
      simp only [Generator.pendingFields, List.cons.injEq] at hp
      rw [hp.1]
      exact hline
    rw [hok]
    exact ⟨_, rfl, setPendingSource_inv _ (startPending_inv g1 hg1 gl gc hgl hgc hline1)
      si sl sc ni hsrc hni⟩
  · exact ⟨_, rfl, setPendingSource_inv g hg si sl sc ni hsrc hni⟩

/-! ## Calls -/

/-- a check that passed -/
theorem failIf_eq_ok (p : Prop) [Decidable p] (message : String) (u : Unit) :
    Generator.failIf p message = .ok u ↔ ¬ p := by
  unfold Generator.failIf
  by_cases hp : p <;> simp [hp]

theorem small_of_not_neg (x : Int64) (h : ¬ x < 0) (hlt : x.toInt < 2 ^ 62) : Small x := by
  rw [Int64.lt_iff_toInt_lt, Int64.toInt_zero] at h
  exact ⟨by omega, hlt⟩

theorem checkSourceMapping_eq_ok (g : Generator) (gl gc si sl sc : Int64) (u : Unit)
    (h : g.checkSourceMapping gl gc si sl sc = .ok u) :
    ¬ gl < g.pendingGeneratedLine ∧ ¬ gc < 0 ∧ ¬ si < 0 ∧ ¬ sl < 0 ∧ ¬ sc < 0 := by
  unfold Generator.checkSourceMapping at h
  simp only [bind_eq_ok, failIf_eq_ok, not_or] at h
  obtain ⟨_, h1, _, h2, _, h3, _, h4, h5⟩ := h
  exact ⟨h1, h2, h3.1, h4, h5⟩

section
variable (g : Generator) (hg : Inv g) (gl gc : Int64) (hb : ∀ v ∈ [gl, gc], v.toInt < 2 ^ 62)
include hg

/-- a line that does not backtrack is in range -/
theorem line_of_not_lt (hgl : gl.toInt < 2 ^ 62) (h : ¬ gl < g.pendingGeneratedLine) :
    Small gl ∧ g.pendingGeneratedLine.toInt ≤ gl.toInt := by
  have h0 := (hg.pending g.pendingGeneratedLine (by simp [Generator.pendingFields])).1
  rw [Int64.lt_iff_toInt_lt] at h
  exact ⟨⟨by omega, hgl⟩, by omega⟩

include hb in
theorem addGeneratedMapping_inv (g' : Generator) (h : g.addGeneratedMapping gl gc = .ok g') :
    Inv g' := by
  unfold Generator.addGeneratedMapping at h
  simp only [bind_eq_ok, failIf_eq_ok] at h
  obtain ⟨_, h1, _, h2, g1, hadd, hret⟩ := h
  obtain ⟨hgl, hline⟩ := line_of_not_lt g hg gl (hb _ (by simp)) h1
  obtain ⟨g2, hadd2, hg2⟩ := addMapping_inv g hg gl gc sourceIndexNotSet notSet notSetUtf16
    nameIndexNotSet hgl (small_of_not_neg gc h2 (hb _ (by simp))) hline
    (fun h => absurd rfl h.1) (fun h => absurd rfl h)
  rw [hadd2] at hadd
  cases hadd
  cases hret
  exact hg2.setPending rfl rfl rfl rfl hg2.pending (le_refl _) (fun h => absurd h Bool.false_ne_true)

end

/-- the two calls with a source, behind their checks -/
theorem addSourced_inv (g : Generator) (hg : Inv g) (gl gc si sl sc ni : Int64) (u : Unit)
    (hcheck : g.checkSourceMapping gl gc si sl sc = .ok u)
    (hb : ∀ v ∈ [gl, gc, si, sl, sc], v.toInt < 2 ^ 62) (hni : ni ≠ nameIndexNotSet → Small ni)
    (g' : Generator) (h : (if g.keepsPendingMapping gl gc then Except.ok g
      else g.addMapping gl gc si sl sc ni) = .ok g') : Inv g' := by
  obtain ⟨h1, h2, h3, h4, h5⟩ := checkSourceMapping_eq_ok g gl gc si sl sc u hcheck
  obtain ⟨hgl, hline⟩ := line_of_not_lt g hg gl (hb _ (by simp)) h1
  split at h
  · cases h
    exact hg
  · obtain ⟨g2, hadd, hg2⟩ := addMapping_inv g hg gl gc si sl sc ni hgl
      (small_of_not_neg gc h2 (hb _ (by simp))) hline
      (fun _ => ⟨small_of_not_neg si h3 (hb _ (by simp)), small_of_not_neg sl h4 (hb _ (by simp)),
        small_of_not_neg sc h5 (hb _ (by simp))⟩) hni
    rw [hadd] at h
    cases h
    exact hg2

/-- the source and name tables play no part -/
theorem setTables_inv (g : Generator) (hg : Inv g) (rawSources sources names : List JsString)
    (sourceMap nameMap : Std.ExtTreeMap JsString Int64) (contents : List (Option JsString)) :
    Inv { g with
      rawSources := rawSources, sources := sources, sourceToSourceIndexMap := sourceMap
      sourcesContent := contents, names := names, nameToNameIndexMap := nameMap } :=
  hg.setPending rfl rfl rfl rfl hg.pending (le_refl _) hg.name_source

section
variable (relative : JsString → JsString)

/-- **Every successful call keeps the invariant.** -/
theorem call_inv (g g' : Generator) (hg : Inv g) (c : Call) (hb : c.Bounded)
    (h : g.call relative c = .ok g') : Inv g' := by
  cases c with
  | addSource fileName =>
    cases h
    unfold Generator.addSource
    dsimp only
    split
    · exact hg
    · exact setTables_inv g hg _ _ _ _ _ _
  | setSourceContent sourceIndex content =>
    simp only [Generator.call, Generator.setSourceContent] at h
    split at h
    · cases h
    · cases h
      exact setTables_inv g hg _ _ _ _ _ _
  | addName name =>
    cases h
    unfold Generator.addName
    split
    · exact hg
    · exact setTables_inv g hg _ _ _ _ _ _
  | addGeneratedMapping gl gc => exact addGeneratedMapping_inv g hg gl gc hb g' h
  | addSourceMapping gl gc si sl sc =>
    simp only [Generator.call, Generator.addSourceMapping] at h
    obtain ⟨u, hcheck, h⟩ := (bind_eq_ok _ _ _).1 h
    exact addSourced_inv g hg gl gc si sl sc _ u hcheck hb (fun hne => absurd rfl hne) g' h
  | addNamedSourceMapping gl gc si sl sc ni =>
    simp only [Generator.call, Generator.addNamedSourceMapping] at h
    obtain ⟨u, hcheck, h⟩ := (bind_eq_ok _ _ _).1 h
    obtain ⟨_, hname, h⟩ := (bind_eq_ok _ _ _).1 h
    rw [failIf_eq_ok, not_or] at hname
    have hni := small_of_not_neg ni hname.1 (hb ni (by simp [Call.values]))
    refine addSourced_inv g hg gl gc si sl sc ni u hcheck (fun v hv => hb v ?_) (fun _ => hni) g' h
    simp only [Call.values, List.mem_cons, List.not_mem_nil, or_false] at hv ⊢
    tauto
  | rawSourceMap =>
    obtain ⟨g1, hok, hg1, _⟩ := commitPendingMapping_inv g hg
    simp only [Generator.call, Generator.rawSourceMap, hok, ok_bind] at h
    cases h
    exact hg1

theorem run_inv (g g' : Generator) (hg : Inv g) (cs : List Call) (hb : ∀ c ∈ cs, c.Bounded)
    (h : g.run relative cs = .ok g') : Inv g' := by
  induction cs generalizing g with
  | nil =>
    cases h
    exact hg
  | cons c cs ih =>
    obtain ⟨g1, hc, hrest⟩ := (bind_eq_ok _ _ _).1 h
    exact ih g1 (call_inv relative g g1 hg c (hb c (by simp)) hc)
      (fun c' hc' => hb c' (List.mem_cons_of_mem c hc')) hrest

/-- the committed mappings are what the string decodes to -/
theorem Inv.decodeAll_mappings {g : Generator} (hg : Inv g) : decodeAll g.mappings = (g.committed, none) := by
  have hy := hg.decodes [] (fun _ => trivial)
  rw [List.append_nil] at hy
  unfold decodeAll
  rw [values_of_yields hy rfl rfl (g.mappings.length + 1) (Nat.lt_succ_self _)]
  rfl

/-- **Round trip.**  After any sequence of successful calls the source map can be taken, and
decoding its mappings yields, without an error, exactly the committed mappings in order. -/
theorem decodeAll_rawSourceMap (file sourceRoot : JsString) (cs : List Call)
    (hb : ∀ c ∈ cs, c.Bounded) (g : Generator)
    (hrun : (newGenerator file sourceRoot).run relative cs = .ok g) :
    ∃ m g', g.rawSourceMap = .ok (m, g') ∧ decodeAll m.mappings = (g'.committed, none) := by
  have hg := run_inv relative _ g (inv_newGenerator file sourceRoot) cs hb hrun
  obtain ⟨g', hok, hg', _⟩ := commitPendingMapping_inv g hg
  refine ⟨⟨3, g'.file, g'.sourceRoot, g'.sources, g'.names, g'.mappings,
    if g'.sourcesContent.isEmpty then none else some g'.sourcesContent⟩, g', ?_, ?_⟩
  · unfold Generator.rawSourceMap
    rw [hok]
    rfl
  · exact hg'.decodeAll_mappings

end

/-- two lines, a replaced mapping, a name and a backtracking source position -/
def twoLineCalls : List Call :=
  [.addSource [0x61], .addName [0x66], .addGeneratedMapping 0 5, .addSourceMapping 2 7 0 100000 3,
    .addNamedSourceMapping 2 9 0 5 1 0, .addSourceMapping 2 9 0 4 1]

theorem decodeAll_rawSourceMap_twoLines : ∃ g,
    (newGenerator [0x6F] []).run id twoLineCalls = .ok g ∧
    ∃ m g', g.rawSourceMap = .ok (m, g') ∧ decodeAll m.mappings = (g'.committed, none) :=
  ⟨_, rfl, decodeAll_rawSourceMap id [0x6F] [] twoLineCalls
    (by simp [twoLineCalls, Call.Bounded, Call.values]) _ rfl⟩

end Tsr.Sourcemap
