import Tsr.Lib.Result
import Tsr.Sourcemap.Decoder

/-!
# What the decoder yields

A field that is read is not negative, and takes a part of the mappings string; an error ends the
decoder.

* `readField_frame`        a field that is read leaves the others as they are;
* `decodeAll_sourceIndex`  a source of a mapping is not negative;
* `decoder_ends`           the loop ends, with an error or at the end of the string.
-/

set_option linter.unusedSectionVars false

namespace Tsr.Sourcemap
open Tsr.Lib.Result

namespace MappingsDecoder

/-! ## one field -/

/-- what a number moves on: the place in the string and the error -/
def moved (d : MappingsDecoder) (pos : Nat) (rest : JsString) (error : Option String) : MappingsDecoder :=
  { d with pos := pos, rest := rest, error := error }

theorem vlqDigits_moved (d : MappingsDecoder) (shiftCount : Nat) (value : Int64) (bytes : List UInt8) :
    ∃ pos rest error, (vlqDigits d shiftCount value bytes).2 = d.moved pos rest error := by
  induction bytes generalizing d shiftCount value with
  | nil => exact ⟨_, _, _, rfl⟩
  | cons ch tail ih =>
    rw [vlqDigits]
    dsimp only
    split
    · exact ⟨_, _, _, rfl⟩
    · split
      · obtain ⟨pos, rest, error, h⟩ := ih (d.advance tail)
          (min (shiftCount + 5) (2 ^ 32 - 1)) (value ||| checkedShl (base64FormatDecode ch &&& 31) shiftCount)
        exact ⟨pos, rest, error, h⟩
      · exact ⟨_, _, _, rfl⟩

/-- a number takes a byte or more; without one there is an error -/
theorem vlqDigits_rest (d : MappingsDecoder) (shiftCount : Nat) (value : Int64) (bytes : List UInt8) :
    ((vlqDigits d shiftCount value bytes).1.isSome = true ∧
      (vlqDigits d shiftCount value bytes).2.rest.length < bytes.length) ∨
    ((vlqDigits d shiftCount value bytes).1 = none ∧
      (vlqDigits d shiftCount value bytes).2.hasReportedError = true) := by
  induction bytes generalizing d shiftCount value with
  | nil => exact Or.inr ⟨rfl, rfl⟩
  | cons ch tail ih =>
    rw [vlqDigits]
    dsimp only
    split
    · exact Or.inr ⟨rfl, rfl⟩
    · split
      · rcases ih (d.advance tail) (min (shiftCount + 5) (2 ^ 32 - 1))
          (value ||| checkedShl (base64FormatDecode ch &&& 31) shiftCount) with ⟨hsome, hlt⟩ | herror
        · exact Or.inl ⟨hsome, Nat.lt_succ_of_lt hlt⟩
        · exact Or.inr herror
      · exact Or.inl ⟨rfl, Nat.lt_succ_self _⟩

theorem base64VlqFormatDecode_moved (d : MappingsDecoder) :
    ∃ pos rest error, d.base64VlqFormatDecode.2 = d.moved pos rest error := by
  obtain ⟨pos, rest, error, h⟩ := vlqDigits_moved d 0 0 d.rest
  refine ⟨pos, rest, error, ?_⟩
  unfold base64VlqFormatDecode
  split
  · next heq =>
    rw [heq] at h
    exact h
  · next heq =>
    rw [heq] at h
    exact h

theorem base64VlqFormatDecode_rest (d : MappingsDecoder) :
    d.base64VlqFormatDecode.2.rest.length < d.rest.length ∨
      d.base64VlqFormatDecode.2.hasReportedError = true := by
  have h := vlqDigits_rest d 0 0 d.rest
  unfold base64VlqFormatDecode
  split
  · next heq =>
    rw [heq] at h
    rcases h with ⟨hsome, -⟩ | ⟨-, herror⟩
    · cases hsome
    · exact Or.inr herror
  · next heq =>
    rw [heq] at h
    rcases h with ⟨-, hlt⟩ | ⟨hnone, -⟩
    · exact Or.inl hlt
    · cases hnone

section
variable {get : MappingsDecoder → Int64} {set : MappingsDecoder → Int64 → MappingsDecoder}
  {invalid : String} {d d' : MappingsDecoder}

/-- a field that is read is not negative -/
theorem readField_ok (h : readField get set invalid d = .ok d') :
    d' = set d.base64VlqFormatDecode.2 (get d + d.base64VlqFormatDecode.1) ∧
      d'.hasReportedError = false ∧ ¬ get d' < 0 := by
  unfold readField at h
  dsimp only at h
  split at h
  · cases h
  · next herror =>
    split at h
    · cases h
    · next hpos =>
      cases h
      exact ⟨rfl, Bool.eq_false_iff.2 herror, hpos⟩

theorem readField_error (h : readField get set invalid d = .error d') :
    d'.done = true ∧ d'.hasReportedError = true := by
  unfold readField at h
  dsimp only at h
  split at h
  · next herror =>
    cases h
    exact ⟨rfl, herror⟩
  · split at h
    · cases h
      exact ⟨rfl, rfl⟩
    · cases h

/-- **A field that is read leaves the others as they are.** -/
theorem readField_frame {α : Type} {field : MappingsDecoder → α} (h : readField get set invalid d = .ok d')
    (hset : ∀ d v, field (set d v) = field d)
    (hmoved : ∀ (d : MappingsDecoder) pos rest error, field (d.moved pos rest error) = field d) :
    field d' = field d := by
  obtain ⟨pos, rest, error, heq⟩ := base64VlqFormatDecode_moved d
  rw [(readField_ok h).1, hset, heq, hmoved]

/-- what is left is shorter -/
structure Taken (d d' : MappingsDecoder) : Prop where
  rest : d'.rest.length < d.rest.length
  done : d'.done = d.done

theorem Taken.trans {d d' d'' : MappingsDecoder} (h : Taken d d') (h' : Taken d' d'') : Taken d d'' :=
  ⟨h'.rest.trans h.rest, h'.done.trans h.done⟩

theorem readField_taken (h : readField get set invalid d = .ok d')
    (hset : ∀ d v, (set d v).rest = d.rest ∧ (set d v).error = d.error ∧ (set d v).done = d.done) :
    Taken d d' := by
  obtain ⟨heq, hno, -⟩ := readField_ok h
  refine ⟨?_, readField_frame h (fun d v => (hset d v).2.2) fun d pos rest error => rfl⟩
  rw [heq, hasReportedError, (hset _ _).2.1] at hno
  rw [heq, (hset _ _).1]
  refine (base64VlqFormatDecode_rest d).resolve_right ?_
  rw [hasReportedError, hno]
  exact Bool.false_ne_true

end

/-! ## one segment -/

theorem failIf_error {b : Bool} {err : String} {d d' : MappingsDecoder} (h : failIf b err d = .error d') :
    d'.done = true ∧ d'.hasReportedError = true := by
  unfold failIf at h
  split at h
  · cases h
    exact ⟨rfl, rfl⟩
  · cases h

theorem segment_ok {d d' : MappingsDecoder} {m : Mapping} (h : d.segment = .ok (m, d')) :
    Taken d d' ∧ (m.isSourceMapping = true → 0 ≤ m.sourceIndex.toInt) := by
  obtain ⟨d1, hcharacter, h⟩ := (bind_eq_ok _ _ _).1 h
  have h1 : Taken d d1 := readField_taken hcharacter fun d v => ⟨rfl, rfl, rfl⟩
  split at h
  · have hnot : (d1.captureMapping false false).isSourceMapping = false := rfl
    cases h
    refine ⟨h1, ?_⟩
    intro hm
    rw [hnot] at hm
    cases hm
  · obtain ⟨d2, hindex, h⟩ := (bind_eq_ok _ _ _).1 h
    obtain ⟨_, -, h⟩ := (bind_eq_ok _ _ _).1 h
    obtain ⟨d3, hline, h⟩ := (bind_eq_ok _ _ _).1 h
    obtain ⟨_, -, h⟩ := (bind_eq_ok _ _ _).1 h
    obtain ⟨d4, hcolumn, h⟩ := (bind_eq_ok _ _ _).1 h
    have h2 : Taken d1 d2 := readField_taken hindex fun d v => ⟨rfl, rfl, rfl⟩
    have h3 : Taken d2 d3 := readField_taken hline fun d v => ⟨rfl, rfl, rfl⟩
    have h4 : Taken d3 d4 := readField_taken hcolumn fun d v => ⟨rfl, rfl, rfl⟩
    have hsource3 : d3.sourceIndex = d2.sourceIndex :=
      readField_frame hline (fun d v => rfl) fun d pos rest error => rfl
    have hsource4 : d4.sourceIndex = d3.sourceIndex :=
      readField_frame hcolumn (fun d v => rfl) fun d pos rest error => rfl
    have hnonneg : 0 ≤ d2.sourceIndex.toInt := by
      have hpos := (readField_ok hindex).2.2
      rwa [Int64.lt_iff_toInt_lt, Int.not_lt] at hpos
    rw [← hsource3, ← hsource4] at hnonneg
    have hall := h1.trans (h2.trans (h3.trans h4))
    split at h
    · cases h
      exact ⟨hall, fun _ => hnonneg⟩
    · obtain ⟨d5, hname, h⟩ := (bind_eq_ok _ _ _).1 h
      obtain ⟨_, -, h⟩ := (bind_eq_ok _ _ _).1 h
      have h5 : Taken d4 d5 := readField_taken hname fun d v => ⟨rfl, rfl, rfl⟩
      have hsource5 : d5.sourceIndex = d4.sourceIndex :=
        readField_frame hname (fun d v => rfl) fun d pos rest error => rfl
      rw [← hsource5] at hnonneg
      cases h
      exact ⟨hall.trans h5, fun _ => hnonneg⟩

/-- a segment that is not read ends the decoder with an error -/
theorem segment_error {d d' : MappingsDecoder} (h : d.segment = .error d') :
    d'.done = true ∧ d'.hasReportedError = true := by
  rcases (bind_eq_error _ _ _).1 h with h | ⟨d1, -, h⟩
  · exact readField_error h
  split at h
  · cases h
  rcases (bind_eq_error _ _ _).1 h with h | ⟨d2, -, h⟩
  · exact readField_error h
  rcases (bind_eq_error _ _ _).1 h with h | ⟨_, -, h⟩
  · exact failIf_error h
  rcases (bind_eq_error _ _ _).1 h with h | ⟨d3, -, h⟩
  · exact readField_error h
  rcases (bind_eq_error _ _ _).1 h with h | ⟨_, -, h⟩
  · exact failIf_error h
  rcases (bind_eq_error _ _ _).1 h with h | ⟨d4, -, h⟩
  · exact readField_error h
  split at h
  · cases h
  rcases (bind_eq_error _ _ _).1 h with h | ⟨d5, -, h⟩
  · exact readField_error h
  rcases (bind_eq_error _ _ _).1 h with h | ⟨_, -, h⟩
  · exact failIf_error h
  · cases h

/-! ## the loop -/

/-- the decoder has an error or stands at the end of the string -/
def Ended (d : MappingsDecoder) : Prop := d.done = true ∧ (d.hasReportedError = true ∨ d.rest = [])

/-- what holds of the next segment, or of the end -/
def Yielded (d : MappingsDecoder) : Option Mapping × MappingsDecoder → Prop
  | (some m, d') => Taken d d' ∧ (m.isSourceMapping = true → 0 ≤ m.sourceIndex.toInt)
  | (none, d') => Ended d'

theorem nextLoop_spec (bytes : List UInt8) (d : MappingsDecoder) (hrest : d.rest = bytes) :
    Yielded d (d.nextLoop bytes) := by
  induction bytes generalizing d with
  | nil => exact ⟨rfl, Or.inr hrest⟩
  | cons ch tail ih =>
    have hshift : ∀ d' : MappingsDecoder, d'.rest = tail → d'.done = d.done → Taken d d' := by
      intro d' hrest' hdone'
      refine ⟨?_, hdone'⟩
      rw [hrest, hrest']
      exact Nat.lt_succ_self _
    have htail : ∀ d' : MappingsDecoder, d'.rest = tail → d'.done = d.done → Yielded d (d'.nextLoop tail) := by
      intro d' hrest' hdone'
      have h := ih d' hrest'
      rcases heq : d'.nextLoop tail with ⟨yielded, d''⟩
      rw [heq] at h
      cases yielded with
      | some m => exact ⟨(hshift d' hrest' hdone').trans h.1, h.2⟩
      | none => exact h
    rw [nextLoop]
    by_cases hsemicolon : ch = semicolon
    · rw [if_pos hsemicolon]
      exact htail _ rfl rfl
    · rw [if_neg hsemicolon]
      by_cases hcomma : ch = comma
      · rw [if_pos hcomma]
        exact htail _ rfl rfl
      · rw [if_neg hcomma]
        cases hsegment : d.segment with
        | ok result => exact segment_ok hsegment
        | error d' =>
          obtain ⟨hdone, herror⟩ := segment_error hsegment
          exact ⟨hdone, Or.inl herror⟩

theorem next_spec (d : MappingsDecoder) (hdone : d.done = false) :
    Yielded d d.next := by
  rw [next, if_neg (by rw [hdone]; exact Bool.false_ne_true)]
  exact nextLoop_spec d.rest d rfl

theorem values_spec (fuel : Nat) (d : MappingsDecoder) (hdone : d.done = false)
    (hfuel : d.rest.length < fuel) :
    Ended (values fuel d).2 ∧ ∀ m ∈ (values fuel d).1, m.isSourceMapping = true → 0 ≤ m.sourceIndex.toInt := by
  induction fuel generalizing d with
  | zero => exact absurd hfuel (Nat.not_lt_zero _)
  | succ fuel ih =>
    have hnext := next_spec d hdone
    rw [values]
    split
    · next heq =>
      rw [heq] at hnext
      exact ⟨hnext, fun m hm => absurd hm List.not_mem_nil⟩
    · next m d' heq =>
      rw [heq] at hnext
      obtain ⟨htaken, hsource⟩ := hnext
      obtain ⟨hended, hall⟩ := ih d' (htaken.done.trans hdone) (by have := htaken.rest; omega)
      refine ⟨hended, ?_⟩
      intro m' hm'
      rcases List.mem_cons.1 hm' with rfl | hm'
      · exact hsource
      · exact hall m' hm'

/-- more fuel changes nothing -/
theorem values_fuel (fuel more : Nat) (d : MappingsDecoder) (hdone : d.done = false)
    (hfuel : d.rest.length < fuel) : values (fuel + more) d = values fuel d := by
  induction fuel generalizing d with
  | zero => exact absurd hfuel (Nat.not_lt_zero _)
  | succ fuel ih =>
    have hnext := next_spec d hdone
    rw [Nat.add_right_comm, values, values]
    split
    · rfl
    · next m d' heq =>
      rw [heq] at hnext
      rw [ih d' (hnext.1.done.trans hdone) (by have := hnext.1.rest; omega)]

end MappingsDecoder

/-- a source of a mapping is not negative -/
theorem decodeAll_sourceIndex (mappings : JsString) :
    ∀ m ∈ (decodeAll mappings).1, m.isSourceMapping = true → 0 ≤ m.sourceIndex.toInt :=
  (MappingsDecoder.values_spec (mappings.length + 1) (decodeMappings mappings) rfl (Nat.lt_succ_self _)).2

/-- **The loop of the decoder ends**, with an error or at the end of the string. -/
theorem decoder_ends (mappings : JsString) (fuel : Nat) (hfuel : mappings.length < fuel) :
    (MappingsDecoder.values fuel (decodeMappings mappings)).2.Ended ∧
      MappingsDecoder.values fuel (decodeMappings mappings) =
        MappingsDecoder.values (mappings.length + 1) (decodeMappings mappings) := by
  refine ⟨(MappingsDecoder.values_spec fuel (decodeMappings mappings) rfl hfuel).1, ?_⟩
  obtain ⟨more, rfl⟩ := Nat.exists_eq_add_of_le (Nat.succ_le_of_lt hfuel)
  exact MappingsDecoder.values_fuel (mappings.length + 1) more (decodeMappings mappings) rfl
    (Nat.lt_succ_self _)

end Tsr.Sourcemap
