import Tsr.Jsstring.Surrogates

/-!
# Lower case, rune by rune

* `SimpleLower`      the table of the lower cases;
* `toLowerGo`        the lower case of a text; an invalid byte becomes the replacement character;
* `toLowerGo_slash`  a slash divides the lower case of a text where it divides the text;
* `slash_mem_toLowerGo`   which has no other slashes.
-/

namespace Tsr.Jsstring
open Tsr.Json (Bytes decodeUtf8 decodeUtf8_ascii decodeUtf8_high decodeUtf8_width decodeUtf8_sequence
  encodeUtf8 encodeUtf8_sequence isScalar runeError Sequence)

/-- the table of the lower cases: that of ASCII, and no slash from another rune -/
structure SimpleLower where
  simpleLower : Nat → Nat
  ascii : ∀ rune < 0x80, simpleLower rune = if 0x41 ≤ rune ∧ rune ≤ 0x5A then rune + 0x20 else rune
  slash : ∀ rune, simpleLower rune = 0x2F → rune = 0x2F

def toAsciiLowercase (b : UInt8) : UInt8 := if 0x41 ≤ b ∧ b ≤ 0x5A then b + 0x20 else b

variable (table : SimpleLower)

/-- the fuel is the length of the text -/
def lowerLoop : Nat → Bytes → Bytes
  | 0, _ => []
  | fuel + 1, bytes =>
    if bytes = [] then []
    else
      let (rune, width) := decodeUtf8 bytes
      appendRune (table.simpleLower rune) ++ lowerLoop fuel (bytes.drop width)

def toLowerGo (bytes : Bytes) : Bytes :=
  if bytes.all (· < 0x80) then bytes.map toAsciiLowercase else lowerLoop table bytes.length bytes

/-! ## one rune after the other -/

theorem lowerLoop_succ (fuel : Nat) {bytes : Bytes} (h : bytes ≠ []) :
    lowerLoop table (fuel + 1) bytes = appendRune (table.simpleLower (decodeUtf8 bytes).1) ++
      lowerLoop table fuel (bytes.drop (decodeUtf8 bytes).2) := by
  rw [lowerLoop, if_neg h]

theorem lowerLoop_fuel {fuel fuel' : Nat} {bytes : Bytes} (h : bytes.length ≤ fuel) (h' : bytes.length ≤ fuel') :
    lowerLoop table fuel bytes = lowerLoop table fuel' bytes := by
  induction fuel generalizing fuel' bytes with
  | zero =>
    rw [List.length_eq_zero_iff.1 (Nat.le_zero.1 h)]
    cases fuel' <;> rfl
  | succ fuel ih =>
    by_cases hne : bytes = []
    · subst hne
      cases fuel' <;> rfl
    · have hwidth := decodeUtf8_width hne
      obtain _ | fuel' := fuel'
      · exact absurd (List.length_eq_zero_iff.1 (Nat.le_zero.1 h')) hne
      · rw [lowerLoop_succ table fuel hne, lowerLoop_succ table fuel' hne]
        congr 1
        apply ih <;> rw [List.length_drop] <;> omega

/-- the lower case of a text by its runes -/
def lowerRunes (bytes : Bytes) : Bytes := lowerLoop table bytes.length bytes

theorem lowerRunes_step {bytes : Bytes} (h : bytes ≠ []) :
    lowerRunes table bytes = appendRune (table.simpleLower (decodeUtf8 bytes).1) ++
      lowerRunes table (bytes.drop (decodeUtf8 bytes).2) := by
  have hwidth := decodeUtf8_width h
  obtain ⟨n, hn⟩ := Nat.exists_eq_succ_of_ne_zero (mt List.length_eq_zero_iff.1 h)
  unfold lowerRunes
  rw [hn, lowerLoop_succ table n h]
  congr 1
  refine lowerLoop_fuel table ?_ (le_refl _)
  rw [List.length_drop]
  omega

theorem appendRune_ascii {rune : Nat} (h : rune < 0x80) : appendRune rune = [UInt8.ofNat rune] := by
  have hsurrogate : isSurrogate rune = false := by
    simp only [isSurrogate, Bool.and_eq_false_iff, decide_eq_false_iff_not]
    omega
  have hscalar : isScalar rune = true := by
    simp only [isScalar, Bool.or_eq_true, decide_eq_true_eq]
    omega
  unfold appendRune
  rw [if_neg (by rw [hsurrogate]; decide), Json.appendRune, if_pos hscalar, encodeUtf8, if_pos h]

theorem lower_ascii {b : UInt8} (h : b < 0x80) : appendRune (table.simpleLower b.toNat) = [toAsciiLowercase b] := by
  have hb : b.toNat < 0x80 := h
  have hupper : 0x41 ≤ b ∧ b ≤ 0x5A ↔ 0x41 ≤ b.toNat ∧ b.toNat ≤ 0x5A := Iff.rfl
  rw [table.ascii _ hb, toAsciiLowercase]
  by_cases h : 0x41 ≤ b ∧ b ≤ 0x5A
  · have hrange := hupper.1 h
    rw [if_pos h, if_pos hrange, appendRune_ascii (by omega)]
    congr 1
  · rw [if_neg h, if_neg (hupper.not.1 h), appendRune_ascii hb]
    simp

theorem lowerRunes_ascii {b : UInt8} (h : b < 0x80) (rest : Bytes) :
    lowerRunes table (b :: rest) = toAsciiLowercase b :: lowerRunes table rest := by
  rw [lowerRunes_step table (List.cons_ne_nil b rest), decodeUtf8_ascii rest h, lower_ascii table h]
  rfl

/-- **the lower case** of a text is that of its runes, also where all of them are ASCII -/
theorem toLowerGo_eq (bytes : Bytes) : toLowerGo table bytes = lowerRunes table bytes := by
  unfold toLowerGo
  split
  · rename_i h
    induction bytes with
    | nil => rfl
    | cons b rest ih =>
      rw [List.all_cons, Bool.and_eq_true, decide_eq_true_eq] at h
      rw [List.map_cons, ih h.2, lowerRunes_ascii table h.1]
  · rfl

/-! ## slashes -/

theorem Sequence.no_slash {seq : Bytes} {rune : Nat} (h : Sequence seq rune) : 0x2F ∉ seq := by
  have hhigh : ∀ b : UInt8, 0x80 ≤ b.toNat → (0x2F : UInt8) ≠ b := by
    intro b hb heq
    rw [← heq] at hb
    exact absurd hb (by decide)
  intro hmem
  cases h with
  | two a b ha hb => simp [hhigh a (by omega), hhigh b hb.1] at hmem
  | three a b c ha hb hc => simp [hhigh a (by omega), hhigh b hb.1, hhigh c hc.1] at hmem
  | four a b c d ha hb hc hd => simp [hhigh a (by omega), hhigh b hb.1, hhigh c hc.1, hhigh d hd.1] at hmem

/-- a slash ends the sequence before it -/
theorem decodeUtf8_before {u : Bytes} (h : u ≠ []) (v : Bytes) :
    decodeUtf8 (u ++ 0x2F :: v) = decodeUtf8 u := by
  obtain ⟨first, rest, rfl⟩ := List.exists_cons_of_ne_nil h
  by_cases hfirst : first < 0x80
  · rw [List.cons_append, decodeUtf8_ascii _ hfirst, decodeUtf8_ascii _ hfirst]
  · rcases decodeUtf8_high rest hfirst with herror | ⟨seq, rune, post, hseq, htext, hdecode⟩
    · rcases decodeUtf8_high (rest ++ 0x2F :: v) hfirst with herror' | ⟨seq, rune, post, hseq, htext, hdecode⟩
      · rw [List.cons_append, herror, herror']
      · -- the sequence would stand in front of the slash
        rw [← List.cons_append] at htext
        rcases List.append_eq_append_iff.1 htext with ⟨tail, hseq', hpost⟩ | ⟨tail, hu, -⟩
        · rcases tail with _ | ⟨b, tail⟩
          · rw [List.append_nil] at hseq'
            rw [← List.append_nil (first :: rest), ← hseq', decodeUtf8_sequence hseq] at herror
            have := hseq.length_bounds
            have := (Prod.mk.inj herror).2
            omega
          · have hb : b = 0x2F := (List.cons.inj hpost).1.symm
            exact absurd (hseq' ▸ List.mem_append_right _ (hb ▸ List.mem_cons_self)) (Sequence.no_slash hseq)
        · rw [hu, decodeUtf8_sequence hseq] at herror
          have := hseq.length_bounds
          have := (Prod.mk.inj herror).2
          omega
    · rw [htext, List.append_assoc, decodeUtf8_sequence hseq, decodeUtf8_sequence hseq]

/-- **a slash** divides the lower case of a text where it divides the text -/
theorem toLowerGo_slash (u v : Bytes) :
    toLowerGo table (u ++ 0x2F :: v) = toLowerGo table u ++ 0x2F :: toLowerGo table v := by
  rw [toLowerGo_eq, toLowerGo_eq, toLowerGo_eq]
  induction hlen : u.length using Nat.strong_induction_on generalizing u with
  | _ n ih =>
    by_cases hne : u = []
    · subst hne
      exact lowerRunes_ascii table (by decide) v
    · have hwidth := decodeUtf8_width hne
      have hdrop : (u ++ 0x2F :: v).drop (decodeUtf8 u).2 = u.drop (decodeUtf8 u).2 ++ 0x2F :: v :=
        List.drop_append_of_le_length hwidth.2
      rw [lowerRunes_step table (List.append_ne_nil_of_left_ne_nil hne _), decodeUtf8_before hne, hdrop,
        ih (u.drop (decodeUtf8 u).2).length ?_ _ rfl, lowerRunes_step table hne, List.append_assoc]
      rw [List.length_drop]
      omega

theorem appendRune_no_slash {rune : Nat} (h : rune ≠ 0x2F) : 0x2F ∉ appendRune rune := by
  unfold appendRune
  split
  · rename_i hsurrogate
    have hhigh : ∀ n : Nat, (0x2F : UInt8) ≠ (0x80 : UInt8) ||| (UInt8.ofNat n &&& 0x3F) := by
      intro n heq
      have heq := congrArg UInt8.toNat heq
      rw [UInt8.toNat_or] at heq
      have hle : 0x80 ≤ (0x80 : UInt8).toNat ||| (UInt8.ofNat n &&& 0x3F).toNat := Nat.left_le_or
      rw [← heq] at hle
      exact absurd hle (by decide)
    rw [List.mem_cons, List.mem_cons, List.mem_cons, not_or, not_or, not_or]
    exact ⟨by decide, hhigh _, hhigh _, List.not_mem_nil⟩
  · unfold Json.appendRune
    generalize hchar : (if isScalar rune = true then rune else 0xFFFD) = c
    have hc : isScalar c = true ∧ c ≠ 0x2F := by
      subst hchar
      split
      · rename_i hscalar
        exact ⟨hscalar, h⟩
      · exact ⟨by decide, by decide⟩
    by_cases hlow : c < 0x80
    · rw [encodeUtf8, if_pos hlow, List.mem_singleton]
      intro heq
      have heq := congrArg UInt8.toNat heq
      rw [UInt8.toNat_ofNat', Nat.mod_eq_of_lt (by omega)] at heq
      exact hc.2 heq.symm
    · exact Sequence.no_slash (encodeUtf8_sequence hc.1 (by omega))

theorem decodeUtf8_no_slash {u : Bytes} (h : 0x2F ∉ u) (hne : u ≠ []) : (decodeUtf8 u).1 ≠ 0x2F := by
  obtain ⟨first, rest, rfl⟩ := List.exists_cons_of_ne_nil hne
  by_cases hfirst : first < 0x80
  · rw [decodeUtf8_ascii rest hfirst]
    intro heq
    exact h ((UInt8.toNat_inj.1 heq : first = 0x2F) ▸ List.mem_cons_self)
  · rcases decodeUtf8_high rest hfirst with herror | ⟨seq, rune, post, hseq, -, hdecode⟩
    · rw [herror]
      decide
    · rw [hdecode]
      have := hseq.rune_ge
      show rune ≠ 0x2F
      omega

theorem toLowerGo_no_slash {u : Bytes} (h : 0x2F ∉ u) : 0x2F ∉ toLowerGo table u := by
  rw [toLowerGo_eq]
  induction hlen : u.length using Nat.strong_induction_on generalizing u with
  | _ n ih =>
    by_cases hne : u = []
    · subst hne
      exact List.not_mem_nil
    · have hwidth := decodeUtf8_width hne
      rw [lowerRunes_step table hne, List.mem_append, not_or]
      refine ⟨appendRune_no_slash fun heq => decodeUtf8_no_slash h hne (table.slash _ heq), ?_⟩
      refine ih (u.drop (decodeUtf8 u).2).length ?_ (fun hmem => h (List.mem_of_mem_drop hmem)) rfl
      rw [List.length_drop]
      omega

theorem slash_mem_toLowerGo {u : Bytes} : 0x2F ∈ toLowerGo table u ↔ 0x2F ∈ u := by
  refine ⟨fun h => ?_, fun h => ?_⟩
  · by_contra hnone
    exact toLowerGo_no_slash table hnone h
  · obtain ⟨before, after, rfl⟩ := List.append_of_mem h
    rw [toLowerGo_slash]
    exact List.mem_append_right _ List.mem_cons_self

theorem appendRune_ne_nil (rune : Nat) : appendRune rune ≠ [] := by
  unfold appendRune Json.appendRune encodeUtf8
  split_ifs <;> exact List.cons_ne_nil _ _

theorem toLowerGo_nil : toLowerGo table [] = [] := rfl

theorem toLowerGo_eq_nil {u : Bytes} : toLowerGo table u = [] ↔ u = [] := by
  refine ⟨fun h => ?_, fun h => by rw [h]; rfl⟩
  by_contra hne
  rw [toLowerGo_eq, lowerRunes_step table hne] at h
  exact appendRune_ne_nil _ (List.append_eq_nil_iff.1 h).1

end Tsr.Jsstring
