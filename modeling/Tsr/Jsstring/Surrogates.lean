import Tsr.Jsstring.Wtf8

/-!
# Surrogate halves

* `combineSurrogatePairs`   joins the halves of each pair that stands in a text;
* `HalvesJoined`                  one text comes from another by joining some halves;
* `joined_combine`          what `combineSurrogatePairs` does to a text inside a longer one.
-/

namespace Tsr.Jsstring

open Tsr.Json (Bytes decodeUtf8 decodeUtf8_ascii decodeUtf8_high runeError encodeUtf8 Sequence)

def isSurrogate (rune : Nat) : Bool := 0xD800 ≤ rune && rune ≤ 0xDFFF
def isHighSurrogate (rune : Nat) : Bool := 0xD800 ≤ rune && rune ≤ 0xDBFF
def isLowSurrogate (rune : Nat) : Bool := 0xDC00 ≤ rune && rune ≤ 0xDFFF

def surrogatePairToCodePoint (high low : Nat) : Nat :=
  if isHighSurrogate high ∧ isLowSurrogate low then ((high - 0xD800) <<< 10) + low - 0xDC00 + 0x10000
  else runeError

/-- the bytes of a rune; a surrogate has three -/
def appendRune (rune : Nat) : Bytes :=
  if isSurrogate rune then
    [0xED, (0x80 : UInt8) ||| (UInt8.ofNat (rune >>> 6) &&& 0x3F), (0x80 : UInt8) ||| (UInt8.ofNat rune &&& 0x3F)]
  else Json.appendRune rune

/-- the loop of `combineSurrogatePairs`; the fuel is the length of the text -/
def combineLoop : Nat → Bytes → Bytes
  | 0, _ => []
  | fuel + 1, bytes =>
    if bytes = [] then []
    else
      let (rune, width) := decodeRune bytes
      let (low, lowWidth) := decodeRune (bytes.drop width)
      if isHighSurrogate rune ∧ isLowSurrogate low then
        appendRune (surrogatePairToCodePoint rune low) ++ combineLoop fuel (bytes.drop (width + lowWidth))
      else bytes.take width ++ combineLoop fuel (bytes.drop width)

def combineSurrogatePairs (bytes : Bytes) : Bytes :=
  if bytes.contains 0xED then combineLoop bytes.length bytes else bytes

/-! ## the bytes of a surrogate -/

theorem surrogateRune_eq (second third : UInt8) :
    surrogateRune second third = 0xD000 + (second.toNat % 64 * 64 + third.toNat % 64) := by
  have hsecond : second.toNat % 64 < 64 := Nat.mod_lt _ (by decide)
  have hthird : third.toNat % 64 < 64 := Nat.mod_lt _ (by decide)
  have hsix : (second.toNat % 64) <<< 6 ||| third.toNat % 64 = second.toNat % 64 * 64 + third.toNat % 64 := by
    rw [← Nat.shiftLeft_add_eq_or_of_lt hthird, Nat.shiftLeft_eq]
  have hlead : 13 <<< 12 ||| (second.toNat % 64 * 64 + third.toNat % 64) =
      13 <<< 12 + (second.toNat % 64 * 64 + third.toNat % 64) :=
    (Nat.shiftLeft_add_eq_or_of_lt (by omega) 13).symm
  unfold surrogateRune
  rw [show (0x3F : Nat) = 2 ^ 6 - 1 from rfl, Nat.and_two_pow_sub_one_eq_mod,
    Nat.and_two_pow_sub_one_eq_mod, Nat.or_assoc]
  exact (congrArg (0xD000 ||| ·) hsix).trans hlead

theorem sixBits (b : UInt8) (h : 0x80 ≤ b.toNat ∧ b.toNat ≤ 0xBF) (n : Nat) (hn : n % 64 = b.toNat % 64) :
    (0x80 : UInt8) ||| (UInt8.ofNat n &&& 0x3F) = b := by
  rw [← UInt8.toNat_inj, UInt8.toNat_or, Json.and_mask _ 6 0x3F rfl, UInt8.toNat_ofNat']
  have hlow : n % 2 ^ 8 % 2 ^ 6 = b.toNat % 64 := by omega
  rw [hlow, show (0x80 : UInt8).toNat = 2 <<< 6 from rfl,
    ← Nat.shiftLeft_add_eq_or_of_lt (Nat.mod_lt _ (by decide)), Nat.shiftLeft_eq]
  omega

theorem appendRune_surrogateRune {second third : UInt8} (hsecond : 0xA0 ≤ second ∧ second ≤ 0xBF)
    (hthird : 0x80 ≤ third ∧ third ≤ 0xBF) :
    appendRune (surrogateRune second third) = [0xED, second, third] := by
  simp only [UInt8.le_iff_toNat_le, UInt8.reduceToNat] at hsecond hthird
  have heq := surrogateRune_eq second third
  unfold appendRune
  rw [if_pos, Nat.shiftRight_eq_div_pow, sixBits second (by omega) _ (by omega), sixBits third hthird _ (by omega)]
  simp only [isSurrogate, Bool.and_eq_true, decide_eq_true_eq]
  omega

/-- UTF-8 has no surrogates -/
theorem decodeUtf8_not_surrogate (bytes : Bytes) : isSurrogate (decodeUtf8 bytes).1 = false := by
  cases bytes with
  | nil => rfl
  | cons first rest =>
    by_cases hfirst : first < 0x80
    · rw [decodeUtf8_ascii rest hfirst]
      simp only [UInt8.lt_iff_toNat_lt, UInt8.reduceToNat] at hfirst
      simp only [isSurrogate, Bool.and_eq_false_iff, decide_eq_false_iff_not]
      omega
    · rcases decodeUtf8_high rest hfirst with h | ⟨seq, rune, post, hseq, -, h⟩
      · rw [h]
        rfl
      · rw [h]
        simp only [isSurrogate, Bool.and_eq_false_iff, decide_eq_false_iff_not]
        cases hseq <;> omega

/-- a surrogate that was read stands in the text as `appendRune` writes it -/
theorem take_surrogate {bytes : Bytes} (h : isSurrogate (decodeRune bytes).1) :
    bytes.take (decodeRune bytes).2 = appendRune (decodeRune bytes).1 := by
  rcases decodeRune_cases bytes with heq | ⟨second, third, rest, rfl, heq, hsecond, hthird⟩
  · rw [heq, decodeUtf8_not_surrogate] at h
    cases h
  · rw [heq, appendRune_surrogateRune hsecond hthird]
    rfl

theorem high_surrogate {rune : Nat} (h : isHighSurrogate rune) : isSurrogate rune := by
  simp only [isHighSurrogate, isSurrogate, Bool.and_eq_true, decide_eq_true_eq] at h ⊢
  omega

theorem low_surrogate {rune : Nat} (h : isLowSurrogate rune) : isSurrogate rune := by
  simp only [isLowSurrogate, isSurrogate, Bool.and_eq_true, decide_eq_true_eq] at h ⊢
  omega

/-! ## texts with holes -/

/-- a byte of a text, or a hole between two texts -/
inductive Piece (P : Type) where
  | byte (b : UInt8)
  | hole (p : P)
deriving DecidableEq

def pieces {P : Type} (text : Bytes) : List (Piece P) := text.map .byte

@[simp] theorem pieces_nil {P : Type} : pieces (P := P) [] = [] := rfl

@[simp] theorem pieces_append {P : Type} (a b : Bytes) : pieces (P := P) (a ++ b) = pieces a ++ pieces b :=
  List.map_append

/-- one pair of halves joined -/
inductive JoinStep {P : Type} : List (Piece P) → List (Piece P) → Prop
  | join (before after : List (Piece P)) {high low : Nat} (hhigh : isHighSurrogate high)
      (hlow : isLowSurrogate low) :
      JoinStep (before ++ pieces (appendRune high ++ appendRune low) ++ after)
        (before ++ pieces (appendRune (surrogatePairToCodePoint high low)) ++ after)

def HalvesJoined {P : Type} : List (Piece P) → List (Piece P) → Prop := Relation.ReflTransGen JoinStep

variable {P : Type}

theorem HalvesJoined.refl (a : List (Piece P)) : HalvesJoined a a := Relation.ReflTransGen.refl

theorem HalvesJoined.trans {a b c : List (Piece P)} (h : HalvesJoined a b) (h' : HalvesJoined b c) : HalvesJoined a c :=
  Relation.ReflTransGen.trans h h'

theorem JoinStep.within {a b : List (Piece P)} (h : JoinStep a b) (before after : List (Piece P)) :
    JoinStep (before ++ a ++ after) (before ++ b ++ after) := by
  obtain ⟨before', after', hhigh, hlow⟩ := h
  have h := JoinStep.join (before ++ before') (after' ++ after) hhigh hlow
  simp only [List.append_assoc] at h ⊢
  exact h

theorem HalvesJoined.within {a b : List (Piece P)} (h : HalvesJoined a b) (before after : List (Piece P)) :
    HalvesJoined (before ++ a ++ after) (before ++ b ++ after) := by
  induction h with
  | refl => exact HalvesJoined.refl _
  | tail _ hstep ih => exact ih.tail (hstep.within before after)

theorem HalvesJoined.append {a a' b b' : List (Piece P)} (h : HalvesJoined a a') (h' : HalvesJoined b b') :
    HalvesJoined (a ++ b) (a' ++ b') := by
  have hleft := h.within [] b
  have hright := h'.within a' []
  simp only [List.nil_append, List.append_nil] at hleft hright
  exact hleft.trans hright

theorem joined_combineLoop (fuel : Nat) (bytes : Bytes) (hfuel : bytes.length ≤ fuel) :
    HalvesJoined (P := P) (pieces bytes) (pieces (combineLoop fuel bytes)) := by
  induction fuel generalizing bytes with
  | zero =>
    rw [List.length_eq_zero_iff.1 (Nat.le_zero.1 hfuel)]
    exact HalvesJoined.refl _
  | succ fuel ih =>
    unfold combineLoop
    split
    · rename_i hempty
      rw [hempty]
      exact HalvesJoined.refl _
    · rename_i hne
      have hwidth := decodeRune_width hne
      have hdrop : ∀ width, 1 ≤ width → (bytes.drop width).length ≤ fuel := by
        intro width hwidth
        rw [List.length_drop]
        omega
      dsimp only
      split
      · rename_i hpair
        obtain ⟨hhigh, hlow⟩ := hpair
        have hsplit : bytes = appendRune (decodeRune bytes).1 ++
            (appendRune (decodeRune (bytes.drop (decodeRune bytes).2)).1 ++
              bytes.drop ((decodeRune bytes).2 + (decodeRune (bytes.drop (decodeRune bytes).2)).2)) := by
          rw [← take_surrogate (high_surrogate hhigh), ← take_surrogate (low_surrogate hlow), ← List.drop_drop,
            List.take_append_drop, List.take_append_drop]
        have hstep := JoinStep.join (P := P) [] (pieces (bytes.drop ((decodeRune bytes).2 +
          (decodeRune (bytes.drop (decodeRune bytes).2)).2))) hhigh hlow
        rw [List.nil_append, List.nil_append, ← pieces_append, List.append_assoc, ← hsplit] at hstep
        refine (Relation.ReflTransGen.single hstep).trans ?_
        rw [pieces_append]
        exact (HalvesJoined.refl _).append (ih _ (hdrop _ (by omega)))
      · have hsplit : pieces (P := P) bytes =
            pieces (bytes.take (decodeRune bytes).2) ++ pieces (bytes.drop (decodeRune bytes).2) := by
          rw [← pieces_append, List.take_append_drop]
        rw [pieces_append, hsplit]
        exact (HalvesJoined.refl _).append (ih _ (hdrop _ hwidth.1))

/-- **the halves joined** are those of the text, wherever it stands -/
theorem joined_combine (bytes : Bytes) : HalvesJoined (P := P) (pieces bytes) (pieces (combineSurrogatePairs bytes)) := by
  unfold combineSurrogatePairs
  split
  · exact joined_combineLoop _ bytes (Nat.le_refl _)
  · exact HalvesJoined.refl _

end Tsr.Jsstring
