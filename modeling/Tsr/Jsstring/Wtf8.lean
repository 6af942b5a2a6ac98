import Tsr.Json.Utf8

/-!
# Runes of a JavaScript string

A string is UTF-8 in which a lone surrogate is spelled in three bytes.  Other bytes that are invalid
are characters of their own.

* `decodeRune`       the rune at the start and its width;
* `characters`       the characters of a text;
* `byteLength`, `utf16Length`   their bytes and their UTF-16 units.
-/

namespace Tsr.Jsstring
open Tsr.Json (Bytes decodeUtf8 decodeUtf8_ascii decodeUtf8_high decodeUtf8_width isContinuation
  runeError)

/-- the rune of a surrogate, from the bytes behind its lead -/
def surrogateRune (second third : UInt8) : Nat :=
  0xD000 ||| ((second.toNat &&& 0x3F) <<< 6) ||| (third.toNat &&& 0x3F)

def decodeRune (bytes : Bytes) : Nat × Nat :=
  match bytes with
  | first :: second :: third :: _ =>
    if first = 0xED ∧ (0xA0 ≤ second ∧ second ≤ 0xBF) ∧ (0x80 ≤ third ∧ third ≤ 0xBF) then
      (surrogateRune second third, 3)
    else decodeUtf8 bytes
  | _ => decodeUtf8 bytes

theorem decodeRune_cases (bytes : Bytes) : decodeRune bytes = decodeUtf8 bytes ∨
    ∃ second third rest, bytes = 0xED :: second :: third :: rest ∧
      decodeRune bytes = (surrogateRune second third, 3) ∧
      (0xA0 ≤ second ∧ second ≤ 0xBF) ∧ 0x80 ≤ third ∧ third ≤ 0xBF := by
  unfold decodeRune
  split
  · next first second third rest =>
    split
    · next h =>
      obtain ⟨rfl, hsecond, hthird⟩ := h
      exact Or.inr ⟨second, third, rest, rfl, rfl, hsecond, hthird⟩
    · exact Or.inl rfl
  · exact Or.inl rfl

theorem surrogateRune_lt (second third : UInt8) : surrogateRune second third < 0x10000 := by
  have h1 : (second.toNat &&& 0x3F) < 2 ^ 6 := Nat.and_lt_two_pow _ (by decide)
  have h2 : (second.toNat &&& 0x3F) <<< 6 < 2 ^ 16 := by
    rw [Nat.shiftLeft_eq]
    omega
  have h3 : (third.toNat &&& 0x3F) < 2 ^ 16 := Nat.and_lt_two_pow _ (by decide)
  exact Nat.or_lt_two_pow (Nat.or_lt_two_pow (by decide) h2) h3

theorem decodeRune_width {bytes : Bytes} (h : bytes ≠ []) :
    1 ≤ (decodeRune bytes).2 ∧ (decodeRune bytes).2 ≤ bytes.length := by
  rcases decodeRune_cases bytes with heq | ⟨second, third, rest, rfl, heq, -⟩
  · rw [heq]
    exact decodeUtf8_width h
  · rw [heq]
    refine ⟨?_, ?_⟩
    · show 1 ≤ 3
      omega
    · show 3 ≤ rest.length + 1 + 1 + 1
      omega

theorem decodeRune_ascii {first : UInt8} (rest : Bytes) (h : first < 0x80) :
    decodeRune (first :: rest) = (first.toNat, 1) := by
  rcases decodeRune_cases (first :: rest) with heq | ⟨second, third, rest', hbytes, -⟩
  · rw [heq, decodeUtf8_ascii rest h]
  · obtain ⟨rfl, -⟩ := List.cons.inj hbytes
    exact absurd h (by decide)

/-! ## the characters of a text -/

structure Character where
  ascii : Bool
  rune : Nat
  width : Nat
deriving DecidableEq

def Character.units (c : Character) : Nat := if 0x10000 ≤ c.rune then 2 else 1

/-- the character at the start of a text -/
def firstCharacter (first : UInt8) (rest : Bytes) : Character :=
  ⟨first < 0x80, (decodeRune (first :: rest)).1, (decodeRune (first :: rest)).2⟩

def characters (text : Bytes) : List Character :=
  match text with
  | [] => []
  | first :: rest =>
    firstCharacter first rest :: characters ((first :: rest).drop (firstCharacter first rest).width)
termination_by text.length
decreasing_by
  have := (decodeRune_width (List.cons_ne_nil first rest)).1
  rw [List.length_drop, List.length_cons]
  show rest.length + 1 - (decodeRune (first :: rest)).2 < rest.length + 1
  omega

def byteLength (cs : List Character) : Nat := (cs.map Character.width).sum

def utf16Length (cs : List Character) : Nat := (cs.map Character.units).sum

/-- what holds of the characters of every text -/
structure Character.Sized (c : Character) : Prop where
  width_pos : 1 ≤ c.width
  ascii : c.ascii = true → c.width = 1 ∧ c.units = 1
  units_pos : 1 ≤ c.units
  units_le : c.units ≤ c.width

theorem sized_first (first : UInt8) (rest : Bytes) : (firstCharacter first rest).Sized := by
  have hpos := (decodeRune_width (List.cons_ne_nil first rest)).1
  have hunits : 1 ≤ (firstCharacter first rest).units := by
    rw [Character.units]
    split <;> omega
  by_cases hascii : first < 0x80
  · have hd := decodeRune_ascii rest hascii
    have hsmall : first.toNat < 0x80 := hascii
    have hwidth : (firstCharacter first rest).width = 1 := congrArg Prod.snd hd
    have hone : (firstCharacter first rest).units = 1 := by
      have hrune : (firstCharacter first rest).rune = first.toNat := congrArg Prod.fst hd
      rw [Character.units, hrune, if_neg (by omega)]
    exact ⟨hpos, fun _ => ⟨hwidth, hone⟩, hunits, by rw [hwidth, hone]⟩
  · refine ⟨hpos, fun h => absurd (of_decide_eq_true h) hascii, hunits, ?_⟩
    show (if 0x10000 ≤ (decodeRune (first :: rest)).1 then 2 else 1) ≤ (decodeRune (first :: rest)).2
    rcases decodeRune_cases (first :: rest) with heq | ⟨second, third, rest', -, heq, -⟩
    · rw [heq] at hpos ⊢
      rcases decodeUtf8_high rest hascii with he | ⟨seq, rune, post, hs, -, hd⟩
      · rw [he]
        decide
      · rw [hd]
        have := hs.length_bounds
        dsimp only
        split <;> omega
    · rw [heq]
      have := surrogateRune_lt second third
      dsimp only
      rw [if_neg (by omega)]
      decide

theorem sized_characters (text : Bytes) : ∀ c ∈ characters text, c.Sized := by
  fun_induction characters text with
  | case1 =>
    intro c hc
    exact absurd hc List.not_mem_nil
  | case2 first rest ih =>
    intro c hc
    rcases List.mem_cons.1 hc with rfl | hc
    · exact sized_first first rest
    · exact ih c hc

end Tsr.Jsstring
