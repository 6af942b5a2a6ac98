import Mathlib

/-!
# Json: UTF-8

Byte strings hold UTF-8 until an operation applies its policy to the bytes that are not:

* `decodeUtf8`      the first rune and its width; an invalid byte is `runeError` of width one;
* `appendRune`      the bytes of a rune, the replacement character for one that is no scalar value;
* `fromUtf8Lossy`   the text of a byte string, one replacement character for each maximal invalid part.

`appendRune_sequence` is the round trip of one rune, `decodeUtf8_congr` says that four bytes decide
it; `fromUtf8Lossy_asBytes` is the round trip of a text.
-/

namespace Tsr.Json

abbrev Bytes := List UInt8

def runeError : Nat := 0xFFFD

def isContinuation (b : UInt8) : Bool := 0x80 ≤ b && b ≤ 0xBF

/-- width, range of the second byte and mask of the first, by the first byte of a sequence -/
def leadByte (first : UInt8) : Option (Nat × UInt8 × UInt8 × UInt8) :=
  if 0xC2 ≤ first ∧ first ≤ 0xDF then some (2, 0x80, 0xBF, 0x1F)
  else if first = 0xE0 then some (3, 0xA0, 0xBF, 0x0F)
  else if (0xE1 ≤ first ∧ first ≤ 0xEC) ∨ (0xEE ≤ first ∧ first ≤ 0xEF) then
    some (3, 0x80, 0xBF, 0x0F)
  else if first = 0xED then some (3, 0x80, 0x9F, 0x0F)
  else if first = 0xF0 then some (4, 0x90, 0xBF, 0x07)
  else if 0xF1 ≤ first ∧ first ≤ 0xF3 then some (4, 0x80, 0xBF, 0x07)
  else if first = 0xF4 then some (4, 0x80, 0x8F, 0x07)
  else none

/-- the low six bits of each continuation byte under the rune so far -/
def shiftIn (rune : Nat) (bytes : Bytes) : Nat :=
  bytes.foldl (fun rune b => (rune <<< 6) ||| (b &&& 0x3F).toNat) rune

def decodeUtf8 (bytes : Bytes) : Nat × Nat :=
  match bytes with
  | [] => (runeError, 0)
  | first :: rest =>
    if first < 0x80 then (first.toNat, 1)
    else match leadByte first with
      | none => (runeError, 1)
      | some (width, secondMin, secondMax, mask) =>
        if bytes.length < width ∨ ¬ (secondMin ≤ rest.headD 0 ∧ rest.headD 0 ≤ secondMax) then
          (runeError, 1)
        else if ((bytes.take width).drop 2).any (fun b => !isContinuation b) then (runeError, 1)
        else (shiftIn (first &&& mask).toNat ((bytes.take width).drop 1), width)

/-- the code points that are scalar values, as `char::from_u32` takes them -/
def isScalar (rune : Nat) : Bool := rune < 0xD800 || (0xE000 ≤ rune && rune < 0x110000)

/-- UTF-8 of a scalar value -/
def encodeUtf8 (c : Nat) : Bytes :=
  if c < 0x80 then [UInt8.ofNat c]
  else if c < 0x800 then [UInt8.ofNat (0xC0 + c / 64), UInt8.ofNat (0x80 + c % 64)]
  else if c < 0x10000 then
    [UInt8.ofNat (0xE0 + c / 4096), UInt8.ofNat (0x80 + c / 64 % 64), UInt8.ofNat (0x80 + c % 64)]
  else
    [UInt8.ofNat (0xF0 + c / 262144), UInt8.ofNat (0x80 + c / 4096 % 64),
      UInt8.ofNat (0x80 + c / 64 % 64), UInt8.ofNat (0x80 + c % 64)]

def appendRune (rune : Nat) : Bytes := encodeUtf8 (if isScalar rune then rune else 0xFFFD)

/-- length of the part of an invalid sequence that one replacement character stands for -/
def invalidWidth : Bytes → Nat
  | first :: second :: rest =>
    match leadByte first with
    | some (width, secondMin, secondMax, _) =>
      if width = 2 ∨ ¬ (secondMin ≤ second ∧ second ≤ secondMax) then 1
      else if width = 4 ∧ rest.head?.any isContinuation then 3
      else 2
    | none => 1
  | _ => 1

def lossyLoop : Nat → Bytes → List Char
  | 0, _ => []
  | fuel + 1, bytes =>
    if bytes = [] then []
    else
      let (rune, width) := decodeUtf8 bytes
      if rune = runeError ∧ width = 1 then
        Char.ofNat runeError :: lossyLoop fuel (bytes.drop (invalidWidth bytes))
      else Char.ofNat rune :: lossyLoop fuel (bytes.drop width)

def fromUtf8Lossy (bytes : Bytes) : String := String.ofList (lossyLoop bytes.length bytes)

def asBytes (text : String) : Bytes := text.toList.flatMap fun c => encodeUtf8 c.toNat

/-! ## sequences of more than one byte -/

/-- a well-formed sequence of two to four bytes and its rune -/
inductive Sequence : Bytes → Nat → Prop where
  | two (a b : UInt8) (ha : 0xC2 ≤ a.toNat ∧ a.toNat ≤ 0xDF)
      (hb : 0x80 ≤ b.toNat ∧ b.toNat ≤ 0xBF) :
      Sequence [a, b] ((a.toNat - 0xC0) * 64 + (b.toNat - 0x80))
  | three (a b c : UInt8) (ha : 0xE0 ≤ a.toNat ∧ a.toNat ≤ 0xEF)
      (hb : 0x80 ≤ b.toNat ∧ b.toNat ≤ 0xBF) (hc : 0x80 ≤ c.toNat ∧ c.toNat ≤ 0xBF)
      (hlow : a.toNat = 0xE0 → 0xA0 ≤ b.toNat) (hhigh : a.toNat = 0xED → b.toNat ≤ 0x9F) :
      Sequence [a, b, c] ((a.toNat - 0xE0) * 4096 + (b.toNat - 0x80) * 64 + (c.toNat - 0x80))
  | four (a b c d : UInt8) (ha : 0xF0 ≤ a.toNat ∧ a.toNat ≤ 0xF4)
      (hb : 0x80 ≤ b.toNat ∧ b.toNat ≤ 0xBF) (hc : 0x80 ≤ c.toNat ∧ c.toNat ≤ 0xBF)
      (hd : 0x80 ≤ d.toNat ∧ d.toNat ≤ 0xBF)
      (hlow : a.toNat = 0xF0 → 0x90 ≤ b.toNat) (hhigh : a.toNat = 0xF4 → b.toNat ≤ 0x8F) :
      Sequence [a, b, c, d] ((a.toNat - 0xF0) * 262144 + (b.toNat - 0x80) * 4096
        + (c.toNat - 0x80) * 64 + (d.toNat - 0x80))

theorem and_mask (b : UInt8) (k : Nat) (m : UInt8) (hm : m.toNat = 2 ^ k - 1) :
    (b &&& m).toNat = b.toNat % 2 ^ k := by
  rw [UInt8.toNat_and, hm, Nat.and_two_pow_sub_one_eq_mod]

theorem shiftIn_cons (r : Nat) (b : UInt8) (bs : Bytes) :
    shiftIn r (b :: bs) = shiftIn (r * 64 + b.toNat % 64) bs := by
  show shiftIn ((r <<< 6) ||| (b &&& 0x3F).toNat) bs = _
  rw [and_mask b 6 0x3F rfl, ← Nat.shiftLeft_add_eq_or_of_lt (Nat.mod_lt _ (by decide)),
    Nat.shiftLeft_eq]

theorem isContinuation_iff (b : UInt8) :
    isContinuation b = true ↔ 0x80 ≤ b.toNat ∧ b.toNat ≤ 0xBF := by
  simp [isContinuation, UInt8.le_iff_toNat_le]

/-- the rows of `leadByte` -/
theorem leadByte_cases {first : UInt8} {width : Nat} {lo hi mask : UInt8}
    (h : leadByte first = some (width, lo, hi, mask)) :
    (width = 2 ∧ mask = 0x1F ∧ lo = 0x80 ∧ hi = 0xBF ∧ 0xC2 ≤ first.toNat ∧ first.toNat ≤ 0xDF) ∨
    (width = 3 ∧ mask = 0x0F ∧ 0x80 ≤ lo.toNat ∧ hi.toNat ≤ 0xBF ∧
      0xE0 ≤ first.toNat ∧ first.toNat ≤ 0xEF ∧ (first.toNat = 0xE0 → lo = 0xA0) ∧
      (first.toNat = 0xED → hi = 0x9F)) ∨
    (width = 4 ∧ mask = 0x07 ∧ 0x80 ≤ lo.toNat ∧ hi.toNat ≤ 0xBF ∧
      0xF0 ≤ first.toNat ∧ first.toNat ≤ 0xF4 ∧ (first.toNat = 0xF0 → lo = 0x90) ∧
      (first.toNat = 0xF4 → hi = 0x8F)) := by
  simp only [leadByte, UInt8.le_iff_toNat_le, ← UInt8.toNat_inj, UInt8.reduceToNat] at h
  split_ifs at h <;> cases h <;> simp <;> omega

/-! ## what `decodeUtf8` finds -/

theorem decodeUtf8_ascii {first : UInt8} (rest : Bytes) (h : first < 0x80) :
    decodeUtf8 (first :: rest) = (first.toNat, 1) := by
  simp [decodeUtf8, h]

/-- a byte from `0x80` on is invalid or starts a sequence -/
theorem decodeUtf8_high {first : UInt8} (rest : Bytes) (h : ¬ first < 0x80) :
    decodeUtf8 (first :: rest) = (runeError, 1) ∨
    ∃ seq rune post, Sequence seq rune ∧ first :: rest = seq ++ post ∧
      decodeUtf8 (first :: rest) = (rune, seq.length) := by
  by_cases herr : decodeUtf8 (first :: rest) = (runeError, 1)
  · exact .inl herr
  right
  simp only [decodeUtf8, h, if_false] at herr ⊢
  cases hl : leadByte first with
  | none => simp [hl] at herr
  | some row =>
    obtain ⟨width, lo, hi, mask⟩ := row
    simp only [hl] at herr ⊢
    split_ifs at herr ⊢ with h1 h2
    · exact absurd rfl herr
    · exact absurd rfl herr
    · push Not at h1
      obtain ⟨hlen, hlo, hhi⟩ := h1
      simp only [UInt8.le_iff_toNat_le] at hlo hhi
      rcases leadByte_cases hl with ⟨rfl, rfl, rfl, rfl, h3, h4⟩ | ⟨rfl, rfl, h3, h4, h5, h6, h7, h8⟩ |
        ⟨rfl, rfl, h3, h4, h5, h6, h7, h8⟩
      · obtain _ | ⟨b, post⟩ := rest
        · simp at hlen
        refine ⟨[first, b], _, post, .two first b ⟨h3, h4⟩ ⟨hlo, hhi⟩, rfl, ?_⟩
        simp only [List.take_succ_cons, List.take_zero, List.drop_succ_cons, List.drop_zero,
          shiftIn_cons, and_mask first 5 0x1F rfl, List.length_cons, List.length_nil]
        simp only [List.headD_cons, UInt8.reduceToNat] at hlo hhi
        simp only [shiftIn, List.foldl_nil, Nat.reducePow]
        exact Prod.ext (by dsimp only; omega) rfl
      · obtain _ | ⟨b, _ | ⟨c, post⟩⟩ := rest
        · simp at hlen
        · simp at hlen
        simp only [List.headD_cons] at hlo hhi
        simp only [List.take_succ_cons, List.take_zero, List.drop_succ_cons, List.drop_zero,
          List.any_cons, List.any_nil, Bool.or_false, Bool.not_eq_true', Bool.not_eq_false,
          isContinuation_iff] at h2
        refine ⟨[first, b, c], _, post, .three first b c ⟨h5, h6⟩ ⟨by omega, by omega⟩ h2 ?_ ?_,
          rfl, ?_⟩
        · intro h; simpa [h7 h] using hlo
        · intro h; simpa [h8 h] using hhi
        simp only [List.take_succ_cons, List.take_zero, List.drop_succ_cons, List.drop_zero,
          shiftIn_cons, and_mask first 4 0x0F rfl, List.length_cons, List.length_nil]
        simp only [shiftIn, List.foldl_nil, Nat.reducePow]
        exact Prod.ext (by dsimp only; omega) rfl
      · obtain _ | ⟨b, _ | ⟨c, _ | ⟨d, post⟩⟩⟩ := rest
        · simp at hlen
        · simp at hlen
        · simp at hlen
        simp only [List.headD_cons] at hlo hhi
        simp only [List.take_succ_cons, List.take_zero, List.drop_succ_cons, List.drop_zero,
          List.any_cons, List.any_nil, Bool.or_false, Bool.or_eq_true, not_or, Bool.not_eq_true',
          Bool.not_eq_false, isContinuation_iff] at h2
        refine ⟨[first, b, c, d], _, post,
          .four first b c d ⟨h5, h6⟩ ⟨by omega, by omega⟩ h2.1 h2.2 ?_ ?_, rfl, ?_⟩
        · intro h; simpa [h7 h] using hlo
        · intro h; simpa [h8 h] using hhi
        simp only [List.take_succ_cons, List.take_zero, List.drop_succ_cons, List.drop_zero,
          shiftIn_cons, and_mask first 3 0x07 rfl, List.length_cons, List.length_nil]
        simp only [shiftIn, List.foldl_nil, Nat.reducePow]
        exact Prod.ext (by dsimp only; omega) rfl

theorem leadByte_two {a : UInt8} (ha : 0xC2 ≤ a.toNat ∧ a.toNat ≤ 0xDF) :
    leadByte a = some (2, 0x80, 0xBF, 0x1F) := by
  simp only [leadByte, UInt8.le_iff_toNat_le, UInt8.reduceToNat, ha, and_self, if_true]

/-- three bytes: the range of the second depends on the first -/
theorem leadByte_three {a b : UInt8} (ha : 0xE0 ≤ a.toNat ∧ a.toNat ≤ 0xEF)
    (hb : 0x80 ≤ b.toNat ∧ b.toNat ≤ 0xBF) (hlow : a.toNat = 0xE0 → 0xA0 ≤ b.toNat)
    (hhigh : a.toNat = 0xED → b.toNat ≤ 0x9F) :
    ∃ lo hi, leadByte a = some (3, lo, hi, 0x0F) ∧ lo ≤ b ∧ b ≤ hi := by
  simp only [leadByte, UInt8.le_iff_toNat_le, ← UInt8.toNat_inj, UInt8.reduceToNat]
  split_ifs <;> first | omega | exact ⟨_, _, rfl, by simp; omega, by simp; omega⟩

theorem leadByte_four {a b : UInt8} (ha : 0xF0 ≤ a.toNat ∧ a.toNat ≤ 0xF4)
    (hb : 0x80 ≤ b.toNat ∧ b.toNat ≤ 0xBF) (hlow : a.toNat = 0xF0 → 0x90 ≤ b.toNat)
    (hhigh : a.toNat = 0xF4 → b.toNat ≤ 0x8F) :
    ∃ lo hi, leadByte a = some (4, lo, hi, 0x07) ∧ lo ≤ b ∧ b ≤ hi := by
  simp only [leadByte, UInt8.le_iff_toNat_le, ← UInt8.toNat_inj, UInt8.reduceToNat]
  split_ifs <;> first | omega | exact ⟨_, _, rfl, by simp; omega, by simp; omega⟩

/-- a sequence decodes to its rune, whatever follows it -/
theorem decodeUtf8_sequence {seq : Bytes} {rune : Nat} (h : Sequence seq rune) (post : Bytes) :
    decodeUtf8 (seq ++ post) = (rune, seq.length) := by
  cases h with
  | two a b ha hb =>
    have ha' : ¬ a < 0x80 := by simp only [UInt8.lt_iff_toNat_lt, UInt8.reduceToNat]; omega
    have hlo : (0x80 : UInt8) ≤ b := by simpa [UInt8.le_iff_toNat_le] using hb.1
    have hhi : b ≤ (0xBF : UInt8) := by simpa [UInt8.le_iff_toNat_le] using hb.2
    simp only [decodeUtf8, List.cons_append, List.nil_append, ha', if_false, leadByte_two ha,
      List.headD_cons, hlo, hhi, List.length_cons, List.take_succ_cons, List.take_zero,
      List.drop_succ_cons, List.drop_zero, List.drop_nil, List.any_nil, shiftIn_cons,
      and_mask a 5 0x1F rfl, Nat.reducePow]
    rw [if_neg (by simp), if_neg (by simp)]
    exact Prod.ext (by simp only [shiftIn, List.foldl_nil]; omega) rfl
  | three a b c ha hb hc hlow hhigh =>
    have ha' : ¬ a < 0x80 := by simp only [UInt8.lt_iff_toNat_lt, UInt8.reduceToNat]; omega
    obtain ⟨lo, hi, hl, hlo, hhi⟩ := leadByte_three ha hb hlow hhigh
    simp only [decodeUtf8, List.cons_append, List.nil_append, ha', if_false, hl,
      List.headD_cons, hlo, hhi, List.length_cons, List.take_succ_cons, List.take_zero,
      List.drop_succ_cons, List.drop_zero, List.any_cons, List.any_nil, shiftIn_cons,
      and_mask a 4 0x0F rfl, Nat.reducePow, (isContinuation_iff c).2 hc]
    rw [if_neg (by simp), if_neg (by simp)]
    exact Prod.ext (by simp only [shiftIn, List.foldl_nil]; omega) rfl
  | four a b c d ha hb hc hd hlow hhigh =>
    have ha' : ¬ a < 0x80 := by simp only [UInt8.lt_iff_toNat_lt, UInt8.reduceToNat]; omega
    obtain ⟨lo, hi, hl, hlo, hhi⟩ := leadByte_four ha hb hlow hhigh
    simp only [decodeUtf8, List.cons_append, List.nil_append, ha', if_false, hl,
      List.headD_cons, hlo, hhi, List.length_cons, List.take_succ_cons, List.take_zero,
      List.drop_succ_cons, List.drop_zero, List.any_cons, List.any_nil, shiftIn_cons,
      and_mask a 3 0x07 rfl, Nat.reducePow, (isContinuation_iff c).2 hc, (isContinuation_iff d).2 hd]
    rw [if_neg (by simp), if_neg (by simp)]
    exact Prod.ext (by simp only [shiftIn, List.foldl_nil]; omega) rfl

theorem byte_ofNat {n : Nat} {b : UInt8} (h : n = b.toNat) : UInt8.ofNat n = b := by
  rw [h, UInt8.ofNat_toNat]

/-- **a rune is written back as the bytes it was read from** -/
theorem appendRune_sequence {seq : Bytes} {rune : Nat} (h : Sequence seq rune) :
    appendRune rune = seq := by
  have hscalar : isScalar rune = true := by
    simp only [isScalar, Bool.or_eq_true, Bool.and_eq_true, decide_eq_true_eq]
    cases h <;> omega
  rw [appendRune, if_pos hscalar]
  cases h with
  | two a b ha hb =>
    rw [encodeUtf8, if_neg (by omega), if_pos (by omega), byte_ofNat (b := a) (by omega),
      byte_ofNat (b := b) (by omega)]
  | three a b c ha hb hc hlow hhigh =>
    rw [encodeUtf8, if_neg (by omega), if_neg (by omega), if_pos (by omega),
      byte_ofNat (b := a) (by omega), byte_ofNat (b := b) (by omega), byte_ofNat (b := c) (by omega)]
  | four a b c d ha hb hc hd hlow hhigh =>
    rw [encodeUtf8, if_neg (by omega), if_neg (by omega), if_neg (by omega),
      byte_ofNat (b := a) (by omega), byte_ofNat (b := b) (by omega), byte_ofNat (b := c) (by omega),
      byte_ofNat (b := d) (by omega)]

theorem Sequence.rune_ge {seq : Bytes} {rune : Nat} (h : Sequence seq rune) : 0x80 ≤ rune := by
  cases h <;> omega

theorem Sequence.length_bounds {seq : Bytes} {rune : Nat} (h : Sequence seq rune) :
    2 ≤ seq.length ∧ seq.length ≤ 4 := by
  cases h <;> simp

theorem decodeUtf8_width {bytes : Bytes} (h : bytes ≠ []) :
    1 ≤ (decodeUtf8 bytes).2 ∧ (decodeUtf8 bytes).2 ≤ bytes.length := by
  obtain _ | ⟨first, rest⟩ := bytes
  · exact absurd rfl h
  by_cases hf : first < 0x80
  · simp [decodeUtf8_ascii rest hf]
  · rcases decodeUtf8_high rest hf with he | ⟨seq, rune, post, hs, hb, hd⟩
    · simp [he]
    · have := hs.length_bounds
      rw [hd, hb]
      simp only [List.length_append]
      omega

/-! ## texts -/

theorem encodeUtf8_sequence {c : Nat} (hc : isScalar c = true) (h : 0x80 ≤ c) :
    Sequence (encodeUtf8 c) c := by
  have hb : ∀ n, n < 256 → (UInt8.ofNat n).toNat = n := fun n hn => by
    rw [UInt8.toNat_ofNat']
    exact Nat.mod_eq_of_lt hn
  simp only [isScalar, Bool.or_eq_true, Bool.and_eq_true, decide_eq_true_eq] at hc
  rw [encodeUtf8, if_neg (by omega)]
  by_cases h2 : c < 0x800
  · rw [if_pos h2]
    have h1 := hb (0xC0 + c / 64) (by omega)
    have h0 := hb (0x80 + c % 64) (by omega)
    have := Sequence.two (UInt8.ofNat (0xC0 + c / 64)) (UInt8.ofNat (0x80 + c % 64))
      (by rw [h1]; omega) (by rw [h0]; omega)
    rwa [h1, h0, show (0xC0 + c / 64 - 0xC0) * 64 + (0x80 + c % 64 - 0x80) = c from by omega] at this
  rw [if_neg h2]
  by_cases h3 : c < 0x10000
  · rw [if_pos h3]
    have h2' := hb (0xE0 + c / 4096) (by omega)
    have h1 := hb (0x80 + c / 64 % 64) (by omega)
    have h0 := hb (0x80 + c % 64) (by omega)
    have := Sequence.three (UInt8.ofNat (0xE0 + c / 4096)) (UInt8.ofNat (0x80 + c / 64 % 64))
      (UInt8.ofNat (0x80 + c % 64)) (by rw [h2']; omega) (by rw [h1]; omega) (by rw [h0]; omega)
      (by rw [h2', h1]; omega) (by rw [h2', h1]; omega)
    rwa [h2', h1, h0, show (0xE0 + c / 4096 - 0xE0) * 4096 + (0x80 + c / 64 % 64 - 0x80) * 64 +
      (0x80 + c % 64 - 0x80) = c from by omega] at this
  · rw [if_neg h3]
    have h3' := hb (0xF0 + c / 262144) (by omega)
    have h2' := hb (0x80 + c / 4096 % 64) (by omega)
    have h1 := hb (0x80 + c / 64 % 64) (by omega)
    have h0 := hb (0x80 + c % 64) (by omega)
    have := Sequence.four (UInt8.ofNat (0xF0 + c / 262144)) (UInt8.ofNat (0x80 + c / 4096 % 64))
      (UInt8.ofNat (0x80 + c / 64 % 64)) (UInt8.ofNat (0x80 + c % 64)) (by rw [h3']; omega)
      (by rw [h2']; omega) (by rw [h1]; omega) (by rw [h0]; omega)
      (by rw [h3', h2']; omega) (by rw [h3', h2']; omega)
    rwa [h3', h2', h1, h0, show (0xF0 + c / 262144 - 0xF0) * 262144 +
      (0x80 + c / 4096 % 64 - 0x80) * 4096 + (0x80 + c / 64 % 64 - 0x80) * 64 +
      (0x80 + c % 64 - 0x80) = c from by omega] at this

theorem isScalar_char (c : Char) : isScalar c.toNat = true := by
  have h : c.toNat < 0xD800 ∨ 0xDFFF < c.toNat ∧ c.toNat < 0x110000 := c.valid
  simp only [isScalar, Bool.or_eq_true, Bool.and_eq_true, decide_eq_true_eq]
  omega

/-- a character decodes to itself, and not as an invalid byte -/
theorem decodeUtf8_char (c : Char) (post : Bytes) :
    ∃ width, decodeUtf8 (encodeUtf8 c.toNat ++ post) = (c.toNat, width) ∧
      width = (encodeUtf8 c.toNat).length ∧ 0 < width ∧ ¬ (c.toNat = runeError ∧ width = 1) := by
  by_cases h : c.toNat < 0x80
  · refine ⟨1, ?_, ?_, by omega, fun hr => ?_⟩
    · have hlt : UInt8.ofNat c.toNat < 0x80 := by
        rw [UInt8.lt_iff_toNat_lt, UInt8.toNat_ofNat']
        exact lt_of_le_of_lt (Nat.mod_le _ _) h
      rw [encodeUtf8, if_pos h, List.cons_append, decodeUtf8_ascii _ hlt, UInt8.toNat_ofNat',
        Nat.mod_eq_of_lt (by omega)]
    · rw [encodeUtf8, if_pos h]
      rfl
    · rw [hr.1] at h
      exact absurd h (by decide)
  · have hs := encodeUtf8_sequence (isScalar_char c) (by omega)
    have hlen := hs.length_bounds
    exact ⟨_, decodeUtf8_sequence hs post, rfl, by omega, by omega⟩

theorem lossyLoop_chars (text : List Char) (fuel : Nat)
    (h : (text.flatMap fun c => encodeUtf8 c.toNat).length ≤ fuel) :
    lossyLoop fuel (text.flatMap fun c => encodeUtf8 c.toNat) = text := by
  induction text generalizing fuel with
  | nil => cases fuel <;> rfl
  | cons c text ih =>
    rw [List.flatMap_cons] at h ⊢
    obtain ⟨width, hd, hw, hpos, hne⟩ := decodeUtf8_char c (text.flatMap fun c => encodeUtf8 c.toNat)
    rw [List.length_append] at h
    obtain ⟨fuel, rfl⟩ : ∃ n, fuel = n + 1 := ⟨fuel - 1, by omega⟩
    rw [lossyLoop, if_neg fun h0 => by
      have := congrArg List.length h0
      rw [List.length_append, List.length_nil] at this
      omega]
    simp only [hd]
    rw [if_neg hne, hw, List.drop_left, ih fuel (by omega), Char.ofNat_toNat]

/-- **a text is read back from its bytes** -/
theorem fromUtf8Lossy_asBytes (text : String) : fromUtf8Lossy (asBytes text) = text := by
  rw [fromUtf8Lossy, asBytes, lossyLoop_chars _ _ le_rfl, String.ofList_toList]

/-- the first four bytes decide -/
theorem decodeUtf8_congr {a b : Bytes} (h : a.take 4 = b.take 4) : decodeUtf8 a = decodeUtf8 b := by
  -- a sequence at the head of one list is at the head of the other
  have head : ∀ {l m seq post : Bytes} {rune : Nat}, l.take 4 = m.take 4 → Sequence seq rune →
      l = seq ++ post → decodeUtf8 m = (rune, seq.length) := by
    intro l m seq post rune hlm hs hl
    have hm : m = seq ++ m.drop seq.length := by
      have h1 : m.take seq.length = seq := by
        have h2 := congrArg (List.take seq.length) hlm
        rw [List.take_take, List.take_take, min_eq_left hs.length_bounds.2, hl,
          List.take_left] at h2
        exact h2.symm
      rw [← h1, List.length_take]
      conv_lhs => rw [← List.take_append_drop seq.length m]
      have : seq.length ≤ m.length := by
        have := congrArg List.length h1
        rw [List.length_take] at this
        omega
      rw [min_eq_left this]
    rw [hm, decodeUtf8_sequence hs]
  obtain _ | ⟨x, a'⟩ := a
  · obtain _ | ⟨y, b'⟩ := b
    · rfl
    · simp at h
  obtain _ | ⟨y, b'⟩ := b
  · simp at h
  have hxy : x = y := (List.cons.inj h).1
  subst hxy
  by_cases hf : x < 0x80
  · rw [decodeUtf8_ascii a' hf, decodeUtf8_ascii b' hf]
  rcases decodeUtf8_high a' hf with ha | ⟨seq, rune, post, hs, hl, hd⟩
  · rcases decodeUtf8_high b' hf with hb | ⟨seq, rune, post, hs, hl, hd⟩
    · rw [ha, hb]
    · rw [hd, head h.symm hs hl]
  · rw [hd, head h hs hl]

end Tsr.Json
