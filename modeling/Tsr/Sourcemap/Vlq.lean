import Tsr.Lib.Word
import Tsr.Lib.Result
import Tsr.Sourcemap.Generator

/-!
# Source maps: VLQ numbers round trip

`IsVlq bs v` says that the byte string `bs` is a VLQ of `v`: it starts with a base-64 character
and the decoder reads `v` off it, whatever follows.  `appendBase64Vlq_spec`: what the generator
appends for a value below `2^62` in absolute value is a VLQ of it.
-/

namespace Tsr.Sourcemap
open Tsr.Lib.Word

/-- the byte ends a segment -/
def IsDelimiter (ch : UInt8) : Prop := ch = comma ∨ ch = semicolon

/-- the digit with value `k` is written as a base-64 character and read back -/
theorem base64Format_roundTrip (k : Nat) (hk : k < 64) :
    ∃ ch, base64FormatEncode (Int64.ofNat k) = .ok ch ∧ base64FormatDecode ch = Int64.ofNat k ∧
      Int64.ofNat k ≠ -1 ∧ ch ≠ comma ∧ ch ≠ semicolon := by
  have h : ∀ k : Fin 64, (match base64FormatEncode (Int64.ofNat k.val) with
      | .ok ch => decide (base64FormatDecode ch = Int64.ofNat k.val ∧ Int64.ofNat k.val ≠ -1 ∧
          ch ≠ comma ∧ ch ≠ semicolon)
      | .error _ => false) = true := by decide
  have hk' := h ⟨k, hk⟩
  revert hk'
  cases base64FormatEncode (Int64.ofNat k) with
  | ok ch => exact fun hk' => ⟨ch, rfl, of_decide_eq_true hk'⟩
  | error e => exact fun hk' => absurd hk' Bool.false_ne_true

/-- the low five bits and the continuation bit of a digit -/
theorem digit_bits (k : Nat) (hk : k < 64) :
    Int64.ofNat k &&& 31 = Int64.ofNat (k % 32) ∧ (Int64.ofNat k &&& 32 ≠ 0 ↔ 32 ≤ k) := by
  have h : ∀ k : Fin 64, Int64.ofNat k.val &&& 31 = Int64.ofNat (k.val % 32) ∧
      (Int64.ofNat k.val &&& 32 ≠ 0 ↔ 32 ≤ k.val) := by decide
  exact h ⟨k, hk⟩

/-- the decoder after the bytes `bs`, with `rest` still to come -/
def MappingsDecoder.skip (d : MappingsDecoder) (bs rest : JsString) : MappingsDecoder :=
  { d with pos := d.pos + bs.length, rest := rest }

/-- `bs` are the digits of `n`: the digit loop of the decoder adds `n` above the bits it has -/
def IsDigits (bs : JsString) (n : Nat) : Prop :=
  ∀ (d : MappingsDecoder) (rest : JsString) (s a : Nat), s ≤ 65 → a < 2 ^ s →
    a + n * 2 ^ s < 2 ^ 63 →
    d.vlqDigits s (Int64.ofNat a) (bs ++ rest) = (some (Int64.ofNat (a + n * 2 ^ s)), d.skip bs rest)

theorem or_checkedShl (a d s : Nat) (ha : a < 2 ^ s) (hlt : a + d * 2 ^ s < 2 ^ 63) :
    Int64.ofNat a ||| MappingsDecoder.checkedShl (Int64.ofNat d) s = Int64.ofNat (a + d * 2 ^ s) := by
  unfold MappingsDecoder.checkedShl
  split
  · exact ofNat_or_shift a d s ‹_› ha
  · -- a shift past the word: nothing but a zero digit fits
    have hs : 2 ^ 63 ≤ 2 ^ s := Nat.pow_le_pow_right (by norm_num) (by omega)
    have hd : d = 0 := by
      by_contra hd
      have : 2 ^ s ≤ d * 2 ^ s := Nat.le_mul_of_pos_left _ (Nat.pos_of_ne_zero hd)
      omega
    rw [hd, Nat.zero_mul, Nat.add_zero]
    exact Int64.or_zero

/-- the decoder reads a last digit -/
theorem isDigits_last (n : Nat) (hn : n < 32) (ch : UInt8)
    (hch : base64FormatDecode ch = Int64.ofNat n) (hne : Int64.ofNat n ≠ -1) :
    IsDigits [ch] n := by
  intro d rest s a hs ha hlt
  have hb := digit_bits n (by omega)
  have hcont : ¬ (Int64.ofNat n &&& 32 ≠ 0) := by rw [hb.2]; omega
  show d.vlqDigits s (Int64.ofNat a) (ch :: rest) = _
  simp only [MappingsDecoder.vlqDigits, hch, if_neg hne, if_neg hcont, hb.1,
    Nat.mod_eq_of_lt hn, or_checkedShl a n s ha hlt]
  rfl

/-- the decoder reads a digit with the continuation bit and goes on with the others -/
theorem isDigits_cons (n : Nat) (ch : UInt8) (bs : JsString)
    (hch : base64FormatDecode ch = Int64.ofNat (n % 32 + 32))
    (hne : Int64.ofNat (n % 32 + 32) ≠ -1) (hbs : IsDigits bs (n / 32)) (hpos : 0 < n / 32) :
    IsDigits (ch :: bs) n := by
  intro d rest s a hs ha hlt
  have hb := digit_bits (n % 32 + 32) (by omega)
  have hcont : Int64.ofNat (n % 32 + 32) &&& 32 ≠ 0 := by rw [hb.2]; omega
  have hmod : (n % 32 + 32) % 32 = n % 32 := by omega
  have hsplit : n * 2 ^ s = n % 32 * 2 ^ s + n / 32 * 2 ^ (s + 5) := by
    rw [pow_add]
    nlinarith [Nat.mod_add_div n 32]
  have hlow : a + n % 32 * 2 ^ s < 2 ^ 63 := by
    have := Nat.zero_le (n / 32 * 2 ^ (s + 5))
    omega
  have hs5 : s + 5 ≤ 65 := by
    by_contra hgt
    have : 2 ^ 63 ≤ 2 ^ (s + 5) := Nat.pow_le_pow_right (by norm_num) (by omega)
    have : 2 ^ (s + 5) ≤ n / 32 * 2 ^ (s + 5) := Nat.le_mul_of_pos_left _ hpos
    omega
  have ha' : a + n % 32 * 2 ^ s < 2 ^ (s + 5) := by
    have : n % 32 < 32 := Nat.mod_lt _ (by norm_num)
    rw [pow_add]
    nlinarith
  have hmin : min (s + 5) (2 ^ 32 - 1) = s + 5 :=
    Nat.min_eq_left (le_trans hs5 (by norm_num))
  have hrec := hbs (d.advance (bs ++ rest)) rest (s + 5) (a + n % 32 * 2 ^ s) hs5 ha' (by omega)
  show d.vlqDigits s (Int64.ofNat a) (ch :: (bs ++ rest)) = _
  simp only [MappingsDecoder.vlqDigits, hch, if_neg hne, if_pos hcont, hb.1, hmod,
    or_checkedShl a (n % 32) s ha hlow, hmin]
  rw [hrec, Nat.add_assoc, ← hsplit]
  simp only [MappingsDecoder.skip, MappingsDecoder.advance, List.length_cons]
  congr 2
  omega

theorem ofNat_shr5 (n : Nat) (hn : n < 2 ^ 63) : Int64.ofNat n >>> 5 = Int64.ofNat (n / 32) :=
  ofNat_shiftRight n 5 hn (by norm_num)

theorem ofNat_low5 (n : Nat) : Int64.ofNat n &&& 31 = Int64.ofNat (n % 32) := by
  rw [← Nat.and_two_pow_sub_one_eq_mod n 5]
  exact ofNat_and n 31

theorem ofNat_setContinuation (n : Nat) :
    Int64.ofNat (n % 32) ||| 32 = Int64.ofNat (n % 32 + 32) := by
  exact ofNat_or_shift (n % 32) 1 5 (by norm_num) (Nat.mod_lt _ (by norm_num))

/-- the last digit -/
theorem vlqLoop_last (fuel n : Nat) (hn : n < 32) (ch : UInt8)
    (hch : base64FormatEncode (Int64.ofNat n) = .ok ch) (g : Generator) :
    g.vlqLoop (fuel + 1) (Int64.ofNat n) = .ok (g.appendMappingCharCode ch) := by
  have hzero : n / 32 = 0 := Nat.div_eq_of_lt hn
  have hgt : ¬ (Int64.ofNat 0 > 0) := by decide
  have hle : Int64.ofNat 0 ≤ 0 := by decide
  simp only [Generator.vlqLoop, ofNat_shr5 n (by omega), ofNat_low5, Nat.mod_eq_of_lt hn, hzero,
    if_neg hgt, hch, if_pos hle]
  rfl

/-- a digit that is not the last -/
theorem vlqLoop_more (fuel n : Nat) (hn : n < 2 ^ 63) (h32 : 32 ≤ n) (ch : UInt8)
    (hch : base64FormatEncode (Int64.ofNat (n % 32 + 32)) = .ok ch) (g : Generator) :
    g.vlqLoop (fuel + 1) (Int64.ofNat n)
      = (g.appendMappingCharCode ch).vlqLoop fuel (Int64.ofNat (n / 32)) := by
  have hgt : Int64.ofNat (n / 32) > 0 := (ofNat_pos _ (by omega)).2 (by omega)
  have hle : ¬ (Int64.ofNat (n / 32) ≤ 0) := by
    rw [ofNat_le_zero _ (by omega)]
    omega
  simp only [Generator.vlqLoop, ofNat_shr5 n hn, ofNat_low5, if_pos hgt, ofNat_setContinuation,
    hch, if_neg hle]
  rfl

/-- the digits the generator writes for `n` -/
theorem vlqLoop_spec (fuel n : Nat) (hfuel : n < 32 ^ (fuel + 1)) (hn : n < 2 ^ 63) :
    ∃ ch bs, ¬ IsDelimiter ch ∧ IsDigits (ch :: bs) n ∧ ∀ g : Generator,
      g.vlqLoop (fuel + 1) (Int64.ofNat n) = .ok { g with mappings := g.mappings ++ ch :: bs } := by
  induction fuel generalizing n with
  | zero =>
    have hn32 : n < 32 := by simpa using hfuel
    obtain ⟨ch, henc, hdec, hne, hc, hs⟩ := base64Format_roundTrip n (by omega)
    exact ⟨ch, [], not_or.2 ⟨hc, hs⟩, isDigits_last n hn32 ch hdec hne,
      fun g => vlqLoop_last 0 n hn32 ch henc g⟩
  | succ fuel ih =>
    by_cases hn32 : n < 32
    · obtain ⟨ch, henc, hdec, hne, hc, hs⟩ := base64Format_roundTrip n (by omega)
      exact ⟨ch, [], not_or.2 ⟨hc, hs⟩, isDigits_last n hn32 ch hdec hne,
        fun g => vlqLoop_last _ n hn32 ch henc g⟩
    · obtain ⟨ch, henc, hdec, hne, hc, hs⟩ := base64Format_roundTrip (n % 32 + 32) (by omega)
      have hdiv : n / 32 < 32 ^ (fuel + 1) := by
        rw [Nat.div_lt_iff_lt_mul (by norm_num), ← pow_succ]
        exact hfuel
      obtain ⟨ch', bs, _, hbs, hrun⟩ := ih (n / 32) hdiv (by omega)
      refine ⟨ch, ch' :: bs, not_or.2 ⟨hc, hs⟩, isDigits_cons n ch _ hdec hne hbs (by omega),
        fun g => ?_⟩
      rw [vlqLoop_more _ n hn (by omega) ch henc g, hrun]
      simp [Generator.appendMappingCharCode]

/-! ## The sign -/

theorem ofNat_shl1 (n : Nat) : Int64.ofNat n <<< 1 = Int64.ofNat (n * 2) :=
  ofNat_shiftLeft n 1 (by norm_num)

theorem ofNat_shr1 (n : Nat) (hn : n < 2 ^ 63) : Int64.ofNat n >>> 1 = Int64.ofNat (n / 2) :=
  ofNat_shiftRight n 1 hn (by norm_num)

theorem ofNat_low1 (n : Nat) : Int64.ofNat n &&& 1 = Int64.ofNat (n % 2) := by
  rw [← Nat.and_two_pow_sub_one_eq_mod n 1]
  exact ofNat_and n 1

theorem unsignVlq_even (k : Nat) (hk : k * 2 < 2 ^ 63) :
    MappingsDecoder.unsignVlq (Int64.ofNat (k * 2)) = Int64.ofNat k := by
  unfold MappingsDecoder.unsignVlq
  rw [ofNat_low1, ofNat_shr1 _ hk, Nat.mul_mod_left, Nat.mul_div_cancel k (by norm_num)]
  exact if_pos rfl

theorem unsignVlq_odd (k : Nat) (hk : k * 2 + 1 < 2 ^ 63) :
    MappingsDecoder.unsignVlq (Int64.ofNat (k * 2 + 1)) = -Int64.ofNat k := by
  have hmod : (k * 2 + 1) % 2 = 1 := by omega
  have hdiv : (k * 2 + 1) / 2 = k := by omega
  unfold MappingsDecoder.unsignVlq
  rw [ofNat_low1, ofNat_shr1 _ hk, hmod, hdiv]
  exact if_neg (by decide)

theorem signVlq_spec (v : Int64) (hlo : -2 ^ 62 < v.toInt) (hhi : v.toInt < 2 ^ 62) :
    ∃ n, n < 2 ^ 63 ∧ Generator.signVlq v = Int64.ofNat n ∧
      MappingsDecoder.unsignVlq (Int64.ofNat n) = v := by
  unfold Generator.signVlq
  by_cases hneg : v.toInt < 0
  · obtain ⟨k, hk, rfl⟩ : ∃ k : Nat, k < 2 ^ 62 ∧ v = -Int64.ofNat k := by
      refine ⟨(-v.toInt).toNat, by omega, ?_⟩
      apply Int64.toInt_inj.1
      rw [Int64.toInt_neg_ofNat_of_le (by omega)]
      omega
    have hlt : -Int64.ofNat k < 0 := Int64.lt_iff_toInt_lt.2 (by simpa using hneg)
    refine ⟨k * 2 + 1, by omega, ?_, unsignVlq_odd k (by omega)⟩
    rw [if_pos hlt, Int64.neg_neg, ofNat_shl1, Int64.ofNat_add]
    rfl
  · obtain ⟨k, hk, rfl, hki⟩ := exists_ofNat v (by omega)
    have hlt : ¬ Int64.ofNat k < 0 := fun h => hneg (by simpa using Int64.lt_iff_toInt_lt.1 h)
    refine ⟨k * 2, by omega, ?_, unsignVlq_even k (by omega)⟩
    rw [if_neg hlt, ofNat_shl1]

/-- `bs` is a VLQ of `v`: it starts with a base-64 character, and the decoder reads `v` off it
whatever follows -/
structure IsVlq (bs : JsString) (v : Int64) : Prop where
  head : ∃ ch tail, bs = ch :: tail ∧ ¬ IsDelimiter ch
  reads : ∀ (d : MappingsDecoder) (rest : JsString), d.rest = bs ++ rest →
    d.base64VlqFormatDecode = (v, d.skip bs rest)

/-- **The generator appends a VLQ of the value.** -/
theorem appendBase64Vlq_spec (v : Int64) (hlo : -2 ^ 62 < v.toInt) (hhi : v.toInt < 2 ^ 62) :
    ∃ bs, IsVlq bs v ∧ ∀ g : Generator,
      g.appendBase64Vlq v = .ok { g with mappings := g.mappings ++ bs } := by
  obtain ⟨n, hn, hsign, hunsign⟩ := signVlq_spec v hlo hhi
  obtain ⟨ch, bs, hch, hdigits, hrun⟩ := vlqLoop_spec 12 n (by omega) hn
  refine ⟨ch :: bs, ⟨⟨ch, bs, rfl, hch⟩, ?_⟩, fun g => ?_⟩
  · intro d rest hd
    have h := hdigits d rest 0 0 (by norm_num) (by norm_num) (by omega)
    have hzero : Int64.ofNat 0 = 0 := rfl
    rw [Nat.zero_add, Nat.pow_zero, Nat.mul_one, hzero] at h
    unfold MappingsDecoder.base64VlqFormatDecode
    rw [hd, h, ← hunsign]
  · unfold Generator.appendBase64Vlq
    rw [hsign]
    exact hrun g

end Tsr.Sourcemap
