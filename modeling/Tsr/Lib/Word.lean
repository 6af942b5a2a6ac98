import Mathlib

/-!
# Signed 64-bit words that hold a natural number

`Int64.ofNat n` for `n < 2^63` is the non-negative word with value `n`.  The lemmas move the bit
operations of such words to `Nat`, where a shift is a multiplication or a division and a mask is a
remainder:

* `ofNat_and`, `ofNat_or`, `ofNat_shiftLeft`, `ofNat_shiftRight`   the operations themselves;
* `ofNat_pos`, `ofNat_le_zero`   comparisons with zero;
* `exists_ofNat`                 a word with a non-negative value is of this form;
* `add_sub_cancel_word`          a wrapped difference added back.
-/

namespace Tsr.Lib.Word

theorem ofNat_and (a b : Nat) : Int64.ofNat a &&& Int64.ofNat b = Int64.ofNat (a &&& b) := by
  apply Int64.toBitVec_inj.1
  simp [BitVec.ofNat_and]

theorem ofNat_or (a b : Nat) : Int64.ofNat a ||| Int64.ofNat b = Int64.ofNat (a ||| b) := by
  apply Int64.toBitVec_inj.1
  simp [BitVec.ofNat_or]

/-- shift counts below 64 are taken as they are -/
theorem shift_smod (s : Nat) (hs : s < 64) :
    ((Int64.ofNat s).toBitVec.smod (64 : BitVec 64)).toNat = s := by
  have h : ∀ s : Fin 64, ((BitVec.ofNat 64 s.val).smod 64).toNat = s.val := by decide
  exact h ⟨s, hs⟩

theorem ofNat_shiftLeft (n s : Nat) (hs : s < 64) :
    Int64.ofNat n <<< Int64.ofNat s = Int64.ofNat (n * 2 ^ s) := by
  apply Int64.toBitVec_inj.1
  rw [Int64.toBitVec_shiftLeft, BitVec.shiftLeft_eq', shift_smod s hs]
  apply BitVec.eq_of_toNat_eq
  simp only [Int64.toBitVec_ofNat', BitVec.toNat_shiftLeft, BitVec.toNat_ofNat,
    Nat.shiftLeft_eq, Nat.mod_mul_mod]

theorem ofNat_shiftRight (n s : Nat) (hn : n < 2 ^ 63) (hs : s < 64) :
    Int64.ofNat n >>> Int64.ofNat s = Int64.ofNat (n / 2 ^ s) := by
  apply Int64.toBitVec_inj.1
  rw [Int64.toBitVec_shiftRight, BitVec.sshiftRight_eq', shift_smod s hs]
  have hmsb : (Int64.ofNat n).toBitVec.msb = false := by
    rw [BitVec.msb_eq_false_iff_two_mul_lt, Int64.toBitVec_ofNat', BitVec.toNat_ofNat]
    omega
  rw [BitVec.sshiftRight_eq_of_msb_false hmsb]
  apply BitVec.eq_of_toNat_eq
  have hlt : n / 2 ^ s < 2 ^ 64 := lt_of_le_of_lt (Nat.div_le_self n _) (by omega)
  rw [BitVec.toNat_ushiftRight, Int64.toBitVec_ofNat', Int64.toBitVec_ofNat', BitVec.toNat_ofNat,
    BitVec.toNat_ofNat, Nat.mod_eq_of_lt (by omega), Nat.mod_eq_of_lt hlt,
    Nat.shiftRight_eq_div_pow]

theorem ofNat_pos (n : Nat) (hn : n < 2 ^ 63) : 0 < Int64.ofNat n ↔ 0 < n := by
  rw [Int64.lt_iff_toInt_lt, Int64.toInt_ofNat_of_lt hn, Int64.toInt_zero]
  omega

theorem ofNat_le_zero (n : Nat) (hn : n < 2 ^ 63) : Int64.ofNat n ≤ 0 ↔ n = 0 := by
  rw [Int64.le_iff_toInt_le, Int64.toInt_ofNat_of_lt hn, Int64.toInt_zero]
  omega

/-- `d` set above the bits of `a` -/
theorem ofNat_or_shift (a d s : Nat) (hs : s < 64) (ha : a < 2 ^ s) :
    Int64.ofNat a ||| Int64.ofNat d <<< Int64.ofNat s = Int64.ofNat (a + d * 2 ^ s) := by
  rw [ofNat_shiftLeft d s hs, ofNat_or, Nat.or_comm, Nat.mul_comm d,
    ← Nat.two_pow_add_eq_or_of_lt ha, Nat.add_comm]

theorem exists_ofNat (x : Int64) (h : 0 ≤ x.toInt) :
    ∃ n, n < 2 ^ 63 ∧ x = Int64.ofNat n ∧ x.toInt = n := by
  have hlt := x.toInt_lt
  refine ⟨x.toInt.toNat, by omega, ?_, by omega⟩
  apply Int64.toInt_inj.1
  rw [Int64.toInt_ofNat_of_lt (by omega)]
  omega

/-- wrapped differences of small values do not wrap -/
theorem toInt_sub_of_lt (x y : Int64) (hx : 0 ≤ x.toInt) (hx' : x.toInt < 2 ^ 62)
    (hy : 0 ≤ y.toInt) (hy' : y.toInt < 2 ^ 62) : (x - y).toInt = x.toInt - y.toInt := by
  rw [Int64.toInt_sub]
  apply Int.bmod_eq_of_le <;> omega

theorem add_sub_cancel_word (x y : Int64) : x + (y - x) = y := by
  apply Int64.toBitVec_inj.1
  rw [Int64.toBitVec_add, Int64.toBitVec_sub, BitVec.add_comm, BitVec.sub_add_cancel]

end Tsr.Lib.Word
