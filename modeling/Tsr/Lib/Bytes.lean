import Mathlib

/-!
# Numbers as bytes

`le width n` is the little-endian form of `n` in `width` bytes, as far as it fits, `be width n` the
big-endian form.

* `length_le`   its length;
* `le_inj`      numbers that fit are told apart;
* `flatMap_append_inj`   so are lists of pieces of one width;
* `ofBe_be`     a number that fits is read back.
-/

namespace Tsr.Lib.Bytes

def le : Nat → Nat → List UInt8
  | 0, _ => []
  | width + 1, n => UInt8.ofNat n :: le width (n / 256)

@[simp] theorem length_le (width n : Nat) : (le width n).length = width := by
  induction width generalizing n with
  | zero => rfl
  | succ width ih =>
    show (le width (n / 256)).length + 1 = width + 1
    rw [ih]

theorem le_inj (width n m : Nat) (hn : n < 256 ^ width) (hm : m < 256 ^ width)
    (h : le width n = le width m) : n = m := by
  induction width generalizing n m with
  | zero =>
    rw [Nat.pow_zero] at hn hm
    omega
  | succ width ih =>
    obtain ⟨h1, h2⟩ := List.cons.inj h
    rw [Nat.pow_succ] at hn hm
    have hdiv : n / 256 = m / 256 :=
      ih (n / 256) (m / 256) (Nat.div_lt_of_lt_mul (by omega)) (Nat.div_lt_of_lt_mul (by omega)) h2
    have hmod : n % 256 = m % 256 := by
      have := congrArg UInt8.toNat h1
      simpa using this
    omega

/-- the number in front of two equal texts -/
theorem le_append_inj (width n m : Nat) (hn : n < 256 ^ width) (hm : m < 256 ^ width)
    (r s : List UInt8) (h : le width n ++ r = le width m ++ s) : n = m ∧ r = s := by
  obtain ⟨h1, h2⟩ := List.append_inj h (by simp)
  exact ⟨le_inj width n m hn hm h1, h2⟩

/-- as many pieces of one width in front of two equal texts -/
theorem flatMap_append_inj {α : Type} {f : α → List UInt8} {width : Nat} (hwidth : ∀ a, (f a).length = width)
    (hinj : ∀ a b, f a = f b → a = b) {as bs : List α} (hlength : as.length = bs.length) {r s : List UInt8}
    (h : as.flatMap f ++ r = bs.flatMap f ++ s) : as = bs ∧ r = s := by
  induction as generalizing bs with
  | nil =>
    rw [List.eq_nil_of_length_eq_zero hlength.symm] at h ⊢
    exact ⟨rfl, h⟩
  | cons a as ih =>
    obtain ⟨b, bs, rfl⟩ := List.exists_cons_of_length_eq_add_one hlength.symm
    rw [List.flatMap_cons, List.flatMap_cons, List.append_assoc, List.append_assoc] at h
    obtain ⟨hhead, htail⟩ := List.append_inj h (by rw [hwidth, hwidth])
    obtain ⟨rfl, hrest⟩ := ih (Nat.succ.inj hlength) htail
    rw [hinj a b hhead]
    exact ⟨rfl, hrest⟩

def be (width n : Nat) : List UInt8 := (le width n).reverse

/-- the number of a big-endian form -/
def ofBe (bytes : List UInt8) : Nat := bytes.foldl (fun n b => n * 256 + b.toNat) 0

@[simp] theorem length_be (width n : Nat) : (be width n).length = width := by
  rw [be, List.length_reverse, length_le]

theorem ofBe_be (width n : Nat) (h : n < 256 ^ width) : ofBe (be width n) = n := by
  induction width generalizing n with
  | zero =>
    rw [Nat.pow_zero] at h
    show 0 = n
    omega
  | succ width ih =>
    rw [Nat.pow_succ] at h
    have hdiv := ih (n / 256) (Nat.div_lt_of_lt_mul (by omega))
    rw [ofBe, be] at hdiv
    rw [ofBe, be, le, List.reverse_cons, List.foldl_append, hdiv]
    simp only [List.foldl_cons, List.foldl_nil, UInt8.toNat_ofNat', Nat.reducePow]
    omega

end Tsr.Lib.Bytes
