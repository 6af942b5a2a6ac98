import Mathlib

/-!
# Numbers in decimal notation, as bytes

* `decimal`, `intText`   the digits of a number, with the sign of an integer;
* `decimal_inj`          the digits determine the number;
* `Numeral`              digits without a leading zero: longer ones have the larger value, and those of
                         one length are ordered as their texts (`Numeral.compare_value`).
-/

namespace Tsr.Lib.Decimal

/-- the decimal digits of a number -/
def decimal (n : Nat) : List UInt8 := (Nat.toDigits 10 n).map fun c => c.toNat.toUInt8

def intText (n : Int) : List UInt8 :=
  match n with
  | .ofNat n => decimal n
  | .negSucc n => 45 :: decimal (n + 1)

theorem decimal_inj (i j : Nat) (h : decimal i = decimal j) : i = j := by
  have hback : ∀ n, (decimal n).map (fun b => Char.ofNat b.toNat) = Nat.toDigits 10 n := by
    intro n
    unfold decimal
    rw [List.map_map]
    refine (List.map_congr_left fun c hc => ?_).trans (List.map_id _)
    have hd := Nat.isDigit_of_mem_toDigits (by decide) (by decide) hc
    simp only [Char.isDigit, Bool.and_eq_true, decide_eq_true_eq] at hd
    have hle : c.toNat ≤ 57 := UInt32.le_iff_toNat_le.1 hd.2
    show Char.ofNat c.toNat.toUInt8.toNat = c
    rw [Nat.toUInt8_eq, UInt8.toNat_ofNat', Nat.mod_eq_of_lt (by omega), Char.ofNat_toNat]
  have hchars : Nat.toDigits 10 i = Nat.toDigits 10 j := by rw [← hback i, ← hback j, h]
  have hnum := congrArg (fun l => Nat.ofDigitChars 10 l 0) hchars
  simpa [Nat.ofDigitChars_toDigits] using hnum

theorem decimal_ne_nil (n : Nat) : decimal n ≠ [] := fun h => Nat.toDigits_ne_nil (List.map_eq_nil_iff.1 h)

/-- a digit of a number as a byte -/
theorem decimal_bounds {n : Nat} {b : UInt8} (h : b ∈ decimal n) : 48 ≤ b.toNat ∧ b.toNat ≤ 57 := by
  obtain ⟨c, hc, rfl⟩ := List.mem_map.1 h
  have hd := Nat.isDigit_of_mem_toDigits (by decide) (by decide) hc
  simp only [Char.isDigit, Bool.and_eq_true, decide_eq_true_eq] at hd
  have hlow : 48 ≤ c.toNat := UInt32.le_iff_toNat_le.1 hd.1
  have hhigh : c.toNat ≤ 57 := UInt32.le_iff_toNat_le.1 hd.2
  rw [Nat.toUInt8_eq, UInt8.toNat_ofNat', Nat.mod_eq_of_lt (by omega)]
  exact ⟨hlow, hhigh⟩

/-! ## numerals -/

/-- the value of a digit string -/
abbrev value (digits : List Char) : Nat := Nat.ofDigitChars 10 digits 0

structure Numeral (digits : List Char) : Prop where
  nonempty : digits ≠ []
  digit : ∀ c ∈ digits, c.isDigit = true
  first : digits.length = 1 ∨ digits.head? ≠ some '0'

theorem digit_bounds {c : Char} (h : c.isDigit = true) : 48 ≤ c.toNat ∧ c.toNat ≤ 57 := by
  simp only [Char.isDigit, Bool.and_eq_true, decide_eq_true_eq] at h
  exact ⟨UInt32.le_iff_toNat_le.1 h.1, UInt32.le_iff_toNat_le.1 h.2⟩

theorem value_cons (c : Char) (digits : List Char) :
    value (c :: digits) = (c.toNat - 48) * 10 ^ digits.length + value digits := by
  show Nat.ofDigitChars 10 (c :: digits) 0 = _
  rw [Nat.ofDigitChars_cons, Nat.ofDigitChars_eq_ofDigitChars_zero, Nat.mul_zero, Nat.zero_add,
    Nat.mul_comm]
  rfl

theorem value_lt {digits : List Char} (h : ∀ c ∈ digits, c.isDigit = true) :
    value digits < 10 ^ digits.length := by
  induction digits with
  | nil => show Nat.ofDigitChars 10 [] 0 < 1; rw [Nat.ofDigitChars_nil]; exact Nat.zero_lt_one
  | cons c digits ih =>
    have hc := digit_bounds (h c List.mem_cons_self)
    have hrest := ih fun d hd => h d (List.mem_cons_of_mem _ hd)
    rw [value_cons, List.length_cons, Nat.pow_succ]
    have hmul : (c.toNat - 48) * 10 ^ digits.length ≤ 9 * 10 ^ digits.length :=
      Nat.mul_le_mul_right _ (by omega)
    omega

/-- a leading digit other than zero -/
theorem le_value {c : Char} {digits : List Char} (hc : c.isDigit = true) (hzero : c ≠ '0') :
    10 ^ digits.length ≤ value (c :: digits) := by
  have hbounds := digit_bounds hc
  have hne : c.toNat ≠ 48 := fun e => hzero (Char.toNat_inj.1 e)
  rw [value_cons]
  have hmul : 1 * 10 ^ digits.length ≤ (c.toNat - 48) * 10 ^ digits.length :=
    Nat.mul_le_mul_right _ (by omega)
  omega

theorem compare_mul_add {a b u v m : Nat} (hu : u < m) (hv : v < m) :
    compare (a * m + u) (b * m + v) = (compare a b).then (compare u v) := by
  rcases Nat.lt_trichotomy a b with h | h | h
  · have hle : (a + 1) * m ≤ b * m := Nat.mul_le_mul_right _ h
    rw [Nat.add_mul, Nat.one_mul] at hle
    rw [Nat.compare_eq_lt.2 h, Nat.compare_eq_lt.2 (by omega)]
    rfl
  · subst h
    rw [Nat.compare_eq_eq.2 rfl, Ordering.eq_then]
    rcases Nat.lt_trichotomy u v with h | h | h
    · rw [Nat.compare_eq_lt.2 h, Nat.compare_eq_lt.2 (by omega)]
    · rw [h]
      exact (Nat.compare_eq_eq.2 rfl).trans (Nat.compare_eq_eq.2 rfl).symm
    · rw [Nat.compare_eq_gt.2 h, Nat.compare_eq_gt.2 (by omega)]
  · have hle : (b + 1) * m ≤ a * m := Nat.mul_le_mul_right _ h
    rw [Nat.add_mul, Nat.one_mul] at hle
    rw [Nat.compare_eq_gt.2 h, Nat.compare_eq_gt.2 (by omega)]
    rfl

/-- digit strings of one length are ordered as their texts -/
theorem compare_text {a b : List Char} (ha : ∀ c ∈ a, c.isDigit = true)
    (hb : ∀ c ∈ b, c.isDigit = true) (hlength : a.length = b.length) :
    compare (a.map fun c => c.toNat.toUInt8) (b.map fun c => c.toNat.toUInt8) =
      compare (value a) (value b) := by
  induction a generalizing b with
  | nil =>
    obtain rfl := List.eq_nil_of_length_eq_zero hlength.symm
    rfl
  | cons c a ih =>
    obtain ⟨d, b, rfl⟩ := List.exists_cons_of_length_eq_add_one hlength.symm
    have hlength' : a.length = b.length := Nat.succ.inj hlength
    have hrest := ih (fun x hx => ha x (List.mem_cons_of_mem _ hx))
      (fun x hx => hb x (List.mem_cons_of_mem _ hx)) hlength'
    have hc := digit_bounds (ha c List.mem_cons_self)
    have hd := digit_bounds (hb d List.mem_cons_self)
    have hbyte : ∀ n, n ≤ 57 → n.toUInt8.toNat = n := by
      intro n hn
      rw [Nat.toUInt8_eq, UInt8.toNat_ofNat', Nat.mod_eq_of_lt (by omega)]
    have hhead : compare c.toNat.toUInt8 d.toNat.toUInt8 = compare (c.toNat - 48) (d.toNat - 48) := by
      rw [UInt8.compare_eq_toNat_compare_toNat, hbyte _ hc.2, hbyte _ hd.2]
      simp only [Nat.compare_eq_ite_lt]
      split_ifs <;> first | rfl | omega
    rw [List.map_cons, List.map_cons, List.compare_cons_cons, hhead, hrest, value_cons, value_cons,
      ← hlength', compare_mul_add (value_lt fun x hx => ha x (List.mem_cons_of_mem _ hx))
        (hlength' ▸ value_lt fun x hx => hb x (List.mem_cons_of_mem _ hx))]

theorem Numeral.value_lt_of_length {a b : List Char} (ha : Numeral a) (hb : Numeral b)
    (h : a.length < b.length) : value a < value b := by
  obtain ⟨c, rest, rfl⟩ := List.exists_cons_of_ne_nil hb.nonempty
  obtain ⟨d, more, hmore⟩ := List.exists_cons_of_ne_nil ha.nonempty
  have hlength : a.length = more.length + 1 := by rw [hmore]; rfl
  have hzero : c ≠ '0' := by
    rcases hb.first with h1 | h1
    · rw [List.length_cons] at h h1
      omega
    · exact fun e => h1 (congrArg some e)
  calc value a < 10 ^ a.length := value_lt ha.digit
    _ ≤ 10 ^ rest.length := Nat.pow_le_pow_right (by decide) (by rw [List.length_cons] at h; omega)
    _ ≤ value (c :: rest) := le_value (hb.digit c List.mem_cons_self) hzero

/-- **numerals compare as numbers by their length first, then as texts** -/
theorem Numeral.compare_value {a b : List Char} (ha : Numeral a) (hb : Numeral b) :
    compare (value a) (value b) = (compare a.length b.length).then
      (compare (a.map fun c => c.toNat.toUInt8) (b.map fun c => c.toNat.toUInt8)) := by
  rcases Nat.lt_trichotomy a.length b.length with h | h | h
  · rw [Nat.compare_eq_lt.2 h, Nat.compare_eq_lt.2 (ha.value_lt_of_length hb h)]
    rfl
  · rw [compare_text ha.digit hb.digit h, Nat.compare_eq_eq.2 h]
    rfl
  · rw [Nat.compare_eq_gt.2 h, Nat.compare_eq_gt.2 (hb.value_lt_of_length ha h)]
    rfl

/-- the digits of a number are a numeral -/
theorem numeral_toDigits (n : Nat) : Numeral (Nat.toDigits 10 n) where
  nonempty := Nat.toDigits_ne_nil
  digit := fun _ hc => Nat.isDigit_of_mem_toDigits (by decide) (by decide) hc
  first := by
    rcases Nat.lt_or_ge n 10 with h | h
    · rw [Nat.toDigits_of_lt_base h]
      exact Or.inl rfl
    right
    -- the first digit is that of a smaller number, which is not zero
    induction n using Nat.strongRecOn with
    | ind n ih =>
      rw [Nat.toDigits_of_base_le (by decide) h]
      rcases Nat.lt_or_ge (n / 10) 10 with h1 | h1
      · rw [Nat.toDigits_of_lt_base h1, List.singleton_append, List.head?_cons]
        intro e
        have hdigit := Nat.toNat_digitChar_of_lt_ten h1
        rw [Option.some.inj e] at hdigit
        have hzero : ('0' : Char).toNat = 48 := rfl
        omega
      · rw [List.head?_append_of_ne_nil _ Nat.toDigits_ne_nil]
        exact ih (n / 10) (by omega) h1

end Tsr.Lib.Decimal
