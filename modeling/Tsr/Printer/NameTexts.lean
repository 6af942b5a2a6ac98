import Tsr.Printer.NameGenerator

/-!
# The texts of generated names

* `tempName_apart`       the names of one counter differ, wherever its key is split;
* `uniqueCandidate_inj`  the numbered names differ.
-/

namespace Tsr.Printer

open Tsr.Lib.Decimal Tsr.Lib.Seek NameGenerator

/-! ## texts -/

/-- an underscore, and none after it -/
def Marked (text : Name) : Prop := ∃ rest, text = 95 :: rest ∧ (95 : UInt8) ∉ rest

/-- a text that is put in at two places of a text with the same result is the same text -/
theorem marked_eq {s t : Name} (hs : Marked s) (ht : Marked t) (n : Nat) :
    ∀ w : Name, w.length ≤ n → s ++ w = w ++ t → s = t := by
  induction n with
  | zero =>
    intro w hw h
    rw [List.length_eq_zero_iff.1 (Nat.le_zero.1 hw), List.append_nil, List.nil_append] at h
    exact h
  | succ n ih =>
    intro w hw h
    obtain ⟨srest, hsrest, -⟩ := hs
    obtain ⟨trest, htrest, hnot⟩ := ht
    rcases List.append_eq_append_iff.1 h with ⟨x, hx, hw'⟩ | ⟨x, hx, ht'⟩
    · -- the text ends within `w`
      have hlength := congrArg List.length hx
      rw [List.length_append, hsrest, List.length_cons] at hlength
      apply ih x (by omega)
      rw [← hw', hx]
    · -- `w` ends within the text
      cases w with
      | nil =>
        rw [List.append_nil, List.nil_append] at h
        exact h
      | cons b w =>
        have hb : b = 95 := by
          rw [hsrest, List.cons_append] at hx
          exact (List.cons.inj hx).1.symm
        cases x with
        | nil =>
          rw [List.append_nil] at hx
          rw [hx, ht', List.nil_append]
        | cons c x =>
          rw [htrest, List.cons_append] at ht'
          refine absurd ?_ hnot
          rw [(List.cons.inj ht').2, ← hb]
          exact List.mem_append_right _ List.mem_cons_self

theorem marked_insert {s t u v u' v' : Name} (hs : Marked s) (ht : Marked t) (hrest : u ++ v = u' ++ v')
    (h : u ++ (s ++ v) = u' ++ (t ++ v')) : s = t := by
  rcases List.append_eq_append_iff.1 hrest with ⟨w, hu', hv⟩ | ⟨w, hu, hv'⟩
  · rw [hu', hv, List.append_assoc] at h
    have hmid := List.append_cancel_left h
    rw [← List.append_assoc, ← List.append_assoc] at hmid
    exact marked_eq hs ht w.length w (Nat.le_refl _) (List.append_cancel_right hmid)
  · rw [hu, hv', List.append_assoc] at h
    have hmid := List.append_cancel_left h
    rw [← List.append_assoc, ← List.append_assoc] at hmid
    exact (marked_eq ht hs w.length w (Nat.le_refl _) (List.append_cancel_right hmid).symm).symm

theorem letter_toNat {count : Nat} (h : count < 26) : (97 + count).toUInt8.toNat = 97 + count := by
  rw [Nat.toUInt8_eq, UInt8.toNat_ofNat']
  omega

theorem tempName_marked (count : Nat) : Marked (tempName count) := by
  by_cases hcount : count < 26
  · refine ⟨[(97 + count).toUInt8], if_pos hcount, ?_⟩
    intro hmem
    have hnat := congrArg UInt8.toNat (List.mem_singleton.1 hmem)
    rw [letter_toNat hcount] at hnat
    have : (95 : UInt8).toNat = 95 := rfl
    omega
  · refine ⟨decimal (count - 26), if_neg hcount, ?_⟩
    intro hmem
    have hbounds := decimal_bounds hmem
    have : (95 : UInt8).toNat = 95 := rfl
    omega

/-- a letter is no number -/
theorem letter_ne_decimal {count n : Nat} (h : count < 26) : [(97 + count).toUInt8] ≠ decimal n := by
  intro heq
  have hbounds := @decimal_bounds n (97 + count).toUInt8 (by rw [← heq]; exact List.mem_cons_self)
  rw [letter_toNat h] at hbounds
  omega

theorem tempName_inj {i j : Nat} (h : tempName i = tempName j) : i = j := by
  rw [tempName, tempName] at h
  by_cases hi : i < 26
  · by_cases hj : j < 26
    · rw [if_pos hi, if_pos hj] at h
      have hnat := congrArg UInt8.toNat (List.cons.inj (List.cons.inj h).2).1
      rw [letter_toNat hi, letter_toNat hj] at hnat
      omega
    · rw [if_pos hi, if_neg hj] at h
      exact absurd (List.cons.inj h).2 (letter_ne_decimal hi)
  · by_cases hj : j < 26
    · rw [if_neg hi, if_pos hj] at h
      exact absurd (List.cons.inj h).2.symm (letter_ne_decimal hj)
    · rw [if_neg hi, if_neg hj] at h
      have := decimal_inj _ _ (List.cons.inj h).2
      omega

theorem removeLeadingHash_tempName (count : Nat) : removeLeadingHash (tempName count) = tempName count := by
  obtain ⟨rest, hrest, -⟩ := tempName_marked count
  rw [hrest]
  rfl

/-- a public name of a counter: its count, between the parts of its key -/
theorem public_tempName (pre suffix : Name) (count : Nat) : formatGeneratedName false pre (tempName count) suffix
    = removeLeadingHash pre ++ (tempName count ++ removeLeadingHash suffix) := by
  show removeLeadingHash pre ++ (removeLeadingHash (tempName count) ++ removeLeadingHash suffix) = _
  rw [removeLeadingHash_tempName]

/-- the parts of a key, put together -/
theorem counterOf_parts {pre suffix pre' suffix' : Name}
    (h : counterOf false pre suffix = counterOf false pre' suffix') :
    removeLeadingHash pre ++ removeLeadingHash suffix = removeLeadingHash pre' ++ removeLeadingHash suffix' := by
  rw [counterOf, counterOf] at h
  by_cases hempty : pre = [] ∧ suffix = []
  · rw [if_pos hempty] at h
    by_cases hempty' : pre' = [] ∧ suffix' = []
    · rw [hempty.1, hempty.2, hempty'.1, hempty'.2]
    · rw [if_neg hempty'] at h
      cases h
  · rw [if_neg hempty] at h
    by_cases hempty' : pre' = [] ∧ suffix' = []
    · rw [if_pos hempty'] at h
      cases h
    · rw [if_neg hempty'] at h
      exact Option.some.inj h

/-- **The names of one counter differ**, also where its key is split in another way. -/
theorem tempName_apart {pre suffix pre' suffix' : Name} {i j : Nat}
    (hcounter : counterOf false pre suffix = counterOf false pre' suffix') (hne : i ≠ j) :
    formatGeneratedName false pre (tempName i) suffix ≠ formatGeneratedName false pre' (tempName j) suffix' := by
  intro h
  rw [public_tempName, public_tempName] at h
  exact hne (tempName_inj (marked_insert (tempName_marked i) (tempName_marked j) (counterOf_parts hcounter) h))

/-! ## numbered names -/

theorem hasLeadingHash_append {text : Name} (h : text ≠ []) (rest : Name) :
    hasLeadingHash (text ++ rest) = hasLeadingHash text := by
  cases text with
  | nil => exact absurd rfl h
  | cons b text => rfl

theorem hasLeadingHash_decimal (n : Nat) : hasLeadingHash (decimal n) = false := by
  cases h : decimal n with
  | nil => rfl
  | cons b rest =>
    have hbounds := @decimal_bounds n b (by rw [h]; exact List.mem_cons_self)
    refine decide_eq_false ?_
    intro hhash
    have hb := Option.some.inj hhash
    rw [hb] at hbounds
    have : (35 : UInt8).toNat = 35 := rfl
    omega

/-- the hash of a base stands in front of its number -/
theorem removeLeadingHash_numbered (base : Name) (n : Nat) :
    removeLeadingHash (base ++ decimal n) = removeLeadingHash base ++ decimal n := by
  cases base with
  | nil =>
    show removeLeadingHash (decimal n) = decimal n
    rw [removeLeadingHash, hasLeadingHash_decimal]
    rfl
  | cons b base =>
    rw [removeLeadingHash, removeLeadingHash, hasLeadingHash_append (List.cons_ne_nil b base)]
    by_cases hhash : hasLeadingHash (b :: base) = true
    · rw [if_pos hhash, if_pos hhash]
      rfl
    · rw [if_neg hhash, if_neg hhash]

/-- whether a hash is put in front does not depend on the number -/
theorem hasLeadingHash_numbered (front back : Name) (i j : Nat) :
    hasLeadingHash (front ++ (decimal i ++ back)) = hasLeadingHash (front ++ (decimal j ++ back)) := by
  cases front with
  | nil =>
    show hasLeadingHash (decimal i ++ back) = hasLeadingHash (decimal j ++ back)
    rw [hasLeadingHash_append (decimal_ne_nil i), hasLeadingHash_append (decimal_ne_nil j), hasLeadingHash_decimal,
      hasLeadingHash_decimal]
  | cons b front => rfl

/-- **The numbered names differ.** -/
theorem uniqueCandidate_inj (baseName : Name) (privateName : Bool) (pre suffix : Name) :
    Function.Injective (uniqueCandidate baseName privateName pre suffix) := by
  intro i j h
  have hform : ∀ n, uniqueCandidate baseName privateName pre suffix n
      = (if privateName then ensureLeadingHash else id)
        ((removeLeadingHash pre ++ removeLeadingHash (numberedBase (removeLeadingHash baseName)))
          ++ (decimal n ++ removeLeadingHash suffix)) := by
    intro n
    rw [uniqueCandidate, formatGeneratedName, removeLeadingHash_numbered]
    cases privateName with
    | false => simp only [Bool.false_eq_true, if_false, id, List.append_assoc]
    | true => simp only [if_true, List.append_assoc]
  rw [hform, hform] at h
  have hplain : (removeLeadingHash pre ++ removeLeadingHash (numberedBase (removeLeadingHash baseName)))
        ++ (decimal i ++ removeLeadingHash suffix)
      = (removeLeadingHash pre ++ removeLeadingHash (numberedBase (removeLeadingHash baseName)))
        ++ (decimal j ++ removeLeadingHash suffix) := by
    cases privateName with
    | false => exact h
    | true =>
      have hhash := hasLeadingHash_numbered
        (removeLeadingHash pre ++ removeLeadingHash (numberedBase (removeLeadingHash baseName)))
        (removeLeadingHash suffix) i j
      rw [if_pos rfl, ensureLeadingHash, ensureLeadingHash, hhash] at h
      split_ifs at h
      · exact h
      · exact (List.cons.inj h).2
  exact decimal_inj i j (List.append_cancel_right (List.append_cancel_left hplain))

end Tsr.Printer
