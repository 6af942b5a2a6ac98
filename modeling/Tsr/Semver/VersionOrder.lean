import Tsr.Lib.Decimal
import Tsr.Semver.Version

/-!
# Semver: the order of versions

* `Identifier`, `precedence`   the precedence rules: numeric identifiers are numbers below all words, an
                               identifier list is compared from the left with proper prefixes first,
                               and a release is above its prereleases;
* `compareIdentifier_eq`       the comparison through machine integers and texts is the one of the rules;
* `compare_eq`                 so is the comparison of versions, which is a total order
                               (`compare_trans`) up to the build metadata (`compare_eq_eq_iff`).
-/

namespace Tsr.Semver

open Json (Bytes)
open Lib.Decimal (value Numeral)

/-! ## texts -/

theorem fromUtf8_asBytes (text : Str) : fromUtf8 (asBytes text) = some text := by
  have h : Json.lossyLoop (asBytes text).length (asBytes text) = text :=
    Json.lossyLoop_chars text _ le_rfl
  rw [fromUtf8, h]
  exact if_pos rfl

theorem asBytes_inj {a b : Str} (h : asBytes a = asBytes b) : a = b := by
  have ha := fromUtf8_asBytes a
  rw [h, fromUtf8_asBytes b] at ha
  exact (Option.some.inj ha).symm

theorem asBytes_append (a b : Str) : asBytes (a ++ b) = asBytes a ++ asBytes b := List.flatMap_append

/-- a text of valid UTF-8 is written back as it was -/
theorem fromUtf8_eq_some {bytes : Bytes} {text : Str} (h : fromUtf8 bytes = some text) :
    bytes = asBytes text := by
  unfold fromUtf8 at h
  by_cases hb : asBytes (Json.lossyLoop bytes.length bytes) = bytes
  · rw [← Option.some.inj ((if_pos hb).symm.trans h), hb]
  · exact nomatch (if_neg hb).symm.trans h

theorem isDigit_eq (c : Char) : isDigit c = c.isDigit := rfl

theorem asBytes_digits {text : Str} (h : ∀ c ∈ text, c.isDigit = true) :
    asBytes text = text.map fun c => c.toNat.toUInt8 := by
  induction text with
  | nil => rfl
  | cons c text ih =>
    have hc := (Lib.Decimal.digit_bounds (h c List.mem_cons_self)).2
    show Json.encodeUtf8 c.toNat ++ asBytes text = _
    rw [ih fun d hd => h d (List.mem_cons_of_mem _ hd), Json.encodeUtf8, if_pos (by omega)]
    rfl

theorem len_digits {text : Str} (h : ∀ c ∈ text, c.isDigit = true) : len text = text.length := by
  rw [len, asBytes_digits h, List.length_map]

theorem numeric_iff {text : Str} : numeric text = true ↔ Numeral text := by
  unfold numeric
  constructor
  · intro h
    simp only [Bool.and_eq_true, Bool.or_eq_true, Bool.not_eq_true', List.all_eq_true, beq_iff_eq,
      bne_iff_ne, List.isEmpty_eq_false_iff] at h
    obtain ⟨⟨hne, hdigit⟩, hfirst⟩ := h
    exact ⟨hne, hdigit, len_digits hdigit ▸ hfirst⟩
  · intro h
    simp only [Bool.and_eq_true, Bool.or_eq_true, Bool.not_eq_true', List.all_eq_true, beq_iff_eq,
      bne_iff_ne, List.isEmpty_eq_false_iff, len_digits h.digit]
    exact ⟨⟨h.nonempty, h.digit⟩, h.first⟩

theorem parseU32_numeral {text : Str} (h : Numeral text) :
    parseU32 text = if value text < 2 ^ 32 then some (UInt32.ofNat (value text)) else none := by
  obtain ⟨c, rest, rfl⟩ := List.exists_cons_of_ne_nil h.nonempty
  have hc : c ≠ '+' := by
    rintro rfl
    exact absurd (h.digit '+' List.mem_cons_self) (by decide)
  have hdigits : (c :: rest).all isDigit = true := List.all_eq_true.2 h.digit
  unfold parseU32
  split
  next heq => exact absurd (List.cons.inj heq).1 hc
  next =>
    show (if ((c :: rest).isEmpty || !(c :: rest).all isDigit) = true then none else _) = _
    rw [hdigits]
    rfl

/-! ## identifiers -/

/-- an identifier as the precedence rules read it -/
inductive Identifier where
  | number (n : Nat)
  | word (bytes : Bytes)
deriving DecidableEq

def identifier (text : Str) : Identifier :=
  if numeric text then .number (value text) else .word (asBytes text)

def Identifier.precedence : Identifier → Identifier → Ordering
  | .number m, .number n => compare m n
  | .number _, .word _ => .lt
  | .word _, .number _ => .gt
  | .word a, .word b => compare a b

instance : Std.OrientedCmp Identifier.precedence where
  eq_swap := by
    intro a b
    cases a with
    | number m =>
      cases b with
      | number n => exact Std.OrientedOrd.eq_swap
      | word b => rfl
    | word a =>
      cases b with
      | number n => rfl
      | word b => exact Std.OrientedOrd.eq_swap

instance : Std.TransCmp Identifier.precedence where
  isLE_trans := by
    intro a b c hab hbc
    cases a with
    | number m =>
      cases b with
      | number n =>
        cases c with
        | number k => exact Std.TransOrd.isLE_trans hab hbc
        | word c => rfl
      | word b =>
        cases c with
        | number k => exact nomatch hbc
        | word c => rfl
    | word a =>
      cases b with
      | number n => exact nomatch hab
      | word b =>
        cases c with
        | number k => exact nomatch hbc
        | word c => exact Std.TransOrd.isLE_trans hab hbc

instance : Std.LawfulEqCmp Identifier.precedence where
  eq_of_compare := by
    intro a b h
    cases a with
    | number m =>
      cases b with
      | number n => exact congrArg _ (Std.LawfulEqOrd.eq_of_compare h)
      | word b => exact nomatch h
    | word a =>
      cases b with
      | number n => exact nomatch h
      | word b => exact congrArg _ (Std.LawfulEqOrd.eq_of_compare h)

/-- the values of numerals, found through machine integers where both fit -/
theorem compare_numerals {left right : Str} (hl : Numeral left) (hr : Numeral right) :
    compareNumerals left right = compare (value left) (value right) := by
  have hlong := hl.compare_value hr
  rw [← asBytes_digits hl.digit, ← asBytes_digits hr.digit, ← len_digits hl.digit,
    ← len_digits hr.digit] at hlong
  rw [compareNumerals, parseU32_numeral hl, parseU32_numeral hr]
  by_cases h : value left < 2 ^ 32
  · by_cases h' : value right < 2 ^ 32
    · rw [if_pos h, if_pos h']
      show compare (UInt32.ofNat _) (UInt32.ofNat _) = _
      rw [UInt32.compare_eq_toNat_compare_toNat, UInt32.toNat_ofNat', UInt32.toNat_ofNat',
        Nat.mod_eq_of_lt h, Nat.mod_eq_of_lt h']
    · rw [if_pos h, if_neg h']
      exact hlong.symm
  · rw [if_neg h]
    exact hlong.symm

/-- **identifiers are compared as the precedence rules say** -/
theorem compareIdentifier_eq (left right : Str) :
    compareIdentifier left right = (identifier left).precedence (identifier right) := by
  unfold compareIdentifier
  by_cases hlexical : compare (asBytes left) (asBytes right) = .eq
  · obtain rfl := asBytes_inj (Std.LawfulEqOrd.eq_of_compare hlexical)
    have hself : (identifier left).precedence (identifier left) = .eq := Std.ReflCmp.compare_self
    rw [hself]
    exact (if_pos hlexical).trans hlexical
  · refine (if_neg hlexical).trans ?_
    cases hl : numeric left with
    | true =>
      cases hr : numeric right with
      | true =>
        rw [identifier, if_pos hl, identifier, if_pos hr]
        exact compare_numerals (numeric_iff.1 hl) (numeric_iff.1 hr)
      | false => rw [identifier, if_pos hl, identifier, if_neg (by simp [hr])]; rfl
    | false =>
      cases hr : numeric right with
      | true => rw [identifier, if_neg (by simp [hl]), identifier, if_pos hr]; rfl
      | false => rw [identifier, if_neg (by simp [hl]), identifier, if_neg (by simp [hr])]; rfl

theorem identifier_inj {left right : Str} (h : identifier left = identifier right) : left = right := by
  unfold identifier at h
  by_cases hl : numeric left = true
  · by_cases hr : numeric right = true
    · rw [if_pos hl, if_pos hr] at h
      -- equal values: equal lengths and equal texts
      have hvalue := (numeric_iff.1 hl).compare_value (numeric_iff.1 hr)
      rw [Identifier.number.inj h, Std.ReflOrd.compare_self] at hvalue
      have htext := (Ordering.then_eq_eq.1 hvalue.symm).2
      rw [← asBytes_digits (numeric_iff.1 hl).digit, ← asBytes_digits (numeric_iff.1 hr).digit] at htext
      exact asBytes_inj (Std.LawfulEqOrd.eq_of_compare htext)
    · rw [if_pos hl, if_neg hr] at h
      exact nomatch h
  · by_cases hr : numeric right = true
    · rw [if_neg hl, if_pos hr] at h
      exact nomatch h
    · rw [if_neg hl, if_neg hr] at h
      exact asBytes_inj (Identifier.word.inj h)

/-! ## prerelease lists -/

/-- a release is above its prereleases; lists are compared from the left, a proper prefix first -/
def prereleasePrecedence : List Identifier → List Identifier → Ordering
  | [], [] => .eq
  | [], _ :: _ => .gt
  | _ :: _, [] => .lt
  | left, right => List.compareLex Identifier.precedence left right

instance : Std.OrientedCmp prereleasePrecedence where
  eq_swap := by
    intro a b
    cases a with
    | nil => cases b <;> rfl
    | cons x a =>
      cases b with
      | nil => rfl
      | cons y b =>
        show List.compareLex Identifier.precedence (x :: a) (y :: b) = _
        exact Std.OrientedCmp.eq_swap

instance : Std.TransCmp prereleasePrecedence where
  isLE_trans := by
    intro a b c hab hbc
    cases a with
    | nil =>
      cases b with
      | nil => exact hbc
      | cons y b => exact nomatch hab
    | cons x a =>
      cases c with
      | nil => rfl
      | cons z c =>
        cases b with
        | nil => exact nomatch hbc
        | cons y b =>
          have hlex : Std.TransCmp (List.compareLex Identifier.precedence) := inferInstance
          exact hlex.isLE_trans hab hbc

instance : Std.LawfulEqCmp prereleasePrecedence where
  eq_of_compare := by
    intro a b h
    cases a with
    | nil =>
      cases b with
      | nil => rfl
      | cons y b => exact nomatch h
    | cons x a =>
      cases b with
      | nil => exact nomatch h
      | cons y b =>
        have hlex : Std.LawfulEqCmp (List.compareLex Identifier.precedence) := inferInstance
        exact hlex.eq_of_compare h

/-- the first difference of two lists, then their lengths -/
theorem compareZipped_then (left right : List Str) :
    (compareZipped left right).then (compare left.length right.length) =
      List.compareLex Identifier.precedence (left.map identifier) (right.map identifier) := by
  induction left generalizing right with
  | nil =>
    cases right with
    | nil => rfl
    | cons r right => exact Nat.compare_eq_lt.2 (Nat.succ_pos _)
  | cons l left ih =>
    cases right with
    | nil => exact Nat.compare_eq_gt.2 (Nat.succ_pos _)
    | cons r right =>
      rw [List.map_cons, List.map_cons, List.compareLex_cons_cons, ← ih right, ← compareIdentifier_eq,
        List.length_cons, List.length_cons]
      have hlength : compare (left.length + 1) (right.length + 1) = compare left.length right.length := by
        simp only [Nat.compare_eq_ite_lt]
        split_ifs <;> first | rfl | omega
      rw [hlength]
      show Ordering.then (if compareIdentifier l r ≠ .eq then compareIdentifier l r
        else compareZipped left right) _ = _
      cases compareIdentifier l r <;> rfl

theorem comparePrereleases_eq (left right : List Str) :
    comparePrereleases left right =
      prereleasePrecedence (left.map identifier) (right.map identifier) := by
  cases left with
  | nil => cases right <;> rfl
  | cons l left =>
    cases right with
    | nil => rfl
    | cons r right =>
      show (if compareZipped (l :: left) (r :: right) ≠ .eq then compareZipped (l :: left) (r :: right)
        else compare (l :: left).length (r :: right).length) = _
      refine Eq.trans ?_ (compareZipped_then (l :: left) (r :: right))
      cases compareZipped (l :: left) (r :: right) <;> rfl

/-! ## versions -/

def Version.identifiers (v : Version) : List Identifier := v.prerelease.map identifier

/-- **the precedence of versions**: the numbers from the left, then the prereleases -/
def precedence : Version → Version → Ordering :=
  compareLex (compareOn fun v => v.major.toNat) <|
  compareLex (compareOn fun v => v.minor.toNat) <|
  compareLex (compareOn fun v => v.patch.toNat) fun l r =>
    prereleasePrecedence l.identifiers r.identifiers

instance : Std.OrientedCmp fun l r : Version => prereleasePrecedence l.identifiers r.identifiers where
  eq_swap := by
    intro l r
    have horiented : Std.OrientedCmp prereleasePrecedence := inferInstance
    exact horiented.eq_swap

instance : Std.TransCmp fun l r : Version => prereleasePrecedence l.identifiers r.identifiers where
  isLE_trans := by
    intro l m r hlm hmr
    have htrans : Std.TransCmp prereleasePrecedence := inferInstance
    exact htrans.isLE_trans hlm hmr

instance : Std.TransCmp precedence := inferInstanceAs (Std.TransCmp (compareLex _ _))

theorem compare_some (l r : Version) : Version.compare (some l) (some r) = precedence l r := by
  show (((compare l.major r.major).then (compare l.minor r.minor)).then
    (compare l.patch r.patch)).then (comparePrereleases l.prerelease r.prerelease) = _
  rw [comparePrereleases_eq, Ordering.then_assoc, Ordering.then_assoc,
    UInt32.compare_eq_toNat_compare_toNat, UInt32.compare_eq_toNat_compare_toNat,
    UInt32.compare_eq_toNat_compare_toNat]
  rfl

/-- the version without its build metadata -/
def Version.withoutBuild (v : Version) : Version := { v with build := [] }

theorem precedence_eq_eq_iff (l r : Version) :
    precedence l r = .eq ↔ l.withoutBuild = r.withoutBuild := by
  simp only [precedence, compareLex_eq_eq, compareOn, Std.LawfulEqCmp.compare_eq_iff_eq,
    UInt32.toNat_inj, Version.identifiers, Version.withoutBuild, Version.mk.injEq, and_true]
  constructor
  · intro ⟨h1, h2, h3, h4⟩
    exact ⟨h1, h2, h3, List.map_injective_iff.2 (fun _ _ h => identifier_inj h)
      h4⟩
  · intro ⟨h1, h2, h3, h4⟩
    rw [h4]
    exact ⟨h1, h2, h3, rfl⟩

instance : Std.OrientedCmp Version.compare where
  eq_swap := by
    intro a b
    cases a with
    | none => cases b <;> rfl
    | some l =>
      cases b with
      | none => rfl
      | some r =>
        rw [compare_some, compare_some]
        exact Std.OrientedCmp.eq_swap

/-- a missing version is below all others -/
instance compare_trans : Std.TransCmp Version.compare where
  isLE_trans := by
    intro a b c hab hbc
    cases a with
    | none => cases c <;> rfl
    | some l =>
      cases b with
      | none => exact nomatch hab
      | some m =>
        cases c with
        | none => exact nomatch hbc
        | some r =>
          rw [compare_some] at hab hbc ⊢
          exact Std.TransCmp.isLE_trans hab hbc

theorem compare_self (v : Version) : Version.compare (some v) (some v) = .eq :=
  Std.ReflCmp.compare_self

end Tsr.Semver
