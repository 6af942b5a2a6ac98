import Tsr.Semver.VersionRangeSound

/-!
# Semver: the ranges that are written with a version

* `parsePartial_version`   a version text as an operand is its version;
* `next_major`, …          a version and the one with one of its numbers incremented; the largest number
                           is followed by zero;
* `WildWraps`, `TildeWraps`, `CaretWraps`   the bounds above that need a number past the largest one;
* `ranges_of_version`      in which of the ranges written with a version it is.
-/

namespace Tsr.Semver

open Json (Bytes)
open Lib.Decimal (value Numeral)

/-! ## a version as an operand -/

/-- the parts of a version text -/
def partsOf (text : Bytes) : Option Parts := (fromUtf8 text).bind fun text => parts text false

/-- the numbers that are written, from the left -/
structure Written (p : Parts) : Prop where
  major : Numeral p.major
  minor : ∀ part ∈ p.minor, Numeral part
  patch : ∀ part ∈ p.patch, Numeral part
  minor_first : p.minor = none → p.patch = none
  patch_first : p.patch = none → p.prerelease = none

theorem parts_written {text : Str} {p : Parts} (h : parts text false = some p) : Written p := by
  obtain ⟨numbers, rest, rfl, hshape⟩ := parts_shape h
  have hnumeral : ∀ part ∈ numbers, Numeral part := fun part hpart =>
    numeral_of_badNumber (hshape.numbers_ok part hpart)
  have hat : ∀ i : Nat, ∀ part ∈ numbers[i]?, Numeral part := fun i part hpart =>
    hnumeral part (List.mem_of_getElem? hpart)
  refine ⟨?_, fun part hpart => hat 1 part (hshape.minor ▸ hpart),
    fun part hpart => hat 2 part (hshape.patch ▸ hpart), fun hminor => ?_, fun hpatch => ?_⟩
  · obtain ⟨part, numbers, rfl⟩ := List.exists_cons_of_ne_nil hshape.some_number
    rw [hshape.major]
    exact hnumeral part List.mem_cons_self
  · rw [hshape.minor, List.getElem?_eq_none_iff] at hminor
    rw [hshape.patch, List.getElem?_eq_none_iff]
    omega
  · have hrest : rest = [] := by
      by_contra hne
      have hsome := hshape.patch_first hne
      rw [hpatch] at hsome
      exact nomatch hsome
    have hq := hshape.qualifiers
    rw [hrest] at hq
    exact (Prod.mk.inj hq).1

theorem wildcard_getD {part : Option Str} (h : ∀ text ∈ part, Numeral text) :
    wildcard (part.getD ['*']) = part.isNone := by
  cases part with
  | none => rfl
  | some text => exact not_wildcard_of_numeral (h text rfl)

theorem splitQualifier_eq {allowed : Str → Bool} {text : Option Str} {l : List Str}
    (h : identifiers allowed text = some l) : splitQualifier text = l := by
  cases text with
  | none => exact Option.some.inj h
  | some text =>
    rw [identifiers] at h
    by_cases hall : (text.splitOn '.').all allowed = true
    · exact Option.some.inj ((if_pos hall).symm.trans h)
    · rw [if_neg hall] at h
      cases h

theorem operandNumbers_eq {p : Parts} {v : Version} (hw : Written p) (h : Reads p v) :
    operandNumbers p.major (p.minor.getD ['*']) (p.patch.getD ['*']) =
      some (v.major, v.minor, v.patch) := by
  unfold operandNumbers
  rw [not_wildcard_of_numeral hw.major, h.major, wildcard_getD hw.minor, wildcard_getD hw.patch]
  cases hminor : p.minor with
  | none =>
    have h1 : v.minor = 0 := by simpa [NumberOf, hminor] using h.minor
    have h2 : v.patch = 0 := by simpa [NumberOf, hw.minor_first hminor] using h.patch
    rw [h1, h2]
    rfl
  | some minor =>
    have h1 : parseU32 minor = some v.minor := by simpa [NumberOf, hminor] using h.minor
    cases hpatch : p.patch with
    | none =>
      have h2 : v.patch = 0 := by simpa [NumberOf, hpatch] using h.patch
      simp [h1, h2]
    | some patch =>
      have h2 : parseU32 patch = some v.patch := by simpa [NumberOf, hpatch] using h.patch
      simp [h1, h2]

/-- **a version text is the operand of its version** -/
theorem parsePartial_version {text : Str} {p : Parts} {v : Version} (hparts : parts text false = some p)
    (h : Reads p v) :
    parsePartial text = some
      { version := v, major := p.major, minor := p.minor.getD ['*'], patch := p.patch.getD ['*'] } := by
  rw [parsePartial, parts_wildcards hparts, Option.bind_some]
  simp only [operandNumbers_eq (parts_written hparts) h, Option.map_some, splitQualifier_eq h.prerelease,
    splitQualifier_eq h.build]

/-! ## incremented numbers -/

theorem toNat_add_one (n : UInt32) :
    (n + 1).toNat = if n = 0xFFFFFFFF then 0 else n.toNat + 1 := by
  have hlt := n.toNat_lt
  rw [UInt32.toNat_add, UInt32.toNat_one]
  by_cases h : n = 0xFFFFFFFF
  · rw [if_pos h, h]
    rfl
  · rw [if_neg h]
    have hne : n.toNat ≠ 4294967295 := fun e => h (UInt32.toNat_inj.1 e)
    omega

theorem compare_add_one (n : UInt32) :
    compare n.toNat (n + 1).toNat = if n = 0xFFFFFFFF then .gt else .lt := by
  rw [toNat_add_one]
  by_cases h : n = 0xFFFFFFFF
  · rw [if_pos h, if_pos h, h]
    rfl
  · rw [if_neg h, if_neg h]
    exact Nat.compare_eq_lt.2 (Nat.lt_succ_self _)

section
variable {v u : Version}

theorem next_major (h : u.major = v.major + 1) :
    Version.compare (some v) (some u) = if v.major = 0xFFFFFFFF then .gt else .lt := by
  rw [compare_some, precedence, compareLex, compareOn, h, compare_add_one]
  split <;> rfl

theorem next_minor (hmajor : u.major = v.major) (h : u.minor = v.minor + 1) :
    Version.compare (some v) (some u) = if v.minor = 0xFFFFFFFF then .gt else .lt := by
  rw [compare_some, precedence, compareLex, compareOn, hmajor, Std.ReflOrd.compare_self, compareLex,
    compareOn, h, compare_add_one]
  split <;> rfl

theorem next_patch (hmajor : u.major = v.major) (hminor : u.minor = v.minor)
    (h : u.patch = v.patch + 1) :
    Version.compare (some v) (some u) = if v.patch = 0xFFFFFFFF then .gt else .lt := by
  rw [compare_some, precedence, compareLex, compareOn, hmajor, Std.ReflOrd.compare_self, compareLex,
    compareOn, hminor, Std.ReflOrd.compare_self, compareLex, compareOn, h, compare_add_one]
  split <;> rfl

theorem compare_incrementMajor (v : Version) : Version.compare (some v) (some v.incrementMajor) =
    if v.major = 0xFFFFFFFF then .gt else .lt := next_major rfl

theorem compare_incrementMinor (v : Version) : Version.compare (some v) (some v.incrementMinor) =
    if v.minor = 0xFFFFFFFF then .gt else .lt := next_minor rfl rfl

theorem compare_incrementPatch (v : Version) : Version.compare (some v) (some v.incrementPatch) =
    if v.patch = 0xFFFFFFFF then .gt else .lt := next_patch rfl rfl rfl

/-- a release is above its prereleases -/
theorem compare_lowest (h : v.prerelease = []) :
    Version.compare (some v) (some v.lowest) = .gt := by
  rw [compare_some, precedence, compareLex, compareOn, Version.lowest, Std.ReflOrd.compare_self, compareLex,
    compareOn, Std.ReflOrd.compare_self, compareLex, compareOn, Std.ReflOrd.compare_self,
    Version.identifiers, h]
  rfl

end

/-! ## bounds that wrap around -/

/-- a missing number counts as a wildcard, and its range ends at the next number in front of it -/
def WildWraps (p : Parts) (v : Version) : Prop :=
  if p.minor.isNone then v.major = 0xFFFFFFFF else p.patch.isNone ∧ v.minor = 0xFFFFFFFF

def TildeWraps (p : Parts) (v : Version) : Prop :=
  if p.minor.isNone then v.major = 0xFFFFFFFF else v.minor = 0xFFFFFFFF

def CaretWraps (v : Version) : Prop :=
  if 0 < v.major then v.major = 0xFFFFFFFF
  else if 0 < v.minor then v.minor = 0xFFFFFFFF
  else v.patch = 0xFFFFFFFF

theorem eq_zero_of_not_pos {n : UInt32} (h : ¬0 < n) : n = 0 := by
  have hn : ¬(0 : Nat) < n.toNat := h
  exact UInt32.toNat_inj.1 (Nat.eq_zero_of_not_pos hn)

theorem ite_lt_iff (c : Prop) [Decidable c] : (if c then Ordering.gt else .lt) = .lt ↔ ¬c := by
  split <;> simp [*]

section
variable {p : Parts} {v : Version}

/-- a number that is not written is zero -/
theorem Written.zeros (hw : Written p) (h : Reads p v) :
    (p.minor.isNone = true → v.minor = 0 ∧ p.patch.isNone = true) ∧
    (p.patch.isNone = true → v.patch = 0 ∧ v.prerelease = []) := by
  refine ⟨fun hminor => ?_, fun hpatch => ?_⟩
  · rw [Option.isNone_iff_eq_none] at hminor ⊢
    exact ⟨by simpa [NumberOf, hminor] using h.minor, hw.minor_first hminor⟩
  · rw [Option.isNone_iff_eq_none] at hpatch
    have hpre := h.prerelease
    rw [hw.patch_first hpatch] at hpre
    exact ⟨by simpa [NumberOf, hpatch] using h.patch, (Option.some.inj hpre).symm⟩

theorem tilde_iff : Version.compare (some v) (some (upperBound true p.minor.isNone p.patch.isNone v)) = .lt ↔
    ¬TildeWraps p v := by
  unfold TildeWraps
  cases hminor : p.minor.isNone with
  | true =>
    show Version.compare (some v) (some v.incrementMajor) = .lt ↔ _
    rw [compare_incrementMajor, ite_lt_iff]
    rfl
  | false =>
    show Version.compare (some v) (some v.incrementMinor) = .lt ↔ _
    rw [compare_incrementMinor, ite_lt_iff]
    rfl

theorem caret_iff (hw : Written p) (h : Reads p v) :
    Version.compare (some v) (some (upperBound false p.minor.isNone p.patch.isNone v)) = .lt ↔
      ¬CaretWraps v := by
  obtain ⟨hminor, hpatch⟩ := hw.zeros h
  unfold CaretWraps upperBound
  by_cases h1 : 0 < v.major
  · rw [if_pos h1, if_pos (by simp [h1]), compare_incrementMajor, ite_lt_iff]
  rw [if_neg h1]
  by_cases hm : p.minor.isNone = true
  · -- the numbers behind the first one are zero
    have h0 := (hminor hm).1
    have h2 : ¬0 < v.minor := by rw [h0]; decide
    rw [if_pos (by simp [hm]), compare_incrementMajor, ite_lt_iff, if_neg h2, eq_zero_of_not_pos h1,
      (hpatch (hminor hm).2).1]
  rw [if_neg (by simp [h1, hm])]
  by_cases h2 : 0 < v.minor
  · rw [if_pos h2, if_pos (by simp [h2]), compare_incrementMinor, ite_lt_iff]
  rw [if_neg h2]
  by_cases hp : p.patch.isNone = true
  · rw [if_pos (by simp [hp]), compare_incrementMinor, ite_lt_iff, eq_zero_of_not_pos h2, (hpatch hp).1]
  · rw [if_neg (by simp [h2, hp]), compare_incrementPatch, ite_lt_iff]

/-- the version behind everything an incomplete operand stands for -/
theorem compare_afterWildcard (hwild : (p.minor.isNone || p.patch.isNone) = true) :
    (Version.compare (some v) (some (v.afterWildcard p.minor.isNone)) = .lt ↔ ¬WildWraps p v) ∧
    (Version.compare (some v) (some (v.afterWildcard p.minor.isNone)) = .gt ↔ WildWraps p v) := by
  unfold WildWraps
  cases hminor : p.minor.isNone with
  | true =>
    have hnext : Version.compare (some v) (some (v.afterWildcard true)) =
      if v.major = 0xFFFFFFFF then .gt else .lt := next_major rfl
    rw [hnext, if_pos rfl]
    by_cases h : v.major = 0xFFFFFFFF <;> simp [h]
  | false =>
    have hpatch : p.patch.isNone = true := by simpa [hminor] using hwild
    have hnext : Version.compare (some v) (some (v.afterWildcard false)) =
      if v.minor = 0xFFFFFFFF then .gt else .lt := next_minor rfl rfl
    rw [hnext, if_neg Bool.false_ne_true, hpatch]
    by_cases h : v.minor = 0xFFFFFFFF <;> simp [h]

theorem not_wildWraps (hwild : (p.minor.isNone || p.patch.isNone) = false) : ¬WildWraps p v := by
  obtain ⟨hminor, hpatch⟩ := Bool.or_eq_false_iff.1 hwild
  rw [WildWraps, if_neg (by simp [hminor]), hpatch]
  exact fun h => Bool.noConfusion h.1

end

/-! ## the ranges -/

/-- the range can be read, and the version is in it -/
def InRange (range : Bytes) (v : Version) : Prop :=
  ∃ r, VersionRange.parse range = some r ∧ r.test (some v) = true

/-- the range can be read, and the version is not in it -/
def NotInRange (range : Bytes) (v : Version) : Prop :=
  ∃ r, VersionRange.parse range = some r ∧ r.test (some v) = false

theorem inRange_iff {range : Bytes} {comparators : Option (List Comparator)} {l : List Comparator}
    (hparse : VersionRange.parse range =
      comparators.map fun alternative => { alternatives := [alternative] })
    (hl : comparators = some l) (v : Version) :
    (InRange range v ↔ ∀ comparator ∈ l, VersionRange.accepts (some v) comparator = true) ∧
    (NotInRange range v ↔ ¬∀ comparator ∈ l, VersionRange.accepts (some v) comparator = true) := by
  rw [hl, Option.map_some] at hparse
  have htest := test_single l (some v)
  rw [← List.all_eq_true]
  constructor
  · constructor
    · intro ⟨r, hr, h⟩
      obtain rfl := Option.some.inj (hparse.symm.trans hr)
      rw [← htest]
      exact h
    · intro h
      exact ⟨_, hparse, htest.trans h⟩
  · rw [Bool.not_eq_true]
    constructor
    · intro ⟨r, hr, h⟩
      obtain rfl := Option.some.inj (hparse.symm.trans hr)
      rw [← htest]
      exact h
    · intro h
      exact ⟨_, hparse, htest.trans h⟩

theorem accepts_less (v u : Version) : VersionRange.accepts (some v) ⟨.less, u⟩ = true ↔
    Version.compare (some v) (some u) = .lt := decide_eq_true_iff

theorem accepts_greaterEqual (v u : Version) : VersionRange.accepts (some v) ⟨.greaterEqual, u⟩ = true ↔
    Version.compare (some v) (some u) ≠ .lt := decide_eq_true_iff

theorem accepts_self (v : Version) :
    VersionRange.accepts (some v) ⟨.equal, v⟩ = true ∧
    VersionRange.accepts (some v) ⟨.greaterEqual, v⟩ = true ∧
    VersionRange.accepts (some v) ⟨.lessEqual, v⟩ = true ∧
    VersionRange.accepts (some v) ⟨.less, v⟩ = false ∧
    VersionRange.accepts (some v) ⟨.greater, v⟩ = false := by
  unfold VersionRange.accepts
  rw [compare_self]
  exact ⟨rfl, rfl, rfl, rfl, rfl⟩

section
variable {text : Str} {p : Parts} {v : Version} (hparts : parts text false = some p) (h : Reads p v)
include hparts h

theorem parseComparator_own (operator : Str) :
    parseComparator operator text = comparators operator v p.minor.isNone p.patch.isNone := by
  have hw := parts_written hparts
  rw [parseComparator, parsePartial_version hparts h, Option.bind_some]
  simp only [not_wildcard_of_numeral hw.major, wildcard_getD hw.minor, wildcard_getD hw.patch,
    Bool.false_eq_true, if_false]

/-- the range of an operator by the comparators it becomes -/
theorem own_range {operator : Str} (hop : IsOperator operator) {l : List Comparator}
    (hl : comparators operator v p.minor.isNone p.patch.isNone = some l) :
    (InRange (asBytes operator ++ asBytes text) v ↔
      ∀ comparator ∈ l, VersionRange.accepts (some v) comparator = true) ∧
    (NotInRange (asBytes operator ++ asBytes text) v ↔
      ¬∀ comparator ∈ l, VersionRange.accepts (some v) comparator = true) :=
  inRange_iff (parse_operator hop hparts) ((parseComparator_own hparts h operator).trans hl) v

theorem release_of_wild (hwild : (p.minor.isNone || p.patch.isNone) = true) : v.prerelease = [] := by
  obtain ⟨hminor, hpatch⟩ := (parts_written hparts).zeros h
  rcases Bool.or_eq_true_iff.1 hwild with hm | hp
  · exact (hpatch (hminor hm).2).2
  · exact (hpatch hp).2

theorem own_equal {operator : Str} (hop : operator = ['='] ∨ operator = []) :
    InRange (asBytes operator ++ asBytes text) v ↔ ¬WildWraps p v := by
  have hoperator : IsOperator operator := by rcases hop with rfl | rfl <;> constructor
  have hl : comparators operator v p.minor.isNone p.patch.isNone =
      some (if p.minor.isNone || p.patch.isNone then
          [⟨.greaterEqual, v.lowest⟩, ⟨.less, v.afterWildcard p.minor.isNone⟩]
        else [⟨.equal, v⟩]) := by
    rcases hop with rfl | rfl <;> rfl
  rw [(own_range hparts h hoperator hl).1]
  cases hwild : p.minor.isNone || p.patch.isNone with
  | true =>
    simp only [if_true, List.forall_mem_cons, accepts_greaterEqual, accepts_less,
      compare_lowest (release_of_wild hparts h hwild), (compare_afterWildcard hwild).1]
    simp
  | false =>
    simp only [Bool.false_eq_true, if_false, List.forall_mem_cons, (accepts_self v).1,
      not_wildWraps hwild]
    simp

theorem own_tilde : InRange (asBytes ['~'] ++ asBytes text) v ↔ ¬TildeWraps p v := by
  rw [(own_range hparts h .tilde rfl).1, ← tilde_iff]
  simp only [List.forall_mem_cons, (accepts_self v).2.1, accepts_less, true_and]
  simp

theorem own_caret : InRange (asBytes ['^'] ++ asBytes text) v ↔ ¬CaretWraps v := by
  rw [(own_range hparts h .caret rfl).1, ← caret_iff (parts_written hparts) h]
  simp only [List.forall_mem_cons, (accepts_self v).2.1, accepts_less, true_and]
  simp

theorem own_greaterEqual : InRange (asBytes ['>', '='] ++ asBytes text) v := by
  rw [(own_range hparts h .greaterEqual rfl).1]
  cases hwild : p.minor.isNone || p.patch.isNone with
  | true =>
    simp only [if_true, List.forall_mem_cons]
    refine ⟨(accepts_greaterEqual v v.lowest).2 ?_, fun _ hc => absurd hc List.not_mem_nil⟩
    rw [compare_lowest (release_of_wild hparts h hwild)]
    decide
  | false =>
    simp only [Bool.false_eq_true, if_false, List.forall_mem_cons]
    exact ⟨(accepts_self v).2.1, fun _ hc => absurd hc List.not_mem_nil⟩

theorem own_less : NotInRange (asBytes ['<'] ++ asBytes text) v := by
  rw [(own_range hparts h .less rfl).2]
  cases hwild : p.minor.isNone || p.patch.isNone with
  | true =>
    intro hall
    have hlowest := (accepts_less v v.lowest).1 (hall _ List.mem_cons_self)
    rw [compare_lowest (release_of_wild hparts h hwild)] at hlowest
    cases hlowest
  | false =>
    intro hall
    have hless : VersionRange.accepts (some v) ⟨.less, v⟩ = true := hall _ List.mem_cons_self
    rw [(accepts_self v).2.2.2.1] at hless
    cases hless

theorem own_lessEqual : InRange (asBytes ['<', '='] ++ asBytes text) v ↔ ¬WildWraps p v := by
  rw [(own_range hparts h .lessEqual rfl).1]
  cases hwild : p.minor.isNone || p.patch.isNone with
  | true =>
    rw [← (compare_afterWildcard hwild).1, ← accepts_less]
    simp
  | false =>
    have hself := (accepts_self v).2.2.1
    simp only [Bool.false_eq_true, if_false, not_wildWraps hwild]
    simp [hself]

theorem own_greater : NotInRange (asBytes ['>'] ++ asBytes text) v ↔ ¬WildWraps p v := by
  rw [(own_range hparts h .greater rfl).2]
  cases hwild : p.minor.isNone || p.patch.isNone with
  | true =>
    rw [← (compare_afterWildcard hwild).1, ← not_iff_not, not_not]
    simp [accepts_greaterEqual]
  | false =>
    have hself := (accepts_self v).2.2.2.2
    simp only [Bool.false_eq_true, if_false, not_wildWraps hwild]
    simp [hself]

theorem own_hyphen : InRange (asBytes text ++ asBytes [' ', '-', ' '] ++ asBytes text) v ↔
    ¬WildWraps p v := by
  have hw := parts_written hparts
  have hl : parseHyphen text text = some ([⟨.greaterEqual, v⟩] ++
      (if p.minor.isNone then [⟨.less, v.incrementMajor⟩]
       else if p.patch.isNone then [⟨.less, v.incrementMinor⟩] else [⟨.lessEqual, v⟩])) := by
    rw [parseHyphen, parsePartial_version hparts h, Option.bind_some, Option.map_some]
    simp only [not_wildcard_of_numeral hw.major, wildcard_getD hw.minor, wildcard_getD hw.patch,
      Bool.false_eq_true, if_false]
  rw [(inRange_iff (parse_hyphen hparts hparts) hl v).1, WildWraps, List.singleton_append,
    List.forall_mem_cons]
  simp only [(accepts_self v).2.1, true_and]
  cases hminor : p.minor.isNone with
  | true => simp [accepts_less, compare_incrementMajor]
  | false =>
    cases hpatch : p.patch.isNone with
    | true => simp [accepts_less, compare_incrementMinor]
    | false => simp [(accepts_self v).2.2.1]

end

/-- **in which of its own ranges a version is**: in all of them, and in none that excludes it, except
for the bounds above that would need a number past the largest one -/
theorem ranges_of_version (text : Bytes) (v : Version) (p : Parts) (hparts : partsOf text = some p)
    (h : Version.parse text = .ok v) :
    (InRange text v ↔ ¬WildWraps p v) ∧
    (InRange (asBytes ['='] ++ text) v ↔ ¬WildWraps p v) ∧
    (InRange (asBytes ['^'] ++ text) v ↔ ¬CaretWraps v) ∧
    (InRange (asBytes ['~'] ++ text) v ↔ ¬TildeWraps p v) ∧
    InRange (asBytes ['>', '='] ++ text) v ∧
    (InRange (asBytes ['<', '='] ++ text) v ↔ ¬WildWraps p v) ∧
    (InRange (text ++ asBytes [' ', '-', ' '] ++ text) v ↔ ¬WildWraps p v) ∧
    NotInRange (asBytes ['<'] ++ text) v ∧
    (NotInRange (asBytes ['>'] ++ text) v ↔ ¬WildWraps p v) := by
  obtain ⟨t, q, rfl, hq, hreads⟩ := parse_reads h
  have hpq : p = q := by
    rw [partsOf, fromUtf8_asBytes, Option.bind_some, hq] at hparts
    exact (Option.some.inj hparts).symm
  subst hpq
  exact ⟨own_equal hq hreads (Or.inr rfl), own_equal hq hreads (Or.inl rfl), own_caret hq hreads,
    own_tilde hq hreads, own_greaterEqual hq hreads, own_lessEqual hq hreads, own_hyphen hq hreads,
    own_less hq hreads, own_greater hq hreads⟩

/-- `4294967295.1.2` -/
def largestMajor : Str := ['4', '2', '9', '4', '9', '6', '7', '2', '9', '5', '.', '1', '.', '2']

def largestMajorVersion : Version := { major := 0xFFFFFFFF, minor := 1, patch := 2 }

def largestMajorParts : Parts where
  major := ['4', '2', '9', '4', '9', '6', '7', '2', '9', '5']
  minor := some ['1']
  patch := some ['2']
  prerelease := none
  build := none

theorem ranges_of_version_largest :
    InRange (asBytes ['~'] ++ asBytes largestMajor) largestMajorVersion :=
  (ranges_of_version (asBytes largestMajor) largestMajorVersion largestMajorParts (by decide +kernel)
    (by decide +kernel)).2.2.2.1.2 (by unfold TildeWraps; decide)

/-- the caret range of the largest major number is empty: its bound above is `0.0.0` -/
theorem caret_excludes_version :
    ¬∀ (text : Bytes) (v : Version), Version.parse text = .ok v →
      InRange text v ∧ InRange (asBytes ['='] ++ text) v ∧ InRange (asBytes ['^'] ++ text) v ∧
      InRange (asBytes ['~'] ++ text) v ∧ InRange (asBytes ['>', '='] ++ text) v ∧
      InRange (asBytes ['<', '='] ++ text) v ∧
      InRange (text ++ asBytes [' ', '-', ' '] ++ text) v ∧ NotInRange (asBytes ['<'] ++ text) v ∧
      NotInRange (asBytes ['>'] ++ text) v := by
  intro hall
  have hin := (hall (asBytes largestMajor) largestMajorVersion (by decide +kernel)).2.2.1
  have hparts : parts largestMajor false = some largestMajorParts := by decide +kernel
  have hcomparator : parseComparator ['^'] largestMajor =
      some [⟨.greaterEqual, largestMajorVersion⟩, ⟨.less, {}⟩] := by decide +kernel
  have hno := (inRange_iff (parse_operator .caret hparts) hcomparator largestMajorVersion).1.1 hin
  exact absurd (hno ⟨.less, {}⟩ (by simp)) (by decide +kernel)

end Tsr.Semver
