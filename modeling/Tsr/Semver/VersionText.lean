import Tsr.Lib.Segments
import Tsr.Semver.VersionOrder

/-!
# Semver: the text of a version

* `Shape`        the numbers of a text, what stands behind them and the parts they become; `parts` finds
                 exactly these (`parts_shape`, `Shape.parts_eq`);
* `Reads`        the version that the parts of a text stand for;
* `WellFormed`   the versions that can be written; every parsed one is;
* `compare_precedence_and_display`   the order and the round trip of parsed versions.
-/

namespace Tsr.Semver

open Json (Bytes)
open Lib.Decimal (value Numeral)
open Segments (mem_intercalate mem_intercalate_of_mem)

/-! ## characters -/

/-- a predicate tells two characters apart -/
theorem ne_of_char {p : Char → Bool} {c : Char} (hc : p c = true) (d : Char) (hd : p d = false) : c ≠ d := by
  intro heq
  rw [heq, hd] at hc
  cases hc

/-- the characters of an identifier -/
def identifierChar (c : Char) : Bool := foldedLetter c || isDigit c || c == '-'

theorem identifierChar_of_digit {c : Char} (h : isDigit c = true) : identifierChar c = true := by
  rw [identifierChar, h, Bool.or_true, Bool.true_or]

theorem qualifierChar_of {c : Char} (h : identifierChar c = true ∨ c = '.') : qualifierChar c = true := by
  rcases h with h | rfl
  · exact Bool.or_eq_true_iff.2 (Or.inl h)
  · rfl

/-- the characters of a number or a wildcard -/
def numberChar (c : Char) : Bool := isDigit c || c == 'x' || c == 'X' || c == '*'

theorem wildcard_cases {text : Str} (h : wildcard text = true) :
    text = ['x'] ∨ text = ['X'] ∨ text = ['*'] := by
  simpa [wildcard, Bool.or_assoc] using h

theorem not_wildcard_of_numeral {text : Str} (h : Numeral text) : wildcard text = false := by
  rw [Bool.eq_false_iff]
  intro hw
  rcases wildcard_cases hw with rfl | rfl | rfl <;>
    exact absurd (h.digit _ List.mem_cons_self) (by decide)

theorem numberChar_of_mem {wildcards : Bool} {part : Str}
    (h : badNumber wildcards (some part) = false) {c : Char} (hc : c ∈ part) : numberChar c = true := by
  have hpart : numeric part = true ∨ wildcard part = true := by
    simp only [badNumber, Option.any_some, Bool.not_eq_false', Bool.or_eq_true, Bool.and_eq_true] at h
    exact h.imp id And.right
  rcases hpart with h | h
  · rw [numberChar, isDigit_eq, (numeric_iff.1 h).digit c hc]
    rfl
  · rcases wildcard_cases h with rfl | rfl | rfl <;> rw [List.mem_singleton.1 hc] <;> rfl

theorem badNumber_of_numeral {part : Str} (wildcards : Bool) (h : Numeral part) :
    badNumber wildcards (some part) = false := by
  simp only [badNumber, Option.any_some, numeric_iff.2 h, Bool.true_or, Bool.not_true]

theorem numeral_of_badNumber {part : Str} (h : badNumber false (some part) = false) : Numeral part := by
  simp only [badNumber, Option.any_some, Bool.false_and, Bool.or_false, Bool.not_eq_false'] at h
  exact numeric_iff.1 h

/-! ## the shape of a text -/

/-- nothing, or a mark and what it stands in front of -/
def Behind (rest : Str) : Prop := rest = [] ∨ ∃ c qualifier, rest = c :: qualifier ∧ qualifierMark c = true

/-- a text as numbers and a rest, and the parts they become -/
structure Shape (wildcards : Bool) (numbers : List Str) (rest : Str) (p : Parts) : Prop where
  some_number : numbers ≠ []
  three_numbers : numbers[3]? = none
  behind : Behind rest
  major : p.major = numbers.headD []
  minor : p.minor = numbers[1]?
  patch : p.patch = numbers[2]?
  qualifiers : (p.prerelease, p.build) = qualifiers rest
  numbers_ok : ∀ part ∈ numbers, badNumber wildcards (some part) = false
  patch_first : rest ≠ [] → p.patch.isSome = true
  prerelease_ok : badQualifier p.prerelease = false
  build_ok : badQualifier p.build = false

theorem three_parts (ok : Option Str → Prop) {numbers : List Str} (hne : numbers ≠ [])
    (hthree : numbers[3]? = none) (h0 : ok (some (numbers.headD []))) (h1 : ok numbers[1]?)
    (h2 : ok numbers[2]?) : ∀ part ∈ numbers, ok (some part) := by
  obtain _ | ⟨a, _ | ⟨b, _ | ⟨c, _ | ⟨d, numbers⟩⟩⟩⟩ := numbers
  · exact absurd rfl hne
  · intro part hpart
    rw [List.mem_singleton.1 hpart]
    exact h0
  · intro part hpart
    rcases List.mem_pair.1 hpart with rfl | rfl
    · exact h0
    · exact h1
  · intro part hpart
    rcases List.mem_cons.1 hpart with rfl | hpart
    · exact h0
    rcases List.mem_pair.1 hpart with rfl | rfl
    · exact h1
    · exact h2
  · exact nomatch hthree

/-- **what `parts` accepts has the shape of its parts** -/
theorem parts_shape {text : Str} {wildcards : Bool} {p : Parts} (h : parts text wildcards = some p) :
    ∃ numbers rest, text = ['.'].intercalate numbers ++ rest ∧ Shape wildcards numbers rest p := by
  unfold parts at h
  set numbers := (text.takeWhile fun c => !qualifierMark c).splitOn '.' with hnumbers
  set rest := text.dropWhile fun c => !qualifierMark c with hrest
  have hne : numbers ≠ [] := List.splitOn_ne_nil _ _
  obtain ⟨prerelease, build, hqualifiers⟩ : ∃ prerelease build, qualifiers rest = (prerelease, build) :=
    ⟨_, _, rfl⟩
  simp only [hqualifiers] at h
  split_ifs at h with h1 h2 h3
  obtain rfl := Option.some.inj h
  simp only [Bool.or_eq_true, not_or, Bool.not_eq_true, Option.isSome_eq_false_iff,
    Option.isNone_iff_eq_none] at h1 h3
  obtain ⟨⟨⟨hthree, h0⟩, hminor⟩, hpatch⟩ := h1
  refine ⟨numbers, rest, ?_, hne, hthree, ?_, rfl, rfl, rfl, hqualifiers.symm, ?_, ?_, h3.1, h3.2⟩
  · rw [hnumbers, List.intercalate_splitOn, hrest, List.takeWhile_append_dropWhile]
  · by_cases hnil : rest = []
    · exact Or.inl hnil
    · obtain ⟨c, qualifier, hc⟩ := List.exists_cons_of_ne_nil hnil
      refine Or.inr ⟨c, qualifier, hc, ?_⟩
      have hhead := List.head_dropWhile_not (fun c => !qualifierMark c) (l := text) (hrest ▸ hnil)
      simp only [← hrest, hc, List.head_cons, Bool.not_eq_false'] at hhead
      exact hhead
  · exact three_parts (fun part => badNumber wildcards part = false) hne hthree h0 hminor hpatch
  · intro hnil
    simpa [List.isEmpty_iff, hnil] using h2

theorem qualifierMark_number {wildcards : Bool} {numbers : List Str}
    (h : ∀ part ∈ numbers, badNumber wildcards (some part) = false) :
    ∀ c ∈ ['.'].intercalate numbers, (!qualifierMark c) = true := by
  intro c hc
  rcases mem_intercalate hc with rfl | ⟨part, hpart, hc⟩
  · rfl
  · have hnumber := numberChar_of_mem (h part hpart) hc
    have h1 := ne_of_char hnumber '-' rfl
    have h2 := ne_of_char hnumber '+' rfl
    simp [qualifierMark, h1, h2]

theorem takeWhile_behind {front rest : Str} (h : ∀ c ∈ front, (!qualifierMark c) = true)
    (hrest : Behind rest) : (front ++ rest).takeWhile (fun c => !qualifierMark c) = front := by
  rcases hrest with rfl | ⟨c, qualifier, rfl, hc⟩
  · rw [List.append_nil]
    exact List.takeWhile_eq_self_iff.2 h
  · rw [List.takeWhile_append_of_pos h, List.takeWhile_cons_of_neg (by simp [hc]), List.append_nil]

theorem dropWhile_behind {front rest : Str} (h : ∀ c ∈ front, (!qualifierMark c) = true)
    (hrest : Behind rest) : (front ++ rest).dropWhile (fun c => !qualifierMark c) = rest := by
  rw [List.dropWhile_append_of_pos h]
  rcases hrest with rfl | ⟨c, qualifier, rfl, hc⟩
  · rfl
  · rw [List.dropWhile_cons_of_neg (by simp [hc])]

/-- **a text of this shape has these parts** -/
theorem Shape.parts_eq {wildcards : Bool} {numbers : List Str} {rest : Str} {p : Parts}
    (h : Shape wildcards numbers rest p) :
    parts (['.'].intercalate numbers ++ rest) wildcards = some p := by
  have hfront := qualifierMark_number h.numbers_ok
  have hsplit : (['.'].intercalate numbers).splitOn '.' = numbers := by
    refine List.splitOn_intercalate '.' (fun part hpart hc => ?_) h.some_number
    exact ne_of_char (numberChar_of_mem (h.numbers_ok part hpart) hc) _ rfl rfl
  have h0 : badNumber wildcards (some (numbers.headD [])) = false := by
    obtain ⟨a, numbers, rfl⟩ := List.exists_cons_of_ne_nil h.some_number
    exact h.numbers_ok a List.mem_cons_self
  have hat : ∀ i : Nat, badNumber wildcards numbers[i]? = false := by
    intro i
    cases hi : numbers[i]? with
    | none => rfl
    | some part => exact h.numbers_ok part (List.mem_of_getElem? hi)
  have hlast : (!rest.isEmpty && (numbers[2]?).isNone) = false := by
    cases hrest : rest with
    | nil => rfl
    | cons c qualifier =>
      have hsome := h.patch_first (by rw [hrest]; exact List.cons_ne_nil _ _)
      rw [h.patch] at hsome
      rw [Option.isNone_eq_false_iff.2 hsome, Bool.and_false]
  unfold parts
  rw [takeWhile_behind hfront h.behind, dropWhile_behind hfront h.behind, hsplit]
  simp only [← h.qualifiers, h.three_numbers, h0, hat, hlast, h.prerelease_ok, h.build_ok,
    Option.isSome_none, Bool.or_self, Bool.false_eq_true, if_false]
  rw [← h.major, ← h.minor, ← h.patch]

/-- a version text is an operand with the same parts -/
theorem parts_wildcards {text : Str} {p : Parts} (h : parts text false = some p) :
    parts text true = some p := by
  obtain ⟨numbers, rest, rfl, hshape⟩ := parts_shape h
  refine Shape.parts_eq { hshape with numbers_ok := ?_ }
  intro part hpart
  exact badNumber_of_numeral true (numeral_of_badNumber (hshape.numbers_ok part hpart))

/-! ## the version of the parts -/

/-- a number that may be missing -/
def NumberOf (part : Option Str) (n : UInt32) : Prop := part.elim (n = 0) fun text => parseU32 text = some n

structure Reads (p : Parts) (v : Version) : Prop where
  major : parseU32 p.major = some v.major
  minor : NumberOf p.minor v.minor
  patch : NumberOf p.patch v.patch
  prerelease : identifiers prereleasePart p.prerelease = some v.prerelease
  build : identifiers buildPart p.build = some v.build

theorem parseComponents_some {text : Str} {n : UInt32} (h : parseU32 text = some n)
    (version : Version) (index : Nat) (sources : List (Option Str)) :
    parseComponents version index (some text :: sources) =
      parseComponents (version.setComponent index n) (index + 1) sources := by
  rw [parseComponents, uintComponent, h]

theorem parseComponents_inv {version version' : Version} {index : Nat} {source : Option Str}
    {sources : List (Option Str)} (h : parseComponents version index (source :: sources) = (version', none)) :
    (source = none ∧ parseComponents version (index + 1) sources = (version', none)) ∨
    ∃ text n, source = some text ∧ parseU32 text = some n ∧
      parseComponents (version.setComponent index n) (index + 1) sources = (version', none) := by
  cases source with
  | none => exact Or.inl ⟨rfl, h⟩
  | some text =>
    cases htext : parseU32 text with
    | none =>
      rw [parseComponents, uintComponent, htext] at h
      exact nomatch h
    | some n => exact Or.inr ⟨text, n, rfl, htext, parseComponents_some htext version index sources ▸ h⟩

/-- the numbers of the version, whatever is missing -/
theorem parseComponents_reads {p : Parts} {version : Version}
    (h : parseComponents {} 0 [some p.major, p.minor, p.patch] = (version, none)) :
    parseU32 p.major = some version.major ∧ NumberOf p.minor version.minor ∧
      NumberOf p.patch version.patch ∧ version.prerelease = [] ∧ version.build = [] := by
  obtain ⟨hnone, -⟩ | ⟨_, major, hsource, hmajor, h⟩ := parseComponents_inv h
  · exact nomatch hnone
  rw [← Option.some.inj hsource] at hmajor
  obtain ⟨hminor, h⟩ | ⟨_, minor, hminor, hminor', h⟩ := parseComponents_inv h
  · obtain ⟨hpatch, h⟩ | ⟨_, patch, hpatch, hpatch', h⟩ := parseComponents_inv h
    · obtain rfl := (Prod.mk.inj h).1
      rw [hminor, hpatch]
      exact ⟨hmajor, rfl, rfl, rfl, rfl⟩
    · obtain rfl := (Prod.mk.inj h).1
      rw [hminor, hpatch]
      exact ⟨hmajor, rfl, hpatch', rfl, rfl⟩
  · obtain ⟨hpatch, h⟩ | ⟨_, patch, hpatch, hpatch', h⟩ := parseComponents_inv h
    · obtain rfl := (Prod.mk.inj h).1
      rw [hminor, hpatch]
      exact ⟨hmajor, hminor', rfl, rfl, rfl⟩
    · obtain rfl := (Prod.mk.inj h).1
      rw [hminor, hpatch]
      exact ⟨hmajor, hminor', hpatch', rfl, rfl⟩

/-- **what a parsed text is made of** -/
theorem parse_reads {text : Bytes} {v : Version} (h : Version.parse text = .ok v) :
    ∃ t p, text = asBytes t ∧ parts t false = some p ∧ Reads p v := by
  unfold Version.parse at h
  obtain ⟨version, error, htry⟩ : ∃ version error, tryParseVersion text = (version, error) := ⟨_, _, rfl⟩
  rw [htry] at h
  cases error with
  | some error => exact nomatch h
  | none =>
    obtain rfl := Except.ok.inj h
    unfold tryParseVersion at htry
    cases hparts : (fromUtf8 text).bind fun text => parts text false with
    | none => rw [hparts] at htry; exact nomatch htry
    | some p =>
      rw [hparts] at htry
      obtain ⟨t, ht, hp⟩ := Option.bind_eq_some_iff.1 hparts
      obtain ⟨numbers, failed, hnumbers⟩ : ∃ numbers failed,
        parseComponents {} 0 [some p.major, p.minor, p.patch] = (numbers, failed) := ⟨_, _, rfl⟩
      simp only [hnumbers] at htry
      cases failed with
      | some error => exact nomatch htry
      | none =>
        cases hpre : identifiers prereleasePart p.prerelease with
        | none => rw [hpre] at htry; exact nomatch htry
        | some prerelease =>
          cases hbuild : identifiers buildPart p.build with
          | none => rw [hpre, hbuild] at htry; exact nomatch htry
          | some build =>
            rw [hpre, hbuild] at htry
            obtain rfl := (Prod.mk.inj htry).1
            obtain ⟨h0, h1, h2, -, -⟩ := parseComponents_reads hnumbers
            exact ⟨t, p, fromUtf8_eq_some ht, hp, h0, h1, h2, hpre, hbuild⟩

/-! ## the round trip -/

/-- the versions that have a text -/
structure WellFormed (v : Version) : Prop where
  prerelease : ∀ part ∈ v.prerelease, prereleasePart part = true
  build : ∀ part ∈ v.build, buildPart part = true

theorem identifiers_all {allowed : Str → Bool} {text : Option Str} {l : List Str}
    (h : identifiers allowed text = some l) : ∀ part ∈ l, allowed part = true := by
  cases text with
  | none =>
    obtain rfl := Option.some.inj h
    exact fun part hpart => absurd hpart List.not_mem_nil
  | some text =>
    rw [identifiers] at h
    by_cases hall : (text.splitOn '.').all allowed = true
    · obtain rfl := Option.some.inj ((if_pos hall).symm.trans h)
      exact List.all_eq_true.1 hall
    · exact nomatch (if_neg hall).symm.trans h

theorem Reads.wellFormed {p : Parts} {v : Version} (h : Reads p v) : WellFormed v :=
  ⟨identifiers_all h.prerelease, identifiers_all h.build⟩

theorem prereleasePart_chars {part : Str} (h : prereleasePart part = true) :
    part ≠ [] ∧ ∀ c ∈ part, identifierChar c = true := by
  rcases Bool.or_eq_true_iff.1 h with h | h
  · have hnumeral := numeric_iff.1 h
    exact ⟨hnumeral.nonempty, fun c hc => identifierChar_of_digit (hnumeral.digit c hc)⟩
  · obtain ⟨hhead, hall⟩ := Bool.and_eq_true_iff.1 h
    refine ⟨?_, List.all_eq_true.1 hall⟩
    rintro rfl
    exact nomatch hhead

theorem buildPart_chars {part : Str} (h : buildPart part = true) :
    part ≠ [] ∧ ∀ c ∈ part, identifierChar c = true := by
  obtain ⟨hne, hall⟩ := Bool.and_eq_true_iff.1 h
  refine ⟨?_, List.all_eq_true.1 hall⟩
  rintro rfl
  exact nomatch hne

/-- the text of an identifier list -/
def joined (l : List Str) : Option Str := if l.isEmpty then none else some (['.'].intercalate l)

section
variable {l : List Str} {allowed : Str → Bool}
  (hchars : ∀ part, allowed part = true → part ≠ [] ∧ ∀ c ∈ part, identifierChar c = true)
  (hl : ∀ part ∈ l, allowed part = true)
include hchars hl

theorem joined_chars {c : Char} (hc : c ∈ ['.'].intercalate l) : qualifierChar c = true := by
  rcases mem_intercalate hc with rfl | ⟨part, hpart, hc⟩
  · rfl
  · exact qualifierChar_of (Or.inl ((hchars part (hl part hpart)).2 c hc))

theorem joined_ok : badQualifier (joined l) = false := by
  unfold joined
  cases hcases : l with
  | nil => rfl
  | cons part rest =>
    obtain ⟨c, more, hpart⟩ := List.exists_cons_of_ne_nil (hchars part (hl part (hcases ▸ List.mem_cons_self))).1
    have hmem : c ∈ ['.'].intercalate (part :: rest) :=
      mem_intercalate_of_mem List.mem_cons_self (hpart ▸ List.mem_cons_self)
    have hne : (['.'].intercalate (part :: rest)).isEmpty = false :=
      List.isEmpty_eq_false_iff.2 (List.ne_nil_of_mem hmem)
    have hall : (['.'].intercalate (part :: rest)).all qualifierChar = true :=
      List.all_eq_true.2 fun c hc => joined_chars hchars hl (hcases ▸ hc)
    show ((['.'].intercalate (part :: rest)).isEmpty ||
      !(['.'].intercalate (part :: rest)).all qualifierChar) = false
    rw [hne, hall]
    rfl

theorem identifiers_joined : identifiers allowed (joined l) = some l := by
  unfold joined
  by_cases hnil : l = []
  · rw [hnil]
    rfl
  · have hsplit : (['.'].intercalate l).splitOn '.' = l := by
      refine List.splitOn_intercalate '.' (fun part hpart hc => ?_) hnil
      exact ne_of_char ((hchars part (hl part hpart)).2 '.' hc) _ rfl rfl
    rw [if_neg (by rw [List.isEmpty_iff]; exact hnil), identifiers, hsplit,
      if_pos (List.all_eq_true.2 hl)]

end

theorem splitOnce_none {text : Str} (h : '+' ∉ text) : splitOnce '+' text = none := by
  have hdrop : text.dropWhile (· != '+') = [] :=
    List.dropWhile_eq_nil_iff.2 fun c hc => bne_iff_ne.2 fun e => h (e ▸ hc)
  rw [splitOnce, hdrop]

theorem splitOnce_append {before : Str} (h : '+' ∉ before) (after : Str) :
    splitOnce '+' (before ++ '+' :: after) = some (before, after) := by
  have hne : ∀ c ∈ before, (c != '+') = true := fun c hc => bne_iff_ne.2 fun e => h (e ▸ hc)
  rw [splitOnce, List.dropWhile_append_of_pos hne, List.takeWhile_append_of_pos hne,
    List.dropWhile_cons_of_neg (by decide), List.takeWhile_cons_of_neg (by decide), List.append_nil]

/-- the two qualifiers as they are written -/
theorem qualifiers_display {v : Version} (h : WellFormed v) :
    qualifiers (Version.displayQualifier '-' v.prerelease ++ Version.displayQualifier '+' v.build) =
      (joined v.prerelease, joined v.build) := by
  have hplus : '+' ∉ ['.'].intercalate v.prerelease := fun hmem =>
    ne_of_char (joined_chars (fun _ => prereleasePart_chars) h.prerelease hmem) _ rfl rfl
  unfold Version.displayQualifier joined
  cases hpre : v.prerelease with
  | nil =>
    cases hbuild : v.build with
    | nil => rfl
    | cons b build => rfl
  | cons a prerelease =>
    rw [hpre] at hplus
    cases hbuild : v.build with
    | nil =>
      show qualifiers ('-' :: (['.'].intercalate (a :: prerelease) ++ [])) = _
      rw [List.append_nil, qualifiers, splitOnce_none hplus]
      rfl
    | cons b build =>
      show qualifiers ('-' :: (['.'].intercalate (a :: prerelease) ++ '+' :: _)) = _
      rw [qualifiers, splitOnce_append hplus]
      rfl

theorem behind_display (v : Version) :
    Behind (Version.displayQualifier '-' v.prerelease ++ Version.displayQualifier '+' v.build) := by
  unfold Version.displayQualifier
  cases v.prerelease with
  | nil =>
    cases v.build with
    | nil => exact Or.inl rfl
    | cons b build => exact Or.inr ⟨_, _, rfl, rfl⟩
  | cons a prerelease => exact Or.inr ⟨_, _, rfl, rfl⟩

/-- the parts of a version's text -/
def displayParts (v : Version) : Parts where
  major := decimal v.major
  minor := some (decimal v.minor)
  patch := some (decimal v.patch)
  prerelease := joined v.prerelease
  build := joined v.build

theorem numeral_decimal (n : UInt32) : Numeral (decimal n) := Lib.Decimal.numeral_toDigits n.toNat

theorem parseU32_decimal (n : UInt32) : parseU32 (decimal n) = some n := by
  have hvalue : value (decimal n) = n.toNat := Nat.ofDigitChars_ten_toDigits
  rw [parseU32_numeral (numeral_decimal n), hvalue, if_pos n.toNat_lt, UInt32.ofNat_toNat]

theorem display_eq (v : Version) :
    v.display = ['.'].intercalate [decimal v.major, decimal v.minor, decimal v.patch] ++
      (Version.displayQualifier '-' v.prerelease ++ Version.displayQualifier '+' v.build) := by
  rw [List.intercalate_cons_of_ne_nil (List.cons_ne_nil _ _),
    List.intercalate_cons_of_ne_nil (List.cons_ne_nil _ _), List.intercalate_singleton]
  simp only [Version.display, List.append_assoc, List.cons_append, List.nil_append]

theorem display_shape {v : Version} (h : WellFormed v) :
    Shape false [decimal v.major, decimal v.minor, decimal v.patch]
      (Version.displayQualifier '-' v.prerelease ++ Version.displayQualifier '+' v.build)
      (displayParts v) where
  some_number := List.cons_ne_nil _ _
  three_numbers := rfl
  behind := behind_display v
  major := rfl
  minor := rfl
  patch := rfl
  qualifiers := (qualifiers_display h).symm
  numbers_ok := by
    intro part hpart
    refine badNumber_of_numeral false ?_
    simp only [List.mem_cons, List.not_mem_nil, or_false] at hpart
    rcases hpart with rfl | rfl | rfl <;> exact numeral_decimal _
  patch_first := fun _ => rfl
  prerelease_ok := joined_ok (fun _ => prereleasePart_chars) h.prerelease
  build_ok := joined_ok (fun _ => buildPart_chars) h.build

/-- **the text of a version is read back as the version** -/
theorem parse_display {v : Version} (h : WellFormed v) :
    Version.parse (asBytes v.display) = .ok v := by
  have hparts : (fromUtf8 (asBytes v.display)).bind (fun text => parts text false) =
      some (displayParts v) := by
    rw [fromUtf8_asBytes, Option.bind_some, display_eq]
    exact (display_shape h).parts_eq
  have hnumbers : parseComponents {} 0 [some (decimal v.major), some (decimal v.minor),
      some (decimal v.patch)] = ({ v with prerelease := [], build := [] }, none) := by
    rw [parseComponents_some (parseU32_decimal _), parseComponents_some (parseU32_decimal _),
      parseComponents_some (parseU32_decimal _)]
    rfl
  have hpre : identifiers prereleasePart (joined v.prerelease) = some v.prerelease :=
    identifiers_joined (fun _ => prereleasePart_chars) h.prerelease
  have hbuild : identifiers buildPart (joined v.build) = some v.build :=
    identifiers_joined (fun _ => buildPart_chars) h.build
  have htry : tryParseVersion (asBytes v.display) = (v, none) := by
    unfold tryParseVersion
    simp only [hparts, displayParts, hnumbers, hpre, hbuild]
  rw [Version.parse, htry]

/-- **versions are ordered by their precedence, totally up to the build metadata, and what is parsed
can be written and parsed again** -/
theorem compare_precedence_and_display :
    (∀ l r : Version, Version.compare (some l) (some r) = precedence l r) ∧
    Std.TransCmp Version.compare ∧
    (∀ l r : Version, Version.compare (some l) (some r) = .eq ↔ l.withoutBuild = r.withoutBuild) ∧
    ∀ text v, Version.parse text = .ok v → Version.parse (asBytes v.display) = .ok v := by
  refine ⟨compare_some, compare_trans, fun l r => ?_, fun text v h => ?_⟩
  · rw [compare_some, precedence_eq_eq_iff]
  · obtain ⟨t, p, -, -, hreads⟩ := parse_reads h
    exact parse_display hreads.wellFormed

/-- a version with all parts -/
def betaVersion : Version :=
  { major := 1, minor := 20, patch := 0, prerelease := [['b', 'e', 't', 'a'], ['1', '0']],
    build := [['0', '0', '7']] }

theorem compare_precedence_and_display_beta :
    Version.parse (asBytes betaVersion.display) = .ok betaVersion :=
  compare_precedence_and_display.2.2.2 (asBytes betaVersion.display) betaVersion (by decide +kernel)

end Tsr.Semver
