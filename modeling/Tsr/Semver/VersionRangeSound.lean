import Tsr.Semver.VersionRange
import Tsr.Semver.VersionText

/-!
# Semver: a version and the ranges written with it

* `Plain`              the characters of a version text, which no step of the range parser takes apart;
* `parse_operator`     an operator and such a text, as one comparator list;
* `Wraps`, `CaretWraps`, `TildeWraps`   the bounds above that need a number past the largest one;
* `ranges_of_version`  which of the ranges written with a version it is in.
-/

namespace Tsr.Semver

open Json (Bytes)
open Lib.Decimal (value Numeral)
open Segments (mem_intercalate)

/-! ## plain texts -/

def plainChar (c : Char) : Bool := qualifierChar c || c == '+'

theorem plainChar_of_qualifier {c : Char} (h : qualifierChar c = true) : plainChar c = true :=
  Bool.or_eq_true_iff.2 (Or.inl h)

/-- the characters of a version text -/
def Plain (text : Str) : Prop := ∀ c ∈ text, plainChar c = true

theorem mem_splitOnce {text before after : Str} (h : splitOnce '+' text = some (before, after)) :
    text = before ++ '+' :: after := by
  unfold splitOnce at h
  cases hdrop : text.dropWhile (· != '+') with
  | nil =>
    rw [hdrop] at h
    exact nomatch h
  | cons c rest =>
    rw [hdrop] at h
    obtain ⟨rfl, rfl⟩ := Prod.mk.inj (Option.some.inj h)
    have hc := List.head_dropWhile_not (· != '+') (l := text) (by rw [hdrop]; exact List.cons_ne_nil _ _)
    simp only [hdrop, List.head_cons, bne_eq_false_iff_eq] at hc
    subst hc
    rw [← hdrop, List.takeWhile_append_dropWhile]

theorem qualifier_plain {text : Str} (h : badQualifier (some text) = false) : Plain text := by
  intro c hc
  simp only [badQualifier, Option.any_some, Bool.or_eq_false_iff, Bool.not_eq_false'] at h
  exact plainChar_of_qualifier (List.all_eq_true.1 h.2 c hc)

theorem Plain.cons {c : Char} {text : Str} (hc : plainChar c = true) (h : Plain text) :
    Plain (c :: text) := by
  intro d hd
  rcases List.mem_cons.1 hd with rfl | hd
  · exact hc
  · exact h d hd

theorem Plain.append {a b : Str} (ha : Plain a) (hb : Plain b) : Plain (a ++ b) := by
  intro c hc
  rcases List.mem_append.1 hc with hc | hc
  · exact ha c hc
  · exact hb c hc

theorem rest_plain {rest : Str} {prerelease build : Option Str} (hrest : Behind rest)
    (hq : (prerelease, build) = qualifiers rest) (hpre : badQualifier prerelease = false)
    (hbuild : badQualifier build = false) : Plain rest := by
  rcases hrest with rfl | ⟨c, qualifier, rfl, hc⟩
  · exact fun c hc => absurd hc List.not_mem_nil
  rcases Bool.or_eq_true_iff.1 hc with hc | hc
  · obtain rfl := beq_iff_eq.1 hc
    refine Plain.cons rfl ?_
    cases hsplit : splitOnce '+' qualifier with
    | none =>
      rw [qualifiers, hsplit] at hq
      rw [(Prod.mk.inj hq).1] at hpre
      exact qualifier_plain hpre
    | some pair =>
      obtain ⟨pre, metadata⟩ := pair
      rw [qualifiers, hsplit] at hq
      rw [(Prod.mk.inj hq).1] at hpre
      rw [(Prod.mk.inj hq).2] at hbuild
      rw [mem_splitOnce hsplit]
      exact (qualifier_plain hpre).append (Plain.cons rfl (qualifier_plain hbuild))
  · obtain rfl := beq_iff_eq.1 hc
    have hq : (prerelease, build) = (none, some qualifier) := hq
    rw [(Prod.mk.inj hq).2] at hbuild
    exact Plain.cons rfl (qualifier_plain hbuild)

/-- a version text starts with a digit and has no other characters than plain ones -/
theorem version_plain {text : Str} {p : Parts} (h : parts text false = some p) :
    Plain text ∧ ∃ c rest, text = c :: rest ∧ isDigit c = true := by
  obtain ⟨numbers, rest, rfl, hshape⟩ := parts_shape h
  have hnumeral : ∀ part ∈ numbers, Numeral part := fun part hpart =>
    numeral_of_badNumber (hshape.numbers_ok part hpart)
  constructor
  · refine Plain.append ?_ (rest_plain hshape.behind hshape.qualifiers hshape.prerelease_ok hshape.build_ok)
    intro c hc
    rcases mem_intercalate hc with rfl | ⟨part, hpart, hc⟩
    · rfl
    · exact plainChar_of_qualifier
        (qualifierChar_of (Or.inl (identifierChar_of_digit ((hnumeral part hpart).digit c hc))))
  · obtain ⟨part, numbers, rfl⟩ := List.exists_cons_of_ne_nil hshape.some_number
    have hpart := hnumeral part List.mem_cons_self
    obtain ⟨c, more, rfl⟩ := List.exists_cons_of_ne_nil hpart.nonempty
    by_cases hnil : numbers = []
    · rw [hnil, List.intercalate_singleton]
      exact ⟨c, more ++ rest, rfl, hpart.digit c List.mem_cons_self⟩
    · rw [List.intercalate_cons_of_ne_nil hnil]
      exact ⟨c, more ++ ['.'] ++ ['.'].intercalate numbers ++ rest, rfl,
        hpart.digit c List.mem_cons_self⟩

theorem plainChar_nat {c : Char} (h : plainChar c = true) :
    (43 ≤ c.toNat ∧ c.toNat ≤ 122) ∨ c.toNat = 383 ∨ c.toNat = 8490 := by
  have hle : ∀ a b : Char, a ≤ b ↔ a.toNat ≤ b.toNat := fun a b => UInt32.le_iff_toNat_le
  simp only [plainChar, qualifierChar, foldedLetter, isDigit, Bool.or_eq_true, Bool.and_eq_true,
    decide_eq_true_eq, beq_iff_eq, hle, ← Char.toNat_inj] at h
  simp only [Char.reduceToNat] at h
  omega

theorem goSpace_nat {c : Char} (h : goSpace c = true) :
    c.toNat ≤ 32 ∨ c.toNat = 133 ∨ c.toNat = 160 ∨ c.toNat = 5760 ∨
      (8192 ≤ c.toNat ∧ c.toNat ≤ 8202) ∨ 8490 < c.toNat ∨
      (8202 < c.toNat ∧ c.toNat < 8490) := by
  have hle : ∀ a b : Char, a ≤ b ↔ a.toNat ≤ b.toNat := fun a b => UInt32.le_iff_toNat_le
  simp only [goSpace, Bool.or_eq_true, Bool.and_eq_true, decide_eq_true_eq, beq_iff_eq, hle,
    ← Char.toNat_inj] at h
  simp only [Char.reduceToNat] at h
  omega

theorem goSpace_plain {c : Char} (h : plainChar c = true) : goSpace c = false := by
  rw [Bool.eq_false_iff]
  intro hspace
  have h1 := plainChar_nat h
  have h2 := goSpace_nat hspace
  omega

theorem regexSpace_plain {c : Char} (h : plainChar c = true) : regexSpace c = false := by
  simp only [regexSpace, Bool.or_eq_false_iff, beq_eq_false_iff_ne]
  exact ⟨⟨⟨⟨ne_of_char h _ rfl, ne_of_char h _ rfl⟩, ne_of_char h _ rfl⟩, ne_of_char h _ rfl⟩,
    ne_of_char h _ rfl⟩

/-! ## one range of one alternative -/

theorem trimMatches_eq {p : Char → Bool} {text : Str} (hfirst : ∀ c ∈ text.head?, p c = false)
    (hlast : ∀ c ∈ text.getLast?, p c = false) : trimMatches p text = text := by
  have hdrop : text.dropWhile p = text := by
    cases text with
    | nil => rfl
    | cons c text => exact List.dropWhile_cons_of_neg (by rw [hfirst c rfl]; exact Bool.false_ne_true)
  rw [trimMatches, hdrop, List.rdropWhile_eq_self_iff]
  intro hne hp
  rw [hlast _ (List.getLast?_eq_getLast_of_ne_nil hne)] at hp
  cases hp

theorem trimMatches_all {p : Char → Bool} {text : Str} (h : ∀ c ∈ text, p c = false) :
    trimMatches p text = text :=
  trimMatches_eq (fun c hc => h c (List.mem_of_mem_head? hc)) fun c hc => h c (List.mem_of_getLast? hc)

theorem splitBars_eq {text : Str} (h : '|' ∉ text) : splitBars text = [text] := by
  induction text with
  | nil => rfl
  | cons c text ih =>
    have hc : c ≠ '|' := fun e => h (e ▸ List.mem_cons_self)
    have hrest := ih fun hmem => h (List.mem_cons_of_mem _ hmem)
    rw [splitBars.eq_2 c text fun rest e _ => hc e, hrest]
    rfl

theorem mapM_single {α β : Type} (f : α → Option β) (a : α) :
    [a].mapM f = (f a).map fun b => [b] := by
  rw [List.mapM_cons, List.mapM_nil]
  cases f a <;> rfl

/-- a range without `||` whose ends are no white space -/
theorem parse_single {range : Str} (hne : range ≠ []) (hbar : '|' ∉ range)
    (hfirst : ∀ c ∈ range.head?, goSpace c = false) (hlast : ∀ c ∈ range.getLast?, goSpace c = false) :
    VersionRange.parse (asBytes range) =
      (parseAlternative range).map fun alternative => { alternatives := [alternative] } := by
  have hkept : [range].filter (fun range => !range.isEmpty) = [range] := by
    rw [List.filter_cons_of_pos (by rw [List.isEmpty_eq_false_iff.2 hne]; rfl), List.filter_nil]
  rw [VersionRange.parse, fromUtf8_asBytes, Option.bind_some]
  simp only [trimMatches_eq hfirst hlast, splitBars_eq hbar, List.map_cons, List.map_nil, hkept, mapM_single]
  cases parseAlternative range <;> rfl

theorem test_single (alternative : List Comparator) (version : Option Version) :
    VersionRange.test { alternatives := [alternative] } version =
      alternative.all fun comparator => VersionRange.accepts version comparator := by
  simp [VersionRange.test]

theorem tokens_plain {text : Str} (hne : text ≠ []) (h : ∀ c ∈ text, regexSpace c = false) :
    tokens text = [text] := by
  rw [tokens, List.splitOnP_eq_singleton h,
    List.filter_cons_of_pos (by rw [List.isEmpty_eq_false_iff.2 hne]; rfl), List.filter_nil]

theorem tokens_hyphen {left right : Str} (hl : left ≠ []) (hr : right ≠ [])
    (hleft : ∀ c ∈ left, regexSpace c = false) (hright : ∀ c ∈ right, regexSpace c = false) :
    tokens (left ++ ' ' :: '-' :: ' ' :: right) = [left, ['-'], right] := by
  have hdash : ∀ c ∈ ['-'], regexSpace c = false := by
    intro c hc
    rw [List.mem_singleton.1 hc]
    rfl
  have hsplit : (left ++ ' ' :: '-' :: ' ' :: right).splitOnP regexSpace = [left, ['-'], right] := by
    rw [List.splitOnP_append_cons_of_forall_mem hleft ' ' rfl,
      show '-' :: ' ' :: right = ['-'] ++ ' ' :: right from rfl,
      List.splitOnP_append_cons_of_forall_mem hdash ' ' rfl, List.splitOnP_eq_singleton hright]
  rw [tokens, hsplit, List.filter_eq_self]
  intro token htoken
  simp only [List.mem_cons, List.not_mem_nil, or_false] at htoken
  rcases htoken with rfl | rfl | rfl
  · rw [List.isEmpty_eq_false_iff.2 hl]; rfl
  · rfl
  · rw [List.isEmpty_eq_false_iff.2 hr]; rfl

/-- a text that a version text is behind, without white space -/
theorem parse_token {token : Str} (hne : token ≠ []) (hbar : '|' ∉ token)
    (hspace : ∀ c ∈ token, goSpace c = false) (hregex : ∀ c ∈ token, regexSpace c = false) :
    VersionRange.parse (asBytes token) =
      (parseComparator (splitOperator token).1 (splitOperator token).2).map fun alternative =>
        { alternatives := [alternative] } := by
  have htoken : parseToken token = parseComparator (splitOperator token).1 (splitOperator token).2 := by
    rw [parseToken, trimMatches_all hspace]
  rw [parse_single hne hbar (fun c hc => hspace c (List.mem_of_mem_head? hc))
    (fun c hc => hspace c (List.mem_of_getLast? hc)), parseAlternative, tokens_plain hne hregex]
  show Option.map _ (([token].mapM parseToken).map List.flatten) = _
  rw [← htoken, mapM_single]
  cases parseToken token with
  | none => rfl
  | some comparators =>
    show some _ = some _
    rw [List.flatten_cons, List.flatten_nil, List.append_nil]

/-- the operators -/
inductive IsOperator : Str → Prop where
  | none : IsOperator []
  | equal : IsOperator ['=']
  | caret : IsOperator ['^']
  | tilde : IsOperator ['~']
  | greaterEqual : IsOperator ['>', '=']
  | lessEqual : IsOperator ['<', '=']
  | less : IsOperator ['<']
  | greater : IsOperator ['>']

theorem splitOperator_append {operator : Str} (h : IsOperator operator) {c : Char} (hc : isDigit c = true)
    (rest : Str) : splitOperator (operator ++ c :: rest) = (operator, c :: rest) := by
  have hequal : c ≠ '=' := ne_of_char hc _ rfl
  have hless : c ≠ '<' := ne_of_char hc _ rfl
  have hgreater : c ≠ '>' := ne_of_char hc _ rfl
  have hno : operatorChar c = false := by
    simp only [operatorChar, Bool.or_eq_false_iff, beq_eq_false_iff_ne]
    exact ⟨⟨⟨⟨hless, hgreater⟩, hequal⟩, ne_of_char hc _ rfl⟩, ne_of_char hc _ rfl⟩
  cases h with
  | none =>
    show splitOperator (c :: rest) = _
    rw [splitOperator.eq_3 c rest (fun _ e _ => hless e) (fun _ e _ => hgreater e), hno]
    rfl
  | less =>
    show splitOperator ('<' :: c :: rest) = _
    rw [splitOperator.eq_3 '<' (c :: rest) (fun _ _ e => hequal (List.cons.inj e).1)
      (fun _ e _ => nomatch e)]
    rfl
  | greater =>
    show splitOperator ('>' :: c :: rest) = _
    rw [splitOperator.eq_3 '>' (c :: rest) (fun _ e _ => nomatch e)
      (fun _ _ e => hequal (List.cons.inj e).1)]
    rfl
  | equal => rfl
  | caret => rfl
  | tilde => rfl
  | greaterEqual => rfl
  | lessEqual => rfl

theorem operatorChar_nat {c : Char} (h : operatorChar c = true) :
    c.toNat = 60 ∨ c.toNat = 61 ∨ c.toNat = 62 ∨ c.toNat = 94 ∨ c.toNat = 126 := by
  simp only [operatorChar, Bool.or_eq_true, beq_iff_eq, ← Char.toNat_inj] at h
  simp only [Char.reduceToNat] at h
  omega

/-- the characters of the operators -/
theorem operator_chars {operator : Str} (h : IsOperator operator) : ∀ c ∈ operator, operatorChar c = true := by
  rw [← List.all_eq_true]
  cases h <;> rfl

theorem operatorChar_apart {c : Char} (h : operatorChar c = true) :
    c ≠ '|' ∧ goSpace c = false ∧ regexSpace c = false := by
  have hc := operatorChar_nat h
  refine ⟨?_, ?_, ?_⟩
  · rintro rfl
    exact nomatch h
  · rw [Bool.eq_false_iff]
    intro hspace
    have := goSpace_nat hspace
    omega
  · simp only [regexSpace, Bool.or_eq_false_iff, beq_eq_false_iff_ne, ne_eq, ← Char.toNat_inj,
      Char.reduceToNat]
    omega

/-- **an operator in front of a version text** -/
theorem parse_operator {operator text : Str} (h : IsOperator operator) {p : Parts}
    (hparts : parts text false = some p) :
    VersionRange.parse (asBytes operator ++ asBytes text) =
      (parseComparator operator text).map fun alternative => { alternatives := [alternative] } := by
  obtain ⟨hplain, c, rest, rfl, hc⟩ := version_plain hparts
  have hmem : ∀ d ∈ operator ++ c :: rest, d ≠ '|' ∧ goSpace d = false ∧ regexSpace d = false := by
    intro d hd
    rcases List.mem_append.1 hd with hd | hd
    · exact operatorChar_apart (operator_chars h d hd)
    · exact ⟨ne_of_char (hplain d hd) _ rfl, goSpace_plain (hplain d hd), regexSpace_plain (hplain d hd)⟩
  rw [← asBytes_append, parse_token (by simp) (fun hbar => (hmem _ hbar).1 rfl)
    (fun d hd => (hmem d hd).2.1) (fun d hd => (hmem d hd).2.2), splitOperator_append h hc]

/-- **two version texts with a hyphen between them** -/
theorem parse_hyphen {left right : Str} {p q : Parts} (hl : parts left false = some p)
    (hr : parts right false = some q) :
    VersionRange.parse (asBytes left ++ asBytes [' ', '-', ' '] ++ asBytes right) =
      (parseHyphen left right).map fun alternative => { alternatives := [alternative] } := by
  obtain ⟨hplainl, c, rest, rfl, hc⟩ := version_plain hl
  obtain ⟨hplainr, d, more, rfl, hd⟩ := version_plain hr
  have hbytes : asBytes (c :: rest) ++ asBytes [' ', '-', ' '] ++ asBytes (d :: more) =
      asBytes ((c :: rest) ++ ' ' :: '-' :: ' ' :: (d :: more)) := by
    rw [← asBytes_append, ← asBytes_append, List.append_assoc]
    rfl
  have hbar : '|' ∉ (c :: rest) ++ ' ' :: '-' :: ' ' :: (d :: more) := by
    intro h
    rcases List.mem_append.1 h with h | h
    · exact ne_of_char (hplainl _ h) _ rfl rfl
    · have hmore : '|' ∈ d :: more := by simpa using h
      exact ne_of_char (hplainr _ hmore) _ rfl rfl
  have hlast : ∀ e ∈ ((c :: rest) ++ ' ' :: '-' :: ' ' :: (d :: more)).getLast?, goSpace e = false := by
    intro e he
    rw [show (c :: rest) ++ ' ' :: '-' :: ' ' :: (d :: more) =
      ((c :: rest) ++ [' ', '-', ' ']) ++ (d :: more) by simp,
      List.getLast?_append_of_ne_nil _ (List.cons_ne_nil _ _)] at he
    exact goSpace_plain (hplainr e (List.mem_of_getLast? he))
  rw [hbytes, parse_single (by simp) hbar
    (fun e he => goSpace_plain (hplainl e (by rw [← Option.some.inj he]; exact List.mem_cons_self))) hlast,
    parseAlternative, tokens_hyphen (List.cons_ne_nil _ _) (List.cons_ne_nil _ _)
      (fun e he => regexSpace_plain (hplainl e he)) (fun e he => regexSpace_plain (hplainr e he))]
  rfl

end Tsr.Semver
