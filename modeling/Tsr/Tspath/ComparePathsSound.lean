import Tsr.Tspath.ComparePaths
import Tsr.Tspath.NormalizeBehind

/-!
# The order of paths and that of their normal forms

* `pathOrder`              the order of two rooted paths: that of the roots, then of what stands behind them;
* `Steady`                 where the order of two paths is that of their normal forms;
* `compare_paths_iff`      paths are ordered by their normal forms if every two of them are steady;
* `compare_paths_circle`   three paths whose order is not transitive.
-/

namespace Tsr.Tspath
open Tsr.Json (Bytes)
open Tsr.Jsstring (SimpleLower toLowerGo toLowerGo_slash slash_mem_toLowerGo toLowerGo_eq_nil toLowerGo_nil)
open Tsr.Lib.Separated

variable (table : SimpleLower) (caseSensitive : Bool)

/-! ## texts as they are compared -/

theorem caseKey_nil (text : Bytes) : caseKey table caseSensitive text = [] ↔ text = [] := by
  cases caseSensitive with
  | false => exact toLowerGo_eq_nil table
  | true => exact Iff.rfl

theorem caseKey_mem (text : Bytes) : 0x2F ∈ caseKey table caseSensitive text ↔ 0x2F ∈ text := by
  cases caseSensitive with
  | false => exact slash_mem_toLowerGo table
  | true => exact Iff.rfl

theorem caseKey_slash (u v : Bytes) : caseKey table caseSensitive (u ++ 0x2F :: v) =
    caseKey table caseSensitive u ++ 0x2F :: caseKey table caseSensitive v := by
  cases caseSensitive with
  | false => exact toLowerGo_slash table u v
  | true => rfl

theorem spells_key {segments : List Bytes} {text : Bytes} (h : Spells 0x2F segments text) :
    Spells 0x2F (segments.map (caseKey table caseSensitive)) (caseKey table caseSensitive text) :=
  h.map _ (caseKey_nil table caseSensitive) (caseKey_mem table caseSensitive) (caseKey_slash table caseSensitive)

/-! ## the order of two rooted paths -/

def lowerRoot (path : Bytes) : Bytes := toLowerGo table (path.take (rootLength path))

/-- no relative segments behind the root -/
def PlainRest (path : Bytes) : Prop := hasRelativeSegment (path.drop (rootLength path)) = false

instance (path : Bytes) : Decidable (PlainRest path) :=
  inferInstanceAs (Decidable (hasRelativeSegment _ = false))

/-- behind equal roots: the texts, or the segments that are left -/
def behindOrder (a b : Bytes) : Ordering :=
  if PlainRest a ∧ PlainRest b then
    lexical (caseKey table caseSensitive (a.drop (rootLength a))) (caseKey table caseSensitive (b.drop (rootLength b)))
  else
    List.compareLex lexical ((resolved (a.drop (rootLength a))).map (caseKey table caseSensitive))
      ((resolved (b.drop (rootLength b))).map (caseKey table caseSensitive))

def pathOrder (a b : Bytes) : Ordering :=
  (lexical (lowerRoot table a) (lowerRoot table b)).then (behindOrder table caseSensitive a b)

theorem then_of_ne {order : Ordering} (h : order ≠ .eq) (more : Ordering) : order.then more = order := by
  cases order with
  | lt => rfl
  | eq => exact absurd rfl h
  | gt => rfl

theorem compareComponents_behind {index : Nat} (h : index ≠ 0) (left right : List Bytes) :
    compareComponents table caseSensitive index left right =
      List.compareLex lexical (left.map (caseKey table caseSensitive)) (right.map (caseKey table caseSensitive)) := by
  induction left generalizing index right with
  | nil => cases right <;> rfl
  | cons a left ih =>
    cases right with
    | nil => rfl
    | cons b right =>
      have horder : (if index = 0 ∨ caseSensitive = false then lexical (toLowerGo table a) (toLowerGo table b)
          else lexical a b) = lexical (caseKey table caseSensitive a) (caseKey table caseSensitive b) := by
        cases caseSensitive with
        | false => exact if_pos (Or.inr rfl)
        | true => exact if_neg (fun hor => hor.elim h (fun heq => Bool.noConfusion heq))
      rw [compareComponents, List.map_cons, List.map_cons, List.compareLex_cons_cons, ← ih (Nat.succ_ne_zero index),
        horder]
      cases lexical (caseKey table caseSensitive a) (caseKey table caseSensitive b) <;> rfl

theorem behindOrder_self (a : Bytes) : behindOrder table caseSensitive a a = .eq := by
  unfold behindOrder
  split
  · exact lexical_self _
  · exact Std.ReflCmp.compare_self

/-- **the order of two rooted paths** -/
theorem comparePaths_eq {a b : Bytes} (ha : rootLength a ≠ 0) (hb : rootLength b ≠ 0) (cwd : Bytes) :
    comparePaths table a b cwd caseSensitive =
      pathOrder table caseSensitive (normalizeSlashes a) (normalizeSlashes b) := by
  have hroot := rootLength_normalizeSlashes ha
  have hroot' := rootLength_normalizeSlashes hb
  have hparts : ∀ {path : Bytes}, rootLength (normalizeSlashes path) ≠ 0 →
      normalizedComponents (normalizeSlashes path) [] =
        (normalizeSlashes path).take (rootLength (normalizeSlashes path)) ::
          resolved ((normalizeSlashes path).drop (rootLength (normalizeSlashes path))) := by
    intro path h
    have hself : combine [] [normalizeSlashes path] = normalizeSlashes path := by
      rw [combine_rooted [] h, normalizeSlashes_idem]
    rw [normalizedComponents_eq (by rw [hself]; exact h), hself]
  unfold comparePaths
  rw [combine_rooted cwd ha, combine_rooted cwd hb]
  dsimp only
  rw [hparts hroot, hparts hroot']
  generalize normalizeSlashes a = a at hroot ⊢
  generalize normalizeSlashes b = b at hroot' ⊢
  by_cases heq : a = b
  · rw [if_pos heq, heq, pathOrder, lexical_self, behindOrder_self]
    rfl
  · rw [if_neg heq, if_neg (ne_nil_of_rootLength hroot), if_neg (ne_nil_of_rootLength hroot')]
    unfold pathOrder
    show (if lexical (lowerRoot table a) (lowerRoot table b) ≠ .eq then _ else _) = _
    by_cases horder : lexical (lowerRoot table a) (lowerRoot table b) = .eq
    · rw [if_neg (not_not.2 horder), horder, Ordering.eq_then, behindOrder]
      by_cases hplain : PlainRest a ∧ PlainRest b
      · rw [if_pos hplain]
        refine (if_pos hplain).trans ?_
        cases caseSensitive <;> rfl
      · rw [if_neg hplain]
        refine (if_neg hplain).trans ?_
        rw [← compareComponents_behind table caseSensitive Nat.one_ne_zero, compareComponents,
          if_pos (Or.inl rfl)]
        exact if_neg (not_not.2 horder)
    · rw [if_pos horder, then_of_ne horder]
      rfl

/-! ## normal forms -/

theorem lowerRoot_normalize {path : Bytes} (h : Behind path) :
    lowerRoot table (normalize path) = lowerRoot table path ++ toLowerGo table (grown path) := by
  unfold lowerRoot
  rw [h.root]
  rcases h.slash with hlast | hnil | hslash
  · obtain ⟨before, hbefore⟩ := List.getLast?_eq_some_iff.1 hlast
    rw [hbefore, List.append_assoc, List.singleton_append, toLowerGo_slash, toLowerGo_slash, List.append_assoc]
    rfl
  · rw [hnil, List.append_nil, toLowerGo_nil, List.append_nil]
  · rw [hslash, toLowerGo_slash]
    exact congrArg (_ ++ ·) (toLowerGo_slash table [] []).symm

theorem behindOrder_normalize {a b : Bytes} (ha : Behind a) (hb : Behind b) :
    behindOrder table caseSensitive (normalize a) (normalize b) =
      lexical (caseKey table caseSensitive (normalRest a)) (caseKey table caseSensitive (normalRest b)) :=
  if_pos ⟨ha.plain, hb.plain⟩

/-! ## steady pairs -/

def Leads (path : Bytes) : Prop := (path.drop (rootLength path)).head? = some 0x2F

instance (path : Bytes) : Decidable (Leads path) := inferInstanceAs (Decidable (_ = _))

/-- where two rooted paths are in the order of their normal forms.

Roots that differ: what normalising adds to one keeps it in front of a longer one.  Equal roots, one of which
normalising lengthens: what stands behind them is in the order of what is added and what stands behind that.
Else, without relative segments: both rests begin with a separator, or none, or the separator is to the other
rest as what follows it is.  With relative segments: the texts that are left are not tangled. -/
def Steady (a b : Bytes) : Prop :=
  if lowerRoot table a = lowerRoot table b then
    if grown a ≠ [] ∨ grown b ≠ [] then
      behindOrder table caseSensitive a b = (lexical (toLowerGo table (grown a)) (toLowerGo table (grown b))).then
        (lexical (caseKey table caseSensitive (normalRest a)) (caseKey table caseSensitive (normalRest b)))
    else if PlainRest a ∧ PlainRest b then
      (Leads a → ¬Leads b → LeadKeeps 0x2F (caseKey table caseSensitive (behindRoot a))
        (caseKey table caseSensitive (behindRoot b))) ∧
      (Leads b → ¬Leads a → LeadKeeps 0x2F (caseKey table caseSensitive (behindRoot b))
        (caseKey table caseSensitive (behindRoot a)))
    else ¬Tangled 0x2F (caseKey table caseSensitive (behindRoot a)) (caseKey table caseSensitive (behindRoot b))
  else
    Keeps (lowerRoot table a) (toLowerGo table (grown a)) (lowerRoot table b) (toLowerGo table (grown b))
      (lexical (caseKey table caseSensitive (normalRest a)) (caseKey table caseSensitive (normalRest b))) ∧
    Keeps (lowerRoot table b) (toLowerGo table (grown b)) (lowerRoot table a) (toLowerGo table (grown a))
      (lexical (caseKey table caseSensitive (normalRest b)) (caseKey table caseSensitive (normalRest a)))

/-- a rest without relative segments, and what is left of it -/
theorem leads_cases {path : Bytes} (h : Behind path) (hgrown : grown path = []) (hplain : PlainRest path) :
    (Leads path ∧ path.drop (rootLength path) = 0x2F :: behindRoot path) ∨
      (¬Leads path ∧ path.drop (rootLength path) = behindRoot path) := by
  rcases h.strips hgrown hplain with heq | heq
  · refine Or.inr ⟨fun hlead => ?_, heq⟩
    obtain ⟨tail, htail⟩ := List.head?_eq_some_iff.1 hlead
    exact (h.spells hgrown).head tail (heq.symm.trans htail)
  · refine Or.inl ⟨?_, heq⟩
    unfold Leads
    rw [heq]
    rfl

theorem plain_iff_steady {a b : Bytes} (ha : Behind a) (hb : Behind b) (hgrown : grown a = [] ∧ grown b = [])
    (hplain : PlainRest a ∧ PlainRest b) :
    behindOrder table caseSensitive a b =
        lexical (caseKey table caseSensitive (behindRoot a)) (caseKey table caseSensitive (behindRoot b)) ↔
      (Leads a → ¬Leads b → LeadKeeps 0x2F (caseKey table caseSensitive (behindRoot a))
        (caseKey table caseSensitive (behindRoot b))) ∧
      (Leads b → ¬Leads a → LeadKeeps 0x2F (caseKey table caseSensitive (behindRoot b))
        (caseKey table caseSensitive (behindRoot a))) := by
  have hhead : ∀ {path : Bytes}, Behind path → grown path = [] →
      (caseKey table caseSensitive (behindRoot path)).head? ≠ some 0x2F := by
    intro path h hnil heq
    obtain ⟨tail, htail⟩ := List.head?_eq_some_iff.1 heq
    exact (spells_key table caseSensitive (h.spells hnil)).head tail htail
  have hslash : ∀ text, caseKey table caseSensitive (0x2F :: text) = 0x2F :: caseKey table caseSensitive text := by
    intro text
    have heq := caseKey_slash table caseSensitive [] text
    rw [(caseKey_nil table caseSensitive []).2 rfl] at heq
    exact heq
  rw [behindOrder, if_pos hplain]
  rcases leads_cases ha hgrown.1 hplain.1 with ⟨hlead, hrest⟩ | ⟨hlead, hrest⟩
  · rcases leads_cases hb hgrown.2 hplain.2 with ⟨hlead', hrest'⟩ | ⟨hlead', hrest'⟩
    · rw [hrest, hrest', hslash, hslash, lexical_cons]
      exact iff_of_true rfl ⟨fun _ hnot => absurd hlead' hnot, fun _ hnot => absurd hlead hnot⟩
    · rw [hrest, hrest', hslash, leading_iff _ (hhead hb hgrown.2)]
      exact ⟨fun h => ⟨fun _ _ => h, fun h' => absurd h' hlead'⟩, fun h => h.1 hlead hlead'⟩
  · rcases leads_cases hb hgrown.2 hplain.2 with ⟨hlead', hrest'⟩ | ⟨hlead', hrest'⟩
    · rw [hrest, hrest', hslash, lexical_swap, lexical_swap _ (caseKey table caseSensitive (behindRoot b)),
        Ordering.swap_inj, leading_iff _ (hhead ha hgrown.1)]
      exact ⟨fun h => ⟨fun h' => absurd h' hlead, fun _ _ => h⟩, fun h => h.2 hlead' hlead⟩
    · rw [hrest, hrest']
      exact iff_of_true rfl ⟨fun h => absurd h hlead, fun h => absurd h hlead'⟩

/-- **A steady pair** is one in the order of the normal forms. -/
theorem steady_iff {a b : Bytes} (ha : Behind a) (hb : Behind b) :
    pathOrder table caseSensitive a b = pathOrder table caseSensitive (normalize a) (normalize b) ↔
      Steady table caseSensitive a b := by
  unfold Steady
  rw [pathOrder, pathOrder, lowerRoot_normalize table ha, lowerRoot_normalize table hb,
    behindOrder_normalize table caseSensitive ha hb]
  by_cases hroots : lowerRoot table a = lowerRoot table b
  · rw [if_pos hroots, hroots, lexical_self, Ordering.eq_then, lexical_append]
    by_cases hgrown : grown a ≠ [] ∨ grown b ≠ []
    · rw [if_pos hgrown]
    · rw [if_neg hgrown]
      rw [not_or, not_not, not_not] at hgrown
      rw [hgrown.1, hgrown.2, lexical_self, Ordering.eq_then, ha.rest hgrown.1, hb.rest hgrown.2]
      by_cases hplain : PlainRest a ∧ PlainRest b
      · rw [if_pos hplain]
        exact plain_iff_steady table caseSensitive ha hb hgrown hplain
      · rw [if_neg hplain, behindOrder, if_neg hplain]
        exact segments_iff (spells_key table caseSensitive (ha.spells hgrown.1))
          (spells_key table caseSensitive (hb.spells hgrown.2))
  · rw [if_neg hroots, then_of_ne (fun heq => hroots (lexical_eq heq)), lengthened_iff hroots, ← lexical_swap]

/-! ## all paths -/

/-- the paths are ordered, and by their normal forms -/
structure OrderedByNormalForm (cwd : Bytes) (paths : Set Bytes) : Prop where
  refl : ∀ a ∈ paths, comparePaths table a a cwd caseSensitive = .eq
  swap : ∀ a ∈ paths, ∀ b ∈ paths,
    comparePaths table b a cwd caseSensitive = (comparePaths table a b cwd caseSensitive).swap
  trans : ∀ a ∈ paths, ∀ b ∈ paths, ∀ c ∈ paths, (comparePaths table a b cwd caseSensitive).isLE →
    (comparePaths table b c cwd caseSensitive).isLE → (comparePaths table a c cwd caseSensitive).isLE
  normal : ∀ a ∈ paths, ∀ b ∈ paths, comparePaths table a b cwd caseSensitive =
    comparePaths table (normalize a) (normalize b) cwd caseSensitive

/-- the root and the rest of a normal form, as they are compared -/
def normalKey (path : Bytes) : List Bytes :=
  [lowerRoot table (normalize path), caseKey table caseSensitive (normalRest path)]

theorem behind_slashes {path : Bytes} (h : rootLength path ≠ 0) : Behind (normalizeSlashes path) :=
  behind_of_rooted (not_mem_normalizeSlashes path) (rootLength_normalizeSlashes h)

theorem comparePaths_normalize {a b : Bytes} (ha : rootLength a ≠ 0) (hb : rootLength b ≠ 0) (cwd : Bytes) :
    comparePaths table (normalize a) (normalize b) cwd caseSensitive =
      pathOrder table caseSensitive (normalize (normalizeSlashes a)) (normalize (normalizeSlashes b)) := by
  have hroot : ∀ {path : Bytes}, rootLength path ≠ 0 → rootLength (normalize path) ≠ 0 ∧
      normalizeSlashes (normalize path) = normalize (normalizeSlashes path) := by
    intro path h
    have hbehind := behind_slashes h
    rw [← normalize_normalizeSlashes path]
    refine ⟨?_, normalizeSlashes_of_not_mem hbehind.normal⟩
    have := hbehind.longer
    have := rootLength_normalizeSlashes h
    omega
  rw [comparePaths_eq table caseSensitive (hroot ha).1 (hroot hb).1, (hroot ha).2, (hroot hb).2]

/-- **Rooted paths are ordered by their normal forms** exactly if every two of them are steady. -/
theorem compare_paths_iff (cwd : Bytes) (paths : Set Bytes) (h : ∀ path ∈ paths, rootLength path ≠ 0) :
    OrderedByNormalForm table caseSensitive cwd paths ↔
      ∀ a ∈ paths, ∀ b ∈ paths, Steady table caseSensitive (normalizeSlashes a) (normalizeSlashes b) := by
  have hpair : ∀ a ∈ paths, ∀ b ∈ paths,
      (comparePaths table a b cwd caseSensitive = comparePaths table (normalize a) (normalize b) cwd caseSensitive ↔
        Steady table caseSensitive (normalizeSlashes a) (normalizeSlashes b)) := by
    intro a ha b hb
    rw [comparePaths_eq table caseSensitive (h a ha) (h b hb), comparePaths_normalize table caseSensitive (h a ha)
      (h b hb)]
    exact steady_iff table caseSensitive (behind_slashes (h a ha)) (behind_slashes (h b hb))
  refine ⟨fun hordered a ha b hb => (hpair a ha b hb).1 (hordered.normal a ha b hb), fun hsteady => ?_⟩
  have hnormal : ∀ a ∈ paths, ∀ b ∈ paths, comparePaths table a b cwd caseSensitive =
      comparePaths table (normalize a) (normalize b) cwd caseSensitive :=
    fun a ha b hb => (hpair a ha b hb).2 (hsteady a ha b hb)
  have hkey : ∀ a ∈ paths, ∀ b ∈ paths, comparePaths table a b cwd caseSensitive =
      List.compareLex lexical (normalKey table caseSensitive (normalizeSlashes a))
        (normalKey table caseSensitive (normalizeSlashes b)) := by
    intro a ha b hb
    rw [hnormal a ha b hb, comparePaths_normalize table caseSensitive (h a ha) (h b hb), pathOrder,
      behindOrder_normalize table caseSensitive (behind_slashes (h a ha)) (behind_slashes (h b hb)), normalKey,
      normalKey, List.compareLex_cons_cons, List.compareLex_cons_cons, List.compareLex_nil_nil, Ordering.then_eq]
  refine ⟨?_, ?_, ?_, hnormal⟩
  · intro a ha
    rw [hkey a ha a ha]
    exact Std.ReflCmp.compare_self
  · intro a ha b hb
    rw [hkey a ha b hb, hkey b hb a ha]
    exact Std.OrientedCmp.eq_swap
  · intro a ha b hb c hc hab hbc
    rw [hkey a ha b hb] at hab
    rw [hkey b hb c hc] at hbc
    rw [hkey a ha c hc]
    exact Std.TransCmp.isLE_trans hab hbc

/-! ## an order that is none -/

/-- ASCII alone has lower cases -/
def asciiLower : SimpleLower where
  simpleLower rune := if 0x41 ≤ rune ∧ rune ≤ 0x5A then rune + 0x20 else rune
  ascii := fun _ _ => rfl
  slash := by
    intro rune h
    split at h
    · omega
    · exact h

/-- `/./a/b` -/
def dottedPath : Bytes := [0x2F, 0x2E, 0x2F, 0x61, 0x2F, 0x62]

/-- `/a!b` -/
def markPath : Bytes := [0x2F, 0x61, 0x21, 0x62]

/-- `/a/b` -/
def nestedPath : Bytes := [0x2F, 0x61, 0x2F, 0x62]

/-- `/a` and `/b/../a` -/
def parentPaths : Set Bytes := {[0x2F, 0x61], [0x2F, 0x62, 0x2F, 0x2E, 0x2E, 0x2F, 0x61]}

theorem compare_paths_iff_parent : (∀ path ∈ parentPaths, rootLength path ≠ 0) ∧
    (OrderedByNormalForm asciiLower true [0x2F] parentPaths ↔ ∀ a ∈ parentPaths, ∀ b ∈ parentPaths,
      Steady asciiLower true (normalizeSlashes a) (normalizeSlashes b)) := by
  have hrooted : ∀ path ∈ parentPaths, rootLength path ≠ 0 := by
    intro path hpath
    rcases hpath with rfl | rfl <;> decide
  exact ⟨hrooted, compare_paths_iff asciiLower true [0x2F] parentPaths hrooted⟩

/-- `/./a/b` equals `/a/b` and is less than `/a!b`, which is less than `/a/b`; its normal form is `/a/b` -/
theorem compare_paths_circle :
    (rootLength dottedPath ≠ 0 ∧ rootLength markPath ≠ 0 ∧ rootLength nestedPath ≠ 0) ∧
      comparePaths asciiLower nestedPath dottedPath [] true = .eq ∧
      comparePaths asciiLower dottedPath markPath [] true = .lt ∧
      comparePaths asciiLower nestedPath markPath [] true = .gt ∧
      normalize dottedPath = nestedPath ∧ normalize markPath = markPath ∧
      comparePaths asciiLower (normalize dottedPath) (normalize markPath) [] true = .gt := by
  decide

end Tsr.Tspath
