import Tsr.Tspath.NormalizeBehind

/-!
# Normalising a normalised path

* `Normal`              paths that `normalize` gives: nothing to resolve, a root and its segments, or
                        `..` that lead out of where the path begins;
* `OpenVolume`          the one result that is not normal, since its volume is taken for a root;
* `normalize_twice`     the second pass changes that one only;
* `rebuild_of_plain`, `plain_of_rebuild`   the test for relative segments against the loop over the
                        components.
-/

namespace Tsr.Tspath
open Tsr.Json (Bytes)
open Tsr.Segments
open Tsr.Lib.Separated

variable {components : List Bytes} {text : Bytes} {path : Bytes}

/-! ## normal paths -/

/-- a local file URL whose path is a volume, without the separator behind it -/
def OpenVolume (path : Bytes) : Prop :=
  ∃ authority volume, LocalFile fileScheme authority ∧ IsVolume volume ∧
    path = fileScheme ++ schemeMark ++ authority ++ [0x2F] ++ volume

inductive Normal : Bytes → Prop
  | plain {path : Bytes} (h : hasRelativeSegment path = false) : Normal path
  | rooted {root text : Bytes} {segments : List Bytes} (h : Shape root text) (htext : Spells 0x2F segments text)
      (hdots : ∀ s ∈ segments, s ≠ dot ∧ s ≠ dotDot) : Normal (root ++ text)
  | climbing {kept : List Bytes} {text : Bytes} (k : Nat)
      (htext : Spells 0x2F (List.replicate (k + 1) dotDot ++ kept) text)
      (hdots : ∀ s ∈ kept, s ≠ dot ∧ s ≠ dotDot) : Normal text
  | bare {path : Bytes} (h : Shape (path ++ [0x2F]) []) (hroot : rootLength path = path.length)
      (hslashes : [0x2F, 0x2F] <:+: path) (hlast : path.getLast? = some 0x2F) : Normal path

/-! ## paths without a root -/

/-- what the loop keeps of a path without a root -/
def climbed (path : Bytes) : List Bytes := (path.splitOn 0x2F).foldl (pushComponent []) []

/-- `..` are first -/
def Climbs (components : List Bytes) : Prop :=
  ∃ k kept, components = List.replicate k dotDot ++ kept ∧ ∀ s ∈ kept, s ≠ dot ∧ s ≠ dotDot

theorem pushComponent_skip {s : Bytes} (h : IsSkip s) :
    pushComponent [] components s = components := if_pos h

theorem pushComponent_plain {s : Bytes} (hskip : ¬IsSkip s) (hup : s ≠ dotDot) :
    pushComponent [] components s = components ++ [s] := (if_neg hskip).trans (if_neg hup)

theorem pushComponent_up (components : List Bytes) :
    pushComponent [] components dotDot =
      if components.getLast?.any (· ≠ dotDot) then components.dropLast else components ++ [dotDot] := by
  have hskip : ¬IsSkip dotDot := by decide
  refine (if_neg hskip).trans ((if_pos rfl).trans ?_)
  split
  next => rfl
  next => exact if_neg fun hroot => hroot.2 rfl

theorem pushComponent_ups (k : Nat) :
    (if (List.replicate k dotDot).getLast?.any (· ≠ dotDot) then (List.replicate k dotDot).dropLast
      else List.replicate k dotDot ++ [dotDot]) = List.replicate (k + 1) dotDot := by
  have hlast : (List.replicate k dotDot).getLast?.any (· ≠ dotDot) = false := by
    cases k with
    | zero => rfl
    | succ k =>
      rw [List.replicate_succ', List.getLast?_concat]
      rfl
  rw [hlast, List.replicate_succ']
  rfl

theorem pushComponent_climbs (h : Climbs components) (s : Bytes) :
    Climbs (pushComponent [] components s) := by
  obtain ⟨k, kept, rfl, hkept⟩ := h
  by_cases hskip : IsSkip s
  · rw [pushComponent_skip hskip]
    exact ⟨k, kept, rfl, hkept⟩
  · by_cases hup : s = dotDot
    · rw [hup, pushComponent_up]
      rcases List.eq_nil_or_concat kept with rfl | ⟨before, last, rfl⟩
      · -- the last component climbs, or there is none
        rw [List.append_nil, pushComponent_ups]
        exact ⟨k + 1, [], (List.append_nil _).symm, fun s hs => absurd hs List.not_mem_nil⟩
      · rw [List.concat_eq_append] at hkept ⊢
        have hlast := (hkept last List.mem_concat_self).2
        have hany : (List.replicate k dotDot ++ before ++ [last]).getLast?.any (· ≠ dotDot) = true := by
          rw [List.getLast?_concat]
          exact decide_eq_true hlast
        rw [← List.append_assoc, if_pos hany, List.dropLast_concat]
        exact ⟨k, before, rfl, fun s hs => hkept s (List.mem_append_left _ hs)⟩
    · rw [pushComponent_plain hskip hup]
      refine ⟨k, kept ++ [s], List.append_assoc .., fun t ht => ?_⟩
      rcases List.mem_append.1 ht with ht | ht
      · exact hkept t ht
      · rw [List.mem_singleton.1 ht]
        exact ⟨fun hdot => hskip (Or.inr hdot), hup⟩

theorem foldl_climbs (segments : List Bytes) (h : Climbs components) :
    Climbs (segments.foldl (pushComponent []) components) := by
  induction segments generalizing components with
  | nil => exact h
  | cons s segments ih => exact ih (pushComponent_climbs h s)

theorem climbed_climbs (path : Bytes) : Climbs (climbed path) :=
  foldl_climbs _ ⟨0, [], rfl, fun _ hs => absurd hs List.not_mem_nil⟩

theorem pushComponent_sub {s t : Bytes}
    (h : t ∈ pushComponent [] components s) : t ∈ components ∨ t = s ∧ s ≠ [] := by
  by_cases hskip : IsSkip s
  · rw [pushComponent_skip hskip] at h
    exact Or.inl h
  · have hne : s ≠ [] := fun hnil => hskip (Or.inl hnil)
    by_cases hup : s = dotDot
    · subst hup
      rw [pushComponent_up] at h
      split at h
      next => exact Or.inl (List.mem_of_mem_dropLast h)
      next => exact (List.mem_append.1 h).imp_right fun h => ⟨List.mem_singleton.1 h, hne⟩
    · rw [pushComponent_plain hskip hup] at h
      exact (List.mem_append.1 h).imp_right fun h => ⟨List.mem_singleton.1 h, hne⟩

theorem foldl_sub (segments components : List Bytes) {t : Bytes}
    (h : t ∈ segments.foldl (pushComponent []) components) : t ∈ components ∨ t ∈ segments ∧ t ≠ [] := by
  induction segments generalizing components with
  | nil => exact Or.inl h
  | cons s segments ih =>
    rcases ih _ h with h | ⟨h, hne⟩
    · rcases pushComponent_sub h with h | ⟨rfl, hne⟩
      · exact Or.inl h
      · exact Or.inr ⟨List.mem_cons_self, hne⟩
    · exact Or.inr ⟨List.mem_cons_of_mem _ h, hne⟩

theorem climbed_plain (path : Bytes) : Plain (climbed path) := by
  intro s hs
  rcases foldl_sub _ _ hs with h | ⟨h, hne⟩
  · exact absurd h List.not_mem_nil
  · exact ⟨hne, not_mem_of_mem_splitOn h⟩

/-- components that climb are kept as they are -/
theorem foldl_of_climbs (h : Climbs components) (hne : [] ∉ components) :
    components.foldl (pushComponent []) [] = components := by
  obtain ⟨k, kept, rfl, hkept⟩ := h
  have hups : ∀ n, (List.replicate n dotDot).foldl (pushComponent []) [] = List.replicate n dotDot := by
    intro n
    induction n with
    | zero => rfl
    | succ n ih =>
      rw [List.replicate_succ', List.foldl_append, ih, List.foldl_cons, List.foldl_nil, pushComponent_up,
        pushComponent_ups, List.replicate_succ']
  have hrest : ∀ (l before : List Bytes), (∀ s ∈ l, s ≠ [] ∧ s ≠ dot ∧ s ≠ dotDot) →
      l.foldl (pushComponent []) before = before ++ l := by
    intro l
    induction l with
    | nil => exact fun before _ => (List.append_nil before).symm
    | cons s l ih =>
      intro before hl
      obtain ⟨⟨hs, hdot, hup⟩, hl⟩ := List.forall_mem_cons.1 hl
      rw [List.foldl_cons, pushComponent_plain (fun hskip => hskip.elim hs hdot) hup, ih _ hl,
        List.append_assoc, List.singleton_append]
  rw [List.foldl_append, hups]
  refine hrest kept _ fun s hs => ⟨?_, hkept s hs⟩
  rintro rfl
  exact hne (List.mem_append_right _ hs)

theorem foldl_filter_nil (segments components : List Bytes) :
    (segments.filter (· ≠ [])).foldl (pushComponent []) components =
      segments.foldl (pushComponent []) components := by
  induction segments generalizing components with
  | nil => rfl
  | cons s segments ih =>
    by_cases hnil : s = []
    · rw [List.filter_cons, if_neg (by simp [hnil]), List.foldl_cons,
        pushComponent_skip (Or.inl hnil), ih]
    · rw [List.filter_cons, if_pos (decide_eq_true hnil), List.foldl_cons, List.foldl_cons, ih]

theorem climbed_of_spells (h : Spells 0x2F components text)
    (hclimbs : Climbs components) : climbed text = components := by
  have hne : [] ∉ components := by
    intro hmem
    rw [← h.splitOn] at hmem
    exact of_decide_eq_true (List.mem_filter.1 hmem).2 rfl
  rw [climbed, ← foldl_filter_nil, h.splitOn]
  exact foldl_of_climbs hclimbs hne

/-- the loop over a path without a root -/
theorem rebuild_open (h : rootLength path = 0) :
    rebuild path = [0x2F].intercalate (climbed path) ++
      if climbed path ≠ [] ∧ path.getLast? = some 0x2F then [0x2F] else [] := by
  unfold rebuild
  rw [h]
  dsimp only
  rw [List.take_zero, List.drop_zero, if_neg (fun hroot : ([] : Bytes) ≠ [] ∧ _ => hroot.1 rfl), List.nil_append]
  have hplain := climbed_plain path
  rw [← climbed]
  by_cases hnil : climbed path = []
  · rw [hnil, if_neg (fun h => h.1 rfl), if_neg (fun h => h.1 rfl), List.append_nil]
  · have hjoin := hplain.joined_ne_nil hnil
    have hopen := hplain.joined_last hnil
    by_cases hlast : path.getLast? = some 0x2F
    · rw [if_pos ⟨hjoin, hlast, hopen⟩, if_pos ⟨hnil, hlast⟩]
    · rw [if_neg (fun h => hlast h.2.1), if_neg (fun h => hlast h.2), List.append_nil]

theorem spells_rebuild (h : rootLength path = 0) :
    Spells 0x2F (climbed path) (rebuild path) := by
  have hspells := spells_intercalate (climbed_plain path)
  rw [rebuild_open h]
  split
  next hclose =>
    exact hspells.close ((climbed_plain path).joined_ne_nil hclose.1) ((climbed_plain path).joined_last hclose.1)
  next =>
    rw [List.append_nil]
    exact hspells

/-- components that climb, in a text without a root, are put together as they are -/
theorem rebuild_of_spells (hroot : rootLength text = 0)
    (h : Spells 0x2F components text) (hclimbs : Climbs components) : rebuild text = text := by
  rw [rebuild_open hroot, climbed_of_spells h hclimbs]
  have hlast : components ≠ [] ∧ text.getLast? = some 0x2F ↔ text.getLast? = some 0x2F := by
    refine and_iff_right_of_imp fun hlast hnil => ?_
    rw [h.nil_iff.1 hnil] at hlast
    cases hlast
  simp only [hlast]
  exact h.joined.symm

/-- a path that leads out has no root -/
theorem rootLength_climbing
    (h : Spells 0x2F (dotDot :: components) text) : rootLength text = 0 := by
  by_contra hroot
  obtain ⟨-, -, tail, rfl, -⟩ := h.head_tail
  rcases (rootLength_ne_zero_iff.1 hroot).2 with hleads | hscheme
  · rcases hleads with hsep | ⟨hc, -⟩ | ⟨hc, -⟩
    · exact absurd hsep (by decide)
    · exact absurd hc (by decide)
    · exact absurd hc (by decide)
  · obtain ⟨i, hmark⟩ := isSome_schemeEnd.1 hscheme
    have hslashes : [0x2F, 0x2F] <:+: schemeMark := by decide
    rw [← hmark] at hslashes
    exact h.apart (hslashes.trans ((List.take_prefix _ _).isInfix.trans (List.drop_suffix _ _).isInfix))

/-! ## normal paths are kept -/

theorem normalize_of_plain (hnormal : 0x5C ∉ path) (h : hasRelativeSegment path = false) :
    normalize path = path := by
  unfold normalize
  rw [normalizeSlashes_of_not_mem hnormal]
  exact if_pos h

/-- the rewriting of `/./` leaves the `..` in front -/
theorem simplify_climbing {tail : Bytes} (h : tail = [] ∨ tail.head? = some 0x2F) :
    hasRelativeSegment (stripDot (simplify (dotDot ++ tail))) = true := by
  have hfirst : ∃ tail', simplify (dotDot ++ tail) = dotDot ++ tail' ∧ (tail' = [] ∨ tail'.head? = some 0x2F) := by
    rw [simplify_before (by decide)]
    rcases h with rfl | hhead
    · exact ⟨[], rfl, Or.inl rfl⟩
    · obtain ⟨rest, rfl⟩ := List.head?_eq_some_iff.1 hhead
      obtain ⟨rest', hrest⟩ := simplify_head 0x2F rest
      exact ⟨0x2F :: rest', by rw [hrest], Or.inr rfl⟩
  obtain ⟨tail', heq, htail⟩ := hfirst
  have hstrip : stripDot (dotDot ++ tail') = dotDot ++ tail' := by
    refine if_neg fun hdot => ?_
    obtain ⟨rest, hrest⟩ := hdot
    cases hrest
  rw [heq, hstrip, ← Bool.not_eq_false, plain_iff]
  intro hplain
  refine (hplain.2 dotDot ?_).2 rfl
  rcases htail with rfl | hhead
  · exact List.mem_singleton_self _
  · obtain ⟨rest, rfl⟩ := List.head?_eq_some_iff.1 hhead
    rw [List.splitOn_append_cons_self_of_not_mem (by decide)]
    exact List.mem_cons_self

/-- a root alone that is no drive is taken apart, and has its separator afterwards -/
theorem normalize_bareRoot (hnormal : 0x5C ∉ path) (hroot : rootLength path = path.length)
    (hslashes : [0x2F, 0x2F] <:+: path) : normalize path = slashed path := by
  have hne : path ≠ [] := by
    rintro rfl
    exact absurd hslashes (by decide)
  have hpos : rootLength path ≠ 0 := by
    rw [hroot]
    exact mt List.length_eq_zero_iff.1 hne
  have hplain : ¬hasRelativeSegment path = false := fun hplain => (plain_iff.1 hplain).1 hslashes
  unfold normalize
  rw [normalizeSlashes_of_not_mem hnormal]
  dsimp only
  rw [if_neg hplain, if_neg fun hrewrite => simplified_slashes hrewrite.2.1 hrewrite.2.2 (simplify_meet hslashes),
    rebuild_eq hpos, (joined_bare hroot).1, if_neg fun hbare => hbare.2 (slashed_last path)]

theorem normalize_of_normal (hnormal : 0x5C ∉ path) (h : Normal path) : normalize path = path := by
  cases h with
  | plain h => exact normalize_of_plain hnormal h
  | @rooted root text segments h htext hdots =>
    obtain ⟨text', hnorm, -, hstrips⟩ := normalize_shape h hnormal
    rw [hnorm]
    rcases hstrips (Spells.plain htext hdots) with hsame | hslash
    · rw [hsame]
    · exact absurd hslash (htext.head text')
  | @climbing kept text k htext hdots =>
    have hroot := rootLength_climbing htext
    have hclimbs : Climbs (List.replicate (k + 1) dotDot ++ kept) := ⟨k + 1, kept, rfl, hdots⟩
    have hsame := rebuild_of_spells hroot htext hclimbs
    unfold normalize
    rw [normalizeSlashes_of_not_mem hnormal]
    dsimp only
    split
    next => rfl
    next =>
      obtain ⟨-, -, tail, htail, hbehind⟩ := Spells.head_tail htext
      have hrelative : hasRelativeSegment (stripDot (simplify path)) = true := by
        rw [htail]
        apply simplify_climbing
        rcases hbehind with ⟨-, rfl⟩ | ⟨rest, rfl, -⟩
        · exact Or.inl rfl
        · exact Or.inr rfl
      rw [if_neg fun hrewrite => by rw [hrelative] at hrewrite; cases hrewrite.2.1]
      exact hsame
  | bare h hroot hslashes hlast => rw [normalize_bareRoot hnormal hroot hslashes, slashed, if_pos hlast]

/-! ## what the first pass gives -/

theorem OpenVolume.root (h : OpenVolume path) :
    Shape (path ++ [0x2F]) [] ∧ rootLength path = path.length ∧ path.getLast? ≠ some 0x2F := by
  obtain ⟨authority, volume, hlocal, hvolume, rfl⟩ := h
  refine ⟨?_, ?_, ?_⟩
  · have hshape : Shape _ ([] : Bytes) := Shape.urlVolume hlocal hvolume
    have hpath : fileScheme ++ schemeMark ++ authority ++ [0x2F] ++ volume ++ [0x2F] =
        fileScheme ++ schemeMark ++ authority ++ 0x2F :: (volume ++ [0x2F]) := by simp
    rw [hpath]
    exact hshape
  · rw [rootLength_local hlocal, volumeLength_self hvolume, ← List.length_append]
  · have hne : volume ≠ [] := by
      obtain ⟨c, -, rfl | rfl | rfl⟩ := hvolume <;> exact List.cons_ne_nil _ _
    rw [List.getLast?_append_of_ne_nil _ hne]
    exact fun hlast => hvolume.no_slash (List.mem_of_getLast? hlast)

theorem OpenVolume.slashes (h : OpenVolume path) : [0x2F, 0x2F] <:+: path := by
  obtain ⟨authority, volume, -, -, rfl⟩ := h
  have hmark : [0x2F, 0x2F] <:+: schemeMark := by decide
  refine hmark.trans ⟨fileScheme, authority ++ [0x2F] ++ volume, ?_⟩
  simp only [List.append_assoc]

/-- the second pass gives the volume its separator -/
theorem normalize_openVolume (hnormal : 0x5C ∉ path) (h : OpenVolume path) :
    normalize path = path ++ [0x2F] := by
  obtain ⟨-, hroot, hlast⟩ := h.root
  rw [normalize_bareRoot hnormal hroot h.slashes, slashed, if_neg hlast]

/-- **A path behind a root** whose segments are left as they are is normal, or is a volume. -/
theorem normal_behind {root rest text : Bytes} {segments : List Bytes} (h : Shape root rest)
    (htext : Spells 0x2F segments text) (hdots : ∀ s ∈ segments, s ≠ dot ∧ s ≠ dotDot) :
    Normal (root ++ text) ∨ OpenVolume (root ++ text) := by
  have hhead : text.head? ≠ some 0x2F := by
    intro hhead
    obtain ⟨tail, heq⟩ := List.head?_eq_some_iff.1 hhead
    exact htext.head tail heq
  rcases h.replace fun _ => hhead with hshape | ⟨scheme, authority, hlocal, rfl, hvolume⟩
  · exact Or.inl (.rooted hshape htext hdots)
  · cases htext with
    | nil =>
      obtain ⟨c, -, hv | hv | hv⟩ := hvolume <;> cases hv
    | @last segment hne hnone =>
      rw [firstSegment_of_not_mem hnone] at hvolume
      exact Or.inr ⟨authority, text, ⟨rfl, hlocal.2⟩, hvolume, by rw [hlocal.1]⟩
    | @cons segment hne hnone more text htext =>
      rw [firstSegment_append hnone] at hvolume
      have hpath : scheme ++ schemeMark ++ authority ++ [0x2F] ++ (segment ++ 0x2F :: text) =
          scheme ++ schemeMark ++ authority ++ 0x2F :: (segment ++ [0x2F]) ++ text := by simp
      rw [hpath]
      exact Or.inl (.rooted (Shape.urlVolume hlocal hvolume) htext fun s hs => hdots s (List.mem_cons_of_mem _ hs))

theorem normal_open (h : rootLength path = 0) : Normal (rebuild path) := by
  have hspells := spells_rebuild h
  obtain ⟨k, kept, heq, hdots⟩ := climbed_climbs path
  rw [heq] at hspells
  cases k with
  | zero => exact .plain (Spells.plain hspells hdots)
  | succ k => exact .climbing k hspells hdots

theorem mem_simplify {b : UInt8} (h : b ∈ simplify path) : b ∈ path := by
  induction path using simplify_induction with
  | nil => exact h
  | mark rest ih =>
    rw [simplify_mark] at h
    rcases List.mem_cons.1 h with rfl | h
    · exact List.mem_cons_self
    · exact List.mem_cons_of_mem _ (List.mem_cons_of_mem _ (List.mem_cons_of_mem _ (ih h)))
  | cons x rest hmark ih =>
    rw [simplify_cons hmark] at h
    rcases List.mem_cons.1 h with rfl | h
    · exact List.mem_cons_self
    · exact List.mem_cons_of_mem _ (ih h)

theorem not_mem_rewritten (hnormal : 0x5C ∉ path) : 0x5C ∉ stripDot (simplify path) := by
  intro hmem
  unfold stripDot at hmem
  split at hmem
  · exact hnormal (mem_simplify (List.mem_of_mem_drop hmem))
  · exact hnormal (mem_simplify hmem)

theorem bareDrive_plain {c : UInt8} (hc : isAlphabetic c = true) : hasRelativeSegment [c, 0x3A] = false := by
  have hne : c ≠ 0x2F := isAlphabetic_ne_slash hc
  have hnone : 0x2F ∉ [c, 0x3A] := by simp [hne.symm]
  refine plain_iff.2 ⟨fun hin => hnone (hin.subset List.mem_cons_self), fun s hs => ?_⟩
  rw [List.splitOn_eq_singleton hnone, List.mem_singleton] at hs
  rw [hs]
  exact ⟨by simp [dot], by simp [dotDot]⟩

/-- **The normal form**, but for a volume, is normal. -/
theorem normal_normalize (hnormal : 0x5C ∉ path) :
    0x5C ∉ normalize path ∧ (Normal (normalize path) ∨ OpenVolume (normalize path)) := by
  by_cases hroot : rootLength path = 0
  · unfold normalize
    rw [normalizeSlashes_of_not_mem hnormal]
    dsimp only
    split
    next hplain => exact ⟨hnormal, Or.inl (.plain hplain)⟩
    next =>
      split
      next hrewrite => exact ⟨not_mem_rewritten hnormal, Or.inl (.plain hrewrite.2.1)⟩
      next =>
        refine ⟨fun hmem => ?_, Or.inl (normal_open hroot)⟩
        rcases (spells_rebuild hroot).mem hmem with hslash | ⟨s, hs, hin⟩
        · exact absurd hslash (by decide)
        · rcases foldl_sub _ _ hs with h | ⟨h, -⟩
          · exact absurd h List.not_mem_nil
          · exact hnormal (mem_of_mem_splitOn h hin)
  · refine ⟨(behind_of_rooted hnormal hroot).normal, ?_⟩
    cases rooted_of_rootLength hnormal hroot with
    | @shape root rest h =>
      obtain ⟨text, hnorm, hspells, -⟩ := normalize_shape h hnormal
      rw [hnorm]
      exact normal_behind h hspells (resolved_dots rest)
    | bare hne h hbare =>
      rcases bare_cases hne h hbare with hslashes | ⟨c, hc, rfl⟩
      · rw [normalize_bareRoot hnormal hbare hslashes, slashed]
        split
        next hlast => exact Or.inl (.bare h hbare hslashes hlast)
        next =>
          have hshape : Normal (path ++ [0x2F] ++ []) := .rooted h .nil fun s hs => absurd hs List.not_mem_nil
          rw [List.append_nil] at hshape
          exact Or.inl hshape
      · have hplain : hasRelativeSegment [c, 0x3A] = false := bareDrive_plain hc
        rw [normalize_of_plain hnormal hplain]
        exact Or.inl (.plain hplain)

/-- **The second pass** changes an open volume only. -/
theorem normalize_again (hnormal : 0x5C ∉ path) :
    normalize (normalize path) = normalize path ↔ ¬OpenVolume (normalize path) := by
  obtain ⟨hnone, hresult⟩ := normal_normalize hnormal
  constructor
  · intro hsame hopen
    rw [normalize_openVolume hnone hopen] at hsame
    exact List.cons_ne_nil _ _ (List.append_right_eq_self.1 hsame)
  · intro hopen
    exact normalize_of_normal hnone (hresult.resolve_right hopen)

/-! ## the test and the loop -/

theorem head?_of_rootLength (h : rootLength path = 0) : path.head? ≠ some 0x2F := by
  intro hhead
  obtain ⟨rest, rfl⟩ := List.head?_eq_some_iff.1 hhead
  exact rootLength_ne_zero_iff.2 ⟨List.cons_ne_nil _ _, Or.inl (Or.inl (by decide))⟩ h

theorem BareDrive.rootLength (h : BareDrive path) : rootLength path = 2 := by
  obtain ⟨c, hc, rfl⟩ := h
  have hsep : ¬separator c = true := by
    intro hsep
    rw [separator, Bool.or_eq_true, decide_eq_true_eq, decide_eq_true_eq] at hsep
    rcases hsep with rfl | rfl <;> exact absurd hc (by decide)
  apply rootLength_of_encoded
  rw [encodedRootLength, if_neg hsep, if_pos ⟨hc, rfl, rfl⟩]
  rfl

theorem BareDrive.last (h : BareDrive path) : path.getLast? ≠ some 0x2F := by
  obtain ⟨c, -, rfl⟩ := h
  have hlast : [c, 0x3A].getLast? = some 0x3A := rfl
  rw [hlast]
  decide

theorem not_bareDrive_of_shape {root rest : Bytes} (h : Shape root rest) : ¬BareDrive (root ++ rest) := by
  intro hdrive
  have hroot := hdrive.rootLength
  have hlen : (root ++ rest).length = 2 := by
    obtain ⟨c, -, heq⟩ := hdrive
    rw [heq]
    rfl
  rw [rootLength_shape h] at hroot
  rw [List.length_append, hroot] at hlen
  have hnil : rest = [] := List.eq_nil_of_length_eq_zero (by omega)
  rw [hnil, List.append_nil] at hdrive
  exact hdrive.last h.getLast

theorem rebuild_bare (hne : path ≠ []) (hroot : rootLength path = path.length) :
    rebuild path = slashed path := by
  have hpos : rootLength path ≠ 0 := by
    rw [hroot]
    exact mt List.length_eq_zero_iff.1 hne
  rw [rebuild_eq hpos, (joined_bare hroot).1, if_neg fun hbare => hbare.2 (slashed_last path)]

/-- **A path that passes the test** is what the loop makes of it, but for a drive. -/
theorem rebuild_of_plain (hnormal : 0x5C ∉ path) (h : hasRelativeSegment path = false) :
    rebuild path = path ↔ ¬BareDrive path := by
  by_cases hroot : rootLength path = 0
  · refine iff_of_true ?_ fun hdrive => ?_
    · exact rebuild_of_spells hroot (spells_of_plain h (head?_of_rootLength hroot))
        ⟨0, resolved path, rfl, resolved_dots path⟩
    · rw [hdrive.rootLength] at hroot
      cases hroot
  · cases rooted_of_rootLength hnormal hroot with
    | @shape root rest hshape =>
      refine iff_of_true ?_ (not_bareDrive_of_shape hshape)
      obtain ⟨text, hrebuild, -, hstrips⟩ := rebuild_shape hshape
      obtain ⟨hbehind, hhead⟩ := plain_behind hshape h
      rw [hrebuild]
      rcases hstrips hbehind with hsame | hslash
      · rw [hsame]
      · rw [hslash] at hhead
        exact absurd rfl hhead
    | bare hne hshape hbare =>
      rcases bare_cases hne hshape hbare with hslashes | hdrive
      · exact absurd hslashes (plain_iff.1 h).1
      · refine iff_of_false ?_ fun hnot => hnot hdrive
        rw [rebuild_bare hne hbare]
        intro hsame
        have hlast := slashed_last path
        rw [hsame] at hlast
        exact hdrive.last hlast

theorem firstSegment_mem (path : Bytes) : firstSegment path ∈ path.splitOn 0x2F := by
  have hslash : 0x2F ∉ firstSegment path := by
    intro hmem
    have hne := List.mem_takeWhile_imp hmem
    exact absurd hne (by decide)
  rcases firstSegment_split path with hself | ⟨tail, hsplit⟩
  · have hsplit : path.splitOn 0x2F = [path] := List.splitOn_eq_singleton (hself ▸ hslash)
    rw [hsplit, ← hself]
    exact List.mem_singleton_self _
  · have hfirst : path.splitOn 0x2F = firstSegment path :: tail.splitOn 0x2F := by
      conv_lhs => rw [hsplit]
      exact List.splitOn_append_cons_self_of_not_mem hslash tail
    rw [hfirst]
    exact List.mem_cons_self

/-- two separators meet in the root -/
def DoubleRoot (path : Bytes) : Prop := [0x2F, 0x2F] <:+: path.take (rootLength path)

/-- a path without a root that begins with `..` -/
def LeadsOut (path : Bytes) : Prop := rootLength path = 0 ∧ firstSegment path = dotDot

theorem plain_shape {root rest : Bytes} {segments : List Bytes} (h : Shape root rest)
    (hslashes : ¬[0x2F, 0x2F] <:+: root) (hrest : Spells 0x2F segments rest)
    (hdots : ∀ s ∈ segments, s ≠ dot ∧ s ≠ dotDot) : hasRelativeSegment (root ++ rest) = false := by
  refine plain_root h ?_ (Spells.plain hrest hdots)
  obtain ⟨before, hbefore, ⟨hnone, -⟩, -⟩ := simple_root h hslashes
  rw [hbefore, List.append_assoc, List.singleton_append]
  by_cases hnil : before = []
  · rw [hnil, List.nil_append, List.infix_cons_iff]
    rintro (⟨after, heq⟩ | hin)
    · exact hrest.head after (List.cons.inj heq).2.symm
    · exact hrest.apart hin
  · exact (Spells.cons hnil hnone hrest).apart

/-- **A path that the loop leaves as it is** passes the test, unless its root has two separators that
meet, or it leads out of where it begins. -/
theorem plain_of_rebuild (hnormal : 0x5C ∉ path) (h : rebuild path = path) :
    hasRelativeSegment path = true ↔ DoubleRoot path ∨ LeadsOut path := by
  by_cases hroot : rootLength path = 0
  · have hspells := spells_rebuild hroot
    rw [h] at hspells
    have hnone : ¬DoubleRoot path := by
      rw [DoubleRoot, hroot, List.take_zero, List.infix_nil]
      exact List.cons_ne_nil _ _
    rw [or_iff_right hnone, LeadsOut, and_iff_right hroot]
    obtain ⟨k, kept, heq, hdots⟩ := climbed_climbs path
    rw [heq] at hspells
    cases k with
    | zero =>
      have hplain : hasRelativeSegment path = false := Spells.plain hspells hdots
      rw [hplain]
      refine iff_of_false (by decide) fun hfirst => ?_
      exact ((plain_iff.1 hplain).2 dotDot (hfirst ▸ firstSegment_mem path)).2 rfl
    | succ k =>
      obtain ⟨-, hslash, tail, rfl, htail⟩ := Spells.head_tail hspells
      have hfirst : firstSegment (dotDot ++ tail) = dotDot := by
        rcases htail with ⟨-, rfl⟩ | ⟨rest, rfl, -⟩
        · rw [List.append_nil, firstSegment_of_not_mem hslash]
        · exact firstSegment_append hslash rest
      refine iff_of_true ?_ hfirst
      rw [← Bool.not_eq_false, plain_iff]
      intro hplain
      have hmem := firstSegment_mem (dotDot ++ tail)
      rw [hfirst] at hmem
      exact (hplain.2 dotDot hmem).2 rfl
  · have hout : ¬LeadsOut path := fun hout => hroot hout.1
    rw [or_iff_left hout]
    cases rooted_of_rootLength hnormal hroot with
    | @shape root rest hshape =>
      obtain ⟨text, hrebuild, hspells, -⟩ := rebuild_shape hshape
      rw [hrebuild] at h
      rw [List.append_cancel_left h] at hspells
      rw [DoubleRoot, rootLength_shape hshape, List.take_left]
      constructor
      · intro hrelative
        by_contra hslashes
        rw [plain_shape hshape hslashes hspells (resolved_dots rest)] at hrelative
        cases hrelative
      · intro hslashes
        rw [← Bool.not_eq_false, plain_iff]
        exact fun hplain => hplain.1 (hslashes.trans (List.prefix_append root rest).isInfix)
    | bare hne hshape hbare =>
      have hlast := slashed_last path
      rw [rebuild_bare hne hbare] at h
      rw [h] at hlast
      rcases bare_cases hne hshape hbare with hslashes | hdrive
      · rw [DoubleRoot, hbare, List.take_length]
        refine iff_of_true ?_ hslashes
        rw [← Bool.not_eq_false, plain_iff]
        exact fun hplain => hplain.1 hslashes
      · exact absurd hlast hdrive.last

/-- **Normalising twice.** A normalised path is kept unless it is a local file URL down to an open
volume; the test for relative segments passes what the loop leaves as it is, but for drives, double roots
and paths that lead out. -/
theorem normalize_twice (path : Bytes) :
    (normalize (normalize path) = normalize path ↔ ¬OpenVolume (normalize path)) ∧
      (hasRelativeSegment (normalizeSlashes path) = false →
        (rebuild (normalizeSlashes path) = normalizeSlashes path ↔ ¬BareDrive (normalizeSlashes path))) ∧
      (rebuild (normalizeSlashes path) = normalizeSlashes path →
        (hasRelativeSegment (normalizeSlashes path) = true ↔
          DoubleRoot (normalizeSlashes path) ∨ LeadsOut (normalizeSlashes path))) := by
  have hnormal := not_mem_normalizeSlashes path
  refine ⟨?_, rebuild_of_plain hnormal, plain_of_rebuild hnormal⟩
  have hagain := normalize_again hnormal
  rw [normalize_normalizeSlashes] at hagain
  exact hagain

/-- `file:///./c:` -/
def dottedVolume : Bytes := fileScheme ++ schemeMark ++ [0x2F, 0x2E, 0x2F, 0x63, 0x3A]

/-- the second pass adds a separator; the test passes `c:`, which the loop changes, and not `../a`, which
it does not -/
theorem normalize_not_twice : normalize (normalize dottedVolume) ≠ normalize dottedVolume ∧
    (hasRelativeSegment [0x63, 0x3A] = false ∧ rebuild [0x63, 0x3A] ≠ [0x63, 0x3A]) ∧
    hasRelativeSegment [0x2E, 0x2E, 0x2F, 0x61] = true ∧
      rebuild [0x2E, 0x2E, 0x2F, 0x61] = [0x2E, 0x2E, 0x2F, 0x61] := by
  decide

end Tsr.Tspath
