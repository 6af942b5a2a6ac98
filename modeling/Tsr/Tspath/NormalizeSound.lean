import Tsr.Tspath.Roots
import Tsr.Lib.Segments

/-!
# The normalised path and its components

* `resolved rest`             the segments that are left of what stands behind a root;
* `normalizedComponents_eq`, `reducePathComponents_eq`, `normalizedComponentsFromCombined_eq`
                              the root, and those segments;
* `Joined path`               the root and those segments as a path;
* `normalize_finish`          `absolute` finishes that path;
* `normalizers_agree_iff`     and leaves it as it is, but where the segments behind the root of a
                              local file URL come down to a volume.
-/

namespace Tsr.Tspath
open Tsr.Json (Bytes)
open Tsr.Segments

def IsSkip (segment : Bytes) : Prop := segment = [] ∨ segment = dot

def IsUp (segment : Bytes) : Prop := segment = dotDot

instance : DecidablePred IsSkip := fun segment => inferInstanceAs (Decidable (segment = [] ∨ segment = dot))

instance : DecidablePred IsUp := fun segment => inferInstanceAs (Decidable (segment = dotDot))

/-- the segments that are left of what stands behind a root -/
def resolved (rest : Bytes) : List Bytes := resolve IsSkip IsUp (rest.splitOn 0x2F)

/-- a root, with the separator that it may lack -/
def slashed (root : Bytes) : Bytes := if root.getLast? = some 0x2F then root else root ++ [0x2F]

/-- the root of a path before the segments that are left of the rest -/
def Joined (path : Bytes) : Bytes :=
  slashed (path.take (rootLength path)) ++ [0x2F].intercalate (resolved (path.drop (rootLength path)))

/-! ## components -/

theorem getLast?_kept {root : Bytes} {kept : List Bytes} (hne : kept ≠ [])
    (hkept : ∀ t ∈ kept, ¬IsUp t) :
    ([root] ++ kept).getLast?.any (· ≠ dotDot) = true := by
  rw [List.getLast?_append_of_ne_nil _ hne, List.getLast?_eq_some_getLast hne]
  exact decide_eq_true (hkept _ (List.getLast_mem hne))

theorem dropLast_kept {root : Bytes} {kept : List Bytes} (hne : kept ≠ []) :
    ([root] ++ kept).dropLast = [root] ++ kept.dropLast := List.dropLast_append_of_ne_nil hne

theorem reduceComponent_step {root : Bytes} (hroot : root ≠ []) (kept : List Bytes) (s : Bytes)
    (hkept : ∀ t ∈ kept, ¬IsUp t) :
    reduceComponent ([root] ++ kept) s = [root] ++ step IsSkip IsUp kept s := by
  unfold reduceComponent
  by_cases hskip : IsSkip s
  · rw [step_skip hskip]
    exact if_pos hskip
  · refine (if_neg hskip).trans ?_
    by_cases hup : IsUp s
    · rw [step_up hskip hup]
      refine (if_pos hup).trans ?_
      by_cases hne : kept = []
      · subst hne
        rw [if_neg (by simp)]
        exact if_pos (decide_eq_true hroot)
      · have hlen := List.length_pos_of_ne_nil hne
        rw [if_pos (by simpa using hlen), if_pos (getLast?_kept hne hkept), dropLast_kept hne]
    · rw [step_plain hskip hup]
      exact (if_neg hup).trans (List.append_assoc _ _ _)

theorem normalizedComponent_step {root : Bytes} {n : Nat} (hn : n ≠ 0) (kept : List Bytes) (s : Bytes)
    (hkept : ∀ t ∈ kept, ¬IsUp t) :
    normalizedComponent n ([root] ++ kept) s = [root] ++ step IsSkip IsUp kept s := by
  unfold normalizedComponent
  by_cases hskip : IsSkip s
  · rw [step_skip hskip]
    exact if_pos hskip
  · refine (if_neg hskip).trans ?_
    by_cases hup : IsUp s
    · rw [step_up hskip hup]
      refine (if_pos hup).trans ?_
      by_cases hne : kept = []
      · subst hne
        rw [if_neg (by simp)]
        exact if_pos hn
      · have hlen := List.length_pos_of_ne_nil hne
        rw [if_pos ⟨by simpa using hlen, getLast?_kept hne hkept⟩, dropLast_kept hne]
    · rw [step_plain hskip hup]
      exact (if_neg hup).trans (List.append_assoc _ _ _)

theorem pushComponent_step {root : Bytes} (hroot : root ≠ []) (kept : List Bytes) (s : Bytes)
    (hkept : ∀ t ∈ kept, ¬IsUp t) :
    pushComponent root ([] ++ kept) s = [] ++ step IsSkip IsUp kept s := by
  rw [List.nil_append, List.nil_append]
  unfold pushComponent
  by_cases hskip : IsSkip s
  · rw [step_skip hskip]
    exact if_pos hskip
  · refine (if_neg hskip).trans ?_
    by_cases hup : IsUp s
    · rw [step_up hskip hup]
      refine (if_pos hup).trans ?_
      by_cases hne : kept = []
      · subst hne
        rw [if_neg (by simp)]
        exact if_pos ⟨rfl, hroot⟩
      · have hlast : kept.getLast?.any (· ≠ dotDot) = true := by
          rw [List.getLast?_eq_some_getLast hne]
          exact decide_eq_true (hkept _ (List.getLast_mem hne))
        rw [if_pos hlast]
    · rw [step_plain hskip hup]
      exact if_neg hup

theorem take_root_ne_nil {path : Bytes} (h : rootLength path ≠ 0) :
    path.take (rootLength path) ≠ [] := by
  intro hnil
  have hle := rootLength_le path
  have hlen := congrArg List.length hnil
  rw [List.length_take, List.length_nil] at hlen
  omega

theorem normalizedComponents_eq {file cwd : Bytes} (h : rootLength (combine cwd [file]) ≠ 0) :
    normalizedComponents file cwd =
      (combine cwd [file]).take (rootLength (combine cwd [file])) ::
        resolved ((combine cwd [file]).drop (rootLength (combine cwd [file]))) :=
  foldl_resolve (normalizedComponent_step h) _

theorem normalizedComponentsFromCombined_eq {path : Bytes} (h : rootLength path ≠ 0) :
    normalizedComponentsFromCombined path =
      path.take (rootLength path) :: resolved (path.drop (rootLength path)) :=
  foldl_resolve (reduceComponent_step (take_root_ne_nil h)) _

/-- the empty segment behind the last separator is one that is skipped -/
theorem resolve_trailing (segments : List Bytes) :
    resolve IsSkip IsUp (if segments.getLast? = some [] then segments.dropLast else segments) =
      resolve IsSkip IsUp segments := by
  split
  next hlast =>
    apply resolve_filter
    obtain ⟨before, rfl⟩ := List.getLast?_eq_some_iff.1 hlast
    rw [List.dropLast_concat, List.filter_append]
    exact (List.append_nil _).symm
  next => rfl

theorem reducePathComponents_eq {file cwd : Bytes} (h : rootLength (combine cwd [file]) ≠ 0) :
    ∃ components, pathComponents file cwd = some components ∧
      reducePathComponents components =
        (combine cwd [file]).take (rootLength (combine cwd [file])) ::
          resolved ((combine cwd [file]).drop (rootLength (combine cwd [file]))) := by
  refine ⟨_, if_pos (rootLength_le _), ?_⟩
  show List.foldl reduceComponent [_] _ = _
  rw [foldl_resolve (reduceComponent_step (take_root_ne_nil h)), resolve_trailing]
  rfl

/-! ## the segments that are left, joined -/

/-- segments that are no separators, no dots and not empty -/
def Plain (parts : List Bytes) : Prop := ∀ s ∈ parts, s ≠ [] ∧ 0x2F ∉ s

theorem resolved_plain (rest : Bytes) : Plain (resolved rest) := by
  intro s hs
  obtain ⟨hmem, hskip, -⟩ := mem_resolve hs
  exact ⟨fun hnil => hskip (Or.inl hnil), not_mem_of_mem_splitOn hmem⟩

section
variable {parts : List Bytes}

theorem head?_ne_slash {s : Bytes} (h : s ≠ [] ∧ 0x2F ∉ s) (rest : Bytes) :
    (s ++ rest).head? ≠ some 0x2F := by
  obtain ⟨b, s, rfl⟩ := List.exists_cons_of_ne_nil h.1
  intro heq
  apply h.2
  have hb : b = 0x2F := Option.some.inj heq
  rw [hb]
  exact List.mem_cons_self

theorem Plain.joined_head (h : Plain parts) (rest : Bytes) (hne : parts ≠ []) :
    ([0x2F].intercalate parts ++ rest).head? ≠ some 0x2F := by
  obtain ⟨s, more, rfl⟩ := List.exists_cons_of_ne_nil hne
  have hs := h s List.mem_cons_self
  by_cases hmore : more = []
  · rw [hmore, List.intercalate_singleton]
    exact head?_ne_slash hs rest
  · rw [List.intercalate_cons_of_ne_nil hmore, List.append_assoc, List.append_assoc]
    exact head?_ne_slash hs _

theorem Plain.joined_ne_nil (h : Plain parts) (hne : parts ≠ []) : [0x2F].intercalate parts ≠ [] := by
  obtain ⟨s, more, rfl⟩ := List.exists_cons_of_ne_nil hne
  have hs := (h s List.mem_cons_self).1
  by_cases hmore : more = []
  · rw [hmore, List.intercalate_singleton]
    exact hs
  · rw [List.intercalate_cons_of_ne_nil hmore, List.append_assoc]
    exact List.append_ne_nil_of_left_ne_nil hs _

theorem Plain.joined_last (h : Plain parts) (hne : parts ≠ []) :
    ([0x2F].intercalate parts).getLast? ≠ some 0x2F := by
  induction parts with
  | nil => exact absurd rfl hne
  | cons s more ih =>
    obtain ⟨hs, hmore⟩ := List.forall_mem_cons.1 h
    by_cases hnil : more = []
    · rw [hnil, List.intercalate_singleton]
      exact fun heq => hs.2 (List.mem_of_getLast? heq)
    · have hjoin : [0x2F].intercalate more ≠ [] := Plain.joined_ne_nil hmore hnil
      rw [List.intercalate_cons_of_ne_nil hnil, List.getLast?_append_of_ne_nil _ hjoin]
      exact ih hmore hnil

/-- what stands first where segments are joined, a separator behind them or not -/
theorem Plain.joined_first {s : Bytes} {more : List Bytes} (h : Plain (s :: more)) :
    firstSegment ([0x2F].intercalate (s :: more)) = s ∧
      firstSegment ([0x2F].intercalate (s :: more) ++ [0x2F]) = s := by
  have hs := (h s List.mem_cons_self).2
  by_cases hmore : more = []
  · rw [hmore, List.intercalate_singleton]
    exact ⟨firstSegment_of_not_mem hs, firstSegment_append hs []⟩
  · rw [List.intercalate_cons_of_ne_nil hmore, List.append_assoc, List.append_assoc]
    exact ⟨firstSegment_append hs _, firstSegment_append hs _⟩

end

variable {path : Bytes} {root rest : Bytes}

theorem resolved_nil : resolved [] = [] := rfl

/-! ## a path without relative segments -/

/-- nothing to resolve: no two separators meet, and no segment is `.` or `..` -/
theorem plain_iff :
    hasRelativeSegment path = false ↔
      ¬[0x2F, 0x2F] <:+: path ∧ ∀ s ∈ path.splitOn 0x2F, s ≠ dot ∧ s ≠ dotDot := by
  rw [hasRelativeSegment, Bool.or_eq_false_iff, decide_eq_false_iff_not, List.any_eq_false]
  refine and_congr Iff.rfl (forall_congr' fun s => forall_congr' fun _ => ?_)
  rw [Bool.not_eq_true, Bool.or_eq_false_iff, decide_eq_false_iff_not, decide_eq_false_iff_not]

theorem trimSlash_concat (path : Bytes) : trimSlash (path ++ [0x2F]) = path := by
  rw [trimSlash, if_pos List.getLast?_concat, List.dropLast_concat]

theorem splitOn_concat (text : Bytes) :
    (text ++ [0x2F]).splitOn 0x2F = text.splitOn 0x2F ++ [[]] := List.splitOn_append_cons_self text []

/-- a separator at the end leaves the segments as they are -/
theorem resolved_concat (text : Bytes) : resolved (text ++ [0x2F]) = resolved text := by
  rw [resolved, splitOn_concat, resolved]
  apply resolve_filter
  rw [List.filter_append]
  exact List.append_nil _

/-- segments of a text without empty ones inside, and no dots -/
theorem resolved_of_plain {rest : Bytes} (hslashes : ¬[0x2F, 0x2F] <:+: rest)
    (hhead : rest.head? ≠ some 0x2F) (hdots : ∀ s ∈ rest.splitOn 0x2F, s ≠ dot ∧ s ≠ dotDot) :
    [0x2F].intercalate (resolved rest) = trimSlash rest := by
  -- without its last separator the text has no empty segment, or is empty
  have hclean : ∀ text : Bytes, text.getLast? ≠ some 0x2F → text.head? ≠ some 0x2F →
      ¬[0x2F, 0x2F] <:+: text → (∀ s ∈ text.splitOn 0x2F, s ≠ dot ∧ s ≠ dotDot) →
      [0x2F].intercalate (resolved text) = text := by
    intro text hlast hhead hslashes hdots
    by_cases hnil : text = []
    · rw [hnil]
      rfl
    · have hempty : [] ∉ text.splitOn 0x2F := by
        intro hmem
        rcases nil_mem_splitOn hmem with h | h | h | h
        · exact hnil h
        · exact hhead h
        · exact hlast h
        · exact hslashes h
      have hplain : ∀ s ∈ text.splitOn 0x2F, ¬IsSkip s ∧ ¬IsUp s := by
        intro s hs
        obtain ⟨hdot, hup⟩ := hdots s hs
        refine ⟨fun hskip => ?_, hup⟩
        rcases hskip with rfl | hskip
        · exact hempty hs
        · exact hdot hskip
      rw [resolved, resolve_plain hplain, List.intercalate_splitOn]
  by_cases hlast : rest.getLast? = some 0x2F
  · obtain ⟨text, rfl⟩ := List.getLast?_eq_some_iff.1 hlast
    rw [resolved_concat, trimSlash_concat]
    apply hclean
    · intro htext
      obtain ⟨before, rfl⟩ := List.getLast?_eq_some_iff.1 htext
      exact hslashes ⟨before, [], by simp⟩
    · intro htext
      obtain ⟨tail, rfl⟩ := List.head?_eq_some_iff.1 htext
      exact hhead rfl
    · intro hin
      exact hslashes (hin.trans (List.infix_append' [] text [0x2F]))
    · intro s hs
      exact hdots s (splitOn_concat text ▸ List.mem_append_left _ hs)
  · rw [trimSlash, if_neg hlast]
    exact hclean rest hlast hhead hslashes hdots

/-! ## rewriting `/./` -/

theorem simplify_mark (rest : Bytes) :
    simplify (0x2F :: 0x2E :: 0x2F :: rest) = 0x2F :: simplify rest := by
  rw [simplify, if_pos ⟨rfl, rfl, rfl⟩]

/-- a byte that begins no `/./` stays -/
theorem simplify_cons {b : UInt8} {rest : Bytes} (h : ¬[0x2F, 0x2E, 0x2F] <+: b :: rest) :
    simplify (b :: rest) = b :: simplify rest := by
  rcases rest with _ | ⟨c, _ | ⟨d, tail⟩⟩
  · rfl
  · rfl
  · have hmark : ¬(b = 0x2F ∧ c = 0x2E ∧ d = 0x2F) := by
      intro hmark
      obtain ⟨rfl, rfl, rfl⟩ := hmark
      exact h ⟨tail, rfl⟩
    rw [simplify, if_neg hmark]

/-- the cases of `simplify`, by the two lemmas above -/
theorem simplify_induction {motive : Bytes → Prop} (nil : motive [])
    (mark : ∀ rest, motive rest → motive (0x2F :: 0x2E :: 0x2F :: rest))
    (cons : ∀ b rest, ¬[0x2F, 0x2E, 0x2F] <+: b :: rest → motive rest → motive (b :: rest)) (path : Bytes) :
    motive path := by
  induction hn : path.length using Nat.strong_induction_on generalizing path with
  | _ n ih =>
    by_cases h : [0x2F, 0x2E, 0x2F] <+: path
    · obtain ⟨rest, rfl⟩ := h
      have hlength : rest.length < n := by
        rw [← hn, List.length_append]
        exact Nat.lt_add_of_pos_left (by decide)
      exact mark rest (ih _ hlength rest rfl)
    · cases path with
      | nil => exact nil
      | cons b rest => exact cons b rest h (ih _ (hn ▸ Nat.lt_succ_self _) rest rfl)

theorem simplify_head (b : UInt8) (rest : Bytes) : ∃ tail, simplify (b :: rest) = b :: tail := by
  by_cases h : [0x2F, 0x2E, 0x2F] <+: b :: rest
  · obtain ⟨tail, hpath⟩ := h
    rw [← hpath]
    cases hpath
    exact ⟨_, simplify_mark tail⟩
  · exact ⟨_, simplify_cons h⟩

/-- two texts with the same first segment, and behind it the same segments but for those that are
skipped -/
def Alike (a b : List Bytes) : Prop :=
  a.head? = b.head? ∧ (a.tail.filter fun s => ¬IsSkip s) = b.tail.filter fun s => ¬IsSkip s

theorem Alike.filter {a b : List Bytes} (h : Alike a b) :
    (a.filter fun s => ¬IsSkip s) = b.filter fun s => ¬IsSkip s := by
  obtain ⟨hhead, htail⟩ := h
  cases a with
  | nil =>
    cases b with
    | nil => rfl
    | cons t b => cases hhead
  | cons s a =>
    cases b with
    | nil => cases hhead
    | cons t b =>
      cases hhead
      rw [List.filter_cons, List.filter_cons]
      exact congrArg (fun rest => if decide (¬IsSkip s) = true then s :: rest else rest) htail

theorem splitOn_slash (rest : Bytes) : (0x2F :: rest).splitOn 0x2F = [] :: rest.splitOn 0x2F :=
  List.splitOn_append_cons_self [] rest

theorem splitOn_other {b : UInt8} (h : b ≠ 0x2F) (rest : Bytes) :
    (b :: rest).splitOn 0x2F = (rest.splitOn 0x2F).modifyHead (b :: ·) := by
  rw [List.splitOn_cons_eq_if_modifyHead, if_neg (by simpa using h)]

/-- a byte in front of both -/
theorem alike_cons (b : UInt8) {text text' : Bytes}
    (h : Alike (text.splitOn 0x2F) (text'.splitOn 0x2F)) :
    Alike ((b :: text).splitOn 0x2F) ((b :: text').splitOn 0x2F) := by
  by_cases hb : b = 0x2F
  · subst hb
    rw [splitOn_slash, splitOn_slash]
    exact ⟨rfl, h.filter⟩
  · rw [splitOn_other hb, splitOn_other hb]
    obtain ⟨s, rest, hs⟩ := List.exists_cons_of_ne_nil (List.splitOn_ne_nil 0x2F text)
    obtain ⟨t, rest', ht⟩ := List.exists_cons_of_ne_nil (List.splitOn_ne_nil 0x2F text')
    rw [hs, ht] at h ⊢
    obtain ⟨hhead, htail⟩ := h
    cases hhead
    exact ⟨rfl, htail⟩

theorem simplify_alike (path : Bytes) :
    Alike ((simplify path).splitOn 0x2F) (path.splitOn 0x2F) := by
  induction path using simplify_induction with
  | nil => exact ⟨rfl, rfl⟩
  | mark rest ih =>
    have hdot : (0x2E :: 0x2F :: rest).splitOn 0x2F = dot :: rest.splitOn 0x2F := by
      rw [splitOn_other (by decide), splitOn_slash]
      rfl
    rw [simplify_mark, splitOn_slash, splitOn_slash, hdot]
    refine ⟨rfl, ?_⟩
    show _ = List.filter (fun s => ¬IsSkip s) (dot :: rest.splitOn 0x2F)
    rw [List.filter_cons_of_neg (by decide)]
    exact ih.filter
  | cons b rest hmark ih =>
    rw [simplify_cons hmark]
    exact alike_cons b ih

/-- behind a separator the segments that are left stay the same -/
theorem simplify_slash (rest : Bytes) :
    ∃ rest', simplify (0x2F :: rest) = 0x2F :: rest' ∧ resolved rest' = resolved rest := by
  obtain ⟨rest', hrest⟩ := simplify_head 0x2F rest
  refine ⟨rest', hrest, ?_⟩
  have halike := simplify_alike (0x2F :: rest)
  rw [hrest, splitOn_slash, splitOn_slash] at halike
  exact resolve_filter halike.2

/-- where two separators meet, two still meet -/
theorem simplify_meet (h : [0x2F, 0x2F] <:+: path) : [0x2F, 0x2F] <:+: simplify path := by
  induction path using simplify_induction with
  | nil => exact h
  | mark rest ih =>
    rw [simplify_mark]
    rcases List.infix_cons_iff.1 h with hprefix | hin
    · obtain ⟨tail, htail⟩ := hprefix
      cases htail
    · rcases List.infix_cons_iff.1 hin with hprefix | hin
      · obtain ⟨tail, htail⟩ := hprefix
        cases htail
      · rcases List.infix_cons_iff.1 hin with hprefix | hin
        · obtain ⟨tail, htail⟩ := hprefix
          cases htail
          obtain ⟨tail', htail'⟩ := simplify_head 0x2F tail
          exact ⟨[], tail', congrArg (0x2F :: ·) htail'.symm⟩
        · exact (ih hin).trans (List.infix_cons (List.infix_refl _))
  | cons b rest hmark ih =>
    rw [simplify_cons hmark]
    rcases List.infix_cons_iff.1 h with hprefix | hin
    · obtain ⟨tail, htail⟩ := hprefix
      cases htail
      obtain ⟨tail', htail'⟩ := simplify_head 0x2F tail
      exact ⟨[], tail', congrArg (0x2F :: ·) htail'.symm⟩
    · exact (ih hin).trans (List.infix_cons (List.infix_refl _))

/-! ## the separator at the end -/

theorem slashed_of_last {root : Bytes} (h : root.getLast? = some 0x2F) : slashed root = root := if_pos h

theorem slashed_last (root : Bytes) : (slashed root).getLast? = some 0x2F := by
  unfold slashed
  split
  next h => exact h
  next => exact List.getLast?_concat

theorem slashed_ne_nil (root : Bytes) : slashed root ≠ [] := by
  intro hnil
  have hlast := slashed_last root
  rw [hnil] at hlast
  cases hlast

theorem finishRoot_root (hne : path ≠ []) (h : rootLength path = path.length) :
    finishRoot path = slashed path := by
  have hlen := List.length_pos_of_ne_nil hne
  unfold finishRoot slashed
  dsimp only
  rw [if_neg (by omega)]
  by_cases hlast : path.getLast? = some 0x2F
  · rw [if_neg (fun hbare => hbare.2.2 hlast), if_pos hlast]
  · rw [if_pos ⟨h.symm, by omega, hlast⟩, if_neg hlast]

theorem finishRoot_behind (hne : rest ≠ [])
    (h : rootLength (root ++ rest) < (root ++ rest).length) :
    finishRoot (root ++ rest) = root ++ trimSlash rest := by
  unfold finishRoot trimSlash
  dsimp only
  rw [List.getLast?_append_of_ne_nil root hne]
  by_cases hlast : rest.getLast? = some 0x2F
  · rw [if_pos ⟨h, hlast⟩, if_pos hlast, List.dropLast_append_of_ne_nil hne]
  · rw [if_neg (fun hslash => hlast hslash.2), if_neg (by omega), if_neg hlast]

/-- a path that is only a root: it has no segments -/
theorem joined_bare (hroot : rootLength path = path.length) :
    Joined path = slashed path ∧ resolved (path.drop (rootLength path)) = [] := by
  have hrest : path.drop (rootLength path) = [] := List.drop_eq_nil_of_le (Nat.le_of_eq hroot.symm)
  have htake : path.take (rootLength path) = path := List.take_of_length_le (Nat.le_of_eq hroot.symm)
  rw [Joined, hrest, htake, resolved_nil]
  exact ⟨List.append_nil _, rfl⟩

theorem joined_shape (h : Shape root rest) :
    Joined (root ++ rest) = root ++ [0x2F].intercalate (resolved rest) := by
  rw [Joined, rootLength_shape h, List.take_left, List.drop_left, slashed_of_last h.getLast]

theorem rootLength_slashed (h : Shape (path ++ [0x2F]) [])
    (hroot : rootLength path = path.length) : rootLength (slashed path) = (slashed path).length := by
  unfold slashed
  split
  next => exact hroot
  next =>
    have := rootLength_shape h
    rw [List.append_nil] at this
    exact this

theorem finishRoot_slashed (h : rootLength (slashed path) = (slashed path).length) :
    finishRoot (slashed path) = slashed path := by
  rw [finishRoot_root (slashed_ne_nil path) h, slashed_of_last (slashed_last path)]

theorem Shape.ne_nil (h : Shape root rest) : root ≠ [] := by
  rintro rfl
  cases h.getLast

/-- behind the root of a path without relative segments there are none, and no separator is the first -/
theorem plain_behind (h : Shape root rest) (hplain : hasRelativeSegment (root ++ rest) = false) :
    hasRelativeSegment rest = false ∧ rest.head? ≠ some 0x2F := by
  obtain ⟨hslashes, hdots⟩ := plain_iff.1 hplain
  obtain ⟨before, hbefore⟩ := List.getLast?_eq_some_iff.1 h.getLast
  have hpath : root ++ rest = before ++ 0x2F :: rest := by
    rw [hbefore, List.append_assoc, List.singleton_append]
  refine ⟨plain_iff.2 ⟨fun hin => hslashes (hin.trans (List.suffix_append root rest).isInfix), ?_⟩, ?_⟩
  · intro s hs
    apply hdots
    rw [hpath, List.splitOn_append_cons_self]
    exact List.mem_append_right _ hs
  · intro hhead
    obtain ⟨tail, rfl⟩ := List.head?_eq_some_iff.1 hhead
    exact hslashes ⟨before, tail, by rw [hpath]; simp⟩

/-- **A path without relative segments** is its root and segments, but for a separator at its end. -/
theorem finishRoot_plain (h : Rooted path) (hplain : hasRelativeSegment path = false) :
    finishRoot path = Joined path := by
  cases h with
  | bare hne h hroot => rw [finishRoot_root hne hroot, (joined_bare hroot).1]
  | @shape root rest h =>
    have hroot := rootLength_shape h
    rw [joined_shape h]
    by_cases hrest : rest = []
    · subst hrest
      rw [List.append_nil] at hroot ⊢
      rw [finishRoot_root _ hroot, slashed_of_last h.getLast]
      · exact (List.append_nil root).symm
      · exact h.ne_nil
    · have hlen := List.length_pos_of_ne_nil hrest
      obtain ⟨hbehind, hhead⟩ := plain_behind h hplain
      obtain ⟨hslashes, hdots⟩ := plain_iff.1 hbehind
      rw [finishRoot_behind hrest (by rw [hroot, List.length_append]; omega), resolved_of_plain hslashes hhead hdots]

/-- a path without two separators that meet has a root of one separator -/
theorem simple_root (h : Shape root rest) (hslashes : ¬[0x2F, 0x2F] <:+: root) :
    ∃ before, root = before ++ [0x2F] ∧ (0x2F ∉ before ∧ before ≠ dot ∧ before ≠ dotDot) ∧
      (∀ rest', ¬[0x2E, 0x2F] <+: root ++ rest') ∧ ∀ rest', rest'.head? ≠ some 0x2F → Shape root rest' := by
  have hmark : [0x2F, 0x2F] <:+: schemeMark := by decide
  cases h with
  | slash =>
    refine ⟨[], rfl, by decide, fun rest' hdot => ?_, fun rest' h => Shape.slash h⟩
    obtain ⟨tail, htail⟩ := hdot
    cases htail
  | server => exact absurd ⟨[], _, rfl⟩ hslashes
  | @volume c _ h =>
    refine ⟨[c, 0x3A], rfl, ⟨?_, ?_, ?_⟩, fun rest' hdot => ?_, fun rest' _ => Shape.volume h⟩
    · simp [(isAlphabetic_ne_slash h).symm]
    · simp [dot]
    · simp [dotDot]
    · obtain ⟨tail, htail⟩ := hdot
      cases htail
  | dynamic =>
    refine ⟨[0x5E], rfl, by decide, fun rest' hdot => ?_, fun rest' _ => Shape.dynamic⟩
    obtain ⟨tail, htail⟩ := hdot
    cases htail
  | @url scheme authority =>
    refine absurd (hmark.trans ⟨scheme, authority ++ [0x2F], ?_⟩) hslashes
    simp only [List.append_assoc]
  | @urlVolume scheme authority segment =>
    refine absurd (hmark.trans ⟨scheme, authority ++ 0x2F :: (segment ++ [0x2F]), ?_⟩) hslashes
    simp only [List.append_assoc]

theorem simplify_before {before : Bytes} (h : 0x2F ∉ before) (rest : Bytes) :
    simplify (before ++ rest) = before ++ simplify rest := by
  induction before with
  | nil => rfl
  | cons b before ih =>
    rw [List.mem_cons, not_or] at h
    rw [List.cons_append, simplify_cons, ih h.2]
    · rfl
    · intro hmark
      obtain ⟨tail, htail⟩ := hmark
      exact h.1 (List.cons.inj htail).1

theorem concat_inj {a b : Bytes} (h : a ++ [0x2F] = b ++ [0x2F]) : a = b :=
  List.append_cancel_right h

/-- a letter and a colon, and nothing more -/
def BareDrive (path : Bytes) : Prop := ∃ c, isAlphabetic c = true ∧ path = [c, 0x3A]

/-- a root that lacks its separator is a drive, or holds two that meet -/
theorem bare_cases (hne : path ≠ []) (h : Shape (path ++ [0x2F]) [])
    (hroot : rootLength path = path.length) : [0x2F, 0x2F] <:+: path ∨ BareDrive path := by
  have hmark : [0x2F, 0x2F] <:+: schemeMark := by decide
  generalize hwhole : path ++ [0x2F] = whole at h
  cases h with
  | slash => exact absurd (List.append_left_eq_self.1 hwhole) hne
  | @server server =>
    have hpath : path = 0x2F :: 0x2F :: server := concat_inj hwhole
    exact Or.inl ⟨[], server, hpath.symm⟩
  | @volume c _ hc =>
    have hpath : path = [c, 0x3A] := concat_inj hwhole
    exact Or.inr ⟨c, hc, hpath⟩
  | dynamic =>
    have hpath : path = [0x5E] := concat_inj hwhole
    rw [hpath] at hroot
    exact absurd hroot (by decide)
  | @url scheme authority =>
    have hpath : path = scheme ++ schemeMark ++ authority := List.append_cancel_right hwhole
    exact Or.inl (hmark.trans ⟨scheme, authority, hpath.symm⟩)
  | @urlVolume scheme authority segment =>
    have hpath : path = scheme ++ schemeMark ++ (authority ++ 0x2F :: segment) := by
      apply concat_inj
      rw [hwhole]
      simp
    exact Or.inl (hmark.trans ⟨scheme, _, hpath.symm⟩)

/-- a root that lacks its separator is left as it is -/
theorem simplify_bare (hne : path ≠ []) (h : Shape (path ++ [0x2F]) [])
    (hroot : rootLength path = path.length) (hslashes : ¬[0x2F, 0x2F] <:+: path) :
    simplify path = path ∧ stripDot path = path := by
  rcases bare_cases hne h hroot with hin | ⟨c, hc, rfl⟩
  · exact absurd hin hslashes
  · refine ⟨rfl, if_neg fun hdot => ?_⟩
    obtain ⟨tail, htail⟩ := hdot
    cases htail

/-- two separators that meet stay where a path is rewritten, so that it is not -/
theorem simplified_slashes (hplain : hasRelativeSegment (stripDot (simplify path)) = false)
    (hhead : ¬((stripDot (simplify path)).length ≠ (simplify path).length ∧
      (stripDot (simplify path)).head? = some 0x2F)) : ¬[0x2F, 0x2F] <:+: simplify path := by
  intro hin
  unfold stripDot at hplain hhead
  by_cases hdot : [0x2E, 0x2F] <+: simplify path
  · rw [if_pos hdot] at hplain hhead
    obtain ⟨tail, htail⟩ := hdot
    rw [← htail] at hplain hhead hin
    have hdrop : ([0x2E, 0x2F] ++ tail).drop 2 = tail := rfl
    rw [hdrop] at hplain hhead
    rcases List.infix_cons_iff.1 hin with hprefix | hin
    · obtain ⟨_, hcontra⟩ := hprefix
      cases hcontra
    · rcases List.infix_cons_iff.1 hin with hprefix | hin
      · obtain ⟨more, hmore⟩ := hprefix
        cases hmore
        exact hhead ⟨by simp, rfl⟩
      · exact (plain_iff.1 hplain).1 hin
  · rw [if_neg hdot] at hplain
    exact (plain_iff.1 hplain).1 hin

/-- a rewritten path keeps its root and the segments that are left -/
theorem simplified_shape (h : Shape root rest)
    (hslashes : ¬[0x2F, 0x2F] <:+: simplify (root ++ rest)) :
    ∃ rest', stripDot (simplify (root ++ rest)) = root ++ rest' ∧ Shape root rest' ∧
      resolved rest' = resolved rest := by
  have hpath : ¬[0x2F, 0x2F] <:+: root ++ rest := fun hin => hslashes (simplify_meet hin)
  obtain ⟨before, hbefore, ⟨hnone, -⟩, hdot, hshape⟩ :=
    simple_root h (fun hin => hpath (hin.trans (List.prefix_append root rest).isInfix))
  obtain ⟨rest', hrest', hsame⟩ := simplify_slash rest
  have hsimple : simplify (root ++ rest) = root ++ rest' := by
    rw [hbefore, List.append_assoc, List.singleton_append, simplify_before hnone, hrest',
      List.append_assoc, List.singleton_append]
  have hstrip : stripDot (simplify (root ++ rest)) = root ++ rest' := by
    rw [hsimple, stripDot, if_neg (hdot rest')]
  refine ⟨rest', hstrip, hshape rest' ?_, hsame⟩
  intro hslash
  obtain ⟨tail, rfl⟩ := List.head?_eq_some_iff.1 hslash
  rw [hsimple, hbefore] at hslashes
  exact hslashes ⟨before, tail, by simp⟩

/-- **A path whose `/./` are all there is to resolve.** -/
theorem finishRoot_simplified (h : Rooted path)
    (hplain : hasRelativeSegment (stripDot (simplify path)) = false)
    (hhead : ¬((stripDot (simplify path)).length ≠ (simplify path).length ∧
      (stripDot (simplify path)).head? = some 0x2F)) :
    ¬[0x2F, 0x2F] <:+: path ∧ finishRoot (stripDot (simplify path)) = Joined path := by
  have hslashes := simplified_slashes hplain hhead
  have hpath : ¬[0x2F, 0x2F] <:+: path := fun hin => hslashes (simplify_meet hin)
  refine ⟨hpath, ?_⟩
  cases h with
  | bare hne h hroot =>
    obtain ⟨hsimple, hstrip⟩ := simplify_bare hne h hroot hpath
    rw [hsimple, hstrip] at hplain ⊢
    exact finishRoot_plain (Rooted.bare hne h hroot) hplain
  | @shape root rest h =>
    obtain ⟨rest', hstrip, hrooted, hsame⟩ := simplified_shape h hslashes
    rw [hstrip] at hplain ⊢
    rw [finishRoot_plain (Rooted.shape hrooted) hplain, joined_shape hrooted, joined_shape h, hsame]

/-! ## a path taken apart -/

/-- behind the root of a local file URL all segments come down to a volume -/
def BareVolume (path : Bytes) : Prop :=
  ∃ scheme authority, LocalFile scheme authority ∧
    path.take (rootLength path) = scheme ++ schemeMark ++ authority ++ [0x2F] ∧
      ∃ volume, IsVolume volume ∧ resolved (path.drop (rootLength path)) = [volume]

theorem rebuild_eq (h : rootLength path ≠ 0) :
    rebuild path =
      if path.getLast? = some 0x2F ∧ (Joined path).getLast? ≠ some 0x2F then Joined path ++ [0x2F]
      else Joined path := by
  have hroot := take_root_ne_nil h
  have hcomponents : ((path.drop (rootLength path)).splitOn 0x2F).foldl
      (pushComponent (path.take (rootLength path))) [] = resolved (path.drop (rootLength path)) :=
    foldl_resolve (pushComponent_step hroot) _
  have hslashed : (if path.take (rootLength path) ≠ [] ∧
      (path.take (rootLength path)).getLast? ≠ some 0x2F then path.take (rootLength path) ++ [0x2F]
      else path.take (rootLength path)) = slashed (path.take (rootLength path)) := by
    unfold slashed
    by_cases hlast : (path.take (rootLength path)).getLast? = some 0x2F
    · rw [if_neg (fun hbare => hbare.2 hlast), if_pos hlast]
    · rw [if_pos ⟨hroot, hlast⟩, if_neg hlast]
  have hne : Joined path ≠ [] := List.append_ne_nil_of_left_ne_nil (slashed_ne_nil _) _
  unfold rebuild
  dsimp only
  rw [hcomponents, hslashed]
  by_cases hlast : path.getLast? = some 0x2F ∧ (Joined path).getLast? ≠ some 0x2F
  · rw [if_pos hlast]
    exact if_pos ⟨hne, hlast⟩
  · rw [if_neg hlast]
    exact if_neg fun hall => hlast hall.2

/-- the root of a local file URL and what stands behind it -/
theorem rootLength_local {scheme authority : Bytes} (h : LocalFile scheme authority) (rest : Bytes) :
    rootLength (scheme ++ schemeMark ++ authority ++ [0x2F] ++ rest) =
      (scheme ++ schemeMark ++ authority ++ [0x2F]).length + volumeLength rest := by
  have hscheme : IsScheme scheme := h.1 ▸ isScheme_file
  have hauthority : 0x2F ∉ authority := by
    rcases h.2 with rfl | rfl <;> decide
  have hpath : scheme ++ schemeMark ++ authority ++ [0x2F] ++ rest =
      scheme ++ schemeMark ++ authority ++ 0x2F :: rest := by simp
  obtain ⟨hleads, hstop⟩ := hscheme.path (authority ++ 0x2F :: rest)
  rw [← List.append_assoc] at hleads hstop
  rw [hpath, rootLength_url hleads hstop, urlRootLength_split hauthority, if_pos h,
    List.length_append, url_authority]
  rfl

/-- a text behind a root that is found again, with the separator that the text may end with -/
theorem finishRoot_tail {root text tail : Bytes} (htext : text ≠ []) (hlast : text.getLast? ≠ some 0x2F)
    (htail : tail = [] ∨ tail = [0x2F])
    (hroot : rootLength (root ++ (text ++ tail)) < (root ++ (text ++ tail)).length) :
    finishRoot (root ++ (text ++ tail)) = root ++ text := by
  rw [finishRoot_behind (List.append_ne_nil_of_left_ne_nil htext _) hroot]
  rcases htail with rfl | rfl
  · rw [List.append_nil, trimSlash, if_neg hlast]
  · rw [trimSlash_concat]

/-- a volume and nothing more behind the root of a local file URL is taken for a part of the root -/
theorem finishRoot_volume {scheme authority volume tail : Bytes} (h : LocalFile scheme authority)
    (hvolume : IsVolume volume) (htail : tail = [] ∨ tail = [0x2F]) :
    finishRoot (scheme ++ schemeMark ++ authority ++ [0x2F] ++ (volume ++ tail)) =
      scheme ++ schemeMark ++ authority ++ [0x2F] ++ volume ++ [0x2F] := by
  have hroot := rootLength_local h (volume ++ tail)
  have hlast : volume.getLast? ≠ some 0x2F := fun heq => hvolume.no_slash (List.mem_of_getLast? heq)
  have hne : volume ≠ [] := by
    obtain ⟨c, -, rfl | rfl | rfl⟩ := hvolume <;> exact List.cons_ne_nil _ _
  have hwhole : volumeLength (volume ++ tail) = (volume ++ tail).length := by
    rcases htail with rfl | rfl
    · rw [List.append_nil, volumeLength_self hvolume]
    · rw [volumeLength_append hvolume, List.length_append]
      rfl
  rw [hwhole, ← List.length_append] at hroot
  rw [finishRoot_root (List.append_ne_nil_of_right_ne_nil _ (List.append_ne_nil_of_left_ne_nil hne _))
    hroot, slashed]
  rcases htail with rfl | rfl
  · rw [List.append_nil, List.getLast?_append_of_ne_nil _ hne, if_neg hlast]
  · rw [← List.append_assoc, List.getLast?_concat, if_pos rfl]

theorem not_bareVolume (h : resolved (path.drop (rootLength path)) = []) :
    ¬BareVolume path := by
  intro hvolume
  obtain ⟨scheme, authority, -, -, volume, -, hparts⟩ := hvolume
  rw [h] at hparts
  cases hparts

theorem bareVolume_shape (h : Shape root rest) :
    BareVolume (root ++ rest) ↔ ∃ scheme authority, LocalFile scheme authority ∧
      root = scheme ++ schemeMark ++ authority ++ [0x2F] ∧
        ∃ volume, IsVolume volume ∧ resolved rest = [volume] := by
  rw [BareVolume, rootLength_shape h, List.take_left, List.drop_left]

/-- a root before the segments that are left, with or without a separator at the end: only where they
are a volume behind the root of a local file URL is one at the end of the result -/
theorem finishRoot_segments {root rest tail s : Bytes} {more : List Bytes} (h : Shape root rest)
    (hparts : resolved rest = s :: more) (htail : tail = [] ∨ tail = [0x2F]) :
    (BareVolume (root ++ rest) ∧
        finishRoot (root ++ ([0x2F].intercalate (s :: more) ++ tail)) =
          root ++ [0x2F].intercalate (s :: more) ++ [0x2F]) ∨
      (¬BareVolume (root ++ rest) ∧
        finishRoot (root ++ ([0x2F].intercalate (s :: more) ++ tail)) =
          root ++ [0x2F].intercalate (s :: more)) := by
  have hplain := resolved_plain rest
  rw [hparts] at hplain
  rw [bareVolume_shape h, hparts]
  generalize hjoin : [0x2F].intercalate (s :: more) = text
  have hhead := fun tail => hplain.joined_head tail (List.cons_ne_nil s more)
  have hlast := hplain.joined_last (List.cons_ne_nil s more)
  obtain ⟨hfirst, hfirst'⟩ := hplain.joined_first
  rw [hjoin] at hhead hlast hfirst hfirst'
  have htext : text ≠ [] := by
    rintro rfl
    exact (hplain s List.mem_cons_self).1 hfirst.symm
  have hsegment : firstSegment (text ++ tail) = s := by
    rcases htail with rfl | rfl
    · rw [List.append_nil, hfirst]
    · exact hfirst'
  have hlen : 0 < (text ++ tail).length := by
    rw [List.length_append]
    have := List.length_pos_of_ne_nil htext
    omega
  rcases h.replace (fun _ => hhead tail) with hshape | ⟨scheme, authority, hlocal, rfl, hvolume⟩
  · have hself := rootLength_shape hshape
    refine Or.inr ⟨?_, finishRoot_tail htext hlast htail (by rw [hself, List.length_append]; omega)⟩
    intro hex
    obtain ⟨scheme, authority, hlocal, rfl, volume, hvolume, hone⟩ := hex
    cases hone
    -- the volume would be a part of the root
    have hpos := volumeLength_pos (hsegment.symm ▸ hvolume)
    rw [rootLength_local hlocal] at hself
    omega
  · rw [hsegment] at hvolume
    by_cases hmore : more = []
    · subst hmore
      rw [List.intercalate_singleton] at hjoin
      subst hjoin
      exact Or.inl ⟨⟨scheme, authority, hlocal, rfl, s, hvolume, rfl⟩, finishRoot_volume hlocal hvolume htail⟩
    · have htail' : ∃ behind, behind ≠ [] ∧ text = s ++ 0x2F :: behind := by
        refine ⟨[0x2F].intercalate more, ?_, ?_⟩
        · intro hnil
          apply hlast
          rw [← hjoin, List.intercalate_cons_of_ne_nil hmore, hnil, List.append_nil]
          exact List.getLast?_concat
        · rw [← hjoin, List.intercalate_cons_of_ne_nil hmore, List.append_assoc]
          rfl
      obtain ⟨behind, hbehind, rfl⟩ := htail'
      have hroot : rootLength (scheme ++ schemeMark ++ authority ++ [0x2F] ++
          (s ++ 0x2F :: behind ++ tail)) < (scheme ++ schemeMark ++ authority ++ [0x2F] ++
          (s ++ 0x2F :: behind ++ tail)).length := by
        have hpos := List.length_pos_of_ne_nil hbehind
        have hwhole : s ++ 0x2F :: behind ++ tail = s ++ 0x2F :: (behind ++ tail) := by
          rw [List.append_assoc, List.cons_append]
        rw [hwhole, rootLength_local hlocal, volumeLength_append hvolume]
        simp only [List.length_append, List.length_cons]
        omega
      refine Or.inr ⟨?_, finishRoot_tail htext hlast htail hroot⟩
      intro hex
      obtain ⟨_, _, _, _, volume, _, hone⟩ := hex
      exact hmore (List.cons.inj hone).2

theorem rootLength_root (h : Shape root rest) : rootLength root = root.length := by
  have hnone : ([] : Bytes).head? ≠ some 0x2F := by decide
  rcases h.replace (fun _ => hnone) with hshape | ⟨_, _, _, _, hvolume⟩
  · have := rootLength_shape hshape
    rw [List.append_nil] at this
    exact this
  · obtain ⟨c, -, hv | hv | hv⟩ := hvolume <;> cases hv

/-- **A root and segments, joined**: only a volume on its own behind the root of a local file URL is
given another separator. -/
theorem finishRoot_joined (h : Rooted path) :
    (BareVolume path ∧ finishRoot (Joined path) = Joined path ++ [0x2F]) ∨
      (¬BareVolume path ∧ finishRoot (Joined path) = Joined path) := by
  cases h with
  | bare hpath h hroot =>
    obtain ⟨hjoined, hparts⟩ := joined_bare hroot
    rw [hjoined]
    exact Or.inr ⟨not_bareVolume hparts, finishRoot_slashed (rootLength_slashed h hroot)⟩
  | @shape root rest h =>
    rw [joined_shape h]
    cases hparts : resolved rest with
    | nil =>
      have hnone : ¬BareVolume (root ++ rest) := by
        apply not_bareVolume
        rw [rootLength_shape h, List.drop_left, hparts]
      rw [List.intercalate_nil, List.append_nil, finishRoot_root h.ne_nil (rootLength_root h),
        slashed_of_last h.getLast]
      exact Or.inr ⟨hnone, rfl⟩
    | cons s more =>
      have hself := finishRoot_segments h hparts (Or.inl rfl)
      rw [List.append_nil] at hself
      exact hself

/-- **A path taken apart** and put together is finished as its root and segments are. -/
theorem finishRoot_rebuild (h : Rooted path) (hne : rootLength path ≠ 0) :
    finishRoot (rebuild path) = finishRoot (Joined path) := by
  rw [rebuild_eq hne]
  split
  next hslash =>
    cases h with
    | bare hpath h hroot =>
      rw [(joined_bare hroot).1] at hslash
      exact absurd (slashed_last path) hslash.2
    | @shape root rest h =>
      rw [joined_shape h] at hslash ⊢
      cases hparts : resolved rest with
      | nil =>
        rw [hparts, List.intercalate_nil, List.append_nil] at hslash
        exact absurd h.getLast hslash.2
      | cons s more =>
        have hwith := finishRoot_segments h hparts (Or.inr rfl)
        have hwithout := finishRoot_segments h hparts (Or.inl rfl)
        rw [List.append_nil] at hwithout
        rw [List.append_assoc]
        rcases hwith with ⟨hvolume, hwith⟩ | ⟨hvolume, hwith⟩
        · rcases hwithout with ⟨-, hwithout⟩ | ⟨hnone, -⟩
          · exact hwith.trans hwithout.symm
          · exact absurd hvolume hnone
        · rcases hwithout with ⟨hsome, -⟩ | ⟨-, hwithout⟩
          · exact absurd hsome hvolume
          · exact hwith.trans hwithout.symm
  next => rfl

/-! ## the four normalisers -/

/-- no two separators meet in the root of a path of a file URL -/
theorem BareVolume.slashes (h : BareVolume path) : [0x2F, 0x2F] <:+: path := by
  obtain ⟨scheme, authority, -, hroot, -⟩ := h
  have hmark : [0x2F, 0x2F] <:+: schemeMark := by decide
  have hin : [0x2F, 0x2F] <:+: path.take (rootLength path) := by
    rw [hroot]
    refine hmark.trans ⟨scheme, authority ++ [0x2F], ?_⟩
    simp only [List.append_assoc]
  exact hin.trans (List.take_prefix _ _).isInfix

/-- **What `absolute` gives** is the root and the segments that are left, finished. -/
theorem normalize_finish (hnormal : 0x5C ∉ path) (hne : rootLength path ≠ 0) :
    finishRoot (normalize path) = finishRoot (Joined path) := by
  have hrooted := rooted_of_rootLength hnormal hne
  -- where nothing is left to resolve the path is no file URL
  have hsimple : ∀ text, finishRoot text = Joined path → ¬[0x2F, 0x2F] <:+: path →
      finishRoot text = finishRoot (Joined path) := by
    intro text htext hslashes
    rcases finishRoot_joined hrooted with ⟨hvolume, -⟩ | ⟨-, hjoined⟩
    · exact absurd hvolume.slashes hslashes
    · exact htext.trans hjoined.symm
  unfold normalize
  rw [normalizeSlashes_of_not_mem hnormal]
  dsimp only
  by_cases hplain : hasRelativeSegment path = false
  · rw [if_pos hplain]
    exact hsimple _ (finishRoot_plain hrooted hplain) (plain_iff.1 hplain).1
  · rw [if_neg hplain]
    split
    next hrewrite =>
      obtain ⟨hslashes, hjoined⟩ := finishRoot_simplified hrooted hrewrite.2.1 hrewrite.2.2
      exact hsimple _ hjoined hslashes
    next => exact finishRoot_rebuild hrooted hne

theorem joined_iff (hnormal : 0x5C ∉ path) (hne : rootLength path ≠ 0) :
    finishRoot (normalize path) = Joined path ↔ ¬BareVolume path := by
  rw [normalize_finish hnormal hne]
  rcases finishRoot_joined (rooted_of_rootLength hnormal hne) with ⟨hvolume, hfinish⟩ | ⟨hnone, hfinish⟩
  · rw [hfinish]
    exact ⟨fun hsame => absurd hsame (by simp), fun hnone => absurd hvolume hnone⟩
  · exact ⟨fun _ => hnone, fun _ => hfinish⟩

theorem normalize_normalizeSlashes (path : Bytes) : normalize (normalizeSlashes path) = normalize path := by
  unfold normalize
  rw [normalizeSlashes_idem]

theorem ne_nil_of_rootLength (h : rootLength path ≠ 0) : path ≠ [] := by
  rintro rfl
  exact h rootLength_nil

/-- a rooted file stands alone -/
theorem combine_rooted {file : Bytes} (cwd : Bytes) (h : rootLength file ≠ 0) :
    combine cwd [file] = normalizeSlashes file := by
  show combineStep (normalizeSlashes cwd) file = _
  rw [combineStep, if_neg (ne_nil_of_rootLength h)]
  exact if_pos (Or.inr (rootLength_normalizeSlashes h))

/-- with a rooted current directory `absolute` normalises the combined path -/
theorem absolute_eq {cwd : Bytes} (file : Bytes) (h : rootLength cwd ≠ 0) :
    absolute file cwd = finishRoot (normalize (combine cwd [file])) := by
  rw [absolute]
  by_cases hfile : rootLength file = 0
  · rw [if_pos ⟨hfile, ne_nil_of_rootLength h⟩]
  · rw [if_neg (fun hrel => hfile hrel.1), combine_rooted cwd hfile, normalize_normalizeSlashes]

theorem pathFromComponents_eq {root : Bytes} (hne : root ≠ []) (hnormal : 0x5C ∉ root)
    (parts : List Bytes) :
    pathFromComponents (root :: parts) = slashed root ++ [0x2F].intercalate parts := by
  have hback : root.getLast? ≠ some 0x5C := fun heq => hnormal (List.mem_of_getLast? heq)
  rw [pathFromComponents, slashed]
  by_cases hlast : root.getLast? = some 0x2F
  · rw [if_neg (fun hbare => hbare.2 (Or.inl hlast)), if_pos hlast]
  · rw [if_pos ⟨hne, fun hsep => hsep.elim hlast hback⟩, if_neg hlast]

theorem pathFromComponents_normalized {file cwd : Bytes} (h : rootLength (combine cwd [file]) ≠ 0) :
    pathFromComponents (normalizedComponents file cwd) = Joined (combine cwd [file]) := by
  have hnormal : 0x5C ∉ (combine cwd [file]).take (rootLength (combine cwd [file])) :=
    fun hmem => combine_normal cwd file (List.mem_of_mem_take hmem)
  rw [normalizedComponents_eq h, pathFromComponents_eq (take_root_ne_nil h) hnormal]
  rfl

/-- **The four normalisers agree** on every file and every rooted current directory, but where the
combined path is a local file URL whose segments come down to a volume. -/
theorem normalizers_agree_iff (file cwd : Bytes) (h : rootLength cwd ≠ 0) :
    (absolute file cwd = pathFromComponents (normalizedComponents file cwd) ∧
        (∃ components, pathComponents file cwd = some components ∧
          normalizedComponents file cwd = reducePathComponents components) ∧
        normalizedComponents file cwd = normalizedComponentsFromCombined (combine cwd [file])) ↔
      ¬BareVolume (combine cwd [file]) := by
  have hroot := rootLength_combine file h
  have habsolute : absolute file cwd = pathFromComponents (normalizedComponents file cwd) ↔
      ¬BareVolume (combine cwd [file]) := by
    rw [absolute_eq file h, pathFromComponents_normalized hroot]
    exact joined_iff (combine_normal cwd file) hroot
  obtain ⟨components, hcomponents, hreduce⟩ := reducePathComponents_eq hroot
  constructor
  · exact fun hall => habsolute.1 hall.1
  · intro hvolume
    refine ⟨habsolute.2 hvolume, ⟨components, hcomponents, ?_⟩, ?_⟩
    · rw [hreduce, normalizedComponents_eq hroot]
    · rw [normalizedComponents_eq hroot, normalizedComponentsFromCombined_eq hroot]

/-- `file:///./c:` -/
def bareVolume : Bytes := [0x66, 0x69, 0x6C, 0x65, 0x3A, 0x2F, 0x2F, 0x2F, 0x2E, 0x2F, 0x63, 0x3A]

/-- `/../a` under `/` -/
theorem normalizers_agree_parent :
    rootLength [0x2F] ≠ 0 ∧ ((absolute [0x2E, 0x2E, 0x2F, 0x61] [0x2F] =
        pathFromComponents (normalizedComponents [0x2E, 0x2E, 0x2F, 0x61] [0x2F]) ∧
      (∃ components, pathComponents [0x2E, 0x2E, 0x2F, 0x61] [0x2F] = some components ∧
        normalizedComponents [0x2E, 0x2E, 0x2F, 0x61] [0x2F] = reducePathComponents components) ∧
      normalizedComponents [0x2E, 0x2E, 0x2F, 0x61] [0x2F] =
        normalizedComponentsFromCombined (combine [0x2F] [[0x2E, 0x2E, 0x2F, 0x61]])) ↔
      ¬BareVolume (combine [0x2F] [[0x2E, 0x2E, 0x2F, 0x61]])) :=
  ⟨by decide, normalizers_agree_iff _ _ (by decide)⟩

/-- the volume is given the separator of a root that it is not -/
theorem normalizers_differ :
    ¬∀ file cwd : Bytes, rootLength cwd ≠ 0 →
      absolute file cwd = pathFromComponents (normalizedComponents file cwd) ∧
        (∃ components, pathComponents file cwd = some components ∧
          normalizedComponents file cwd = reducePathComponents components) ∧
        normalizedComponents file cwd = normalizedComponentsFromCombined (combine cwd [file]) := by
  intro h
  have habsolute := (h bareVolume [0x2F] (by decide)).1
  exact absurd habsolute (by decide)

end Tsr.Tspath
