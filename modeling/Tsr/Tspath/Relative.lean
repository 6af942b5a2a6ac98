import Tsr.Tspath.NormalizeSound
import Tsr.Jsstring.SimpleFold

/-!
# Relative paths

The way from a directory to a path: up from what the two do not share, and down again.

* `relativeToDirectoryOrUrl`, `relativeFromDirectory`, `pathComponentsRelativeTo`;
* `absolute_relative`   a relative path, taken from the directory it was computed from, leads back.
-/

namespace Tsr.Tspath
open Tsr.Json (Bytes)
open Tsr.Segments
open Tsr.Jsstring (SimpleFold equalFold equalFold_refl)

variable (table : SimpleFold)

/-- roots are compared without regard to case -/
def sameComponent (caseSensitive : Bool) (index : Nat) (left right : Bytes) : Bool :=
  if index = 0 || !caseSensitive then equalFold table left right == some true else left == right

/-- how many components from `index` on the two share -/
def commonComponents (caseSensitive : Bool) : Nat → List Bytes → List Bytes → Nat
  | index, left :: lefts, right :: rights =>
    if sameComponent table caseSensitive index left right then
      commonComponents caseSensitive (index + 1) lefts rights + 1
    else 0
  | _, _, _ => 0

/-- `file://` or `file:///` before a root -/
def urlRoot (root : Bytes) : Bytes :=
  if root.head? = some 0x2F then fileScheme ++ schemeMark ++ root
  else fileScheme ++ schemeMark ++ 0x2F :: root

def relativeToDirectoryOrUrl (source target : Bytes) (absolutePathAsUrl : Bool) (cwd : Bytes)
    (caseSensitive : Bool) : Bytes :=
  let source := normalizedComponents source cwd
  let target := normalizedComponents target cwd
  let common := commonComponents table caseSensitive 0 source target
  if common = 0 then
    if absolutePathAsUrl && 0 < encodedRootLength (target.headD []) then
      pathFromComponents (urlRoot (target.headD []) :: target.tail)
    else pathFromComponents target
  else pathFromComponents ([] :: (List.replicate (source.length - common) dotDot ++ target.drop common))

/-- paths of which one is rooted and the other is not end the process -/
def relativeFromDirectory (source target cwd : Bytes) (caseSensitive : Bool) : Option Bytes :=
  if decide (0 < rootLength source) = decide (0 < rootLength target) then
    some (relativeToDirectoryOrUrl table source target false cwd caseSensitive)
  else none

def pathComponentsRelativeTo (source target cwd : Bytes) (caseSensitive : Bool) :
    Option (List Bytes) := do
  let source := reducePathComponents (← pathComponents source cwd)
  let target := reducePathComponents (← pathComponents target cwd)
  let start := commonComponents table caseSensitive 0 source target
  some (if start = 0 then target
    else [] :: (List.replicate (source.length - start) dotDot ++ target.drop start))

/-! ## what two paths share -/

variable {table}

theorem commonComponents_take {index : Nat} (hindex : index ≠ 0) (left right : List Bytes) :
    left.take (commonComponents table true index left right) =
      right.take (commonComponents table true index left right) := by
  induction left generalizing index right with
  | nil => cases right <;> rfl
  | cons l left ih =>
    cases right with
    | nil => rfl
    | cons r right =>
      rw [commonComponents]
      split
      next hsame =>
        have heq : l = r := by
          rw [sameComponent, if_neg (by simp [hindex])] at hsame
          exact eq_of_beq hsame
        rw [List.take_succ_cons, List.take_succ_cons, heq, ih (Nat.succ_ne_zero index)]
      next => rfl

theorem commonComponents_le (caseSensitive : Bool) (index : Nat) (left right : List Bytes) :
    commonComponents table caseSensitive index left right ≤ left.length ∧
      commonComponents table caseSensitive index left right ≤ right.length := by
  induction left generalizing index right with
  | nil => cases right <;> exact ⟨Nat.zero_le _, Nat.zero_le _⟩
  | cons l left ih =>
    cases right with
    | nil => exact ⟨Nat.zero_le _, Nat.zero_le _⟩
    | cons r right =>
      rw [commonComponents, List.length_cons, List.length_cons]
      have := ih (index + 1) right
      split <;> omega

/-- the way up and down again -/
def between (table : SimpleFold) (source target : List Bytes) : List Bytes :=
  let common := commonComponents table true 1 source target
  List.replicate (source.length - common) dotDot ++ target.drop common

theorem foldl_up (n : Nat) (kept : List Bytes) :
    (List.replicate n dotDot).foldl (step IsSkip IsUp) kept = kept.take (kept.length - n) := by
  induction n generalizing kept with
  | zero => exact (List.take_length).symm
  | succ n ih =>
    have hskip : ¬IsSkip dotDot := by decide
    have hup : IsUp dotDot := rfl
    rw [List.replicate_succ, List.foldl_cons, step_up hskip hup, ih, List.length_dropLast,
      List.dropLast_eq_take, List.take_take]
    congr 1
    omega

/-- **Up and down again** leads from one list of segments to the other. -/
theorem foldl_between {source target : List Bytes} (h : ∀ s ∈ target, ¬IsSkip s ∧ ¬IsUp s) :
    (between table source target).foldl (step IsSkip IsUp) source = target := by
  have hle : commonComponents table true 1 source target ≤ source.length :=
    (commonComponents_le true 1 source target).1
  rw [between, List.foldl_append, foldl_up, foldl_step_plain]
  · have htake : source.length - (source.length - commonComponents table true 1 source target) =
        commonComponents table true 1 source target := by omega
    rw [htake, commonComponents_take Nat.one_ne_zero, List.take_append_drop]
  · exact fun s hs => h s (List.mem_of_mem_drop hs)

theorem resolved_target (rest : Bytes) : ∀ s ∈ resolved rest, ¬IsSkip s ∧ ¬IsUp s :=
  fun _ hs => (mem_resolve hs).2

theorem between_plain {source target : List Bytes} (h : Plain target) : Plain (between table source target) := by
  intro s hs
  rcases List.mem_append.1 hs with hup | hdown
  · rw [List.eq_of_mem_replicate hup]
    exact ⟨by decide, by decide⟩
  · exact h s (List.mem_of_mem_drop hdown)

/-- with nothing between them two lists are the same -/
theorem between_nil {source target : List Bytes} (h : between table source target = []) :
    source = target := by
  have hle : commonComponents table true 1 source target ≤ source.length ∧
      commonComponents table true 1 source target ≤ target.length := commonComponents_le true 1 source target
  obtain ⟨hup, hdown⟩ := List.append_eq_nil_iff.1 h
  have hsource := (List.replicate_eq_nil_iff dotDot).1 hup
  have htarget := List.drop_eq_nil_iff.1 hdown
  have hshared : source.take (commonComponents table true 1 source target) =
      target.take (commonComponents table true 1 source target) :=
    commonComponents_take Nat.one_ne_zero source target
  rw [List.take_of_length_le (by omega), List.take_of_length_le htarget] at hshared
  exact hshared

/-- from the root itself the way is the path -/
theorem between_first (target : List Bytes) : between table [] target = target := by
  cases target <;> rfl

/-- a relative path behind a directory: its segments are resolved against those of the directory -/
theorem resolved_behind (rest : Bytes) (segments : List Bytes) (hne : segments ≠ [])
    (hplain : Plain segments) :
    (rest = [] ∨ rest.getLast? = some 0x2F →
        resolved (rest ++ [0x2F].intercalate segments) =
          segments.foldl (step IsSkip IsUp) (resolved rest)) ∧
      resolved (rest ++ 0x2F :: [0x2F].intercalate segments) =
        segments.foldl (step IsSkip IsUp) (resolved rest) := by
  have hsplit : ([0x2F].intercalate segments).splitOn 0x2F = segments :=
    List.splitOn_intercalate 0x2F (fun s hs => (hplain s hs).2) hne
  have hslash : ∀ text : Bytes, resolved (text ++ 0x2F :: [0x2F].intercalate segments) =
      segments.foldl (step IsSkip IsUp) (resolved text) := by
    intro text
    rw [resolved, List.splitOn_append_cons_self, hsplit, resolve, List.foldl_append]
    rfl
  refine ⟨fun hrest => ?_, hslash rest⟩
  rcases hrest with rfl | hlast
  · rw [List.nil_append, resolved, hsplit]
    rfl
  · obtain ⟨text, rfl⟩ := List.getLast?_eq_some_iff.1 hlast
    rw [List.append_assoc, List.singleton_append, hslash, resolved_concat]

/-! ## behind the directory -/

/-- a root that lacks its separator, or one with a rest -/
theorem Rooted.split {path : Bytes} (h : Rooted path) :
    ∃ root rest, path = root ++ rest ∧ rootLength path = root.length ∧ (rest = [] ∨ Shape root rest) := by
  cases h with
  | bare _ _ hroot => exact ⟨_, [], (List.append_nil _).symm, hroot, Or.inl rfl⟩
  | @shape root rest h => exact ⟨root, rest, rfl, rootLength_shape h, Or.inr h⟩

/-- a volume at the start of what stands behind the root of a local file URL: the root takes it, and
the joined path stays as it is -/
theorem joined_volume {scheme authority rest : Bytes} (hlocal : LocalFile scheme authority)
    (hvolume : IsVolume (firstSegment rest)) {segments : List Bytes} (hne : segments ≠ [])
    (hsegments : ∀ s ∈ segments, ¬IsSkip s ∧ ¬IsUp s) (hplain : Plain segments)
    (hrest : rest = [0x2F].intercalate segments) :
    finishRoot (Joined (scheme ++ schemeMark ++ authority ++ [0x2F] ++ rest)) =
      finishRoot (scheme ++ schemeMark ++ authority ++ [0x2F] ++ rest) := by
  have hroot := rootLength_local hlocal rest
  obtain ⟨s, more, rfl⟩ := List.exists_cons_of_ne_nil hne
  have hfirst := hplain.joined_first.1
  rw [← hrest] at hfirst
  rw [hfirst] at hvolume
  by_cases hmore : more = []
  · subst hmore
    rw [List.intercalate_singleton] at hrest
    subst hrest
    have hwhole : rootLength (scheme ++ schemeMark ++ authority ++ [0x2F] ++ rest) =
        (scheme ++ schemeMark ++ authority ++ [0x2F] ++ rest).length := by
      rw [hroot, volumeLength_self hvolume, ← List.length_append]
    have hwithout := finishRoot_volume hlocal hvolume (Or.inl rfl)
    have hwith := finishRoot_volume hlocal hvolume (Or.inr rfl)
    rw [List.append_nil] at hwithout
    rw [← List.append_assoc] at hwith
    have hlast : (scheme ++ schemeMark ++ authority ++ [0x2F] ++ rest).getLast? ≠ some 0x2F := by
      rw [List.getLast?_append_of_ne_nil _ (hplain rest List.mem_cons_self).1]
      exact fun heq => hvolume.no_slash (List.mem_of_getLast? heq)
    rw [(joined_bare hwhole).1, slashed, if_neg hlast, hwith, hwithout]
  · rw [List.intercalate_cons_of_ne_nil hmore] at hrest
    have hpath : scheme ++ schemeMark ++ authority ++ [0x2F] ++ rest =
        scheme ++ schemeMark ++ authority ++ 0x2F :: (s ++ [0x2F]) ++ [0x2F].intercalate more := by
      rw [hrest]
      simp
    have hsame : resolved ([0x2F].intercalate more) = more := by
      rw [resolved, List.splitOn_intercalate 0x2F (fun t ht => (hplain t (List.mem_cons_of_mem _ ht)).2) hmore]
      exact resolve_plain fun t ht => hsegments t (List.mem_cons_of_mem _ ht)
    rw [hpath, joined_shape (Shape.urlVolume hlocal hvolume), hsame]

/-- what stands first stays first when more follows a separator -/
theorem firstSegment_behind {rest : Bytes} (more : Bytes) :
    firstSegment (rest ++ 0x2F :: more) = firstSegment rest := by
  rcases firstSegment_split rest with hself | ⟨tail, hsplit⟩
  · have hnone : 0x2F ∉ rest := by
      rw [hself]
      intro hmem
      exact absurd (List.mem_takeWhile_imp hmem) (by decide)
    rw [firstSegment_append hnone, firstSegment_of_not_mem hnone]
  · have hnone : 0x2F ∉ firstSegment rest := by
      intro hmem
      exact absurd (List.mem_takeWhile_imp hmem) (by decide)
    generalize firstSegment rest = first at hsplit hnone
    rw [hsplit, List.append_assoc, List.cons_append, firstSegment_append hnone]

/-- what a shape asks of the rest -/
theorem Shape.congr {root rest rest' : Bytes} (h : Shape root rest) (hhead : rest'.head? = rest.head?)
    (hfirst : firstSegment rest' = firstSegment rest) : Shape root rest' := by
  cases h with
  | slash h => exact Shape.slash (hhead ▸ h)
  | server h => exact Shape.server h
  | volume h => exact Shape.volume h
  | dynamic => exact Shape.dynamic
  | url hscheme h hrest => exact Shape.url hscheme h fun hlocal => hfirst ▸ hrest hlocal
  | urlVolume hlocal h => exact Shape.urlVolume hlocal h

/-- a shape stays where more follows a separator -/
theorem Shape.behind {root rest : Bytes} (h : Shape root rest) (hne : rest ≠ []) (more : Bytes) :
    Shape root (rest ++ 0x2F :: more) ∧
      (rest.getLast? = some 0x2F → Shape root (rest ++ more)) := by
  refine ⟨h.congr (List.head?_append_of_ne_nil _ hne) (firstSegment_behind more), fun hlast => ?_⟩
  obtain ⟨text, rfl⟩ := List.getLast?_eq_some_iff.1 hlast
  have htext : text ++ [0x2F] ++ more = text ++ 0x2F :: more := by
    rw [List.append_assoc, List.singleton_append]
  rw [htext]
  refine h.congr ?_ ?_
  · cases text <;> rfl
  · rw [firstSegment_behind more, firstSegment_behind []]

/-- the directory with a relative path behind it -/
def behind (directory relative : Bytes) : Bytes :=
  if directory.getLast? = some 0x2F then directory ++ relative else directory ++ 0x2F :: relative

/-- **Behind the directory**: the root stays, or takes a volume that stands first. -/
theorem joined_behind {root rest : Bytes} {segments target : List Bytes}
    (hrest : rest = [] ∨ Shape root rest) (hlast : root.getLast? = some 0x2F)
    (hroot : ∃ other, Shape root other) (hne : segments ≠ []) (hplain : Plain segments)
    (hsegments : segments.foldl (step IsSkip IsUp) (resolved rest) = target)
    (htarget : rest = [] → segments = target) (hplainTarget : ∀ s ∈ target, ¬IsSkip s ∧ ¬IsUp s) :
    finishRoot (Joined (behind (root ++ rest) ([0x2F].intercalate segments))) =
      finishRoot (root ++ [0x2F].intercalate target) := by
  have hresolved := resolved_behind rest segments hne hplain
  rw [hsegments] at hresolved
  by_cases hnil : rest = []
  · subst hnil
    have hbehind : behind (root ++ []) ([0x2F].intercalate segments) =
        root ++ [0x2F].intercalate segments := by
      rw [List.append_nil, behind, if_pos hlast]
    obtain ⟨other, hother⟩ := hroot
    have hhead := hplain.joined_head [] hne
    rw [List.append_nil] at hhead
    have hsame := htarget rfl
    subst hsame
    rw [hbehind]
    rcases hother.replace (fun _ => hhead) with hshape | ⟨scheme, authority, hlocal, rfl, hvolume⟩
    · have hself := hresolved.1 (Or.inl rfl)
      rw [List.nil_append] at hself
      rw [joined_shape hshape, hself]
    · exact joined_volume hlocal hvolume hne hplainTarget hplain rfl
  · have hshape := hrest.resolve_left hnil
    have hboth := hshape.behind hnil ([0x2F].intercalate segments)
    have hend : (root ++ rest).getLast? = rest.getLast? := List.getLast?_append_of_ne_nil _ hnil
    rw [behind, hend]
    split
    next hslash =>
      rw [List.append_assoc, joined_shape (hboth.2 hslash), hresolved.1 (Or.inr hslash)]
    next =>
      rw [List.append_assoc, joined_shape hboth.1, hresolved.2]

/-! ## the way back -/

theorem pathFromComponents_relative (parts : List Bytes) :
    pathFromComponents ([] :: parts) = [0x2F].intercalate parts := rfl

theorem commonComponents_root (root : Bytes) (parts parts' : List Bytes) :
    commonComponents table true 0 (root :: parts) (root :: parts') =
      commonComponents table true 1 parts parts' + 1 := by
  have hsame : sameComponent table true 0 root root = true := by
    show (equalFold table root root == some true) = true
    rw [equalFold_refl]
    rfl
  rw [commonComponents, if_pos hsame]

/-- paths of one root: the way between what stands behind it -/
theorem relative_eq {source target cwd root : Bytes} {parts parts' : List Bytes} (asUrl : Bool)
    (hsource : normalizedComponents source cwd = root :: parts)
    (htarget : normalizedComponents target cwd = root :: parts') :
    relativeToDirectoryOrUrl table source target asUrl cwd true =
      [0x2F].intercalate (between table parts parts') := by
  rw [relativeToDirectoryOrUrl, hsource, htarget, commonComponents_root, if_neg (Nat.succ_ne_zero _), pathFromComponents_relative, List.length_cons,
    Nat.add_sub_add_right, List.drop_succ_cons]
  rfl

theorem resolved_normal {rest s : Bytes} (h : 0x5C ∉ rest) (hs : s ∈ resolved rest) : 0x5C ∉ s :=
  fun hmem => h (mem_of_mem_splitOn (mem_resolve hs).1 hmem)

theorem between_normal {source target : List Bytes} (h : ∀ s ∈ target, 0x5C ∉ s) :
    0x5C ∉ [0x2F].intercalate (between table source target) := by
  intro hmem
  rcases mem_intercalate hmem with hsep | ⟨piece, hpiece, hb⟩
  · exact absurd hsep (by decide)
  · rcases List.mem_append.1 hpiece with hup | hdown
    · rw [List.eq_of_mem_replicate hup] at hb
      exact absurd hb (by decide)
    · exact h piece (List.mem_of_mem_drop hdown) hb

theorem combine_behind {source relative : Bytes} (hsource : normalizeSlashes source ≠ [])
    (hne : relative ≠ []) (hnormal : 0x5C ∉ relative) (hroot : rootLength relative = 0) :
    combine source [relative] = behind (normalizeSlashes source) relative := by
  show combineStep (normalizeSlashes source) relative = _
  rw [combineStep, if_neg hne, normalizeSlashes_of_not_mem hnormal]
  exact if_neg (not_or.2 ⟨hsource, not_not.2 hroot⟩)

/-- a rooted path: its root, and the segments that are left -/
theorem rooted_components {path : Bytes} (cwd : Bytes) (h : rootLength path ≠ 0) :
    ∃ root rest, normalizeSlashes path = root ++ rest ∧ (rest = [] ∨ Shape root rest) ∧
      normalizedComponents path cwd = root :: resolved rest ∧
      Joined (normalizeSlashes path) = slashed root ++ [0x2F].intercalate (resolved rest) := by
  have hne := rootLength_normalizeSlashes h
  obtain ⟨root, rest, hpath, hroot, hshape⟩ :=
    (rooted_of_rootLength (not_mem_normalizeSlashes path) hne).split
  have hcombine := combine_rooted cwd h
  refine ⟨root, rest, hpath, hshape, ?_, ?_⟩
  · rw [normalizedComponents_eq (hcombine ▸ hne), hcombine, hroot, hpath, List.take_left, List.drop_left]
  · rw [Joined, hroot, hpath, List.take_left, List.drop_left]

theorem absolute_rooted {path : Bytes} (cwd : Bytes) (h : rootLength path ≠ 0) :
    absolute path cwd = finishRoot (Joined (normalizeSlashes path)) := by
  rw [absolute, if_neg (fun hrel => h hrel.1), ← normalize_normalizeSlashes]
  exact normalize_finish (not_mem_normalizeSlashes path) (rootLength_normalizeSlashes h)

/-- **There and back.** For two rooted paths of the same root, a relative path from the one to the
other that has no root of its own leads back to it. -/
theorem absolute_relative (source target cwd cwd' : Bytes) (asUrl : Bool) (hsource : rootLength source ≠ 0)
    (htarget : rootLength target ≠ 0)
    (hroot : (normalizedComponents source cwd).head? = (normalizedComponents target cwd).head?)
    (hrelative : rootLength (relativeToDirectoryOrUrl table source target asUrl cwd true) = 0) :
    absolute (relativeToDirectoryOrUrl table source target asUrl cwd true) source =
      absolute target cwd' := by
  obtain ⟨root, rest, hpath, hshape, hparts, hjoined⟩ := rooted_components cwd hsource
  obtain ⟨root', rest', hpath', hshape', hparts', hjoined'⟩ := rooted_components cwd htarget
  have hsame : root = root' := by
    rw [hparts, hparts'] at hroot
    exact Option.some.inj hroot
  subst hsame
  have heq : relativeToDirectoryOrUrl table source target asUrl cwd true =
      [0x2F].intercalate (between table (resolved rest) (resolved rest')) := relative_eq asUrl hparts hparts'
  rw [heq] at hrelative ⊢
  have hnormal : ∀ s ∈ resolved rest', 0x5C ∉ s := by
    intro s hs
    apply resolved_normal ?_ hs
    intro hmem
    apply not_mem_normalizeSlashes target
    rw [hpath']
    exact List.mem_append_right _ hmem
  rw [absolute_eq _ hsource, normalize_finish (combine_normal source _) (rootLength_combine _ hsource),
    absolute_rooted cwd' htarget, hjoined']
  by_cases hnil : between table (resolved rest) (resolved rest') = []
  · rw [hnil]
    show finishRoot (Joined (normalizeSlashes source)) = _
    rw [hjoined, between_nil hnil]
  · have hplain : Plain (between table (resolved rest) (resolved rest')) :=
      between_plain (resolved_plain rest')
    have hne := hplain.joined_ne_nil hnil
    obtain ⟨other, hother⟩ : ∃ other, Shape root other := by
      rcases hshape with rfl | hshape
      · rcases hshape' with rfl | hshape'
        · exact absurd (between_first []) hnil
        · exact ⟨rest', hshape'⟩
      · exact ⟨rest, hshape⟩
    rw [combine_behind (ne_nil_of_rootLength (rootLength_normalizeSlashes hsource)) hne
      (between_normal hnormal) hrelative, hpath, slashed_of_last hother.getLast]
    apply joined_behind hshape hother.getLast ⟨other, hother⟩ hnil hplain
      (foldl_between (resolved_target rest')) ?_ (resolved_target rest')
    intro hempty
    rw [hempty, resolved_nil]
    exact between_first _

theorem reduce_pathComponents {file : Bytes} (cwd : Bytes) (h : rootLength file ≠ 0) :
    ∃ components, pathComponents file cwd = some components ∧
      reducePathComponents components = normalizedComponents file cwd := by
  have hroot : rootLength (combine cwd [file]) ≠ 0 :=
    (combine_rooted cwd h).symm ▸ rootLength_normalizeSlashes h
  obtain ⟨components, hcomponents, hreduce⟩ := reducePathComponents_eq hroot
  exact ⟨components, hcomponents, hreduce.trans (normalizedComponents_eq hroot).symm⟩

/-- the components of the way are those of the relative path -/
theorem pathComponentsRelativeTo_eq (source target cwd : Bytes) (asUrl : Bool) (hsource : rootLength source ≠ 0)
    (htarget : rootLength target ≠ 0)
    (hroot : (normalizedComponents source cwd).head? = (normalizedComponents target cwd).head?) :
    ∃ components, pathComponentsRelativeTo table source target cwd true = some components ∧
      pathFromComponents components = relativeToDirectoryOrUrl table source target asUrl cwd true := by
  obtain ⟨root, rest, -, -, hparts, -⟩ := rooted_components cwd hsource
  obtain ⟨root', rest', -, -, hparts', -⟩ := rooted_components cwd htarget
  obtain ⟨components, hcomponents, hreduce⟩ := reduce_pathComponents cwd hsource
  obtain ⟨components', hcomponents', hreduce'⟩ := reduce_pathComponents cwd htarget
  have hsame : root = root' := by
    rw [hparts, hparts'] at hroot
    exact Option.some.inj hroot
  subst hsame
  refine ⟨[] :: between table (resolved rest) (resolved rest'), ?_, ?_⟩
  · rw [pathComponentsRelativeTo, hcomponents, hcomponents']
    show some (if commonComponents table true 0 (reducePathComponents components)
      (reducePathComponents components') = 0 then _ else _) = _
    rw [hreduce, hreduce', hparts, hparts', commonComponents_root, if_neg (Nat.succ_ne_zero _),
      List.length_cons, Nat.add_sub_add_right, List.drop_succ_cons]
    rfl
  · rw [relative_eq asUrl hparts hparts', pathFromComponents_relative]

/-- **Each relative path leads back**, whichever of the three functions computed it. -/
theorem relative_paths_lead_back (table : SimpleFold) (source target cwd cwd' : Bytes) (asUrl : Bool)
    (hsource : rootLength source ≠ 0) (htarget : rootLength target ≠ 0)
    (hroot : (normalizedComponents source cwd).head? = (normalizedComponents target cwd).head?) :
    (∀ relative, relativeToDirectoryOrUrl table source target asUrl cwd true = relative →
        rootLength relative = 0 → absolute relative source = absolute target cwd') ∧
      (∃ relative, relativeFromDirectory table source target cwd true = some relative ∧
        (rootLength relative = 0 → absolute relative source = absolute target cwd')) ∧
      ∃ components, pathComponentsRelativeTo table source target cwd true = some components ∧
        (rootLength (pathFromComponents components) = 0 →
          absolute (pathFromComponents components) source = absolute target cwd') := by
  refine ⟨?_, ?_, ?_⟩
  · intro relative hrelative hzero
    subst hrelative
    exact absolute_relative source target cwd cwd' asUrl hsource htarget hroot hzero
  · have hboth : decide (0 < rootLength source) = decide (0 < rootLength target) :=
      decide_eq_decide.2 ⟨fun _ => Nat.pos_of_ne_zero htarget, fun _ => Nat.pos_of_ne_zero hsource⟩
    refine ⟨_, if_pos hboth, ?_⟩
    exact absolute_relative source target cwd cwd' false hsource htarget hroot
  · obtain ⟨components, hcomponents, hpath⟩ :=
      pathComponentsRelativeTo_eq source target cwd asUrl hsource htarget hroot
    refine ⟨components, hcomponents, ?_⟩
    rw [hpath]
    exact absolute_relative source target cwd cwd' asUrl hsource htarget hroot

theorem id_cycle (rune : Nat) : ∃ n, n < 1 ∧ id^[n + 1] rune = rune := ⟨0, Nat.one_pos, rfl⟩

/-- a table in which no rune has another case -/
def noFolds : SimpleFold where
  simpleFold := id
  longest := 1
  cycle := id_cycle

/-- `../b` from `/a` -/
theorem relative_paths_lead_back_sibling :
    rootLength [0x2F, 0x61] ≠ 0 ∧ rootLength [0x2F, 0x62] ≠ 0 ∧
      (∀ relative, relativeToDirectoryOrUrl noFolds [0x2F, 0x61] [0x2F, 0x62] false [] true = relative →
        rootLength relative = 0 → absolute relative [0x2F, 0x61] = absolute [0x2F, 0x62] []) ∧
      (∃ relative, relativeFromDirectory noFolds [0x2F, 0x61] [0x2F, 0x62] [] true = some relative ∧
        (rootLength relative = 0 → absolute relative [0x2F, 0x61] = absolute [0x2F, 0x62] [])) ∧
      ∃ components, pathComponentsRelativeTo noFolds [0x2F, 0x61] [0x2F, 0x62] [] true = some components ∧
        (rootLength (pathFromComponents components) = 0 →
          absolute (pathFromComponents components) [0x2F, 0x61] = absolute [0x2F, 0x62] []) :=
  ⟨by decide, by decide, relative_paths_lead_back noFolds _ _ _ _ _ (by decide) (by decide) (by decide)⟩

end Tsr.Tspath
