import Tsr.Tspath.NormalizeSound
import Tsr.Lib.Separated

/-!
# What stands behind the root of a normalised path

* `normalize_shape`   the segments that are left, with or without a separator at the end;
* `normalize_bare`    a root that lacks its separator is given one, but for a drive;
* `Behind`            what a path and its normal form have to do with each other;
* `behind`            every rooted path.
-/

namespace Tsr.Tspath
open Tsr.Json (Bytes)
open Tsr.Segments
open Tsr.Lib.Separated

/-! ## texts without relative segments -/

theorem spells_of_plain {rest : Bytes} (h : hasRelativeSegment rest = false) (hhead : rest.head? ≠ some 0x2F) :
    Spells 0x2F (resolved rest) rest := by
  obtain ⟨hslashes, hdots⟩ := plain_iff.1 h
  have hjoin := resolved_of_plain hslashes hhead hdots
  have hspells := spells_intercalate (resolved_plain rest)
  rw [hjoin, trimSlash] at hspells
  split at hspells
  · rename_i hlast
    obtain ⟨text, rfl⟩ := List.getLast?_eq_some_iff.1 hlast
    rw [List.dropLast_concat] at hspells
    refine hspells.close ?_ ?_
    · rintro rfl
      exact hhead rfl
    · intro hlast
      obtain ⟨before, rfl⟩ := List.getLast?_eq_some_iff.1 hlast
      exact hslashes ⟨before, [], by simp⟩
  · exact hspells

/-- the segments of a text leave nothing to resolve in it -/
theorem Spells.plain {segments : List Bytes} {text : Bytes} (h : Spells 0x2F segments text)
    (hdots : ∀ s ∈ segments, s ≠ dot ∧ s ≠ dotDot) : hasRelativeSegment text = false := by
  refine plain_iff.2 ⟨h.apart, fun s hs => ?_⟩
  by_cases hnil : s = []
  · rw [hnil]
    exact ⟨by decide, by decide⟩
  · have hmem : s ∈ (text.splitOn 0x2F).filter (· ≠ []) := List.mem_filter.2 ⟨hs, decide_eq_true hnil⟩
    rw [h.splitOn] at hmem
    exact hdots s hmem

theorem resolved_dots (rest : Bytes) : ∀ s ∈ resolved rest, s ≠ dot ∧ s ≠ dotDot := by
  intro s hs
  obtain ⟨-, hskip, hup⟩ := mem_resolve hs
  exact ⟨fun heq => hskip (Or.inr heq), hup⟩

/-! ## behind a root -/

/-- a text is behind a separator what it is without it -/
def Strips (rest text : Bytes) : Prop := rest = text ∨ rest = 0x2F :: text

/-- without the separator that it may begin with -/
theorem strip_plain {rest : Bytes} (h : hasRelativeSegment rest = false) :
    ∃ text, Strips rest text ∧ hasRelativeSegment text = false ∧ text.head? ≠ some 0x2F ∧
      resolved rest = resolved text := by
  by_cases hhead : rest.head? = some 0x2F
  · obtain ⟨text, rfl⟩ := List.head?_eq_some_iff.1 hhead
    obtain ⟨hslashes, hdots⟩ := plain_iff.1 h
    refine ⟨text, Or.inr rfl, plain_iff.2 ⟨fun hin => hslashes (List.infix_cons hin), ?_⟩, ?_, ?_⟩
    · intro s hs
      exact hdots s (by rw [splitOn_slash]; exact List.mem_cons_of_mem _ hs)
    · intro hnext
      obtain ⟨tail, rfl⟩ := List.head?_eq_some_iff.1 hnext
      exact hslashes ⟨[], tail, rfl⟩
    · unfold resolved
      apply resolve_filter
      rw [splitOn_slash]
      rfl
  · exact ⟨rest, Or.inl rfl, h, hhead, rfl⟩

/-- a plain path behind a root of one separator is plain -/
theorem plain_root {root rest : Bytes} (h : Shape root rest) (hslashes : ¬[0x2F, 0x2F] <:+: root ++ rest)
    (hrest : hasRelativeSegment rest = false) : hasRelativeSegment (root ++ rest) = false := by
  obtain ⟨before, hbefore, ⟨hnone, hdot, hdotDot⟩, -⟩ :=
    simple_root h (fun hin => hslashes (hin.trans (List.prefix_append root rest).isInfix))
  refine plain_iff.2 ⟨hslashes, ?_⟩
  intro s hs
  rw [hbefore, List.append_assoc, List.singleton_append, 
    List.splitOn_append_cons_self_of_not_mem hnone] at hs
  rcases List.mem_cons.1 hs with rfl | hs
  · exact ⟨hdot, hdotDot⟩
  · exact (plain_iff.1 hrest).2 s hs

/-- a path put together keeps the separator at its end -/
theorem rebuild_shape {root rest : Bytes} (h : Shape root rest) :
    ∃ text, rebuild (root ++ rest) = root ++ text ∧ Spells 0x2F (resolved rest) text ∧
      (hasRelativeSegment rest = false → Strips rest text) := by
  have hroot : rootLength (root ++ rest) ≠ 0 := by
    rw [rootLength_shape h]
    exact mt List.length_eq_zero_iff.1 h.ne_nil
  have hspells := spells_intercalate (resolved_plain rest)
  have hlast : ∀ text : Bytes, text ≠ [] → (root ++ text).getLast? = text.getLast? :=
    fun text hne => List.getLast?_append_of_ne_nil root hne
  rw [rebuild_eq hroot, joined_shape h]
  by_cases hnil : resolved rest = []
  · -- the root alone ends with a separator
    rw [hnil, List.intercalate_nil, List.append_nil, if_neg (fun hbare => hbare.2 h.getLast)]
    refine ⟨[], (List.append_nil root).symm, .nil, fun hplain => ?_⟩
    obtain ⟨text, hstrips, htext, hhead, hsame⟩ := strip_plain hplain
    rw [(spells_of_plain htext hhead).nil_iff.1 (hsame ▸ hnil)] at hstrips
    exact hstrips
  · have hjoin : [0x2F].intercalate (resolved rest) ≠ [] := (resolved_plain rest).joined_ne_nil hnil
    have hopen := (resolved_plain rest).joined_last hnil
    rw [hlast _ hjoin]
    refine ⟨[0x2F].intercalate (resolved rest) ++ if (root ++ rest).getLast? = some 0x2F then [0x2F] else [],
      ?_, ?_, fun hplain => ?_⟩
    · by_cases hend : (root ++ rest).getLast? = some 0x2F
      · rw [if_pos ⟨hend, hopen⟩, if_pos hend, List.append_assoc]
      · rw [if_neg (fun hboth => hend hboth.1), if_neg hend, List.append_nil]
    · split
      · exact hspells.close hjoin hopen
      · rw [List.append_nil]
        exact hspells
    · obtain ⟨text, hstrips, htext, hhead, hsame⟩ := strip_plain hplain
      obtain ⟨hslashes, hdots⟩ := plain_iff.1 htext
      have hne : text ≠ [] := by
        rintro rfl
        exact hnil hsame
      have hend : (root ++ rest).getLast? = text.getLast? := by
        rcases hstrips with rfl | rfl
        · exact hlast _ hne
        · rw [hlast _ (List.cons_ne_nil _ _), List.getLast?_cons_of_ne_nil hne]
      rw [hend, hsame, resolved_of_plain hslashes hhead hdots, trimSlash]
      split
      · rename_i hslash
        obtain ⟨before, rfl⟩ := List.getLast?_eq_some_iff.1 hslash
        rw [List.dropLast_concat]
        exact hstrips
      · rw [List.append_nil]
        exact hstrips

/-- **The normal form behind a root**: the segments that are left of the rest.  Only a separator in front goes
from a rest without relative segments. -/
theorem normalize_shape {root rest : Bytes} (h : Shape root rest) (hnormal : 0x5C ∉ root ++ rest) :
    ∃ text, normalize (root ++ rest) = root ++ text ∧ Spells 0x2F (resolved rest) text ∧
      (hasRelativeSegment rest = false → Strips rest text) := by
  unfold normalize
  rw [normalizeSlashes_of_not_mem hnormal]
  dsimp only
  by_cases hplain : hasRelativeSegment (root ++ rest) = false
  · rw [if_pos hplain]
    obtain ⟨hbehind, hhead⟩ := plain_behind h hplain
    exact ⟨rest, rfl, spells_of_plain hbehind hhead, fun _ => Or.inl rfl⟩
  · rw [if_neg hplain]
    split
    next hrewrite =>
      have hslashes := simplified_slashes hrewrite.2.1 hrewrite.2.2
      obtain ⟨rest', hstrip, hrooted, hsame⟩ := simplified_shape h hslashes
      have hclean := hrewrite.2.1
      rw [hstrip] at hclean ⊢
      obtain ⟨hbehind, hhead⟩ := plain_behind hrooted hclean
      refine ⟨rest', rfl, hsame ▸ spells_of_plain hbehind hhead, fun hrest => ?_⟩
      exact absurd (plain_root h (fun hin => hslashes (simplify_meet hin)) hrest) hplain
    next => exact rebuild_shape h

/-- **The normal form of a root that lacks its separator** -/
theorem normalize_bare {path : Bytes} (hne : path ≠ []) (h : Shape (path ++ [0x2F]) [])
    (hroot : rootLength path = path.length) (hnormal : 0x5C ∉ path) :
    normalize path = path ∨ normalize path = path ++ [0x2F] := by
  have hpos : rootLength path ≠ 0 := by
    rw [hroot]
    exact mt List.length_eq_zero_iff.1 hne
  unfold normalize
  rw [normalizeSlashes_of_not_mem hnormal]
  dsimp only
  by_cases hplain : hasRelativeSegment path = false
  · rw [if_pos hplain]
    exact Or.inl rfl
  · rw [if_neg hplain]
    split
    next hrewrite =>
      have hslashes := simplified_slashes hrewrite.2.1 hrewrite.2.2
      exact absurd (simplify_bare hne h hroot fun hin => hslashes (simplify_meet hin)).2 (by
        rw [(simplify_bare hne h hroot fun hin => hslashes (simplify_meet hin)).1] at hrewrite
        exact hrewrite.1)
    next =>
      rw [rebuild_eq hpos, (joined_bare hroot).1, if_neg (fun hbare => hbare.2 (slashed_last path)), slashed]
      split
      · exact Or.inl rfl
      · exact Or.inr rfl

/-! ## roots that grow -/

/-- what normalising adds to the root -/
def grown (path : Bytes) : Bytes := ((normalize path).take (rootLength (normalize path))).drop (rootLength path)

/-- what stands in the normal form behind the root of the path -/
def behindRoot (path : Bytes) : Bytes := (normalize path).drop (rootLength path)

/-- what stands behind the root of the normal form -/
def normalRest (path : Bytes) : Bytes := (normalize path).drop (rootLength (normalize path))

/-- a path and its normal form -/
structure Behind (path : Bytes) : Prop where
  normal : 0x5C ∉ normalize path
  longer : rootLength path ≤ rootLength (normalize path)
  root : (normalize path).take (rootLength (normalize path)) = path.take (rootLength path) ++ grown path
  slash : (path.take (rootLength path)).getLast? = some 0x2F ∨ grown path = [] ∨ grown path = [0x2F]
  plain : hasRelativeSegment (normalRest path) = false
  rest : grown path = [] → normalRest path = behindRoot path
  spells : grown path = [] → Spells 0x2F (resolved (path.drop (rootLength path))) (behindRoot path)
  strips : grown path = [] → hasRelativeSegment (path.drop (rootLength path)) = false →
    Strips (path.drop (rootLength path)) (behindRoot path)

theorem normalize_normal {root rest text : Bytes} (hnormal : 0x5C ∉ root ++ rest)
    (h : Spells 0x2F (resolved rest) text) : 0x5C ∉ root ++ text := by
  rw [List.mem_append, not_or] at hnormal ⊢
  refine ⟨hnormal.1, fun hmem => ?_⟩
  rcases h.mem hmem with hslash | ⟨s, hs, hin⟩
  · exact absurd hslash (by decide)
  · exact hnormal.2 (mem_of_mem_splitOn (mem_resolve hs).1 hin)

/-- a volume at the start of a text of segments, with the separator behind it -/
theorem drop_volume {segments : List Bytes} {text : Bytes} (h : Spells 0x2F segments text)
    (hvolume : IsVolume (firstSegment text)) : ∃ more, Spells 0x2F more (text.drop (volumeLength text)) ∧
      ∀ s ∈ more, s ∈ segments := by
  cases h with
  | nil =>
    obtain ⟨c, -, hv | hv | hv⟩ := hvolume <;> cases hv
  | @last segment hne h =>
    rw [firstSegment_of_not_mem h] at hvolume
    refine ⟨[], ?_, fun s hs => absurd hs List.not_mem_nil⟩
    rw [volumeLength_self hvolume, List.drop_length]
    exact .nil
  | @cons segment hne h more text htext =>
    rw [firstSegment_append h] at hvolume
    refine ⟨more, ?_, fun s hs => List.mem_cons_of_mem _ hs⟩
    rw [volumeLength_append hvolume, List.append_cons]
    have hlen : segment.length + 1 = (segment ++ [0x2F]).length := by
      rw [List.length_append]
      rfl
    rw [hlen, List.drop_left]
    exact htext

/-- **A rooted path and its normal form.** -/
theorem behind_of_rooted {path : Bytes} (hnormal : 0x5C ∉ path) (h : rootLength path ≠ 0) : Behind path := by
  -- what is added to a root that begins the normal form
  have hgrown : rootLength path ≤ rootLength (normalize path) →
      (normalize path).take (rootLength path) = path.take (rootLength path) →
      (normalize path).take (rootLength (normalize path)) = path.take (rootLength path) ++ grown path := by
    intro hle htake
    have hsplit := List.take_append_drop (rootLength path) ((normalize path).take (rootLength (normalize path)))
    rw [List.take_take, min_eq_left hle, htake] at hsplit
    exact hsplit.symm
  have hrest : rootLength path ≤ rootLength (normalize path) → grown path = [] →
      normalRest path = behindRoot path := by
    intro hle hnil
    have hlen := congrArg List.length hnil
    rw [grown, List.length_drop, List.length_take, min_eq_left (rootLength_le _), List.length_nil] at hlen
    have heq : rootLength path = rootLength (normalize path) := by omega
    rw [normalRest, behindRoot, heq]
  cases rooted_of_rootLength hnormal h with
  | @shape root rest hshape =>
    have hroot := rootLength_shape hshape
    obtain ⟨text, hnorm, hspells, hstrips⟩ := normalize_shape hshape hnormal
    have htake : (normalize (root ++ rest)).take (rootLength (root ++ rest)) =
        (root ++ rest).take (rootLength (root ++ rest)) := by
      rw [hnorm, hroot, List.take_left, List.take_left]
    have hbehind : behindRoot (root ++ rest) = text := by
      rw [behindRoot, hnorm, hroot, List.drop_left]
    -- a volume may become a part of the root
    have hends : ∃ more, rootLength (root ++ rest) ≤ rootLength (normalize (root ++ rest)) ∧
        Spells 0x2F more (normalRest (root ++ rest)) ∧ ∀ s ∈ more, s ∈ resolved rest := by
      unfold normalRest
      rw [hnorm, hroot]
      have hhead : text.head? ≠ some 0x2F := by
        intro hhead
        obtain ⟨tail, heq⟩ := List.head?_eq_some_iff.1 hhead
        exact hspells.head tail heq
      rcases hshape.replace (fun _ => hhead) with hself | ⟨scheme, authority, hlocal, rfl, hvolume⟩
      · refine ⟨resolved rest, ?_, ?_, fun s hs => hs⟩
        · rw [rootLength_shape hself]
        · rw [rootLength_shape hself, List.drop_left]
          exact hspells
      · obtain ⟨more, hmore, hsub⟩ := drop_volume hspells hvolume
        refine ⟨more, ?_, ?_, hsub⟩
        · rw [rootLength_local hlocal]
          exact Nat.le_add_right _ _
        · rw [rootLength_local hlocal, ← List.drop_drop, List.drop_left]
          exact hmore
    obtain ⟨more, hlonger, hmore, hsub⟩ := hends
    refine ⟨?_, hlonger, hgrown hlonger htake, ?_, ?_, hrest hlonger, ?_, ?_⟩
    · rw [hnorm]
      exact normalize_normal hnormal hspells
    · rw [hroot, List.take_left]
      exact Or.inl hshape.getLast
    · exact Spells.plain hmore fun s hs => resolved_dots rest s (hsub s hs)
    · rw [hbehind, hroot, List.drop_left]
      exact fun _ => hspells
    · rw [hbehind, hroot, List.drop_left]
      exact fun _ => hstrips
  | bare hne hshape hroot =>
    have hdrop : path.drop (rootLength path) = [] := List.drop_eq_nil_of_le (Nat.le_of_eq hroot.symm)
    rcases normalize_bare hne hshape hroot hnormal with hnorm | hnorm
    · have hnil : grown path = [] := by
        rw [grown, hnorm, hroot, List.take_length, List.drop_length]
      have hbehind : behindRoot path = [] := by
        rw [behindRoot, hnorm, hdrop]
      have hlonger : rootLength path ≤ rootLength (normalize path) := by rw [hnorm]
      refine ⟨hnorm.symm ▸ hnormal, hlonger, hgrown hlonger (by rw [hnorm]), Or.inr (Or.inl hnil), ?_,
        hrest hlonger, ?_, ?_⟩
      · rw [hrest hlonger hnil, hbehind]
        decide
      · rw [hbehind, hdrop]
        exact fun _ => .nil
      · rw [hbehind, hdrop]
        exact fun _ _ => Or.inl rfl
    · have hlen : rootLength (normalize path) = path.length + 1 := by
        have hlen := rootLength_shape hshape
        rw [List.append_nil, List.length_append] at hlen
        rw [hnorm, hlen]
        rfl
      have hslash : grown path = [0x2F] := by
        rw [grown, hlen, hnorm, hroot, List.take_of_length_le (by rw [List.length_append]; rfl), List.drop_left]
      have hlonger : rootLength path ≤ rootLength (normalize path) := by omega
      have hopen : grown path ≠ [] := by
        rw [hslash]
        exact List.cons_ne_nil _ _
      refine ⟨?_, hlonger, hgrown hlonger ?_, Or.inr (Or.inr hslash), ?_, fun hnil => absurd hnil hopen,
        fun hnil => absurd hnil hopen, fun hnil => absurd hnil hopen⟩
      · rw [hnorm, List.mem_append, not_or]
        exact ⟨hnormal, by decide⟩
      · rw [hnorm, hroot, List.take_left, List.take_length]
      · rw [normalRest, hlen, hnorm, List.drop_of_length_le (by rw [List.length_append]; rfl)]
        decide

end Tsr.Tspath
