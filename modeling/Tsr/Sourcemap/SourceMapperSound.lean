import Tsr.Core.GoSortSound
import Tsr.Lib.Result
import Tsr.Sourcemap.SourceMapper

/-!
# The lists of a mapper

* `orderMappings_spec`       the lists are in order and hold every position of the mappings;
* `binarySearchFunc_spec`    the first position that is not below the target;
* `groups_spec`              one list for each source that is mapped.
-/

set_option linter.unusedSectionVars false

namespace Tsr.Sourcemap
open Tsr.Jsstring
open Tsr.Lib.Loop Tsr.Lib.Result
open Tsr.Core

/-! ## the order of positions -/

theorem signOf_eq_lt {difference : Int} (hlow : -2 ^ 63 ≤ difference) (hhigh : difference < 2 ^ 63) :
    signOf difference = .lt ↔ difference < 0 := by
  have hmod : Int.bmod difference (2 ^ 64) = difference := Int.bmod_eq_of_le (by omega) (by omega)
  rw [signOf, hmod]
  exact Int.compare_eq_lt

theorem signOf_offsets (a b : Offset) : signOf (a.1 - b.1) = .lt ↔ a.1 < b.1 := by
  have ha := a.2
  have hb := b.2
  rw [signOf_eq_lt (by omega) (by omega)]
  omega

/-- a comparison by offsets orders the mappings -/
theorem strictWeak_of_key (key : MappedPosition → Offset) :
    IsStrictWeakOrder MappedPosition (GoSort.Less fun a b => signOf ((key a).1 - (key b).1)) := by
  have hlt : ∀ a b, GoSort.Less (fun a b => signOf ((key a).1 - (key b).1)) a b ↔ (key a).1 < (key b).1 :=
    fun a b => signOf_offsets (key a) (key b)
  refine { irrefl := ?_, trans := ?_, incomp_trans := ?_ }
  · intro a h
    rw [hlt] at h
    omega
  · intro a b c h h'
    rw [hlt] at h h' ⊢
    omega
  · intro a b c h h'
    rw [hlt, hlt] at h h' ⊢
    omega

/-! ## lists in order -/

/-- `ms'` holds the positions of `ms`, in the order of `key` -/
structure Ordered (key : MappedPosition → Offset) (ms ms' : List MappedPosition) : Prop where
  mem : ∀ m ∈ ms', m ∈ ms
  same : ∀ m ∈ ms, ∃ m' ∈ ms', SamePosition m' m
  sorted : ms'.Pairwise fun a b => (key a).1 ≤ (key b).1

theorem SamePosition.trans {a b c : MappedPosition} (h : SamePosition a b) (h' : SamePosition b c) :
    SamePosition a c := ⟨h.1.trans h'.1, h.2.1.trans h'.2.1, h.2.2.trans h'.2.2⟩

theorem destutter_same (last : MappedPosition) (ms : List MappedPosition) :
    ∀ m ∈ last :: ms, ∃ m' ∈ ms.destutter' (fun last next => ¬ SamePosition last next) last,
      SamePosition m' m := by
  induction ms generalizing last with
  | nil =>
    intro m hm
    exact ⟨m, hm, rfl, rfl, rfl⟩
  | cons next ms ih =>
    intro m hm
    rw [List.destutter'_cons]
    by_cases hsame : SamePosition last next
    · rw [if_neg (not_not_intro hsame)]
      rcases List.mem_cons.1 hm with rfl | hm
      · exact ih m m List.mem_cons_self
      · rcases List.mem_cons.1 hm with rfl | hm
        · obtain ⟨m', hm', hs⟩ := ih last last List.mem_cons_self
          exact ⟨m', hm', hs.trans hsame⟩
        · exact ih last m (List.mem_cons_of_mem _ hm)
    · rw [if_pos hsame]
      rcases List.mem_cons.1 hm with rfl | hm
      · exact ⟨m, List.mem_cons_self, rfl, rfl, rfl⟩
      · obtain ⟨m', hm', hs⟩ := ih next m hm
        exact ⟨m', List.mem_cons_of_mem _ hm', hs⟩

theorem orderMappings_spec (key : MappedPosition → Offset) (ms : List MappedPosition) :
    ∃ ms', orderMappings (fun a b => signOf ((key a).1 - (key b).1)) ms = some ms' ∧ Ordered key ms ms' := by
  have := strictWeak_of_key key
  obtain ⟨data, hsort, hperm, hsorted⟩ :=
    GoSort.sort_spec (fun a b => signOf ((key a).1 - (key b).1)) ms.toArray
  refine ⟨deduplicateSorted data.toList, ?_, ?_, ?_, ?_⟩
  · rw [orderMappings, sortLikeGo, hsort]
    rfl
  · intro m hm
    exact hperm.mem_iff.1 ((List.destutter_sublist _ _).subset hm)
  · intro m hm
    have hmem : m ∈ data.toList := hperm.mem_iff.2 hm
    rw [deduplicateSorted]
    cases hdata : data.toList with
    | nil =>
      rw [hdata] at hmem
      exact absurd hmem List.not_mem_nil
    | cons first rest =>
      rw [hdata] at hmem
      exact destutter_same first rest m hmem
  · refine List.Pairwise.sublist (List.destutter_sublist _ _) (hsorted.imp ?_)
    intro a b hab
    have := (signOf_offsets (key b) (key a)).not.1 hab
    omega

/-! ## the search -/

theorem binarySearchFunc_spec (key : MappedPosition → Offset) (ms : List MappedPosition)
    (hms : ms.Pairwise fun a b => (key a).1 ≤ (key b).1) {target : Int} (hlow : 0 ≤ target)
    (hhigh : target < 2 ^ 63) :
    ∃ i, binarySearchFunc ms target key = some i ∧
      (∀ j m, j < i → ms[j]? = some m → (key m).1 < target) ∧
      ∀ j m, i ≤ j → ms[j]? = some m → target ≤ (key m).1 := by
  have hbefore : ∀ m : MappedPosition, decide (signOf ((key m).1 - target) = .lt) = true ↔ (key m).1 < target := by
    intro m
    have hm := (key m).2
    rw [decide_eq_true_eq, signOf_eq_lt (by omega) (by omega)]
    omega
  have hle : ∀ (i j : Nat) (a b : MappedPosition), i ≤ j → ms[i]? = some a → ms[j]? = some b → (key a).1 ≤ (key b).1 := by
    intro i j a b hij ha hb
    obtain ⟨hi, rfl⟩ := List.getElem?_eq_some_iff.1 ha
    obtain ⟨hj, rfl⟩ := List.getElem?_eq_some_iff.1 hb
    rcases Nat.lt_or_eq_of_le hij with hlt | rfl
    · exact List.pairwise_iff_getElem.1 hms i j hi hj hlt
    · exact Int.le_refl _
  refine loop_rule (binarySearchPass ms fun m => signOf ((key m).1 - target) = .lt) (fun _ => none)
    (fun s => s.2 - s.1)
    (fun s => s.1 ≤ s.2 ∧ s.2 ≤ ms.length ∧ (∀ j m, j < s.1 → ms[j]? = some m → (key m).1 < target) ∧
      ∀ j m, s.2 ≤ j → ms[j]? = some m → target ≤ (key m).1) ?_
    (fun r => ∃ i, r = some i ∧ (∀ j m, j < i → ms[j]? = some m → (key m).1 < target) ∧
      ∀ j m, i ≤ j → ms[j]? = some m → target ≤ (key m).1) ?_ _ ⟨Nat.zero_le _, Nat.le_refl _, ?_, ?_⟩
  · intro s s' hs hpass
    obtain ⟨hij, hj, hfront, hback⟩ := hs
    unfold binarySearchPass at hpass
    split at hpass
    · next hopen =>
      have hmid : (s.1 + s.2) / 2 < ms.length := by omega
      have hget := List.getElem?_eq_getElem hmid
      simp only [hget] at hpass
      split at hpass
      · next hlt =>
        rw [hbefore] at hlt
        cases hpass
        refine ⟨⟨by dsimp only; omega, hj, ?_, hback⟩, by dsimp only; omega⟩
        intro j m hjm hm
        exact lt_of_le_of_lt (hle j _ m _ (Nat.le_of_lt_succ hjm) hm hget) hlt
      · next hge =>
        rw [hbefore, not_lt] at hge
        cases hpass
        refine ⟨⟨by dsimp only; omega, by dsimp only; omega, hfront, ?_⟩, by dsimp only; omega⟩
        intro j m hjm hm
        exact le_trans hge (hle _ j _ m hjm hget hm)
    · cases hpass
  · intro s r hs hpass
    obtain ⟨hij, hj, hfront, hback⟩ := hs
    unfold binarySearchPass at hpass
    split at hpass
    · next hopen =>
      have hmid : (s.1 + s.2) / 2 < ms.length := by omega
      simp only [List.getElem?_eq_getElem hmid] at hpass
      split at hpass
      · cases hpass
      · cases hpass
    · next hclosed =>
      cases hpass
      exact ⟨s.1, rfl, hfront, fun j m hjm hm => hback j m (by omega) hm⟩
  · intro j m hjm
    exact absurd hjm (Nat.not_lt_zero j)
  · intro j m hjm hm
    have := (List.getElem?_eq_some_iff.1 hm).1
    dsimp only at hjm
    omega

/-- `m` is the nearest mapping at the target or behind it -/
structure Nearest (key : MappedPosition → Offset) (ms : List MappedPosition) (target : Int)
    (m : MappedPosition) : Prop where
  mem : m ∈ ms
  le : target ≤ (key m).1
  least : ∀ m' ∈ ms, target ≤ (key m').1 → (key m).1 ≤ (key m').1

theorem search_nearest {key : MappedPosition → Offset} {ms ms' : List MappedPosition}
    (h : Ordered key ms ms') (hkey : ∀ a b, SamePosition a b → key a = key b) {target : Int}
    (hlow : 0 ≤ target) (hhigh : target < 2 ^ 63) :
    ∃ i, binarySearchFunc ms' target key = some i ∧
      ((∃ m, ms'[i]? = some m ∧ Nearest key ms target m) ∨
        (ms'[i]? = none ∧ ∀ m ∈ ms, (key m).1 < target)) := by
  obtain ⟨i, hi, hfront, hback⟩ := binarySearchFunc_spec key ms' h.sorted hlow hhigh
  refine ⟨i, hi, ?_⟩
  cases hget : ms'[i]? with
  | some m =>
    refine Or.inl ⟨m, rfl, h.mem m (List.mem_of_getElem? hget), hback i m (Nat.le_refl i) hget, ?_⟩
    intro m' hm' hle
    obtain ⟨m'', hm'', hsame⟩ := h.same m' hm'
    obtain ⟨j, hj⟩ := List.mem_iff_getElem?.1 hm''
    rw [← hkey _ _ hsame] at hle ⊢
    by_cases hji : j < i
    · have := hfront j m'' hji hj
      omega
    · obtain ⟨hil, rfl⟩ := List.getElem?_eq_some_iff.1 hget
      obtain ⟨hjl, rfl⟩ := List.getElem?_eq_some_iff.1 hj
      rcases Nat.lt_or_eq_of_le (Nat.not_lt.1 hji) with hlt | rfl
      · exact List.pairwise_iff_getElem.1 h.sorted i j hil hjl hlt
      · exact Int.le_refl _
  | none =>
    refine Or.inr ⟨rfl, ?_⟩
    intro m hm
    obtain ⟨m', hm', hsame⟩ := h.same m hm
    obtain ⟨j, hj⟩ := List.mem_iff_getElem?.1 hm'
    have hjl := (List.getElem?_eq_some_iff.1 hj).1
    have hil := List.getElem?_eq_none_iff.1 hget
    rw [← hkey _ _ hsame]
    exact hfront j m' (by omega) hj

/-! ## the mappings of each source -/

/-- one list for each source that has a mapping -/
structure Groups (ms : List MappedPosition) (groups : List (Int64 × List MappedPosition)) : Prop where
  lists : ∀ g ∈ groups, g.2 = ms.filter fun m => m.sourceIndex = g.1
  nodup : (groups.map Prod.fst).Nodup
  keys : ∀ k, k ∈ groups.map Prod.fst ↔ k ∈ ms.map MappedPosition.sourceIndex

theorem Groups.step {ms : List MappedPosition} {groups : List (Int64 × List MappedPosition)}
    (h : Groups ms groups) (m : MappedPosition) : Groups (ms ++ [m]) (groupBySource groups m) := by
  have hkeys : ∀ k, k ∈ (ms ++ [m]).map MappedPosition.sourceIndex ↔
      k ∈ ms.map MappedPosition.sourceIndex ∨ k = m.sourceIndex := by
    intro k
    rw [List.map_append, List.mem_append, List.map_singleton, List.mem_singleton]
  have hfilter : ∀ k, (ms ++ [m]).filter (fun m => m.sourceIndex = k) =
      ms.filter (fun m => m.sourceIndex = k) ++ if m.sourceIndex = k then [m] else [] := by
    intro k
    rw [List.filter_append, List.filter_singleton]
    by_cases hk : m.sourceIndex = k
    · rw [if_pos hk, decide_eq_true hk, cond_true]
    · rw [if_neg hk, decide_eq_false hk, cond_false]
  unfold groupBySource
  by_cases hany : groups.any (fun g => g.1 = m.sourceIndex) = true
  · have hmem : m.sourceIndex ∈ groups.map Prod.fst := by
      obtain ⟨g, hg, heq⟩ := List.any_eq_true.1 hany
      exact List.mem_map.2 ⟨g, hg, of_decide_eq_true heq⟩
    have hfst : (groups.map fun g => if g.1 = m.sourceIndex then (g.1, g.2 ++ [m]) else g).map Prod.fst =
        groups.map Prod.fst := by
      rw [List.map_map]
      refine List.map_congr_left ?_
      intro g _
      show (if g.1 = m.sourceIndex then (g.1, g.2 ++ [m]) else g).1 = g.1
      split
      · rfl
      · rfl
    rw [if_pos hany]
    refine ⟨?_, by rw [hfst]; exact h.nodup, ?_⟩
    · intro g' hg'
      obtain ⟨g, hg, rfl⟩ := List.mem_map.1 hg'
      have hlist := h.lists g hg
      by_cases hk : g.1 = m.sourceIndex
      · rw [if_pos hk, hfilter, if_pos hk.symm, ← hlist]
      · rw [if_neg hk, hfilter, if_neg (fun h' => hk h'.symm), List.append_nil]
        exact hlist
    · intro k
      rw [hfst, hkeys, h.keys]
      refine ⟨Or.inl, ?_⟩
      rintro (hk | rfl)
      · exact hk
      · exact (h.keys _).1 hmem
  · have hnot : m.sourceIndex ∉ groups.map Prod.fst := by
      intro hmem
      obtain ⟨g, hg, heq⟩ := List.mem_map.1 hmem
      exact hany (List.any_eq_true.2 ⟨g, hg, decide_eq_true heq⟩)
    rw [if_neg hany]
    refine ⟨?_, ?_, ?_⟩
    · intro g hg
      rw [hfilter]
      rcases List.mem_append.1 hg with hg | hg
      · have hne : m.sourceIndex ≠ g.1 := fun heq => hnot (List.mem_map.2 ⟨g, hg, heq.symm⟩)
        rw [if_neg hne, List.append_nil]
        exact h.lists g hg
      · rw [List.mem_singleton.1 hg, if_pos rfl]
        have hnone : ms.filter (fun x => x.sourceIndex = m.sourceIndex) = [] := by
          rw [List.filter_eq_nil_iff]
          intro x hx heq
          exact hnot ((h.keys _).2 (List.mem_map.2 ⟨x, hx, of_decide_eq_true heq⟩))
        rw [hnone, List.nil_append]
    · rw [List.map_append, List.map_singleton]
      exact List.nodup_append.2 ⟨h.nodup, List.nodup_singleton _, by
        intro a ha b hb heq
        have hb' := List.mem_singleton.1 hb
        rw [heq, hb'] at ha
        exact hnot ha⟩
    · intro k
      rw [List.map_append, List.mem_append, List.map_singleton, List.mem_singleton, hkeys, h.keys]

theorem groups_spec (ms : List MappedPosition) : Groups ms (ms.foldl groupBySource []) := by
  have hfold : ∀ (rest done : List MappedPosition) (groups : List (Int64 × List MappedPosition)),
      Groups done groups → Groups (done ++ rest) (rest.foldl groupBySource groups) := by
    intro rest
    induction rest with
    | nil =>
      intro done groups h
      rw [List.append_nil]
      exact h
    | cons m rest ih =>
      intro done groups h
      have := ih (done ++ [m]) _ (h.step m)
      rwa [List.append_assoc] at this
  exact hfold ms [] [] ⟨fun g hg => absurd hg List.not_mem_nil, List.nodup_nil, fun k => Iff.rfl⟩

/-- the number of sources that have a mapping -/
def mappedSources (ms : List MappedPosition) : Nat := (ms.map MappedPosition.sourceIndex).dedup.length

theorem Groups.length {ms : List MappedPosition} {groups : List (Int64 × List MappedPosition)}
    (h : Groups ms groups) : groups.length = mappedSources ms := by
  have hperm : (groups.map Prod.fst).Perm (ms.map MappedPosition.sourceIndex).dedup := by
    refine (List.perm_ext_iff_of_nodup h.nodup (List.nodup_dedup _)).2 ?_
    intro k
    rw [List.mem_dedup]
    exact h.keys k
  rw [← List.length_map Prod.fst]
  exact hperm.length_eq

/-- every list is put in order -/
theorem orderGroups_spec (ms : List MappedPosition) (groups : List (Int64 × List MappedPosition))
    (h : ∀ g ∈ groups, g.2 = ms.filter fun m => m.sourceIndex = g.1) :
    ∃ lists, groups.mapM (fun g => (orderMappings compareSource g.2).map fun ms => (g.1, ms)) = some lists ∧
      lists.map Prod.fst = groups.map Prod.fst ∧
      ∀ g ∈ lists, Ordered MappedPosition.sourcePosition (ms.filter fun m => m.sourceIndex = g.1) g.2 := by
  have hstep : ∀ g ∈ groups, ∃ g' : Int64 × List MappedPosition,
      (orderMappings compareSource g.2).map (fun ms => (g.1, ms)) = some g' ∧
        g'.1 = g.1 ∧ Ordered MappedPosition.sourcePosition (ms.filter fun m => m.sourceIndex = g'.1) g'.2 := by
    intro g hg
    obtain ⟨ms', horder, hordered⟩ := orderMappings_spec MappedPosition.sourcePosition g.2
    change orderMappings compareSource g.2 = some ms' at horder
    refine ⟨(g.1, ms'), by rw [horder]; rfl, rfl, ?_⟩
    rw [← h g hg]
    exact hordered
  obtain ⟨lists, hlists, hall⟩ := exists_mapM hstep
  refine ⟨lists, hlists, ?_, ?_⟩
  · clear hlists hstep h
    induction hall with
    | nil => rfl
    | cons hg _ ih => rw [List.map_cons, List.map_cons, ih, hg.1]
  · intro g' hg'
    obtain ⟨_, -, hg⟩ := forall₂_mem_right hall g' hg'
    exact hg.2

end Tsr.Sourcemap
