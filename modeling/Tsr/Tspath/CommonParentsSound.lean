import Tsr.Tspath.CommonParents

/-!
# What common parents cover

Components are the same if their path keys are.

* `Fanned`        the members of a fan-out: one for each key, the tails of all groups;
* `Parents`       parents that are deep enough, apart from each other, and cover all groups;
* `worker_parents`, `common_parents`   the main results;
* `folds_apart`   where the keys tell more components apart than the comparison does.
-/

namespace Tsr.Tspath
open Tsr.Json (Bytes)
open Tsr.Jsstring (SimpleFold equalFold)

variable {equal : Bytes → Bytes → Bool} {key : Bytes → Bytes}
variable {members : List Member} {index : Nat} {groups : List (List Bytes)} {first : List Bytes}
  {rest : List (List Bytes)} {depth : Nat}

/-! ## members -/

theorem addMember_keys (k : Bytes) (head tail : List Bytes) (members : List Member) :
    (addMember k head tail members).map Member.key =
      if k ∈ members.map Member.key then members.map Member.key else members.map Member.key ++ [k] := by
  induction members with
  | nil => rfl
  | cons member members ih =>
    unfold addMember
    by_cases h : member.key = k
    · rw [if_pos h, if_pos (by rw [List.map_cons, h]; exact List.mem_cons_self), List.map_cons, List.map_cons, h]
    · rw [if_neg h, List.map_cons, List.map_cons, ih]
      have hmem : k ∈ member.key :: members.map Member.key ↔ k ∈ members.map Member.key := by
        rw [List.mem_cons, or_iff_right (Ne.symm h)]
      by_cases hk : k ∈ members.map Member.key
      · rw [if_pos hk, if_pos (hmem.2 hk)]
      · rw [if_neg hk, if_neg (hmem.not.2 hk)]
        rfl

theorem mem_addMember {k : Bytes} {head tail : List Bytes} {m : Member}
    (h : m ∈ addMember k head tail members) : m ∈ members ∨ m.key = k ∧ m.head = head ∧
      ∀ t ∈ m.tails, t = tail ∨ ∃ old ∈ members, old.key = k ∧ t ∈ old.tails := by
  induction members with
  | nil =>
    rw [addMember, List.mem_singleton] at h
    subst h
    exact Or.inr ⟨rfl, rfl, fun t ht => Or.inl (List.mem_singleton.1 ht)⟩
  | cons member members ih =>
    unfold addMember at h
    split at h
    · rename_i hkey
      rcases List.mem_cons.1 h with rfl | h
      · refine Or.inr ⟨rfl, rfl, ?_⟩
        intro t ht
        rcases List.mem_append.1 ht with ht | ht
        · exact Or.inr ⟨member, List.mem_cons_self, hkey, ht⟩
        · exact Or.inl (List.mem_singleton.1 ht)
      · exact Or.inl (List.mem_cons_of_mem _ h)
    · rcases List.mem_cons.1 h with rfl | h
      · exact Or.inl List.mem_cons_self
      · rcases ih h with h | ⟨hkey, hhead, htails⟩
        · exact Or.inl (List.mem_cons_of_mem _ h)
        · refine Or.inr ⟨hkey, hhead, ?_⟩
          intro t ht
          rcases htails t ht with ht | ⟨old, hold, hk, ht⟩
          · exact Or.inl ht
          · exact Or.inr ⟨old, List.mem_cons_of_mem _ hold, hk, ht⟩

theorem addMember_new (k : Bytes) (head tail : List Bytes) (members : List Member) :
    ∃ m ∈ addMember k head tail members, m.key = k ∧ tail ∈ m.tails := by
  induction members with
  | nil => exact ⟨_, List.mem_cons_self, rfl, List.mem_cons_self⟩
  | cons member members ih =>
    unfold addMember
    split
    · exact ⟨_, List.mem_cons_self, rfl, List.mem_append_right _ List.mem_cons_self⟩
    · obtain ⟨m, hm, h⟩ := ih
      exact ⟨m, List.mem_cons_of_mem _ hm, h⟩

theorem addMember_old (k : Bytes) (head tail : List Bytes) {old : Member}
    (h : old ∈ members) :
    ∃ m ∈ addMember k head tail members, m.key = old.key ∧ ∀ t ∈ old.tails, t ∈ m.tails := by
  induction members with
  | nil => cases h
  | cons member members ih =>
    unfold addMember
    split
    · rename_i hkey
      rcases List.mem_cons.1 h with rfl | h
      · exact ⟨_, List.mem_cons_self, hkey.symm, fun t ht => List.mem_append_left _ ht⟩
      · exact ⟨old, List.mem_cons_of_mem _ h, rfl, fun t ht => ht⟩
    · rcases List.mem_cons.1 h with rfl | h
      · exact ⟨old, List.mem_cons_self, rfl, fun t ht => ht⟩
      · obtain ⟨m, hm, hfacts⟩ := ih h
        exact ⟨m, List.mem_cons_of_mem _ hm, hfacts⟩

/-- the members of the groups seen so far -/
structure Fanned (key : Bytes → Bytes) (index : Nat) (groups : List (List Bytes)) (members : List Member) : Prop where
  keys : (members.map Member.key).Nodup
  head : ∀ m ∈ members, ∃ g ∈ groups, key (componentAt g index) = m.key ∧ m.head = g.take (index + 1)
  tails : ∀ m ∈ members, ∀ t ∈ m.tails, ∃ g ∈ groups, t = g.drop (index + 1)
  covers : ∀ g ∈ groups, ∃ m ∈ members, m.key = key (componentAt g index) ∧ g.drop (index + 1) ∈ m.tails

theorem Fanned.add
    (h : Fanned key index groups members) (group : List Bytes) :
    Fanned key index (groups ++ [group])
      (addMember (key (componentAt group index)) (group.take (index + 1)) (group.drop (index + 1)) members) := by
  have hlast : group ∈ groups ++ [group] := List.mem_append_right _ List.mem_cons_self
  refine ⟨?_, ?_, ?_, ?_⟩
  · rw [addMember_keys]
    split
    · exact h.keys
    · rename_i hnew
      exact List.nodup_append.2 ⟨h.keys, List.nodup_singleton _, fun a ha b hb heq =>
        hnew (by rwa [heq, List.mem_singleton.1 hb] at ha)⟩
  · intro m hm
    rcases mem_addMember hm with hm | ⟨hkey, hhead, -⟩
    · obtain ⟨g, hg, hfacts⟩ := h.head m hm
      exact ⟨g, List.mem_append_left _ hg, hfacts⟩
    · exact ⟨group, hlast, hkey.symm, hhead⟩
  · intro m hm t ht
    have hold : ∀ old ∈ members, ∀ t ∈ old.tails, ∃ g ∈ groups ++ [group], t = g.drop (index + 1) := by
      intro old hmem t ht
      obtain ⟨g, hg, heq⟩ := h.tails old hmem t ht
      exact ⟨g, List.mem_append_left _ hg, heq⟩
    rcases mem_addMember hm with hm | ⟨-, -, htails⟩
    · exact hold m hm t ht
    · rcases htails t ht with rfl | ⟨old, hmem, -, ht⟩
      · exact ⟨group, hlast, rfl⟩
      · exact hold old hmem t ht
  · intro g hg
    rcases List.mem_append.1 hg with hg | hg
    · obtain ⟨old, hmem, hkey, ht⟩ := h.covers g hg
      obtain ⟨m, hm, hsame, htails⟩ := addMember_old (key (componentAt group index)) (group.take (index + 1))
        (group.drop (index + 1)) hmem
      exact ⟨m, hm, hsame.trans hkey, htails _ ht⟩
    · rw [List.mem_singleton.1 hg]
      exact addMember_new _ _ _ _

theorem fanned (key : Bytes → Bytes) (index : Nat) (groups : List (List Bytes)) :
    Fanned key index groups (fanOut key index groups) := by
  induction groups using List.reverseRecOn with
  | nil =>
    refine ⟨List.nodup_nil, ?_, ?_, ?_⟩
    · intro m hm
      cases hm
    · intro m hm
      cases hm
    · intro g hg
      cases hg
  | append_singleton groups group ih =>
    unfold fanOut at ih ⊢
    rw [List.foldl_append]
    exact ih.add group

/-! ## parents -/

/-- the components of `parent` begin those of `group` -/
def Within (key : Bytes → Bytes) (parent group : List Bytes) : Prop := parent.map key <+: group.map key

/-- neither lies in the other -/
def ApartFrom (key : Bytes → Bytes) (a b : List Bytes) : Prop := ¬ Within key a b ∧ ¬ Within key b a

structure Parents (key : Bytes → Bytes) (minComponents : Nat) (groups parents : List (List Bytes)) : Prop where
  deep : ∀ p ∈ parents, minComponents ≤ p.length
  apart : parents.Pairwise (ApartFrom key)
  covers : ∀ g ∈ groups, ∃ p ∈ parents, Within key p g

/-- what the comparison calls equal has the same key, at the same place of two groups -/
def Agree (equal : Bytes → Bytes → Bool) (key : Bytes → Bytes) (groups : List (List Bytes)) : Prop :=
  ∀ a ∈ groups, ∀ b ∈ groups, ∀ i, i < a.length → i < b.length →
    equal (componentAt a i) (componentAt b i) = true → key (componentAt a i) = key (componentAt b i)

theorem le_foldl_min (rest : List (List Bytes)) (n depth : Nat) :
    n ≤ rest.foldl (fun depth group => min depth group.length) depth ↔ n ≤ depth ∧ ∀ g ∈ rest, n ≤ g.length := by
  induction rest generalizing depth with
  | nil => simp
  | cons group rest ih =>
    rw [List.foldl_cons, ih, le_min_iff, List.forall_mem_cons, and_assoc]

theorem le_maxDepth_iff {n : Nat} :
    n ≤ maxDepth first rest ↔ ∀ g ∈ first :: rest, n ≤ g.length := by
  unfold maxDepth
  rw [le_foldl_min, List.forall_mem_cons]

theorem componentAt_eq {group : List Bytes} (h : index < group.length) :
    componentAt group index = group[index] := by
  unfold componentAt
  rw [List.getD_eq_getElem?_getD, List.getElem?_eq_getElem h]
  rfl

/-- groups whose components have the same keys up to `depth` -/
theorem take_keys {a b : List Bytes} (ha : depth ≤ a.length) (hb : depth ≤ b.length)
    (h : ∀ i < depth, key (componentAt a i) = key (componentAt b i)) :
    (a.take depth).map key = (b.take depth).map key := by
  apply List.ext_getElem
  · rw [List.length_map, List.length_map, List.length_take, List.length_take, min_eq_left ha, min_eq_left hb]
  · intro i hi hi'
    rw [List.length_map, List.length_take] at hi hi'
    rw [List.getElem_map, List.getElem_map, List.getElem_take, List.getElem_take]
    have h := h i (by omega)
    rw [componentAt_eq (by omega), componentAt_eq (by omega)] at h
    exact h

theorem within_take {a b : List Bytes} (h : (a.take depth).map key = (b.take depth).map key) :
    Within key (a.take depth) b := by
  unfold Within
  rw [h]
  exact (List.take_prefix depth b).map key

/-- all components are equal in front of a divergence -/
theorem divergence_spec (hagree : Agree equal key (first :: rest)) (hdepth : depth ≤ maxDepth first rest)
    (h : ∀ i < depth, (rest.all fun group => equal (componentAt first i) (componentAt group i)) = true) :
    ∀ g ∈ first :: rest, ∀ i < depth, key (componentAt first i) = key (componentAt g i) := by
  intro g hg i hi
  have hlength := le_maxDepth_iff.1 hdepth
  rcases List.mem_cons.1 hg with rfl | hrest
  · rfl
  · exact hagree first List.mem_cons_self g hg i (by have := hlength first List.mem_cons_self; omega)
      (by have := hlength g hg; omega) (List.all_eq_true.1 (h i hi) g hrest)

theorem divergence_none (h : divergence equal first rest = none) :
    ∀ i < maxDepth first rest, (rest.all fun group => equal (componentAt first i) (componentAt group i)) = true := by
  intro i hi
  have h := List.find?_eq_none.1 h i (List.mem_range.2 hi)
  simpa using h

theorem divergence_some
    (h : divergence equal first rest = some index) : index < maxDepth first rest ∧
      ∀ i < index, (rest.all fun group => equal (componentAt first i) (componentAt group i)) = true := by
  obtain ⟨-, before, after, hsplit, hbefore⟩ := List.find?_eq_some_iff_append.1 h
  have hmem : index ∈ List.range (maxDepth first rest) := by
    rw [hsplit]
    exact List.mem_append_right _ List.mem_cons_self
  refine ⟨List.mem_range.1 hmem, ?_⟩
  intro i hi
  have hi' : i ∈ before := by
    have hrange : i ∈ List.range (maxDepth first rest) :=
      List.mem_range.2 (hi.trans (List.mem_range.1 hmem))
    rw [hsplit] at hrange
    rcases List.mem_append.1 hrange with hin | hin
    · exact hin
    · have hsorted := List.pairwise_lt_range (n := maxDepth first rest)
      rw [hsplit] at hsorted
      obtain ⟨-, hsorted, -⟩ := List.pairwise_append.1 hsorted
      rcases List.mem_cons.1 hin with rfl | hin
      · exact absurd hi (lt_irrefl _)
      · have := (List.pairwise_cons.1 hsorted).1 i hin
        omega
  have h := hbefore i hi'
  simpa using h

/-- what all groups share is the only parent -/
theorem parents_single {n depth : Nat}
    (hdepth : depth ≤ maxDepth first rest) (hdeep : n ≤ depth)
    (h : ∀ g ∈ first :: rest, ∀ i < depth, key (componentAt first i) = key (componentAt g i)) :
    Parents key n (first :: rest) [first.take depth] := by
  have hlength := le_maxDepth_iff.1 hdepth
  refine ⟨?_, List.pairwise_singleton _ _, ?_⟩
  · intro p hp
    rw [List.mem_singleton.1 hp, List.length_take]
    have := hlength first List.mem_cons_self
    omega
  · intro g hg
    exact ⟨_, List.mem_singleton_self _,
      within_take (take_keys (hlength first List.mem_cons_self) (hlength g hg) (h g hg))⟩

/-- the head of a member, behind which its parents follow -/
theorem within_head {head head' p p' : List Bytes} (hhead : head.length = head'.length)
    (h : Within key (head ++ p) (head' ++ p')) : head.map key = head'.map key ∧
      (head.map key = head'.map key → Within key p p') := by
  unfold Within at h
  rw [List.map_append, List.map_append] at h
  have heq : head.map key = head'.map key := by
    have hprefix := (List.prefix_append (head.map key) (p.map key)).trans h
    refine (List.prefix_of_prefix_length_le hprefix (List.prefix_append _ _) ?_).eq_of_length ?_
    · rw [List.length_map, List.length_map, hhead]
    · rw [List.length_map, List.length_map, hhead]
  refine ⟨heq, fun _ => ?_⟩
  rw [heq, List.prefix_append_right_inj] at h
  exact h

theorem Agree.tails (h : Agree equal key groups)
    {tails : List (List Bytes)} (htails : ∀ t ∈ tails, ∃ g ∈ groups, t = g.drop (index + 1)) :
    Agree equal key tails := by
  have hat : ∀ (g : List Bytes) (i : Nat), componentAt (g.drop (index + 1)) i = componentAt g (index + 1 + i) := by
    intro g i
    unfold componentAt
    rw [List.getD_eq_getElem?_getD, List.getD_eq_getElem?_getD, List.getElem?_drop]
  intro a ha b hb i hi hi'
  obtain ⟨g, hg, rfl⟩ := htails a ha
  obtain ⟨g', hg', rfl⟩ := htails b hb
  rw [List.length_drop] at hi hi'
  rw [hat, hat]
  exact h g hg g' hg' (index + 1 + i) (by omega) (by omega)

/-- the heads of two members differ in the last key -/
theorem head_keys {g head : List Bytes} {k : Bytes} (hindex : index < g.length)
    (hkey : key (componentAt g index) = k) (hhead : head = g.take (index + 1)) :
    head.length = index + 1 ∧ head.map key = (g.take index).map key ++ [k] := by
  subst hhead
  refine ⟨?_, ?_⟩
  · rw [List.length_take]
    omega
  · rw [List.take_add_one, List.getElem?_eq_getElem hindex, List.map_append, ← hkey, componentAt_eq hindex]
    rfl

/-- the parents of all members of a fan-out -/
theorem parents_fanOut {n index : Nat}
    (hindex : index < maxDepth first rest)
    (hsame : ∀ g ∈ first :: rest, ∀ i < index, key (componentAt first i) = key (componentAt g i)) (hmembers : members.Perm (fanOut key index (first :: rest)))
    (f : Member → List (List Bytes)) (hf : ∀ m ∈ members, Parents key (n - (index + 1)) m.tails (f m)) :
    Parents key n (first :: rest) (members.flatMap fun m => (f m).map (m.head ++ ·)) := by
  have hfanned := fanned key index (first :: rest)
  have hlength := le_maxDepth_iff.1 (Nat.succ_le_of_lt hindex)
  have hhead : ∀ m ∈ members, m.head.length = index + 1 ∧
      m.head.map key = (first.take index).map key ++ [m.key] := by
    intro m hm
    obtain ⟨g, hg, hkey, hhead⟩ := hfanned.head m (hmembers.mem_iff.1 hm)
    obtain ⟨hcount, hkeys⟩ := head_keys (hlength g hg) hkey hhead
    refine ⟨hcount, ?_⟩
    rw [hkeys, take_keys (Nat.le_of_succ_le (hlength first List.mem_cons_self)) (Nat.le_of_succ_le (hlength g hg))
      (hsame g hg)]
  refine ⟨?_, ?_, ?_⟩
  · intro p hp
    obtain ⟨m, hm, hp⟩ := List.mem_flatMap.1 hp
    obtain ⟨t, ht, rfl⟩ := List.mem_map.1 hp
    have hdeep := (hf m hm).deep t ht
    rw [List.length_append, (hhead m hm).1]
    omega
  · rw [List.pairwise_flatMap]
    refine ⟨?_, ?_⟩
    · intro m hm
      rw [List.pairwise_map]
      refine (hf m hm).apart.imp ?_
      intro t t' ⟨hleft, hright⟩
      exact ⟨fun h => hleft ((within_head rfl h).2 rfl), fun h => hright ((within_head rfl h).2 rfl)⟩
    · have hkeys : members.Pairwise fun a b => a.key ≠ b.key := by
        refine (hmembers.pairwise_iff (fun h => h.symm)).2 ?_
        have hnodup := hfanned.keys
        rw [List.Nodup, List.pairwise_map] at hnodup
        exact hnodup
      refine hkeys.imp_of_mem ?_
      intro a b ha hb hne x hx y hy
      obtain ⟨t, -, rfl⟩ := List.mem_map.1 hx
      obtain ⟨t', -, rfl⟩ := List.mem_map.1 hy
      obtain ⟨hcount, hkeysA⟩ := hhead a ha
      obtain ⟨hcount', hkeysB⟩ := hhead b hb
      have hdiffer : a.head.map key ≠ b.head.map key := by
        rw [hkeysA, hkeysB]
        intro h
        exact hne (List.singleton_inj.1 (List.append_cancel_left h))
      exact ⟨fun h => hdiffer (within_head (hcount.trans hcount'.symm) h).1,
        fun h => hdiffer (within_head (hcount'.trans hcount.symm) h).1.symm⟩
  · intro g hg
    obtain ⟨m, hm, hkey, htail⟩ := hfanned.covers g hg
    have hm := hmembers.mem_iff.2 hm
    obtain ⟨t, ht, hwithin⟩ := (hf m hm).covers _ htail
    refine ⟨m.head ++ t, List.mem_flatMap.2 ⟨m, hm, List.mem_map_of_mem ht⟩, ?_⟩
    have hg' := (head_keys (hlength g hg) hkey.symm rfl).2
    have hheads : m.head.map key = (g.take (index + 1)).map key := by
      rw [(hhead m hm).2, hg', take_keys (Nat.le_of_succ_le (hlength first List.mem_cons_self))
        (Nat.le_of_succ_le (hlength g hg)) (hsame g hg)]
    unfold Within at hwithin ⊢
    rw [List.map_append, hheads]
    conv => rhs; rw [← List.take_append_drop (index + 1) g]
    rw [List.map_append, List.prefix_append_right_inj]
    exact hwithin

/-- **the worker**: its parents are deep enough, apart from each other, and cover all groups -/
theorem worker_parents (fuel n : Nat) (hfuel : n ≤ fuel) (groups : List (List Bytes))
    (hagree : Agree equal key groups) (hdeep : ∀ g ∈ groups, n ≤ g.length) :
    Parents key n groups (workerLoop equal key fuel n groups) := by
  induction fuel generalizing n groups with
  | zero =>
    cases groups with
    | nil =>
      refine ⟨?_, List.Pairwise.nil, ?_⟩ <;> intro p hp <;> cases hp
    | cons first rest =>
      unfold workerLoop
      split
      · rename_i hnone
        exact parents_single (le_refl _) (le_maxDepth_iff.2 hdeep)
          (divergence_spec hagree (le_refl _) (divergence_none hnone))
      · rename_i index hsome
        obtain ⟨hindex, hequal⟩ := divergence_some hsome
        rw [if_pos (by omega)]
        exact parents_single (le_of_lt hindex) (by omega) (divergence_spec hagree (le_of_lt hindex) hequal)
  | succ fuel ih =>
    cases groups with
    | nil =>
      refine ⟨?_, List.Pairwise.nil, ?_⟩ <;> intro p hp <;> cases hp
    | cons first rest =>
      unfold workerLoop
      split
      · rename_i hnone
        exact parents_single (le_refl _) (le_maxDepth_iff.2 hdeep)
          (divergence_spec hagree (le_refl _) (divergence_none hnone))
      · rename_i index hsome
        obtain ⟨hindex, hequal⟩ := divergence_some hsome
        have hsame := divergence_spec hagree (le_of_lt hindex) hequal
        split
        · rename_i hle
          exact parents_single (le_of_lt hindex) hle hsame
        · have hperm := List.perm_insertionSort (fun a b : Member => a.key ≤ b.key) (fanOut key index (first :: rest))
          refine parents_fanOut hindex hsame hperm _ ?_
          intro m hm
          have htails := (fanned key index (first :: rest)).tails m (hperm.mem_iff.1 hm)
          refine ih (n - (index + 1)) (by omega) m.tails (hagree.tails htails) ?_
          intro t ht
          obtain ⟨g, hg, rfl⟩ := htails t ht
          have := hdeep g hg
          rw [List.length_drop]
          omega

/-! ## paths -/

/-- a path in two parents that are apart is in one of them twice -/
theorem Parents.unique {n : Nat} {groups parents : List (List Bytes)} (h : Parents key n groups parents)
    {g : List Bytes} (hg : g ∈ groups) : ∃! c, c ∈ parents ∧ Within key c g := by
  obtain ⟨c, hc, hwithin⟩ := h.covers g hg
  refine ⟨c, ⟨hc, hwithin⟩, ?_⟩
  intro d ⟨hd, hwithin'⟩
  by_contra hne
  have : Std.Symm (ApartFrom key) := ⟨fun _ _ h => ⟨h.2, h.1⟩⟩
  have hapart : ApartFrom key d c := h.apart.forall hd hc hne
  rcases List.prefix_or_prefix_of_prefix hwithin' hwithin with hle | hle
  · exact hapart.1 hle
  · exact hapart.2 hle

/-- the text of a parent; a single path keeps its own -/
def NamesParent (paths : List Bytes) (components : Bytes → List Bytes) (text : Bytes) (parent : List Bytes) : Prop :=
  text = pathFromComponents parent ∨ paths = [text] ∧ parent = components text

/-- what the fold calls equal has the same path key, at the same place of two paths -/
def FoldsAgree (table : SimpleFold) (lower : LowerCase) (cwd : Bytes) (groups : List (List Bytes)) : Prop :=
  Agree (equalityComparer table true) (fun component => toPath lower component cwd false) groups

theorem agree_paths (table : SimpleFold) (lower : LowerCase) (cwd : Bytes) {caseSensitive : Bool} (h : caseSensitive = false → FoldsAgree table lower cwd groups) :
    Agree (equalityComparer table !caseSensitive) (fun component => toPath lower component cwd caseSensitive)
      groups := by
  cases caseSensitive with
  | false => exact h rfl
  | true =>
    intro a _ b _ i _ _ hequal
    exact congrArg (toPath lower · cwd true) (beq_iff_eq.1 hequal)

/-- what the parents of some paths are for all of them -/
structure ParentsOf (key : Bytes → Bytes) (components : Bytes → List Bytes) (minComponents : Int)
    (paths texts : List Bytes) (ignored : Finset Bytes) (parents : List (List Bytes)) : Prop where
  names : List.Forall₂ (NamesParent paths components) texts parents
  deep : ∀ parent ∈ parents, minComponents ≤ parent.length
  apart : parents.Pairwise (ApartFrom key)
  tooShallow : ∀ path, path ∈ ignored ↔ path ∈ paths ∧ ((components path).length : Int) < minComponents
  outside : ∀ path ∈ ignored, ∀ parent ∈ parents, ¬ Within key parent (components path)
  covers : ∀ path ∈ paths, path ∉ ignored → ∃! parent, parent ∈ parents ∧ Within key parent (components path)

theorem parentsOf {components : Bytes → List Bytes} {minComponents : Int} (hmin : 1 ≤ minComponents)
    {paths texts : List Bytes} {ignored : Finset Bytes} {parents : List (List Bytes)}
    (hignored : ∀ path, path ∈ ignored ↔ path ∈ paths ∧ ((components path).length : Int) < minComponents)
    (h : Parents key minComponents.toNat
      ((paths.filter fun path => decide (minComponents ≤ (components path).length)).map components) parents)
    (hnames : List.Forall₂ (NamesParent paths components) texts parents) :
    ParentsOf key components minComponents paths texts ignored parents := by
  refine ⟨hnames, ?_, h.apart, hignored, ?_, ?_⟩
  · intro parent hparent
    have := h.deep parent hparent
    omega
  · intro path hpath parent hparent hwithin
    have hlength := hwithin.length_le
    rw [List.length_map, List.length_map] at hlength
    have hdeep := h.deep parent hparent
    have hshallow := ((hignored path).1 hpath).2
    omega
  · intro path hpath hdeep
    refine h.unique (List.mem_map_of_mem (List.mem_filter.2 ⟨hpath, ?_⟩))
    rw [decide_eq_true_eq]
    by_contra hlt
    exact hdeep ((hignored path).2 ⟨hpath, by omega⟩)

/-- **common parents**, with at least one component asked for.  The ignored paths are those that are too
shallow; the parents have components, deep enough and apart from each other, of which each other path
has exactly one -/
theorem common_parents (table : SimpleFold) (lower : LowerCase) (paths : List Bytes) (minComponents : Int)
    (getComponents : Bytes → Bytes → List Bytes) (cwd : Bytes) (caseSensitive : Bool) (hmin : 1 ≤ minComponents)
    (hfold : caseSensitive = false →
      FoldsAgree table lower cwd (paths.map fun path => reducePathComponents (getComponents path cwd))) :
    ∃ texts ignored parents, commonParents table lower paths minComponents getComponents cwd caseSensitive =
        some (texts, ignored) ∧
      ParentsOf (fun component => toPath lower component cwd caseSensitive)
        (fun path => reducePathComponents (getComponents path cwd)) minComponents paths texts ignored parents := by
  have hagree := agree_paths table lower cwd hfold
  generalize hcomponents : (fun path => reducePathComponents (getComponents path cwd)) = components at hagree ⊢
  have hat : ∀ path, reducePathComponents (getComponents path cwd) = components path := congrFun hcomponents
  unfold commonParents
  rw [if_neg (by omega)]
  dsimp only
  simp only [hat]
  split
  · rename_i path
    by_cases hdeep : minComponents ≤ (components path).length
    · refine ⟨[path], ∅, [components path], ?_, parentsOf hmin ?_ ?_ (.cons (Or.inr ⟨rfl, rfl⟩) .nil)⟩
      · rw [if_pos (decide_eq_true hdeep)]
      · intro other
        simp only [Finset.notMem_empty, List.mem_singleton, false_iff, not_and]
        rintro rfl
        omega
      · have honly : [path].filter (fun path => decide (minComponents ≤ (components path).length)) = [path] := by
          simp [hdeep]
        rw [honly]
        refine ⟨?_, List.pairwise_singleton _ _, ?_⟩
        · intro parent hparent
          rw [List.mem_singleton.1 hparent]
          omega
        · intro g hg
          rw [List.mem_singleton.1 hg]
          exact ⟨_, List.mem_singleton_self _, List.prefix_refl _⟩
    · refine ⟨[], {path}, [], ?_, parentsOf hmin ?_ ?_ .nil⟩
      · rw [if_neg (by rw [decide_eq_true_eq]; exact hdeep)]
      · intro other
        rw [Finset.mem_singleton, List.mem_singleton]
        constructor
        · rintro rfl
          exact ⟨rfl, by omega⟩
        · exact And.left
      · have hnone : [path].filter (fun path => decide (minComponents ≤ (components path).length)) = [] := by
          simp [hdeep]
        rw [hnone]
        refine ⟨?_, List.Pairwise.nil, ?_⟩ <;> intro p hp <;> cases hp
  · have hsub : ∀ g ∈ (paths.filter fun path => decide (minComponents ≤ (components path).length)).map components,
        g ∈ paths.map components := fun g hg => List.map_subset _ (List.filter_subset_self _) hg
    have hworker : Parents (fun component => toPath lower component cwd caseSensitive) minComponents.toNat
        ((paths.filter fun path => decide (minComponents ≤ (components path).length)).map components)
        (commonParentsWorker table lower ((paths.filter fun path =>
          decide (minComponents ≤ (components path).length)).map components) minComponents.toNat cwd
          caseSensitive) := by
      refine worker_parents _ _ (le_refl _) _ (fun a ha b hb => hagree a (hsub a ha) b (hsub b hb)) ?_
      intro g hg
      obtain ⟨path, hpath, rfl⟩ := List.mem_map.1 hg
      have := of_decide_eq_true (List.mem_filter.1 hpath).2
      omega
    refine ⟨_, _, _, rfl, parentsOf hmin ?_ hworker ?_⟩
    · intro path
      rw [List.mem_toFinset, List.mem_filter, Bool.not_eq_true', decide_eq_false_iff_not, not_le]
    · rw [List.forall₂_map_left_iff, List.forall₂_same]
      intro parent _
      exact Or.inl rfl

/-- the components of a path, none of one that has no root -/
def rootedComponents (path cwd : Bytes) : List Bytes := (pathComponents path cwd).getD []

/-- `/a/b/c`, `/a/b/d` and `/e` -/
def nearPaths : List Bytes :=
  [[0x2F, 0x61, 0x2F, 0x62, 0x2F, 0x63], [0x2F, 0x61, 0x2F, 0x62, 0x2F, 0x64], [0x2F, 0x65]]

/-- the parents `/a/b` and `/e` of these -/
theorem common_parents_near : (1 : Int) ≤ 2 ∧
    commonParents noFolds id nearPaths 2 rootedComponents [0x2F] true =
      some ([[0x2F, 0x61, 0x2F, 0x62], [0x2F, 0x65]], ∅) ∧
    ∃ texts ignored parents, commonParents noFolds id nearPaths 2 rootedComponents [0x2F] true =
        some (texts, ignored) ∧
      ParentsOf (fun component => toPath id component [0x2F] true)
        (fun path => reducePathComponents (rootedComponents path [0x2F])) 2 nearPaths texts ignored parents :=
  ⟨by decide, by decide, common_parents noFolds id nearPaths 2 rootedComponents [0x2F] true (by decide)
    (fun h => absurd h (by decide))⟩

/-! ## letters that fold to each other without sharing a lower case -/

/-- `S`, `s` and `ſ` -/
def longSFolds : SimpleFold where
  simpleFold rune := if rune = 0x53 then 0x73 else if rune = 0x73 then 0x17F else if rune = 0x17F then 0x53 else rune
  longest := 3
  cycle rune := by
    by_cases hupper : rune = 0x53
    · exact ⟨2, by decide, by rw [hupper]; rfl⟩
    · by_cases hlower : rune = 0x73
      · exact ⟨2, by decide, by rw [hlower]; rfl⟩
      · by_cases hlong : rune = 0x17F
        · exact ⟨2, by decide, by rw [hlong]; rfl⟩
        · refine ⟨0, by decide, ?_⟩
          show (if rune = 0x53 then 0x73 else if rune = 0x73 then 0x17F else if rune = 0x17F then 0x53 else rune) = rune
          rw [if_neg hupper, if_neg hlower, if_neg hlong]

/-- `/ſ` -/
def longSPath : Bytes := [0x2F, 0xC5, 0xBF]

/-- `/s` -/
def sPath : Bytes := [0x2F, 0x73]

/-- the parents of `/ſ`, `/s` and `/t` are these three, the first of which contains the last; a minimum
depth of zero ends the process -/
theorem folds_apart :
    commonParents longSFolds id [longSPath, sPath, [0x2F, 0x74]] 2 rootedComponents [0x2F] false =
        some ([sPath, [0x2F, 0x74], longSPath], ∅) ∧
      containsPath longSFolds sPath longSPath [0x2F] false = true ∧
      commonParents longSFolds id [longSPath, sPath] 0 rootedComponents [0x2F] false = none := by
  decide

end Tsr.Tspath
