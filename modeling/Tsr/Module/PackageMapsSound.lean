import Tsr.Module.PackageMaps
import Tsr.Lib.Compare

/-!
# Which entry a name picks

* `Meets`, `Matches`    a key that the name meets, and one that also leaves a part of the name;
* `Better`              the order of the keys in which the first one that is met is taken;
* `Picks`               the entry of a table that a name picks;
* `map_entries_picks`   it is the one that is handed on, in any order of the table.

A key that the name meets and that leaves no part of it, because its two ends overlap there, is picked like
any other, and the slice between the ends panics.
-/

set_option linter.unusedSectionVars false

namespace Tsr.Module
open Tsr.Lib.Compare

/-! ## keys -/

theorem star_cases (key : Bytes) :
    (∃ before after, key = before ++ star :: after ∧ star ∉ before ∧ starIndex key = some before.length) ∨
      (star ∉ key ∧ starIndex key = none) := by
  induction key with
  | nil => exact Or.inr ⟨List.not_mem_nil, rfl⟩
  | cons c key ih =>
    unfold starIndex at ih ⊢
    rw [List.findIdx?_cons]
    by_cases hc : c = star
    · rw [hc, beq_self_eq_true, if_pos rfl]
      exact Or.inl ⟨[], key, rfl, List.not_mem_nil, rfl⟩
    · rw [beq_eq_false_iff_ne.2 hc, if_neg Bool.noConfusion]
      rcases ih with ⟨before, after, rfl, hstar, hindex⟩ | ⟨hstar, hindex⟩
      · refine Or.inl ⟨c :: before, after, rfl, ?_, ?_⟩
        · exact List.not_mem_cons_of_ne_of_not_mem (Ne.symm hc) hstar
        · rw [hindex]
          rfl
      · refine Or.inr ⟨List.not_mem_cons_of_ne_of_not_mem (Ne.symm hc) hstar, ?_⟩
        rw [hindex]
        rfl

/-- the ends of a pattern are ends of the name, perhaps one over the other; a key without a star is in
front of the name -/
inductive Meets (name key : Bytes) : Prop
  | pattern (before after : Bytes) (hkey : key = before ++ star :: after) (hstar : star ∉ before)
      (hfront : before <+: name) (hback : after <:+ name)
  | directory (hstar : star ∉ key) (hfront : key <+: name)

/-- `subpath` is what stands between the ends, or behind a key without a star -/
inductive Matches (name key : Bytes) : (subpath : Bytes) → (pattern : Bool) → Prop
  | pattern (before subpath after : Bytes) (hkey : key = before ++ star :: after) (hstar : star ∉ before)
      (hname : name = before ++ subpath ++ after) : Matches name key subpath true
  | directory (subpath : Bytes) (hstar : star ∉ key) (hname : name = key ++ subpath) : Matches name key subpath false

theorem starIndex_pattern {before after : Bytes} (hstar : star ∉ before) :
    starIndex (before ++ star :: after) = some before.length := by
  induction before with
  | nil => rfl
  | cons c before ih =>
    have hc := List.ne_of_not_mem_cons hstar
    have hbefore := List.not_mem_of_not_mem_cons hstar
    unfold starIndex at ih ⊢
    rw [List.cons_append, List.findIdx?_cons, beq_eq_false_iff_ne.2 (Ne.symm hc), if_neg Bool.noConfusion,
      ih hbefore]
    rfl

theorem starIndex_none {key : Bytes} (hstar : star ∉ key) : starIndex key = none := by
  rcases star_cases key with ⟨before, after, rfl, _, _⟩ | ⟨_, hindex⟩
  · exact absurd (List.mem_append_right _ List.mem_cons_self) hstar
  · exact hindex

theorem isSome_starIndex (key : Bytes) : (starIndex key).isSome = true ↔ star ∈ key := by
  rcases star_cases key with ⟨before, after, rfl, hstar, hindex⟩ | ⟨hstar, hindex⟩
  · rw [hindex]
    exact ⟨fun _ => List.mem_append_right _ List.mem_cons_self, fun _ => rfl⟩
  · rw [hindex]
    exact ⟨fun h => absurd h Bool.noConfusion, fun h => absurd h hstar⟩

theorem tryKey_pattern (name : Bytes) {before after : Bytes} (hstar : star ∉ before) :
    tryKey name (before ++ star :: after) =
      if before.isPrefixOf name && after.isSuffixOf name then
        some ((slice name before.length (name.length - after.length)).map (·, true))
      else none := by
  unfold tryKey
  rw [starIndex_pattern hstar]
  dsimp only
  rw [List.take_left', List.drop_append, List.drop_of_length_le (by omega), List.nil_append,
    Nat.add_sub_cancel_left]
  · rfl
  · rfl

theorem tryKey_directory (name : Bytes) {key : Bytes} (hstar : star ∉ key) :
    tryKey name key = if key.isPrefixOf name then some (some (name.drop key.length, false)) else none := by
  unfold tryKey
  rw [starIndex_none hstar]

theorem tryKey_eq_none {name key : Bytes} : tryKey name key = none ↔ ¬ Meets name key := by
  constructor
  · intro h hmeets
    cases hmeets with
    | pattern before after hkey hstar hfront hback =>
      rw [hkey, tryKey_pattern name hstar, List.isPrefixOf_iff_prefix.2 hfront,
        List.isSuffixOf_iff_suffix.2 hback] at h
      cases h
    | directory hstar hfront =>
      rw [tryKey_directory name hstar, List.isPrefixOf_iff_prefix.2 hfront] at h
      cases h
  · intro h
    rcases star_cases key with ⟨before, after, rfl, hstar, _⟩ | ⟨hstar, _⟩
    · rw [tryKey_pattern name hstar, if_neg]
      intro hends
      obtain ⟨hfront, hback⟩ := Bool.and_eq_true_iff.1 hends
      exact h (.pattern before after rfl hstar (List.isPrefixOf_iff_prefix.1 hfront)
        (List.isSuffixOf_iff_suffix.1 hback))
    · rw [tryKey_directory name hstar, if_neg]
      intro hfront
      exact h (.directory hstar (List.isPrefixOf_iff_prefix.1 hfront))

theorem tryKey_of_matches {name key subpath : Bytes} {pattern : Bool} (h : Matches name key subpath pattern) :
    tryKey name key = some (some (subpath, pattern)) := by
  cases h with
  | pattern before _ after hkey hstar hname =>
    have hfront : before.isPrefixOf name = true :=
      List.isPrefixOf_iff_prefix.2 ⟨subpath ++ after, by rw [hname, List.append_assoc]⟩
    have hback : after.isSuffixOf name = true := List.isSuffixOf_iff_suffix.2 ⟨before ++ subpath, hname.symm⟩
    have hstop : name.length - after.length = (before ++ subpath).length := by
      rw [hname, List.length_append, Nat.add_sub_cancel]
    have hstart : before.length ≤ (before ++ subpath).length := by
      rw [List.length_append]
      omega
    rw [hkey, tryKey_pattern name hstar, hfront, hback, hstop, slice, if_pos hstart, hname, List.take_left,
      List.drop_left]
    rfl
  | directory _ hstar hname =>
    have hfront : key.isPrefixOf name = true := List.isPrefixOf_iff_prefix.2 ⟨subpath, hname.symm⟩
    rw [tryKey_directory name hstar, hfront, hname, List.drop_left]
    rfl

/-- a slice that is in range takes what is between the ends -/
theorem matches_of_tryKey {name key subpath : Bytes} {pattern : Bool}
    (h : tryKey name key = some (some (subpath, pattern))) : Matches name key subpath pattern := by
  rcases star_cases key with ⟨before, after, rfl, hstar, _⟩ | ⟨hstar, _⟩
  · rw [tryKey_pattern name hstar] at h
    split at h
    next hends =>
      obtain ⟨hfront, hback⟩ := Bool.and_eq_true_iff.1 hends
      obtain ⟨rest, hrest⟩ := List.isPrefixOf_iff_prefix.1 hfront
      obtain ⟨front, hname⟩ := List.isSuffixOf_iff_suffix.1 hback
      obtain ⟨middle, hslice, e⟩ := Option.map_eq_some_iff.1 (Option.some.inj h)
      obtain ⟨rfl, rfl⟩ := Prod.mk.inj e
      unfold slice at hslice
      split at hslice
      next hle =>
        have hstop : name.length - after.length = front.length := by
          rw [← hname, List.length_append, Nat.add_sub_cancel]
        rw [hstop] at hle hslice
        rw [← hname, List.take_left] at hslice
        obtain rfl := Option.some.inj hslice
        -- the front end lies within what stands before the back end
        have hbefore : front.take before.length = before := by
          have e := congrArg (List.take before.length) (hrest.trans hname.symm)
          rw [List.take_left, List.take_append_of_le_length hle] at e
          exact e.symm
        refine .pattern before _ after rfl hstar ?_
        rw [← hname]
        congr 1
        calc front = front.take before.length ++ front.drop before.length := (List.take_append_drop _ _).symm
          _ = before ++ front.drop before.length := by rw [hbefore]
      next => cases hslice
    next => cases h
  · rw [tryKey_directory name hstar] at h
    split at h
    next hfront =>
      obtain ⟨rest, rfl⟩ := List.isPrefixOf_iff_prefix.1 hfront
      obtain ⟨rfl, rfl⟩ := Prod.mk.inj (Option.some.inj (Option.some.inj h))
      rw [List.drop_left]
      exact .directory rest hstar rfl
    next => cases h

/-! ## the order of the keys -/

/-- `a` is taken before `b` -/
def Better (a b : Bytes) : Prop :=
  baseLength b < baseLength a ∨
    (baseLength a = baseLength b ∧
      ((star ∈ a ∧ star ∉ b) ∨ ((star ∈ a ↔ star ∈ b) ∧ b.length < a.length)))

theorem comparePatternKeys_lawful : Lawful fun a b => some (comparePatternKeys a b) := by
  unfold comparePatternKeys
  apply lawful_then
  · apply lawful_then
    · exact lawful_flip (lawful_compare _ baseLength)
    · exact lawful_flip (lawful_compare _ fun key => (starIndex key).isSome)
  · exact lawful_flip (lawful_compare _ List.length)

theorem compare_star (a b : Bytes) (h : compare (starIndex b).isSome (starIndex a).isSome = .eq) :
    star ∈ a ↔ star ∈ b := by
  rw [← isSome_starIndex, ← isSome_starIndex, Std.LawfulEqOrd.eq_of_compare h]

theorem better_of_lt {a b : Bytes} (h : comparePatternKeys a b = .lt) : Better a b := by
  unfold comparePatternKeys at h
  rcases Ordering.then_eq_lt.1 h with h | ⟨h, hlength⟩
  · rcases Ordering.then_eq_lt.1 h with h | ⟨h, hstar⟩
    · exact Or.inl (Nat.compare_eq_lt.1 h)
    · refine Or.inr ⟨(Nat.compare_eq_eq.1 h).symm, Or.inl ?_⟩
      cases hb : (starIndex b).isSome with
      | true =>
        rw [hb] at hstar
        cases ha : (starIndex a).isSome <;> (rw [ha] at hstar; cases hstar)
      | false =>
        rw [hb] at hstar
        cases ha : (starIndex a).isSome with
        | true =>
          refine ⟨(isSome_starIndex a).1 ha, fun hmem => ?_⟩
          rw [(isSome_starIndex b).2 hmem] at hb
          cases hb
        | false =>
          rw [ha] at hstar
          cases hstar
  · obtain ⟨hbase, hstar⟩ := Ordering.then_eq_eq.1 h
    exact Or.inr ⟨(Nat.compare_eq_eq.1 hbase).symm, Or.inr ⟨compare_star a b hstar, Nat.compare_eq_lt.1 hlength⟩⟩

theorem Better.asymm {a b : Bytes} (h : Better a b) (h' : Better b a) : False := by
  unfold Better at h h'
  rcases h with h | ⟨hbase, ⟨ha, hb⟩ | ⟨hstar, hlength⟩⟩
  · rcases h' with h' | ⟨hbase', _⟩
    · omega
    · omega
  · rcases h' with h' | ⟨_, ⟨hb', _⟩ | ⟨hstar', _⟩⟩
    · omega
    · exact hb hb'
    · exact hb (hstar'.2 ha)
  · rcases h' with h' | ⟨_, ⟨hb', ha'⟩ | ⟨_, hlength'⟩⟩
    · omega
    · exact ha' (hstar.2 hb')
    · omega

theorem baseLength_pattern {before after : Bytes} (hstar : star ∉ before) :
    baseLength (before ++ star :: after) = before.length + 1 := by
  unfold baseLength
  rw [starIndex_pattern hstar]

/-- keys that one name meets are told apart by the order -/
theorem eq_of_meets {name a b : Bytes} (ha : Meets name a) (hb : Meets name b)
    (h : comparePatternKeys a b = .eq) : a = b := by
  unfold comparePatternKeys at h
  obtain ⟨hboth, hlength⟩ := Ordering.then_eq_eq.1 h
  obtain ⟨hbase, hstars⟩ := Ordering.then_eq_eq.1 hboth
  have hlength := Nat.compare_eq_eq.1 hlength
  have hbase := Nat.compare_eq_eq.1 hbase
  have hstars := compare_star a b hstars
  cases ha with
  | pattern before after hkey hstar hfront hback =>
    cases hb with
    | pattern before' after' hkey' hstar' hfront' hback' =>
      subst hkey hkey'
      rw [baseLength_pattern hstar, baseLength_pattern hstar'] at hbase
      rw [List.length_append, List.length_append, List.length_cons, List.length_cons] at hlength
      have hbefore : before = before' := by
        rw [List.prefix_iff_eq_take.1 hfront, List.prefix_iff_eq_take.1 hfront']
        congr 1
        omega
      have hafter : after = after' := by
        rw [List.suffix_iff_eq_drop.1 hback, List.suffix_iff_eq_drop.1 hback']
        congr 1
        omega
      rw [hbefore, hafter]
    | directory hstar' _ =>
      rw [hkey] at hstars
      exact absurd (hstars.1 (List.mem_append_right _ List.mem_cons_self)) hstar'
  | directory hstar hfront =>
    cases hb with
    | pattern before' after' hkey' _ _ _ =>
      rw [hkey'] at hstars
      exact absurd (hstars.2 (List.mem_append_right _ List.mem_cons_self)) hstar
    | directory _ hfront' => rw [List.prefix_iff_eq_take.1 hfront, List.prefix_iff_eq_take.1 hfront', hlength]

/-! ## the entry that a name picks -/

section
variable {V : Type}

/-- the name has no star and no slash at its end, and the table lists it -/
structure Listed (table : Table V) (name : Bytes) (target : V) : Prop where
  star : star ∉ name
  slash : name.getLast? ≠ some slash
  mem : (name, target) ∈ table.entries

/-- keys with one star and keys with a slash at the end -/
def Expands (key : Bytes) : Prop := key.count star = 1 ∨ key.getLast? = some slash

structure Best (table : Table V) (name key : Bytes) (target : V) : Prop where
  mem : (key, target) ∈ table.entries
  expands : Expands key
  meets : Meets name key
  best : ∀ entry ∈ table.entries, Expands entry.1 → Meets name entry.1 → entry.1 = key ∨ Better key entry.1

/-- what becomes of a name -/
inductive Picks (table : Table V) (name : Bytes) : Outcome V → Prop
  | listed (target : V) (h : Listed table name target) : Picks table name (.mapTarget target [] false name)
  | best (key : Bytes) (target : V) (subpath : Bytes) (pattern : Bool)
      (hnone : ∀ target, ¬ Listed table name target) (hbest : Best table name key target)
      (hmatch : Matches name key subpath pattern) : Picks table name (.mapTarget target subpath pattern key)
  | overlap (key : Bytes) (target : V) (hnone : ∀ target, ¬ Listed table name target)
      (hbest : Best table name key target) (h : ∀ subpath pattern, ¬ Matches name key subpath pattern) :
      Picks table name .panicked
  | none (hnone : ∀ target, ¬ Listed table name target)
      (h : ∀ entry ∈ table.entries, Expands entry.1 → ¬ Meets name entry.1) : Picks table name .notFound

theorem expands_iff (key : Bytes) : expands key = true ↔ Expands key := by
  unfold expands Expands
  rw [Bool.or_eq_true, beq_iff_eq, beq_iff_eq]

theorem plain_iff (name : Bytes) : plain name = true ↔ star ∉ name ∧ name.getLast? ≠ some slash := by
  unfold plain
  rw [Bool.and_eq_true, Bool.not_eq_true', Bool.not_eq_true', beq_eq_false_iff_ne, List.contains_eq_mem,
    decide_eq_false_iff_not, and_comm]

theorem Table.same (table : Table V) {key : Bytes} {target target' : V} (h : (key, target) ∈ table.entries)
    (h' : (key, target') ∈ table.entries) : target = target' :=
  (Prod.mk.inj (List.inj_on_of_nodup_map table.distinct h h' rfl)).2

theorem Best.unique {table : Table V} {name key key' : Bytes} {target target' : V}
    (h : Best table name key target) (h' : Best table name key' target') : key = key' ∧ target = target' := by
  have hkey : key = key' := by
    rcases h.best _ h'.mem h'.expands h'.meets with e | hbetter
    · exact e.symm
    · rcases h'.best _ h.mem h.expands h.meets with e | hbetter'
      · exact e
      · exact (hbetter.asymm hbetter').elim
  subst hkey
  exact ⟨rfl, table.same h.mem h'.mem⟩

theorem Picks.unique {table : Table V} {name : Bytes} {outcome outcome' : Outcome V}
    (h : Picks table name outcome) (h' : Picks table name outcome') : outcome = outcome' := by
  cases h with
  | listed target h =>
    cases h' with
    | listed target' h' => rw [table.same h.mem h'.mem]
    | best _ _ _ _ hnone _ _ => exact absurd h (hnone target)
    | overlap _ _ hnone _ _ => exact absurd h (hnone target)
    | none hnone _ => exact absurd h (hnone target)
  | best key target subpath pattern hnone hbest hmatch =>
    cases h' with
    | listed target' h' => exact absurd h' (hnone target')
    | best key' target' subpath' pattern' _ hbest' hmatch' =>
      obtain ⟨rfl, rfl⟩ := hbest.unique hbest'
      have e := (tryKey_of_matches hmatch).symm.trans (tryKey_of_matches hmatch')
      obtain ⟨rfl, rfl⟩ := Prod.mk.inj (Option.some.inj (Option.some.inj e))
      rfl
    | overlap key' target' _ hbest' h' =>
      obtain ⟨rfl, rfl⟩ := hbest.unique hbest'
      exact absurd hmatch (h' subpath pattern)
    | none _ h' => exact absurd hbest.meets (h' _ hbest.mem hbest.expands)
  | overlap key target hnone hbest h =>
    cases h' with
    | listed target' h' => exact absurd h' (hnone target')
    | best key' target' subpath' pattern' _ hbest' hmatch' =>
      obtain ⟨rfl, rfl⟩ := hbest.unique hbest'
      exact absurd hmatch' (h subpath' pattern')
    | overlap _ _ _ _ _ => rfl
    | none _ h' => exact absurd hbest.meets (h' _ hbest.mem hbest.expands)
  | none hnone h =>
    cases h' with
    | listed target' h' => exact absurd h' (hnone target')
    | best _ _ _ _ _ hbest' _ => exact absurd hbest'.meets (h _ hbest'.mem hbest'.expands)
    | overlap _ _ _ hbest' _ => exact absurd hbest'.meets (h _ hbest'.mem hbest'.expands)
    | none _ _ => rfl

/-! ## the loop over the sorted keys -/

/-- entries in the order of their keys -/
abbrev InOrder (entries : List (Bytes × V)) : Prop :=
  entries.Pairwise fun a b => comparePatternKeys a.1 b.1 ≠ .gt

theorem sorted_inOrder (entries : List (Bytes × V)) : InOrder (sorted entries) := by
  have hlawful := comparePatternKeys_lawful
  have htotal : Std.Total fun a b : Bytes × V => comparePatternKeys a.1 b.1 ≠ .gt := by
    constructor
    intro a b
    have hswap := Option.some.inj (hlawful.swap a.1 b.1 _ trivial rfl)
    rw [hswap]
    cases comparePatternKeys a.1 b.1 with
    | lt => exact Or.inl (by decide)
    | eq => exact Or.inl (by decide)
    | gt => exact Or.inr (by decide)
  have htrans : IsTrans (Bytes × V) fun a b => comparePatternKeys a.1 b.1 ≠ .gt := by
    constructor
    intro a b d hab hbd
    have h := Option.some.inj (hlawful.trans a.1 b.1 d.1 _ _ trivial trivial rfl rfl
      (Ordering.isLE_iff_ne_gt.2 hab) (Ordering.isLE_iff_ne_gt.2 hbd))
    rw [h]
    cases e : comparePatternKeys a.1 b.1 with
    | lt =>
      show Ordering.lt ≠ .gt
      decide
    | eq =>
      show comparePatternKeys b.1 d.1 ≠ .gt
      exact hbd
    | gt => exact absurd e hab
  exact List.pairwise_insertionSort _ _

theorem mem_sorted (entries : List (Bytes × V)) (entry : Bytes × V) :
    entry ∈ sorted entries ↔ entry ∈ entries ∧ Expands entry.1 := by
  unfold sorted
  rw [List.mem_insertionSort, List.mem_filter, expands_iff]

/-- the first key that is met is the best one -/
theorem tryKeys_cases (name : Bytes) (entries : List (Bytes × V)) (hsorted : InOrder entries) :
    (tryKeys name entries = .notFound ∧ ∀ entry ∈ entries, ¬ Meets name entry.1) ∨
      ∃ key target, (key, target) ∈ entries ∧ Meets name key ∧
        (∀ entry ∈ entries, Meets name entry.1 → entry.1 = key ∨ Better key entry.1) ∧
        ((∃ subpath pattern, Matches name key subpath pattern ∧
            tryKeys name entries = .mapTarget target subpath pattern key) ∨
          ((∀ subpath pattern, ¬ Matches name key subpath pattern) ∧ tryKeys name entries = .panicked)) := by
  induction entries with
  | nil => exact Or.inl ⟨rfl, fun entry h => absurd h List.not_mem_nil⟩
  | cons first entries ih =>
    obtain ⟨hfirst, hrest⟩ := List.pairwise_cons.1 hsorted
    obtain ⟨key, target⟩ := first
    unfold tryKeys
    by_cases hmeets : Meets name key
    · have hbest : ∀ entry ∈ (key, target) :: entries, Meets name entry.1 → entry.1 = key ∨ Better key entry.1 := by
        intro entry hentry hmeets'
        rcases List.mem_cons.1 hentry with rfl | hentry
        · exact Or.inl rfl
        · cases horder : comparePatternKeys key entry.1 with
          | lt => exact Or.inr (better_of_lt horder)
          | eq => exact Or.inl (eq_of_meets hmeets hmeets' horder).symm
          | gt => exact absurd horder (hfirst entry hentry)
      refine Or.inr ⟨key, target, List.mem_cons_self, hmeets, hbest, ?_⟩
      cases htry : tryKey name key with
      | none => exact absurd hmeets (tryKey_eq_none.1 htry)
      | some result =>
        cases result with
        | none =>
          refine Or.inr ⟨fun subpath pattern hmatch => ?_, rfl⟩
          rw [tryKey_of_matches hmatch] at htry
          cases htry
        | some found => exact Or.inl ⟨found.1, found.2, matches_of_tryKey htry, rfl⟩
    · rw [tryKey_eq_none.2 hmeets]
      rcases ih hrest with ⟨e, hnone⟩ | ⟨key', target', hmem, hmeets', hbest, hresult⟩
      · refine Or.inl ⟨e, fun entry hentry => ?_⟩
        rcases List.mem_cons.1 hentry with rfl | hentry
        · exact hmeets
        · exact hnone entry hentry
      · refine Or.inr ⟨key', target', List.mem_cons_of_mem _ hmem, hmeets', fun entry hentry h => ?_, hresult⟩
        rcases List.mem_cons.1 hentry with rfl | hentry
        · exact absurd h hmeets
        · exact hbest entry hentry h

theorem mapEntries_picks (table : Table V) (name : Bytes) : Picks table name (mapEntries name table) := by
  unfold mapEntries
  by_cases hlisted : ∃ target, Listed table name target
  · obtain ⟨target, h⟩ := hlisted
    rw [(plain_iff name).2 ⟨h.star, h.slash⟩, if_pos rfl]
    cases hfind : table.entries.find? fun entry => entry.1 == name with
    | none => exact absurd (List.find?_eq_none.1 hfind _ h.mem) (by simp)
    | some entry =>
      have hfound := List.find?_some hfind
      have hkey : entry.1 = name := beq_iff_eq.1 hfound
      obtain ⟨key, target'⟩ := entry
      obtain rfl : key = name := hkey
      exact .listed target' ⟨h.star, h.slash, List.mem_of_find?_eq_some hfind⟩
  · have hnone : ∀ target, ¬ Listed table name target := fun target h => hlisted ⟨target, h⟩
    have hlookup : (if plain name then table.entries.find? fun entry => entry.1 == name else none) = none := by
      split
      next hplain =>
        obtain ⟨hstar, hslash⟩ := (plain_iff name).1 hplain
        apply List.find?_eq_none.2
        intro entry hentry hkey
        obtain ⟨key, target⟩ := entry
        obtain rfl : key = name := beq_iff_eq.1 hkey
        exact hnone target ⟨hstar, hslash, hentry⟩
      next => rfl
    rw [hlookup]
    have hmem := mem_sorted table.entries
    rcases tryKeys_cases name _ (sorted_inOrder table.entries) with ⟨e, h⟩ | ⟨key, target, h, hmeets, hbest, hresult⟩
    · show Picks table name (tryKeys name (sorted table.entries))
      rw [e]
      exact .none hnone fun entry hentry hexpands => h entry ((hmem entry).2 ⟨hentry, hexpands⟩)
    · obtain ⟨hentry, hexpands⟩ := (hmem _).1 h
      have hpick : Best table name key target := ⟨hentry, hexpands, hmeets, fun entry hentry hexpands h =>
        hbest entry ((hmem entry).2 ⟨hentry, hexpands⟩) h⟩
      show Picks table name (tryKeys name (sorted table.entries))
      rcases hresult with ⟨subpath, pattern, hmatch, e⟩ | ⟨hover, e⟩
      · rw [e]
        exact .best key target subpath pattern hnone hpick hmatch
      · rw [e]
        exact .overlap key target hnone hpick hover

theorem Picks.perm {table table' : Table V} (hperm : table'.entries.Perm table.entries) {name : Bytes}
    {outcome : Outcome V} (h : Picks table name outcome) : Picks table' name outcome := by
  have hlisted : ∀ target, Listed table' name target → Listed table name target :=
    fun target h => ⟨h.star, h.slash, hperm.mem_iff.1 h.mem⟩
  have hbest : ∀ key target, Best table name key target → Best table' name key target := fun key target h =>
    ⟨hperm.mem_iff.2 h.mem, h.expands, h.meets, fun entry hentry => h.best entry (hperm.mem_iff.1 hentry)⟩
  cases h with
  | listed target h => exact .listed target ⟨h.star, h.slash, hperm.mem_iff.2 h.mem⟩
  | best key target subpath pattern hnone h hmatch =>
    exact .best key target subpath pattern (fun t ht => hnone t (hlisted t ht)) (hbest key target h) hmatch
  | overlap key target hnone h hover =>
    exact .overlap key target (fun t ht => hnone t (hlisted t ht)) (hbest key target h) hover
  | none hnone h =>
    exact .none (fun t ht => hnone t (hlisted t ht)) fun entry hentry => h entry (hperm.mem_iff.1 hentry)

end

/-- **The best key that the name meets is picked, in any order of the table.** -/
theorem map_entries_picks {V : Type} (table : Table V) (name : Bytes) :
    (∀ outcome, mapEntries name table = outcome ↔ Picks table name outcome) ∧
    ∀ table' : Table V, table'.entries.Perm table.entries → mapEntries name table' = mapEntries name table := by
  constructor
  · intro outcome
    constructor
    · intro h
      rw [← h]
      exact mapEntries_picks table name
    · intro h
      exact (mapEntries_picks table name).unique h
  · intro table' hperm
    exact (mapEntries_picks table' name).unique ((mapEntries_picks table name).perm hperm)

/-- `a*a` and `*`, in either order -/
def overlapTable : Table Nat := ⟨[([0x61, star, 0x61], 1), ([star], 2)], by decide⟩
def overlapTable' : Table Nat := ⟨[([star], 2), ([0x61, star, 0x61], 1)], by decide⟩

theorem map_entries_picks_star :
    mapEntries [0x62] overlapTable = .mapTarget 2 [0x62] true [star] ∧
    mapEntries [0x62] overlapTable' = mapEntries [0x62] overlapTable :=
  ⟨rfl, (map_entries_picks overlapTable [0x62]).2 overlapTable' (List.Perm.swap _ _ _)⟩

/-- one letter is both ends of `a*a`, so the slice between them is out of range -/
theorem map_entries_overlap :
    mapEntries [0x61] overlapTable = .panicked ∧
    ¬ ∃ part, ([0x61] : Bytes) = [0x61] ++ part ++ [0x61] := by
  refine ⟨rfl, ?_⟩
  intro h
  obtain ⟨part, h⟩ := h
  have hlength := congrArg List.length h
  rw [List.length_append, List.length_append] at hlength
  simp only [List.length_cons, List.length_nil] at hlength
  omega

end Tsr.Module
