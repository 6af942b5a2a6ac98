import Tsr.Json.Utf8
import Tsr.Lib.Loop

/-!
# Equality up to case

Two texts are compared rune by rune; the folds of a rune are met one after the other along a cycle of
the table.

* `lastFolded_some`   the walk along a cycle ends;
* `equalFold_some`    every two texts are compared;
* `equalFold_refl`    a text equals itself.
-/

namespace Tsr.Jsstring
open Tsr.Json (Bytes decodeUtf8 decodeUtf8_width)
open Tsr.Lib.Loop

/-- the table of the folds: its rows are cycles of at most `longest` runes -/
structure SimpleFold where
  simpleFold : Nat → Nat
  longest : Nat
  cycle : ∀ rune, ∃ n, n < longest ∧ simpleFold^[n + 1] rune = rune

variable (table : SimpleFold)

/-- the fold at which the walk from `small` stops -/
def lastFolded (small large : Nat) : Option Nat :=
  ((List.range table.longest).map fun n => table.simpleFold^[n + 1] small).find?
    fun folded => folded = small || large ≤ folded

def equalFoldPass (s : Bytes × Bytes) : Pass (Bytes × Bytes) (Option Bool) :=
  if s.1 ≠ [] ∧ s.2 ≠ [] then
    let a := decodeUtf8 s.1
    let b := decodeUtf8 s.2
    let rest := (s.1.drop a.2, s.2.drop b.2)
    if a.1 = b.1 then .again rest
    else
      match lastFolded table (min a.1 b.1) (max a.1 b.1) with
      | none => .leave none
      | some folded => if folded ≠ max a.1 b.1 then .leave (some false) else .again rest
  else .leave (some (s.1.isEmpty && s.2.isEmpty))

def equalFold (left right : Bytes) : Option Bool :=
  loop (equalFoldPass table) (fun _ => none) (fun s => s.1.length) (left, right)

theorem lastFolded_some (small large : Nat) : ∃ folded, lastFolded table small large = some folded := by
  obtain ⟨n, hn, hcycle⟩ := table.cycle small
  apply Option.isSome_iff_exists.1
  rw [lastFolded, List.find?_isSome]
  refine ⟨table.simpleFold^[n + 1] small, List.mem_map.2 ⟨n, List.mem_range.2 hn, rfl⟩, ?_⟩
  rw [hcycle, decide_eq_true rfl, Bool.true_or]

theorem equalFold_some (left right : Bytes) : ∃ equal, equalFold table left right = some equal := by
  refine loop_rule (equalFoldPass table) (fun _ => none) (fun s => s.1.length) (fun _ => True) ?_
    (fun r => ∃ equal, r = some equal) ?_ (left, right) trivial
  · intro s s' _ hpass
    refine ⟨trivial, ?_⟩
    unfold equalFoldPass at hpass
    split at hpass
    · next hopen =>
      have hwidth := (decodeUtf8_width hopen.1).1
      have hlen : 0 < s.1.length := List.length_pos_of_ne_nil hopen.1
      have hdown : (s.1.drop (decodeUtf8 s.1).2).length < s.1.length := by
        rw [List.length_drop]
        omega
      dsimp only at hpass
      split at hpass
      · cases hpass
        exact hdown
      · split at hpass
        · cases hpass
        · split at hpass
          · cases hpass
          · cases hpass
            exact hdown
    · cases hpass
  · intro s r _ hpass
    unfold equalFoldPass at hpass
    split at hpass
    · dsimp only at hpass
      split at hpass
      · cases hpass
      · split at hpass
        · next hnone =>
          obtain ⟨folded, hsome⟩ := lastFolded_some table (min (decodeUtf8 s.1).1 (decodeUtf8 s.2).1)
            (max (decodeUtf8 s.1).1 (decodeUtf8 s.2).1)
          rw [hnone] at hsome
          cases hsome
        · split at hpass
          · cases hpass
            exact ⟨false, rfl⟩
          · cases hpass
    · cases hpass
      exact ⟨_, rfl⟩

/-- every text equals itself -/
theorem equalFold_refl (text : Bytes) : equalFold table text text = some true := by
  have hrefl : ∀ s : Bytes × Bytes, s.1 = s.2 →
      loop (equalFoldPass table) (fun _ => none) (fun s => s.1.length) s = some true := by
    intro s hs
    refine loop_rule (equalFoldPass table) (fun _ => none) (fun s => s.1.length) (fun s => s.1 = s.2) ?_
      (fun r => r = some true) ?_ s hs
    · intro s s' heq hpass
      unfold equalFoldPass at hpass
      split at hpass
      · next hopen =>
        have hwidth := (decodeUtf8_width hopen.1).1
        have hlen : 0 < s.1.length := List.length_pos_of_ne_nil hopen.1
        dsimp only at hpass
        rw [if_pos (by rw [heq])] at hpass
        cases hpass
        refine ⟨by rw [heq], ?_⟩
        show (s.1.drop (decodeUtf8 s.1).2).length < s.1.length
        rw [List.length_drop]
        omega
      · cases hpass
    · intro s r heq hpass
      unfold equalFoldPass at hpass
      split at hpass
      · dsimp only at hpass
        rw [if_pos (by rw [heq])] at hpass
        cases hpass
      · next hclosed =>
        cases hpass
        have hnil : s.1 = [] := by
          by_contra hne
          exact hclosed ⟨hne, heq ▸ hne⟩
        rw [← heq, hnil]
        rfl
  exact hrefl (text, text) rfl

end Tsr.Jsstring
