import Mathlib.Data.Set.Finite.Lemmas
import Mathlib.Order.Interval.Set.Infinite

/-!
# Counting up to a number that is accepted

* `seek`              the loop, with fuel;
* `seek_some`         what it finds, and what it passed;
* `seek_iff`          with enough fuel it finds a number exactly if there is one;
* `exists_unlisted`   numbered names that are all different leave any list of names.
-/

namespace Tsr.Lib.Seek

/-- the first number from `n` on that is accepted -/
def seek (accept : Nat → Bool) : Nat → Nat → Option Nat
  | 0, _ => none
  | fuel + 1, n => if accept n = true then some n else seek accept fuel (n + 1)

variable {accept : Nat → Bool}

theorem seek_some {fuel n m : Nat} (h : seek accept fuel n = some m) : n ≤ m ∧ accept m = true := by
  induction fuel generalizing n with
  | zero => cases h
  | succ fuel ih =>
    rw [seek] at h
    by_cases haccept : accept n = true
    · rw [if_pos haccept] at h
      cases h
      exact ⟨Nat.le_refl _, haccept⟩
    · rw [if_neg haccept] at h
      obtain ⟨hle, hm⟩ := ih h
      exact ⟨Nat.le_of_succ_le hle, hm⟩

theorem seek_reaches (d n : Nat) (h : accept (n + d) = true) : ∃ m, seek accept (d + 1) n = some m := by
  induction d generalizing n with
  | zero => exact ⟨n, if_pos h⟩
  | succ d ih =>
    rw [seek]
    by_cases haccept : accept n = true
    · exact ⟨n, if_pos haccept⟩
    · rw [if_neg haccept]
      apply ih
      rw [Nat.add_assoc, Nat.add_comm 1 d]
      exact h

/-- **With enough fuel**, a number is found exactly if there is one. -/
theorem seek_iff (n : Nat) : (∃ fuel m, seek accept fuel n = some m) ↔ ∃ m, n ≤ m ∧ accept m = true := by
  constructor
  · intro h
    obtain ⟨fuel, m, hm⟩ := h
    exact ⟨m, seek_some hm⟩
  · intro h
    obtain ⟨m, hle, hm⟩ := h
    have hplace : n + (m - n) = m := Nat.add_sub_cancel' hle
    obtain ⟨found, hfound⟩ := @seek_reaches accept (m - n) n (by rw [hplace]; exact hm)
    exact ⟨m - n + 1, found, hfound⟩

/-- numbered names that are all different leave any list of names -/
theorem exists_unlisted {α : Type*} {name : Nat → α} (hinj : Function.Injective name) (names : List α) (n : Nat) :
    ∃ m, n ≤ m ∧ name m ∉ names := by
  by_contra hall
  push Not at hall
  have hsub : name '' Set.Ici n ⊆ {a | a ∈ names} := by
    intro a ha
    obtain ⟨m, hm, rfl⟩ := ha
    exact hall m hm
  have hfinite : (Set.Ici n).Finite :=
    (Set.Finite.subset (List.finite_toSet names) hsub).of_finite_image hinj.injOn
  exact Set.Ici_infinite n hfinite

end Tsr.Lib.Seek
