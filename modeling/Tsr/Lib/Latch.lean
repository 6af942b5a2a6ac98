import Mathlib

/-!
# Latches

A latch is set by some events of a sequence and reset by others.  Whether an event does so depends on
the events in front of it.

* `Stands`          an event that sets the latch, and none behind it that resets it;
* `stands_snoc`     one event more: the rule for an induction over the sequence.
-/

namespace Tsr.Lib.Latch

variable {α : Type} (sets resets : List α → α → Prop)

def Stands (es : List α) : Prop :=
  ∃ before e after, es = before ++ e :: after ∧ sets before e ∧
    ∀ b x a, after = b ++ x :: a → ¬ resets (before ++ e :: b) x

variable {sets resets}

theorem not_stands_nil : ¬ Stands sets resets [] := by
  intro h
  obtain ⟨before, e, after, h, -⟩ := h
  cases before with
  | nil => cases h
  | cons => cases h

/-- **A latch after one event more.** -/
theorem stands_snoc (es : List α) (e : α) :
    Stands sets resets (es ++ [e]) ↔ sets es e ∨ (¬ resets es e ∧ Stands sets resets es) := by
  constructor
  · intro h
    obtain ⟨before, x, after, hes, hset, hkeep⟩ := h
    rcases List.eq_nil_or_concat after with rfl | ⟨after, y, rfl⟩
    · obtain ⟨rfl, hx⟩ := List.append_inj' hes rfl
      cases hx
      exact Or.inl hset
    · rw [List.concat_eq_append] at hes hkeep
      have hsplit : es ++ [e] = (before ++ x :: after) ++ [y] := by rw [hes, List.append_assoc]; rfl
      obtain ⟨rfl, hy⟩ := List.append_inj' hsplit rfl
      cases hy
      refine Or.inr ⟨hkeep after e [] rfl, before, x, after, rfl, hset, ?_⟩
      intro b z a hafter
      refine hkeep b z (a ++ [e]) ?_
      rw [hafter, List.append_assoc]
      rfl
  · intro h
    rcases h with hset | ⟨hkeep, before, x, after, rfl, hset, hrest⟩
    · refine ⟨es, e, [], rfl, hset, ?_⟩
      intro b x a h
      cases b with
      | nil => cases h
      | cons => cases h
    · refine ⟨before, x, after ++ [e], by rw [List.append_assoc]; rfl, hset, ?_⟩
      intro b z a hafter
      rcases List.eq_nil_or_concat a with rfl | ⟨a, y, rfl⟩
      · obtain ⟨rfl, hz⟩ := List.append_inj' hafter rfl
        cases hz
        exact hkeep
      · rw [List.concat_eq_append] at hafter
        have hsplit : after ++ [e] = (b ++ z :: a) ++ [y] := by rw [hafter, List.append_assoc]; rfl
        obtain ⟨rfl, -⟩ := List.append_inj' hsplit rfl
        exact hrest b z a rfl

end Tsr.Lib.Latch
