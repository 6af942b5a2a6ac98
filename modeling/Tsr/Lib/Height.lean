import Mathlib

/-!
# Relations without cycles

The sources of the edges are among finitely many nodes.  `height` counts what a node leads to; along
an edge it goes down (`height_lt`), so a recursion along the edges ends in `nodes.card + 1` steps.
-/

namespace Tsr.Lib.Height

open Relation Classical

variable {α : Type*} (edge : α → α → Prop) (nodes : Finset α)

def NoCycle : Prop := ∀ a, ¬ TransGen edge a a

/-- what `a` leads to, and `a` itself -/
noncomputable def height (a : α) : Nat :=
  if a ∈ nodes then (nodes.filter fun b => TransGen edge a b).card + 1 else 0

theorem height_le (a : α) : height edge nodes a ≤ nodes.card + 1 := by
  unfold height
  split
  · exact Nat.succ_le_succ (Finset.card_filter_le _ _)
  · exact Nat.zero_le _

variable {edge nodes}

theorem height_lt (hcycle : NoCycle edge) {a b : α} (ha : a ∈ nodes) (hab : edge a b) :
    height edge nodes b < height edge nodes a := by
  unfold height
  rw [if_pos ha]
  split
  · rename_i hb
    refine Nat.succ_lt_succ (Finset.card_lt_card ?_)
    rw [Finset.ssubset_iff_of_subset]
    · refine ⟨b, Finset.mem_filter.2 ⟨hb, .single hab⟩, ?_⟩
      intro h
      exact hcycle b (Finset.mem_filter.1 h).2
    · intro c hc
      obtain ⟨hc, hbc⟩ := Finset.mem_filter.1 hc
      exact Finset.mem_filter.2 ⟨hc, .head hab hbc⟩
  · exact Nat.succ_pos _

/-- edges that lead down make no cycle -/
theorem noCycle_of_lt (rank : α → Nat) (h : ∀ a b, edge a b → rank b < rank a) : NoCycle edge := by
  have hdown : ∀ a b, TransGen edge a b → rank b < rank a := by
    intro a b hab
    induction hab with
    | single hab => exact h _ _ hab
    | tail _ hbc ih => exact (h _ _ hbc).trans ih
  intro a haa
  exact absurd (hdown a a haa) (lt_irrefl _)

end Tsr.Lib.Height
