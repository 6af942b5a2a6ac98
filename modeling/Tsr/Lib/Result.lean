import Mathlib

/-!
# Computations that may fail

Rules for `do` blocks over `Except`: `ok_bind` runs a successful step, `bind_eq_ok` takes a
successful block apart into its steps.  Over `Option`, `exists_mapM` gives every element of a list
a result.
-/

namespace Tsr.Lib.Result

universe u

variable {ε : Type u} {α β : Type u}

@[simp] theorem ok_bind (a : α) (f : α → Except ε β) : (Except.ok a >>= f) = f a := rfl

@[simp] theorem error_bind (e : ε) (f : α → Except ε β) :
    ((Except.error e : Except ε α) >>= f) = Except.error e := rfl

@[simp] theorem pure_eq_ok (a : α) : (pure a : Except ε α) = Except.ok a := rfl

theorem bind_eq_ok (x : Except ε α) (f : α → Except ε β) (b : β) :
    x >>= f = Except.ok b ↔ ∃ a, x = Except.ok a ∧ f a = Except.ok b := by
  cases x with
  | error e =>
    constructor
    · intro h; cases h
    · rintro ⟨_, h, _⟩; cases h
  | ok a =>
    constructor
    · intro h; exact ⟨a, rfl, h⟩
    · rintro ⟨_, h, hf⟩; cases h; exact hf

theorem bind_eq_error (x : Except ε α) (f : α → Except ε β) (e : ε) :
    x >>= f = Except.error e ↔ x = Except.error e ∨ ∃ a, x = Except.ok a ∧ f a = Except.error e := by
  cases x with
  | error e' =>
    constructor
    · intro h; cases h; exact Or.inl rfl
    · rintro (h | ⟨_, h, _⟩)
      · cases h; rfl
      · cases h
  | ok a =>
    constructor
    · intro h; exact Or.inr ⟨a, rfl, h⟩
    · rintro (h | ⟨_, h, hf⟩)
      · cases h
      · cases h; exact hf

theorem forall₂_mem_right {P : α → β → Prop} {xs : List α} {ys : List β} (h : List.Forall₂ P xs ys) :
    ∀ y ∈ ys, ∃ x ∈ xs, P x y := by
  induction h with
  | nil =>
    intro y hy
    exact absurd hy List.not_mem_nil
  | cons hp _ ih =>
    intro y hy
    rcases List.mem_cons.1 hy with rfl | hy
    · exact ⟨_, List.mem_cons_self, hp⟩
    · obtain ⟨x, hx, hp⟩ := ih y hy
      exact ⟨x, List.mem_cons_of_mem _ hx, hp⟩

/-- every element has a result, and `P` holds of it -/
theorem exists_mapM {P : α → β → Prop} {f : α → Option β} {xs : List α}
    (h : ∀ x ∈ xs, ∃ y, f x = some y ∧ P x y) : ∃ ys, xs.mapM f = some ys ∧ List.Forall₂ P xs ys := by
  induction xs with
  | nil => exact ⟨[], rfl, List.Forall₂.nil⟩
  | cons x xs ih =>
    obtain ⟨y, hy, hp⟩ := h x List.mem_cons_self
    obtain ⟨ys, hys, hall⟩ := ih fun x' hx' => h x' (List.mem_cons_of_mem x hx')
    refine ⟨y :: ys, ?_, List.Forall₂.cons hp hall⟩
    rw [List.mapM_cons, hy, hys]
    rfl

end Tsr.Lib.Result
