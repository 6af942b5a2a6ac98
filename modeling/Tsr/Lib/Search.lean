import Mathlib

/-!
# Searching and sorting

What a caller knows of a binary search and of a sort by a comparison.

* `PartitionPoint`       a search for the first element that fails a test; it answers as it likes for
                         a list that the test does not divide;
* `take_index`, `drop_index`, `between`   the parts of a list that is divided are filters of it;
* `SortFunc`             a sort; it orders the list if the comparison orders the elements;
* `PartitionPoint.counting`, `SortFunc.insertion`   one of each.
-/

namespace Tsr.Lib.Search

variable {α : Type}

/-! ## partition points -/

/-- the elements that pass stand in front of those that fail -/
def Partitioned (p : α → Bool) (xs : List α) : Prop := xs.Pairwise fun x y => p y = true → p x = true

structure PartitionPoint (α : Type) where
  index : (α → Bool) → List α → Nat
  index_eq : ∀ p xs, Partitioned p xs → index p xs = xs.countP p

/-- counts the elements that pass -/
def PartitionPoint.counting (α : Type) : PartitionPoint α := ⟨fun p xs => xs.countP p, fun _ _ _ => rfl⟩

theorem filter_eq_take {p : α → Bool} {xs : List α} (h : Partitioned p xs) :
    xs.filter p = xs.take (xs.countP p) := by
  induction xs with
  | nil => rfl
  | cons x xs ih =>
    obtain ⟨hx, hxs⟩ := List.pairwise_cons.1 h
    by_cases hp : p x = true
    · rw [List.filter_cons_of_pos hp, List.countP_cons_of_pos hp, List.take_succ_cons, ih hxs]
    · have hnone : ∀ y ∈ x :: xs, ¬ p y = true := by
        intro y hy
        rcases List.mem_cons.1 hy with rfl | hy
        · exact hp
        · exact fun h' => hp (hx y hy h')
      rw [List.countP_eq_zero.2 hnone, List.filter_eq_nil_iff.2 hnone, List.take_zero]

theorem filter_not_eq_drop {p : α → Bool} {xs : List α} (h : Partitioned p xs) :
    xs.filter (fun x => !p x) = xs.drop (xs.countP p) := by
  induction xs with
  | nil => rfl
  | cons x xs ih =>
    obtain ⟨hx, hxs⟩ := List.pairwise_cons.1 h
    by_cases hp : p x = true
    · rw [List.filter_cons_of_neg (by simp [hp]), List.countP_cons_of_pos hp, List.drop_succ_cons, ih hxs]
    · have hnone : ∀ y ∈ x :: xs, ¬ p y = true := by
        intro y hy
        rcases List.mem_cons.1 hy with rfl | hy
        · exact hp
        · exact fun h' => hp (hx y hy h')
      rw [List.countP_eq_zero.2 hnone, List.drop_zero, List.filter_eq_self.2]
      intro y hy
      simpa using hnone y hy

/-- a filter, taken of the two parts -/
theorem filter_parts {p : α → Bool} {xs : List α} (h : Partitioned p xs) (q : α → Bool) :
    xs.filter q = (xs.filter p).filter q ++ (xs.filter fun x => !p x).filter q := by
  rw [filter_eq_take h, filter_not_eq_drop h, ← List.filter_append, List.take_append_drop]

section
variable (P : PartitionPoint α) {p q : α → Bool} {xs : List α}

theorem take_index (h : Partitioned p xs) : xs.take (P.index p xs) = xs.filter p := by
  rw [P.index_eq p xs h, filter_eq_take h]

theorem drop_index (h : Partitioned p xs) : xs.drop (P.index p xs) = xs.filter fun x => !p x := by
  rw [P.index_eq p xs h, filter_not_eq_drop h]

theorem index_le (h : Partitioned p xs) : P.index p xs ≤ xs.length := by
  rw [P.index_eq p xs h]
  exact List.countP_le_length

/-- the elements between the points of two tests -/
theorem between (hp : Partitioned p xs) (hq : Partitioned q xs) (hpq : ∀ x, p x = true → q x = true) :
    (xs.take (P.index q xs)).drop (P.index p xs) = xs.filter fun x => !p x && q x := by
  have hcount : (xs.filter q).countP p = xs.countP p := by
    rw [List.countP_filter]
    refine List.countP_congr ?_
    intro x _
    rw [Bool.and_eq_true]
    exact ⟨fun h => h.1, fun h => ⟨h, hpq x h⟩⟩
  rw [take_index P hq, P.index_eq p xs hp, ← hcount, ← filter_not_eq_drop (hp.filter q),
    List.filter_filter]

/-- an element stands in front of the point if it passes -/
theorem lt_index_iff (h : Partitioned p xs) {i : Nat} {x : α} (hx : xs[i]? = some x) :
    i < P.index p xs ↔ p x = true := by
  obtain ⟨hi, rfl⟩ := List.getElem?_eq_some_iff.1 hx
  refine ⟨?_, ?_⟩
  · intro hlt
    have hmem : xs[i] ∈ xs.take (P.index p xs) := List.mem_take_iff_getElem.2 ⟨i, by omega, rfl⟩
    rw [take_index P h] at hmem
    exact (List.mem_filter.1 hmem).2
  · intro hp
    by_contra hge
    have hmem : xs[i] ∈ xs.drop (P.index p xs) :=
      List.mem_drop_iff_getElem.2 ⟨i - P.index p xs, by omega, by congr 1; omega⟩
    rw [drop_index P h] at hmem
    have := (List.mem_filter.1 hmem).2
    rw [hp] at this
    cases this

end

/-! ## sorts -/

/-- a comparison that is an order on the elements of a list -/
structure OrdersOn (c : α → α → Ordering) (xs : List α) : Prop where
  swap : ∀ a ∈ xs, ∀ b ∈ xs, c a b = (c b a).swap
  trans : ∀ a ∈ xs, ∀ b ∈ xs, ∀ d ∈ xs, (c a b).isLE = true → (c b d).isLE = true →
    (c a d).isLE = true

structure SortFunc (α : Type) where
  run : (α → α → Ordering) → List α → List α
  perm : ∀ c xs, (run c xs).Perm xs
  sorted : ∀ c xs, OrdersOn c xs → (run c xs).Pairwise fun a b => (c a b).isLE = true

/-- insertion sort, of the elements with the proof that they are elements -/
def SortFunc.insertion (α : Type) : SortFunc α where
  run c xs := (xs.attach.insertionSort fun a b => (c a.1 b.1).isLE = true).map Subtype.val
  perm c xs := by
    have h := (List.perm_insertionSort (fun a b => (c a.1 b.1).isLE = true) xs.attach).map Subtype.val
    rwa [List.attach_map_subtype_val] at h
  sorted c xs h := by
    rw [List.pairwise_map]
    have : Std.Total fun a b : { x // x ∈ xs } => (c a.1 b.1).isLE = true := by
      refine ⟨?_⟩
      intro a b
      rw [h.swap a.1 a.2 b.1 b.2]
      cases c b.1 a.1 <;> decide
    have : IsTrans { x // x ∈ xs } fun a b => (c a.1 b.1).isLE = true := by
      refine ⟨?_⟩
      intro a b d
      exact h.trans a.1 a.2 b.1 b.2 d.1 d.2
    exact List.pairwise_insertionSort _ _

end Tsr.Lib.Search
