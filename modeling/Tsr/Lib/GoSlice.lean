import Mathlib.Data.List.Basic
import Mathlib.Logic.Function.Basic

/-!
# Go slices over a heap of arrays

A slice header points into an array of the heap; copies of it, and slices of it, point into the same one.

* `read`          what a header shows;
* `write`         cells of its array replaced;
* `Valid`         the nil header, or one that lies in its array;
* `Append`        the built-in `append`: in the shared array within the capacity, else in a new one;
* `overwrite_set` a list overwritten one cell after the other;
* `padded_eq`     a new array: the values, then zero values up to its capacity.
-/

set_option linter.unusedSectionVars false

namespace Tsr.Lib.GoSlice

variable {A α : Type*}

/-- `a` with the elements of `values` in place of those from `i` on -/
def overwrite (l : List α) (i : Nat) (values : List α) : List α :=
  l.take i ++ (values ++ l.drop (i + values.length))

/-- `capacity` cells, with zero values after the given ones -/
def padded (zero : α) (values : List α) (capacity : Nat) : List α :=
  (List.range capacity).map fun i => (values[i]?).getD zero

/-! ## lists -/

theorem overwrite_nil (l : List α) (i : Nat) : overwrite l i [] = l := by
  show l.take i ++ l.drop i = l
  exact List.take_append_drop i l

theorem length_overwrite {l : List α} {i : Nat} {values : List α} (h : i + values.length ≤ l.length) :
    (overwrite l i values).length = l.length := by
  rw [overwrite, List.length_append, List.length_append, List.length_take, List.length_drop]
  omega

/-- a list overwritten one cell after the other -/
theorem overwrite_set {l : List α} {i : Nat} {values : List α} (value : α)
    (h : i + values.length < l.length) :
    (overwrite l i values).set (i + values.length) value = overwrite l i (values ++ [value]) := by
  have hdrop : l.drop (i + values.length) = l[i + values.length] :: l.drop (i + values.length + 1) :=
    List.drop_eq_getElem_cons h
  have hle : (l.take i).length = i := by
    rw [List.length_take]
    omega
  rw [overwrite, overwrite, hdrop, List.set_append_right _ _ (by omega), hle, Nat.add_sub_cancel_left,
    List.set_append_right _ _ (Nat.le_refl _), Nat.sub_self, List.set_cons_zero, List.length_append,
    List.append_assoc]
  rfl

theorem overwrite_one {l : List α} {i : Nat} (value : α) (h : i < l.length) :
    overwrite l i [value] = l.set i value := by
  have := @overwrite_set _ l i [] value h
  rw [overwrite_nil] at this
  exact this.symm

/-- a part that lies within the middle of three lists -/
theorem overwrite_append {l : List α} {i : Nat} {values : List α} (before after : List α)
    (h : i + values.length ≤ l.length) :
    overwrite (before ++ (l ++ after)) (before.length + i) values
      = before ++ (overwrite l i values ++ after) := by
  have htake : (before ++ (l ++ after)).take (before.length + i) = before ++ l.take i := by
    rw [List.take_length_add_append, List.take_append_of_le_length (by omega)]
  have hdrop : (before ++ (l ++ after)).drop (before.length + i + values.length)
      = l.drop (i + values.length) ++ after := by
    rw [Nat.add_assoc, List.drop_length_add_append, List.drop_append_of_le_length (by omega)]
  rw [overwrite, overwrite, htake, hdrop, List.append_assoc, List.append_assoc, List.append_assoc]

theorem length_padded (zero : α) (values : List α) (capacity : Nat) :
    (padded zero values capacity).length = capacity := by
  rw [padded, List.length_map, List.length_range]

/-- a new array: the values, then zero values up to its capacity -/
theorem padded_eq (zero : α) {values : List α} {capacity : Nat} (h : values.length ≤ capacity) :
    padded zero values capacity = values ++ List.replicate (capacity - values.length) zero := by
  apply List.ext_getElem?
  intro i
  rw [padded, List.getElem?_map]
  by_cases hi : i < capacity
  · rw [List.getElem?_range hi]
    show some ((values[i]?).getD zero) = _
    by_cases hv : i < values.length
    · rw [List.getElem?_append_left hv, List.getElem?_eq_getElem hv]
      rfl
    · rw [List.getElem?_append_right (by omega), List.getElem?_replicate, if_pos (by omega),
        List.getElem?_eq_none (by omega)]
      rfl
  · have hrange : (List.range capacity)[i]? = none := by
      apply List.getElem?_eq_none
      rw [List.length_range]
      omega
    have hright : (values ++ List.replicate (capacity - values.length) zero)[i]? = none := by
      apply List.getElem?_eq_none
      rw [List.length_append, List.length_replicate]
      omega
    rw [hrange, hright]
    rfl

/-- the next zero value of a new array, replaced -/
theorem padded_set (zero : α) {values : List α} {capacity : Nat} (value : α) (h : values.length < capacity) :
    (padded zero values capacity).set values.length value = padded zero (values ++ [value]) capacity := by
  have hsnoc : (values ++ [value]).length = values.length + 1 := by rw [List.length_append, List.length_singleton]
  obtain ⟨n, hn⟩ : ∃ n, capacity - values.length = n + 1 := ⟨capacity - values.length - 1, by omega⟩
  rw [padded_eq zero (Nat.le_of_lt h), padded_eq zero (by omega : (values ++ [value]).length ≤ capacity), hsnoc, hn,
    List.set_append_right _ _ (Nat.le_refl _), Nat.sub_self, List.replicate_succ, List.set_cons_zero,
    List.append_assoc, show capacity - (values.length + 1) = n by omega]
  rfl

/-! ## headers and the heap -/

/-- a slice header, with the array that it points into; the nil slice has none -/
structure Slice (A : Type*) where
  array : Option A
  start : Nat
  len : Nat
  capacity : Nat

/-- the arrays that have been made, by their addresses -/
abbrev Heap (A α : Type*) := A → Option (List α)

/-- what a header shows -/
def read (heap : Heap A α) (s : Slice A) : List α :=
  match s.array with
  | none => []
  | some a => (((heap a).getD []).drop s.start).take s.len

variable [DecidableEq A]

/-- the cells of a header from its `i`-th on, replaced; every other array is as it was -/
def write (heap : Heap A α) (s : Slice A) (i : Nat) (values : List α) : Heap A α :=
  match s.array with
  | none => heap
  | some a => Function.update heap a ((heap a).map fun cells => overwrite cells (s.start + i) values)

section
variable {heap : Heap A α} {s t : Slice A} {a : A} {cells : List α}

theorem read_of_array (hs : s.array = some a) (ha : heap a = some cells) :
    read heap s = (cells.drop s.start).take s.len := by
  rw [read, hs]
  show (((heap a).getD []).drop s.start).take s.len = _
  rw [ha]
  rfl

theorem write_of_array (hs : s.array = some a) (ha : heap a = some cells) (i : Nat) (values : List α) :
    write heap s i values = Function.update heap a (some (overwrite cells (s.start + i) values)) := by
  rw [write, hs]
  show Function.update heap a ((heap a).map _) = _
  rw [ha]
  rfl

/-- the nil header, or one that lies in its array -/
structure Valid (heap : Heap A α) (s : Slice A) : Prop where
  len : s.len ≤ s.capacity
  nil : s.array = none → s.start = 0 ∧ s.capacity = 0
  inside : ∀ a, s.array = some a → ∃ cells, heap a = some cells ∧ s.start + s.capacity ≤ cells.length

/-- a header stays in its array when another array is made -/
theorem Valid.made (h : Valid heap t) (ha : heap a = none) : Valid (Function.update heap a (some cells)) t where
  len := h.len
  nil := h.nil
  inside := by
    intro b hb
    obtain ⟨others, hothers, hinside⟩ := h.inside b hb
    refine ⟨others, ?_, hinside⟩
    rw [Function.update_of_ne]
    · exact hothers
    · intro hba
      rw [hba, ha] at hothers
      cases hothers

/-- and when an array is replaced by one of its length -/
theorem Valid.replaced (h : Valid heap t) (ha : heap a = some cells) {cells' : List α}
    (hlength : cells'.length = cells.length) : Valid (Function.update heap a (some cells')) t where
  len := h.len
  nil := h.nil
  inside := by
    intro b hb
    obtain ⟨others, hothers, hinside⟩ := h.inside b hb
    by_cases hba : b = a
    · rw [hba, ha] at hothers
      cases hothers
      exact ⟨cells', by rw [hba, Function.update_self], by rw [hlength]; exact hinside⟩
    · exact ⟨others, by rw [Function.update_of_ne hba]; exact hothers, hinside⟩

/-- a part of a header, up to its capacity, lies in the same array -/
theorem Valid.slice (h : Valid heap s) {start stop max : Nat} (hstart : start ≤ stop) (hstop : stop ≤ max)
    (hmax : max ≤ s.capacity) : Valid heap ⟨s.array, s.start + start, stop - start, max - start⟩ where
  len := by
    show stop - start ≤ max - start
    omega
  nil := by
    intro hnil
    have := h.nil hnil
    show s.start + start = 0 ∧ max - start = 0
    omega
  inside := by
    intro a ha
    obtain ⟨cells, hcells, hinside⟩ := h.inside a ha
    refine ⟨cells, hcells, ?_⟩
    show s.start + start + (max - start) ≤ cells.length
    omega

end

/-- **`append`**: the header that it returns and the heap after it -/
inductive Append (zero : α) (heap : Heap A α) (s : Slice A) (values : List α) : Slice A → Heap A α → Prop
  | nothing : values = [] → Append zero heap s values s heap
  | within : values ≠ [] → s.len + values.length ≤ s.capacity →
      Append zero heap s values { s with len := s.len + values.length } (write heap s s.len values)
  | grown (a : A) (capacity : Nat) : values ≠ [] → s.capacity < s.len + values.length → heap a = none →
      s.len + values.length ≤ capacity →
      Append zero heap s values ⟨some a, 0, s.len + values.length, capacity⟩
        (Function.update heap a (some (padded zero (read heap s ++ values) capacity)))

end Tsr.Lib.GoSlice
