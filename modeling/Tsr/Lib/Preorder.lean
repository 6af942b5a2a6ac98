import Mathlib

/-!
# Ordered forests numbered in preorder

The nodes of a forest are numbered in preorder, each before what lies below it.

* `nodes`           the nodes in that order, with the forest below each;
* `parents`         the numbers of their parents, in the same order;
* `roots`           the numbers of the roots;
* `childrenOf`      the numbers of the nodes that have a given parent;
* `childrenOf_parents`  they are the roots of the forest below that parent;
* `nodes_roots`     and there stand the nodes of that forest's first level.
-/

namespace Tsr.Lib.Preorder

variable {α : Type}

/-- `children` lie below `label`, `rest` stands behind it -/
inductive Forest (α : Type) where
  | nil
  | cons (label : α) (children rest : Forest α)

namespace Forest

def size : Forest α → Nat
  | nil => 0
  | cons _ children rest => 1 + children.size + rest.size

def nodes : Forest α → List (α × Forest α)
  | nil => []
  | cons label children rest => (label, children) :: (children.nodes ++ rest.nodes)

/-- the first level -/
def level : Forest α → List (α × Forest α)
  | nil => []
  | cons label children rest => (label, children) :: rest.level

/-- `parent` is the number above the forest, `index` the first number in it -/
def parents (parent index : Nat) : Forest α → List Nat
  | nil => []
  | cons _ children rest =>
    parent :: (children.parents index (index + 1) ++ rest.parents parent (index + 1 + children.size))

def roots (index : Nat) : Forest α → List Nat
  | nil => []
  | cons _ children rest => index :: rest.roots (index + 1 + children.size)

/-- one forest behind the other -/
def append : Forest α → Forest α → Forest α
  | nil, g => g
  | cons label children rest, g => cons label children (rest.append g)

variable (f g : Forest α)

section
variable (label : α) (children rest : Forest α)

@[simp] theorem size_cons : (cons label children rest).size = 1 + children.size + rest.size := rfl

@[simp] theorem nodes_nil : (nil : Forest α).nodes = [] := rfl

@[simp] theorem nodes_cons :
    (cons label children rest).nodes = (label, children) :: (children.nodes ++ rest.nodes) := rfl

@[simp] theorem level_cons : (cons label children rest).level = (label, children) :: rest.level := rfl

@[simp] theorem parents_nil (parent index : Nat) : (nil : Forest α).parents parent index = [] := rfl

@[simp] theorem parents_cons (parent index : Nat) : (cons label children rest).parents parent index =
    parent :: (children.parents index (index + 1) ++ rest.parents parent (index + 1 + children.size)) := rfl

@[simp] theorem roots_cons (index : Nat) :
    (cons label children rest).roots index = index :: rest.roots (index + 1 + children.size) := rfl

end

@[simp] theorem length_nodes : f.nodes.length = f.size := by
  induction f with
  | nil => rfl
  | cons label children rest ihc ihr =>
    rw [nodes_cons, List.length_cons, List.length_append, ihc, ihr, size_cons]
    omega

@[simp] theorem length_parents (parent index : Nat) : (f.parents parent index).length = f.size := by
  induction f generalizing parent index with
  | nil => rfl
  | cons label children rest ihc ihr =>
    rw [parents_cons, List.length_cons, List.length_append, ihc, ihr, size_cons]
    omega

theorem size_append : (f.append g).size = f.size + g.size := by
  induction f with
  | nil =>
    show g.size = 0 + g.size
    omega
  | cons label children rest ihc ihr =>
    rw [append, size_cons, size_cons, ihr]
    omega

/-- every parent is a number in front of the end of the forest -/
theorem parents_lt (parent index : Nat) (h : parent < index) (p : Nat)
    (hp : p ∈ f.parents parent index) : p < index + f.size := by
  induction f generalizing parent index with
  | nil => exact absurd hp List.not_mem_nil
  | cons label children rest ihc ihr =>
    rw [parents_cons, List.mem_cons, List.mem_append] at hp
    rw [size_cons]
    rcases hp with rfl | hp | hp
    · omega
    · have := ihc index (index + 1) (by omega) hp
      omega
    · have := ihr parent (index + 1 + children.size) (by omega) hp
      omega

/-- a parent stands in front of its children -/
theorem parent_lt (parent index : Nat) (h : parent < index) (k p : Nat)
    (hp : (f.parents parent index)[k]? = some p) : p < index + k := by
  induction f generalizing parent index k with
  | nil =>
    rw [parents_nil, List.getElem?_nil] at hp
    cases hp
  | cons label children rest ihc ihr =>
    rw [parents_cons] at hp
    cases k with
    | zero =>
      cases hp
      omega
    | succ k =>
      rw [List.getElem?_cons_succ, List.getElem?_append, length_parents] at hp
      split at hp
      · have := ihc index (index + 1) (by omega) k hp
        omega
      · have := ihr parent (index + 1 + children.size) (by omega) (k - children.size) hp
        omega

/-! ## the nodes with one parent -/

/-- the numbers, from `index` on, of the nodes whose parent is `parent` -/
def childrenOf (parent : Nat) : Nat → List Nat → List Nat
  | _, [] => []
  | index, p :: ps =>
    if p = parent then index :: childrenOf parent (index + 1) ps else childrenOf parent (index + 1) ps

theorem childrenOf_cons (parent index p : Nat) (ps : List Nat) : childrenOf parent index (p :: ps) =
    if p = parent then index :: childrenOf parent (index + 1) ps else childrenOf parent (index + 1) ps := rfl

theorem childrenOf_append (parent index : Nat) (ps qs : List Nat) : childrenOf parent index (ps ++ qs) =
    childrenOf parent index ps ++ childrenOf parent (index + ps.length) qs := by
  induction ps generalizing index with
  | nil => rfl
  | cons p ps ih =>
    have hlen : index + 1 + ps.length = index + (ps.length + 1) := by omega
    rw [List.cons_append, childrenOf_cons, childrenOf_cons, ih, List.length_cons, hlen]
    split
    · rw [List.cons_append]
    · rfl

theorem childrenOf_eq_nil (parent index : Nat) (ps : List Nat) (h : ∀ p ∈ ps, p ≠ parent) :
    childrenOf parent index ps = [] := by
  induction ps generalizing index with
  | nil => rfl
  | cons p ps ih =>
    rw [childrenOf_cons, if_neg (h p List.mem_cons_self), ih _ fun q hq => h q (List.mem_cons_of_mem _ hq)]

/-- a number is listed where its parent stands -/
theorem mem_childrenOf (parent index : Nat) (ps : List Nat) (j : Nat) :
    j ∈ childrenOf parent index ps ↔ ∃ k, ps[k]? = some parent ∧ j = index + k := by
  induction ps generalizing index with
  | nil =>
    constructor
    · intro h
      exact absurd h List.not_mem_nil
    · intro h
      obtain ⟨k, hk, -⟩ := h
      rw [List.getElem?_nil] at hk
      cases hk
  | cons p ps ih =>
    have hrest : j ∈ childrenOf parent (index + 1) ps ↔ ∃ k, (p :: ps)[k + 1]? = some parent ∧
        j = index + (k + 1) := by
      rw [ih]
      constructor
      · intro h
        obtain ⟨k, hk, hj⟩ := h
        exact ⟨k, hk, by omega⟩
      · intro h
        obtain ⟨k, hk, hj⟩ := h
        exact ⟨k, hk, by omega⟩
    rw [childrenOf_cons]
    by_cases hp : p = parent
    · rw [if_pos hp, List.mem_cons, hrest]
      constructor
      · intro h
        rcases h with rfl | ⟨k, hk, hj⟩
        · exact ⟨0, by rw [hp]; rfl, rfl⟩
        · exact ⟨k + 1, hk, hj⟩
      · intro h
        obtain ⟨k, hk, hj⟩ := h
        cases k with
        | zero => exact Or.inl hj
        | succ k => exact Or.inr ⟨k, hk, hj⟩
    · rw [if_neg hp, hrest]
      constructor
      · intro h
        obtain ⟨k, hk, hj⟩ := h
        exact ⟨k + 1, hk, hj⟩
      · intro h
        obtain ⟨k, hk, hj⟩ := h
        cases k with
        | zero => exact absurd (Option.some.inj hk) hp
        | succ k => exact ⟨k, hk, hj⟩

/-- a number in front of the forest has its roots below it, or nothing -/
theorem childrenOf_of_lt (parent index q : Nat) (hq : q < index) :
    childrenOf q index (f.parents parent index) = if parent = q then f.roots index else [] := by
  induction f generalizing parent index with
  | nil => exact (ite_self _).symm
  | cons label children rest ihc ihr =>
    have hne : index ≠ q := by omega
    rw [parents_cons, childrenOf_cons, childrenOf_append, length_parents, ihc index (index + 1) (by omega), if_neg hne,
      ihr parent (index + 1 + children.size) (by omega), List.nil_append]
    by_cases hpq : parent = q
    · rw [if_pos hpq, if_pos hpq, if_pos hpq, roots_cons]
    · rw [if_neg hpq, if_neg hpq, if_neg hpq]

/-- **Below a node stand the roots of its forest.** -/
theorem childrenOf_parents (parent index : Nat) (h : parent < index) (k : Nat) (label : α)
    (c : Forest α) (hk : f.nodes[k]? = some (label, c)) :
    childrenOf (index + k) index (f.parents parent index) = c.roots (index + k + 1) := by
  induction f generalizing parent index k with
  | nil =>
    rw [nodes_nil, List.getElem?_nil] at hk
    cases hk
  | cons l children rest ihc ihr =>
    have hhead : parent ≠ index + k := by omega
    rw [parents_cons, childrenOf_cons, if_neg hhead, childrenOf_append, length_parents]
    cases k with
    | zero =>
      cases hk
      rw [Nat.add_zero, childrenOf_of_lt c index (index + 1) index (by omega), if_pos rfl,
        childrenOf_of_lt rest parent (index + 1 + c.size) index (by omega), if_neg (by omega),
        List.append_nil]
    | succ k =>
      rw [nodes_cons, List.getElem?_cons_succ] at hk
      by_cases hlt : k < children.size
      · rw [List.getElem?_append_left (by rwa [length_nodes])] at hk
        have hchild := ihc index (index + 1) (by omega) k hk
        rw [show index + (k + 1) = index + 1 + k by omega, hchild,
          childrenOf_of_lt rest parent (index + 1 + children.size) (index + 1 + k) (by omega),
          if_neg (by omega), List.append_nil]
      · rw [List.getElem?_append_right (by rw [length_nodes]; omega), length_nodes] at hk
        have hrest := ihr parent (index + 1 + children.size) (by omega) (k - children.size) hk
        have hnum : index + 1 + children.size + (k - children.size) = index + (k + 1) := by omega
        rw [hnum] at hrest
        rw [hrest, childrenOf_eq_nil, List.nil_append]
        intro p hp
        have := parents_lt children index (index + 1) (by omega) p hp
        omega

/-- what lies below a node follows it -/
theorem nodes_below (k : Nat) (label : α) (c : Forest α) (hk : f.nodes[k]? = some (label, c))
    (m : Nat) (hm : m < c.size) : f.nodes[k + 1 + m]? = c.nodes[m]? := by
  induction f generalizing k with
  | nil =>
    rw [nodes_nil, List.getElem?_nil] at hk
    cases hk
  | cons l children rest ihc ihr =>
    rw [show k + 1 + m = (k + m) + 1 by omega, nodes_cons, List.getElem?_cons_succ]
    cases k with
    | zero =>
      cases hk
      rw [Nat.zero_add, List.getElem?_append_left (by rwa [length_nodes])]
    | succ k =>
      rw [nodes_cons, List.getElem?_cons_succ] at hk
      by_cases hlt : k < children.size
      · rw [List.getElem?_append_left (by rwa [length_nodes])] at hk
        have hchild := ihc k hk
        have hin : k + 1 + m < children.nodes.length := by
          by_contra hout
          rw [List.getElem?_eq_none (Nat.le_of_not_lt hout), eq_comm, List.getElem?_eq_none_iff,
            length_nodes] at hchild
          omega
        rw [List.getElem?_append_left hin, hchild]
      · rw [List.getElem?_append_right (by rw [length_nodes]; omega), length_nodes] at hk
        rw [List.getElem?_append_right (by rw [length_nodes]; omega), length_nodes, ← ihr _ hk]
        congr 1
        omega

/-- **At the numbers of the roots stand the nodes of the first level.** -/
theorem nodes_roots (index : Nat) :
    (f.roots index).map (fun j => f.nodes[j - index]?) = f.level.map some := by
  have hgo : ∀ (f g : Forest α) (offset : Nat), (∀ m, m < f.size → g.nodes[offset + m]? = f.nodes[m]?) →
      (f.roots (index + offset)).map (fun j => g.nodes[j - index]?) = f.level.map some := by
    intro f
    induction f with
    | nil =>
      intro g offset h
      rfl
    | cons label children rest ihc ihr =>
      intro g offset h
      have hfirst := h 0 (by rw [size_cons]; omega)
      have hrest := ihr g (offset + 1 + children.size) (by
        intro m hm
        have hnext := h (1 + children.size + m) (by rw [size_cons]; omega)
        rw [nodes_cons, show 1 + children.size + m = (children.size + m) + 1 by omega,
          List.getElem?_cons_succ, List.getElem?_append_right (by rw [length_nodes]; omega),
          length_nodes, show children.size + m - children.size = m by omega] at hnext
        rw [← hnext]
        congr 1
        omega)
      rw [roots_cons, level_cons, List.map_cons, List.map_cons,
        show index + offset - index = offset + 0 by omega, hfirst,
        show index + offset + 1 + children.size = index + (offset + 1 + children.size) by omega, hrest]
      rfl
  have := hgo f f 0 fun m _ => by rw [Nat.zero_add]
  rwa [Nat.add_zero] at this

end Forest

end Tsr.Lib.Preorder
