import Tsr.Encoder.StringTable
import Tsr.Lib.Preorder

/-!
# The walk over a tree

Nodes and lists are visited in preorder, with an explicit stack; the comments attached to a node come
behind its ordinary descendants.

* `Tree`         nodes with their children and comments, lists with their elements;
* `Walk.next`    the next node or list, with its number and that of its parent;
* `visits`       all of them;
* `Stack.forest` what is still to be visited, as an ordered forest;
* `visits_eq`    the walk numbers that forest in preorder.
-/

set_option linter.unusedVariables false

namespace Tsr.Encoder
open Tsr.Json (Bytes)
open Tsr.Lib.Preorder

/-- what is written of a node beside its place; all but the kind are words of 32 bits -/
structure NodeData where
  kind : NodeKind
  pos : Nat
  stop : Nat
  data : Nat
  flags : Nat
deriving DecidableEq

structure ListData where
  pos : Nat
  stop : Nat
  trailingComma : Bool
deriving DecidableEq

/-- `jsdoc` are the comments attached to a node, `none` is an element that is missing -/
inductive Tree where
  | node (data : NodeData) (children jsdoc : List Tree)
  | list (data : ListData) (elements : List (Option Tree))

mutual

def Tree.weight : Tree → Nat
  | .node _ children jsdoc => weights children + weights jsdoc + 3
  | .list _ elements => elementWeights elements + 1

def weights : List Tree → Nat
  | [] => 0
  | t :: ts => t.weight + weights ts

def elementWeights : List (Option Tree) → Nat
  | [] => 0
  | none :: ts => elementWeights ts
  | some t :: ts => t.weight + elementWeights ts

end

theorem weights_append (ts us : List Tree) : weights (ts ++ us) = weights ts + weights us := by
  induction ts with
  | nil =>
    show weights us = 0 + weights us
    omega
  | cons t ts ih =>
    show t.weight + weights (ts ++ us) = t.weight + weights ts + weights us
    omega

theorem weights_elements (elements : List (Option Tree)) :
    weights elements.reduceOption = elementWeights elements := by
  induction elements with
  | nil => rfl
  | cons t ts ih =>
    cases t with
    | none => exact ih
    | some t =>
      show t.weight + weights ts.reduceOption = t.weight + elementWeights ts
      rw [ih]

/-- `source` says that comments are visited -/
def Tree.ordered (source : Bool) : Tree → List Tree
  | .node _ children jsdoc => children ++ (if source then jsdoc else [])
  | .list _ elements => elements.reduceOption

theorem weights_ordered (source : Bool) (t : Tree) : weights (t.ordered source) < t.weight := by
  cases t with
  | node data children jsdoc =>
    show weights (children ++ _) < weights children + weights jsdoc + 3
    rw [weights_append]
    cases source with
    | true =>
      show weights children + weights jsdoc < _
      omega
    | false =>
      show weights children + 0 < _
      omega
  | list data elements =>
    show weights elements.reduceOption < elementWeights elements + 1
    rw [weights_elements]
    omega

/-! ## the stack -/

inductive Pending where
  | edge (t : Tree) (parent : Nat)
  | children (children jsdoc : List Tree) (index : Nat)
  | jsDoc (jsdoc : List Tree) (index : Nat)

def Pending.weight : Pending → Nat
  | .edge t _ => t.weight
  | .children cs docs _ => weights cs + weights docs + 2
  | .jsDoc docs _ => weights docs + 1

def pendingWeight (pending : List Pending) : Nat := (pending.map Pending.weight).sum

def edges (ts : List Tree) (index : Nat) : List Pending := ts.map fun t => .edge t index

theorem pendingWeight_cons (p : Pending) (pending : List Pending) :
    pendingWeight (p :: pending) = p.weight + pendingWeight pending := List.sum_cons

theorem pendingWeight_edges (ts : List Tree) (index : Nat) (pending : List Pending) :
    pendingWeight (edges ts index ++ pending) = weights ts + pendingWeight pending := by
  induction ts with
  | nil =>
    show pendingWeight pending = 0 + pendingWeight pending
    omega
  | cons t ts ih =>
    show pendingWeight (.edge t index :: (edges ts index ++ pending)) = t.weight + weights ts + _
    rw [pendingWeight_cons, ih]
    show t.weight + _ = _
    omega

/-- the top of the stack comes first -/
structure Walk where
  source : Bool
  pending : List Pending
  index : Nat

/-- number, number of the parent, and what stands there -/
abbrev Visit := Nat × Nat × Tree

def Walk.new (root : Tree) (source : Bool) : Walk := ⟨source, [.edge root 0], 0⟩

/-- comments are visited only where there is a source file -/
def comments (source : Bool) (jsdoc : List Tree) (index : Nat) : List Pending :=
  if source then [.jsDoc jsdoc index] else []

def Walk.next (w : Walk) : Option (Visit × Walk) :=
  match h : w.pending with
  | [] => none
  | .children cs docs index :: rest =>
    Walk.next { w with pending := edges cs index ++ (comments w.source docs index ++ rest) }
  | .jsDoc docs index :: rest => Walk.next { w with pending := edges docs index ++ rest }
  | .edge t parent :: rest =>
    let index := wrap32 (w.index + 1)
    match t with
    | .node data cs docs =>
      some ((index, parent, t), ⟨w.source, .children cs docs index :: rest, index⟩)
    | .list data elements =>
      some ((index, parent, t), ⟨w.source, edges elements.reduceOption index ++ rest, index⟩)
termination_by pendingWeight w.pending
decreasing_by
  · rw [h, pendingWeight_edges, pendingWeight_cons, Pending.weight, comments]
    split
    · rw [List.singleton_append, pendingWeight_cons, Pending.weight]
      omega
    · rw [List.nil_append]
      omega
  · rw [h, pendingWeight_edges, pendingWeight_cons, Pending.weight]
    omega

theorem weight_next (w : Walk) (v : Visit) (w' : Walk) (h : w.next = some (v, w')) :
    pendingWeight w'.pending < pendingWeight w.pending := by
  fun_induction Walk.next w with
  | case1 w hp => cases h
  | case2 w cs docs index rest hp ih =>
    have hlt := ih h
    rw [pendingWeight_edges, comments] at hlt
    rw [hp, pendingWeight_cons, Pending.weight]
    split at hlt
    · rw [List.singleton_append, pendingWeight_cons, Pending.weight] at hlt
      omega
    · rw [List.nil_append] at hlt
      omega
  | case3 w docs index rest hp ih =>
    have hlt := ih h
    rw [pendingWeight_edges] at hlt
    rw [hp, pendingWeight_cons, Pending.weight]
    omega
  | case4 w parent rest index data cs docs hp hp' =>
    cases h
    rw [hp, pendingWeight_cons, pendingWeight_cons, Pending.weight, Pending.weight, Tree.weight]
    omega
  | case5 w parent rest index data elements hp hp' =>
    cases h
    rw [hp, pendingWeight_cons, pendingWeight_edges, Pending.weight, Tree.weight, weights_elements]
    omega

/-- everything the walk comes to -/
def visits (w : Walk) : List Visit :=
  match h : w.next with
  | none => []
  | some (v, w') => v :: visits w'
termination_by pendingWeight w.pending
decreasing_by exact weight_next w v w' h

/-! ## the ordered forest -/

/-- the trees of a list, each above its ordered children -/
def forest (source : Bool) (ts : List Tree) : Forest Tree :=
  match ts with
  | [] => .nil
  | t :: ts => .cons t (forest source (t.ordered source)) (forest source ts)
termination_by weights ts
decreasing_by
  · have := weights_ordered source t
    rw [weights]
    omega
  · have := weights_ordered true t
    rw [weights]
    omega

section
variable (source : Bool)

theorem forest_append (ts us : List Tree) :
    forest source (ts ++ us) = (forest source ts).append (forest source us) := by
  induction ts with
  | nil =>
    rw [List.nil_append, forest]
    rfl
  | cons t ts ih => rw [List.cons_append, forest, ih, forest, Forest.append]

/-- below a tree stand its ordered children -/
theorem nodes_forest (ts : List Tree) (t : Tree) (below : Forest Tree)
    (h : (t, below) ∈ (forest source ts).nodes) : below = forest source (t.ordered source) := by
  fun_induction forest source ts with
  | case1 => exact absurd h List.not_mem_nil
  | case2 u ts ihc ihr =>
    rw [Forest.nodes, List.mem_cons, List.mem_append] at h
    rcases h with h | h | h
    · cases h
      rfl
    · exact ihc h
    · exact ihr h

theorem level_forest (ts : List Tree) :
    (forest source ts).level = ts.map fun t => (t, forest source (t.ordered source)) := by
  induction ts with
  | nil =>
    rw [forest]
    rfl
  | cons t ts ih => rw [forest, Forest.level, ih, List.map_cons]

/-- a forest numbered in preorder -/
def numbered (parent index : Nat) : Forest Tree → List Visit
  | .nil => []
  | .cons t children rest => (index, parent, t) ::
    (numbered index (index + 1) children ++ numbered parent (index + 1 + children.size) rest)

theorem numbered_append (parent index : Nat) (f g : Forest Tree) :
    numbered parent index (f.append g) =
      numbered parent index f ++ numbered parent (index + f.size) g := by
  induction f generalizing index with
  | nil => rfl
  | cons t children rest ihc ihr =>
    have hsize : index + 1 + children.size + rest.size = index + (1 + children.size + rest.size) := by
      omega
    rw [Forest.append, numbered, numbered, ihr, List.cons_append, List.append_assoc, Forest.size, hsize]

theorem map_numbered (parent index : Nat) (f : Forest Tree) :
    (numbered parent index f).map (·.2) = (f.parents parent index).zip (f.nodes.map (·.1)) := by
  induction f generalizing parent index with
  | nil => rfl
  | cons t children rest ihc ihr =>
    rw [numbered, List.map_cons, List.map_append, ihc, ihr, Forest.parents, Forest.nodes,
      List.map_cons, List.map_append, List.zip_cons_cons, List.zip_append]
    rw [Forest.length_parents, List.length_map, Forest.length_nodes]

theorem index_numbered (parent index : Nat) (f : Forest Tree) :
    (numbered parent index f).map (·.1) = List.range' index f.size := by
  induction f generalizing parent index with
  | nil => rfl
  | cons t children rest ihc ihr =>
    rw [numbered, List.map_cons, List.map_append, ihc, ihr, Forest.size,
      show 1 + children.size + rest.size = (children.size + rest.size) + 1 by omega,
      List.range'_succ, ← List.range'_append_1]

/-! ## the stack as a forest -/

/-- what is to be visited at a place of the stack, and the number above it -/
def Pending.forest : Pending → Forest Tree × Nat
  | .edge t parent => (Tsr.Encoder.forest source [t], parent)
  | .children cs docs index =>
    (Tsr.Encoder.forest source (cs ++ (if source then docs else [])), index)
  | .jsDoc docs index => (Tsr.Encoder.forest source docs, index)

def stackSize (pending : List Pending) : Nat := (pending.map fun p => (p.forest source).1.size).sum

def stackVisits : Nat → List Pending → List Visit
  | _, [] => []
  | index, p :: rest => numbered (p.forest source).2 index (p.forest source).1 ++
    stackVisits (index + (p.forest source).1.size) rest

theorem stackSize_cons (p : Pending) (pending : List Pending) :
    stackSize source (p :: pending) = (p.forest source).1.size + stackSize source pending :=
  List.sum_cons

theorem stackSize_edges (ts : List Tree) (parent : Nat) (rest : List Pending) :
    stackSize source (edges ts parent ++ rest) =
      (forest source ts).size + stackSize source rest := by
  induction ts with
  | nil =>
    rw [forest]
    exact (Nat.zero_add _).symm
  | cons t ts ih =>
    show stackSize source (.edge t parent :: (edges ts parent ++ rest)) = _
    rw [stackSize_cons, ih, Pending.forest, forest, forest, Forest.size, forest, Forest.size, Forest.size]
    omega

theorem stackVisits_edges (ts : List Tree) (parent index : Nat) (rest : List Pending) :
    stackVisits source index (edges ts parent ++ rest) =
      numbered parent index (forest source ts) ++
        stackVisits source (index + (forest source ts).size) rest := by
  induction ts generalizing index with
  | nil =>
    rw [forest]
    rfl
  | cons t ts ih =>
    show stackVisits source index (.edge t parent :: (edges ts parent ++ rest)) = _
    have happ : forest source (t :: ts) = (forest source [t]).append (forest source ts) :=
      forest_append source [t] ts
    rw [stackVisits, ih, happ, numbered_append, Forest.size_append, List.append_assoc, Nat.add_assoc]
    rfl

end

/-- the forest of one tree, numbered -/
theorem numbered_single (source : Bool) (t : Tree) (parent index : Nat) :
    numbered parent index (forest source [t]) =
      (index, parent, t) :: numbered index (index + 1) (forest source (t.ordered source)) := by
  rw [forest, numbered, forest, numbered, List.append_nil]

theorem size_single (source : Bool) (t : Tree) :
    (forest source [t]).size = 1 + (forest source (t.ordered source)).size := by
  rw [forest, Forest.size, forest]
  rfl

/-- the comments of a node on the stack, behind its children -/
theorem stack_children (source : Bool) (cs docs : List Tree) (i index : Nat) (rest : List Pending) :
    stackSize source (edges cs i ++ (comments source docs i ++ rest)) =
      stackSize source (.children cs docs i :: rest) ∧
    stackVisits source index (edges cs i ++ (comments source docs i ++ rest)) =
      stackVisits source index (.children cs docs i :: rest) := by
  rw [stackSize_edges, stackVisits_edges, stackSize_cons, stackVisits, Pending.forest, comments]
  cases source with
  | true =>
    rw [if_pos rfl, if_pos rfl, List.singleton_append, stackSize_cons, stackVisits, forest_append,
      Forest.size_append, numbered_append, Pending.forest, List.append_assoc]
    refine ⟨?_, ?_⟩
    · show _ + ((forest true docs).size + _) = _
      omega
    · rw [Nat.add_assoc]
  | false =>
    rw [if_neg Bool.false_ne_true, if_neg Bool.false_ne_true, List.nil_append, List.append_nil]
    exact ⟨rfl, rfl⟩

theorem stack_jsDoc (source : Bool) (docs : List Tree) (i index : Nat) (rest : List Pending) :
    stackSize source (edges docs i ++ rest) = stackSize source (.jsDoc docs i :: rest) ∧
    stackVisits source index (edges docs i ++ rest) =
      stackVisits source index (.jsDoc docs i :: rest) := by
  rw [stackSize_edges, stackVisits_edges]
  exact ⟨rfl, rfl⟩

/-- what a step leaves to be visited -/
structure Step (w : Walk) (v : Visit) (w' : Walk) : Prop where
  source : w'.source = w.source
  size : w'.index + stackSize w'.source w'.pending = w.index + stackSize w.source w.pending
  visits : stackVisits w.source (w.index + 1) w.pending =
    v :: stackVisits w'.source (w'.index + 1) w'.pending

/-- **One step of the walk.** -/
theorem next_spec (w : Walk) (hsize : w.index + stackSize w.source w.pending < 2 ^ 32) :
    (w.next = none → stackVisits w.source (w.index + 1) w.pending = []) ∧
    ∀ v w', w.next = some (v, w') → Step w v w' := by
  fun_induction Walk.next w with
  | case1 w hp =>
    refine ⟨?_, ?_⟩
    · intro h
      rw [hp]
      rfl
    · intro v w' h
      cases h
  | case2 w cs docs index rest hp ih =>
    obtain ⟨hsz, hvis⟩ := stack_children w.source cs docs index (w.index + 1) rest
    rw [hp] at hsize
    obtain ⟨hnone, hsome⟩ := ih (by rw [hsz]; exact hsize)
    refine ⟨?_, ?_⟩
    · intro h
      rw [hp, ← hvis]
      exact hnone h
    · intro v w' h
      obtain ⟨h1, h2, h3⟩ := hsome v w' h
      refine ⟨h1, ?_, ?_⟩
      · rw [h2, hp, ← hsz]
      · rw [hp, ← hvis]
        exact h3
  | case3 w docs index rest hp ih =>
    obtain ⟨hsz, hvis⟩ := stack_jsDoc w.source docs index (w.index + 1) rest
    rw [hp] at hsize
    obtain ⟨hnone, hsome⟩ := ih (by rw [hsz]; exact hsize)
    refine ⟨?_, ?_⟩
    · intro h
      rw [hp, ← hvis]
      exact hnone h
    · intro v w' h
      obtain ⟨h1, h2, h3⟩ := hsome v w' h
      refine ⟨h1, ?_, ?_⟩
      · rw [h2, hp, ← hsz]
      · rw [hp, ← hvis]
        exact h3
  | case4 w parent rest index data cs docs hp hp' =>
    refine ⟨fun h => absurd h (Option.some_ne_none _), ?_⟩
    intro v w' h
    cases h
    rw [hp, stackSize_cons, Pending.forest, size_single] at hsize
    have hindex : index = w.index + 1 := wrap32_of_lt (by omega)
    refine ⟨rfl, ?_, ?_⟩
    · show index + stackSize w.source (.children cs docs index :: rest) = _
      rw [hp, stackSize_cons, stackSize_cons, Pending.forest, Pending.forest, size_single, hindex,
        Tree.ordered]
      show w.index + 1 + ((forest w.source (cs ++ if w.source = true then docs else [])).size + _) = _
      omega
    · rw [hp, stackVisits, Pending.forest, numbered_single, size_single, hindex, stackVisits,
        Pending.forest, Tree.ordered, List.cons_append, ← Nat.add_assoc (w.index + 1) 1]
  | case5 w parent rest index data elements hp hp' =>
    refine ⟨fun h => absurd h (Option.some_ne_none _), ?_⟩
    intro v w' h
    cases h
    rw [hp, stackSize_cons, Pending.forest, size_single] at hsize
    have hindex : index = w.index + 1 := wrap32_of_lt (by omega)
    refine ⟨rfl, ?_, ?_⟩
    · show index + stackSize w.source (edges elements.reduceOption index ++ rest) = _
      rw [hp, stackSize_cons, stackSize_edges, Pending.forest, size_single, hindex, Tree.ordered]
      omega
    · rw [hp, stackVisits, Pending.forest, numbered_single, size_single, hindex, stackVisits_edges,
        Tree.ordered, List.cons_append, ← Nat.add_assoc (w.index + 1) 1]

theorem visits_of_stack (w : Walk) (hsize : w.index + stackSize w.source w.pending < 2 ^ 32) :
    visits w = stackVisits w.source (w.index + 1) w.pending := by
  fun_induction visits w with
  | case1 w h => exact ((next_spec w hsize).1 h).symm
  | case2 w v w' h ih =>
    have hstep := (next_spec w hsize).2 v w' h
    rw [hstep.visits, ih (by rw [hstep.size]; exact hsize)]

/-- **The walk numbers the tree in preorder**, the comments of a node behind its other children. -/
theorem visits_eq (root : Tree) (source : Bool) (hsize : (forest source [root]).size < 2 ^ 32) :
    visits (Walk.new root source) = numbered 0 1 (forest source [root]) := by
  have hstack : stackSize source [.edge root 0] = (forest source [root]).size := rfl
  rw [visits_of_stack _ (by show 0 + stackSize source [.edge root 0] < _; omega)]
  show numbered 0 1 (forest source [root]) ++ [] = _
  rw [List.append_nil]

end Tsr.Encoder
