import Tsr.Lib.Loop

/-!
# A complete binary tree over a list

The nodes of the tree are numbered from `1`: below node `n` are `2 * n` and `2 * n + 1`.  The leaves
hold a key of each element of a list and are padded to a power of two; a node holds the join of the
two below it.

* `leafCount`, `build`   the tree;
* `collect`              the elements below a node, in front of a limit, whose keys are kept; a node
                         whose join is not kept is left out;
* `collect_root`         it is the filter of the elements in front of the limit.
-/

namespace Tsr.Lib.JoinTree
open Tsr.Lib.Loop

variable {α β : Type}

/-! ## building -/

def doubling (n c : Nat) : Pass Nat Nat := if c < n then .again (c * 2) else .leave c

/-- the least power of two that is at least `n` -/
def leafCount (n : Nat) : Nat := loop (doubling n) id (fun c => n - c) 1

theorem leafCount_spec (n : Nat) : n ≤ leafCount n ∧ ∃ d, leafCount n = 2 ^ d := by
  refine loop_rule (doubling n) id (fun c => n - c) (fun c => ∃ d, c = 2 ^ d) ?_
    (fun c => n ≤ c ∧ ∃ d, c = 2 ^ d) ?_ 1 ⟨0, rfl⟩
  · intro c c' h hpass
    obtain ⟨d, rfl⟩ := h
    rw [doubling] at hpass
    split at hpass
    next hlt =>
      cases hpass
      have := Nat.one_le_two_pow (n := d)
      exact ⟨⟨d + 1, rfl⟩, by omega⟩
    next => cases hpass
  · intro c c' h hpass
    rw [doubling] at hpass
    split at hpass
    next => cases hpass
    next hge =>
      cases hpass
      exact ⟨Nat.not_lt.1 hge, h⟩

section
variable (join : β → β → β) (pad : β)

/-- sets the nodes from the one given down to the root -/
def fill : Nat → List β → List β
  | 0, tree => tree
  | i + 1, tree =>
    fill i (tree.set (i + 1) (join (tree.getD (2 * (i + 1)) pad) (tree.getD (2 * (i + 1) + 1) pad)))

/-- the leaves stand in the second half -/
def leaves (keys : List β) : List β :=
  let count := leafCount keys.length
  List.replicate count pad ++ keys ++ List.replicate (count - keys.length) pad

def build (keys : List β) : List β := fill join pad (leafCount keys.length - 1) (leaves pad keys)

theorem length_leaves (keys : List β) : (leaves pad keys).length = 2 * leafCount keys.length := by
  have hle := (leafCount_spec keys.length).1
  rw [leaves]
  simp only [List.length_append, List.length_replicate]
  omega

variable {join pad} {tree : List β}

/-- the nodes behind stay as they are -/
theorem fill_behind {i j : Nat} (h : i < j) : (fill join pad i tree).getD j pad = tree.getD j pad := by
  induction i generalizing tree with
  | zero => rfl
  | succ i ih =>
    rw [fill, ih (by omega), List.getD_eq_getElem?_getD, List.getElem?_set_ne (by omega),
      ← List.getD_eq_getElem?_getD]

/-- every node that is set is the join of the two below it -/
theorem fill_node {i j : Nat} (hj : 1 ≤ j) (hji : j ≤ i) (hi : i < tree.length) :
    (fill join pad i tree).getD j pad =
      join ((fill join pad i tree).getD (2 * j) pad) ((fill join pad i tree).getD (2 * j + 1) pad) := by
  induction i generalizing tree with
  | zero => omega
  | succ i ih =>
    rcases Nat.lt_or_eq_of_le hji with hlt | rfl
    · rw [fill]
      exact ih (by omega) (by rw [List.length_set]; omega)
    · -- the node that is set now; the two below it lie behind
      have hset : ∀ k, i + 1 < k → (fill join pad (i + 1) tree).getD k pad = tree.getD k pad :=
        fun k hk => fill_behind hk
      rw [hset (2 * (i + 1)) (by omega), hset (2 * (i + 1) + 1) (by omega), fill, fill_behind (Nat.lt_succ_self i),
        List.getD_eq_getElem?_getD, List.getElem?_set_self hi]
      rfl

/-- the tree of a list of keys -/
structure TreeOf (join : β → β → β) (pad : β) (keys tree : List β) (count : Nat) : Prop where
  leaf : ∀ i k, keys[i]? = some k → tree.getD (count + i) pad = k
  node : ∀ j, 1 ≤ j → j < count → tree.getD j pad = join (tree.getD (2 * j) pad) (tree.getD (2 * j + 1) pad)

variable (join pad) in
theorem treeOf_build (keys : List β) :
    TreeOf join pad keys (build join pad keys) (leafCount keys.length) := by
  obtain ⟨hle, d, hd⟩ := leafCount_spec keys.length
  have hpos := Nat.one_le_two_pow (n := d)
  have hlen := length_leaves pad keys
  refine ⟨?_, ?_⟩
  · intro i k hk
    rw [build, fill_behind (by omega), leaves, List.getD_eq_getElem?_getD]
    have hi := (List.getElem?_eq_some_iff.1 hk).1
    rw [List.append_assoc, List.getElem?_append_right (by simp), List.length_replicate,
      Nat.add_sub_cancel_left, List.getElem?_append_left hi, hk]
    rfl
  · intro j hj hlt
    exact fill_node hj (by omega) (by omega)

end

/-! ## collecting -/

section
variable (pad : β) (tree : List β) (keep : β → Bool) (xs : List α) (limit : Nat)

/-- the elements below `node`, which stand from `start` to `stop`; the range of a node is a power of
two, so that it is never empty -/
def collect (node start stop : Nat) : List α :=
  if limit ≤ start ∨ keep (tree.getD node pad) = false then []
  else if stop - start = 1 then xs[start]?.toList
  else if _h : 2 ≤ stop - start then
    let middle := start + (stop - start) / 2
    collect (2 * node) start middle ++ collect (2 * node + 1) middle stop
  else []
termination_by stop - start
decreasing_by all_goals omega

variable {pad tree keep xs limit} {join : β → β → β} {key : α → β} {count : Nat}
variable (ht : TreeOf join pad (xs.map key) tree count)
variable (hjoin : ∀ a b, keep (join a b) = (keep a || keep b))

include ht hjoin in
/-- above a leaf that is kept all nodes are -/
theorem keep_above (d node start : Nat) {i : Nat} {x : α} (hnode : count + start = node * 2 ^ d)
    (hn : 1 ≤ node) (hcount : start + 2 ^ d ≤ count) (hi : start ≤ i) (hlt : i < start + 2 ^ d)
    (hx : xs[i]? = some x) (hk : keep (key x) = true) : keep (tree.getD node pad) = true := by
  induction d generalizing node start with
  | zero =>
    rw [Nat.pow_zero] at hnode hlt
    obtain rfl : i = start := by omega
    have hkey : (xs.map key)[i]? = some (key x) := by rw [List.getElem?_map, hx]; rfl
    rw [show node = count + i by omega, ht.leaf i _ hkey]
    exact hk
  | succ d ih =>
    rw [Nat.pow_succ] at hnode hcount hlt
    have hinner : node < count := by
      have hpow := Nat.one_le_two_pow (n := d)
      by_contra hge
      have hmul := Nat.mul_le_mul_right (2 ^ d * 2) (Nat.not_lt.1 hge)
      nlinarith
    rw [ht.node node hn hinner, hjoin, Bool.or_eq_true]
    by_cases hmid : i < start + 2 ^ d
    · left
      exact ih (2 * node) start (by rw [hnode]; ring) (by omega) (by omega) hi hmid
    · right
      exact ih (2 * node + 1) (start + 2 ^ d) (by rw [← Nat.add_assoc, hnode]; ring)
        (by omega) (by omega) (by omega) (by omega)

include ht hjoin in
/-- **Collecting is filtering**: below every node. -/
theorem collect_eq (hlimit : limit ≤ xs.length) (d node start : Nat)
    (hnode : count + start = node * 2 ^ d) (hn : 1 ≤ node) (hcount : start + 2 ^ d ≤ count) :
    collect pad tree keep xs limit node start (start + 2 ^ d) =
      ((((xs.take limit).drop start).take (2 ^ d)).filter fun x => keep (key x)) := by
  induction d generalizing node start with
  | zero =>
    rw [collect]
    by_cases hstart : limit ≤ start
    · rw [if_pos (Or.inl hstart), List.drop_eq_nil_of_le (by rw [List.length_take]; omega)]
      rfl
    have hlen : start < xs.length := by omega
    have hslice : ((xs.take limit).drop start).take (2 ^ 0) = [xs[start]] := by
      rw [List.drop_eq_getElem_cons (by rw [List.length_take]; omega), List.getElem_take]
      rfl
    have hkey : tree.getD node pad = key xs[start] := by
      rw [Nat.pow_zero, Nat.mul_one] at hnode
      rw [← hnode]
      exact ht.leaf start _ (by rw [List.getElem?_map, List.getElem?_eq_getElem hlen]; rfl)
    have hfilter : ([xs[start]].filter fun x => keep (key x)) =
        if keep (key xs[start]) = true then [xs[start]] else [] := by
      rw [List.filter_cons, List.filter_nil]
    rw [hslice, hkey, hfilter]
    by_cases hk : keep (key xs[start]) = true
    · rw [if_neg (by simp [hk, hstart]), if_pos (by omega), List.getElem?_eq_getElem hlen,
        if_pos hk]
      rfl
    · rw [if_pos (Or.inr (by simpa using hk)), if_neg hk]
  | succ d ih =>
    rw [collect]
    have hpow := Nat.one_le_two_pow (n := d)
    by_cases hstart : limit ≤ start
    · rw [if_pos (Or.inl hstart), List.drop_eq_nil_of_le (by rw [List.length_take]; omega),
        List.take_nil]
      rfl
    by_cases hk : keep (tree.getD node pad) = true
    · have hinside : ¬ (limit ≤ start ∨ keep (tree.getD node pad) = false) := by
        rw [hk]
        intro h
        rcases h with h | h
        · exact hstart h
        · cases h
      rw [Nat.pow_succ] at hnode hcount ⊢
      rw [if_neg hinside, if_neg (by omega), dif_pos (by omega)]
      have hmiddle : start + (start + 2 ^ d * 2 - start) / 2 = start + 2 ^ d := by omega
      have hleft := ih (2 * node) start (by rw [hnode]; ring) (by omega) (by omega)
      have hright := ih (2 * node + 1) (start + 2 ^ d)
        (by rw [← Nat.add_assoc, hnode]; ring) (by omega) (by omega)
      have hstop : start + 2 ^ d * 2 = start + 2 ^ d + 2 ^ d := by omega
      dsimp only
      rw [hmiddle, hleft, hstop, hright, ← List.filter_append, Nat.mul_two,
        List.take_add, List.drop_drop]
    · -- nothing below is kept
      rw [if_pos (Or.inr (by simpa using hk)), eq_comm, List.filter_eq_nil_iff]
      intro x hx hkx
      obtain ⟨j, hj, hget⟩ := List.getElem_of_mem hx
      rw [List.length_take, List.length_drop, List.length_take] at hj
      rw [List.getElem_take, List.getElem_drop, List.getElem_take] at hget
      refine hk (keep_above ht hjoin (d + 1) node start hnode hn hcount (Nat.le_add_right start j) (by omega) ?_ hkx)
      rw [← hget, List.getElem?_eq_getElem]

end

/-- **Below the root stand all elements.** -/
theorem collect_root {join : β → β → β} {pad : β} {keep : β → Bool} {xs : List α} {limit : Nat}
    (key : α → β) (hjoin : ∀ a b, keep (join a b) = (keep a || keep b)) (hlimit : limit ≤ xs.length) :
    collect pad (build join pad (xs.map key)) keep xs limit 1 0 (leafCount xs.length) =
      (xs.take limit).filter fun x => keep (key x) := by
  have ht := treeOf_build join pad (xs.map key)
  rw [List.length_map] at ht
  obtain ⟨hle, d, hd⟩ := leafCount_spec xs.length
  have h := collect_eq ht hjoin hlimit d 1 0 (by omega) (Nat.le_refl 1) (by omega)
  rw [Nat.zero_add, ← hd, List.drop_zero, List.take_of_length_le] at h
  · exact h
  · rw [List.length_take]
    omega

end Tsr.Lib.JoinTree
