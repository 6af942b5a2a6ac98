import Tsr.Lib.Preorder

/-!
# Siblings linked one to the next

The nodes of a forest arrive in order, numbered from `1`, each with the number of its parent.  A table
keeps the last child of every number so far; a new node is linked behind it.

* `Links.add`     a node arrives;
* `Chain`         a list of numbers that the links run through, to an end;
* `Linked`        under every number the links run through its children;
* `linked_of`     that is so after any number of arrivals.
-/

namespace Tsr.Lib.Siblings
open Tsr.Lib.Preorder.Forest (childrenOf childrenOf_append childrenOf_eq_nil mem_childrenOf)

/-- by number, from `0` on; `0` is no link -/
structure Links where
  next : List Nat
  previous : List Nat

namespace Links

def start : Links := ⟨[0], [0]⟩

def last (l : Links) (parent : Nat) : Nat := l.previous[parent]?.getD 0

def add (l : Links) (index parent : Nat) : Links where
  next := (if l.last parent ≠ 0 then l.next.set (l.last parent) index else l.next) ++ [0]
  previous := l.previous.set parent index ++ [0]

/-- the links after some arrivals -/
def addAll (l : Links) (index : Nat) : List Nat → Links
  | [] => l
  | p :: ps => addAll (l.add index p) (index + 1) ps

end Links

/-- each number is linked to the next, the last to none -/
def Chain (next : List Nat) : List Nat → Prop
  | [] => True
  | [j] => next[j]? = some 0
  | j :: k :: rest => next[j]? = some k ∧ Chain next (k :: rest)

theorem Chain.congr (next next' : List Nat) (js : List Nat) (h : ∀ j ∈ js, next'[j]? = next[j]?)
    (hchain : Chain next js) : Chain next' js := by
  induction js with
  | nil => trivial
  | cons j js ih =>
    have hhead := h j List.mem_cons_self
    have htail := fun x hx => h x (List.mem_cons_of_mem j hx)
    cases js with
    | nil => exact hhead.trans hchain
    | cons k rest => exact ⟨hhead.trans hchain.1, ih htail hchain.2⟩

/-- a new number behind the last -/
theorem Chain.snoc (next next' : List Nat) (js : List Nat) (index : Nat)
    (hkeep : ∀ j ∈ js, some j ≠ js.getLast? → next'[j]? = next[j]?)
    (hlast : ∀ j, js.getLast? = some j → next'[j]? = some index) (hend : next'[index]? = some 0)
    (hnodup : js.Nodup) (hchain : Chain next js) : Chain next' (js ++ [index]) := by
  induction js with
  | nil => exact hend
  | cons j js ih =>
    obtain ⟨hj, hnodup'⟩ := List.nodup_cons.1 hnodup
    cases js with
    | nil => exact ⟨hlast j rfl, hend⟩
    | cons k rest =>
      have hne : some j ≠ (j :: k :: rest).getLast? := by
        intro heq
        rw [List.getLast?_cons_cons] at heq
        exact hj (List.mem_of_getLast? heq.symm)
      refine ⟨(hkeep j List.mem_cons_self hne).trans hchain.1, ih ?_ ?_ hnodup' hchain.2⟩
      · intro x hx hxne
        refine hkeep x (List.mem_cons_of_mem _ hx) ?_
        rw [List.getLast?_cons_cons]
        exact hxne
      · intro x hx
        refine hlast x ?_
        rw [List.getLast?_cons_cons]
        exact hx

/-- under every number the links run through its children -/
structure Linked (l : Links) (ps : List Nat) : Prop where
  length_next : l.next.length = ps.length + 1
  length_previous : l.previous.length = ps.length + 1
  bounded : ∀ p ∈ ps, p ≤ ps.length
  last : ∀ p, p ≤ ps.length → l.previous[p]? = some ((childrenOf p 1 ps).getLast?.getD 0)
  chain : ∀ p, Chain l.next (childrenOf p 1 ps)

theorem linked_start : Linked Links.start [] := by
  refine ⟨rfl, rfl, ?_, ?_, ?_⟩
  · intro p hp
    exact absurd hp List.not_mem_nil
  · intro p hp
    rw [Nat.le_zero.1 hp]
    rfl
  · intro p
    trivial

theorem childrenOf_snoc (p q : Nat) (ps : List Nat) : childrenOf p 1 (ps ++ [q]) =
    childrenOf p 1 ps ++ (if q = p then [1 + ps.length] else []) := by
  rw [childrenOf_append]
  rfl

theorem pairwise_childrenOf (p index : Nat) (ps : List Nat) :
    (childrenOf p index ps).Pairwise (· < ·) := by
  induction ps generalizing index with
  | nil => exact List.Pairwise.nil
  | cons q ps ih =>
    rw [childrenOf]
    split
    · refine List.pairwise_cons.2 ⟨?_, ih _⟩
      intro j hj
      obtain ⟨k, -, rfl⟩ := (mem_childrenOf p (index + 1) ps j).1 hj
      omega
    · exact ih _

theorem mem_childrenOf_le (p : Nat) (ps : List Nat) (j : Nat) (h : j ∈ childrenOf p 1 ps) :
    1 ≤ j ∧ j ≤ ps.length := by
  obtain ⟨k, hk, rfl⟩ := (mem_childrenOf p 1 ps j).1 h
  obtain ⟨hlt, -⟩ := List.getElem?_eq_some_iff.1 hk
  omega

/-- a number has one parent -/
theorem childrenOf_inj (p q : Nat) (ps : List Nat) (j : Nat) (hp : j ∈ childrenOf p 1 ps)
    (hq : j ∈ childrenOf q 1 ps) : p = q := by
  obtain ⟨k, hk, hj⟩ := (mem_childrenOf p 1 ps j).1 hp
  obtain ⟨k', hk', hj'⟩ := (mem_childrenOf q 1 ps j).1 hq
  have hkk : k = k' := by omega
  subst hkk
  rw [hk'] at hk
  exact (Option.some.inj hk).symm

/-- what the arrival of a node does to the links -/
theorem next_add (l : Links) (ps : List Nat) (q : Nat) (h : Linked l ps) (hq : q ≤ ps.length) :
    (l.add (ps.length + 1) q).next[ps.length + 1]? = some 0 ∧
    ∀ j, j ≤ ps.length → (l.add (ps.length + 1) q).next[j]? =
      if (childrenOf q 1 ps).getLast? = some j then some (ps.length + 1) else l.next[j]? := by
  have hlast : l.last q = (childrenOf q 1 ps).getLast?.getD 0 := by
    rw [Links.last, h.last q hq]
    rfl
  have hlen := h.length_next
  rw [Links.add, hlast]
  cases hc : (childrenOf q 1 ps).getLast? with
  | none =>
    constructor
    · show (l.next ++ [0])[ps.length + 1]? = some 0
      rw [List.getElem?_append_right (by omega), hlen, Nat.sub_self]
      rfl
    · intro j hj
      show (l.next ++ [0])[j]? = l.next[j]?
      rw [List.getElem?_append_left (by omega)]
  | some x =>
    obtain ⟨hx1, hx2⟩ := mem_childrenOf_le q ps x (List.mem_of_getLast? hc)
    have hne : (some x).getD 0 ≠ 0 := by
      show x ≠ 0
      omega
    rw [if_pos hne]
    constructor
    · show (l.next.set x (ps.length + 1) ++ [0])[ps.length + 1]? = some 0
      rw [List.getElem?_append_right (by rw [List.length_set]; omega), List.length_set, hlen,
        Nat.sub_self]
      rfl
    · intro j hj
      show (l.next.set x (ps.length + 1) ++ [0])[j]? = _
      rw [List.getElem?_append_left (by rw [List.length_set]; omega), List.getElem?_set]
      by_cases hxj : x = j
      · rw [if_pos hxj, if_pos (by omega), if_pos (congrArg some hxj)]
      · rw [if_neg hxj, if_neg fun heq => hxj (Option.some.inj heq)]

/-- **A node arrives.** -/
theorem linked_add (l : Links) (ps : List Nat) (q : Nat) (h : Linked l ps) (hq : q ≤ ps.length) :
    Linked (l.add (ps.length + 1) q) (ps ++ [q]) := by
  obtain ⟨hend, hnext⟩ := next_add l ps q h hq
  have hlen : (ps ++ [q]).length = ps.length + 1 := List.length_append
  refine ⟨?_, ?_, ?_, ?_, ?_⟩
  · rw [Links.add, hlen]
    show (_ ++ [0]).length = _
    rw [List.length_append, List.length_singleton]
    split
    · rw [List.length_set, h.length_next]
    · rw [h.length_next]
  · show (l.previous.set q _ ++ [0]).length = _
    rw [List.length_append, List.length_set, h.length_previous, hlen]
    rfl
  · intro p hp
    rw [hlen]
    rcases List.mem_append.1 hp with hp | hp
    · exact Nat.le_succ_of_le (h.bounded p hp)
    · rw [List.mem_singleton.1 hp]
      omega
  · intro p hp
    rw [hlen] at hp
    show (l.previous.set q (ps.length + 1) ++ [0])[p]? = _
    rw [childrenOf_snoc]
    by_cases hnew : p = ps.length + 1
    · have hnone : childrenOf p 1 ps = [] := childrenOf_eq_nil p 1 ps fun x hx => by
        have := h.bounded x hx
        omega
      rw [hnone, if_neg (by omega), List.getElem?_append_right (by
        rw [List.length_set, h.length_previous]
        omega), List.length_set, h.length_previous, hnew, Nat.sub_self]
      rfl
    · have hlast := h.last p (by omega)
      rw [List.getElem?_append_left (by rw [List.length_set, h.length_previous]; omega),
        List.getElem?_set]
      by_cases hqp : q = p
      · rw [if_pos hqp, if_pos (by rw [h.length_previous]; omega), if_pos hqp, List.getLast?_concat,
          Nat.add_comm 1]
        rfl
      · rw [if_neg hqp, if_neg hqp, List.append_nil, hlast]
  · intro p
    rw [childrenOf_snoc]
    by_cases hqp : q = p
    · subst hqp
      rw [if_pos rfl, Nat.add_comm 1]
      refine Chain.snoc l.next _ _ _ ?_ ?_ hend ?_ (h.chain q)
      · intro j hj hne
        rw [hnext j (mem_childrenOf_le q ps j hj).2, if_neg fun heq => hne heq.symm]
      · intro j hj
        rw [hnext j (mem_childrenOf_le q ps j (List.mem_of_getLast? hj)).2, if_pos hj]
      · exact (pairwise_childrenOf q 1 ps).imp fun hlt => Nat.ne_of_lt hlt
    · rw [if_neg hqp, List.append_nil]
      refine Chain.congr l.next _ _ ?_ (h.chain p)
      intro j hj
      rw [hnext j (mem_childrenOf_le p ps j hj).2, if_neg]
      intro heq
      exact hqp (childrenOf_inj q p ps j (List.mem_of_getLast? heq) hj)

/-- **After any number of arrivals the links run through the children of every number.** -/
theorem linked_of (l : Links) (ps qs : List Nat) (h : Linked l ps)
    (hqs : ∀ k q, qs[k]? = some q → q ≤ ps.length + k) :
    Linked (l.addAll (ps.length + 1) qs) (ps ++ qs) := by
  induction qs generalizing l ps with
  | nil =>
    rw [List.append_nil]
    exact h
  | cons q qs ih =>
    have hstep := ih (l.add (ps.length + 1) q) (ps ++ [q]) (linked_add l ps q h (hqs 0 q rfl)) (by
      intro k x hk
      rw [List.length_append, List.length_singleton]
      have := hqs (k + 1) x hk
      omega)
    rw [List.length_append, List.append_assoc] at hstep
    exact hstep

end Tsr.Lib.Siblings
