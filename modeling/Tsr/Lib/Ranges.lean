import Mathlib

/-!
# Positions that are exchanged in a range

A sequence is a function from positions.  `lt` is a strict weak order on its elements; an element is not
greater than another (`NotAfter`) if the other is not less.

* `Moved`               the elements between two positions change places, all others stay;
* `Sorted`, `sorted_join`   a range in order, and two ranges around an element;
* `SortedBut`           a range in order but for one position, whose element sinks (`SortedBut.sink`);
* `Heap`, `HeapBut`     a range as a heap, and one whose root sifts down (`HeapBut.sift`);
* `Heap.greatest`       no element of a heap is greater than its root.
-/

set_option linter.unusedSectionVars false

namespace Tsr.Lib.Ranges

variable {α : Type*} {a b a' b' : Nat} {u v w : Nat → α}

/-! ## moving elements in a range -/

def Moved (a b : Nat) (v w : Nat → α) : Prop :=
  ∃ σ : Equiv.Perm Nat, (∀ k, ¬ (a ≤ k ∧ k < b) → σ k = k) ∧ w = v ∘ σ

theorem Moved.refl (a b : Nat) (v : Nat → α) : Moved a b v v :=
  ⟨Equiv.refl Nat, fun _ _ => rfl, rfl⟩

theorem Moved.trans (h : Moved a b u v) (h' : Moved a b v w) : Moved a b u w := by
  obtain ⟨σ, hσ, rfl⟩ := h
  obtain ⟨τ, hτ, rfl⟩ := h'
  refine ⟨τ.trans σ, ?_, rfl⟩
  intro k hk
  show σ (τ k) = k
  rw [hτ k hk, hσ k hk]

theorem Moved.mono (h : Moved a b v w) (ha : a' ≤ a) (hb : b ≤ b') : Moved a' b' v w := by
  obtain ⟨σ, hσ, rfl⟩ := h
  refine ⟨σ, ?_, rfl⟩
  intro k hk
  exact hσ k fun hin => hk ⟨ha.trans hin.1, lt_of_lt_of_le hin.2 hb⟩

theorem moved_swap (v : Nat → α) {i j : Nat} (hi : a ≤ i ∧ i < b) (hj : a ≤ j ∧ j < b) :
    Moved a b v (v ∘ Equiv.swap i j) := by
  refine ⟨Equiv.swap i j, ?_, rfl⟩
  intro k hk
  apply Equiv.swap_apply_of_ne_of_ne
  · rintro rfl
    exact hk hi
  · rintro rfl
    exact hk hj

theorem Moved.outside (h : Moved a b v w) {k : Nat} (hk : ¬ (a ≤ k ∧ k < b)) : w k = v k := by
  obtain ⟨σ, hσ, rfl⟩ := h
  exact congrArg v (hσ k hk)

theorem Moved.inside (h : Moved a b v w) {k : Nat} (hk : a ≤ k ∧ k < b) :
    ∃ j, (a ≤ j ∧ j < b) ∧ w k = v j := by
  obtain ⟨σ, hσ, rfl⟩ := h
  refine ⟨σ k, ?_, rfl⟩
  by_contra hout
  have hsame : σ k = k := σ.injective (hσ (σ k) hout)
  rw [hsame] at hout
  exact hout hk

/-- what holds of all elements of the range holds of them in their new places -/
theorem Moved.all (h : Moved a b v w) {P : α → Prop} (hP : ∀ k, a ≤ k → k < b → P (v k)) :
    ∀ k, a ≤ k → k < b → P (w k) := by
  intro k ha hb
  obtain ⟨j, hj, heq⟩ := h.inside ⟨ha, hb⟩
  rw [heq]
  exact hP j hj.1 hj.2

theorem swap_left (v : Nat → α) (i j : Nat) : (v ∘ Equiv.swap i j) i = v j :=
  congrArg v (Equiv.swap_apply_left i j)

theorem swap_right (v : Nat → α) (i j : Nat) : (v ∘ Equiv.swap i j) j = v i :=
  congrArg v (Equiv.swap_apply_right i j)

theorem swap_other (v : Nat → α) {i j k : Nat} (hi : k ≠ i) (hj : k ≠ j) :
    (v ∘ Equiv.swap i j) k = v k :=
  congrArg v (Equiv.swap_apply_of_ne_of_ne hi hj)

/-! ## the order -/

section
variable (lt : α → α → Prop)

def NotAfter (x y : α) : Prop := ¬ lt y x

variable [IsStrictWeakOrder α lt] {lt} {x y z : α}

theorem notAfter_refl (x : α) : NotAfter lt x x := irrefl_of lt x

theorem notAfter_of_lt (h : lt x y) : NotAfter lt x y := fun h' => irrefl_of lt x (trans_of lt h h')

theorem notAfter_trans (hxy : NotAfter lt x y) (hyz : NotAfter lt y z) : NotAfter lt x z := by
  intro hzx
  by_cases hlt : lt x y
  · exact hyz (trans_of lt hzx hlt)
  · by_cases hlt' : lt y z
    · exact hxy (trans_of lt hlt' hzx)
    · exact (IsStrictWeakOrder.incomp_trans x y z ⟨hlt, hxy⟩ ⟨hlt', hyz⟩).2 hzx

/-! ## ranges in order -/

variable (lt) in
def Sorted (v : Nat → α) (a b : Nat) : Prop :=
  ∀ i j, a ≤ i → i < j → j < b → NotAfter lt (v i) (v j)

theorem sorted_of_short (h : b ≤ a + 1) : Sorted lt v a b := by
  intro i j hi hij hj
  omega

theorem Sorted.snoc (h : Sorted lt v a b) (hstep : a < b → NotAfter lt (v (b - 1)) (v b)) :
    Sorted lt v a (b + 1) := by
  intro i j hi hij hj
  rcases Nat.lt_or_eq_of_le (Nat.le_of_lt_succ hj) with hlt | rfl
  · exact h i j hi hij hlt
  · have hlast := hstep (by omega)
    rcases Nat.lt_or_eq_of_le (show i ≤ j - 1 by omega) with hlt | heq
    · exact notAfter_trans (h i (j - 1) hi hlt (by omega)) hlast
    · rw [heq]
      exact hlast

theorem Sorted.extend (h : Sorted lt v a b) (hb : b ≤ b')
    (hstep : ∀ k, b ≤ k → k < b' → NotAfter lt (v (k - 1)) (v k)) : Sorted lt v a b' := by
  induction b', hb using Nat.le_induction with
  | base => exact h
  | succ c hc ih =>
    exact (ih fun k hk hk' => hstep k hk (by omega)).snoc fun _ => hstep c hc (Nat.lt_succ_self c)

theorem Sorted.congr (h : Sorted lt v a b) (hsame : ∀ k, a ≤ k → k < b → w k = v k) :
    Sorted lt w a b := by
  intro i j hi hij hj
  rw [hsame i hi (hij.trans hj), hsame j (hi.trans hij.le) hj]
  exact h i j hi hij hj

/-- two ranges in order around an element between them -/
theorem sorted_join {m : Nat} (hleft : Sorted lt v a m) (hright : Sorted lt v (m + 1) b)
    (hbefore : ∀ k, a ≤ k → k < m → NotAfter lt (v k) (v m))
    (hbehind : ∀ k, m + 1 ≤ k → k < b → NotAfter lt (v m) (v k)) : Sorted lt v a b := by
  intro i j hi hij hj
  rcases Nat.lt_trichotomy j m with hjm | rfl | hjm
  · exact hleft i j hi hij hjm
  · exact hbefore i hi hij
  · rcases Nat.lt_trichotomy i m with him | rfl | him
    · exact notAfter_trans (hbefore i hi him) (hbehind j hjm hj)
    · exact hbehind j hjm hj
    · exact hright i j him hij hj

/-! ## insertion -/

variable (lt) in
/-- the element at `j` may be less than those in front of it -/
def SortedBut (v : Nat → α) (a b j : Nat) : Prop :=
  ∀ x y, a ≤ x → x < y → y < b → y ≠ j → NotAfter lt (v x) (v y)

theorem Sorted.but (h : Sorted lt v a b) : SortedBut lt v a (b + 1) b := by
  intro x y hx hxy hy hne
  exact h x y hx hxy (by omega)

variable {j : Nat}

theorem SortedBut.sorted (h : SortedBut lt v a b j) (hstop : a < j → NotAfter lt (v (j - 1)) (v j)) :
    Sorted lt v a b := by
  intro x y hx hxy hy
  by_cases hne : y = j
  · subst hne
    have hlast := hstop (by omega)
    rcases Nat.lt_or_eq_of_le (show x ≤ y - 1 by omega) with hlt | heq
    · exact notAfter_trans (h x (y - 1) hx hlt (by omega) (by omega)) hlast
    · rw [heq]
      exact hlast
  · exact h x y hx hxy hy hne

theorem SortedBut.sink (h : SortedBut lt v a b j) (ha : a < j) (hb : j < b) (hlt : lt (v j) (v (j - 1))) :
    SortedBut lt (v ∘ Equiv.swap j (j - 1)) a b (j - 1) := by
  intro x y hx hxy hy hne
  have hj := swap_left v j (j - 1)
  have hj' := swap_right v j (j - 1)
  by_cases hyj : y = j
  · subst hyj
    rw [hj]
    by_cases hxj : x = y - 1
    · rw [hxj, hj']
      exact notAfter_of_lt hlt
    · rw [swap_other v (by omega) hxj]
      exact h x (y - 1) hx (by omega) (by omega) (by omega)
  · rw [swap_other v hyj hne]
    by_cases hxj : x = j
    · rw [hxj, hj]
      exact h (j - 1) y (by omega) (by omega) hy hyj
    · by_cases hxj' : x = j - 1
      · rw [hxj', hj']
        exact h j y (by omega) (by omega) hy hyj
      · rw [swap_other v hxj hxj']
        exact h x y hx hxy hy hyj

/-! ## heaps -/

def Child (p c : Nat) : Prop := c = 2 * p + 1 ∨ c = 2 * p + 2

variable (lt) in
/-- no child of a position from `lo` on is greater than it -/
def Heap (v : Nat → α) (lo hi : Nat) : Prop :=
  ∀ p c, lo ≤ p → Child p c → c < hi → NotAfter lt (v c) (v p)

variable (lt) in
/-- the element at `root` may be less than its children, but these are not greater than its parent -/
structure HeapBut (v : Nat → α) (lo hi root : Nat) : Prop where
  others : ∀ p c, lo ≤ p → p ≠ root → Child p c → c < hi → NotAfter lt (v c) (v p)
  grand : ∀ g c, lo ≤ g → Child g root → Child root c → c < hi → NotAfter lt (v c) (v g)

variable {lo hi root child : Nat}

theorem Heap.but (h : Heap lt v (lo + 1) hi) : HeapBut lt v lo hi lo := by
  refine ⟨?_, ?_⟩
  · intro p c hp hne hc hlt
    exact h p c (by omega) hc hlt
  · intro g c hg hroot hc hlt
    rcases hroot with hroot | hroot
    · omega
    · omega

theorem HeapBut.heap (h : HeapBut lt v lo hi root)
    (hstop : ∀ c, Child root c → c < hi → NotAfter lt (v c) (v root)) : Heap lt v lo hi := by
  intro p c hp hc hlt
  by_cases hne : p = root
  · rw [hne] at hc ⊢
    exact hstop c hc hlt
  · exact h.others p c hp hne hc hlt

theorem HeapBut.sift (h : HeapBut lt v lo hi root) (hlo : lo ≤ root) (hchild : Child root child)
    (hhi : child < hi) (hmax : ∀ c, Child root c → c < hi → NotAfter lt (v c) (v child))
    (hlt : lt (v root) (v child)) : HeapBut lt (v ∘ Equiv.swap root child) lo hi child := by
  unfold Child at hchild
  have hroot' := swap_left v root child
  have hchild' := swap_right v root child
  refine ⟨?_, ?_⟩
  · intro p c hp hne hc hc'
    have hpc : p < c := by
      unfold Child at hc
      omega
    by_cases hpr : p = root
    · rw [hpr] at hc hpc ⊢
      rw [hroot']
      by_cases hcc : c = child
      · rw [hcc, hchild']
        exact notAfter_of_lt hlt
      · rw [swap_other v (by omega) hcc]
        exact hmax c hc hc'
    · rw [swap_other v hpr hne]
      by_cases hcr : c = root
      · rw [hcr, hroot']
        exact h.grand p child hp (hcr ▸ hc) hchild hhi
      · have hcc : c ≠ child := by
          unfold Child at hc
          omega
        rw [swap_other v hcr hcc]
        exact h.others p c hp hpr hc hc'
  · intro g c hg hgc hc hc'
    unfold Child at hgc hc
    have hgr : g = root := by omega
    rw [hgr, hroot', swap_other v (by omega) (by omega)]
    exact h.others child c (by omega) (by omega) hc hc'

/-- **The root of a heap is its greatest element.** -/
theorem Heap.greatest (h : Heap lt v 0 hi) {k : Nat} (hk : k < hi) : NotAfter lt (v k) (v 0) := by
  induction k using Nat.strong_induction_on with
  | _ k ih =>
    by_cases hzero : k = 0
    · rw [hzero]
      exact notAfter_refl _
    · have hchild : Child ((k - 1) / 2) k := by
        unfold Child
        omega
      exact notAfter_trans (h _ k (Nat.zero_le _) hchild hk) (ih _ (by omega) (by omega))

end

end Tsr.Lib.Ranges
