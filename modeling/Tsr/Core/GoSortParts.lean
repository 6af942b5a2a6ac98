import Tsr.Core.GoSort
import Tsr.Lib.Ranges

/-!
# The parts of the sort

Every part is run on an array whose elements are looked at through `view`; a part exchanges elements
of its range only (`Arranged`), and panics in no array that has the range.  The range stands behind
elements that are not greater (`Floor`), so that an element which sinks stops at its start.

* `sink_spec`, `insertionSort_spec`;
* `siftDown_spec`, `heapSort_spec`;
* `split_spec`, `partition_spec`, `partitionEqual_spec`.
-/

set_option linter.unusedSectionVars false

namespace Tsr.Core.GoSort
open Tsr.Lib.Loop
open Tsr.Lib.Ranges

variable {α : Type} (compare : α → α → Ordering) (d : α)

/-! ## elements -/

def Less (x y : α) : Prop := compare x y = .lt

instance : DecidableRel (Less compare) := fun x y => inferInstanceAs (Decidable (compare x y = .lt))

/-- the elements of an array, and `d` behind it -/
def view (data : Array α) : Nat → α := fun k => data[k]?.getD d

/-- the range of `data` is arranged in another way in `data'` -/
structure Arranged (a b : Nat) (data data' : Array α) : Prop where
  size : data'.size = data.size
  moved : Moved a b (view d data) (view d data')

variable {compare d} {a b n m i j k : Nat} {data data' data'' : Array α}

theorem Arranged.refl (data : Array α) : Arranged d a b data data := ⟨rfl, Moved.refl a b _⟩

theorem Arranged.trans (h : Arranged d a b data data') (h' : Arranged d a b data' data'') :
    Arranged d a b data data'' := ⟨h'.size.trans h.size, h.moved.trans h'.moved⟩

theorem Arranged.mono {a' b' : Nat} (h : Arranged d a b data data') (ha : a' ≤ a) (hb : b ≤ b') :
    Arranged d a' b' data data' := ⟨h.size, h.moved.mono ha hb⟩

theorem getElem?_view (hk : k < data.size) : data[k]? = some (view d data k) := by
  rw [view, Array.getElem?_eq_getElem hk]
  rfl

theorem isLT_eq (o : Ordering) : o.isLT = decide (o = .lt) := by
  cases o with
  | lt => rfl
  | eq => rfl
  | gt => rfl

theorem less_eq (d : α) (hi : i < data.size) (hj : j < data.size) :
    less compare data i j = some (decide (Less compare (view d data i) (view d data j))) := by
  rw [less, getElem?_view (d := d) hi, getElem?_view (d := d) hj]
  exact congrArg some (isLT_eq _)

theorem swap_spec (d : α) (hi : i < data.size) (hj : j < data.size) :
    ∃ data', swap data i j = some data' ∧ data'.size = data.size ∧
      view d data' = view d data ∘ Equiv.swap i j := by
  refine ⟨data.swap i j hi hj, dif_pos ⟨hi, hj⟩, Array.size_swap, ?_⟩
  funext k
  show (data.swap i j hi hj)[k]?.getD d = data[Equiv.swap i j k]?.getD d
  rw [Array.getElem?_swap, Equiv.swap_apply_def]
  by_cases hki : k = i
  · rw [if_pos hki]
    by_cases hji : j = k
    · obtain rfl : i = j := hki.symm.trans hji.symm
      rw [if_pos hji, Array.getElem?_eq_getElem hi]
    · rw [if_neg hji, if_pos hki.symm, Array.getElem?_eq_getElem hj]
  · rw [if_neg hki]
    by_cases hkj : k = j
    · rw [if_pos hkj, if_pos hkj.symm, Array.getElem?_eq_getElem hi]
    · rw [if_neg hkj, if_neg (fun h => hkj h.symm), if_neg (fun h => hki h.symm)]

/-- an exchange in the range -/
theorem swap_arranged (d : α) (hb : b ≤ data.size) (hi : a ≤ i ∧ i < b) (hj : a ≤ j ∧ j < b) :
    ∃ data', swap data i j = some data' ∧ Arranged d a b data data' ∧
      view d data' = view d data ∘ Equiv.swap i j := by
  obtain ⟨data', hswap, hsize, hview⟩ := swap_spec d (lt_of_lt_of_le hi.2 hb) (lt_of_lt_of_le hj.2 hb)
  refine ⟨data', hswap, ⟨hsize, ?_⟩, hview⟩
  rw [hview]
  exact moved_swap _ hi hj

/-! ## insertion -/

variable [IsStrictWeakOrder α (Less compare)]

variable (compare) in
/-- no element of the range is less than the one in front of it -/
def Floor (v : Nat → α) (a b : Nat) : Prop :=
  0 < a → ∀ k, a ≤ k → k < b → NotAfter (Less compare) (v (a - 1)) (v k)

theorem Floor.moved {v w : Nat → α} (h : Floor compare v a b) (hmoved : Moved a b v w) :
    Floor compare w a b := by
  intro ha
  rw [hmoved.outside (show ¬ (a ≤ a - 1 ∧ a - 1 < b) by omega)]
  exact hmoved.all (h ha)

/-- an element sinks to its place; it stops at the start of the range -/
theorem sink_spec (f j : Nat) (data : Array α) (hf : f ≤ a) (hfloor : f < a → Floor compare (view d data) a b)
    (hj : a ≤ j ∧ j < b) (hb : b ≤ data.size) (hbut : SortedBut (Less compare) (view d data) a b j) :
    ∃ data', sink compare f j data = some data' ∧ Arranged d a b data data' ∧
      Sorted (Less compare) (view d data') a b := by
  induction j generalizing data with
  | zero =>
    refine ⟨data, rfl, Arranged.refl data, hbut.sorted ?_⟩
    intro ha
    omega
  | succ j ih =>
    rw [sink]
    by_cases hstop : f < j + 1
    · rw [if_pos hstop, less_eq d (by omega) (by omega)]
      by_cases hless : Less compare (view d data (j + 1)) (view d data j)
      · have ha : a < j + 1 := by
          by_contra hge
          have hja : a = j + 1 := by omega
          have := hfloor (by omega) (by omega) (j + 1) hj.1 hj.2
          rw [hja] at this
          exact this hless
        obtain ⟨data', hswap, harr, hview⟩ := swap_arranged d hb hj ⟨show a ≤ j by omega, by omega⟩
        have hsink := hbut.sink ha hj.2 hless
        change SortedBut _ (_ ∘ Equiv.swap (j + 1) j) a b j at hsink
        rw [← hview] at hsink
        obtain ⟨data'', hrest, harr', hsorted⟩ := ih data' (fun h => (hfloor h).moved harr.moved)
          ⟨by omega, by omega⟩ (by rw [harr.size]; exact hb) hsink
        refine ⟨data'', ?_, harr.trans harr', hsorted⟩
        rw [decide_eq_true hless, Option.bind_eq_bind, Option.bind_some, if_pos rfl, hswap]
        exact hrest
      · refine ⟨data, ?_, Arranged.refl data, hbut.sorted fun _ => hless⟩
        rw [decide_eq_false hless]
        rfl
    · rw [if_neg hstop]
      refine ⟨data, rfl, Arranged.refl data, hbut.sorted ?_⟩
      intro ha
      omega

theorem insertionSort_spec (hab : a ≤ b) (hb : b ≤ data.size) :
    ∃ data', insertionSort compare data a b = some data' ∧ Arranged d a b data data' ∧
      Sorted (Less compare) (view d data') a b := by
  by_cases hlen : a + 1 ≤ b
  · obtain ⟨data', hfold, harr, hsorted⟩ := forUp_rule (fun data i => sink compare a i data)
      (fun i data' => Arranged d a b data data' ∧ Sorted (Less compare) (view d data') a i)
      (a + 1) (b - (a + 1)) data ⟨Arranged.refl data, sorted_of_short (Nat.le_refl _)⟩ (by
        intro i s hi hib hs
        obtain ⟨harr, hsorted⟩ := hs
        obtain ⟨s', hsink, harr', hsorted'⟩ := sink_spec (d := d) (b := i + 1) a i s
          (Nat.le_refl a) (fun h => absurd h (Nat.lt_irrefl a)) ⟨by omega, by omega⟩
          (by rw [harr.size]; omega) hsorted.but
        exact ⟨s', hsink, harr.trans (harr'.mono (Nat.le_refl a) (by omega)), hsorted'⟩)
    rw [show a + 1 + (b - (a + 1)) = b by omega] at hsorted
    exact ⟨data', hfold, harr, hsorted⟩
  · refine ⟨data, ?_, Arranged.refl data, sorted_of_short (by omega)⟩
    rw [insertionSort, show b - (a + 1) = 0 by omega]
    rfl

theorem rise_spec (d : α) (count j : Nat) (data : Array α) (hj : a < j) (hcount : j + count ≤ b)
    (hb : b ≤ data.size) :
    ∃ data', rise compare count j data = some data' ∧ Arranged d a b data data' := by
  induction count generalizing j data with
  | zero => exact ⟨data, rfl, Arranged.refl data⟩
  | succ count ih =>
    rw [rise, less_eq d (by omega) (by omega)]
    by_cases hless : Less compare (view d data j) (view d data (j - 1))
    · obtain ⟨data', hswap, harr, -⟩ := swap_arranged d hb ⟨hj.le, show j < b by omega⟩
        ⟨show a ≤ j - 1 by omega, show j - 1 < b by omega⟩
      obtain ⟨data'', hrest, harr'⟩ := ih (j + 1) data' (by omega) (by omega) (by rw [harr.size]; exact hb)
      refine ⟨data'', ?_, harr.trans harr'⟩
      rw [decide_eq_true hless, Option.bind_eq_bind, Option.bind_some, if_pos rfl, hswap]
      exact hrest
    · refine ⟨data, ?_, Arranged.refl data⟩
      rw [decide_eq_false hless]
      rfl

/-! ## walks -/

theorem climb_spec (test : Nat → Option Bool) (p : Nat → Bool) (count i : Nat)
    (htest : ∀ k, i ≤ k → k < i + count → test k = some (p k)) :
    ∃ i', climb test count i = some i' ∧ (i ≤ i' ∧ i' ≤ i + count) ∧
      (∀ k, i ≤ k → k < i' → p k = true) ∧ (i' < i + count → p i' = false) := by
  induction count generalizing i with
  | zero => exact ⟨i, rfl, ⟨Nat.le_refl i, Nat.le_refl i⟩, fun k h h' => by omega, fun h => by omega⟩
  | succ count ih =>
    rw [climb, htest i (Nat.le_refl i) (by omega)]
    cases hp : p i with
    | true =>
      obtain ⟨i', hclimb, hle, hall, hstop⟩ := ih (i + 1) fun k h h' => htest k (by omega) (by omega)
      refine ⟨i', hclimb, ⟨by omega, by omega⟩, ?_, fun h => hstop (by omega)⟩
      intro k hk hk'
      by_cases hki : k = i
      · rw [hki]
        exact hp
      · exact hall k (by omega) hk'
    | false => exact ⟨i, rfl, ⟨Nat.le_refl i, by omega⟩, fun k h h' => by omega, fun _ => hp⟩

theorem descend_spec (test : Nat → Option Bool) (p : Nat → Bool) (count j : Nat) (hcount : count ≤ j)
    (htest : ∀ k, j < k + count → k ≤ j → test k = some (p k)) :
    ∃ j', descend test count j = some j' ∧ (j' ≤ j ∧ j ≤ j' + count) ∧
      (∀ k, j' < k → k ≤ j → p k = true) ∧ (j < j' + count → p j' = false) := by
  induction count generalizing j with
  | zero => exact ⟨j, rfl, ⟨Nat.le_refl j, Nat.le_refl j⟩, fun k h h' => by omega, fun h => by omega⟩
  | succ count ih =>
    rw [descend, htest j (by omega) (Nat.le_refl j)]
    cases hp : p j with
    | true =>
      obtain ⟨j', hdescend, hle, hall, hstop⟩ := ih (j - 1) (by omega)
        fun k h h' => htest k (by omega) (by omega)
      refine ⟨j', hdescend, ⟨by omega, by omega⟩, ?_, fun h => hstop (by omega)⟩
      intro k hk hk'
      by_cases hkj : k = j
      · rw [hkj]
        exact hp
      · exact hall k hk (by omega)
    | false => exact ⟨j, rfl, ⟨Nat.le_refl j, by omega⟩, fun k h h' => by omega, fun _ => hp⟩

/-! ## partitions -/

section
variable {left right : Array α → Nat → Option Bool} {p : α → Bool} {x : α}

/-- the tests compare with the pivot, which stands at `a` -/
def Tests (d : α) (left right : Array α → Nat → Option Bool) (a n : Nat) (p : α → Bool) (x : α) : Prop :=
  ∀ data : Array α, data.size = n → view d data a = x → ∀ k < n,
    left data k = some (p (view d data k)) ∧ right data k = some (!p (view d data k))

/-- what has been walked over stays on its side -/
structure Splits (d : α) (a b n : Nat) (p : α → Bool) (x : α) (data : Array α) (i j : Nat) : Prop where
  size : data.size = n
  pivot : view d data a = x
  low : a < i
  le : i ≤ j + 1
  high : j < b
  left : ∀ k, a < k → k < i → p (view d data k) = true
  right : ∀ k, j < k → k < b → p (view d data k) = false

theorem Splits.walks (h : Splits d a b n p x data i j) (htests : Tests d left right a n p x) (hb : b ≤ n) :
    ∃ i' j', climb (left data) (j + 1 - i) i = some i' ∧ descend (right data) (j + 1 - i') j = some j' ∧
      Splits d a b n p x data i' j' ∧ (i ≤ i' ∧ j' ≤ j) ∧
      (j' < i' ∨ i' < j' ∧ p (view d data i') = false ∧ p (view d data j') = true) := by
  have hlow := h.low
  have hle := h.le
  have hhigh := h.high
  have htest := htests data h.size h.pivot
  obtain ⟨i', hclimb, hi', hleft, hleftStop⟩ := climb_spec (left data) (fun k => p (view d data k))
    (j + 1 - i) i fun k _ hk => (htest k (by omega)).1
  obtain ⟨j', hdescend, hj', hright, hrightStop⟩ := descend_spec (right data)
    (fun k => !p (view d data k)) (j + 1 - i') j (by omega) fun k _ hk => (htest k (by omega)).2
  refine ⟨i', j', hclimb, hdescend, ⟨h.size, h.pivot, by omega, by omega, by omega, ?_, ?_⟩,
    ⟨hi'.1, hj'.1⟩, ?_⟩
  · intro k hk hk'
    by_cases hki : k < i
    · exact h.left k hk hki
    · exact hleft k (by omega) hk'
  · intro k hk hk'
    by_cases hkj : j < k
    · exact h.right k hkj hk'
    · have := hright k hk (by omega)
      rwa [Bool.not_eq_true'] at this
  · by_cases hcross : j' < i'
    · exact Or.inl hcross
    · have hi := hleftStop (by omega)
      have hj := hrightStop (by omega)
      rw [Bool.not_eq_false'] at hj
      refine Or.inr ⟨?_, hi, hj⟩
      by_contra hge
      rw [show i' = j' by omega, hj] at hi
      cases hi

theorem Splits.exchange (h : Splits d a b n p x data i j) (hb : b ≤ n) (hij : i < j)
    (hi : p (view d data i) = false) (hj : p (view d data j) = true) :
    ∃ data', swap data i j = some data' ∧ Arranged d (a + 1) b data data' ∧
      Splits d a b n p x data' (i + 1) (j - 1) := by
  have hlow := h.low
  have hhigh := h.high
  obtain ⟨data', hswap, harr, hview⟩ := swap_arranged d (show b ≤ data.size by rw [h.size]; exact hb)
    ⟨show a + 1 ≤ i by omega, show i < b by omega⟩ ⟨show a + 1 ≤ j by omega, hhigh⟩
  refine ⟨data', hswap, harr, ⟨harr.size.trans h.size, ?_, by omega, by omega, by omega, ?_, ?_⟩⟩
  · rw [hview, swap_other _ (by omega) (by omega)]
    exact h.pivot
  · intro k hk hk'
    rw [hview]
    by_cases hki : k = i
    · rw [hki, swap_left]
      exact hj
    · rw [swap_other _ hki (by omega)]
      exact h.left k hk (by omega)
  · intro k hk hk'
    rw [hview]
    by_cases hkj : k = j
    · rw [hkj, swap_right]
      exact hi
    · rw [swap_other _ (by omega) hkj]
      exact h.right k (by omega) hk'

theorem split_spec (h : Splits d a b n p x data i j) (htests : Tests d left right a n p x) (hb : b ≤ n) :
    ∃ data' j', split left right (data, i, j) = some (data', j' + 1, j') ∧
      Arranged d (a + 1) b data data' ∧ Splits d a b n p x data' (j' + 1) j' := by
  refine loop_rule (splitPass left right) (fun _ => none) (fun s => s.2.2 + 1 - s.2.1)
    (fun s => Arranged d (a + 1) b data s.1 ∧ Splits d a b n p x s.1 s.2.1 s.2.2) ?_
    (fun r => ∃ data' j', r = some (data', j' + 1, j') ∧ Arranged d (a + 1) b data data' ∧
      Splits d a b n p x data' (j' + 1) j') ?_ _ ⟨Arranged.refl data, h⟩
  · intro s s' hs hpass
    obtain ⟨cur, i, j⟩ := s
    obtain ⟨harr, hsplits⟩ := hs
    obtain ⟨i', j', hclimb, hdescend, hsplits', hmove, hcross⟩ := hsplits.walks htests hb
    dsimp only at hclimb hdescend hmove
    unfold splitPass at hpass
    simp only [hclimb, hdescend, Option.bind_eq_bind, Option.bind_some] at hpass
    rcases hcross with hcross | ⟨hlt, hi, hj⟩
    · rw [if_pos hcross] at hpass
      cases hpass
    · obtain ⟨next, hswap, harr', hnext⟩ := hsplits'.exchange hb hlt hi hj
      dsimp only at hswap
      rw [if_neg (by omega), hswap] at hpass
      cases hpass
      refine ⟨⟨harr.trans harr', hnext⟩, ?_⟩
      dsimp only
      omega
  · intro s r hs hpass
    obtain ⟨cur, i, j⟩ := s
    obtain ⟨harr, hsplits⟩ := hs
    obtain ⟨i', j', hclimb, hdescend, hsplits', hmove, hcross⟩ := hsplits.walks htests hb
    dsimp only at hclimb hdescend hmove
    unfold splitPass at hpass
    simp only [hclimb, hdescend, Option.bind_eq_bind, Option.bind_some] at hpass
    rcases hcross with hcross | ⟨hlt, hi, hj⟩
    · rw [if_pos hcross] at hpass
      cases hpass
      have hle := hsplits'.le
      obtain rfl : i' = j' + 1 := by omega
      exact ⟨cur, j', rfl, harr, hsplits'⟩
    · obtain ⟨next, hswap, harr', hnext⟩ := hsplits'.exchange hb hlt hi hj
      dsimp only at hswap
      rw [if_neg (by omega), hswap] at hpass
      cases hpass

/-- the pivot is put between the two sides -/
theorem Splits.finish (h : Splits d a b n p x data (j + 1) j) (hb : b ≤ n) :
    ∃ data', swap data j a = some data' ∧ Arranged d a b data data' ∧ (a ≤ j ∧ j < b) ∧
      view d data' j = x ∧ (∀ k, a ≤ k → k < j → p (view d data' k) = true) ∧
      ∀ k, j + 1 ≤ k → k < b → p (view d data' k) = false := by
  have hlow := h.low
  have hhigh := h.high
  obtain ⟨data', hswap, harr, hview⟩ := swap_arranged d (show b ≤ data.size by rw [h.size]; exact hb)
    ⟨show a ≤ j by omega, hhigh⟩ ⟨Nat.le_refl a, show a < b by omega⟩
  refine ⟨data', hswap, harr, ⟨by omega, hhigh⟩, ?_, ?_, ?_⟩
  · rw [hview, swap_left]
    exact h.pivot
  · intro k hk hk'
    rw [hview]
    by_cases hka : k = a
    · rw [hka, swap_right]
      exact h.left j (by omega) (Nat.lt_succ_self j)
    · rw [swap_other _ (by omega) hka]
      exact h.left k (by omega) (by omega)
  · intro k hk hk'
    rw [hview, swap_other _ (by omega) (by omega)]
    exact h.right k hk hk'

theorem splits_start (d : α) (data : Array α) (hab : a < b) (p : α → Bool) :
    Splits d a b data.size p (view d data a) data (a + 1) (b - 1) :=
  ⟨rfl, rfl, Nat.lt_succ_self a, by omega, by omega, fun k h h' => by omega, fun k h h' => by omega⟩

end

/-- **The range is partitioned around a pivot.** -/
theorem partition_spec (d : α) {pivot : Nat} (hpivot : a ≤ pivot ∧ pivot < b) (hb : b ≤ data.size) :
    ∃ data' mid flag, partition compare data a b pivot = some (data', mid, flag) ∧
      Arranged d a b data data' ∧ (a ≤ mid ∧ mid < b) ∧
      (∀ k, a ≤ k → k < mid → Less compare (view d data' k) (view d data' mid)) ∧
      ∀ k, mid + 1 ≤ k → k < b → NotAfter (Less compare) (view d data' mid) (view d data' k) := by
  obtain ⟨start, hswap, harr, -⟩ := swap_arranged d hb ⟨Nat.le_refl a, show a < b by omega⟩ hpivot
  have hb' : b ≤ start.size := by
    rw [harr.size]
    exact hb
  have hstart := splits_start d start (show a < b by omega)
    (fun y => decide (Less compare y (view d start a)))
  have htests : Tests d (fun data i => less compare data i a)
      (fun data j => (less compare data j a).map (!·)) a start.size
      (fun y => decide (Less compare y (view d start a))) (view d start a) := by
    intro cur hsize hpiv k hk
    have hless : less compare cur k a = some (decide (Less compare (view d cur k) (view d cur a))) :=
      less_eq d (by omega) (by omega)
    rw [hpiv] at hless
    exact ⟨hless, congrArg (Option.map (!·)) hless⟩
  obtain ⟨i', j', hclimb, hdescend, hsplits, -, hcross⟩ := hstart.walks htests hb'
  unfold partition
  rcases hcross with hcross | ⟨hlt, hi, hj⟩
  · have hle := hsplits.le
    obtain rfl : i' = j' + 1 := by omega
    obtain ⟨data', hfinish, harr', hmid, hpiv, hleft, hright⟩ := hsplits.finish hb'
    refine ⟨data', j', true, ?_, harr.trans harr', hmid, ?_, ?_⟩
    · simp only [hswap, hclimb, hdescend, hfinish, Option.bind_eq_bind, Option.bind_some]
      rw [if_pos hcross]
      rfl
    · intro k hk hk'
      rw [hpiv]
      exact of_decide_eq_true (hleft k hk hk')
    · intro k hk hk'
      rw [hpiv]
      exact of_decide_eq_false (hright k hk hk')
  · obtain ⟨next, hexchange, harr₁, hnext⟩ := hsplits.exchange hb' hlt hi hj
    obtain ⟨last, j, hsplit, harr₂, hlast⟩ := split_spec hnext htests hb'
    obtain ⟨data', hfinish, harr₃, hmid, hpiv, hleft, hright⟩ := hlast.finish hb'
    have hinner := (harr₁.trans harr₂).mono (Nat.le_succ a) (Nat.le_refl b)
    refine ⟨data', j, false, ?_, (harr.trans hinner).trans harr₃, hmid, ?_, ?_⟩
    · simp only [hswap, hclimb, hdescend, hexchange, hsplit, hfinish, Option.bind_eq_bind, Option.bind_some]
      rw [if_neg (by omega)]
      rfl
    · intro k hk hk'
      rw [hpiv]
      exact of_decide_eq_true (hleft k hk hk')
    · intro k hk hk'
      rw [hpiv]
      exact of_decide_eq_false (hright k hk hk')

/-- the elements that are not greater than the pivot are set aside -/
theorem partitionEqual_spec (d : α) {pivot : Nat} (hpivot : a ≤ pivot ∧ pivot < b) (hb : b ≤ data.size) :
    ∃ data' mid, partitionEqual compare data a b pivot = some (data', mid) ∧
      Arranged d a b data data' ∧ (a < mid ∧ mid ≤ b) ∧
      (∀ k, a ≤ k → k < mid → NotAfter (Less compare) (view d data' k) (view d data pivot)) ∧
      ∀ k, mid ≤ k → k < b → Less compare (view d data pivot) (view d data' k) := by
  obtain ⟨start, hswap, harr, hview⟩ := swap_arranged d hb ⟨Nat.le_refl a, show a < b by omega⟩ hpivot
  have hb' : b ≤ start.size := by
    rw [harr.size]
    exact hb
  have hpiv : view d start a = view d data pivot := by
    rw [hview, swap_left]
  have hstart := splits_start d start (show a < b by omega)
    (fun y => !decide (Less compare (view d start a) y))
  have htests : Tests d (fun data i => (less compare data a i).map (!·))
      (fun data j => less compare data a j) a start.size
      (fun y => !decide (Less compare (view d start a) y)) (view d start a) := by
    intro cur hsize hpiv k hk
    have hless : less compare cur a k = some (decide (Less compare (view d cur a) (view d cur k))) :=
      less_eq d (by omega) (by omega)
    rw [hpiv] at hless
    refine ⟨congrArg (Option.map (!·)) hless, ?_⟩
    dsimp only
    rw [hless, Bool.not_not]
  obtain ⟨data', j, hsplit, harr', hsplits⟩ := split_spec hstart htests hb'
  have hlow := hsplits.low
  have hhigh := hsplits.high
  have hinner := harr'.mono (Nat.le_succ a) (Nat.le_refl b)
  rw [← hpiv]
  refine ⟨data', j + 1, ?_, harr.trans hinner, ⟨hlow, hhigh⟩, ?_, ?_⟩
  · unfold partitionEqual
    simp only [hswap, hsplit, Option.bind_eq_bind, Option.bind_some]
    rfl
  · intro k hk hk'
    by_cases hka : k = a
    · rw [hka, hsplits.pivot]
      exact notAfter_refl _
    · have := hsplits.left k (by omega) hk'
      rw [Bool.not_eq_true', decide_eq_false_iff_not] at this
      exact this
  · intro k hk hk'
    have := hsplits.right k hk hk'
    rw [Bool.not_eq_false', decide_eq_true_eq] at this
    exact this

/-! ## heaps -/

/-- the elements from `first` on -/
def shifted (first : Nat) (v : Nat → α) : Nat → α := fun k => v (first + k)

theorem shifted_swap (v : Nat → α) (first i j : Nat) :
    shifted first (v ∘ Equiv.swap (first + i) (first + j)) = shifted first v ∘ Equiv.swap i j := by
  funext k
  show v (Equiv.swap (first + i) (first + j) (first + k)) = v (first + Equiv.swap i j k)
  refine congrArg v ?_
  rw [Equiv.swap_apply_def, Equiv.swap_apply_def]
  simp only [Nat.add_left_cancel_iff]
  split
  · rfl
  · split
    · rfl
    · rfl

section
variable {first lo hi root : Nat}

theorem greaterChild_spec (d : α) (hroot : 2 * root + 1 < hi) (hhi : first + hi ≤ data.size) :
    ∃ child, greaterChild compare data hi first (2 * root + 1) = some child ∧ Child root child ∧
      child < hi ∧ ∀ c, Child root c → c < hi →
        NotAfter (Less compare) (shifted first (view d data) c) (shifted first (view d data) child) := by
  unfold greaterChild
  by_cases htwo : 2 * root + 1 + 1 < hi
  · rw [if_pos htwo, less_eq d (by omega) (by omega)]
    by_cases hless : Less compare (view d data (first + (2 * root + 1)))
        (view d data (first + (2 * root + 1) + 1))
    · rw [decide_eq_true hless]
      refine ⟨2 * root + 2, rfl, Or.inr rfl, htwo, ?_⟩
      intro c hc hlt
      rcases hc with rfl | rfl
      · exact notAfter_of_lt hless
      · exact notAfter_refl _
    · rw [decide_eq_false hless]
      refine ⟨2 * root + 1, rfl, Or.inl rfl, hroot, ?_⟩
      intro c hc hlt
      rcases hc with rfl | rfl
      · exact notAfter_refl _
      · exact hless
  · rw [if_neg htwo]
    refine ⟨2 * root + 1, rfl, Or.inl rfl, hroot, ?_⟩
    intro c hc hlt
    have hone : c = 2 * root + 1 := by
      unfold Child at hc
      omega
    rw [hone]
    exact notAfter_refl _

theorem siftDown_spec (hhi : first + hi ≤ data.size)
    (hheap : Heap (Less compare) (shifted first (view d data)) (lo + 1) hi) :
    ∃ data', siftDown compare data lo hi first = some data' ∧
      Arranged d first (first + hi) data data' ∧
      Heap (Less compare) (shifted first (view d data')) lo hi := by
  have hpass : ∀ s : Array α × Nat,
      (Arranged d first (first + hi) data s.1 ∧ lo ≤ s.2 ∧
        HeapBut (Less compare) (shifted first (view d s.1)) lo hi s.2) →
      (siftPass compare hi first s = .leave (some s.1) ∧
        Heap (Less compare) (shifted first (view d s.1)) lo hi) ∨
      ∃ s', siftPass compare hi first s = .again s' ∧ hi - s'.2 < hi - s.2 ∧
        Arranged d first (first + hi) data s'.1 ∧ lo ≤ s'.2 ∧
        HeapBut (Less compare) (shifted first (view d s'.1)) lo hi s'.2 := by
    intro s hs
    obtain ⟨cur, root⟩ := s
    obtain ⟨harr, hlo, hbut⟩ := hs
    dsimp only at hlo
    have hsize : first + hi ≤ cur.size := by
      rw [harr.size]
      exact hhi
    unfold siftPass
    dsimp only
    by_cases hleaf : hi ≤ 2 * root + 1
    · -- no child
      refine Or.inl ⟨?_, hbut.heap ?_⟩
      · rw [if_pos hleaf]
        rfl
      · intro c hc hlt
        unfold Child at hc
        omega
    · obtain ⟨child, hgreater, hroot, hchild, hmax⟩ :
          ∃ child, greaterChild compare cur hi first (2 * root + 1) = some child ∧ _ :=
        greaterChild_spec d (show 2 * root + 1 < hi by omega) hsize
      rw [if_neg hleaf, hgreater, Option.bind_eq_bind, Option.bind_some]
      have hafter : root < child := by
        unfold Child at hroot
        omega
      rw [less_eq d (by omega) (by omega)]
      by_cases hless : Less compare (view d cur (first + root)) (view d cur (first + child))
      · obtain ⟨next, hswap, harr', hview⟩ := swap_arranged d hsize
          ⟨show first ≤ first + root by omega, show first + root < first + hi by omega⟩
          ⟨show first ≤ first + child by omega, show first + child < first + hi by omega⟩
        refine Or.inr ⟨(next, child), ?_, ?_, harr.trans harr', ?_, ?_⟩
        · rw [decide_eq_true hless, hswap]
          rfl
        · show hi - child < hi - root
          omega
        · show lo ≤ child
          omega
        · rw [hview, shifted_swap]
          exact hbut.sift hlo hroot hchild hmax hless
      · refine Or.inl ⟨?_, hbut.heap ?_⟩
        · rw [decide_eq_false hless]
          rfl
        · intro c hc hlt
          exact notAfter_trans (hmax c hc hlt) hless
  refine loop_rule (siftPass compare hi first) (fun _ => none) (fun s => hi - s.2)
    (fun s => Arranged d first (first + hi) data s.1 ∧ lo ≤ s.2 ∧
      HeapBut (Less compare) (shifted first (view d s.1)) lo hi s.2) ?_
    (fun r => ∃ data', r = some data' ∧ Arranged d first (first + hi) data data' ∧
      Heap (Less compare) (shifted first (view d data')) lo hi) ?_ _
    ⟨Arranged.refl data, Nat.le_refl lo, hheap.but⟩
  · intro s s' hs hagain
    rcases hpass s hs with ⟨hleave, -⟩ | ⟨s'', hagain', hdown, hs''⟩
    · rw [hleave] at hagain
      cases hagain
    · rw [hagain'] at hagain
      cases hagain
      exact ⟨hs'', hdown⟩
  · intro s r hs hleave
    rcases hpass s hs with ⟨hleave', hdone⟩ | ⟨s'', hagain', -⟩
    · rw [hleave'] at hleave
      cases hleave
      exact ⟨s.1, rfl, hs.1, hdone⟩
    · rw [hagain'] at hleave
      cases hleave

end

/-- the rest of the range is a heap, and no element of it is greater than those behind it -/
structure HeapSorted (compare : α → α → Ordering) (v : Nat → α) (a b i : Nat) : Prop where
  heap : Heap (Less compare) (shifted a v) 0 i
  sorted : Sorted (Less compare) v (a + i) b
  before : ∀ k m, a ≤ k → k < a + i → a + i ≤ m → m < b → NotAfter (Less compare) (v k) (v m)

theorem HeapSorted.step (h : HeapSorted compare (view d data) a b (i + 1)) (hi : a + i < b)
    (hb : b ≤ data.size) :
    ∃ data', (do siftDown compare (← swap data a (a + i)) 0 i a) = some data' ∧
      Arranged d a b data data' ∧ HeapSorted compare (view d data') a b i := by
  obtain ⟨next, hswap, harr, hview⟩ := swap_arranged d hb ⟨Nat.le_refl a, show a < b by omega⟩
    ⟨show a ≤ a + i by omega, hi⟩
  have hfirst : view d next (a + i) = view d data a := by
    rw [hview, swap_right]
  have hrest : ∀ k, k ≠ a → k ≠ a + i → view d next k = view d data k := by
    intro k hk hk'
    rw [hview, swap_other _ hk hk']
  -- the root was the greatest element
  have hgreatest : ∀ k, a ≤ k → k < a + (i + 1) → NotAfter (Less compare) (view d data k) (view d data a) := by
    intro k hk hk'
    have := h.heap.greatest (show k - a < i + 1 by omega)
    change NotAfter _ (view d data (a + (k - a))) (view d data (a + 0)) at this
    rwa [show a + (k - a) = k by omega, Nat.add_zero] at this
  have hnext : ∀ k, a ≤ k → k < a + i → ∃ k', a ≤ k' ∧ k' < a + (i + 1) ∧ view d next k = view d data k' := by
    intro k hk hk'
    by_cases hka : k = a
    · refine ⟨a + i, by omega, by omega, ?_⟩
      rw [hka, hview, swap_left]
    · exact ⟨k, hk, by omega, hrest k hka (by omega)⟩
  have hheap : Heap (Less compare) (shifted a (view d next)) 1 i := by
    intro p c hp hc hlt
    have hpc : p < c := by
      unfold Child at hc
      omega
    have := h.heap p c (Nat.zero_le p) hc (by omega)
    unfold shifted at this ⊢
    rwa [hrest (a + c) (by omega) (by omega), hrest (a + p) (by omega) (by omega)]
  obtain ⟨data', hsift, harr', hheap'⟩ := siftDown_spec
    (show a + i ≤ next.size by rw [harr.size]; omega) hheap
  have hsame : ∀ k, a + i ≤ k → view d data' k = view d next k := fun k hk =>
    harr'.moved.outside (show ¬ (a ≤ k ∧ k < a + i) by omega)
  refine ⟨data', ?_, harr.trans (harr'.mono (Nat.le_refl a) hi.le), hheap', ?_, ?_⟩
  · rw [hswap]
    exact hsift
  · intro x y hx hxy hy
    rw [hsame x hx, hsame y (by omega), hrest y (by omega) (by omega)]
    by_cases hxi : x = a + i
    · rw [hxi, hfirst]
      exact h.before a y (Nat.le_refl a) (by omega) (by omega) hy
    · rw [hrest x (by omega) hxi]
      exact h.sorted x y (by omega) hxy hy
  · intro k m hk hk' hm hm'
    refine harr'.moved.all (P := fun x => NotAfter (Less compare) x (view d data' m)) ?_ k hk hk'
    intro k hk hk'
    obtain ⟨j, hj, hj', heq⟩ := hnext k hk hk'
    rw [heq, hsame m hm]
    by_cases hmi : m = a + i
    · rw [hmi, hfirst]
      exact hgreatest j hj hj'
    · rw [hrest m (by omega) hmi]
      exact h.before j m hj hj' (by omega) hm'

theorem heapSort_spec (d : α) (hab : a ≤ b) (hb : b ≤ data.size) :
    ∃ data', heapSort compare data a b = some data' ∧ Arranged d a b data data' ∧
      Sorted (Less compare) (view d data') a b := by
  obtain ⟨heaped, hbuild, harr, hheap⟩ := forDown_rule
    (fun data i => siftDown compare data i (b - a) a)
    (fun i data' => Arranged d a b data data' ∧ Heap (Less compare) (shifted a (view d data')) i (b - a))
    ((b - a - 1) / 2 + 1) data ⟨Arranged.refl data, by
      intro p c hp hc hlt
      unfold Child at hc
      omega⟩ (by
      intro i s hi hs
      obtain ⟨harr, hheap⟩ := hs
      obtain ⟨s', hsift, harr', hheap'⟩ := siftDown_spec
        (show a + (b - a) ≤ s.size by rw [harr.size]; omega) hheap
      exact ⟨s', hsift, harr.trans (harr'.mono (Nat.le_refl a) (by omega)), hheap'⟩)
  obtain ⟨data', hfold, harr', hsorted⟩ := forDown_rule
    (fun data i => do siftDown compare (← swap data a (a + i)) 0 i a)
    (fun i data' => Arranged d a b data data' ∧ HeapSorted compare (view d data') a b i)
    (b - a) heaped ⟨harr, hheap, sorted_of_short (by omega), fun k m _ _ hm hm' => by omega⟩ (by
      intro i s hi hs
      obtain ⟨harr, hs⟩ := hs
      obtain ⟨s', hstep, harr', hs'⟩ := hs.step (show a + i < b by omega) (by rw [harr.size]; exact hb)
      exact ⟨s', hstep, harr.trans harr', hs'⟩)
  refine ⟨data', ?_, harr', hsorted.sorted⟩
  unfold heapSort
  dsimp only
  rw [hbuild]
  exact hfold

end Tsr.Core.GoSort
