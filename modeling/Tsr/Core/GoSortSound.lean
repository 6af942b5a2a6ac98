import Tsr.Core.GoSortParts

/-!
# The sort sorts

* `partialRounds_spec`            a range that is reported as sorted is sorted;
* `breakPatterns_spec`, `choosePivot_spec`, `orient_spec`   indices stay in the range;
* `passes_spec`                   the loop ends with the range sorted, whatever its balance;
* `sort_spec`, `sort_sorts`       the result is a permutation, and in order.
-/

set_option linter.unusedSectionVars false

namespace Tsr.Core.GoSort
open Tsr.Lib.Loop
open Tsr.Lib.Ranges

variable {α : Type} {compare : α → α → Ordering} {d : α}
variable {a b n m i j k : Nat} {data data' data'' : Array α}

theorem only_spec {β : Type} {P : β → Prop} (condition : Bool) (step : β → Option β) (x : β)
    (hstep : condition = true → ∃ y, step x = some y ∧ P y) (hskip : condition = false → P x) :
    ∃ y, only condition step x = some y ∧ P y := by
  cases condition with
  | true => exact hstep rfl
  | false => exact ⟨x, rfl, hskip rfl⟩

/-! ## pivots -/

theorem randomIndex_lt (random : UInt64) (h : 0 < n) : randomIndex random n < n := by
  have hpos : 0 < Nat.size n := Nat.size_pos.2 h
  have hlow : 2 ^ (Nat.size n - 1) ≤ n := Nat.lt_size.1 (by omega)
  have hdouble : 2 ^ bitLength n ≤ 2 * n := by
    rw [bitLength, show Nat.size n = Nat.size n - 1 + 1 by omega, Nat.pow_succ]
    omega
  have hother : (random.toNat &&& (2 ^ bitLength n - 1)) < 2 ^ bitLength n :=
    Nat.and_lt_two_pow _ (Nat.sub_lt (Nat.two_pow_pos _) Nat.one_pos)
  unfold randomIndex
  dsimp only
  split
  · omega
  · omega

theorem breakPatterns_spec (d : α) (hb : b ≤ data.size) :
    ∃ data', breakPatterns data a b = some data' ∧ Arranged d a b data data' := by
  unfold breakPatterns
  dsimp only
  by_cases hshort : b - a < 8
  · rw [if_pos hshort]
    exact ⟨data, rfl, Arranged.refl data⟩
  · rw [if_neg hshort]
    obtain ⟨s', hfold, harr⟩ := forUp_rule (fun (s : Array α × UInt64) index => do
        let random := xorshift s.2
        return (← swap s.1 index (a + randomIndex random (b - a)), random))
      (fun _ s => Arranged d a b data s.1) (a + (b - a) / 4 * 2 - 1) 3 (data, UInt64.ofNat (b - a))
      (Arranged.refl data) (by
        intro index s hlow hhigh harr
        have hother := randomIndex_lt (xorshift s.2) (show 0 < b - a by omega)
        obtain ⟨next, hswap, harr', -⟩ := swap_arranged d
          (show b ≤ s.1.size by rw [harr.size]; exact hb)
          ⟨show a ≤ index by omega, show index < b by omega⟩
          ⟨Nat.le_add_right a (randomIndex (xorshift s.2) (b - a)), by omega⟩
        refine ⟨(next, xorshift s.2), ?_, harr.trans harr'⟩
        dsimp only
        rw [hswap]
        rfl)
    refine ⟨s'.1, ?_, harr⟩
    rw [hfold]
    rfl

theorem order2_spec (d : α) (swaps : Nat) (hi : i < data.size) (hj : j < data.size) :
    ∃ x y swaps', order2 compare data i j swaps = some (x, y, swaps') ∧
      (x = i ∧ y = j ∨ x = j ∧ y = i) := by
  unfold order2
  rw [less_eq d hj hi]
  by_cases hless : Less compare (view d data j) (view d data i)
  · rw [decide_eq_true hless]
    exact ⟨j, i, swaps + 1, rfl, Or.inr ⟨rfl, rfl⟩⟩
  · rw [decide_eq_false hless]
    exact ⟨i, j, swaps, rfl, Or.inl ⟨rfl, rfl⟩⟩

/-- the median is one of the three positions -/
theorem median_spec (d : α) (swaps : Nat) (hi : i < data.size) (hj : j < data.size) (hk : k < data.size) :
    ∃ x swaps', median compare data i j k swaps = some (x, swaps') ∧ (x = i ∨ x = j ∨ x = k) := by
  obtain ⟨x, y, s, h1, hxy⟩ : ∃ x y s, order2 compare data i j swaps = some (x, y, s) ∧ _ :=
    order2_spec d swaps hi hj
  obtain ⟨y', z, s', h2, hyz⟩ : ∃ y' z s', order2 compare data y k s = some (y', z, s') ∧ _ :=
    order2_spec d s (by omega) hk
  obtain ⟨x', y'', s'', h3, hlast⟩ : ∃ x' y'' s'', order2 compare data x y' s' = some (x', y'', s'') ∧ _ :=
    order2_spec d s' (by omega) (by omega)
  refine ⟨y'', s'', ?_, by omega⟩
  unfold median
  simp only [h1, h2, h3, Option.bind_eq_bind, Option.bind_some]
  rfl

theorem median_within (d : α) (swaps : Nat) (hb : b ≤ data.size) (hi : a ≤ i ∧ i < b)
    (hj : a ≤ j ∧ j < b) (hk : a ≤ k ∧ k < b) :
    ∃ x swaps', median compare data i j k swaps = some (x, swaps') ∧ a ≤ x ∧ x < b := by
  obtain ⟨x, swaps', h, hx⟩ : ∃ x swaps', median compare data i j k swaps = some (x, swaps') ∧ _ :=
    median_spec d swaps (by omega) (by omega) (by omega)
  refine ⟨x, swaps', h, ?_⟩
  rcases hx with rfl | rfl | rfl
  · exact hi
  · exact hj
  · exact hk

theorem choosePivot_spec (d : α) (hlong : 12 < b - a) (hb : b ≤ data.size) :
    ∃ pivot hint, choosePivot compare data a b = some (pivot, hint) ∧ a ≤ pivot ∧ pivot < b := by
  unfold choosePivot
  dsimp only
  rw [if_neg (by omega)]
  by_cases hmany : b - a < 50
  · rw [if_pos hmany]
    obtain ⟨x, s, hmedian, hx⟩ : ∃ x s, median compare data (a + (b - a) / 4) (a + (b - a) / 4 * 2)
        (a + (b - a) / 4 * 3) 0 = some (x, s) ∧ a ≤ x ∧ x < b :=
      median_within d 0 hb (by omega) (by omega) (by omega)
    refine ⟨x, hintOf s, ?_, hx⟩
    rw [hmedian]
    rfl
  · rw [if_neg hmany]
    unfold medians
    obtain ⟨i', s₁, h1, hi'⟩ : ∃ x s, median compare data (a + (b - a) / 4 - 1) (a + (b - a) / 4)
        (a + (b - a) / 4 + 1) 0 = some (x, s) ∧ a ≤ x ∧ x < b :=
      median_within d 0 hb (by omega) (by omega) (by omega)
    obtain ⟨j', s₂, h2, hj'⟩ : ∃ x s, median compare data (a + (b - a) / 4 * 2 - 1) (a + (b - a) / 4 * 2)
        (a + (b - a) / 4 * 2 + 1) s₁ = some (x, s) ∧ a ≤ x ∧ x < b :=
      median_within d s₁ hb (by omega) (by omega) (by omega)
    obtain ⟨k', s₃, h3, hk'⟩ : ∃ x s, median compare data (a + (b - a) / 4 * 3 - 1) (a + (b - a) / 4 * 3)
        (a + (b - a) / 4 * 3 + 1) s₂ = some (x, s) ∧ a ≤ x ∧ x < b :=
      median_within d s₂ hb (by omega) (by omega) (by omega)
    obtain ⟨x, s₄, h4, hx⟩ : ∃ x s, median compare data i' j' k' s₃ = some (x, s) ∧ a ≤ x ∧ x < b :=
      median_within d s₃ hb hi' hj' hk'
    refine ⟨x, hintOf s₄, ?_, hx⟩
    simp only [h1, h2, h3, h4, Option.bind_eq_bind, Option.bind_some, Option.pure_def]

/-! ## a range that is reversed -/

/-- the positions of the range in the opposite order -/
def mirror (a b k : Nat) : Nat := if a ≤ k ∧ k < b then a + b - 1 - k else k

theorem mirror_involutive (a b : Nat) : Function.Involutive (mirror a b) := by
  intro k
  unfold mirror
  by_cases hk : a ≤ k ∧ k < b
  · rw [if_pos hk, if_pos (by omega)]
    omega
  · rw [if_neg hk, if_neg hk]

theorem getElem?_mirror (hab : a ≤ b) (hb : b ≤ data.size) (k : Nat) :
    (data.extract 0 a ++ (data.extract a b).reverse ++ data.extract b data.size)[k]? =
      data[mirror a b k]? := by
  have hfirst : (data.extract 0 a).size = a := by
    rw [Array.size_extract]
    omega
  have hmiddle : (data.extract a b).size = b - a := by
    rw [Array.size_extract]
    omega
  have hboth : (data.extract 0 a ++ (data.extract a b).reverse).size = b := by
    rw [Array.size_append, Array.size_reverse, hfirst, hmiddle]
    omega
  rw [Array.getElem?_append, hboth]
  unfold mirror
  by_cases hkb : k < b
  · rw [if_pos hkb, Array.getElem?_append, hfirst]
    by_cases hka : k < a
    · rw [if_pos hka, if_neg (by omega), Array.getElem?_extract, if_pos (by omega), Nat.zero_add]
    · rw [if_neg hka, if_pos (by omega), Array.getElem?_reverse (by rw [hmiddle]; omega), hmiddle,
        Array.getElem?_extract, if_pos (by omega)]
      congr 1
      omega
  · rw [if_neg hkb, if_neg (by omega), Array.getElem?_extract, Nat.min_self]
    by_cases hk : k < data.size
    · rw [if_pos (by omega)]
      congr 1
      omega
    · rw [if_neg (by omega), Array.getElem?_eq_none (by omega)]

theorem reverse_spec (d : α) (hab : a ≤ b) (hb : b ≤ data.size) :
    ∃ data', reverse data a b = some data' ∧ Arranged d a b data data' := by
  refine ⟨_, if_pos ⟨hab, hb⟩, ?_, ?_⟩
  · simp only [Array.size_append, Array.size_extract, Array.size_reverse]
    omega
  · refine ⟨(mirror_involutive a b).toPerm, ?_, ?_⟩
    · intro k hk
      exact if_neg hk
    · funext k
      show (_ : Array α)[k]?.getD d = data[mirror a b k]?.getD d
      rw [getElem?_mirror hab hb]

theorem orient_spec (d : α) {pivot : Nat} (hint : Hint) (hpivot : a ≤ pivot ∧ pivot < b) (hb : b ≤ data.size) :
    ∃ data' pivot' hint', orient data a b pivot hint = some (data', pivot', hint') ∧
      Arranged d a b data data' ∧ a ≤ pivot' ∧ pivot' < b := by
  unfold orient
  by_cases hdec : hint = .decreasing
  · obtain ⟨data', hrev, harr⟩ := reverse_spec d (show a ≤ b by omega) hb
    rw [if_pos hdec, hrev]
    exact ⟨data', b - 1 - (pivot - a), .increasing, rfl, harr, by omega, by omega⟩
  · rw [if_neg hdec]
    exact ⟨data, pivot, hint, rfl, Arranged.refl data, hpivot⟩

/-! ## nearly sorted ranges -/

variable [IsStrictWeakOrder α (Less compare)]

/-- **A range that is reported as sorted is sorted.** -/
theorem partialRounds_spec (rounds i : Nat) (data : Array α) (hi : a < i ∧ i ≤ b) (hb : b ≤ data.size)
    (hfloor : Floor compare (view d data) a b) (hsorted : Sorted (Less compare) (view d data) a i) :
    ∃ data' flag, partialRounds compare a b rounds i data = some (data', flag) ∧
      Arranged d a b data data' ∧ (flag = true → Sorted (Less compare) (view d data') a b) := by
  induction rounds generalizing i data with
  | zero => exact ⟨data, false, rfl, Arranged.refl data, fun h => absurd h Bool.false_ne_true⟩
  | succ rounds ih =>
    have htest : ∀ k, i ≤ k → k < i + (b - i) → (less compare data k (k - 1)).map (!·) =
        some (!decide (Less compare (view d data k) (view d data (k - 1)))) := by
      intro k hk hk'
      exact congrArg (Option.map (!·)) (less_eq d (by omega) (by omega))
    obtain ⟨i', hclimb, hi', hall, hstop⟩ := climb_spec
      (fun i => (less compare data i (i - 1)).map (!·))
      (fun k => !decide (Less compare (view d data k) (view d data (k - 1)))) (b - i) i htest
    have hmore : Sorted (Less compare) (view d data) a i' := by
      refine hsorted.extend hi'.1 ?_
      intro k hk hk'
      have := hall k hk hk'
      rw [Bool.not_eq_true', decide_eq_false_iff_not] at this
      exact this
    rw [partialRounds, hclimb, Option.bind_eq_bind, Option.bind_some]
    by_cases hend : i' = b
    · rw [if_pos hend]
      rw [hend] at hmore
      exact ⟨data, true, rfl, Arranged.refl data, fun _ => hmore⟩
    · rw [if_neg hend]
      by_cases hshort : b - a < 50
      · rw [if_pos hshort]
        exact ⟨data, false, rfl, Arranged.refl data, fun h => absurd h Bool.false_ne_true⟩
      · rw [if_neg hshort]
        obtain ⟨first, hswap, harr₁, hview⟩ := swap_arranged d hb
          ⟨show a ≤ i' by omega, show i' < b by omega⟩ ⟨show a ≤ i' - 1 by omega, show i' - 1 < b by omega⟩
        have hsize₁ := harr₁.size
        have hfloor₁ := hfloor.moved harr₁.moved
        -- the lesser of the two sinks among those in front of it
        obtain ⟨second, hsink, harr₂, hsorted₂⟩ : ∃ second,
            only (2 ≤ i' - a) (sink compare 0 (i' - 1)) first = some second ∧
            Arranged d a i' first second ∧ Sorted (Less compare) (view d second) a i' := by
          refine only_spec _ _ _ ?_ ?_
          · intro htwo
            have htwo' := of_decide_eq_true htwo
            have hbefore : Sorted (Less compare) (view d first) a (i' - 1) := by
              refine Sorted.congr (b := i' - 1) (v := view d data) ?_ ?_
              · intro x y hx hxy hy
                exact hmore x y hx hxy (by omega)
              · intro k hk hk'
                rw [hview, swap_other _ (by omega) (by omega)]
            have hbut := hbefore.but
            rw [show i' - 1 + 1 = i' by omega] at hbut
            refine sink_spec 0 (i' - 1) first (Nat.zero_le a) ?_ ⟨by omega, by omega⟩ (by omega) hbut
            intro _ hpos k hk hk'
            exact hfloor₁ hpos k hk (by omega)
          · intro hone
            have hone' := of_decide_eq_false hone
            exact ⟨Arranged.refl first, sorted_of_short (by omega)⟩
        have hsize₂ := harr₂.size
        -- the greater one rises behind them
        obtain ⟨third, hrise, harr₃⟩ : ∃ third,
            only (2 ≤ b - i') (rise compare (b - (i' + 1)) (i' + 1)) second = some third ∧
            Arranged d i' b second third := by
          refine only_spec _ _ _ ?_ fun _ => Arranged.refl second
          intro _
          exact rise_spec d (b - (i' + 1)) (i' + 1) second (Nat.lt_succ_self i') (by omega) (by omega)
        have hsize₃ := harr₃.size
        have hsorted₃ : Sorted (Less compare) (view d third) a i' :=
          hsorted₂.congr fun k hk hk' => harr₃.moved.outside (by omega)
        have harr := (harr₁.trans (harr₂.mono (Nat.le_refl a) (by omega))).trans
          (harr₃.mono (show a ≤ i' by omega) (Nat.le_refl b))
        obtain ⟨data', flag, hrest, harr', hflag⟩ := ih i' third ⟨by omega, by omega⟩ (by omega)
          (hfloor.moved harr.moved) hsorted₃
        refine ⟨data', flag, ?_, harr.trans harr', hflag⟩
        simp only [hswap, hsink, hrise, Option.bind_eq_bind, Option.bind_some]
        exact hrest

theorem tryPartial_spec (likely : Bool) (hab : a < b) (hb : b ≤ data.size)
    (hfloor : Floor compare (view d data) a b) :
    ∃ data' flag, tryPartial compare data a b likely = some (data', flag) ∧
      Arranged d a b data data' ∧ (flag = true → Sorted (Less compare) (view d data') a b) := by
  cases likely with
  | true =>
    exact partialRounds_spec 5 (a + 1) data ⟨Nat.lt_succ_self a, hab⟩ hb hfloor
      (sorted_of_short (Nat.le_refl _))
  | false => exact ⟨data, false, rfl, Arranged.refl data, fun h => absurd h Bool.false_ne_true⟩

theorem equalsFloor_spec (d : α) {pivot : Nat} (hpivot : pivot < data.size) (ha : a ≤ data.size) :
    ∃ equal, equalsFloor compare data a pivot = some equal ∧
      (equal = true → 0 < a ∧ NotAfter (Less compare) (view d data pivot) (view d data (a - 1))) := by
  unfold equalsFloor
  by_cases hpos : 0 < a
  · rw [if_pos hpos, less_eq d (by omega) hpivot]
    refine ⟨_, rfl, ?_⟩
    intro h
    rw [Bool.not_eq_true', decide_eq_false_iff_not] at h
    exact ⟨hpos, h⟩
  · rw [if_neg hpos]
    exact ⟨false, rfl, fun h => absurd h Bool.false_ne_true⟩

/-! ## the sort -/

variable (compare) in
/-- the range is parted at `m` -/
structure Parted (v : Nat → α) (a b m : Nat) : Prop where
  before : ∀ k, a ≤ k → k < m → Less compare (v k) (v m)
  behind : ∀ k, m + 1 ≤ k → k < b → NotAfter (Less compare) (v m) (v k)

variable {v w : Nat → α}

theorem Parted.left (h : Parted compare v a b m) (hmoved : Moved a m v w) : Parted compare w a b m := by
  have hm : w m = v m := hmoved.outside (by omega)
  refine ⟨?_, ?_⟩
  · rw [hm]
    exact hmoved.all (P := fun x => Less compare x (v m)) h.before
  · intro k hk hk'
    rw [hm, hmoved.outside (by omega)]
    exact h.behind k hk hk'

theorem Parted.right (h : Parted compare v a b m) (hmoved : Moved (m + 1) b v w) : Parted compare w a b m := by
  have hm : w m = v m := hmoved.outside (by omega)
  refine ⟨?_, ?_⟩
  · intro k hk hk'
    rw [hm, hmoved.outside (by omega)]
    exact h.before k hk hk'
  · rw [hm]
    exact hmoved.all (P := fun x => NotAfter (Less compare) (v m) x) h.behind

theorem Parted.floor (h : Parted compare v a b m) : Floor compare v (m + 1) b :=
  fun _ => h.behind

theorem Parted.join (h : Parted compare v a b m) (hleft : Sorted (Less compare) v a m)
    (hright : Sorted (Less compare) v (m + 1) b) : Sorted (Less compare) v a b :=
  sorted_join hleft hright (fun k hk hk' => notAfter_of_lt (h.before k hk hk')) h.behind

theorem Floor.shorten (h : Floor compare v a b) {b' : Nat} (hb : b' ≤ b) : Floor compare v a b' :=
  fun ha k hk hk' => h ha k hk (lt_of_lt_of_le hk' hb)

variable (compare) in
/-- the elements up to `m` are not greater than `x`, which is not greater than the one in front -/
structure Level (v : Nat → α) (a b m : Nat) (x : α) : Prop where
  floor : Floor compare v a b
  pos : 0 < a
  base : NotAfter (Less compare) x (v (a - 1))
  low : ∀ k, a ≤ k → k < m → NotAfter (Less compare) (v k) x
  high : ∀ k, m ≤ k → k < b → Less compare x (v k)

theorem Level.floor_behind {x : α} (h : Level compare v a b m x) (hm : a < m) : Floor compare v m b := by
  intro _ k hk hk'
  exact notAfter_trans (h.low (m - 1) (by omega) (by omega)) (notAfter_of_lt (h.high k hk hk'))

/-- elements that equal the floor are in order -/
theorem Level.join {x : α} (h : Level compare v a b m x) (hm : a < m ∧ m ≤ b) (hmoved : Moved m b v w)
    (hsorted : Sorted (Less compare) w m b) : Sorted (Less compare) w a b := by
  have hlow : ∀ k, a ≤ k → k < m → NotAfter (Less compare) (w k) x ∧ NotAfter (Less compare) x (w k) := by
    intro k hk hk'
    rw [hmoved.outside (by omega)]
    exact ⟨h.low k hk hk', notAfter_trans h.base (h.floor h.pos k hk (by omega))⟩
  have hhigh := hmoved.all (P := fun y => Less compare x y) h.high
  intro i j hi hij hj
  by_cases him : i < m
  · by_cases hjm : j < m
    · exact notAfter_trans (hlow i hi him).1 (hlow j (by omega) hjm).2
    · exact notAfter_trans (hlow i hi him).1 (notAfter_of_lt (hhigh j (by omega) hj))
  · exact hsorted i j (by omega) hij hj

/-- **The loop sorts its range**, with as much fuel as the range is long. -/
theorem passes_spec (fuel : Nat) (s : State α) (hfuel : s.b - s.a < fuel) (hab : s.a ≤ s.b)
    (hb : s.b ≤ s.data.size) (hfloor : Floor compare (view d s.data) s.a s.b) :
    ∃ data', passes compare fuel s = some data' ∧ Arranged d s.a s.b s.data data' ∧
      Sorted (Less compare) (view d data') s.a s.b := by
  induction fuel generalizing s with
  | zero => exact absurd hfuel (Nat.not_lt_zero _)
  | succ fuel ih =>
    obtain ⟨data, a, b, limit, wasBalanced, wasPartitioned⟩ := s
    dsimp only at hfuel hab hb hfloor ⊢
    rw [passes]
    dsimp only
    by_cases hshort : b - a ≤ 12
    · rw [if_pos hshort]
      exact insertionSort_spec hab hb
    rw [if_neg hshort]
    by_cases hlimit : limit = 0
    · rw [if_pos hlimit]
      exact heapSort_spec d hab hb
    rw [if_neg hlimit]
    generalize (if wasBalanced then limit else limit - 1) = limit'
    obtain ⟨data₁, hbreak, harr₁⟩ : ∃ data₁,
        only (!wasBalanced) (fun data => breakPatterns data a b) data = some data₁ ∧
        Arranged d a b data data₁ :=
      only_spec _ _ _ (fun _ => breakPatterns_spec d hb) fun _ => Arranged.refl data
    have hsize₁ := harr₁.size
    obtain ⟨pivot₁, hint₁, hchoose, hpivot₁⟩ : ∃ pivot hint, choosePivot compare data₁ a b = some (pivot, hint) ∧ _ :=
      choosePivot_spec d (by omega) (show b ≤ data₁.size by omega)
    obtain ⟨data₂, pivot, hint, horient, harr₂, hpivot⟩ := orient_spec d hint₁ hpivot₁
      (show b ≤ data₁.size by omega)
    have hsize₂ := harr₂.size
    have hfloor₂ := (hfloor.moved harr₁.moved).moved harr₂.moved
    obtain ⟨data₃, sorted, htry, harr₃, hsorted⟩ := tryPartial_spec
      (wasBalanced && wasPartitioned && hint = .increasing) (show a < b by omega)
      (show b ≤ data₂.size by omega) hfloor₂
    have hsize₃ := harr₃.size
    have hfloor₃ := hfloor₂.moved harr₃.moved
    have harr := (harr₁.trans harr₂).trans harr₃
    simp only [hbreak, hchoose, horient, htry, Option.bind_eq_bind, Option.bind_some]
    cases sorted with
    | true => exact ⟨data₃, rfl, harr, hsorted rfl⟩
    | false =>
      rw [if_neg Bool.false_ne_true]
      obtain ⟨equal, hequals, hequal⟩ : ∃ equal, equalsFloor compare data₃ a pivot = some equal ∧ _ :=
        equalsFloor_spec d (show pivot < data₃.size by omega) (by omega)
      rw [hequals, Option.bind_some]
      have hb₃ : b ≤ data₃.size := by omega
      cases equal with
      | true =>
        obtain ⟨hpos, hbase⟩ := hequal rfl
        obtain ⟨data₄, mid, hpart, harr₄, hmid, hlow, hhigh⟩ :
            ∃ data₄ mid, partitionEqual compare data₃ a b pivot = some (data₄, mid) ∧ _ :=
          partitionEqual_spec d hpivot hb₃
        have hsize₄ := harr₄.size
        have hlevel : Level compare (view d data₄) a b mid (view d data₃ pivot) := by
          refine ⟨hfloor₃.moved harr₄.moved, hpos, ?_, hlow, hhigh⟩
          rw [harr₄.moved.outside (by omega)]
          exact hbase
        obtain ⟨data', hrest, harr', hsorted'⟩ := ih ⟨data₄, mid, b, limit', wasBalanced, wasPartitioned⟩
          (by dsimp only; omega) hmid.2 (by dsimp only; omega) (hlevel.floor_behind hmid.1)
        refine ⟨data', ?_, (harr.trans harr₄).trans (harr'.mono hmid.1.le (Nat.le_refl b)),
          hlevel.join hmid harr'.moved hsorted'⟩
        rw [if_pos rfl, hpart]
        exact hrest
      | false =>
        obtain ⟨data₄, mid, already, hpart, harr₄, hmid, hbefore, hbehind⟩ :
            ∃ data₄ mid already, partition compare data₃ a b pivot = some (data₄, mid, already) ∧ _ :=
          partition_spec d hpivot hb₃
        have hsize₄ := harr₄.size
        have hparted : Parted compare (view d data₄) a b mid := ⟨hbefore, hbehind⟩
        have hfloor₄ := hfloor₃.moved harr₄.moved
        rw [if_neg Bool.false_ne_true, hpart, Option.bind_some]
        dsimp only
        by_cases hleft : mid - a < b - mid
        · -- the left side first
          obtain ⟨data₅, hfirst, harr₅, hsorted₅⟩ := ih ⟨data₄, a, mid, limit', true, true⟩
            (by dsimp only; omega) hmid.1 (by dsimp only; omega) (hfloor₄.shorten hmid.2.le)
          have hsize₅ := harr₅.size
          have hparted₅ := hparted.left harr₅.moved
          obtain ⟨data', hrest, harr', hsorted'⟩ := ih
            ⟨data₅, mid + 1, b, limit', (b - a) / 8 ≤ mid - a, already⟩
            (by dsimp only; omega) hmid.2 (by dsimp only at hsize₅ ⊢; omega) hparted₅.floor
          refine ⟨data', ?_, (harr.trans harr₄).trans ((harr₅.mono (Nat.le_refl a) hmid.2.le).trans
            (harr'.mono (show a ≤ mid + 1 by omega) (Nat.le_refl b))), ?_⟩
          · rw [if_pos hleft, hfirst]
            exact hrest
          · refine (hparted₅.right harr'.moved).join (hsorted₅.congr ?_) hsorted'
            intro k hk hk'
            dsimp only at hk hk'
            exact harr'.moved.outside (by dsimp only; omega)
        · obtain ⟨data₅, hfirst, harr₅, hsorted₅⟩ := ih ⟨data₄, mid + 1, b, limit', true, true⟩
            (by dsimp only; omega) hmid.2 (by dsimp only; omega) hparted.floor
          have hsize₅ := harr₅.size
          have hparted₅ := hparted.right harr₅.moved
          have harr₅' := harr₅.mono (show a ≤ mid + 1 by omega) (Nat.le_refl b)
          obtain ⟨data', hrest, harr', hsorted'⟩ := ih
            ⟨data₅, a, mid, limit', (b - a) / 8 ≤ b - mid, already⟩
            (by dsimp only; omega) hmid.1 (by dsimp only at hsize₅ ⊢; omega)
            ((hfloor₄.moved harr₅'.moved).shorten hmid.2.le)
          refine ⟨data', ?_, (harr.trans harr₄).trans (harr₅'.trans
            (harr'.mono (Nat.le_refl a) hmid.2.le)), ?_⟩
          · rw [if_neg hleft, hfirst]
            exact hrest
          · refine (hparted₅.left harr'.moved).join hsorted' (hsorted₅.congr ?_)
            intro k hk hk'
            dsimp only at hk hk'
            exact harr'.moved.outside (by dsimp only; omega)

/-! ## the whole slice -/

theorem toList_view (d : α) (data : Array α) :
    data.toList = (List.range data.size).map (view d data) := by
  apply List.ext_getElem?
  intro k
  rw [Array.getElem?_toList, List.getElem?_map]
  by_cases hk : k < data.size
  · rw [List.getElem?_range hk, getElem?_view (d := d) hk]
    rfl
  · rw [Array.getElem?_eq_none (Nat.not_lt.1 hk), List.getElem?_eq_none (by rw [List.length_range]; omega)]
    rfl

theorem Arranged.perm (h : Arranged d 0 data.size data data') : data'.toList.Perm data.toList := by
  obtain ⟨hsize, σ, hσ, hview⟩ := h
  have hperm : ((List.range data.size).map σ).Perm (List.range data.size) := by
    refine (List.perm_ext_iff_of_nodup (List.nodup_range.map σ.injective) List.nodup_range).2 ?_
    intro k
    rw [List.mem_map, List.mem_range]
    constructor
    · rintro ⟨m, hm, rfl⟩
      rw [List.mem_range] at hm
      by_contra hout
      have hsame : σ m = m := σ.injective (hσ (σ m) (by omega))
      omega
    · intro hk
      refine ⟨σ.symm k, ?_, σ.apply_symm_apply k⟩
      rw [List.mem_range]
      by_contra hout
      have hsame := hσ (σ.symm k) (by omega)
      rw [σ.apply_symm_apply] at hsame
      omega
  rw [toList_view d data', toList_view d data, hsize, hview, ← List.map_map]
  exact hperm.map _

theorem sort_spec (compare : α → α → Ordering) [IsStrictWeakOrder α (Less compare)] (data : Array α) :
    ∃ data', sort compare data = some data' ∧ data'.toList.Perm data.toList ∧
      data'.toList.Pairwise fun x y => compare y x ≠ .lt := by
  rcases Nat.eq_zero_or_pos data.size with hzero | hpos
  · obtain rfl := Array.eq_empty_of_size_eq_zero hzero
    exact ⟨#[], rfl, List.Perm.refl _, List.Pairwise.nil⟩
  · have hstart : Floor compare (view data[0] data) 0 data.size := fun h => absurd h (Nat.lt_irrefl 0)
    obtain ⟨data', hsort, harr, hsorted⟩ := passes_spec (data.size - 0 + 1)
      ⟨data, 0, data.size, bitLength data.size, true, true⟩ (Nat.lt_succ_self _) (Nat.zero_le _)
      (Nat.le_refl _) hstart
    refine ⟨data', hsort, harr.perm, ?_⟩
    have hsize := harr.size
    dsimp only at hsize hsorted
    rw [toList_view data[0] data', hsize, List.pairwise_map]
    refine List.pairwise_lt_range.imp_of_mem ?_
    intro x y _ hy hxy
    exact hsorted x y (Nat.zero_le x) hxy (List.mem_range.1 hy)

/-- **The sort ends with a permutation of the slice that is in order**, for every strict weak order. -/
theorem sort_sorts (compare : α → α → Ordering) [IsStrictWeakOrder α (Less compare)] (data : Array α) :
    ∃ data', sort compare data = some data' ∧ data'.toList.Perm data.toList ∧
      data'.toList.Pairwise fun x y => compare y x ≠ .lt :=
  sort_spec compare data

instance : IsStrictWeakOrder (Nat × Nat) (Less fun x y => Ord.compare x.1 y.1) where
  irrefl x h := Nat.lt_irrefl x.1 (Nat.compare_eq_lt.1 h)
  trans x y z h h' :=
    Nat.compare_eq_lt.2 (Nat.lt_trans (Nat.compare_eq_lt.1 h) (Nat.compare_eq_lt.1 h'))
  incomp_trans x y z h h' := by
    have hlt : ∀ a b : Nat × Nat, Less (fun x y => Ord.compare x.1 y.1) a b ↔ a.1 < b.1 :=
      fun a b => Nat.compare_eq_lt
    rw [hlt, hlt] at h h' ⊢
    omega

/-- pairs in the order of their first components -/
theorem sort_sorts_pairs :
    ∃ data', sort (fun x y : Nat × Nat => Ord.compare x.1 y.1) #[(2, 0), (1, 1), (2, 2), (0, 3)] = some data' ∧
      data'.toList.Perm [(2, 0), (1, 1), (2, 2), (0, 3)] ∧
      data'.toList.Pairwise fun x y => Ord.compare y.1 x.1 ≠ .lt :=
  sort_sorts (fun x y : Nat × Nat => Ord.compare x.1 y.1) #[(2, 0), (1, 1), (2, 2), (0, 3)]

end Tsr.Core.GoSort
