import Mathlib

/-!
# Comparisons that can fail

A comparison in several steps asks for the next key when all keys before it are equal.  Each step can
fail.

* `andThen`, `keyed`, `noneLast`, `same`, `all`   the steps;
* `LawfulOn`             an order on the values that a relation connects: where it succeeds it can be
                         turned around, and it is transitive;
* `Within`               a comparison that succeeds at least where another one does.
-/

set_option linter.unusedVariables false

namespace Tsr.Lib.Compare

variable {α κ β : Type}
variable {o : Ordering} {c : α → α → Option Ordering} {R : α → α → Prop} {f : α → Option κ}

/-- `d`, if `c` finds no difference -/
def andThen (c d : Option Ordering) : Option Ordering :=
  match c with
  | none => none
  | some .eq => d
  | some .lt => some .lt
  | some .gt => some .gt

/-- by a key that may be missing -/
def keyed (f : α → Option κ) (c : κ → κ → Option Ordering) (a b : α) : Option Ordering :=
  (f a).bind fun x => (f b).bind fun y => c x y

def noneLast (c : α → α → Option Ordering) : Option α → Option α → Option Ordering
  | none, none => some .eq
  | none, some _ => some .gt
  | some _, none => some .lt
  | some a, some b => c a b

/-- `c`, if the values are not the same -/
def same [DecidableEq α] (c : α → α → Option Ordering) (a b : α) : Option Ordering :=
  if a = b then some .eq else c a b

/-- one after the other, as long as there are two -/
def all (c : α → α → Option Ordering) : List α → List α → Option Ordering
  | a :: as, b :: bs => andThen (c a b) (all c as bs)
  | _, _ => some .eq

theorem all_cons (c : α → α → Option Ordering) (a b : α) (as bs : List α) :
    all c (a :: as) (b :: bs) = andThen (c a b) (all c as bs) := rfl

/-- shorter lists first -/
def lists (c : α → α → Option Ordering) (as bs : List α) : Option Ordering :=
  andThen (some (compare as.length bs.length)) (all c as bs)

theorem andThen_eq_some {c d : Option Ordering} (h : andThen c d = some o) :
    (c = some o ∧ o ≠ .eq) ∨ (c = some .eq ∧ d = some o) := by
  cases c with
  | none => exact nomatch h
  | some x =>
    cases x with
    | lt =>
      obtain rfl := Option.some.inj h
      exact Or.inl ⟨rfl, by decide⟩
    | eq => exact Or.inr ⟨rfl, h⟩
    | gt =>
      obtain rfl := Option.some.inj h
      exact Or.inl ⟨rfl, by decide⟩

theorem andThen_of_ne {c d : Option Ordering} (h : c = some o) (ho : o ≠ .eq) :
    andThen c d = some o := by
  subst h
  cases o with
  | lt => rfl
  | eq => exact absurd rfl ho
  | gt => rfl

theorem andThen_of_eq {c d : Option Ordering} (h : c = some .eq) : andThen c d = d := by
  rw [h]
  rfl

theorem andThen_eq (c : Option Ordering) : andThen c (some .eq) = c := by
  cases c with
  | none => rfl
  | some o => cases o <;> rfl

theorem andThen_assoc (c d e : Option Ordering) :
    andThen (andThen c d) e = andThen c (andThen d e) := by
  cases c with
  | none => rfl
  | some o => cases o <;> rfl

/-! ## laws -/

structure LawfulOn (R : α → α → Prop) (c : α → α → Option Ordering) : Prop where
  swap : ∀ a b o, R a b → c a b = some o → c b a = some o.swap
  trans : ∀ a b d o o', R a b → R b d → c a b = some o → c b d = some o' → o.isLE → o'.isLE →
    c a d = some (o.then o')

/-- an order on all values -/
abbrev Lawful (c : α → α → Option Ordering) : Prop := LawfulOn (fun _ _ => True) c

theorem LawfulOn.mono {R R' : α → α → Prop} (h : LawfulOn R c)
    (hR : ∀ a b, R' a b → R a b) : LawfulOn R' c where
  swap := fun a b o hab => h.swap a b o (hR a b hab)
  trans := fun a b d o o' hab hbd => h.trans a b d o o' (hR a b hab) (hR b d hbd)

theorem Lawful.on (h : Lawful c) (R : α → α → Prop) : LawfulOn R c :=
  LawfulOn.mono h fun _ _ _ => trivial

/-- a comparison may be replaced by one that agrees with it on related values, in both orders and for
the values that two steps connect -/
theorem LawfulOn.congr {c d : α → α → Option Ordering} (h : LawfulOn R c)
    (hR : ∀ a b, R a b → c a b = d a b ∧ c b a = d b a)
    (hR' : ∀ a b e, R a b → R b e → c a e = d a e) : LawfulOn R d where
  swap := by
    intro a b o hab hd
    rw [← (hR a b hab).1] at hd
    rw [← (hR a b hab).2]
    exact h.swap a b o hab hd
  trans := by
    intro a b e o o' hab hbe hd hd' ho ho'
    rw [← (hR a b hab).1] at hd
    rw [← (hR b e hbe).1] at hd'
    rw [← hR' a b e hab hbe]
    exact h.trans a b e o o' hab hbe hd hd' ho ho'

theorem lawful_equal (R : α → α → Prop) : LawfulOn R fun _ _ => some .eq where
  swap := by
    intro a b o _ h
    obtain rfl := Option.some.inj h
    rfl
  trans := by
    intro a b d o o' _ _ h h' _ _
    obtain rfl := Option.some.inj h
    obtain rfl := Option.some.inj h'
    rfl

theorem lawful_of_empty (c : α → α → Option Ordering) (h : ∀ a b, ¬ R a b) : LawfulOn R c where
  swap := fun a b _ hab => absurd hab (h a b)
  trans := fun a b _ _ _ hab => absurd hab (h a b)

theorem then_isLE {o o' : Ordering} (h : o.isLE) (h' : o'.isLE) :
    (o = .lt ∧ o.then o' = .lt) ∨ (o = .eq ∧ o.then o' = o') := by
  cases o with
  | lt => exact Or.inl ⟨rfl, rfl⟩
  | eq => exact Or.inr ⟨rfl, rfl⟩
  | gt => exact nomatch h

/-- by the value of a key in a linear order -/
theorem lawful_compare [Ord κ] [Std.TransOrd κ] [Std.LawfulEqOrd κ] (R : α → α → Prop) (f : α → κ) :
    LawfulOn R fun a b => some (compare (f a) (f b)) where
  swap := by
    intro a b o _ h
    rw [← Option.some.inj h, Std.OrientedOrd.eq_swap (a := f b)]
  trans := by
    intro a b d o o' _ _ h h' ho ho'
    have h := Option.some.inj h
    have h' := Option.some.inj h'
    rcases then_isLE ho ho' with ⟨rfl, e⟩ | ⟨rfl, e⟩
    · rw [e, Std.TransCmp.lt_of_lt_of_isLE h (by rw [h']; exact ho')]
    · rw [e, Std.LawfulEqOrd.eq_of_compare h, h']

theorem lawful_andThen {c d : α → α → Option Ordering} (hc : LawfulOn R c)
    (hd : LawfulOn (fun a b => R a b ∧ c a b = some .eq) d) :
    LawfulOn R fun a b => andThen (c a b) (d a b) where
  swap := by
    intro a b o hab h
    rcases andThen_eq_some h with ⟨h, ho⟩ | ⟨h, h1⟩
    · exact andThen_of_ne (hc.swap a b o hab h) (by cases o <;> simp_all)
    · rw [andThen_of_eq (hc.swap a b .eq hab h)]
      exact hd.swap a b o ⟨hab, h⟩ h1
  trans := by
    intro a b e o o' hab hbe h h' ho ho'
    -- the first step that finds a difference decides, on either side
    rcases andThen_eq_some h with ⟨h, hne⟩ | ⟨h, h1⟩
    · rcases then_isLE ho ho' with ⟨rfl, heq⟩ | ⟨rfl, _⟩
      · rw [heq]
        rcases andThen_eq_some h' with ⟨h', _⟩ | ⟨h', _⟩
        · exact andThen_of_ne (hc.trans a b e _ _ hab hbe h h' ho ho') (by decide)
        · exact andThen_of_ne (hc.trans a b e _ _ hab hbe h h' ho rfl) (by decide)
      · exact absurd rfl hne
    · rcases andThen_eq_some h' with ⟨h', hne⟩ | ⟨h', h2⟩
      · rcases then_isLE ho' ho' with ⟨rfl, _⟩ | ⟨rfl, _⟩
        · have h3 := hc.trans a b e _ _ hab hbe h h' rfl ho'
          rw [andThen_of_ne h3 (by decide)]
          rcases then_isLE ho ho' with ⟨rfl, _⟩ | ⟨rfl, _⟩ <;> rfl
        · exact absurd rfl hne
      · rw [andThen_of_eq (hc.trans a b e _ _ hab hbe h h' rfl rfl)]
        exact hd.trans a b e o o' ⟨hab, h⟩ ⟨hbe, h'⟩ h1 h2 ho ho'

theorem lawful_then {f g : α → α → Ordering} (hf : LawfulOn R fun a b => some (f a b))
    (hg : LawfulOn (fun a b => R a b ∧ f a b = .eq) fun a b => some (g a b)) :
    LawfulOn R fun a b => some ((f a b).then (g a b)) := by
  have hand : LawfulOn R fun a b => andThen (some (f a b)) (some (g a b)) :=
    lawful_andThen hf (hg.mono fun a b h => ⟨h.1, Option.some.inj h.2⟩)
  have e : ∀ a b, andThen (some (f a b)) (some (g a b)) = some ((f a b).then (g a b)) := by
    intro a b
    cases f a b <;> rfl
  exact hand.congr (fun a b _ => ⟨e a b, e b a⟩) (fun a b d _ _ => e a d)

theorem keyed_eq_some {c : κ → κ → Option Ordering} {a b : α}
    (h : keyed f c a b = some o) : ∃ x y, f a = some x ∧ f b = some y ∧ c x y = some o := by
  unfold keyed at h
  obtain ⟨x, hx, h⟩ := Option.bind_eq_some_iff.1 h
  obtain ⟨y, hy, h⟩ := Option.bind_eq_some_iff.1 h
  exact ⟨x, y, hx, hy, h⟩

theorem keyed_of {c : κ → κ → Option Ordering} {a b : α} {x y : κ}
    (hx : f a = some x) (hy : f b = some y) : keyed f c a b = c x y := by
  rw [keyed, hx, hy]
  rfl

/-- the keys are compared where they are keys of related values -/
theorem lawful_keyed {c : κ → κ → Option Ordering}
    (h : LawfulOn (fun x y => ∃ a b, R a b ∧ f a = some x ∧ f b = some y) c) :
    LawfulOn R (keyed f c) where
  swap := by
    intro a b o hab hk
    obtain ⟨x, y, hx, hy, hc⟩ := keyed_eq_some hk
    rw [keyed_of hy hx]
    exact h.swap x y o ⟨a, b, hab, hx, hy⟩ hc
  trans := by
    intro a b d o o' hab hbd hk hk' ho ho'
    obtain ⟨x, y, hx, hy, hc⟩ := keyed_eq_some hk
    obtain ⟨y', z, hy', hz, hc'⟩ := keyed_eq_some hk'
    obtain rfl := Option.some.inj (hy.symm.trans hy')
    rw [keyed_of hx hz]
    exact h.trans x y z o o' ⟨a, b, hab, hx, hy⟩ ⟨b, d, hbd, hy, hz⟩ hc hc' ho ho'

theorem lawful_noneLast (h : Lawful c) : Lawful (noneLast c) where
  swap := by
    intro a b o _ hc
    cases a with
    | none =>
      cases b with
      | none => obtain rfl := Option.some.inj hc; rfl
      | some b => obtain rfl := Option.some.inj hc; rfl
    | some a =>
      cases b with
      | none => obtain rfl := Option.some.inj hc; rfl
      | some b => exact h.swap a b o trivial hc
  trans := by
    intro a b d o o' _ _ hc hc' ho ho'
    cases a with
    | none =>
      cases b with
      | none => obtain rfl := Option.some.inj hc; exact hc'
      | some b => obtain rfl := Option.some.inj hc; exact nomatch ho
    | some a =>
      cases b with
      | none =>
        obtain rfl := Option.some.inj hc
        cases d with
        | none => rfl
        | some d => obtain rfl := Option.some.inj hc'; exact nomatch ho'
      | some b =>
        cases d with
        | none =>
          obtain rfl := Option.some.inj hc'
          rcases then_isLE ho ho' with ⟨rfl, _⟩ | ⟨rfl, _⟩ <;> rfl
        | some d => exact h.trans a b d o o' trivial trivial hc hc' ho ho'

/-- a test first that only equal values pass -/
theorem lawful_sameBy [DecidableEq β] (f : α → β)
    (hR : ∀ a b, R a b → f a = f b → a = b) (hR' : ∀ a b d, R a b → R b d → f a = f d → a = d)
    (h : LawfulOn R c) : LawfulOn R fun a b => if f a = f b then some .eq else c a b where
  swap := by
    intro a b o hab hc
    split at hc
    next e =>
      obtain rfl := Option.some.inj hc
      rw [if_pos e.symm]
      rfl
    next e =>
      rw [if_neg (Ne.symm e)]
      exact h.swap a b o hab hc
  trans := by
    intro a b d o o' hab hbd hc hc' ho ho'
    split at hc
    next e =>
      obtain rfl := Option.some.inj hc
      rw [hR a b hab e]
      exact hc'
    next e =>
      split at hc'
      next e' =>
        obtain rfl := Option.some.inj hc'
        rw [← hR b d hbd e', if_neg e, hc, Ordering.then_eq]
      next e' =>
        split
        next e'' =>
          -- there and back again
          obtain rfl := hR' a b d hab hbd e''
          have hswap := h.swap a b o hab hc
          obtain rfl := Option.some.inj (hswap.symm.trans hc')
          rw [Ordering.eq_eq_of_isLE_of_isLE_swap ho ho']
          rfl
        next => exact h.trans a b d o o' hab hbd hc hc' ho ho'

theorem lawful_same [DecidableEq α]
    (h : LawfulOn R c) : LawfulOn R (same c) :=
  lawful_sameBy id (fun _ _ _ e => e) (fun _ _ _ _ _ e => e) h

theorem lawful_comap {R : β → β → Prop} {c : β → β → Option Ordering} (f : α → β)
    (h : LawfulOn R c) : LawfulOn (fun a b => R (f a) (f b)) fun a b => c (f a) (f b) where
  swap := fun a b o hab => h.swap (f a) (f b) o hab
  trans := fun a b d o o' hab hbd => h.trans (f a) (f b) (f d) o o' hab hbd

/-- an order in the other direction -/
theorem lawful_flip (h : LawfulOn R c) :
    LawfulOn (fun a b => R b a) fun a b => c b a where
  swap := fun a b o hab => h.swap b a o hab
  trans := by
    intro a b d o o' hab hbd hc hc' ho ho'
    show c d a = _
    rw [h.trans d b a o' o hbd hab hc' hc ho' ho]
    rcases then_isLE ho ho' with ⟨rfl, e⟩ | ⟨rfl, e⟩
    · rcases then_isLE ho' ho with ⟨rfl, _⟩ | ⟨rfl, e'⟩
      · rfl
      · rw [e, e']
    · rw [e, Ordering.then_eq]

/-- lists of one length: by the heads, then by the tails -/
theorem lawful_all_length (h : LawfulOn R c) (n : Nat) :
    LawfulOn (fun as bs => as.length = n ∧ List.Forall₂ R as bs) (all c) := by
  induction n with
  | zero =>
    have hnil : ∀ as bs : List α, as.length = 0 ∨ bs.length = 0 → some Ordering.eq = all c as bs := by
      intro as bs hempty
      rcases hempty with has | hbs
      · rw [List.eq_nil_of_length_eq_zero has, all]
        exact fun _ _ _ _ e => nomatch e
      · rw [List.eq_nil_of_length_eq_zero hbs, all]
        exact fun _ _ _ _ _ e => nomatch e
    refine LawfulOn.congr (lawful_equal _) ?_ ?_
    · intro as bs hrel
      exact ⟨hnil as bs (Or.inl hrel.1), hnil bs as (Or.inr hrel.1)⟩
    · intro as bs ds hrel _
      exact hnil as ds (Or.inl hrel.1)
  | succ n ih =>
    have hstep : ∀ as bs : List α, as.length = n + 1 → bs.length = n + 1 →
        andThen (keyed List.head? c as bs) (all c as.tail bs.tail) = all c as bs := by
      intro as bs has hbs
      obtain ⟨a, as, rfl⟩ := List.exists_cons_of_length_eq_add_one has
      obtain ⟨b, bs, rfl⟩ := List.exists_cons_of_length_eq_add_one hbs
      rfl
    have hlength : ∀ as bs : List α, as.length = n + 1 ∧ List.Forall₂ R as bs → bs.length = n + 1 := by
      intro as bs hrel
      rw [← hrel.2.length_eq, hrel.1]
    have hhead : LawfulOn (fun as bs : List α => as.length = n + 1 ∧ List.Forall₂ R as bs)
        (keyed List.head? c) := by
      apply lawful_keyed
      refine h.mono ?_
      intro x y hxy
      obtain ⟨as, bs, ⟨has, hrel⟩, hx, hy⟩ := hxy
      cases hrel with
      | nil => cases hx
      | cons hab _ =>
        obtain rfl := Option.some.inj hx
        obtain rfl := Option.some.inj hy
        exact hab
    have htail : ∀ as bs : List α, as.length = n + 1 ∧ List.Forall₂ R as bs →
        as.tail.length = n ∧ List.Forall₂ R as.tail bs.tail := by
      intro as bs hrel
      obtain ⟨has, hrel⟩ := hrel
      cases hrel with
      | nil => cases has
      | cons _ hrel => exact ⟨Nat.succ.inj has, hrel⟩
    have hall : LawfulOn (fun as bs : List α => as.length = n + 1 ∧ List.Forall₂ R as bs)
        fun as bs => andThen (keyed List.head? c as bs) (all c as.tail bs.tail) :=
      lawful_andThen hhead ((lawful_comap List.tail ih).mono fun as bs hrel => htail as bs hrel.1)
    refine hall.congr ?_ ?_
    · intro as bs hrel
      exact ⟨hstep as bs hrel.1 (hlength as bs hrel), hstep bs as (hlength as bs hrel) hrel.1⟩
    · intro as bs ds hrel hrel'
      exact hstep as ds hrel.1 (hlength bs ds hrel')

/-- lists of which the members are related, one by one -/
theorem lawful_all_related (h : LawfulOn R c) :
    LawfulOn (List.Forall₂ R) (all c) where
  swap := by
    intro as bs o hrel
    exact (lawful_all_length h as.length).swap as bs o ⟨rfl, hrel⟩
  trans := by
    intro as bs ds o o' hrel hrel'
    exact (lawful_all_length h as.length).trans as bs ds o o' ⟨rfl, hrel⟩ ⟨hrel.length_eq.symm, hrel'⟩

theorem lawful_all (h : Lawful c) :
    LawfulOn (fun as bs => as.length = bs.length) (all c) := by
  refine (lawful_all_related h).mono ?_
  intro as bs hlength
  exact List.forall₂_iff_zip.2 ⟨hlength, fun _ => trivial⟩

theorem lawful_lists (h : Lawful c) : Lawful (lists c) := by
  refine lawful_andThen (lawful_compare _ List.length) ((lawful_all h).mono ?_)
  rintro as bs ⟨-, e⟩
  exact Std.LawfulEqOrd.eq_of_compare (Option.some.inj e)

/-- which comparison it is depends on something that related values share -/
theorem lawful_branch {p : α → β} {c : β → α → α → Option Ordering}
    (hp : ∀ a b, R a b → p a = p b)
    (h : ∀ v, LawfulOn (fun a b => R a b ∧ p a = v ∧ p b = v) (c v)) :
    LawfulOn R fun a b => c (p a) a b where
  swap := by
    intro a b o hab hc
    have e := hp a b hab
    rw [← e]
    exact (h (p a)).swap a b o ⟨hab, rfl, e.symm⟩ hc
  trans := by
    intro a b d o o' hab hbd hc hc' ho ho'
    have e := hp a b hab
    have e' := hp b d hbd
    rw [← e] at hc'
    exact (h (p a)).trans a b d o o' ⟨hab, rfl, e.symm⟩ ⟨hbd, e.symm, (e.trans e').symm⟩ hc hc' ho ho'

/-- a value compares equal to itself, where the comparison succeeds -/
theorem LawfulOn.self (h : LawfulOn R c) {a : α}
    (ha : R a a) (hc : c a a = some o) : o = .eq := by
  have hswap := h.swap a a o ha hc
  rw [hc] at hswap
  have e := Option.some.inj hswap
  cases o with
  | lt => cases e
  | eq => rfl
  | gt => cases e

theorem all_equal {as bs : List α}
    (h : List.Forall₂ (fun a b => c a b = some .eq) as bs) : all c as bs = some .eq := by
  induction h with
  | nil => rfl
  | cons hab _ ih => rw [all_cons, andThen_of_eq hab, ih]

theorem all_self (h : ∀ a, c a a = some .eq) (as : List α) :
    all c as as = some .eq := by
  induction as with
  | nil => rfl
  | cons a as ih => rw [all_cons, andThen_of_eq (h a), ih]

theorem lists_self (h : ∀ a, c a a = some .eq) (as : List α) :
    lists c as as = some .eq := by
  rw [lists, andThen_of_eq (by rw [Std.ReflOrd.compare_self]), all_self h]

/-! ## more success -/

def Within (c d : Option Ordering) : Prop := ∀ o, c = some o → d = some o

theorem Within.refl (c : Option Ordering) : Within c c := fun _ h => h

theorem Within.andThen {c c' d d' : Option Ordering} (hc : Within c c') (hd : Within d d') :
    Within (andThen c d) (andThen c' d') := by
  intro o h
  rcases andThen_eq_some h with ⟨h, ho⟩ | ⟨h, h1⟩
  · exact andThen_of_ne (hc o h) ho
  · rw [andThen_of_eq (hc .eq h)]
    exact hd o h1

theorem Within.all {c c' : α → α → Option Ordering} (h : ∀ a b, Within (c a b) (c' a b))
    (as bs : List α) : Within (all c as bs) (all c' as bs) := by
  induction as generalizing bs with
  | nil => exact Within.refl _
  | cons a as ih =>
    cases bs with
    | nil => exact Within.refl _
    | cons b bs => exact (h a b).andThen (ih bs)

theorem Within.lists {c c' : α → α → Option Ordering} (h : ∀ a b, Within (c a b) (c' a b))
    (as bs : List α) : Within (lists c as bs) (lists c' as bs) :=
  (Within.refl _).andThen (Within.all h as bs)

theorem Within.bind {f : Option κ} {c c' : κ → Option Ordering} (h : ∀ x, Within (c x) (c' x)) :
    Within (f.bind c) (f.bind c') := by
  intro o hc
  obtain ⟨x, hx, hc⟩ := Option.bind_eq_some_iff.1 hc
  exact Option.bind_eq_some_iff.2 ⟨x, hx, h x o hc⟩

theorem Within.keyed (f : α → Option κ) {c c' : κ → κ → Option Ordering}
    (h : ∀ x y, Within (c x y) (c' x y)) (a b : α) : Within (keyed f c a b) (keyed f c' a b) :=
  Within.bind fun x => Within.bind fun y => h x y

theorem Within.noneLast {c c' : α → α → Option Ordering} (h : ∀ a b, Within (c a b) (c' a b))
    (a b : Option α) : Within (noneLast c a b) (noneLast c' a b) := by
  cases a with
  | none => cases b <;> exact Within.refl _
  | some a =>
    cases b with
    | none => exact Within.refl _
    | some b => exact h a b

theorem Within.same [DecidableEq α] {c c' : α → α → Option Ordering}
    (h : ∀ a b, Within (c a b) (c' a b)) (a b : α) : Within (same c a b) (same c' a b) := by
  unfold Compare.same
  split
  next => exact Within.refl _
  next => exact h a b

end Tsr.Lib.Compare
