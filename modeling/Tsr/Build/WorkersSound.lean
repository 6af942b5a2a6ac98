import Tsr.Build.Workers

/-!
# What the builder workers do under every schedule

For every graph the order exists, and in every state that a run of the workers reaches
(`workers_laws`):

* no task of the order ran twice, and once all workers have ended each ran once;
* before a task ran, all its upstream tasks were done;
* the outputs were written in the order of the graph, without a gap;
* while a task is unfinished some action is enabled;
* and the run is no longer than a bound that the graph and the number of workers fix.

`Holds` ties the stage of a position to the worker that holds it; everything else in the invariant
speaks of stages only.
-/

namespace Tsr.Build.Workers
open Tsr.Build.Graph Tsr.Lib.Run

/-! ## The laws -/

structure Laws (c : Setting) (s : State) : Prop where
  once : ∀ i ∈ c.order, s.trace.count (.ran i) ≤ 1
  listed : ∀ i, .ran i ∈ s.trace → i ∈ c.order
  after : ∀ pre i post, s.trace = pre ++ .ran i :: post → ∀ u ∈ c.upstream i, .done u.1 ∈ pre
  outputs : s.written.map (·.1) <+: c.order
  complete : (∀ phase ∈ s.workers, phase = .ended) →
    (∀ i ∈ c.order, s.trace.count (.ran i) = 1 ∧ (s.results i).isSome = true) ∧
      s.written.map (·.1) = c.order
  progress : (∃ i ∈ c.order, s.reportDone i = false) → ∃ a s', step c a s = some s'

/-! ## Steps -/

/-- what a worker in the given phase can do -/
inductive Moves (c : Setting) (s : State) (w : Nat) : Phase → State → Prop where
  | start : s.workers.countP Phase.running < c.threads → Moves c s w .queued (move s w .claiming)
  | take (index : Nat) : c.order[s.current]? = some index →
      Moves c s w .claiming (mark (move { s with current := s.current + 1 } w
        (.waiting s.current (c.upstream index))) s.current 1)
  | leave : c.order[s.current]? = none →
      Moves c s w .claiming (move { s with current := s.current + 1 } w .ended)
  | wait (p index : Nat) (u : Nat × Nat) (rest : List (Nat × Nat)) : c.order[p]? = some index →
      s.done u.1 = true → Moves c s w (.waiting p (u :: rest)) (move s w (.waiting p rest))
  | run (p index : Nat) (outcome : Outcome) : c.order[p]? = some index →
      Moves c s w (.waiting p [])
        (mark (move { s with trace := s.trace ++ [.ran index] } w (.ran p outcome)) p 2)
  | settle (p index : Nat) (outcome : Outcome) : c.order[p]? = some index →
      Moves c s w (.ran p outcome) (move (settleTask s index outcome) w (.settled p outcome.result))
  | finish (p index : Nat) (result : TaskResult) : c.order[p]? = some index →
      Moves c s w (.settled p result)
        (mark (move (finishTask s index) w (.reporting p result)) p 3)
  | await (p index : Nat) (result : TaskResult) : c.order[p]? = some index → turn c s p = true →
      Moves c s w (.reporting p result) (mark (move s w (.writing p result)) p 4)
  | write (p index : Nat) (result : TaskResult) (panic : Option Nat) : c.order[p]? = some index →
      Moves c s w (.writing p result)
        (mark (move (writeOutput s index result panic) w (.written p result)) p 5)
  | report (p index : Nat) (result : TaskResult) : c.order[p]? = some index →
      Moves c s w (.written p result) (mark (move (reportTask s index result) w .claiming) p 6)

section
variable (c : Setting)

theorem claim_moves (s : State) (w : Nat) : Moves c s w .claiming (claim c s w) := by
  unfold claim
  split
  next index h => exact .take index h
  next h => exact .leave h

theorem stepTask_moves (w p index : Nat) (s s' : State) (phase : Phase) (a : Action)
    (hp : phase.position = some p) (hi : c.order[p]? = some index)
    (h : stepTask c w index s phase a = some s') : Moves c s w phase s' := by
  unfold stepTask at h
  split at h
  next q u rest _ =>
    cases hp
    split at h
    next hd => cases h; exact .wait p index u rest hi hd
    next => cases h
  next q _ outcome => cases hp; cases h; exact .run p index outcome hi
  next q outcome _ => cases hp; cases h; exact .settle p index outcome hi
  next q result _ => cases hp; cases h; exact .finish p index result hi
  next q result _ =>
    cases hp
    split at h
    next ht => cases h; exact .await p index result hi ht
    next => cases h
  next q result _ panic => cases hp; cases h; exact .write p index result panic hi
  next q result _ => cases hp; cases h; exact .report p index result hi
  next => cases h

theorem step_moves (a : Action) (s s' : State) (h : step c a s = some s') :
    ∃ phase, s.workers[a.worker]? = some phase ∧ Moves c s a.worker phase s' := by
  obtain ⟨phase, hw, h⟩ := Option.bind_eq_some_iff.1 h
  refine ⟨phase, hw, ?_⟩
  unfold stepWorker at h
  split at h
  next =>
    split at h
    next hc => cases h; exact .start hc
    next => cases h
  next => cases h; exact claim_moves c s _
  next =>
    obtain ⟨index, hi, h⟩ := Option.bind_eq_some_iff.1 h
    obtain ⟨p, hp, hi⟩ := Option.bind_eq_some_iff.1 hi
    exact stepTask_moves c _ p index s s' phase a hp hi h

end

/-! ## Who holds a position -/

/-- the position a worker holds and its stage -/
def Phase.held : Phase → Option (Nat × Nat)
  | .queued | .claiming | .ended => none
  | .waiting p _ => some (p, 1)
  | .ran p _ | .settled p _ => some (p, 2)
  | .reporting p _ => some (p, 3)
  | .writing p _ => some (p, 4)
  | .written p _ => some (p, 5)

/-- a position that was taken and is not reported is held by one worker -/
structure Holds (workers : List Phase) (stage : Nat → Nat) : Prop where
  agree : ∀ (w : Nat) (phase : Phase) (p k : Nat), workers[w]? = some phase →
    phase.held = some (p, k) → stage p = k
  unique : ∀ (w w' : Nat) (phase phase' : Phase) (p k k' : Nat), workers[w]? = some phase →
    workers[w']? = some phase' → phase.held = some (p, k) → phase'.held = some (p, k') → w = w'
  holder : ∀ p, 1 ≤ stage p → stage p ≤ 5 →
    ∃ (w : Nat) (phase : Phase), workers[w]? = some phase ∧ phase.held = some (p, stage p)

theorem held_range (phase : Phase) (p k : Nat) (h : phase.held = some (p, k)) : 1 ≤ k ∧ k ≤ 5 := by
  cases phase <;> simp [Phase.held] at h <;> omega

section
variable {workers : List Phase} {stage : Nat → Nat} {w : Nat} {phase : Phase}

theorem getElem?_set_cases {phase' other : Phase} {v : Nat}
    (h : (workers.set w phase')[v]? = some other) :
    (v = w ∧ other = phase') ∨ (v ≠ w ∧ workers[v]? = some other) := by
  rw [List.getElem?_set] at h
  split at h
  next heq =>
    split at h
    next => exact .inl ⟨heq.symm, (Option.some.inj h).symm⟩
    next => cases h
  next hne => exact .inr ⟨fun heq => hne heq.symm, h⟩

theorem getElem?_set_own (phase' : Phase) (hw : workers[w]? = some phase) :
    (workers.set w phase')[w]? = some phase' := by
  obtain ⟨hlt, -⟩ := List.getElem?_eq_some_iff.1 hw
  exact List.getElem?_set_self hlt

/-- one worker moves: the position it holds is held by no other, and the one it gave up is reported -/
theorem Holds.set {stage' : Nat → Nat} (h : Holds workers stage) (hw : workers[w]? = some phase)
    (phase' : Phase) (hnew : ∀ p k, phase'.held = some (p, k) → stage' p = k ∧
      ((∃ j, phase.held = some (p, j)) ∨ stage p = 0))
    (hgone : ∀ p k, phase.held = some (p, k) → (∀ j, phase'.held ≠ some (p, j)) → stage' p = 6)
    (hrest : ∀ p, (∀ j, phase.held ≠ some (p, j)) → (∀ j, phase'.held ≠ some (p, j)) →
      stage' p = stage p) : Holds (workers.set w phase') stage' := by
  have hfree : ∀ p k, phase'.held = some (p, k) → ∀ (v : Nat) (other : Phase) (j : Nat), v ≠ w →
      workers[v]? = some other → other.held ≠ some (p, j) := by
    intro p k hk v other j hne hv hj
    rcases (hnew p k hk).2 with ⟨i, hi⟩ | h0
    · exact hne (h.unique v w other phase p j i hv hw hj hi)
    · have := h.agree v other p j hv hj
      have := held_range other p j hj
      omega
  have hkeep : ∀ p (v : Nat) (other : Phase) (j : Nat), v ≠ w → workers[v]? = some other →
      other.held = some (p, j) → stage' p = stage p := by
    intro p v other j hne hv hj
    refine hrest p (fun i hi => hne (h.unique v w other phase p j i hv hw hj hi)) fun i hi => ?_
    exact hfree p i hi v other j hne hv hj
  refine ⟨?_, ?_, ?_⟩
  · intro v other p k hv hk
    rcases getElem?_set_cases hv with ⟨-, rfl⟩ | ⟨hne, hv⟩
    · exact (hnew p k hk).1
    · rw [hkeep p v other k hne hv hk]
      exact h.agree v other p k hv hk
  · intro v v' o o' p k k' hv hv' hk hk'
    rcases getElem?_set_cases hv with ⟨hvw, rfl⟩ | ⟨hne, hv1⟩
    · rcases getElem?_set_cases hv' with ⟨hvw', rfl⟩ | ⟨hne', hv2⟩
      · rw [hvw, hvw']
      · exact absurd hk' (hfree p k hk v' o' k' hne' hv2)
    · rcases getElem?_set_cases hv' with ⟨-, rfl⟩ | ⟨-, hv2⟩
      · exact absurd hk (hfree p k' hk' v o k hne hv1)
      · exact h.unique v v' o o' p k k' hv1 hv2 hk hk'
  · intro p h1 h5
    by_cases hp' : ∃ j, phase'.held = some (p, j)
    · obtain ⟨j, hj⟩ := hp'
      rw [(hnew p j hj).1]
      exact ⟨w, phase', getElem?_set_own phase' hw, hj⟩
    · have hp' : ∀ j, phase'.held ≠ some (p, j) := fun j hj => hp' ⟨j, hj⟩
      have hp : ∀ j, phase.held ≠ some (p, j) := fun j hj => by
        have := hgone p j hj hp'
        omega
      rw [hrest p hp hp'] at h1 h5 ⊢
      obtain ⟨v, other, hv, hk⟩ := h.holder p h1 h5
      have hne : w ≠ v := by
        rintro rfl
        rw [hw] at hv
        cases hv
        exact hp _ hk
      exact ⟨v, other, by rw [List.getElem?_set_ne hne]; exact hv, hk⟩

/-- a worker that holds nothing and takes nothing -/
theorem Holds.idle (h : Holds workers stage) (hw : workers[w]? = some phase) (phase' : Phase)
    (hh : phase.held = none) (hh' : phase'.held = none) : Holds (workers.set w phase') stage := by
  refine h.set hw phase' ?_ ?_ fun _ _ _ => rfl
  · intro p k hk
    rw [hh'] at hk
    cases hk
  · intro p k hk
    rw [hh] at hk
    cases hk

/-- a worker takes a position that nobody held -/
theorem Holds.take (h : Holds workers stage) (hw : workers[w]? = some phase) (phase' : Phase)
    (p k : Nat) (hh : phase.held = none) (hh' : phase'.held = some (p, k)) (hp : stage p = 0) :
    Holds (workers.set w phase') (Function.update stage p k) := by
  refine h.set hw phase' ?_ ?_ ?_
  · intro q j hj
    rw [hh'] at hj
    cases hj
    exact ⟨Function.update_self .., .inr hp⟩
  · intro q j hj
    rw [hh] at hj
    cases hj
  · intro q _ hq
    exact Function.update_of_ne (fun heq => hq k (by rw [heq]; exact hh')) ..

/-- a worker gives its position up -/
theorem Holds.drop (h : Holds workers stage) (hw : workers[w]? = some phase) (phase' : Phase)
    (p k : Nat) (hh : phase.held = some (p, k)) (hh' : phase'.held = none) :
    Holds (workers.set w phase') (Function.update stage p 6) := by
  refine h.set hw phase' ?_ ?_ ?_
  · intro q j hj
    rw [hh'] at hj
    cases hj
  · intro q j hj _
    rw [hh] at hj
    cases hj
    exact Function.update_self ..
  · intro q hq _
    exact Function.update_of_ne (fun heq => hq k (by rw [heq]; exact hh)) ..

/-- a worker goes on with its position -/
theorem Holds.advance (h : Holds workers stage) (hw : workers[w]? = some phase) (phase' : Phase)
    (p k k' : Nat) (hh : phase.held = some (p, k)) (hh' : phase'.held = some (p, k')) :
    Holds (workers.set w phase') (Function.update stage p k') := by
  refine h.set hw phase' ?_ ?_ ?_
  · intro q j hj
    rw [hh'] at hj
    cases hj
    exact ⟨Function.update_self .., .inl ⟨k, hh⟩⟩
  · intro q j hj hq
    rw [hh] at hj
    cases hj
    exact absurd hh' (hq k')
  · intro q hq _
    exact Function.update_of_ne (fun heq => hq k (by rw [heq]; exact hh)) ..

end

/-! ## The invariant -/

structure Inv (c : Setting) (s : State) : Prop where
  holds : Holds s.workers s.stage
  last : ∀ p, s.stage p ≤ 6
  claimed : ∀ p, 1 ≤ s.stage p ↔ p < s.current ∧ p < c.order.length
  once : ∀ i, s.trace.count (.ran i) ≤ 1
  ran : ∀ p i, c.order[p]? = some i → (.ran i ∈ s.trace ↔ 2 ≤ s.stage p)
  listed : ∀ i, .ran i ∈ s.trace → i ∈ c.order
  done : ∀ p i, c.order[p]? = some i → (s.done i = true ↔ 3 ≤ s.stage p)
  finished : ∀ i, s.done i = true ↔ .done i ∈ s.trace
  after : ∀ pre i post, s.trace = pre ++ .ran i :: post → ∀ u ∈ c.upstream i, .done u.1 ∈ pre
  turn : ∀ p, 4 ≤ s.stage p → ∀ q < p, 6 ≤ s.stage q
  outputs : s.written.map (·.1) = c.order.take s.written.length
  written : ∀ p, 5 ≤ s.stage p ↔ p < s.written.length
  reported : ∀ p i, c.order[p]? = some i → (s.reportDone i = true ↔ 6 ≤ s.stage p)
  results : ∀ i, s.reportDone i = true → (s.results i).isSome = true
  waits : ∀ (w p : Nat) (rest : List (Nat × Nat)) (i : Nat), s.workers[w]? = some (.waiting p rest) →
    c.order[p]? = some i → ∃ pre, c.upstream i = pre ++ rest ∧ ∀ u ∈ pre, s.done u.1 = true
  ended : .ended ∈ s.workers → c.order.length ≤ s.current

/-- a step from `k` to `k + 1` crosses no other bound -/
theorem le_update_iff {stage : Nat → Nat} {p k n : Nat} (hp : stage p = k) (hn : n ≠ k + 1) (q : Nat) :
    n ≤ Function.update stage p (k + 1) q ↔ n ≤ stage q := by
  by_cases hq : q = p
  · subst hq
    rw [Function.update_self, hp]
    omega
  · rw [Function.update_of_ne hq]

/-- the bound that it does cross -/
theorem succ_le_update_iff {stage : Nat → Nat} {p k : Nat} (hp : stage p = k) (q : Nat) :
    k + 1 ≤ Function.update stage p (k + 1) q ↔ q = p ∨ k + 1 ≤ stage q := by
  by_cases hq : q = p
  · subst hq
    rw [Function.update_self]
    simp
  · rw [Function.update_of_ne hq]
    simp [hq]

theorem update_true_iff (f : Nat → Bool) (i j : Nat) :
    Function.update f i true j = true ↔ j = i ∨ f j = true := by
  by_cases hj : j = i
  · subst hj
    rw [Function.update_self]
    simp
  · rw [Function.update_of_ne hj]
    simp [hj]

theorem update_le_six {stage : Nat → Nat} (h : ∀ p, stage p ≤ 6) (p k : Nat) (hk : k ≤ 6) (q : Nat) :
    Function.update stage p k q ≤ 6 := by
  by_cases hq : q = p
  · subst hq
    rw [Function.update_self]
    exact hk
  · rw [Function.update_of_ne hq]
    exact h q

/-- the waiting workers but for the one that moved -/
theorem waits_set {c : Setting} {s : State} (h : Inv c s) (w : Nat) (phase' : Phase)
    (done : Nat → Bool) (hdone : ∀ i, s.done i = true → done i = true)
    (hnew : ∀ (p : Nat) (rest : List (Nat × Nat)) (i : Nat), phase' = .waiting p rest →
      c.order[p]? = some i → ∃ pre, c.upstream i = pre ++ rest ∧ ∀ u ∈ pre, done u.1 = true)
    (v p : Nat) (rest : List (Nat × Nat)) (i : Nat)
    (hv : (s.workers.set w phase')[v]? = some (.waiting p rest)) (hi : c.order[p]? = some i) :
    ∃ pre, c.upstream i = pre ++ rest ∧ ∀ u ∈ pre, done u.1 = true := by
  rcases getElem?_set_cases hv with ⟨-, heq⟩ | ⟨-, hv⟩
  · exact hnew p rest i heq.symm hi
  · obtain ⟨pre, hpre, hd⟩ := h.waits v p rest i hv hi
    exact ⟨pre, hpre, fun u hu => hdone u.1 (hd u hu)⟩

/-- no worker but the one that moved has ended since -/
theorem ended_set {c : Setting} {s : State} (h : Inv c s) (w : Nat) (phase' : Phase)
    (hne : phase' ≠ .ended) (he : .ended ∈ s.workers.set w phase') : c.order.length ≤ s.current := by
  rcases List.mem_or_eq_of_mem_set he with he | he
  · exact h.ended he
  · exact absurd he.symm hne

section
variable {c : Setting} {s : State} {w p i : Nat}

theorem inv_start (h : Inv c s) (hw : s.workers[w]? = some .queued) : Inv c (move s w .claiming) :=
  { h with
    holds := h.holds.idle hw .claiming rfl rfl
    waits := waits_set h w .claiming s.done (fun _ hd => hd) nofun
    ended := ended_set h w .claiming nofun }

theorem inv_leave (h : Inv c s) (hw : s.workers[w]? = some .claiming)
    (hi : c.order[s.current]? = none) :
    Inv c (move { s with current := s.current + 1 } w .ended) :=
  have hlen := List.getElem?_eq_none_iff.1 hi
  { h with
    holds := h.holds.idle hw .ended rfl rfl
    claimed := fun p => by
      rw [show (move { s with current := s.current + 1 } w .ended).stage p = s.stage p from rfl,
        h.claimed p]
      show p < s.current ∧ p < c.order.length ↔ p < s.current + 1 ∧ p < c.order.length
      omega
    waits := waits_set h w .ended s.done (fun _ hd => hd) nofun
    ended := fun _ => Nat.le_succ_of_le hlen }

theorem inv_take (h : Inv c s) (hw : s.workers[w]? = some .claiming)
    (hi : c.order[s.current]? = some i) :
    Inv c (mark (move { s with current := s.current + 1 } w (.waiting s.current (c.upstream i)))
      s.current 1) := by
  have h0 : s.stage s.current = 0 := by
    have := h.claimed s.current
    omega
  have hlt := (List.getElem?_eq_some_iff.1 hi).1
  exact
  { holds := h.holds.take hw _ s.current 1 rfl rfl h0
    last := update_le_six h.last s.current 1 (by omega)
    claimed := fun p => by
      refine (succ_le_update_iff h0 p).trans ?_
      show _ ↔ p < s.current + 1 ∧ p < c.order.length
      rw [Nat.zero_add, h.claimed p]
      omega
    once := h.once
    ran := fun p j hj => (h.ran p j hj).trans (le_update_iff h0 (by omega) p).symm
    listed := h.listed
    done := fun p j hj => (h.done p j hj).trans (le_update_iff h0 (by omega) p).symm
    finished := h.finished
    after := h.after
    turn := fun p hp q hq => (le_update_iff h0 (by omega) q).2
      (h.turn p ((le_update_iff h0 (by omega) p).1 hp) q hq)
    outputs := h.outputs
    written := fun p => (le_update_iff h0 (by omega) p).trans (h.written p)
    reported := fun p j hj => (h.reported p j hj).trans (le_update_iff h0 (by omega) p).symm
    results := h.results
    waits := waits_set h w _ s.done (fun _ hd => hd) fun p rest j heq hj => by
      cases heq
      rw [hi] at hj
      cases hj
      exact ⟨[], rfl, nofun⟩
    ended := fun he => by
      refine Nat.le_succ_of_le (ended_set h w (.waiting s.current (c.upstream i)) ?_ he)
      exact fun heq => nomatch heq }

theorem inv_wait (h : Inv c s) (u : Nat × Nat) (rest : List (Nat × Nat))
    (hw : s.workers[w]? = some (.waiting p (u :: rest))) (hd : s.done u.1 = true) :
    Inv c (move s w (.waiting p rest)) := by
  have hs := h.holds.agree w _ p 1 hw rfl
  have hholds := h.holds.advance hw (.waiting p rest) p 1 1 rfl rfl
  rw [← hs, Function.update_eq_self] at hholds
  exact
  { h with
    holds := hholds
    waits := waits_set h w _ s.done (fun _ hd => hd) fun q rest' j heq hj => by
      cases heq
      obtain ⟨pre, hpre, hdone⟩ := h.waits w p (u :: rest) j hw hj
      refine ⟨pre ++ [u], by rw [hpre, List.append_assoc]; rfl, fun v hv => ?_⟩
      rcases List.mem_append.1 hv with hv | hv
      · exact hdone v hv
      · rw [List.mem_singleton.1 hv]
        exact hd
    ended := ended_set h w _ nofun }

/-- the fields that settling a task writes -/
theorem settleTask_frame (s : State) (index : Nat) (outcome : Outcome) :
    ∃ failure firstPanic buildErrors, settleTask s index outcome = { s with
      failure := failure, firstPanic := firstPanic, buildErrors := buildErrors } := by
  cases outcome with
  | ok _ => exact ⟨s.failure, s.firstPanic, s.buildErrors, rfl⟩
  | error _ => exact ⟨_, s.firstPanic, _, rfl⟩
  | panic _ => exact ⟨s.failure, _, _, rfl⟩
  | canceled => exact ⟨s.failure, s.firstPanic, _, rfl⟩

theorem inv_settle (h : Inv c s) (outcome : Outcome) (hw : s.workers[w]? = some (.ran p outcome)) :
    Inv c (move (settleTask s i outcome) w (.settled p outcome.result)) := by
  obtain ⟨failure, firstPanic, buildErrors, heq⟩ := settleTask_frame s i outcome
  have hs := h.holds.agree w _ p 2 hw rfl
  have hholds := h.holds.advance hw (.settled p outcome.result) p 2 2 rfl rfl
  rw [← hs, Function.update_eq_self] at hholds
  rw [heq]
  exact
  { h with
    holds := hholds
    waits := waits_set h w _ s.done (fun _ hd => hd) nofun
    ended := ended_set h w _ nofun }

/-- the place of a task in the order is its own -/
theorem position_unique (hnodup : c.order.Nodup) {q : Nat} (hp : c.order[p]? = some i)
    (hq : c.order[q]? = some i) : p = q := by
  obtain ⟨hlt, hp⟩ := List.getElem?_eq_some_iff.1 hp
  obtain ⟨hlt', hq⟩ := List.getElem?_eq_some_iff.1 hq
  exact (List.Nodup.getElem_inj_iff hnodup).1 (hp.trans hq.symm)

/-- two places of the order have the same task when they are the same place -/
theorem task_eq_iff (hnodup : c.order.Nodup) {q j : Nat} (hq : c.order[q]? = some j)
    (hp : c.order[p]? = some i) : j = i ↔ q = p := by
  constructor
  · rintro rfl
    exact position_unique hnodup hq hp
  · rintro rfl
    rw [hp] at hq
    exact (Option.some.inj hq).symm

theorem inv_run (h : Inv c s) (outcome : Outcome) (hnodup : c.order.Nodup)
    (hw : s.workers[w]? = some (.waiting p [])) (hi : c.order[p]? = some i) :
    Inv c (mark (move { s with trace := s.trace ++ [.ran i] } w (.ran p outcome)) p 2) := by
  have hs : s.stage p = 1 := h.holds.agree w _ p 1 hw rfl
  have hnew : .ran i ∉ s.trace := fun hin => by
    have := (h.ran p i hi).1 hin
    omega
  obtain ⟨pre, hpre, hdone⟩ := h.waits w p [] i hw hi
  rw [List.append_nil] at hpre
  exact
  { holds := h.holds.advance hw (.ran p outcome) p 1 2 rfl rfl
    last := update_le_six h.last p 2 (by omega)
    claimed := fun q => (le_update_iff hs (by omega) q).trans (h.claimed q)
    once := fun j => by
      show (s.trace ++ [Event.ran i]).count (Event.ran j) ≤ 1
      rw [List.count_append]
      by_cases hj : j = i
      · subst hj
        rw [List.count_eq_zero_of_not_mem hnew]
        simp
      · have hno : Event.ran j ∉ [Event.ran i] := by simp [hj]
        rw [List.count_eq_zero_of_not_mem hno]
        exact h.once j
    ran := fun q j hj => by
      refine Iff.trans ?_ (succ_le_update_iff hs q).symm
      show .ran j ∈ s.trace ++ [.ran i] ↔ _
      rw [List.mem_append, h.ran q j hj, List.mem_singleton, or_comm]
      rw [Event.ran.injEq]
      exact or_congr_left (task_eq_iff hnodup hj hi)
    listed := fun j hj => by
      rcases List.mem_append.1 hj with hj | hj
      · exact h.listed j hj
      · cases List.mem_singleton.1 hj
        exact List.mem_of_getElem? hi
    done := fun q j hj => (h.done q j hj).trans (le_update_iff hs (by omega) q).symm
    finished := fun j => by
      show _ ↔ .done j ∈ s.trace ++ [.ran i]
      rw [List.mem_append, ← h.finished j]
      simp [move, mark]
    after := fun before j post heq u hu => by
      change s.trace ++ [.ran i] = before ++ .ran j :: post at heq
      rcases List.eq_nil_or_concat post with rfl | ⟨post', x, rfl⟩
      · obtain ⟨rfl, hlast⟩ := List.append_inj' heq rfl
        cases hlast
        exact (h.finished u.1).1 (hdone u (hpre ▸ hu))
      · rw [List.concat_eq_append, ← List.cons_append, ← List.append_assoc] at heq
        exact h.after before j post' (List.append_inj' heq rfl).1 u hu
    turn := fun q hq r hr => (le_update_iff hs (by omega) r).2
      (h.turn q ((le_update_iff hs (by omega) q).1 hq) r hr)
    outputs := h.outputs
    written := fun q => (le_update_iff hs (by omega) q).trans (h.written q)
    reported := fun q j hj => (h.reported q j hj).trans (le_update_iff hs (by omega) q).symm
    results := h.results
    waits := waits_set h w _ s.done (fun _ hd => hd) nofun
    ended := ended_set h w (.ran p outcome) fun heq => nomatch heq }

theorem inv_finish (h : Inv c s) (result : TaskResult) (hnodup : c.order.Nodup)
    (hw : s.workers[w]? = some (.settled p result)) (hi : c.order[p]? = some i) :
    Inv c (mark (move (finishTask s i) w (.reporting p result)) p 3) := by
  have hs : s.stage p = 2 := h.holds.agree w _ p 2 hw rfl
  have hdone := update_true_iff s.done i
  exact
  { holds := h.holds.advance hw (.reporting p result) p 2 3 rfl rfl
    last := update_le_six h.last p 3 (by omega)
    claimed := fun q => (le_update_iff hs (by omega) q).trans (h.claimed q)
    once := fun j => by
      show (s.trace ++ [Event.done i]).count (Event.ran j) ≤ 1
      have hno : Event.ran j ∉ [Event.done i] := by simp
      rw [List.count_append, List.count_eq_zero_of_not_mem hno]
      exact h.once j
    ran := fun q j hj => by
      refine Iff.trans ?_ (le_update_iff hs (by omega) q).symm
      show .ran j ∈ s.trace ++ [.done i] ↔ _
      rw [List.mem_append, h.ran q j hj]
      simp
    listed := fun j hj => by
      rcases List.mem_append.1 hj with hj | hj
      · exact h.listed j hj
      · cases List.mem_singleton.1 hj
    done := fun q j hj => by
      refine (hdone j).trans (Iff.trans ?_ (succ_le_update_iff hs q).symm)
      rw [h.done q j hj]
      exact or_congr_left (task_eq_iff hnodup hj hi)
    finished := fun j => by
      refine (hdone j).trans ?_
      show _ ↔ .done j ∈ s.trace ++ [.done i]
      rw [List.mem_append, h.finished j, List.mem_singleton, or_comm]
      simp
    after := fun before j post heq u hu => by
      change s.trace ++ [.done i] = before ++ .ran j :: post at heq
      rcases List.eq_nil_or_concat post with rfl | ⟨post', x, rfl⟩
      · obtain ⟨-, hlast⟩ := List.append_inj' heq rfl
        cases hlast
      · rw [List.concat_eq_append, ← List.cons_append, ← List.append_assoc] at heq
        exact h.after before j post' (List.append_inj' heq rfl).1 u hu
    turn := fun q hq r hr => (le_update_iff hs (by omega) r).2
      (h.turn q ((le_update_iff hs (by omega) q).1 hq) r hr)
    outputs := h.outputs
    written := fun q => (le_update_iff hs (by omega) q).trans (h.written q)
    reported := fun q j hj => (h.reported q j hj).trans (le_update_iff hs (by omega) q).symm
    results := h.results
    waits := waits_set h w _ _ (fun j hd => (hdone j).2 (.inr hd)) nofun
    ended := ended_set h w (.reporting p result) fun heq => nomatch heq }

/-- whose turn it is to report has only reported entries before it -/
theorem turn_spec (h : Inv c s) (hturn : turn c s p = true) : ∀ q < p, 6 ≤ s.stage q := by
  intro q hq
  rcases Bool.or_eq_true_iff.1 hturn with h0 | hany
  · have := beq_iff_eq.1 h0
    omega
  · obtain ⟨j, hj, hr⟩ := (Option.any_eq_true s.reportDone c.order[p - 1]?).1 hany
    have hlast := (h.reported (p - 1) j hj).1 hr
    by_cases heq : q = p - 1
    · rw [heq]
      exact hlast
    · exact h.turn (p - 1) (by omega) q (by omega)

theorem inv_await (h : Inv c s) (result : TaskResult)
    (hw : s.workers[w]? = some (.reporting p result)) (hturn : turn c s p = true) :
    Inv c (mark (move s w (.writing p result)) p 4) := by
  have hs : s.stage p = 3 := h.holds.agree w _ p 3 hw rfl
  exact
  { holds := h.holds.advance hw (.writing p result) p 3 4 rfl rfl
    last := update_le_six h.last p 4 (by omega)
    claimed := fun q => (le_update_iff hs (by omega) q).trans (h.claimed q)
    once := h.once
    ran := fun q j hj => (h.ran q j hj).trans (le_update_iff hs (by omega) q).symm
    listed := h.listed
    done := fun q j hj => (h.done q j hj).trans (le_update_iff hs (by omega) q).symm
    finished := h.finished
    after := h.after
    turn := fun q hq r hr => by
      refine (le_update_iff hs (by omega) r).2 ?_
      rcases (succ_le_update_iff hs q).1 hq with rfl | hq
      · exact turn_spec h hturn r hr
      · exact h.turn q hq r hr
    outputs := h.outputs
    written := fun q => (le_update_iff hs (by omega) q).trans (h.written q)
    reported := fun q j hj => (h.reported q j hj).trans (le_update_iff hs (by omega) q).symm
    results := h.results
    waits := waits_set h w _ s.done (fun _ hd => hd) nofun
    ended := ended_set h w (.writing p result) fun heq => nomatch heq }

theorem inv_write (h : Inv c s) (result : TaskResult) (panic : Option Nat)
    (hw : s.workers[w]? = some (.writing p result)) (hi : c.order[p]? = some i) :
    Inv c (mark (move (writeOutput s i result panic) w (.written p result)) p 5) := by
  have hs : s.stage p = 4 := h.holds.agree w _ p 4 hw rfl
  -- the outputs so far are those of the entries before
  have hlen : s.written.length = p := by
    have hp := h.written p
    rcases Nat.lt_trichotomy s.written.length p with hlt | heq | hgt
    · have h6 := h.turn p (by omega) s.written.length hlt
      have := (h.written s.written.length).1 (by omega)
      omega
    · exact heq
    · omega
  exact
  { holds := h.holds.advance hw (.written p result) p 4 5 rfl rfl
    last := update_le_six h.last p 5 (by omega)
    claimed := fun q => (le_update_iff hs (by omega) q).trans (h.claimed q)
    once := h.once
    ran := fun q j hj => (h.ran q j hj).trans (le_update_iff hs (by omega) q).symm
    listed := h.listed
    done := fun q j hj => (h.done q j hj).trans (le_update_iff hs (by omega) q).symm
    finished := h.finished
    after := h.after
    turn := fun q hq r hr => (le_update_iff hs (by omega) r).2
      (h.turn q ((le_update_iff hs (by omega) q).1 hq) r hr)
    outputs := by
      show (s.written ++ [(i, result.output)]).map (·.1) =
        c.order.take (s.written ++ [(i, result.output)]).length
      rw [List.map_append, h.outputs, List.length_append, hlen, List.length_singleton,
        List.take_add_one, hi]
      rfl
    written := fun q => by
      refine (succ_le_update_iff hs q).trans ?_
      show _ ↔ q < (s.written ++ [(i, result.output)]).length
      rw [h.written q, List.length_append, List.length_singleton]
      omega
    reported := fun q j hj => (h.reported q j hj).trans (le_update_iff hs (by omega) q).symm
    results := h.results
    waits := waits_set h w _ s.done (fun _ hd => hd) nofun
    ended := ended_set h w (.written p result) fun heq => nomatch heq }

theorem inv_report (h : Inv c s) (result : TaskResult) (hnodup : c.order.Nodup)
    (hw : s.workers[w]? = some (.written p result)) (hi : c.order[p]? = some i) :
    Inv c (mark (move (reportTask s i result) w .claiming) p 6) := by
  have hs : s.stage p = 5 := h.holds.agree w _ p 5 hw rfl
  have hreport := update_true_iff s.reportDone i
  exact
  { holds := h.holds.drop hw .claiming p 5 rfl rfl
    last := update_le_six h.last p 6 (by omega)
    claimed := fun q => (le_update_iff hs (by omega) q).trans (h.claimed q)
    once := h.once
    ran := fun q j hj => (h.ran q j hj).trans (le_update_iff hs (by omega) q).symm
    listed := h.listed
    done := fun q j hj => (h.done q j hj).trans (le_update_iff hs (by omega) q).symm
    finished := h.finished
    after := h.after
    turn := fun q hq r hr => (succ_le_update_iff hs r).2
      (.inr (h.turn q ((le_update_iff hs (by omega) q).1 hq) r hr))
    outputs := h.outputs
    written := fun q => (le_update_iff hs (by omega) q).trans (h.written q)
    reported := fun q j hj => by
      refine (hreport j).trans (Iff.trans ?_ (succ_le_update_iff hs q).symm)
      rw [h.reported q j hj]
      exact or_congr_left (task_eq_iff hnodup hj hi)
    results := fun j hj => by
      show (Function.update s.results i (some result) j).isSome = true
      by_cases heq : j = i
      · subst heq
        rw [Function.update_self]
        rfl
      · rw [Function.update_of_ne heq]
        exact h.results j (((hreport j).1 hj).resolve_left heq)
    waits := waits_set h w _ s.done (fun _ hd => hd) nofun
    ended := ended_set h w .claiming fun heq => nomatch heq }

end

section
variable (c : Setting)

theorem inv_step (hnodup : c.order.Nodup) (a : Action) (s s' : State) (h : Inv c s)
    (hstep : step c a s = some s') : Inv c s' := by
  obtain ⟨phase, hw, hmoves⟩ := step_moves c a s s' hstep
  cases hmoves with
  | start _ => exact inv_start h hw
  | take index hi => exact inv_take h hw hi
  | leave hi => exact inv_leave h hw hi
  | wait p index u rest _ hd => exact inv_wait h u rest hw hd
  | run p index outcome hi => exact inv_run h outcome hnodup hw hi
  | settle p index outcome _ => exact inv_settle h outcome hw
  | finish p index result hi => exact inv_finish h result hnodup hw hi
  | await p index result _ hturn => exact inv_await h result hw hturn
  | write p index result panic hi => exact inv_write h result panic hw hi
  | report p index result hi => exact inv_report h result hnodup hw hi

theorem inv_init (pending initialCycle : Nat → Bool) (builders : Nat) :
    Inv c (State.init pending initialCycle builders) := by
  have hqueued : ∀ phase ∈ List.replicate builders Phase.queued, phase = .queued :=
    fun phase hp => List.eq_of_mem_replicate hp
  have hget : ∀ (w : Nat) (phase : Phase), (List.replicate builders Phase.queued)[w]? = some phase →
      phase = .queued := fun w phase hw => hqueued phase (List.mem_of_getElem? hw)
  have hnone : ∀ n, ¬ n + 1 ≤ 0 := Nat.not_succ_le_zero
  exact
  { holds :=
      { agree := fun w phase p k hw hk => by
          rw [hget w phase hw] at hk
          cases hk
        unique := fun w w' phase phase' p k k' hw _ hk _ => by
          rw [hget w phase hw] at hk
          cases hk
        holder := fun p h1 _ => absurd h1 (hnone 0) }
    last := fun _ => Nat.zero_le 6
    claimed := fun p => ⟨fun h => absurd h (hnone 0), fun h => absurd h.1 (Nat.not_lt_zero p)⟩
    once := fun _ => Nat.zero_le 1
    ran := fun _ _ _ => ⟨fun h => absurd h List.not_mem_nil, fun h => absurd h (hnone 1)⟩
    listed := fun _ h => absurd h List.not_mem_nil
    done := fun _ _ _ => ⟨fun h => absurd h Bool.false_ne_true, fun h => absurd h (hnone 2)⟩
    finished := fun _ => ⟨fun h => absurd h Bool.false_ne_true, fun h => absurd h List.not_mem_nil⟩
    after := fun pre i post h => absurd h.symm (by simp [State.init])
    turn := fun _ h => absurd h (hnone 3)
    outputs := rfl
    written := fun p => ⟨fun h => absurd h (hnone 4), fun h => absurd h (Nat.not_lt_zero p)⟩
    reported := fun _ _ _ => ⟨fun h => absurd h Bool.false_ne_true, fun h => absurd h (hnone 5)⟩
    results := fun _ h => absurd h Bool.false_ne_true
    waits := fun w p rest i hw _ => nomatch hget w _ hw
    ended := fun h => nomatch hqueued _ h }

end

/-! ## Progress -/

section
variable {c : Setting} {s : State}

/-- the upstream tasks of an entry stand before it -/
theorem upstream_before (hsorted : Sorted c.order c.upstream) {p i : Nat}
    (hi : c.order[p]? = some i) (u : Nat × Nat) (hu : u ∈ c.upstream i) :
    ∃ q < p, c.order[q]? = some u.1 := by
  obtain ⟨hlt, hget⟩ := List.getElem?_eq_some_iff.1 hi
  have hsplit : c.order = c.order.take p ++ i :: c.order.drop (p + 1) := by
    rw [← hget, ← List.drop_eq_getElem_cons hlt, List.take_append_drop]
  obtain ⟨q, hq, hqu⟩ := List.mem_take_iff_getElem.1 (hsorted _ i _ hsplit u hu)
  have hlt' : q < c.order.length := by omega
  exact ⟨q, by omega, List.getElem?_eq_some_iff.2 ⟨hlt', hqu⟩⟩

/-- the worker that holds the first unreported entry can go on -/
theorem holder_moves (h : Inv c s) (hsorted : Sorted c.order c.upstream) (w p k i : Nat) (phase : Phase)
    (hw : s.workers[w]? = some phase) (hk : phase.held = some (p, k)) (hi : c.order[p]? = some i)
    (hbefore : ∀ q < p, 6 ≤ s.stage q) : ∃ a s', step c a s = some s' := by
  have hgo : ∀ a : Action, a.worker = w → ∀ s', stepWorker c w s phase a = some s' →
      ∃ a s', step c a s = some s' := by
    intro a ha s' hs'
    refine ⟨a, s', ?_⟩
    unfold step
    rw [ha, hw]
    exact hs'
  cases phase with
  | queued => cases hk
  | claiming => cases hk
  | ended => cases hk
  | waiting q rest =>
    cases hk
    cases rest with
    | nil => exact hgo (.run w .canceled) rfl _ (by simp [stepWorker, Phase.position, hi, stepTask]; rfl)
    | cons u rest =>
      obtain ⟨pre, hpre, -⟩ := h.waits w p (u :: rest) i hw hi
      obtain ⟨q, hq, hqu⟩ := upstream_before hsorted hi u
        (by rw [hpre]; exact List.mem_append_right _ (List.mem_cons_self ..))
      have hdone : s.done u.1 = true := (h.done q u.1 hqu).2 (by have := hbefore q hq; omega)
      exact hgo (.wait w) rfl _ (by simp [stepWorker, Phase.position, hi, stepTask, hdone]; rfl)
  | ran q outcome =>
    cases hk
    exact hgo (.settle w) rfl _ (by simp [stepWorker, Phase.position, hi, stepTask]; rfl)
  | settled q result =>
    cases hk
    exact hgo (.finish w) rfl _ (by simp [stepWorker, Phase.position, hi, stepTask]; rfl)
  | reporting q result =>
    cases hk
    have hturn : turn c s p = true := by
      unfold turn
      cases p with
      | zero => rfl
      | succ q =>
        obtain ⟨hlt, -⟩ := List.getElem?_eq_some_iff.1 hi
        have hq : c.order[q]? = some c.order[q] := List.getElem?_eq_getElem (by omega)
        have hr := (h.reported q _ hq).2 (hbefore q (by omega))
        rw [Nat.add_sub_cancel, hq]
        simp [hr]
    exact hgo (.await w) rfl _ (by simp [stepWorker, Phase.position, hi, stepTask, hturn]; rfl)
  | writing q result =>
    cases hk
    exact hgo (.write w none) rfl _ (by simp [stepWorker, Phase.position, hi, stepTask]; rfl)
  | written q result =>
    cases hk
    exact hgo (.report w) rfl _ (by simp [stepWorker, Phase.position, hi, stepTask]; rfl)

/-- a worker that holds nothing can take the next entry, or be started -/
theorem free_moves (hthreads : 0 < c.threads) (hworkers : 0 < s.workers.length)
    (hfree : ∀ phase ∈ s.workers, phase.held = none) (hended : .ended ∉ s.workers) :
    ∃ a s', step c a s = some s' := by
  by_cases hc : .claiming ∈ s.workers
  · obtain ⟨w, hlt, hw⟩ := List.mem_iff_getElem.1 hc
    refine ⟨.fetch w, claim c s w, ?_⟩
    unfold step
    rw [Action.worker, List.getElem?_eq_getElem hlt, hw]
    rfl
  · have hqueued : ∀ phase ∈ s.workers, phase = .queued := by
      intro phase hp
      have hh := hfree phase hp
      cases phase with
      | queued => rfl
      | claiming => exact absurd hp hc
      | ended => exact absurd hp hended
      | _ => cases hh
    have hcount : s.workers.countP Phase.running = 0 := by
      refine List.countP_eq_zero.2 fun phase hp => ?_
      rw [hqueued phase hp]
      exact Bool.false_ne_true
    refine ⟨.start 0, move s 0 .claiming, ?_⟩
    unfold step
    rw [Action.worker, List.getElem?_eq_getElem hworkers, hqueued _ (List.getElem_mem hworkers)]
    show (if s.workers.countP Phase.running < c.threads then _ else none) = _
    rw [hcount, if_pos hthreads]

/-- an entry with everything before it reported moves on -/
theorem first_moves (h : Inv c s) (hsorted : Sorted c.order c.upstream) (hthreads : 0 < c.threads)
    (hworkers : 0 < s.workers.length) (p : Nat) (hp : p < c.order.length) (hopen : s.stage p < 6)
    (hbefore : ∀ q < p, 6 ≤ s.stage q) : ∃ a s', step c a s = some s' := by
  by_cases h0 : s.stage p = 0
  · have hcur : s.current ≤ p := by
      have := h.claimed p
      omega
    refine free_moves hthreads hworkers (fun phase hmem => ?_) fun he => ?_
    · cases hk : phase.held with
      | none => rfl
      | some held =>
        obtain ⟨q, k⟩ := held
        obtain ⟨w, hlt, hw⟩ := List.mem_iff_getElem.1 hmem
        have hs := h.holds.agree w phase q k (by rw [List.getElem?_eq_getElem hlt, hw]) hk
        have hr := held_range phase q k hk
        have hq := (h.claimed q).1 (by omega)
        have := hbefore q (by omega)
        omega
    · have := h.ended he
      omega
  · obtain ⟨w, phase, hw, hk⟩ := h.holds.holder p (by omega) (by omega)
    exact holder_moves h hsorted w p _ _ phase hw hk (List.getElem?_eq_getElem hp) hbefore

theorem progress (h : Inv c s) (hsorted : Sorted c.order c.upstream) (hthreads : 0 < c.threads)
    (hworkers : 0 < s.workers.length) (hopen : ∃ i ∈ c.order, s.reportDone i = false) :
    ∃ a s', step c a s = some s' := by
  have hex : ∃ p, p < c.order.length ∧ s.stage p < 6 := by
    obtain ⟨i, hi, hr⟩ := hopen
    obtain ⟨p, hlt, hp⟩ := List.mem_iff_getElem.1 hi
    refine ⟨p, hlt, Nat.lt_of_not_le fun h6 => ?_⟩
    have := (h.reported p i (by rw [List.getElem?_eq_getElem hlt, hp])).2 h6
    rw [hr] at this
    cases this
  have hfirst := Nat.find_spec hex
  refine first_moves h hsorted hthreads hworkers (Nat.find hex) hfirst.1 hfirst.2 fun q hq => ?_
  have hmin := Nat.find_min hex hq
  have : q < c.order.length := hq.trans hfirst.1
  exact Nat.le_of_not_lt fun hlt => hmin ⟨this, hlt⟩

/-- once all workers have ended every entry is reported -/
theorem all_reported (h : Inv c s) (hworkers : 0 < s.workers.length)
    (hall : ∀ phase ∈ s.workers, phase = .ended) (p : Nat) (hp : p < c.order.length) :
    6 ≤ s.stage p := by
  have hcur := h.ended (by
    rw [← hall _ (List.getElem_mem hworkers)]
    exact List.getElem_mem hworkers)
  have h1 := (h.claimed p).2 ⟨by omega, hp⟩
  by_contra h6
  obtain ⟨w, phase, hw, hk⟩ := h.holds.holder p h1 (by omega)
  rw [hall phase (List.mem_of_getElem? hw)] at hk
  cases hk

theorem laws_of_inv (h : Inv c s) (hsorted : Sorted c.order c.upstream) (hthreads : 0 < c.threads)
    (hworkers : 0 < s.workers.length) : Laws c s where
  once := fun i _ => h.once i
  listed := h.listed
  after := h.after
  outputs := by
    rw [h.outputs]
    exact List.take_prefix ..
  complete := by
    intro hall
    have h6 := all_reported h hworkers hall
    constructor
    · intro i hi
      obtain ⟨p, hlt, hp⟩ := List.mem_iff_getElem.1 hi
      have hget : c.order[p]? = some i := by rw [List.getElem?_eq_getElem hlt, hp]
      have hran := (h.ran p i hget).2 (by have := h6 p hlt; omega)
      refine ⟨?_, h.results i ((h.reported p i hget).2 (h6 p hlt))⟩
      have := h.once i
      have := List.count_pos_iff.2 hran
      omega
    · rw [h.outputs, List.take_of_length_le]
      by_contra hlen
      have := (h.written s.written.length).1 (by have := h6 s.written.length (by omega); omega)
      omega
  progress := progress h hsorted hthreads hworkers

end

/-! ## How long a run can be -/

/-- what a worker may still do with what it holds -/
def Phase.weight : Phase → Nat
  | .ended => 0
  | .claiming => 1
  | .queued => 2
  | .written _ _ => 2
  | .writing _ _ => 3
  | .reporting _ _ => 4
  | .settled _ _ => 5
  | .ran _ _ => 6
  | .waiting _ rest => 7 + rest.length

/-- a bound on the weight of a worker that has just taken an entry -/
def entryWeight (c : Setting) : Nat := 8 + (c.order.map fun i => (c.upstream i).length).sum

/-- falls with every step -/
def potential (c : Setting) (s : State) : Nat :=
  (c.order.length - s.current) * entryWeight c + (s.workers.map Phase.weight).sum

/-- one worker moves -/
theorem sum_weight_set (workers : List Phase) (w : Nat) (phase phase' : Phase)
    (hw : workers[w]? = some phase) :
    ((workers.set w phase').map Phase.weight).sum + phase.weight =
      (workers.map Phase.weight).sum + phase'.weight := by
  induction workers generalizing w with
  | nil => cases hw
  | cons x xs ih =>
    cases w with
    | zero =>
      cases hw
      simp only [List.set_cons_zero, List.map_cons, List.sum_cons]
      omega
    | succ w =>
      have := ih w hw
      simp only [List.set_cons_succ, List.map_cons, List.sum_cons]
      omega

section
variable (c : Setting)

/-- the counter stands still and the worker gets lighter -/
theorem potential_move (s : State) (workers : List Phase) (w : Nat) (phase phase' : Phase)
    (hw : s.workers[w]? = some phase) (hworkers : workers = s.workers.set w phase')
    (hlt : phase'.weight < phase.weight) :
    (c.order.length - s.current) * entryWeight c + (workers.map Phase.weight).sum <
      potential c s := by
  have hsum := sum_weight_set s.workers w phase phase' hw
  unfold potential
  rw [hworkers]
  omega

theorem potential_step (a : Action) (s s' : State) (h : step c a s = some s') :
    potential c s' < potential c s := by
  obtain ⟨phase, hw, hmoves⟩ := step_moves c a s s' h
  cases hmoves with
  | start _ => exact potential_move c s _ _ _ .claiming hw rfl (by decide)
  | take index hi =>
    have hsum := sum_weight_set s.workers _ _ (.waiting s.current (c.upstream index)) hw
    obtain ⟨hlt, hget⟩ := List.getElem?_eq_some_iff.1 hi
    have hup : (c.upstream index).length ≤ (c.order.map fun i => (c.upstream i).length).sum :=
      List.single_le_sum (fun _ _ => Nat.zero_le _) _
        (List.mem_map.2 ⟨index, List.mem_of_getElem? hi, rfl⟩)
    have hmul : (c.order.length - s.current) * entryWeight c =
        (c.order.length - (s.current + 1)) * entryWeight c + entryWeight c := by
      rw [← Nat.succ_mul]
      congr 1
      omega
    show (c.order.length - (s.current + 1)) * entryWeight c + _ < potential c s
    unfold potential
    rw [hmul]
    have hentry : entryWeight c = 8 + (c.order.map fun i => (c.upstream i).length).sum := rfl
    have hweight : (Phase.waiting s.current (c.upstream index)).weight =
        7 + (c.upstream index).length := rfl
    have hclaim : Phase.claiming.weight = 1 := rfl
    simp only [mark, move] at hsum ⊢
    omega
  | leave hi =>
    have hsum := sum_weight_set s.workers _ _ .ended hw
    have hlen := List.getElem?_eq_none_iff.1 hi
    show (c.order.length - (s.current + 1)) * entryWeight c + _ < potential c s
    unfold potential
    rw [Nat.sub_eq_zero_of_le hlen, Nat.sub_eq_zero_of_le (Nat.le_succ_of_le hlen)]
    have hclaim : Phase.claiming.weight = 1 := rfl
    have hended : Phase.ended.weight = 0 := rfl
    simp only [move] at hsum ⊢
    omega
  | wait p index u rest _ hd =>
    exact potential_move c s _ _ _ (.waiting p rest) hw rfl (by simp [Phase.weight])
  | run p index outcome hi =>
    exact potential_move c s _ _ _ (.ran p outcome) hw rfl (Nat.lt_succ_self 6)
  | settle p index outcome _ =>
    obtain ⟨failure, firstPanic, buildErrors, heq⟩ := settleTask_frame s index outcome
    rw [heq]
    exact potential_move c s _ _ _ (.settled p outcome.result) hw rfl (Nat.lt_succ_self 5)
  | finish p index result hi =>
    exact potential_move c s _ _ _ (.reporting p result) hw rfl (Nat.lt_succ_self 4)
  | await p index result _ hturn =>
    exact potential_move c s _ _ _ (.writing p result) hw rfl (Nat.lt_succ_self 3)
  | write p index result panic hi =>
    exact potential_move c s _ _ _ (.written p result) hw rfl (Nat.lt_succ_self 2)
  | report p index result hi => exact potential_move c s _ _ _ .claiming hw rfl (Nat.lt_succ_self 1)

theorem length_le_potential (as : List Action) (s s' : State) (h : exec (step c) as s = some s') :
    as.length ≤ potential c s := by
  induction as generalizing s with
  | nil => exact Nat.zero_le _
  | cons a as ih =>
    obtain ⟨s1, h1, h2⟩ := (exec_cons (step c) a as s s').1 h
    have hstep := potential_step c a s s1 h1
    exact Nat.lt_of_le_of_lt (ih s1 h2) hstep

theorem workers_length (a : Action) (s s' : State) (h : step c a s = some s') :
    s'.workers.length = s.workers.length := by
  obtain ⟨phase, hw, hmoves⟩ := step_moves c a s s' h
  cases hmoves with
  | settle p index outcome _ =>
    obtain ⟨failure, firstPanic, buildErrors, heq⟩ := settleTask_frame s index outcome
    rw [heq]
    exact List.length_set
  | _ => exact List.length_set

end

/-- **Every run of the workers.**  The graph gets an order; under every schedule of any number of
workers the run is bounded and keeps the laws. -/
theorem workers_laws (g : Projects) (pending initialCycle : Nat → Bool) (builders threads : Nat)
    (hbuilders : 0 < builders) (hthreads : 0 < threads) :
    ∃ st, setup g = some st ∧ ∃ bound, ∀ (as : List Action) (s : State),
      exec (step ⟨st.order, st.upstream, threads⟩) as (State.init pending initialCycle builders) =
        some s → as.length ≤ bound ∧ Laws ⟨st.order, st.upstream, threads⟩ s := by
  obtain ⟨st, hst, hnodup, hsorted⟩ := setup_spec g
  let c : Setting := ⟨st.order, st.upstream, threads⟩
  refine ⟨st, hst, potential c (State.init pending initialCycle builders), fun as s h => ?_⟩
  refine ⟨length_le_potential c as _ s h, ?_⟩
  have hinv := exec_invariant (step c) (Inv c) (inv_step c hnodup) as _ s
    (inv_init c pending initialCycle builders) h
  have hlen := exec_invariant (step c) (fun s => s.workers.length = builders)
    (fun a s s' hs h => (workers_length c a s s' h).trans hs) as _ s List.length_replicate h
  exact laws_of_inv hinv hsorted hthreads (by rw [hlen]; exact hbuilders)

/-- two projects that refer to each other, one reference circular, and a third behind both -/
def threeProjects : Projects where
  references := [[(1, false)], [(0, true)], [(0, false), (1, false)]]
  roots := [2]
  watch := false
  valid := by decide
  rootsValid := by decide

/-- no cycle is reported, and the circular reference has no edge -/
example : (setup threeProjects).map (fun st => (st.order, st.errors, st.upstream 1, st.upstream 2)) =
    some ([1, 0, 2], [], [], [(0, 0), (1, 1)]) := rfl

theorem workers_laws_three : 0 < 2 ∧ ∃ st, setup threeProjects = some st ∧ ∃ bound,
    ∀ (as : List Action) (s : State),
      exec (step ⟨st.order, st.upstream, 2⟩) as (State.init (fun _ => true) (fun _ => false) 2) =
        some s → as.length ≤ bound ∧ Laws ⟨st.order, st.upstream, 2⟩ s :=
  ⟨by decide, workers_laws threeProjects (fun _ => true) (fun _ => false) 2 2 (by decide) (by decide)⟩

end Tsr.Build.Workers
