import Tsr.Core.BfsSound

/-!
# Core: runs of the parallel search

* `Inv`                  the search in index order goes on from the level that runs, and no key is visited
                         twice;
* `weight`, `measure`    what the steps of a level use up: an exchange that fails was overtaken by one that
                         lowered the index;
* `PathTo`               a chain of parents from a node to the start;
* `parallel_as_sequential`   every run, however its jobs are interleaved, against the sequential search.
-/

set_option linter.unusedSectionVars false

namespace Tsr.Core.Bfs

open Lib.Run

variable {N K : Type} [DecidableEq K] {search : Search N K}
variable {jobs : List (Job N)} {job : Job N} {s s' : State N K} {i : Nat} {pc : Pc}

/-! ## levels -/

theorem prune_sublist (jobs : List (Job N)) : (search.prune jobs).Sublist jobs := by
  unfold Search.prune
  cases search.preprocessLevel with
  | none => exact List.Sublist.refl _
  | some preprocess => exact List.filter_sublist

theorem distinct_foldl (jobs kept : List (Job N)) (h : (kept.map search.key).Nodup) :
    ((jobs.foldl (fun kept job =>
      if search.key job ∈ kept.map search.key then kept else kept ++ [job]) kept).map search.key).Nodup := by
  induction jobs generalizing kept with
  | nil => exact h
  | cons job jobs ih =>
    rw [List.foldl_cons]
    by_cases hk : search.key job ∈ kept.map search.key
    · rw [if_pos hk]
      exact ih kept h
    · rw [if_neg hk]
      refine ih _ ?_
      rw [List.map_append, List.map_singleton]
      exact List.nodup_append.2 ⟨h, List.nodup_singleton _, fun a ha b hb e =>
        hk (by rw [List.mem_singleton.1 hb] at e; exact e ▸ ha)⟩

theorem distinct_nodup (jobs : List (Job N)) : ((search.distinct jobs).map search.key).Nodup :=
  distinct_foldl jobs [] List.nodup_nil

theorem mem_distinct (h : job ∈ search.distinct jobs) : job ∈ jobs := by
  have hfold : ∀ (jobs kept : List (Job N)), job ∈ jobs.foldl (fun kept job =>
      if search.key job ∈ kept.map search.key then kept else kept ++ [job]) kept → job ∈ kept ∨ job ∈ jobs := by
    intro jobs
    induction jobs with
    | nil => exact fun kept h => Or.inl h
    | cons x jobs ih =>
      intro kept h
      rw [List.foldl_cons] at h
      rcases ih _ h with h | h
      · split at h
        · exact Or.inl h
        · rcases List.mem_append.1 h with h | h
          · exact Or.inl h
          · exact Or.inr (List.mem_cons.2 (Or.inl (List.mem_singleton.1 h)))
      · exact Or.inr (List.mem_cons_of_mem _ h)
  rcases hfold jobs [] h with h | h
  · exact absurd h List.not_mem_nil
  · exact h

/-! ## the invariant of a run -/

/-- the search in index order from a level on -/
structure Frontier (search : Search N K) (s : State N K) (jobs : List (Job N))
    (fallback : Option (Nat × Job N)) : Prop where
  some_job : jobs ≠ []
  level : s.level = search.prune jobs
  fallback_eq : s.fallback = fallback.map Prod.snd
  goes_on : ∀ fuel, search.sequential (s.depth + fuel) = search.inOrder fuel s.depth jobs s.base fallback

structure Inv (search : Search N K) (s : State N K) : Prop where
  level : LevelInv search s
  visits_distinct : (s.visits.map search.getKey).Nodup
  visits_new : ∀ node ∈ s.visits, search.getKey node ∉ search.visited
  ended : s.result.isSome = true → ∀ pc ∈ s.pcs, pc = .done
  frontier : s.result = none → ∃ jobs fallback, Frontier search s jobs fallback
  finished : ∀ stop path, s.result = some (stop, path) → ∃ fuel out,
    search.sequential fuel = some out ∧ stop = out.stop ∧ path = createPath (out.found.map Prod.snd)

/-- a level that starts -/
theorem startLevel_inv {depth : Nat} {visited : Finset K}
    {fallback : Option (Nat × Job N)} {visits : List N} (hjobs : (jobs.map search.key).Nodup)
    (hvisits : ∀ node ∈ visits, search.getKey node ∈ visited)
    (hdistinct : (visits.map search.getKey).Nodup)
    (hnew : ∀ node ∈ visits, search.getKey node ∉ search.visited) (hinitial : search.visited ⊆ visited)
    (hseq : ∀ fuel, search.sequential (depth + fuel) = search.inOrder fuel depth jobs visited fallback) :
    Inv search (search.startLevel depth jobs visited (fallback.map Prod.snd) visits) := by
  have hlevel : (if jobs.isEmpty then [] else search.prune jobs).Sublist jobs := by
    split
    · exact List.nil_sublist _
    · exact prune_sublist jobs
  refine ⟨⟨?_, ?_, Finset.Subset.refl _, fun k hk => Or.inl hk, ?_, nofun, nofun, ?_, hvisits, hinitial⟩,
    hdistinct, hnew, ?_, ?_, ?_⟩
  · exact List.length_map ..
  · exact (hlevel.map search.key).nodup hjobs
  · intro i job pc hi hpc
    have hlt := (List.getElem?_eq_some_iff.1 hi).1
    have hi' : (if jobs.isEmpty then [] else search.prune jobs)[i]? = some job := hi
    have hstart : pc = .start := by
      have hpc' : ((if jobs.isEmpty then [] else search.prune jobs).map fun _ => Pc.start)[i]? = some pc := hpc
      rw [List.getElem?_map, hi'] at hpc'
      exact (Option.some.inj hpc').symm
    have hnext : ((if jobs.isEmpty then [] else search.prune jobs).map fun _ => ([] : List (Job N)))[i]? =
        some [] := by
      rw [List.getElem?_map, hi']
      rfl
    subst hstart
    exact ⟨nofun, nofun, nofun, nofun, nofun, nofun, fun _ => hnext, nofun, nofun⟩
  · exact List.length_map ..
  · intro hsome pc hpc
    cases jobs with
    | nil => exact absurd hpc List.not_mem_nil
    | cons job jobs => exact nomatch hsome
  · intro hnone
    cases jobs with
    | nil => exact nomatch hnone
    | cons job jobs => exact ⟨job :: jobs, fallback, List.cons_ne_nil _ _, rfl, rfl, hseq⟩
  · intro stop path hresult
    cases jobs with
    | nil =>
      obtain ⟨rfl, rfl⟩ := Prod.mk.inj (Option.some.inj hresult)
      exact ⟨depth + 1, _, hseq 1, rfl, rfl⟩
    | cons job jobs => exact nomatch hresult

theorem init_inv (search : Search N K) : Inv search search.init := by
  have h : Inv search (search.startLevel 0 [.root search.start] search.visited
      ((none : Option (Nat × Job N)).map Prod.snd) []) := by
    refine startLevel_inv (List.nodup_singleton _) (fun _ hn => absurd hn List.not_mem_nil) List.nodup_nil
      (fun _ hn => absurd hn List.not_mem_nil) (Finset.Subset.refl _) fun fuel => ?_
    rw [Nat.zero_add]
    rfl
  exact h

/-- what a step of a job leaves alone -/
theorem stepJob_frame
    (h : search.stepJob i job s pc = some s') :
    s'.level = s.level ∧ s'.depth = s.depth ∧ s'.base = s.base ∧ s'.fallback = s.fallback ∧
      s'.result = s.result ∧
      (s'.visits = s.visits ∨ (pc = .visiting ∧ s'.visits = job.node :: s.visits)) := by
  have hlowest : ∀ (target : Target) (pc' : Pc), (s.setLowest target i).setPc i pc' = s' →
      s'.level = s.level ∧ s'.depth = s.depth ∧ s'.base = s.base ∧ s'.fallback = s.fallback ∧
        s'.result = s.result ∧ s'.visits = s.visits := by
    intro target pc' e
    subst e
    cases target <;> exact ⟨rfl, rfl, rfl, rfl, rfl, rfl⟩
  cases pc with
  | start => obtain rfl := Option.some.inj h; exact ⟨rfl, rfl, rfl, rfl, rfl, Or.inl rfl⟩
  | enter =>
    by_cases hkey : search.key job ∈ s.visited
    · obtain rfl := Option.some.inj ((if_pos hkey).symm.trans h)
      exact ⟨rfl, rfl, rfl, rfl, rfl, Or.inl rfl⟩
    · obtain rfl := Option.some.inj ((if_neg hkey).symm.trans h)
      exact ⟨rfl, rfl, rfl, rfl, rfl, Or.inl rfl⟩
  | visiting => obtain rfl := Option.some.inj h; exact ⟨rfl, rfl, rfl, rfl, rfl, Or.inr ⟨rfl, rfl⟩⟩
  | load target => obtain rfl := Option.some.inj h; exact ⟨rfl, rfl, rfl, rfl, rfl, Or.inl rfl⟩
  | swap target current =>
    by_cases hcurrent : s.lowest target = current
    · obtain ⟨h1, h2, h3, h4, h5, h6⟩ :=
        hlowest target target.after (Option.some.inj ((if_pos hcurrent).symm.trans h))
      exact ⟨h1, h2, h3, h4, h5, Or.inl h6⟩
    · obtain rfl := Option.some.inj ((if_neg hcurrent).symm.trans h)
      exact ⟨rfl, rfl, rfl, rfl, rfl, Or.inl rfl⟩
  | check => obtain rfl := Option.some.inj h; exact ⟨rfl, rfl, rfl, rfl, rfl, Or.inl rfl⟩
  | expand => obtain rfl := Option.some.inj h; exact ⟨rfl, rfl, rfl, rfl, rfl, Or.inl rfl⟩
  | done => exact nomatch h

/-- the step of a job, with the job and its place -/
theorem step_job (h : search.step (.job i) s = some s') :
    ∃ job pc, s.level[i]? = some job ∧ s.pcs[i]? = some pc ∧ search.stepJob i job s pc = some s' := by
  obtain ⟨job, hi, h⟩ := Option.bind_eq_some_iff.1 h
  obtain ⟨pc, hpc, h⟩ := Option.bind_eq_some_iff.1 h
  exact ⟨job, pc, hi, hpc, h⟩

/-- a job only moves while the search has no result -/
theorem Inv.running (h : Inv search s)
    (hpc : s.pcs[i]? = some pc) (hstep : search.stepJob i job s pc = some s') : s.result = none := by
  cases hresult : s.result with
  | none => rfl
  | some out =>
    have hdone := h.ended (by rw [hresult]; rfl) pc (List.mem_of_getElem? hpc)
    rw [hdone] at hstep
    exact nomatch hstep

theorem Frontier.step {fallback : Option (Nat × Job N)}
    (h : Frontier search s jobs fallback) (hlevel : s'.level = s.level) (hdepth : s'.depth = s.depth)
    (hbase : s'.base = s.base) (hfallback : s'.fallback = s.fallback) :
    Frontier search s' jobs fallback := by
  refine ⟨h.some_job, hlevel.trans h.level, hfallback.trans h.fallback_eq, ?_⟩
  rw [hdepth, hbase]
  exact h.goes_on

theorem Inv.stepJob (h : Inv search s)
    (hi : s.level[i]? = some job) (hpc : s.pcs[i]? = some pc)
    (hstep : search.stepJob i job s pc = some s') : Inv search s' := by
  have hrunning := h.running hpc hstep
  obtain ⟨hlevel, hdepth, hbase, hfallback, hresult, hvisits⟩ := stepJob_frame hstep
  have hnone : s'.result = none := hresult.trans hrunning
  refine ⟨h.level.stepJob hi hpc hstep, ?_, ?_, ?_, ?_, ?_⟩
  · rcases hvisits with hv | ⟨rfl, hv⟩
    · rw [hv]
      exact h.visits_distinct
    · rw [hv, List.map_cons, List.nodup_cons]
      exact ⟨((h.level.jobs i job _ hi hpc).visiting rfl).1, h.visits_distinct⟩
  · rcases hvisits with hv | ⟨rfl, hv⟩
    · rw [hv]
      exact h.visits_new
    · rw [hv]
      intro node hnode
      rcases List.mem_cons.1 hnode with rfl | hnode
      · exact ((h.level.jobs i job _ hi hpc).visiting rfl).2
      · exact h.visits_new node hnode
  · intro hsome
    rw [hnone] at hsome
    exact nomatch hsome
  · intro _
    obtain ⟨jobs, fallback, hf⟩ := h.frontier hrunning
    exact ⟨jobs, fallback, hf.step hlevel hdepth hbase hfallback⟩
  · intro stop path hsome
    rw [hnone] at hsome
    exact nomatch hsome

section
variable {depth fuel : Nat} {jobs : List (Job N)} {visited : Finset K} {fallback : Option (Nat × Job N)}

/-- a level that stops the search in index order -/
theorem inOrder_stop (hjobs : jobs ≠ []) {job : Job N}
    (h : search.levelInOrder depth (search.prune jobs) [] visited fallback = .stop job) :
    search.inOrder (fuel + 1) depth jobs visited fallback =
      some { stop := true, found := some (depth, job) } := by
  rw [Search.inOrder, if_neg (by rw [List.isEmpty_iff]; exact hjobs), h]

/-- a level that does not -/
theorem inOrder_next (hjobs : jobs ≠ []) {queued : List (Job N)} {visited' : Finset K}
    {fallback' : Option (Nat × Job N)}
    (h : search.levelInOrder depth (search.prune jobs) [] visited fallback =
      .next queued visited' fallback') :
    search.inOrder (fuel + 1) depth jobs visited fallback =
      search.inOrder fuel (depth + 1) (search.distinct queued) visited' fallback' := by
  rw [Search.inOrder, if_neg (by rw [List.isEmpty_iff]; exact hjobs), h]

end

variable {s : State N K} {i : Nat} {job : Job N} {visited : Finset K} {fallback : Option (Nat × Job N)}
  {out : Search.Outcome N} {depth : Nat}

theorem Inv.join (h : Inv search s) (hrunning : s.result = none)
    (hdone : ∀ pc ∈ s.pcs, pc = .done) : Inv search (search.join s) := by
  obtain ⟨jobs, fallback, hf⟩ := h.frontier hrunning
  cases hg : s.lowestGoal with
  | some g =>
    obtain ⟨job, hjob, hlevel⟩ := joined_goal h.level hdone hg fallback
    rw [hf.level] at hlevel
    have hs : search.join s = { s with result := some (true, createPath (some job)) } := by
      rw [Search.join, hg, ← hjob]
    rw [hs]
    refine ⟨⟨h.level.pcs_length, h.level.distinct, h.level.base, h.level.visited, ?_, h.level.goal,
      h.level.fallback, h.level.next_length, h.level.visits, h.level.initial⟩, h.visits_distinct,
      h.visits_new, fun _ => hdone, nofun, ?_⟩
    · intro i job pc hi hpc
      have hj := h.level.jobs i job pc hi hpc
      exact ⟨hj.inside, hj.goal, hj.fallback, hj.past, hj.done_stops, hj.done_next, hj.no_next,
        hj.visiting, hj.swap⟩
    · intro stop path hresult
      obtain ⟨rfl, rfl⟩ := Prod.mk.inj (Option.some.inj hresult)
      exact ⟨s.depth + 1, _, (hf.goes_on 1).trans (inOrder_stop hf.some_job hlevel), rfl, rfl⟩
  | none =>
    obtain ⟨fallback', hlevel, hfall⟩ := joined_level h.level hdone hg hf.fallback_eq
    rw [hf.level] at hlevel
    have hs : search.join s = search.startLevel (s.depth + 1) (search.distinct s.next.flatten) s.visited
        (fallback'.map Prod.snd) s.visits := by
      rw [Search.join, hg, ← hfall]
    rw [hs]
    refine startLevel_inv (distinct_nodup _) h.level.visits h.visits_distinct h.visits_new h.level.initial
      fun fuel => ?_
    rw [show s.depth + 1 + fuel = s.depth + (fuel + 1) by omega, hf.goes_on,
      inOrder_next hf.some_job hlevel]

/-- **a step keeps the invariant** -/
theorem Inv.step {s s' : State N K} (action : Action) (h : Inv search s)
    (hstep : search.step action s = some s') : Inv search s' := by
  cases action with
  | job i =>
    obtain ⟨job, pc, hi, hpc, hstep⟩ := step_job hstep
    exact h.stepJob hi hpc hstep
  | join =>
    by_cases hcan : s.result.isNone ∧ ∀ pc ∈ s.pcs, pc = .done
    · obtain rfl := Option.some.inj ((if_pos hcan).symm.trans hstep)
      exact h.join (Option.isNone_iff_eq_none.1 hcan.1) hcan.2
    · exact nomatch (if_neg hcan).symm.trans hstep

theorem run_inv {schedule : List Action}
    (h : exec search.step schedule search.init = some s) : Inv search s :=
  exec_invariant search.step (Inv search) (fun action _ _ hs hstep => hs.step action hstep) schedule
    search.init s (init_inv search) h

/-- a job that has not returned can take a step -/
theorem stepJob_isSome {pc : Pc} (hpc : pc ≠ .done) :
    (search.stepJob i job s pc).isSome = true := by
  cases pc with
  | enter =>
    by_cases hkey : search.key job ∈ s.visited
    · exact congrArg Option.isSome (if_pos hkey)
    · exact congrArg Option.isSome (if_neg hkey)
  | swap target current =>
    by_cases hcurrent : s.lowest target = current
    · exact congrArg Option.isSome (if_pos hcurrent)
    · exact congrArg Option.isSome (if_neg hcurrent)
  | done => exact absurd rfl hpc
  | _ => rfl

/-- **no run is stuck before it has a result** -/
theorem Inv.progress (h : Inv search s) (hresult : s.result = none) :
    ∃ action, (search.step action s).isSome = true := by
  by_cases hdone : ∀ pc ∈ s.pcs, pc = .done
  · refine ⟨.join, ?_⟩
    rw [Search.step, if_pos ⟨by rw [hresult]; rfl, hdone⟩]
    rfl
  · push Not at hdone
    obtain ⟨pc, hmem, hpc⟩ := hdone
    obtain ⟨i, hi, rfl⟩ := List.mem_iff_getElem.1 hmem
    have hi' : i < s.level.length := by
      rw [← h.level.pcs_length]
      exact hi
    refine ⟨.job i, ?_⟩
    rw [Search.step, List.getElem?_eq_getElem hi', Option.bind_some, List.getElem?_eq_getElem hi,
      Option.bind_some]
    exact stepJob_isSome hpc

/-! ## the runs end -/

/-- what a job still uses up, with `n` jobs in the level: an exchange that will fail costs more than the
load it goes back to, and one that succeeds pays for all that fail because of it -/
def weight (n : Nat) (s : State N K) : Pc → Nat
  | .done => 0
  | .expand => 1
  | .check => 2
  | .swap target current => if s.lowest target = current then 2 * n + 3 else 2 * n + 5
  | .load _ => 2 * n + 4
  | .visiting => 2 * n + 5
  | .enter => 2 * n + 6
  | .start => 2 * n + 7

def measure (s : State N K) : Nat := (s.pcs.map (weight s.pcs.length s)).sum

theorem sum_map_set {α : Type} (f : α → Nat) (l : List α) {a b : α} (h : l[i]? = some a) :
    ((l.set i b).map f).sum + f a = (l.map f).sum + f b := by
  induction l generalizing i with
  | nil => exact nomatch h
  | cons x l ih =>
    cases i with
    | zero =>
      obtain rfl := Option.some.inj h
      rw [List.set_cons_zero, List.map_cons, List.map_cons, List.sum_cons, List.sum_cons]
      omega
    | succ i =>
      have := ih h
      rw [List.set_cons_succ, List.map_cons, List.map_cons, List.sum_cons, List.sum_cons]
      omega

/-- a step that leaves both indices alone -/
theorem measure_setPc {s s' : State N K} {pc pc' : Pc} (hpc : s.pcs[i]? = some pc)
    (hpcs : s'.pcs = s.pcs.set i pc') (hgoal : s'.lowestGoal = s.lowestGoal)
    (hfallback : s'.lowestFallback = s.lowestFallback)
    (hlt : weight s.pcs.length s pc' < weight s.pcs.length s pc) : measure s' < measure s := by
  have hweight : weight s'.pcs.length s' = weight s.pcs.length s := by
    funext pc
    have hlowest : ∀ target, s'.lowest target = s.lowest target := by
      intro target
      cases target
      · exact hgoal
      · exact hfallback
    rw [hpcs, List.length_set]
    cases pc with
    | swap target current => exact congrArg (fun l => if l = current then _ else _) (hlowest target)
    | _ => rfl
  have hsum := sum_map_set (weight s.pcs.length s) s.pcs (b := pc') hpc
  show (s'.pcs.map (weight s'.pcs.length s')).sum < _
  rw [hweight, hpcs]
  show _ < (s.pcs.map (weight s.pcs.length s)).sum
  omega

theorem sum_map_le_add {α : Type} {f g : α → Nat} {k : Nat} (h : ∀ a, f a ≤ g a + k) (l : List α) :
    (l.map f).sum ≤ (l.map g).sum + k * l.length := by
  induction l with
  | nil => exact Nat.zero_le _
  | cons a l ih =>
    have ha := h a
    rw [List.map_cons, List.map_cons, List.sum_cons, List.sum_cons, List.length_cons, Nat.mul_add]
    omega

/-- an exchange that succeeds -/
theorem measure_lowered {s s' : State N K} {target : Target} {current : Option Nat}
    (hpc : s.pcs[i]? = some (.swap target current)) (hcurrent : s.lowest target = current)
    (hpcs : s'.pcs = s.pcs.set i target.after) : measure s' < measure s := by
  have hweight : ∀ pc, weight s'.pcs.length s' pc ≤ weight s.pcs.length s pc + 2 := by
    intro pc
    rw [hpcs, List.length_set]
    cases pc with
    | swap t c =>
      show (if s'.lowest t = c then 2 * s.pcs.length + 3 else 2 * s.pcs.length + 5) ≤
        (if s.lowest t = c then 2 * s.pcs.length + 3 else 2 * s.pcs.length + 5) + 2
      split <;> split <;> omega
    | _ => exact Nat.le_add_right _ _
  have hle := sum_map_le_add hweight s'.pcs
  have hsum := sum_map_set (weight s.pcs.length s) s.pcs (b := target.after) hpc
  have hswap : weight s.pcs.length s (.swap target current) = 2 * s.pcs.length + 3 := if_pos hcurrent
  have hafter : weight s.pcs.length s target.after ≤ 2 := by
    cases target with
    | goal => exact Nat.zero_le 2
    | fallback => exact Nat.le_refl 2
  have hlength : s'.pcs.length = s.pcs.length := by rw [hpcs, List.length_set]
  rw [hpcs] at hle hlength
  show (s'.pcs.map (weight s'.pcs.length s')).sum < (s.pcs.map (weight s.pcs.length s)).sum
  rw [hpcs] at *
  omega

theorem stepJob_measure {s s' : State N K} {pc : Pc} (hpc : s.pcs[i]? = some pc)
    (hstep : search.stepJob i job s pc = some s') : measure s' < measure s := by
  cases pc with
  | start =>
    obtain rfl := Option.some.inj hstep
    refine measure_setPc hpc rfl rfl rfl ?_
    split
    · exact Nat.succ_pos _
    · exact Nat.lt_succ_self _
  | enter =>
    by_cases hkey : search.key job ∈ s.visited
    · obtain rfl := Option.some.inj ((if_pos hkey).symm.trans hstep)
      exact measure_setPc hpc rfl rfl rfl (Nat.succ_pos _)
    · obtain rfl := Option.some.inj ((if_neg hkey).symm.trans hstep)
      exact measure_setPc hpc rfl rfl rfl (Nat.lt_succ_self _)
  | visiting =>
    obtain rfl := Option.some.inj hstep
    refine measure_setPc hpc rfl rfl rfl ?_
    show weight s.pcs.length s (Search.afterVisit s.fallback.isSome (search.visit job.node)) <
      2 * s.pcs.length + 5
    unfold Search.afterVisit
    split
    · exact Nat.lt_succ_self _
    · split
      · exact Nat.lt_of_lt_of_le (by decide : 2 < 5) (Nat.le_add_left 5 _)
      · exact Nat.lt_succ_self _
    · exact Nat.lt_of_lt_of_le (by decide : 2 < 5) (Nat.le_add_left 5 _)
  | load target =>
    obtain rfl := Option.some.inj hstep
    refine measure_setPc hpc rfl rfl rfl ?_
    split
    · cases target with
      | goal => exact Nat.succ_pos _
      | fallback => exact Nat.lt_of_lt_of_le (by decide : 2 < 4) (Nat.le_add_left 4 _)
    · have hfresh : weight s.pcs.length s (.swap target (s.lowest target)) = 2 * s.pcs.length + 3 := if_pos rfl
      rw [hfresh]
      exact Nat.lt_succ_self _
  | swap target current =>
    by_cases hcurrent : s.lowest target = current
    · obtain rfl := Option.some.inj ((if_pos hcurrent).symm.trans hstep)
      exact measure_lowered hpc hcurrent (by cases target <;> rfl)
    · obtain rfl := Option.some.inj ((if_neg hcurrent).symm.trans hstep)
      have hstale : weight s.pcs.length s (.swap target current) = 2 * s.pcs.length + 5 := if_neg hcurrent
      refine measure_setPc hpc rfl rfl rfl ?_
      rw [hstale]
      exact Nat.lt_succ_self _
  | check =>
    obtain rfl := Option.some.inj hstep
    refine measure_setPc hpc rfl rfl rfl ?_
    split
    · exact Nat.succ_pos _
    · exact Nat.lt_succ_self _
  | expand =>
    obtain rfl := Option.some.inj hstep
    exact measure_setPc hpc rfl rfl rfl (Nat.succ_pos _)
  | done => exact nomatch hstep

/-- `later` follows on `earlier` in a run -/
def Follows (search : Search N K) (later earlier : State N K) : Prop :=
  ∃ action, search.step action earlier = some later

theorem acc_of_result (h : Inv search s) (hresult : s.result.isSome = true) :
    Acc (Follows search) s := by
  refine Acc.intro s fun s' ⟨action, hstep⟩ => ?_
  cases action with
  | job i =>
    obtain ⟨job, pc, -, hpc, hstep⟩ := step_job hstep
    rw [h.running hpc hstep] at hresult
    exact nomatch hresult
  | join =>
    by_cases hcan : s.result.isNone ∧ ∀ pc ∈ s.pcs, pc = .done
    · rw [Option.isNone_iff_eq_none.1 hcan.1] at hresult
      exact nomatch hresult
    · exact nomatch (if_neg hcan).symm.trans hstep

/-- the search in index order ends within `fuel` levels from here -/
def Ends (search : Search N K) (fuel : Nat) (s : State N K) : Prop :=
  ∃ jobs fallback, Frontier search s jobs fallback ∧
    (search.inOrder fuel s.depth jobs s.base fallback).isSome = true

theorem Ends.join {fuel : Nat} (h : Inv search s) (hends : Ends search (fuel + 1) s)
    (hdone : ∀ pc ∈ s.pcs, pc = .done) :
    (search.join s).result.isSome = true ∨ Ends search fuel (search.join s) := by
  obtain ⟨jobs, fallback, hf, hsome⟩ := hends
  cases hg : s.lowestGoal with
  | some g =>
    refine Or.inl ?_
    rw [Search.join, hg]
    rfl
  | none =>
    obtain ⟨fallback', hlevel, hfall⟩ := joined_level h.level hdone hg hf.fallback_eq
    rw [hf.level] at hlevel
    rw [inOrder_next hf.some_job hlevel] at hsome
    rw [Search.join, hg]
    cases hnext : search.distinct s.next.flatten with
    | nil => exact Or.inl rfl
    | cons job rest =>
      refine Or.inr ⟨job :: rest, fallback', ⟨List.cons_ne_nil _ _, rfl, hfall, fun fuel => ?_⟩, hnext ▸ hsome⟩
      show search.sequential (s.depth + 1 + fuel) = _
      rw [show s.depth + 1 + fuel = s.depth + (fuel + 1) by omega, hf.goes_on,
        inOrder_next hf.some_job hlevel, hnext]
      rfl

theorem acc_of_ends (fuel : Nat) (h : Inv search s) (hresult : s.result = none)
    (hends : Ends search fuel s) : Acc (Follows search) s := by
  induction fuel generalizing s with
  | zero =>
    obtain ⟨jobs, fallback, -, hsome⟩ := hends
    exact nomatch hsome
  | succ fuel ih =>
    -- within the level the weights of its jobs go down
    induction hm : measure s using Nat.strongRecOn generalizing s with
    | ind m ihm =>
      refine Acc.intro s fun s' ⟨action, hstep⟩ => ?_
      cases action with
      | job i =>
        obtain ⟨job, pc, hi, hpc, hstep⟩ := step_job hstep
        obtain ⟨hlevel, hdepth, hbase, hfallback, hresult', -⟩ := stepJob_frame hstep
        obtain ⟨jobs, fallback, hf, hsome⟩ := hends
        refine ihm (measure s') (hm ▸ stepJob_measure hpc hstep) (h.stepJob hi hpc hstep)
          (hresult'.trans hresult) ⟨jobs, fallback, hf.step hlevel hdepth hbase hfallback, ?_⟩ rfl
        rw [hdepth, hbase]
        exact hsome
      | join =>
        by_cases hcan : s.result.isNone ∧ ∀ pc ∈ s.pcs, pc = .done
        · obtain rfl := Option.some.inj ((if_pos hcan).symm.trans hstep)
          have hinv := h.join hresult hcan.2
          rcases hends.join h hcan.2 with hsome | hends'
          · exact acc_of_result hinv hsome
          · cases hr : (search.join s).result with
            | none => exact ih hinv hr hends'
            | some out => exact acc_of_result hinv (by rw [hr]; rfl)
        · exact nomatch (if_neg hcan).symm.trans hstep

theorem inOrder_mono {fuel depth : Nat} {jobs : List (Job N)}
    (h : search.inOrder fuel depth jobs visited fallback = some out) :
    search.inOrder (fuel + 1) depth jobs visited fallback = some out := by
  induction fuel generalizing depth jobs visited fallback with
  | zero => exact nomatch h
  | succ fuel ih =>
    by_cases hjobs : jobs = []
    · subst hjobs
      exact h
    · cases hlevel : search.levelInOrder depth (search.prune jobs) [] visited fallback with
      | stop job =>
        rw [inOrder_stop hjobs hlevel] at h ⊢
        exact h
      | next queued visited' fallback' =>
        rw [inOrder_next hjobs hlevel] at h ⊢
        exact ih h

theorem sequential_mono {fuel : Nat} (h : search.sequential fuel = some out)
    (more : Nat) : search.sequential (fuel + more) = some out := by
  induction more with
  | zero => exact h
  | succ more ih => exact inOrder_mono ih

/-! ## paths -/

/-- the chain of parents of a job in the level with number `depth` -/
structure PathTo (search : Search N K) (job : Job N) (depth : Nat) : Prop where
  edges : job.path.length = depth + 1
  node : job.path.head? = some job.node
  start : job.path.getLast? = some search.start
  chain : job.path.IsChain fun child parent => child ∈ search.neighbors parent

theorem pathTo_root (search : Search N K) : PathTo search (.root search.start) 0 :=
  ⟨rfl, rfl, rfl, List.isChain_singleton _⟩

theorem PathTo.child (h : PathTo search job depth) {node : N}
    (hnode : node ∈ search.neighbors job.node) : PathTo search (.child node job) (depth + 1) := by
  obtain ⟨first, rest, hpath⟩ : ∃ first rest, job.path = first :: rest :=
    List.exists_cons_of_ne_nil fun e => by
      have := h.edges
      rw [e] at this
      exact nomatch this
  have hfirst : first = job.node := by
    have := h.node
    rw [hpath] at this
    exact Option.some.inj this
  refine ⟨?_, rfl, ?_, ?_⟩
  · show job.path.length + 1 = _
    rw [h.edges]
  · show (node :: job.path).getLast? = _
    rw [hpath, List.getLast?_cons_cons, ← hpath, h.start]
  · show (node :: job.path).IsChain _
    have hchain := h.chain
    rw [hpath] at hchain ⊢
    rw [List.isChain_cons_cons]
    exact ⟨hfirst ▸ hnode, hchain⟩

theorem children_pathTo (h : PathTo search job depth) :
    ∀ child ∈ search.children job, PathTo search child (depth + 1) := by
  intro child hchild
  obtain ⟨node, hnode, rfl⟩ := List.mem_map.1 hchild
  exact h.child hnode

/-- the jobs that a level in index order hands on -/
theorem levelInOrder_pathTo (jobs : List (Job N)) {queued : List (Job N)}
    (hjobs : ∀ job ∈ jobs, PathTo search job depth)
    (hqueued : ∀ job ∈ queued, PathTo search job (depth + 1))
    (hfallback : ∀ p ∈ fallback, PathTo search p.2 p.1) :
    (∀ job, search.levelInOrder depth jobs queued visited fallback = .stop job → PathTo search job depth) ∧
    ∀ queued' visited' fallback', search.levelInOrder depth jobs queued visited fallback =
        .next queued' visited' fallback' →
      (∀ job ∈ queued', PathTo search job (depth + 1)) ∧ ∀ p ∈ fallback', PathTo search p.2 p.1 := by
  induction jobs generalizing queued visited fallback with
  | nil =>
    refine ⟨(fun job e => by cases e), fun queued' visited' fallback' e => ?_⟩
    obtain ⟨rfl, rfl, rfl⟩ := Search.LevelResult.next.inj e
    exact ⟨hqueued, hfallback⟩
  | cons job jobs ih =>
    have hjob := hjobs job List.mem_cons_self
    have hrest : ∀ x ∈ jobs, PathTo search x depth := fun x hx => hjobs x (List.mem_cons_of_mem _ hx)
    have hmore : ∀ x ∈ queued ++ search.children job, PathTo search x (depth + 1) := by
      intro x hx
      rcases List.mem_append.1 hx with hx | hx
      · exact hqueued x hx
      · exact children_pathTo hjob x hx
    by_cases hkey : search.key job ∈ visited
    · rw [Search.levelInOrder, if_pos hkey]
      exact ih hrest hqueued hfallback
    · rw [Search.levelInOrder, if_neg hkey]
      rcases hv : search.visit job.node with ⟨isResult, stop⟩
      cases isResult with
      | false => exact ih hrest hmore hfallback
      | true =>
        cases stop with
        | true =>
          refine ⟨fun x e => ?_, (fun _ _ _ e => by cases e)⟩
          obtain rfl := Search.LevelResult.stop.inj e
          exact hjob
        | false =>
          refine ih hrest hmore fun p hp => ?_
          cases fallback with
          | none =>
            obtain rfl := Option.some.inj hp
            exact hjob
          | some q => exact hfallback p hp

theorem inOrder_pathTo {fuel depth : Nat} {jobs : List (Job N)}
    (h : search.inOrder fuel depth jobs visited fallback = some out)
    (hjobs : ∀ job ∈ jobs, PathTo search job depth) (hfallback : ∀ p ∈ fallback, PathTo search p.2 p.1) :
    ∀ p ∈ out.found, PathTo search p.2 p.1 := by
  induction fuel generalizing depth jobs visited fallback with
  | zero => exact nomatch h
  | succ fuel ih =>
    by_cases hnil : jobs = []
    · subst hnil
      obtain rfl := Option.some.inj h
      exact hfallback
    have hpruned : ∀ job ∈ search.prune jobs, PathTo search job depth := fun job hjob =>
      hjobs job ((prune_sublist jobs).subset hjob)
    have hqueued : ∀ job ∈ ([] : List (Job N)), PathTo search job (depth + 1) := fun _ hx =>
      absurd hx List.not_mem_nil
    obtain ⟨hstop, hnext⟩ : (∀ job, search.levelInOrder depth (search.prune jobs) [] visited fallback =
        .stop job → PathTo search job depth) ∧ _ :=
      levelInOrder_pathTo (search.prune jobs) hpruned hqueued hfallback
    cases hlevel : search.levelInOrder depth (search.prune jobs) [] visited fallback with
    | stop job =>
      rw [inOrder_stop hnil hlevel] at h
      obtain rfl := Option.some.inj h
      intro p hp
      obtain rfl := Option.some.inj hp
      exact hstop job hlevel
    | next queued visited' fallback' =>
      rw [inOrder_next hnil hlevel] at h
      obtain ⟨hq, hf⟩ := hnext queued visited' fallback' hlevel
      exact ih h (fun job hjob => hq job (mem_distinct hjob)) hf

/-! ## main result -/

/-- **the parallel search is the sequential one**: whatever steps its jobs take in between, a result it
has is that of the search in index order, with a chain of parents to the start that is as long as the
level it was found in; no key is visited twice; and it goes on to its result when the search in index
order has one -/
theorem parallel_as_sequential (search : Search N K) (schedule : List Action) (s : State N K)
    (h : exec search.step schedule search.init = some s) :
    (∀ stop path, s.result = some (stop, path) → ∃ fuel out, search.sequential fuel = some out ∧
      stop = out.stop ∧ path = createPath (out.found.map Prod.snd) ∧
      ∀ p ∈ out.found, PathTo search p.2 p.1) ∧
    (s.visits.map search.getKey).Nodup ∧
    (∀ node ∈ s.visits, search.getKey node ∉ search.visited) ∧
    (s.result = none → ∃ action, (search.step action s).isSome = true) ∧
    (∀ fuel out, search.sequential fuel = some out → Acc (Follows search) s) := by
  have hinv := run_inv h
  refine ⟨fun stop path hresult => ?_, hinv.visits_distinct, hinv.visits_new, hinv.progress,
    fun fuel out hseq => ?_⟩
  · obtain ⟨fuel, out, hseq, hstop, hpath⟩ := hinv.finished stop path hresult
    refine ⟨fuel, out, hseq, hstop, hpath, inOrder_pathTo hseq (fun job hjob => ?_) (fun _ hp => nomatch hp)⟩
    obtain rfl := List.mem_singleton.1 hjob
    exact pathTo_root search
  · cases hresult : s.result with
    | some result => exact acc_of_result hinv (by rw [hresult]; rfl)
    | none =>
      obtain ⟨jobs, fallback, hf⟩ := hinv.frontier hresult
      refine acc_of_ends fuel hinv hresult ⟨jobs, fallback, hf, ?_⟩
      rw [← hf.goes_on, Nat.add_comm, sequential_mono hseq]
      rfl

/-- a search from `0` over `1` and `2`, of which `2` stops it -/
def forkSearch : Search Nat Nat where
  start := 0
  neighbors := fun n => if n = 0 then [1, 2] else []
  visit := fun n => (n = 2, true)
  visited := ∅
  preprocessLevel := none
  getKey := id

/-- the first level, then the second one with its jobs in turns -/
def forkSchedule : List Action :=
  [.job 0, .job 0, .job 0, .job 0, .job 0, .join,
    .job 1, .job 0, .job 1, .job 0, .job 1, .job 1, .job 0, .job 1, .job 0, .job 0, .join]

def forkEnd : State Nat Nat where
  level := [.child 1 (.root 0), .child 2 (.root 0)]
  pcs := [.done, .done]
  lowestGoal := some 1
  lowestFallback := none
  next := [[], []]
  visited := {1, 2, 0}
  fallback := none
  result := some (true, [2, 0])
  depth := 1
  base := {0}
  visits := [1, 2, 0]

theorem parallel_as_sequential_fork :
    ∃ fuel out, forkSearch.sequential fuel = some out ∧ out.stop = true ∧
      createPath (out.found.map Prod.snd) = [2, 0] := by
  have hrun : exec forkSearch.step forkSchedule forkSearch.init = some forkEnd := by rfl
  obtain ⟨fuel, out, hseq, hstop, hpath, -⟩ :=
    (parallel_as_sequential forkSearch forkSchedule forkEnd hrun).1 true [2, 0] rfl
  exact ⟨fuel, out, hseq, hstop.symm, hpath.symm⟩

end Tsr.Core.Bfs
