import Tsr.Core.Bfs

/-!
# Core: the parallel search is the search in index order

* `levelInOrder_stop`, `levelInOrder_next`   a level in index order: its first stopping job, or all its
                                             fresh jobs;
* `JobInv`, `LevelInv`   what holds of each job and of the level while its jobs run;
* `joined_level`         at the end of a level the shared indices say what the level in index order says;
* `Inv`                  the search in index order from the level that runs.
-/

set_option linter.unusedSectionVars false

namespace Tsr.Core.Bfs

variable {N K : Type} [DecidableEq K] {search : Search N K}

namespace Search

/-! ## a level in index order -/

/-- the job is the first of its key -/
def Fresh (search : Search N K) (base : Finset K) (job : Job N) : Prop := search.key job ∉ base

instance (base : Finset K) (job : Job N) : Decidable (search.Fresh base job) :=
  inferInstanceAs (Decidable (¬_))

def Stops (search : Search N K) (job : Job N) : Prop := search.visit job.node = (true, true)

instance (job : Job N) : Decidable (search.Stops job) := inferInstanceAs (Decidable (_ = _))

def Results (search : Search N K) (job : Job N) : Prop := (search.visit job.node).1 = true

instance (job : Job N) : Decidable (search.Results job) := inferInstanceAs (Decidable (_ = _))

/-- a level up to its first stopping job -/
theorem levelInOrder_append {depth : Nat} {before : List (Job N)} (after : List (Job N))
    {queued : List (Job N)} {visited base : Finset K} {fallback : Option (Nat × Job N)}
    (hdistinct : (before.map search.key).Nodup)
    (hbase : ∀ job ∈ before, search.key job ∈ visited ↔ search.key job ∈ base)
    (hstops : ∀ job ∈ before, search.Fresh base job → ¬search.Stops job) :
    search.levelInOrder depth (before ++ after) queued visited fallback =
      search.levelInOrder depth after
        (queued ++ (before.filter fun job => search.Fresh base job).flatMap search.children)
        (visited ∪ ((before.filter fun job => search.Fresh base job).map search.key).toFinset)
        (fallback.or ((before.find? fun job => search.Fresh base job ∧ search.Results job).map
          fun job => (depth, job))) := by
  induction before generalizing queued visited fallback with
  | nil => simp
  | cons job before ih =>
    rw [List.map_cons, List.nodup_cons] at hdistinct
    have hrest : ∀ x ∈ before, search.key x ≠ search.key job := fun x hx e =>
      hdistinct.1 (e ▸ List.mem_map_of_mem hx)
    have hbase' : ∀ (visited' : Finset K), (visited' = visited ∨ visited' = insert (search.key job) visited) →
        ∀ x ∈ before, search.key x ∈ visited' ↔ search.key x ∈ base := by
      intro visited' hv x hx
      rcases hv with rfl | rfl
      · exact hbase x (List.mem_cons_of_mem _ hx)
      · rw [Finset.mem_insert, or_iff_right (hrest x hx)]
        exact hbase x (List.mem_cons_of_mem _ hx)
    have hstops' : ∀ x ∈ before, search.Fresh base x → ¬search.Stops x := fun x hx =>
      hstops x (List.mem_cons_of_mem _ hx)
    have hhead := hbase job List.mem_cons_self
    by_cases hfresh : search.Fresh base job
    · have hnot : search.key job ∉ visited := fun h => hfresh (hhead.1 h)
      have hno := hstops job List.mem_cons_self hfresh
      rw [List.cons_append, levelInOrder, if_neg hnot]
      rw [List.filter_cons_of_pos (by simpa using hfresh), List.flatMap_cons, List.map_cons,
        List.toFinset_cons, Finset.union_insert, ← Finset.insert_union, ← List.append_assoc]
      rcases hv : search.visit job.node with ⟨isResult, stop⟩
      cases isResult with
      | false =>
        have hres : ¬search.Results job := by rw [Results, hv]; exact Bool.false_ne_true
        rw [List.find?_cons_of_neg (by simp [hres])]
        exact ih hdistinct.2 (hbase' _ (Or.inr rfl)) hstops'
      | true =>
        have hres : search.Results job := by rw [Results, hv]
        cases stop with
        | true => exact absurd hv hno
        | false =>
          rw [List.find?_cons_of_pos (by simp [hfresh, hres])]
          show search.levelInOrder depth (before ++ after) _ _ (fallback.or (some (depth, job))) = _
          rw [ih hdistinct.2 (hbase' _ (Or.inr rfl)) hstops', Option.or_assoc, Option.map_some,
            Option.some_or]
    · have hin : search.key job ∈ visited := hhead.2 (not_not.1 hfresh)
      rw [List.cons_append, levelInOrder, if_pos hin, List.filter_cons_of_neg (by simpa using hfresh),
        List.find?_cons_of_neg (by simp [hfresh])]
      exact ih hdistinct.2 (hbase' _ (Or.inl rfl)) hstops'

/-- **a level without a stopping job** -/
theorem levelInOrder_next {depth : Nat} {jobs : List (Job N)} {base : Finset K}
    {fallback : Option (Nat × Job N)} (hdistinct : (jobs.map search.key).Nodup)
    (hstops : ∀ job ∈ jobs, search.Fresh base job → ¬search.Stops job) :
    search.levelInOrder depth jobs [] base fallback =
      .next ((jobs.filter fun job => search.Fresh base job).flatMap search.children)
        (base ∪ ((jobs.filter fun job => search.Fresh base job).map search.key).toFinset)
        (fallback.or ((jobs.find? fun job => search.Fresh base job ∧ search.Results job).map
          fun job => (depth, job))) := by
  have h : search.levelInOrder depth (jobs ++ []) [] base fallback = _ :=
    levelInOrder_append [] hdistinct (fun _ _ => Iff.rfl) hstops
  rw [List.append_nil] at h
  exact h

/-- **a level with a stopping job** -/
theorem levelInOrder_stop {depth : Nat} {before after : List (Job N)} {job : Job N} {base : Finset K}
    {fallback : Option (Nat × Job N)} (hdistinct : ((before ++ job :: after).map search.key).Nodup)
    (hstops : ∀ job ∈ before, search.Fresh base job → ¬search.Stops job) (hfresh : search.Fresh base job)
    (hstop : search.Stops job) :
    search.levelInOrder depth (before ++ job :: after) [] base fallback = .stop job := by
  rw [List.map_append, List.nodup_append] at hdistinct
  rw [levelInOrder_append _ hdistinct.1 (fun _ _ => Iff.rfl) hstops]
  have hnot : search.key job ∉
      base ∪ ((before.filter fun job => search.Fresh base job).map search.key).toFinset := by
    rw [Finset.mem_union, not_or]
    refine ⟨hfresh, fun hmem => ?_⟩
    obtain ⟨x, hx, hkey⟩ := List.mem_map.1 (List.mem_toFinset.1 hmem)
    exact hdistinct.2.2 _ (List.mem_map_of_mem (List.mem_of_mem_filter hx)) _
      (List.mem_map_of_mem List.mem_cons_self) hkey
  rw [levelInOrder, if_neg hnot, hstop]

end Search

/-! ## jobs -/

/-- the job has been let in and has not returned -/
def Pc.inside : Pc → Bool
  | .start => false
  | .enter => false
  | .done => false
  | _ => true

/-- the job is behind `add_if_absent`, or has returned -/
def Pc.entered : Pc → Bool
  | .start => false
  | .enter => false
  | _ => true

/-- the job is behind the call of `visit`, and it did not stop the search -/
def Pc.past : Pc → Bool
  | .check => true
  | .expand => true
  | _ => false

def Pc.lowers (target : Target) : Pc → Bool
  | .load t => t = target
  | .swap t _ => t = target
  | _ => false

/-- what holds of the job `i` -/
structure JobInv (search : Search N K) (s : State N K) (i : Nat) (job : Job N) (pc : Pc) : Prop where
  inside : pc.inside = true → search.Fresh s.base job ∧ search.key job ∈ s.visited
  goal : pc.lowers .goal = true → search.Stops job
  fallback : pc.lowers .fallback = true → search.Results job ∧ ¬search.Stops job ∧ s.fallback = none
  past : pc.past = true → ¬search.Stops job ∧
    (search.Results job → s.fallback = none → reached s.lowestFallback i = true)
  done_stops : pc = .done → search.Fresh s.base job → search.Stops job → reached s.lowestGoal i = true
  done_next : pc = .done → search.Fresh s.base job → s.lowestGoal = none →
    search.key job ∈ s.visited ∧ s.next[i]? = some (search.children job) ∧
    (search.Results job → s.fallback = none → reached s.lowestFallback i = true)
  no_next : (pc = .done → ¬search.Fresh s.base job) → s.next[i]? = some []
  visiting : pc = .visiting → search.key job ∉ s.visits.map search.getKey ∧ search.key job ∉ search.visited
  swap : ∀ target current, pc = .swap target current → ¬(current.any fun l => l < i) = true

structure LevelInv (search : Search N K) (s : State N K) : Prop where
  pcs_length : s.pcs.length = s.level.length
  distinct : (s.level.map search.key).Nodup
  base : s.base ⊆ s.visited
  visited : ∀ k ∈ s.visited, k ∈ s.base ∨
    ∃ (i : Nat) (job : Job N) (pc : Pc), s.level[i]? = some job ∧ s.pcs[i]? = some pc ∧
      search.key job = k ∧ pc.entered = true
  jobs : ∀ i job pc, s.level[i]? = some job → s.pcs[i]? = some pc → JobInv search s i job pc
  goal : ∀ g ∈ s.lowestGoal, ∃ job, s.level[g]? = some job ∧ search.Fresh s.base job ∧ search.Stops job
  fallback : ∀ f ∈ s.lowestFallback, ∃ job, s.level[f]? = some job ∧ search.Fresh s.base job ∧
    search.Results job
  next_length : s.next.length = s.level.length
  visits : ∀ node ∈ s.visits, search.getKey node ∈ s.visited
  initial : search.visited ⊆ s.visited

theorem reached_of_le {l i : Nat} (h : l ≤ i) : reached (some l) i = true := decide_eq_true h

theorem reached_cases {lowest : Option Nat} {i : Nat} (h : reached lowest i = true) :
    ∃ l, lowest = some l ∧ l ≤ i := by
  cases lowest with
  | none => exact nomatch h
  | some l => exact ⟨l, rfl, of_decide_eq_true h⟩

theorem below_cases {lowest : Option Nat} {i : Nat} (h : (lowest.any fun l => l < i) = true) :
    ∃ l, lowest = some l ∧ l < i := by
  cases lowest with
  | none => exact nomatch h
  | some l => exact ⟨l, rfl, of_decide_eq_true h⟩

/-- an index that the exchange lowers -/
theorem reached_lowered {lowest : Option Nat} {i j : Nat} (h : ¬(lowest.any fun l => l < i) = true)
    (hj : reached lowest j = true) : reached (some i) j = true := by
  obtain ⟨l, rfl, hl⟩ := reached_cases hj
  have hi : ¬l < i := fun hlt => h (decide_eq_true hlt)
  exact reached_of_le (by omega)

/-- two places of the level with one key are one place -/
theorem LevelInv.index_inj {s : State N K} (h : LevelInv search s) {i j : Nat} {job job' : Job N}
    (hi : s.level[i]? = some job) (hj : s.level[j]? = some job') (hkey : search.key job = search.key job') :
    i = j := by
  have hi' : (s.level.map search.key)[i]? = some (search.key job) := by rw [List.getElem?_map, hi]; rfl
  have hj' : (s.level.map search.key)[j]? = some (search.key job') := by rw [List.getElem?_map, hj]; rfl
  obtain ⟨hlt, -⟩ := List.getElem?_eq_some_iff.1 hi'
  exact (List.getElem?_inj hlt h.distinct).1 (by rw [hi', hj', hkey])

/-! ## one step of a job -/

/-- what a step of another job leaves of a job -/
structure Frame (search : Search N K) (s s' : State N K) (i : Nat) (job : Job N) : Prop where
  base : s'.base = s.base
  visited : s.visited ⊆ s'.visited
  fallback : s'.fallback = s.fallback
  goal : reached s.lowestGoal i = true → reached s'.lowestGoal i = true
  goal_none : s'.lowestGoal = none → s.lowestGoal = none
  lowestFallback : reached s.lowestFallback i = true → reached s'.lowestFallback i = true
  next : s'.next[i]? = s.next[i]?
  visits : search.key job ∉ s.visits.map search.getKey → search.key job ∉ s'.visits.map search.getKey

theorem JobInv.frame {s s' : State N K} {i : Nat} {job : Job N} {pc : Pc} (h : JobInv search s i job pc)
    (hf : Frame search s s' i job) : JobInv search s' i job pc where
  inside := by
    intro hp
    rw [hf.base]
    exact ⟨(h.inside hp).1, hf.visited (h.inside hp).2⟩
  goal := h.goal
  fallback := by
    rw [hf.fallback]
    exact h.fallback
  past := by
    intro hp
    rw [hf.fallback]
    exact ⟨(h.past hp).1, fun hr hn => hf.lowestFallback ((h.past hp).2 hr hn)⟩
  done_stops := by
    rw [hf.base]
    exact fun hd hfresh hstop => hf.goal (h.done_stops hd hfresh hstop)
  done_next := by
    intro hd hfresh hnone
    rw [hf.base] at hfresh
    obtain ⟨h1, h2, h3⟩ := h.done_next hd hfresh (hf.goal_none hnone)
    rw [hf.fallback, hf.next]
    exact ⟨hf.visited h1, h2, fun hr hn => hf.lowestFallback (h3 hr hn)⟩
  no_next := by
    rw [hf.base, hf.next]
    exact h.no_next
  visiting := by
    intro hp
    exact ⟨hf.visits (h.visiting hp).1, (h.visiting hp).2⟩
  swap := h.swap

/-- **one job moves**: the others keep what holds of them -/
theorem LevelInv.move {s s' : State N K} {i : Nat} {job : Job N} {pc pc' : Pc} (h : LevelInv search s)
    (hi : s.level[i]? = some job) (hpc : s.pcs[i]? = some pc) (hlevel : s'.level = s.level)
    (hbase : s'.base = s.base) (hpcs : s'.pcs = s.pcs.set i pc')
    (hnext : s'.next.length = s.next.length)
    (hentered : pc.entered = true → pc'.entered = true)
    (hvisited : s'.visited = s.visited ∨
      (s'.visited = insert (search.key job) s.visited ∧ pc'.entered = true))
    (hvisits : ∀ node ∈ s'.visits, node ∈ s.visits ∨ search.getKey node ∈ s'.visited)
    (hframe : ∀ j job', j ≠ i → s.level[j]? = some job' → Frame search s s' j job')
    (hjob : JobInv search s' i job pc')
    (hgoal : ∀ g ∈ s'.lowestGoal, g ∈ s.lowestGoal ∨
      (g = i ∧ search.Fresh s.base job ∧ search.Stops job))
    (hfallback : ∀ f ∈ s'.lowestFallback, f ∈ s.lowestFallback ∨
      (f = i ∧ search.Fresh s.base job ∧ search.Results job)) : LevelInv search s' := by
  have hsub : s.visited ⊆ s'.visited := by
    rcases hvisited with hv | ⟨hv, -⟩
    · rw [hv]
    · rw [hv]
      exact Finset.subset_insert _ _
  have hlt : i < s.pcs.length := (List.getElem?_eq_some_iff.1 hpc).1
  have hself : s'.pcs[i]? = some pc' := by rw [hpcs, List.getElem?_set_self hlt]
  have hother : ∀ j, j ≠ i → s'.pcs[j]? = s.pcs[j]? := fun j hj => by
    rw [hpcs, List.getElem?_set_ne (Ne.symm hj)]
  refine ⟨?_, hlevel ▸ h.distinct, ?_, ?_, ?_, ?_, ?_, ?_, ?_, ?_⟩
  · rw [hpcs, List.length_set, hlevel, h.pcs_length]
  · rw [hbase]
    exact h.base.trans hsub
  · intro k hk
    rw [hbase, hlevel]
    have hold : k ∈ s.visited → k ∈ s.base ∨ ∃ (j : Nat) (job : Job N) (pc : Pc),
        s.level[j]? = some job ∧ s'.pcs[j]? = some pc ∧ search.key job = k ∧ pc.entered = true := by
      intro hk
      refine (h.visited k hk).imp_right fun ⟨j, job', pc1, hj, hjpc, hkey, hent⟩ => ?_
      by_cases hji : j = i
      · subst hji
        rw [hpc] at hjpc
        exact ⟨j, job', pc', hj, hself, hkey, hentered (Option.some.inj hjpc ▸ hent)⟩
      · exact ⟨j, job', pc1, hj, (hother j hji).trans hjpc, hkey, hent⟩
    rcases hvisited with hv | ⟨hv, hent⟩
    · exact hold (hv ▸ hk)
    · rcases Finset.mem_insert.1 (hv ▸ hk) with rfl | hk
      · exact Or.inr ⟨i, job, pc', hi, hself, rfl, hent⟩
      · exact hold hk
  · intro j job' pc1 hj hjpc
    rw [hlevel] at hj
    by_cases hji : j = i
    · subst hji
      rw [hi] at hj
      rw [hself] at hjpc
      rw [← Option.some.inj hj, ← Option.some.inj hjpc]
      exact hjob
    · exact (h.jobs j job' pc1 hj ((hother j hji) ▸ hjpc)).frame (hframe j job' hji hj)
  · intro g hg
    rw [hlevel, hbase]
    rcases hgoal g hg with hg | ⟨rfl, hfresh, hstop⟩
    · exact h.goal g hg
    · exact ⟨job, hi, hfresh, hstop⟩
  · intro f hf
    rw [hlevel, hbase]
    rcases hfallback f hf with hf | ⟨rfl, hfresh, hres⟩
    · exact h.fallback f hf
    · exact ⟨job, hi, hfresh, hres⟩
  · rw [hnext, hlevel, h.next_length]
  · intro node hnode
    rcases hvisits node hnode with hold | hnew
    · exact hsub (h.visits node hold)
    · exact hnew
  · exact h.initial.trans hsub

/-- only the place of a job changes -/
theorem LevelInv.setPc {s : State N K} {i : Nat} {job : Job N} {pc pc' : Pc} (h : LevelInv search s)
    (hi : s.level[i]? = some job) (hpc : s.pcs[i]? = some pc)
    (hentered : pc.entered = true → pc'.entered = true) (hjob : JobInv search s i job pc') :
    LevelInv search (s.setPc i pc') :=
  h.move hi hpc rfl rfl rfl rfl hentered (Or.inl rfl) (fun _ hnode => Or.inl hnode)
    (fun _ _ _ _ => ⟨rfl, Finset.Subset.refl _, rfl, id, id, id, rfl, id⟩)
    ⟨hjob.inside, hjob.goal, hjob.fallback, hjob.past, hjob.done_stops, hjob.done_next, hjob.no_next,
      hjob.visiting, hjob.swap⟩
    (fun _ hg => Or.inl hg) (fun _ hf => Or.inl hf)

section
variable {s : State N K} {i : Nat} {job : Job N} {pc : Pc}

/-- a job that returns because a goal in front of it, or its own, is known -/
theorem JobInv.done_of_goal (h : JobInv search s i job pc) (hpc : pc ≠ .done)
    (hgoal : reached s.lowestGoal i = true) : JobInv search s i job .done where
  inside := nofun
  goal := nofun
  fallback := nofun
  past := nofun
  done_stops := fun _ _ _ => hgoal
  done_next := by
    intro _ _ hnone
    rw [hnone] at hgoal
    exact nomatch hgoal
  no_next := fun _ => h.no_next fun e => absurd e hpc
  visiting := nofun
  swap := nofun

/-- a job whose key was visited in an earlier level -/
theorem JobInv.done_of_known (h : JobInv search s i job pc) (hpc : pc ≠ .done)
    (hknown : ¬search.Fresh s.base job) : JobInv search s i job .done where
  inside := nofun
  goal := nofun
  fallback := nofun
  past := nofun
  done_stops := fun _ hfresh => absurd hfresh hknown
  done_next := fun _ hfresh => absurd hfresh hknown
  no_next := fun _ => h.no_next fun e => absurd e hpc
  visiting := nofun
  swap := nofun

/-- a job on its way through `update_min` or to its neighbors -/
theorem JobInv.forward {pc' : Pc} (h : JobInv search s i job pc) (hpc : pc ≠ .done)
    (hinside : search.Fresh s.base job ∧ search.key job ∈ s.visited) (hdone : pc' ≠ .done)
    (hvisiting : pc' ≠ .visiting) (hgoal : pc'.lowers .goal = true → search.Stops job)
    (hfallback : pc'.lowers .fallback = true →
      search.Results job ∧ ¬search.Stops job ∧ s.fallback = none)
    (hpast : pc'.past = true → ¬search.Stops job ∧
      (search.Results job → s.fallback = none → reached s.lowestFallback i = true))
    (hswap : ∀ target current, pc' = .swap target current → ¬(current.any fun l => l < i) = true) :
    JobInv search s i job pc' where
  inside := fun _ => hinside
  goal := hgoal
  fallback := hfallback
  past := hpast
  done_stops := fun e => absurd e hdone
  done_next := fun e => absurd e hdone
  no_next := fun _ => h.no_next fun e => absurd e hpc
  visiting := fun e => absurd e hvisiting
  swap := hswap

end

/-- a key that is known when a job asks for it is not fresh -/
theorem LevelInv.not_fresh {s : State N K} {i : Nat} {job : Job N} (h : LevelInv search s)
    (hi : s.level[i]? = some job) (hpc : s.pcs[i]? = some .enter) (hkey : search.key job ∈ s.visited) :
    ¬search.Fresh s.base job := by
  intro hfresh
  rcases h.visited _ hkey with hbase | ⟨j, job', pc, hj, hjpc, hkey', hent⟩
  · exact hfresh hbase
  · obtain rfl := h.index_inj hi hj hkey'.symm
    rw [hpc] at hjpc
    rw [← Option.some.inj hjpc] at hent
    exact nomatch hent

section
variable {s s' : State N K} {i : Nat} {job : Job N} (h : LevelInv search s)
  (hi : s.level[i]? = some job)
include h hi

theorem LevelInv.step_start (hpc : s.pcs[i]? = some .start)
    (hstep : search.stepJob i job s .start = some s') : LevelInv search s' := by
  obtain rfl := Option.some.inj hstep
  have hjob := h.jobs i job .start hi hpc
  by_cases hgoal : reached s.lowestGoal i = true
  · rw [if_pos hgoal]
    exact h.setPc hi hpc nofun (hjob.done_of_goal (by decide) hgoal)
  · rw [if_neg hgoal]
    exact h.setPc hi hpc nofun
      ⟨nofun, nofun, nofun, nofun, nofun, nofun, fun _ => hjob.no_next nofun, nofun, nofun⟩

theorem LevelInv.step_enter (hpc : s.pcs[i]? = some .enter)
    (hstep : search.stepJob i job s .enter = some s') : LevelInv search s' := by
  have hjob := h.jobs i job .enter hi hpc
  by_cases hkey : search.key job ∈ s.visited
  · obtain rfl := Option.some.inj ((if_pos hkey).symm.trans hstep)
    exact h.setPc hi hpc nofun
      (hjob.done_of_known (by decide) (h.not_fresh hi hpc hkey))
  · obtain rfl := Option.some.inj ((if_neg hkey).symm.trans hstep)
    have hfresh : search.Fresh s.base job := fun hbase => hkey (h.base hbase)
    refine h.move hi hpc rfl rfl rfl rfl nofun (Or.inr ⟨rfl, rfl⟩)
      (fun _ hnode => Or.inl hnode)
      (fun _ _ _ _ => ⟨rfl, Finset.subset_insert _ _, rfl, id, id, id, rfl, id⟩)
      ⟨?_, ?_, ?_, ?_, ?_, ?_, ?_, ?_, ?_⟩ (fun _ hg => Or.inl hg) (fun _ hf => Or.inl hf)
    · exact fun _ => ⟨hfresh, Finset.mem_insert_self _ _⟩
    · exact nofun
    · exact nofun
    · exact nofun
    · exact nofun
    · exact nofun
    · exact fun _ => hjob.no_next nofun
    · intro _
      refine ⟨fun hmem => ?_, fun hmem => hkey (h.initial hmem)⟩
      obtain ⟨node, hnode, hk⟩ := List.mem_map.1 hmem
      exact hkey (hk ▸ h.visits node hnode)
    · exact nofun

/-- the job behind `visit` -/
theorem LevelInv.step_visiting (hpc : s.pcs[i]? = some .visiting)
    (hstep : search.stepJob i job s .visiting = some s') : LevelInv search s' := by
  obtain rfl := Option.some.inj hstep
  have hjob := h.jobs i job .visiting hi hpc
  obtain ⟨hfresh, hkey⟩ := hjob.inside rfl
  have hpast : ∀ pc', (pc' = .load .goal ∧ search.Stops job) ∨
      (pc' = .load .fallback ∧ search.Results job ∧ ¬search.Stops job ∧ s.fallback = none) ∨
      (pc' = .check ∧ ¬search.Stops job ∧
        (search.Results job → s.fallback = none → reached s.lowestFallback i = true)) →
      JobInv search s i job pc' ∧ pc'.entered = true := by
    intro pc' hcases
    rcases hcases with ⟨rfl, hstop⟩ | ⟨rfl, hfall⟩ | ⟨rfl, hpast⟩
    · exact ⟨hjob.forward (by decide) ⟨hfresh, hkey⟩ (by decide) (by decide) (fun _ => hstop)
        nofun nofun nofun, rfl⟩
    · exact ⟨hjob.forward (by decide) ⟨hfresh, hkey⟩ (by decide) (by decide) nofun
        (fun _ => hfall) nofun nofun, rfl⟩
    · exact ⟨hjob.forward (by decide) ⟨hfresh, hkey⟩ (by decide) (by decide) nofun
        nofun (fun _ => hpast) nofun, rfl⟩
  have hafter := hpast (Search.afterVisit s.fallback.isSome (search.visit job.node)) (by
    rcases hv : search.visit job.node with ⟨isResult, stop⟩
    cases isResult with
    | false =>
      refine Or.inr (Or.inr ⟨rfl, fun e => ?_, fun e => ?_⟩)
      · rw [Search.Stops, hv] at e
        exact nomatch e
      · rw [Search.Results, hv] at e
        exact nomatch e
    | true =>
      have hres : search.Results job := by rw [Search.Results, hv]
      cases stop with
      | true => exact Or.inl ⟨rfl, hv⟩
      | false =>
        have hno : ¬search.Stops job := fun e => by
          rw [Search.Stops, hv] at e
          exact nomatch e
        cases hfall : s.fallback with
        | none => exact Or.inr (Or.inl ⟨rfl, hres, hno, rfl⟩)
        | some f => exact Or.inr (Or.inr ⟨rfl, hno, nofun⟩))
  obtain ⟨hnew, hent⟩ := hafter
  have hno : Search.afterVisit s.fallback.isSome (search.visit job.node) ≠ .visiting := by
    unfold Search.afterVisit
    split
    · decide
    · split <;> decide
    · decide
  refine h.move hi hpc rfl rfl rfl rfl (fun _ => hent) (Or.inl rfl) (fun node hnode => ?_)
    (fun j job' hji hj => ?_)
    ⟨hnew.inside, hnew.goal, hnew.fallback, hnew.past, hnew.done_stops, hnew.done_next, hnew.no_next,
      fun e => absurd e hno, hnew.swap⟩
    (fun _ hg => Or.inl hg) (fun _ hf => Or.inl hf)
  · rcases List.mem_cons.1 hnode with rfl | hnode
    · exact Or.inr hkey
    · exact Or.inl hnode
  · refine ⟨rfl, Finset.Subset.refl _, rfl, id, id, id, rfl, fun hmem hmem' => ?_⟩
    rcases List.mem_cons.1 hmem' with hk | hmem'
    · exact hji (h.index_inj hj hi hk)
    · exact hmem hmem'

/-- the load in `update_min` -/
theorem LevelInv.step_load {target : Target} (hpc : s.pcs[i]? = some (.load target))
    (hstep : search.stepJob i job s (.load target) = some s') : LevelInv search s' := by
  obtain rfl := Option.some.inj hstep
  have hjob := h.jobs i job (.load target) hi hpc
  by_cases hlow : ((s.lowest target).any fun l => l < i) = true
  · rw [if_pos hlow]
    obtain ⟨l, hl, hli⟩ := below_cases hlow
    cases target with
    | goal =>
      have hl : s.lowestGoal = some l := hl
      have hgoal : reached s.lowestGoal i = true := by
        rw [hl]
        exact reached_of_le hli.le
      exact h.setPc hi hpc (fun _ => rfl) (hjob.done_of_goal nofun hgoal)
    | fallback =>
      have hl : s.lowestFallback = some l := hl
      refine h.setPc hi hpc (fun _ => rfl) (hjob.forward nofun (hjob.inside rfl) (by decide)
        (by decide) nofun nofun (fun _ => ⟨(hjob.fallback rfl).2.1, ?_⟩) nofun)
      intro _ _
      rw [hl]
      exact reached_of_le hli.le
  · rw [if_neg hlow]
    refine h.setPc hi hpc (fun _ => rfl) (hjob.forward nofun (hjob.inside rfl)
      nofun nofun hjob.goal hjob.fallback nofun ?_)
    intro t c e
    rw [← (Pc.swap.inj e).2]
    exact hlow

/-- the exchange in `update_min` -/
theorem LevelInv.step_swap {target : Target} {current : Option Nat}
    (hpc : s.pcs[i]? = some (.swap target current))
    (hstep : search.stepJob i job s (.swap target current) = some s') : LevelInv search s' := by
  have hjob := h.jobs i job (.swap target current) hi hpc
  by_cases hcurrent : s.lowest target = current
  · obtain rfl := Option.some.inj ((if_pos hcurrent).symm.trans hstep)
    have hlow : ¬((s.lowest target).any fun l => l < i) = true := by
      rw [hcurrent]
      exact hjob.swap target current rfl
    cases target with
    | goal =>
      have hlow : ¬(s.lowestGoal.any fun l => l < i) = true := hlow
      refine h.move hi hpc rfl rfl rfl rfl (fun _ => rfl) (Or.inl rfl) (fun _ hnode => Or.inl hnode)
        (fun _ _ _ _ => ⟨rfl, Finset.Subset.refl _, rfl, reached_lowered hlow, nofun, id, rfl, id⟩) ?_ (fun g hg => ?_) (fun _ hf => Or.inl hf)
      · have hself : reached (some i) i = true := reached_of_le le_rfl
        exact ⟨nofun, nofun, nofun, nofun, fun _ _ _ => hself, nofun, fun _ => hjob.no_next nofun,
          nofun, nofun⟩
      · exact Or.inr ⟨(Option.some.inj hg).symm, (hjob.inside rfl).1, hjob.goal rfl⟩
    | fallback =>
      have hlow : ¬(s.lowestFallback.any fun l => l < i) = true := hlow
      refine h.move hi hpc rfl rfl rfl rfl (fun _ => rfl) (Or.inl rfl) (fun _ hnode => Or.inl hnode)
        (fun _ _ _ _ => ⟨rfl, Finset.Subset.refl _, rfl, id, id, reached_lowered hlow, rfl, id⟩) ?_
        (fun _ hg => Or.inl hg) (fun f hf => ?_)
      · have hself : reached (some i) i = true := reached_of_le le_rfl
        exact ⟨fun _ => hjob.inside rfl, nofun, nofun, fun _ => ⟨(hjob.fallback rfl).2.1, fun _ _ => hself⟩,
          nofun, nofun, fun _ => hjob.no_next nofun, nofun, nofun⟩
      · exact Or.inr ⟨(Option.some.inj hf).symm, (hjob.inside rfl).1, (hjob.fallback rfl).1⟩
  · obtain rfl := Option.some.inj ((if_neg hcurrent).symm.trans hstep)
    exact h.setPc hi hpc (fun _ => rfl) (hjob.forward nofun (hjob.inside rfl)
      nofun nofun hjob.goal hjob.fallback nofun nofun)

theorem LevelInv.step_check (hpc : s.pcs[i]? = some .check)
    (hstep : search.stepJob i job s .check = some s') : LevelInv search s' := by
  obtain rfl := Option.some.inj hstep
  have hjob := h.jobs i job .check hi hpc
  by_cases hgoal : reached s.lowestGoal i = true
  · rw [if_pos hgoal]
    exact h.setPc hi hpc (fun _ => rfl) (hjob.done_of_goal (by decide) hgoal)
  · rw [if_neg hgoal]
    exact h.setPc hi hpc (fun _ => rfl) (hjob.forward (by decide) (hjob.inside rfl) (by decide)
      (by decide) nofun nofun (fun _ => hjob.past rfl) nofun)

theorem LevelInv.step_expand (hpc : s.pcs[i]? = some .expand)
    (hstep : search.stepJob i job s .expand = some s') : LevelInv search s' := by
  obtain rfl := Option.some.inj hstep
  have hjob := h.jobs i job .expand hi hpc
  have hlt : i < s.next.length := by
    rw [h.next_length]
    exact (List.getElem?_eq_some_iff.1 hi).1
  obtain ⟨hfresh, hkey⟩ := hjob.inside rfl
  refine h.move hi hpc rfl rfl rfl (List.length_set ..) (fun _ => rfl) (Or.inl rfl)
    (fun _ hnode => Or.inl hnode) (fun j _ hji _ => ⟨rfl, Finset.Subset.refl _, rfl, id, id, id, ?_, id⟩)
    ⟨nofun, nofun, nofun, nofun, ?_, ?_, ?_, nofun, nofun⟩ (fun _ hg => Or.inl hg) (fun _ hf => Or.inl hf)
  · exact List.getElem?_set_ne (Ne.symm hji)
  · exact fun _ _ hstop => absurd hstop (hjob.past rfl).1
  · exact fun _ _ _ => ⟨hkey, List.getElem?_set_self hlt, (hjob.past rfl).2⟩
  · exact fun e => absurd hfresh (e rfl)

/-- **a step of a job keeps the invariant of the level** -/
theorem LevelInv.stepJob {pc : Pc} (hpc : s.pcs[i]? = some pc)
    (hstep : search.stepJob i job s pc = some s') : LevelInv search s' := by
  cases pc with
  | start => exact h.step_start hi hpc hstep
  | enter => exact h.step_enter hi hpc hstep
  | visiting => exact h.step_visiting hi hpc hstep
  | load target => exact h.step_load hi hpc hstep
  | swap target current => exact h.step_swap hi hpc hstep
  | check => exact h.step_check hi hpc hstep
  | expand => exact h.step_expand hi hpc hstep
  | done => exact nomatch hstep

end

/-! ## the end of a level -/

section
variable {s : State N K} (h : LevelInv search s) (hdone : ∀ pc ∈ s.pcs, pc = .done)
include h hdone

theorem LevelInv.done_job {i : Nat} {job : Job N} (hi : s.level[i]? = some job) :
    JobInv search s i job .done := by
  have hlt : i < s.pcs.length := by
    rw [h.pcs_length]
    exact (List.getElem?_eq_some_iff.1 hi).1
  have hpc : s.pcs[i]? = some s.pcs[i] := List.getElem?_eq_getElem hlt
  have hj := h.jobs i job _ hi hpc
  rw [hdone s.pcs[i] (List.getElem_mem hlt)] at hj
  exact hj

/-- a goal: the first stopping job of the level -/
theorem joined_goal {g : Nat} (hg : s.lowestGoal = some g) (fallback : Option (Nat × Job N)) :
    ∃ job, s.level[g]? = some job ∧
      search.levelInOrder s.depth s.level [] s.base fallback = .stop job := by
  obtain ⟨job, hjob, hfresh, hstop⟩ := h.goal g hg
  obtain ⟨hlt, heq⟩ := List.getElem?_eq_some_iff.1 hjob
  refine ⟨job, hjob, ?_⟩
  have hsplit : s.level = s.level.take g ++ job :: s.level.drop (g + 1) := by
    rw [← heq, List.getElem_cons_drop, List.take_append_drop]
  have hbefore : ∀ x ∈ s.level.take g, search.Fresh s.base x → ¬search.Stops x := by
    intro x hx hxfresh hxstop
    obtain ⟨i, hi, hxi⟩ := List.mem_take_iff_getElem.1 hx
    have hxi : s.level[i]? = some x := by
      rw [List.getElem?_eq_getElem (by omega), hxi]
    have hreached := (h.done_job hdone hxi).done_stops rfl hxfresh hxstop
    rw [hg] at hreached
    obtain ⟨l, hl, hli⟩ := reached_cases hreached
    have := Option.some.inj hl
    omega
  have hdistinct := h.distinct
  rw [hsplit] at hdistinct ⊢
  exact Search.levelInOrder_stop hdistinct hbefore hfresh hstop

/-- no goal: no job of the level stops the search -/
theorem joined_no_stop (hg : s.lowestGoal = none) :
    ∀ job ∈ s.level, search.Fresh s.base job → ¬search.Stops job := by
  intro job hjob hfresh hstop
  obtain ⟨i, hi, rfl⟩ := List.mem_iff_getElem.1 hjob
  have hreached := (h.done_job hdone (List.getElem?_eq_getElem hi)).done_stops rfl hfresh hstop
  rw [hg] at hreached
  exact nomatch hreached

theorem joined_visited (hg : s.lowestGoal = none) :
    s.visited = s.base ∪ ((s.level.filter fun job => search.Fresh s.base job).map search.key).toFinset := by
  ext k
  rw [Finset.mem_union, List.mem_toFinset, List.mem_map]
  constructor
  · intro hk
    by_cases hbase : k ∈ s.base
    · exact Or.inl hbase
    · refine Or.inr ?_
      rcases h.visited k hk with hk | ⟨i, job, pc, hi, -, hkey, -⟩
      · exact absurd hk hbase
      · refine ⟨job, List.mem_filter.2 ⟨List.mem_of_getElem? hi, ?_⟩, hkey⟩
        rw [← hkey] at hbase
        exact decide_eq_true hbase
  · intro hk
    rcases hk with hk | ⟨job, hjob, rfl⟩
    · exact h.base hk
    · obtain ⟨hmem, hfresh⟩ := List.mem_filter.1 hjob
      obtain ⟨i, hi, rfl⟩ := List.mem_iff_getElem.1 hmem
      exact ((h.done_job hdone (List.getElem?_eq_getElem hi)).done_next rfl (of_decide_eq_true hfresh) hg).1

omit h hdone in
theorem flatten_map_filter {α β : Type} (p : α → Bool) (f : α → List β) (l : List α) :
    (l.map fun a => if p a then f a else []).flatten = (l.filter p).flatMap f := by
  induction l with
  | nil => rfl
  | cons a l ih =>
    rw [List.map_cons, List.flatten_cons, ih]
    cases hp : p a with
    | true => rw [List.filter_cons_of_pos hp, List.flatMap_cons, if_pos rfl]
    | false => rw [List.filter_cons_of_neg (by simp [hp]), if_neg Bool.false_ne_true, List.nil_append]

theorem joined_next (hg : s.lowestGoal = none) :
    s.next.flatten = (s.level.filter fun job => search.Fresh s.base job).flatMap search.children := by
  rw [← flatten_map_filter]
  congr 1
  refine List.ext_getElem? fun i => ?_
  rw [List.getElem?_map]
  cases hi : s.level[i]? with
  | none =>
    rw [List.getElem?_eq_none_iff] at hi
    rw [Option.map_none, List.getElem?_eq_none_iff, h.next_length]
    exact hi
  | some job =>
    have hj := h.done_job hdone hi
    rw [Option.map_some]
    by_cases hfresh : search.Fresh s.base job
    · rw [if_pos (decide_eq_true hfresh)]
      exact (hj.done_next rfl hfresh hg).2.1
    · rw [if_neg (by simpa using hfresh)]
      exact hj.no_next fun _ => hfresh

/-- the fallback of the level is the first job with a result -/
theorem joined_fallback (hg : s.lowestGoal = none) (hfall : s.fallback = none) :
    (s.lowestFallback.bind fun i => s.level[i]?) =
      s.level.find? fun job => search.Fresh s.base job ∧ search.Results job := by
  have hfirst : ∀ (i : Nat) (job : Job N), s.level[i]? = some job → search.Fresh s.base job →
      search.Results job → reached s.lowestFallback i = true := fun i job hi hfresh hres =>
    ((h.done_job hdone hi).done_next rfl hfresh hg).2.2 hres hfall
  symm
  cases hf : s.lowestFallback with
  | none =>
    rw [Option.bind_none, List.find?_eq_none]
    intro job hjob hp
    obtain ⟨hfresh, hres⟩ := of_decide_eq_true hp
    obtain ⟨i, hi, rfl⟩ := List.mem_iff_getElem.1 hjob
    have hreached := hfirst i _ (List.getElem?_eq_getElem hi) hfresh hres
    rw [hf] at hreached
    exact nomatch hreached
  | some f =>
    obtain ⟨job, hjob, hfresh, hres⟩ := h.fallback f hf
    obtain ⟨hlt, heq⟩ := List.getElem?_eq_some_iff.1 hjob
    rw [Option.bind_some, hjob, List.find?_eq_some_iff_getElem]
    refine ⟨by simp [hfresh, hres], f, hlt, heq, fun j hj => ?_⟩
    rw [Bool.not_eq_true', decide_eq_false_iff_not]
    intro ⟨hxfresh, hxres⟩
    have hreached := hfirst j _ (List.getElem?_eq_getElem (by omega)) hxfresh hxres
    rw [hf] at hreached
    obtain ⟨l, hl, hlj⟩ := reached_cases hreached
    have := Option.some.inj hl
    omega

/-- **a level without a goal ends like the level in index order** -/
theorem joined_level (hg : s.lowestGoal = none) {fallback : Option (Nat × Job N)}
    (hfall : s.fallback = fallback.map Prod.snd) :
    ∃ fallback', search.levelInOrder s.depth s.level [] s.base fallback =
        .next s.next.flatten s.visited fallback' ∧
      Search.fallbackOf s = fallback'.map Prod.snd := by
  refine ⟨fallback.or ((s.level.find? fun job => search.Fresh s.base job ∧ search.Results job).map
    fun job => (s.depth, job)), ?_, ?_⟩
  · rw [Search.levelInOrder_next h.distinct (joined_no_stop h hdone hg), ← joined_next h hdone hg,
      ← joined_visited h hdone hg]
  · unfold Search.fallbackOf
    cases fallback with
    | some pair =>
      rw [hfall]
      rfl
    | none =>
      rw [hfall]
      have hfall : s.fallback = none := hfall
      show (s.lowestFallback.bind fun i => s.level[i]?) = _
      rw [joined_fallback h hdone hg hfall, Option.none_or, Option.map_map]
      exact Option.map_id.symm ▸ rfl

end

end Tsr.Core.Bfs
