import Tsr.Build.Watch

/-!
# Skipped projects in watch mode

A task whose status is `upstreamErrors` is skipped, and is not examined again until the task it
names is built.  `Justified` asks that a skipped task has a reference with an error after every
cycle.  `pseudoBuild_keeps_skipped` is a run of three projects where it has none: a project that is
found up to date, without being compiled, does not wake the projects that reference it.

`meets` is what a step has to meet so that this does not happen; `justified_of_meets` carries
`Justified` along every run whose steps meet it.
-/

set_option linter.unusedSectionVars false

namespace Tsr.Build
open Tsr.Lib.Run

section
variable {P : Type} [DecidableEq P] (host : Host P) (opts : Options)

/-! ## The property and the condition -/

/-- every skipped task has a direct reference whose task has an error -/
def Justified (o : Orchestrator P) : Prop :=
  ∀ p t s, o.tasks p = some t → t.status = some s → s.kind = .upstreamErrors →
    ∃ r ∈ t.references, o.hasError (host.project r) = true

/-- the status says that the task is skipped because of `p` -/
def names (p : P) (s : Status) : Bool :=
  decide (s.kind = .upstreamErrors) && decide (host.project s.input = p)

/-- some task is skipped because of `p` -/
def named (o : Orchestrator P) (p : P) : Bool :=
  o.order.any fun d => (o.tasks d).any fun t => t.status.any (names host p)

/-- nothing is compiled although there is no error -/
def foundUpToDate (o : Orchestrator P) (p : P) (t : Task) (inspection : Inspection) : Bool :=
  opts.dry || (t.status.isNone && t.resolved.any fun config => config.isSolution ||
    ((upstreamError opts o config (o.upstream p)).isNone && !opts.force &&
      inspection.val.isUpToDate))

/-- a task that others are skipped for is not found up to date; a new graph keeps the edges that
skipped tasks name; a circular graph does not come while such a task waits to be examined -/
def meets : Action P → Orchestrator P → Bool
  | .build p outcome, o => (o.tasks p).all fun t =>
    !(named host o p && t.pending && !outcome.fails && foundUpToDate opts o p t outcome.inspection)
  | .regenerate graph, o => (graph.order.map host.path).all fun p =>
    (reusable o true p).all fun t => t.status.all fun s => decide (s.kind ≠ .upstreamErrors) ||
      ((edges host graph p t).any fun e => decide (e.1 = host.project s.input)) &&
        decide (host.project s.input ∈ graph.order.map host.path)
  | .beginBuild, o => !o.errors || o.order.all fun p =>
    !named host o p || (o.tasks p).all fun t => t.status.isSome
  | _, _ => true

/-! ## The invariant -/

structure Inv (o : Orchestrator P) : Prop where
  mem : ∀ p t, o.tasks p = some t → p ∈ o.order
  key : ∀ p t, o.tasks p = some t → host.path t.config = p
  edge : ∀ p e, e ∈ o.upstream p → ∃ t r, o.tasks p = some t ∧ t.references[e.2]? = some r ∧
    host.project r = e.1
  pending : ∀ p t, o.tasks p = some t → t.status = none → t.pending = true
  visited : o.phase = .building → ∀ p, o.done p = true → ∃ t, o.tasks p = some t ∧
    t.status ≠ none ∧ t.initialCycle = false ∧ ∀ e ∈ o.upstream p, o.done e.1 = true
  skipped : ∀ p t s, o.tasks p = some t → t.status = some s → s.kind = .upstreamErrors →
    ∃ k u, (host.project s.input, k) ∈ o.upstream p ∧ o.tasks (host.project s.input) = some u ∧
      u.initialCycle = false ∧ (u.hasError = true ∨ u.status = none)
  settled : o.phase = .completed → ∀ p t s, o.tasks p = some t → t.status = some s →
    s.kind = .upstreamErrors → o.hasError (host.project s.input) = true

theorem inv_init : Inv host (Orchestrator.init : Orchestrator P) where
  mem := fun p t h => by cases h
  key := fun p t h => by cases h
  edge := fun p e h => by cases h
  pending := fun p t h => by cases h
  visited := fun h => by cases h
  skipped := fun p t s h => by cases h
  settled := fun h => by cases h

theorem names_iff (p : P) (s : Status) :
    names host p s = true ↔ s.kind = .upstreamErrors ∧ host.project s.input = p := by
  simp [names]

theorem named_of_mem {o : Orchestrator P} (hmem : ∀ p t, o.tasks p = some t → p ∈ o.order)
    (d p : P) (t : Task) (s : Status) (ht : o.tasks d = some t) (hs : t.status = some s)
    (hkind : s.kind = .upstreamErrors) (hp : host.project s.input = p) : named host o p = true := by
  refine List.any_eq_true.2 ⟨d, hmem d t ht, ?_⟩
  rw [ht]
  simp only [Option.any_some]
  rw [hs]
  exact (names_iff host p s).2 ⟨hkind, hp⟩

theorem hasError_of_task {o : Orchestrator P} (p : P) (t : Task) (h : o.tasks p = some t) :
    o.hasError p = t.hasError := by
  unfold Orchestrator.hasError
  rw [h]
  rfl

theorem justified_of_inv (o : Orchestrator P) (ho : Inv host o) (hphase : o.phase = .completed) :
    Justified host o := by
  intro p t s ht hs hkind
  obtain ⟨k, u, hedge, -, -, -⟩ := ho.skipped p t s ht hs hkind
  obtain ⟨t', r, ht', hr, hproj⟩ := ho.edge p _ hedge
  rw [ht] at ht'
  cases ht'
  refine ⟨r, List.mem_of_getElem? hr, ?_⟩
  rw [hproj]
  exact ho.settled hphase p t s ht hs hkind

/-! ## A new graph -/

theorem graphTask_eq_some (o : Orchestrator P) (graph : GraphInput P) (initial : Bool) (p : P)
    (t : Task) (h : graphTask host o graph initial p = some t) :
    p ∈ graph.order.map host.path ∧ (reusable o (!initial) p = some t ∨
      ∃ name, host.path name = p ∧ t = Task.new name (graph.parsed name) initial) := by
  unfold graphTask at h
  obtain ⟨name, hname, ht⟩ := Option.map_eq_some_iff.1 h
  have hpath : host.path name = p := by simpa using List.find?_some hname
  refine ⟨List.mem_map.2 ⟨name, List.mem_of_find?_eq_some hname, hpath⟩, ?_⟩
  cases hr : reusable o (!initial) p with
  | none =>
    rw [hr] at ht
    exact Or.inr ⟨name, hpath, ht.symm⟩
  | some t' =>
    rw [hr] at ht
    cases ht
    exact Or.inl rfl

theorem graphTask_isSome (o : Orchestrator P) (graph : GraphInput P) (initial : Bool) (p : P)
    (h : p ∈ graph.order.map host.path) : ∃ t, graphTask host o graph initial p = some t := by
  obtain ⟨name, hmem, hpath⟩ := List.mem_map.1 h
  unfold graphTask
  cases hf : graph.order.find? fun name => decide (host.path name = p) with
  | none =>
    have hnot := List.find?_eq_none.1 hf name hmem
    simp [hpath] at hnot
  | some name' => exact ⟨_, rfl⟩

theorem reusable_eq_some (o : Orchestrator P) (reuse : Bool) (p : P) (t : Task)
    (h : reusable o reuse p = some t) : reuse = true ∧ o.tasks p = some t ∧ t.dirty = false := by
  unfold reusable at h
  split at h
  next hreuse =>
    obtain ⟨h1, h2⟩ := Option.filter_eq_some_iff.1 h
    exact ⟨hreuse, h1, by simpa using h2⟩
  next => cases h

theorem mem_edges (graph : GraphInput P) (p : P) (t : Task) (e : P × Nat)
    (h : e ∈ edges host graph p t) : ∃ r, t.references[e.2]? = some r ∧ host.project r = e.1 := by
  unfold edges at h
  obtain ⟨⟨r, k⟩, hmem, hr⟩ := List.mem_filterMap.1 h
  split at hr
  next => cases hr
  next =>
    cases hr
    exact ⟨r, by simpa [List.mem_zipIdx_iff_getElem?] using hmem, rfl⟩

/-- what is left for a new graph is the edge of every skipped task that it keeps -/
theorem generateGraph_inv (o : Orchestrator P) (ho : Inv host o) (graph : GraphInput P)
    (initial : Bool)
    (hkeep : ∀ p t s, p ∈ graph.order.map host.path → reusable o (!initial) p = some t →
      t.status = some s → s.kind = .upstreamErrors →
      (∃ k, (host.project s.input, k) ∈ edges host graph p t) ∧
        host.project s.input ∈ graph.order.map host.path) :
    Inv host (generateGraph host o graph initial) where
  mem := fun p t h => (graphTask_eq_some host o graph initial p t h).1
  key := by
    intro p t h
    rcases (graphTask_eq_some host o graph initial p t h).2 with hr | ⟨name, hname, rfl⟩
    · exact ho.key p t (reusable_eq_some o _ p t hr).2.1
    · exact hname
  edge := by
    intro p e he
    simp only [generateGraph] at he
    split at he
    next t ht =>
      obtain ⟨r, hr, hproj⟩ := mem_edges host graph p t e he
      exact ⟨t, r, ht, hr, hproj⟩
    next => cases he
  pending := by
    intro p t h hnone
    rcases (graphTask_eq_some host o graph initial p t h).2 with hr | ⟨name, -, rfl⟩
    · exact ho.pending p t (reusable_eq_some o _ p t hr).2.1 hnone
    · rfl
  visited := fun h => by cases h
  skipped := by
    intro p t s ht hs hkind
    obtain ⟨hp, h⟩ := graphTask_eq_some host o graph initial p t ht
    rcases h with hr | ⟨name, -, rfl⟩
    · obtain ⟨⟨k, hedge⟩, hmem⟩ := hkeep p t s hp hr hs hkind
      obtain ⟨u, hu⟩ := graphTask_isSome host o graph initial _ hmem
      refine ⟨k, u, ?_, hu, ?_⟩
      · have ht' : graphTask host o graph initial p = some t := ht
        simp only [generateGraph, ht']
        exact hedge
      · obtain ⟨hinitial, htask, -⟩ := reusable_eq_some o _ p t hr
        have hnot : initial = false := by simpa using hinitial
        obtain ⟨-, u', -, hu', hcycle, hstatus⟩ := ho.skipped p t s htask hs hkind
        rcases (graphTask_eq_some host o graph initial _ u hu).2 with hur | ⟨name, -, rfl⟩
        · rw [(reusable_eq_some o _ _ u hur).2.1] at hu'
          cases hu'
          exact ⟨hcycle, hstatus⟩
        · exact ⟨hnot, Or.inr rfl⟩
    · cases hs
  settled := fun h => by cases h

/-! ## Events -/

theorem references_applyEvent (t : Task) (e : Event) : (applyEvent t e).references = t.references := by
  cases e with
  | reset => rfl
  | markDirty => rfl
  | reloadFileNames rootFileNames =>
    unfold applyEvent Task.references Task.resetStatus
    cases t.resolved with
    | none => rfl
    | some config => rfl

theorem applyEvent_frame (t : Task) (e : Event) : (applyEvent t e).config = t.config ∧
    (applyEvent t e).initialCycle = t.initialCycle ∧
    ((applyEvent t e).status = none ∧ (applyEvent t e).pending = true ∨
      (applyEvent t e).status = t.status ∧ (applyEvent t e).pending = t.pending) := by
  cases e with
  | reset => exact ⟨rfl, rfl, Or.inl ⟨rfl, rfl⟩⟩
  | markDirty => exact ⟨rfl, rfl, Or.inr ⟨rfl, rfl⟩⟩
  | reloadFileNames rootFileNames => exact ⟨rfl, rfl, Or.inl ⟨rfl, rfl⟩⟩

theorem setTask_cases (o : Orchestrator P) (p : P) (t : Task) (d : P) (t' : Task)
    (h : (o.setTask p t).tasks d = some t') : (d = p ∧ t' = t) ∨ (d ≠ p ∧ o.tasks d = some t') := by
  unfold Orchestrator.setTask at h
  by_cases hd : d = p
  · subst hd
    simp only [Function.update_self, Option.some.injEq] at h
    exact Or.inl ⟨rfl, h.symm⟩
  · simp only [Function.update_of_ne hd] at h
    exact Or.inr ⟨hd, h⟩

theorem setTask_self (o : Orchestrator P) (p : P) (t : Task) :
    (o.setTask p t).tasks p = some t := Function.update_self _ _ _

theorem setTask_ne (o : Orchestrator P) (p d : P) (t : Task) (h : d ≠ p) :
    (o.setTask p t).tasks d = o.tasks d := Function.update_of_ne h _ _

theorem event_inv (o : Orchestrator P) (ho : Inv host o) (p : P) (t : Task)
    (ht : o.tasks p = some t) (e : Event) :
    Inv host { o.setTask p (applyEvent t e) with phase := .watching } where
  mem := by
    intro d t' h
    rcases setTask_cases o p _ d t' h with ⟨rfl, -⟩ | ⟨-, h'⟩
    · exact ho.mem d t ht
    · exact ho.mem d t' h'
  key := by
    intro d t' h
    rcases setTask_cases o p _ d t' h with ⟨rfl, rfl⟩ | ⟨-, h'⟩
    · rw [(applyEvent_frame t e).1]
      exact ho.key d t ht
    · exact ho.key d t' h'
  edge := by
    intro d e' he
    obtain ⟨t', r, ht', hr, hproj⟩ := ho.edge d e' he
    by_cases hd : d = p
    · subst hd
      rw [ht] at ht'
      cases ht'
      exact ⟨_, r, setTask_self o d _, by rw [references_applyEvent]; exact hr, hproj⟩
    · exact ⟨t', r, (setTask_ne o p d _ hd).trans ht', hr, hproj⟩
  pending := by
    intro d t' h hnone
    rcases setTask_cases o p _ d t' h with ⟨rfl, rfl⟩ | ⟨-, h'⟩
    · rcases (applyEvent_frame t e).2.2 with h1 | h1
      · exact h1.2
      · rw [h1.2]
        exact ho.pending d t ht (h1.1.symm.trans hnone)
    · exact ho.pending d t' h' hnone
  visited := fun h => by cases h
  skipped := by
    intro d t' s h hs hkind
    obtain ⟨td, htd, hsd⟩ : ∃ td, o.tasks d = some td ∧ td.status = some s := by
      rcases setTask_cases o p _ d t' h with ⟨rfl, rfl⟩ | ⟨-, h'⟩
      · rcases (applyEvent_frame t e).2.2 with h1 | h1
        · rw [h1.1] at hs
          cases hs
        · exact ⟨t, ht, h1.1.symm.trans hs⟩
      · exact ⟨t', h', hs⟩
    obtain ⟨k, u, hedge, hu, hcycle, hstatus⟩ := ho.skipped d td s htd hsd hkind
    by_cases hp : host.project s.input = p
    · rw [hp, ht] at hu
      cases hu
      refine ⟨k, applyEvent t e, hedge, by rw [hp]; exact setTask_self o p _, ?_, ?_⟩
      · rw [(applyEvent_frame t e).2.1]
        exact hcycle
      · rcases (applyEvent_frame t e).2.2 with h1 | h1
        · exact Or.inr h1.1
        · unfold Task.hasError
          rw [h1.1]
          exact hstatus
    · exact ⟨k, u, hedge, (setTask_ne o p _ _ hp).trans hu, hcycle, hstatus⟩
  settled := fun h => by cases h

/-! ## Cycles begin and end -/

theorem finishBuild_inv (o : Orchestrator P) (ho : Inv host o) (hphase : o.phase = .building)
    (hdone : ∀ p ∈ o.order, o.done p = true) : Inv host { o with phase := .completed } where
  mem := ho.mem
  key := ho.key
  edge := ho.edge
  pending := ho.pending
  visited := fun h => by cases h
  skipped := ho.skipped
  settled := by
    intro _ p t s ht hs hkind
    obtain ⟨-, u, -, hu, -, hstatus⟩ := ho.skipped p t s ht hs hkind
    -- the task it names was visited too, so it has a status
    obtain ⟨u', hu', hsome, -, -⟩ := ho.visited hphase _ (hdone _ (ho.mem _ u hu))
    rw [hu] at hu'
    cases hu'
    rcases hstatus with h | h
    · exact (hasError_of_task _ u hu).trans h
    · exact absurd h hsome

theorem beginBuild_inv (o : Orchestrator P) (ho : Inv host o) :
    Inv host { o with done := fun _ => false, phase := .building } where
  mem := ho.mem
  key := ho.key
  edge := ho.edge
  pending := ho.pending
  visited := fun _ p h => by cases h
  skipped := ho.skipped
  settled := fun h => by cases h

theorem circular_inv (o : Orchestrator P) (ho : Inv host o)
    (hsome : ∀ p ∈ o.order, named host o p = true → ∀ t, o.tasks p = some t → t.status ≠ none) :
    Inv host { o with phase := .completed } where
  mem := ho.mem
  key := ho.key
  edge := ho.edge
  pending := ho.pending
  visited := fun h => by cases h
  skipped := ho.skipped
  settled := by
    intro _ p t s ht hs hkind
    obtain ⟨-, u, -, hu, -, hstatus⟩ := ho.skipped p t s ht hs hkind
    have hnamed := named_of_mem host ho.mem p _ t s ht hs hkind rfl
    rcases hstatus with h | h
    · exact (hasError_of_task _ u hu).trans h
    · exact absurd h (hsome _ (ho.mem _ u hu) hnamed u hu)

/-! ## What a build does to the tasks that reference it -/

/-- the build of another project can wake a task or mark it, no more -/
structure Touched (t t' : Task) : Prop where
  config : t'.config = t.config
  resolved : t'.resolved = t.resolved
  initialCycle : t'.initialCycle = t.initialCycle
  pending : t.pending = true → t'.pending = true
  none_pending : t'.status = none → t.status = none ∨ t'.pending = true
  keeps_none : t.status = none → t'.status = none
  keeps_error : t.hasError = true → t'.hasError = true ∨ t'.status = none
  skipped : ∀ s, t'.status = some s → s.kind = .upstreamErrors → t.status = some s

theorem Touched.refl (t : Task) : Touched t t :=
  ⟨rfl, rfl, rfl, id, Or.inl, id, Or.inl, fun _ hs _ => hs⟩

theorem Touched.trans {t1 t2 t3 : Task} (h : Touched t1 t2) (h' : Touched t2 t3) : Touched t1 t3 where
  config := h'.config.trans h.config
  resolved := h'.resolved.trans h.resolved
  initialCycle := h'.initialCycle.trans h.initialCycle
  pending := fun hp => h'.pending (h.pending hp)
  none_pending := by
    intro hnone
    rcases h'.none_pending hnone with h2 | h2
    · rcases h.none_pending h2 with h1 | h1
      · exact Or.inl h1
      · exact Or.inr (h'.pending h1)
    · exact Or.inr h2
  keeps_none := fun hn => h'.keeps_none (h.keeps_none hn)
  keeps_error := by
    intro he
    rcases h.keeps_error he with h1 | h1
    · exact h'.keeps_error h1
    · exact Or.inr (h'.keeps_none h1)
  skipped := fun s hs hk => h.skipped s (h'.skipped s hs hk) hk

theorem not_isError_of_isUpToDate (s : Status) (h : s.isUpToDate = true) : s.isError = false := by
  unfold Status.isUpToDate at h
  unfold Status.isError
  split at h <;> simp_all

theorem touch_touched (config : String) (program : Option Bool) (t : Task) :
    Touched t (touch host config program t) := by
  cases program with
  | none =>
    exact ⟨rfl, rfl, rfl, fun _ => rfl, fun _ => Or.inr rfl, fun _ => rfl, fun _ => Or.inr rfl,
      fun s hs => by cases hs⟩
  | some changedDts =>
    refine ⟨rfl, rfl, rfl, fun _ => rfl, fun _ => Or.inr rfl, ?_, ?_, ?_⟩
    · intro hnone
      simp only [touch, hnone]
    · intro herr
      unfold Task.hasError at herr ⊢
      cases hst : t.status with
      | none =>
        rw [hst] at herr
        cases herr
      | some status =>
        rw [hst] at herr
        have hup : status.isUpToDate = false := by
          by_contra hne
          have h1 := not_isError_of_isUpToDate status (by simpa using hne)
          rw [Option.any_some, h1] at herr
          cases herr
        simp only [touch, hst, hup, Bool.false_eq_true, if_false]
        split
        next =>
          split
          next => exact Or.inr rfl
          next => exact Or.inl herr
        next => exact Or.inl herr
    · intro s hs hkind
      cases hst : t.status with
      | none =>
        simp only [touch, hst] at hs
        cases hs
      | some status =>
        simp only [touch, hst] at hs
        split at hs
        next hup =>
          split at hs
          next =>
            cases hs
            cases hkind
          next =>
            split at hs
            next =>
              cases hs
              cases hkind
            next => exact hs
        next =>
          split at hs
          next =>
            split at hs
            next => cases hs
            next => exact hs
          next => exact hs

/-- a build wakes the tasks that are skipped because of it -/
theorem touch_wakes (config : String) (program : Option Bool) (t : Task) (s : Status)
    (h : (touch host config program t).status = some s) : names host (host.path config) s = false := by
  by_contra hne
  obtain ⟨hkind, hp⟩ := (names_iff host _ s).1 (by simpa using hne)
  have hold := (touch_touched host config program t).skipped s h hkind
  cases program with
  | none => cases h
  | some changedDts =>
    have hup : s.isUpToDate = false := by
      unfold Status.isUpToDate
      rw [hkind]
    simp only [touch, hold, hup, hkind, hp, if_true, Bool.false_eq_true, if_false] at h
    cases h

theorem touchTask_self (config : String) (program : Option Bool) (o : Orchestrator P) (p : P)
    (t : Task) (ht : o.tasks p = some t) :
    (touchTask host config program o p).tasks p = some (touch host config program t) := by
  unfold touchTask
  rw [ht]
  exact setTask_self o p _

theorem touchTask_ne (config : String) (program : Option Bool) (o : Orchestrator P) (p d : P)
    (h : d ≠ p) : (touchTask host config program o p).tasks d = o.tasks d := by
  unfold touchTask
  split
  next => rfl
  next => exact setTask_ne o p d _ h

theorem touchTask_none (config : String) (program : Option Bool) (o : Orchestrator P) (p d : P)
    (h : o.tasks d = none) : (touchTask host config program o p).tasks d = none := by
  by_cases hd : d = p
  · subst hd
    unfold touchTask
    rw [h]
    exact h
  · rw [touchTask_ne host config program o p d hd]
    exact h

/-- what `update_downstream` leaves of a task, by induction on the tasks that it visits -/
theorem foldl_touchTask (config : String) (program : Option Bool) (l : List P)
    (o : Orchestrator P) (d : P) (t : Task) (ht : o.tasks d = some t) :
    ∃ t', (l.foldl (touchTask host config program) o).tasks d = some t' ∧ Touched t t' ∧
      (d ∉ l → t' = t) ∧
      (d ∈ l → ∀ s, t'.status = some s → names host (host.path config) s = false) := by
  induction l generalizing o t with
  | nil => exact ⟨t, ht, Touched.refl t, fun _ => rfl, fun h => by cases h⟩
  | cons p l ih =>
    by_cases hd : d = p
    · subst hd
      have h1 := touchTask_self host config program o d t ht
      obtain ⟨t', ht', htouch, -, -⟩ := ih _ _ h1
      have hfirst := touch_touched host config program t
      refine ⟨t', ht', hfirst.trans htouch, fun h => absurd (List.mem_cons_self ..) h, ?_⟩
      intro _ s hs
      by_contra hne
      have hkind := ((names_iff host _ s).1 (by simpa using hne)).1
      exact hne (touch_wakes host config program t s (htouch.skipped s hs hkind))
    · have h1 : (touchTask host config program o p).tasks d = some t := by
        rw [touchTask_ne host config program o p d hd]
        exact ht
      obtain ⟨t', ht', htouch, hnot, hmem⟩ := ih _ _ h1
      refine ⟨t', ht', htouch, fun h => hnot fun hl => h (List.mem_cons_of_mem p hl), ?_⟩
      intro h
      rcases List.mem_cons.1 h with h | h
      · exact absurd h hd
      · exact hmem h

theorem foldl_touchTask_none (config : String) (program : Option Bool) (l : List P)
    (o : Orchestrator P) (d : P) (h : o.tasks d = none) :
    (l.foldl (touchTask host config program) o).tasks d = none := by
  induction l generalizing o with
  | nil => exact h
  | cons p l ih => exact ih _ (touchTask_none host config program o p d h)

theorem foldl_touchTask_frame (config : String) (program : Option Bool) (l : List P)
    (o : Orchestrator P) :
    (l.foldl (touchTask host config program) o).order = o.order ∧
    (l.foldl (touchTask host config program) o).upstream = o.upstream ∧
    (l.foldl (touchTask host config program) o).phase = o.phase ∧
    (l.foldl (touchTask host config program) o).done = o.done := by
  induction l generalizing o with
  | nil => exact ⟨rfl, rfl, rfl, rfl⟩
  | cons p l ih =>
    have h1 : (touchTask host config program o p).order = o.order ∧
        (touchTask host config program o p).upstream = o.upstream ∧
        (touchTask host config program o p).phase = o.phase ∧
        (touchTask host config program o p).done = o.done := by
      unfold touchTask
      split
      next => exact ⟨rfl, rfl, rfl, rfl⟩
      next => exact ⟨rfl, rfl, rfl, rfl⟩
    obtain ⟨h2, h3, h4, h5⟩ := ih (touchTask host config program o p)
    exact ⟨h2.trans h1.1, h3.trans h1.2.1, h4.trans h1.2.2.1, h5.trans h1.2.2.2⟩

theorem mem_downstream (o : Orchestrator P) (p d : P) :
    d ∈ o.downstream p ↔ d ∈ o.order ∧ ∃ k, (p, k) ∈ o.upstream d := by
  unfold Orchestrator.downstream
  simp only [List.mem_flatMap, List.mem_filterMap]
  constructor
  · rintro ⟨d', hd', ⟨u, k⟩, hmem, h⟩
    split at h
    next hu =>
      cases h
      exact ⟨hd', k, hu ▸ hmem⟩
    next => cases h
  · rintro ⟨hd, k, hmem⟩
    exact ⟨d, hd, (p, k), hmem, if_pos rfl⟩

/-! ## One task of a cycle -/

/-- what the build of `p` does to the orchestrator, before `p` is marked as visited -/
structure BuildEffect (o : Orchestrator P) (p : P) (t : Task) (o1 : Orchestrator P) : Prop where
  order : o1.order = o.order
  upstream : o1.upstream = o.upstream
  phase : o1.phase = o.phase
  done : o1.done = o.done
  absent : ∀ d, d ≠ p → o.tasks d = none → o1.tasks d = none
  other : ∀ d td, d ≠ p → o.tasks d = some td → ∃ td', o1.tasks d = some td' ∧ Touched td td' ∧
    (d ∉ o.downstream p → td' = td)
  self : ∃ t1, o1.tasks p = some t1 ∧ t1.config = t.config ∧ t1.resolved = t.resolved ∧
    t1.status ≠ none ∧
    (∀ s, t1.status = some s → s.kind = .upstreamErrors → t.status = some s ∨
      ∃ k, (host.project s.input, k) ∈ o.upstream p ∧ o.hasError (host.project s.input) = true) ∧
    (∀ d td s, d ≠ p → o1.tasks d = some td → td.status = some s → names host p s = true →
      t1.hasError = true)

theorem upstreamError_eq_some (o : Orchestrator P) (config : Config) (upstream : List (P × Nat))
    (s : Status) (h : upstreamError opts o config upstream = some s) :
    s.kind = .upstreamErrors ∧ ∃ e ∈ upstream, o.hasError e.1 = true ∧
      (config.projectReferences.getD [])[e.2]? = some s.input := by
  unfold upstreamError at h
  obtain ⟨e, he, hs⟩ := List.exists_of_findSome?_eq_some h
  split at hs
  next status reference hstatus href =>
    split at hs
    next herr =>
      cases hs
      refine ⟨rfl, e, he, ?_, href⟩
      obtain ⟨t, ht, hst⟩ := Option.bind_eq_some_iff.1 hstatus
      rw [hasError_of_task e.1 t ht]
      unfold Task.hasError
      rw [hst]
      simp only [Bool.and_eq_true] at herr
      exact herr.2
    next => cases hs
  next => cases hs

/-- a status that is stored without a build -/
theorem handleWithoutBuild_eq_some (status s : Status)
    (h : handleWithoutBuild opts status = some s) :
    s = status ∨ s.kind = .upToDate := by
  unfold handleWithoutBuild at h
  split at h
  next => exact Or.inl (Option.some.inj h).symm
  next => exact Or.inl (Option.some.inj h).symm
  next => exact Or.inl (Option.some.inj h).symm
  next => exact Or.inl (Option.some.inj h).symm
  next =>
    split at h
    next =>
      split at h
      next => cases h; exact Or.inr rfl
      next => cases h; exact Or.inr rfl
    next =>
      split at h
      next => cases h; exact Or.inr rfl
      next => cases h

/-- an error that is stored without a build stays an error, except in a dry run -/
theorem handleWithoutBuild_error (status s : Status) (hdry : opts.dry = false)
    (herr : status.isError = true) (h : handleWithoutBuild opts status = some s) :
    s.isError = true := by
  have hkinds : status.kind = .configFileNotFound ∨ status.kind = .upstreamErrors ∨
      status.kind = .buildErrors := by
    unfold Status.isError at herr
    split at herr
    next hk => exact Or.inl hk
    next hk => exact Or.inr (Or.inr hk)
    next hk => exact Or.inr (Or.inl hk)
    next => cases herr
  rcases hkinds with hk | hk | hk
  · simp only [handleWithoutBuild, hk, Option.some.injEq] at h
    rw [← h]
    exact herr
  · simp only [handleWithoutBuild, hk, Option.some.injEq] at h
    rw [← h]
    exact herr
  · simp only [handleWithoutBuild, Status.isPseudoBuild, hk, hdry, Bool.false_eq_true, if_false,
      reduceCtorEq] at h

theorem handleWithoutBuild_disk (inspection : Inspection) (hdry : opts.dry = false)
    (h : inspection.val.isUpToDate = false) : handleWithoutBuild opts inspection.val = none := by
  obtain ⟨status, hdisk⟩ := inspection
  simp only at h ⊢
  unfold Status.isUpToDate at h
  unfold handleWithoutBuild Status.isPseudoBuild
  unfold StatusKind.ofDisk at hdisk
  cases hk : status.kind <;> simp_all

section
variable {o : Orchestrator P} (ho : Inv host o) (p : P) (t : Task) (ht : o.tasks p = some t)
include ho ht

/-- who is skipped because of `p` has an edge to it, and `p` has an error or waits -/
theorem skipped_of_names (d : P) (td : Task) (s : Status) (hd : o.tasks d = some td)
    (hs : td.status = some s) (hn : names host p s = true) :
    d ∈ o.downstream p ∧ t.initialCycle = false ∧ (t.hasError = true ∨ t.status = none) := by
  obtain ⟨hkind, hp⟩ := (names_iff host p s).1 hn
  obtain ⟨k, u, hedge, hu, hcycle, hstatus⟩ := ho.skipped d td s hd hs hkind
  rw [hp] at hedge hu
  rw [ht] at hu
  cases hu
  exact ⟨(mem_downstream o p d).2 ⟨ho.mem d td hd, k, hedge⟩, hcycle, hstatus⟩

theorem named_of_names (d : P) (td : Task) (s : Status) (hd : o.tasks d = some td)
    (hs : td.status = some s) (hn : names host p s = true) : named host o p = true := by
  obtain ⟨hkind, hp⟩ := (names_iff host p s).1 hn
  exact named_of_mem host ho.mem d p td s hd hs hkind hp

/-- a status that is set, and nothing else -/
theorem setStatus_effect (status : Status)
    (hself : status.kind = .upstreamErrors → t.status = some status ∨
      ∃ k, (host.project status.input, k) ∈ o.upstream p ∧
        o.hasError (host.project status.input) = true)
    (hnamed : named host o p = true → t.initialCycle = false →
      (t.hasError = true ∨ t.status = none) → status.isError = true) :
    BuildEffect host o p t (o.setTask p { t with status := some status }) where
  order := rfl
  upstream := rfl
  phase := rfl
  done := rfl
  absent := fun d hd h => (setTask_ne o p d _ hd).trans h
  other := fun d td hd h => ⟨td, (setTask_ne o p d _ hd).trans h, Touched.refl td, fun _ => rfl⟩
  self := by
    refine ⟨_, setTask_self o p _, rfl, rfl, fun h => (by cases h), ?_, ?_⟩
    · intro s hs hkind
      cases hs
      exact hself hkind
    · intro d td s hd htd hs hn
      rw [setTask_ne o p d _ hd] at htd
      obtain ⟨-, hcycle, hstatus⟩ := skipped_of_names host ho p t ht d td s htd hs hn
      exact hnamed (named_of_names host ho p t ht d td s htd hs hn) hcycle hstatus

/-- the status of an examination that does not compile -/
theorem upToDateStatus_skips (inspection : Inspection)
    (hkind : (upToDateStatus opts o p t inspection).kind = .upstreamErrors) :
    t.status = some (upToDateStatus opts o p t inspection) ∨
      ∃ k, (host.project (upToDateStatus opts o p t inspection).input, k) ∈ o.upstream p ∧
        o.hasError (host.project (upToDateStatus opts o p t inspection).input) = true := by
  unfold upToDateStatus at hkind ⊢
  cases hst : t.status with
  | some status => exact Or.inl rfl
  | none =>
    simp only [hst] at hkind ⊢
    refine Or.inr ?_
    cases hres : t.resolved with
    | none =>
      simp only [hres] at hkind
      cases hkind
    | some config =>
      simp only [hres] at hkind ⊢
      split at hkind
      next => cases hkind
      next hsol =>
        rw [if_neg hsol]
        cases hup : upstreamError opts o config (o.upstream p) with
        | some status =>
          obtain ⟨-, e, he, herr, href⟩ := upstreamError_eq_some opts o config _ status hup
          obtain ⟨t', r, ht', hr, hproj⟩ := ho.edge p e he
          rw [ht] at ht'
          cases ht'
          have hrefs : t.references = config.projectReferences.getD [] := by
            unfold Task.references
            rw [hres]
            rfl
          rw [hrefs, href] at hr
          cases hr
          simp only
          rw [hproj]
          exact ⟨e.2, he, herr⟩
        | none =>
          simp only [hup] at hkind
          split at hkind
          next => cases hkind
          next =>
            have hdisk := inspection.property
            rw [hkind] at hdisk
            cases hdisk

/-- a task that others are skipped for stores an error, unless it is found up to date -/
theorem handled_isError (inspection : Inspection) (s : Status)
    (hmeets : foundUpToDate opts o p t inspection = false)
    (hstatus : t.hasError = true ∨ t.status = none)
    (h : handleWithoutBuild opts (upToDateStatus opts o p t inspection) = some s) :
    s.isError = true := by
  unfold foundUpToDate at hmeets
  rw [Bool.or_eq_false_iff] at hmeets
  obtain ⟨hdry, hnot⟩ := hmeets
  unfold upToDateStatus at h
  cases hst : t.status with
  | some status =>
    simp only [hst] at h
    rcases hstatus with herr | hnone
    · unfold Task.hasError at herr
      rw [hst] at herr
      exact handleWithoutBuild_error opts status s hdry herr h
    · rw [hst] at hnone
      cases hnone
  | none =>
    simp only [hst] at h
    rw [hst] at hnot
    cases hres : t.resolved with
    | none =>
      simp only [hres] at h
      exact handleWithoutBuild_error opts _ s hdry rfl h
    | some config =>
      simp only [hres, Option.isNone_none, Bool.true_and, Option.any_some,
        Bool.or_eq_false_iff] at h hnot
      obtain ⟨hsol, hnot⟩ := hnot
      rw [hsol] at h
      simp only [Bool.false_eq_true, if_false] at h
      cases hup : upstreamError opts o config (o.upstream p) with
      | some status =>
        simp only [hup] at h
        have hkind := (upstreamError_eq_some opts o config _ status hup).1
        exact handleWithoutBuild_error opts status s hdry (by simp [Status.isError, hkind]) h
      | none =>
        simp only [hup, Option.isNone_none, Bool.true_and, Bool.and_eq_false_iff,
          Bool.not_eq_false'] at h hnot
        split at h
        next =>
          simp only [handleWithoutBuild, Status.plain, Status.isPseudoBuild, hdry,
            Bool.false_eq_true, if_false] at h
          cases h
        next hforce =>
          rcases hnot with hf | hinsp
          · exact absurd hf hforce
          · rw [handleWithoutBuild_disk opts inspection hdry hinsp] at h
            cases h

/-- a compiled task wakes the tasks that are skipped because of it -/
theorem compile_effect (hself : p ∉ o.downstream p) (compilation : Compilation) :
    BuildEffect host o p t (updateDownstream host opts
      (o.setTask p { t with status := some (compile compilation).1 }) p
      { t with status := some (compile compilation).1 } (compile compilation).2) := by
  have hkind : (compile compilation).1.kind ≠ .upstreamErrors := by
    cases compilation with
    | projectError => intro h; cases h
    | finished hasErrors emitted changedDts =>
      cases hasErrors with
      | true => intro h; cases h
      | false => intro h; cases h
  unfold updateDownstream
  split
  next hcycle =>
    refine setStatus_effect host ho p t ht _ (fun h => absurd h hkind) ?_
    intro _ hcycle' _
    exact absurd (hcycle.symm.trans hcycle') (by simp)
  next =>
    split
    next herr =>
      refine setStatus_effect host ho p t ht _ (fun h => absurd h hkind) ?_
      intro _ _ _
      simp only [Bool.and_eq_true] at herr
      exact herr.2
    next =>
      obtain ⟨horder, hup, hphase, hdone⟩ := foldl_touchTask_frame host t.config
        (compile compilation).2 (o.downstream p)
        (o.setTask p { t with status := some (compile compilation).1 })
      refine ⟨horder, hup, hphase, hdone, ?_, ?_, ?_⟩
      · intro d hd hnone
        exact foldl_touchTask_none host _ _ _ _ d ((setTask_ne o p d _ hd).trans hnone)
      · intro d td hd htd
        obtain ⟨td', htd', htouch, hnot, -⟩ := foldl_touchTask host t.config (compile compilation).2
          (o.downstream p) _ d td ((setTask_ne o p d
            { t with status := some (compile compilation).1 } hd).trans htd)
        exact ⟨td', htd', htouch, hnot⟩
      · obtain ⟨t1, ht1, -, hsame, -⟩ := foldl_touchTask host t.config (compile compilation).2
          (o.downstream p) _ p _ (setTask_self o p { t with status := some (compile compilation).1 })
        rw [hsame hself] at ht1
        refine ⟨_, ht1, rfl, rfl, fun h => (by cases h), ?_, ?_⟩
        · intro s hs hk
          cases hs
          exact absurd hk hkind
        · intro d td s hd htd hs hn
          -- `d` was named before the fold, so it was among the tasks that the fold woke
          exfalso
          cases hold : o.tasks d with
          | none =>
            rw [foldl_touchTask_none host _ _ _ _ d ((setTask_ne o p d _ hd).trans hold)] at htd
            cases htd
          | some told =>
            obtain ⟨td', htd', htouch, -, hwoken⟩ := foldl_touchTask host t.config
              (compile compilation).2 (o.downstream p) _ d told ((setTask_ne o p d
                { t with status := some (compile compilation).1 } hd).trans hold)
            have heq : td' = td := Option.some.inj (htd'.symm.trans htd)
            subst heq
            have hsold := htouch.skipped s hs ((names_iff host p s).1 hn).1
            have hmem := (skipped_of_names host ho p t ht d told s hold hsold hn).1
            have hfalse := hwoken hmem s hs
            rw [ho.key p t ht, hn] at hfalse
            cases hfalse

theorem buildTask_effect (hself : p ∉ o.downstream p) (outcome : Outcome)
    (hmeets : meets host opts (.build p outcome) o = true) :
    BuildEffect host o p t (buildTask host opts o p t outcome) := by
  unfold buildTask
  split
  next => exact setStatus_effect host ho p t ht _ (fun h => by cases h) fun _ _ _ => rfl
  next hfails =>
    split
    next hpend =>
      have hsome : t.status ≠ none := by
        intro hnone
        rw [ho.pending p t ht hnone] at hpend
        cases hpend
      refine ⟨rfl, rfl, rfl, rfl, fun d _ h => h, fun d td _ h => ⟨td, h, Touched.refl td,
        fun _ => rfl⟩, t, ht, rfl, rfl, hsome, fun s hs _ => Or.inl hs, ?_⟩
      intro d td s _ htd hs hn
      rcases (skipped_of_names host ho p t ht d td s htd hs hn).2.2 with h | h
      · exact h
      · exact absurd h hsome
    next hpend =>
      split
      next status hstatus =>
        refine setStatus_effect host ho p t ht status ?_ ?_
        · intro hkind
          rcases handleWithoutBuild_eq_some opts _ status hstatus with rfl | hup
          · exact upToDateStatus_skips host opts ho p t ht outcome.inspection hkind
          · rw [hup] at hkind
            cases hkind
        · intro hnamed _ hst
          refine handled_isError host opts ho p t ht outcome.inspection status ?_ hst hstatus
          simp only [meets, ht, Option.all_some, hnamed, Bool.true_and, Bool.not_eq_true',
            Bool.and_eq_false_iff, Bool.not_eq_false'] at hmeets
          rcases hmeets with (h | h) | h
          · exact absurd h hpend
          · exact absurd h hfails
          · exact h
      next => exact compile_effect host opts ho p t ht hself outcome.compilation

/-- **One task of a cycle keeps the invariant.** -/
theorem build_inv (outcome : Outcome) (hphase : o.phase = .building) (hp : p ∈ o.order)
    (hdone : o.done p = false) (hup : ∀ e ∈ o.upstream p, o.done e.1 = true)
    (hmeets : meets host opts (.build p outcome) o = true) :
    Inv host (finishTask (buildTask host opts o p t outcome) p) := by
  -- a task does not reference itself: it would wait for itself
  have hself : p ∉ o.downstream p := by
    intro hmem
    obtain ⟨-, k, hedge⟩ := (mem_downstream o p p).1 hmem
    have := hup _ hedge
    rw [hdone] at this
    cases this
  have heff := buildTask_effect host opts ho p t ht hself outcome hmeets
  generalize buildTask host opts o p t outcome = o1 at heff
  obtain ⟨t1, ht1, hconfig, hresolved, hsome, hskips, hnames⟩ := heff.self
  have hrefs : t1.references = t.references := by
    unfold Task.references
    rw [hresolved]
  have htask_self : (finishTask o1 p).tasks p =
      some { t1 with pending := false, initialCycle := false } := by
    unfold finishTask
    simp only [Function.update_self]
    rw [ht1]
    rfl
  have htask_ne : ∀ d, d ≠ p → (finishTask o1 p).tasks d = o1.tasks d :=
    fun d hd => Function.update_of_ne hd _ _
  have hcases : ∀ d t', (finishTask o1 p).tasks d = some t' →
      (d = p ∧ t' = { t1 with pending := false, initialCycle := false }) ∨
      (d ≠ p ∧ o1.tasks d = some t' ∧ ∃ td, o.tasks d = some td ∧ Touched td t' ∧
        (d ∉ o.downstream p → t' = td)) := by
    intro d t' h
    by_cases hd : d = p
    · subst hd
      rw [htask_self] at h
      exact Or.inl ⟨rfl, (Option.some.inj h).symm⟩
    · rw [htask_ne d hd] at h
      cases hold : o.tasks d with
      | none =>
        rw [heff.absent d hd hold] at h
        cases h
      | some td =>
        obtain ⟨td', htd', htouch, hnot⟩ := heff.other d td hd hold
        rw [h] at htd'
        cases htd'
        exact Or.inr ⟨hd, h, td, rfl, htouch, hnot⟩
  have hsound : ∀ u, o.tasks u ≠ none → ∃ t', (finishTask o1 p).tasks u = some t' := by
    intro u hu
    by_cases hup : u = p
    · subst hup
      exact ⟨_, htask_self⟩
    · obtain ⟨tu, htu⟩ := Option.ne_none_iff_exists'.1 hu
      obtain ⟨tu', htu', -⟩ := heff.other u tu hup htu
      exact ⟨tu', (htask_ne u hup).trans htu'⟩
  refine ⟨?_, ?_, ?_, ?_, ?_, ?_, ?_⟩
  · intro d t' h
    show d ∈ o1.order
    rw [heff.order]
    rcases hcases d t' h with ⟨rfl, -⟩ | ⟨-, -, td, htd, -⟩
    · exact hp
    · exact ho.mem d td htd
  · intro d t' h
    rcases hcases d t' h with ⟨rfl, rfl⟩ | ⟨-, -, td, htd, htouch, -⟩
    · exact (congrArg host.path hconfig).trans (ho.key d t ht)
    · rw [htouch.config]
      exact ho.key d td htd
  · intro d e he
    change e ∈ o1.upstream d at he
    rw [heff.upstream] at he
    obtain ⟨td, r, htd, hr, hproj⟩ := ho.edge d e he
    obtain ⟨t', ht'⟩ := hsound d (by rw [htd]; simp)
    refine ⟨t', r, ht', ?_, hproj⟩
    rcases hcases d t' ht' with ⟨rfl, rfl⟩ | ⟨-, -, td', htd', htouch, -⟩
    · rw [ht] at htd
      cases htd
      exact (congrArg (·[e.2]?) hrefs).trans hr
    · rw [htd] at htd'
      cases htd'
      unfold Task.references at hr ⊢
      rw [htouch.resolved]
      exact hr
  · intro d t' h hnone
    rcases hcases d t' h with ⟨rfl, rfl⟩ | ⟨-, -, td, htd, htouch, -⟩
    · exact absurd hnone hsome
    · rcases htouch.none_pending hnone with h1 | h1
      · exact htouch.pending (ho.pending d td htd h1)
      · exact h1
  · intro _ d hd
    show ∃ t', (finishTask o1 p).tasks d = some t' ∧ t'.status ≠ none ∧ t'.initialCycle = false ∧
      ∀ e ∈ o1.upstream d, Function.update o1.done p true e.1 = true
    have hkeep : ∀ u, o.done u = true → Function.update o1.done p true u = true := by
      intro u hu
      rw [heff.done]
      by_cases hup : u = p
      · rw [hup, Function.update_self]
      · rw [Function.update_of_ne hup]
        exact hu
    rw [heff.upstream]
    by_cases hdp : d = p
    · subst hdp
      exact ⟨_, htask_self, hsome, rfl, fun e he => hkeep e.1 (hup e he)⟩
    · change Function.update o1.done p true d = true at hd
      rw [Function.update_of_ne hdp, heff.done] at hd
      obtain ⟨td, htd, hst, hcycle, hups⟩ := ho.visited hphase d hd
      -- a visited task is not downstream of `p`, which has not been visited
      have hnot : d ∉ o.downstream p := by
        intro hmem
        obtain ⟨-, k, hedge⟩ := (mem_downstream o p d).1 hmem
        have := hups _ hedge
        rw [hdone] at this
        cases this
      obtain ⟨td', htd', -, hsame⟩ := heff.other d td hdp htd
      rw [hsame hnot] at htd'
      exact ⟨td, (htask_ne d hdp).trans htd', hst, hcycle, fun e he => hkeep e.1 (hups e he)⟩
  · intro d t' s h hs hkind
    show ∃ k u, (host.project s.input, k) ∈ o1.upstream d ∧
      (finishTask o1 p).tasks (host.project s.input) = some u ∧ u.initialCycle = false ∧
      (u.hasError = true ∨ u.status = none)
    rw [heff.upstream]
    -- the edge and the task that is named, before the build
    have hbefore : ∃ k u, (host.project s.input, k) ∈ o.upstream d ∧
        o.tasks (host.project s.input) = some u ∧ u.initialCycle = false ∧
        (u.hasError = true ∨ u.status = none) := by
      rcases hcases d t' h with ⟨rfl, rfl⟩ | ⟨-, -, td, htd, htouch, -⟩
      · rcases hskips s hs hkind with hold | ⟨k, hedge, herr⟩
        · exact ho.skipped d t s ht hold hkind
        · obtain ⟨u, hu, hst, hcycle, -⟩ := ho.visited hphase _ (hup _ hedge)
          rw [hasError_of_task _ u hu] at herr
          exact ⟨k, u, hedge, hu, hcycle, Or.inl herr⟩
      · exact ho.skipped d td s htd (htouch.skipped s hs hkind) hkind
    obtain ⟨k, u, hedge, hu, hcycle, hstatus⟩ := hbefore
    by_cases hup' : host.project s.input = p
    · have hd : d ≠ p := by
        rintro rfl
        exact hself ((mem_downstream o d d).2 ⟨hp, k, hup' ▸ hedge⟩)
      rcases hcases d t' h with ⟨rfl, -⟩ | ⟨-, h1, -⟩
      · exact absurd rfl hd
      · refine ⟨k, _, hedge, by rw [hup']; exact htask_self, rfl, Or.inl ?_⟩
        exact hnames d t' s hd h1 hs ((names_iff host p s).2 ⟨hkind, hup'⟩)
    · obtain ⟨u', hu', htouch, -⟩ := heff.other _ u hup' hu
      refine ⟨k, u', hedge, (htask_ne _ hup').trans hu', htouch.initialCycle.trans hcycle, ?_⟩
      rcases hstatus with h1 | h1
      · exact htouch.keeps_error h1
      · exact Or.inr (htouch.keeps_none h1)
  · intro hcompleted
    change o1.phase = .completed at hcompleted
    rw [heff.phase, hphase] at hcompleted
    cases hcompleted

end

/-! ## Runs -/

theorem meets_regenerate (o : Orchestrator P) (graph : GraphInput P)
    (h : meets host opts (.regenerate graph) o = true) (p : P) (t : Task) (s : Status)
    (hp : p ∈ graph.order.map host.path) (hr : reusable o true p = some t)
    (hs : t.status = some s) (hkind : s.kind = .upstreamErrors) :
    (∃ k, (host.project s.input, k) ∈ edges host graph p t) ∧
      host.project s.input ∈ graph.order.map host.path := by
  have h1 := List.all_eq_true.1 h p hp
  rw [hr] at h1
  simp only [Option.all_some, hs, hkind, ne_eq, not_true_eq_false, decide_false, Bool.false_or,
    Bool.and_eq_true, List.any_eq_true, decide_eq_true_eq] at h1
  obtain ⟨⟨⟨u, k⟩, hmem, hu⟩, hin⟩ := h1
  simp only at hu
  subst hu
  exact ⟨⟨k, hmem⟩, hin⟩

theorem step_inv (a : Action P) (o o' : Orchestrator P) (ho : Inv host o)
    (hmeets : meets host opts a o = true) (h : step host opts a o = some o') : Inv host o' := by
  cases a with
  | start graph =>
    simp only [step] at h
    split at h
    next =>
      cases h
      refine generateGraph_inv host o ho graph true ?_
      intro p t s _ hr
      cases (reusable_eq_some o _ p t hr).1
    next => cases h
  | event p e =>
    simp only [step] at h
    split at h
    next => cases h
    next t ht =>
      split at h
      next =>
        cases h
        exact event_inv host o ho p t ht e
      next => cases h
  | regenerate graph =>
    simp only [step] at h
    split at h
    next =>
      cases h
      exact generateGraph_inv host o ho graph false (meets_regenerate host opts o graph hmeets)
    next => cases h
  | beginBuild =>
    simp only [step] at h
    split at h
    next =>
      split at h
      next herr =>
        cases h
        refine circular_inv host o ho ?_
        intro p hp hnamed t ht
        simp only [meets, herr, Bool.not_true, Bool.false_or] at hmeets
        have h1 := List.all_eq_true.1 hmeets p hp
        rw [hnamed, ht] at h1
        simpa [Option.isSome_iff_ne_none] using h1
      next =>
        cases h
        exact beginBuild_inv host o ho
    next => cases h
  | build p outcome =>
    simp only [step] at h
    split at h
    next => cases h
    next t ht =>
      split at h
      next hen =>
        cases h
        exact build_inv host opts ho p t ht outcome hen.1 hen.2.1 hen.2.2.1 hen.2.2.2 hmeets
      next => cases h
  | finishBuild =>
    simp only [step] at h
    split at h
    next hen =>
      cases h
      exact finishBuild_inv host o ho hen.1 hen.2
    next => cases h

/-- **In a run whose steps meet the condition, every completed cycle leaves every skipped task with
a reference that has an error.** -/
theorem justified_of_meets (as : List (Action P)) (o : Orchestrator P)
    (h : exec (step host opts) as Orchestrator.init = some o)
    (hmeets : along (step host opts) (meets host opts) as Orchestrator.init = true)
    (hphase : o.phase = .completed) : Justified host o :=
  justified_of_inv host o
    (exec_invariant_along _ (meets host opts) (Inv host) (step_inv host opts) as _ o
      (inv_init host) hmeets h) hphase

end

/-! ## Three projects in a row -/

section

/-- `c` references `b`, and `b` references `a` -/
def chainParsed (name : String) : Option Config :=
  if name = "/a/tsconfig.json" then some ⟨["/a/a.ts"], none⟩
  else if name = "/b/tsconfig.json" then some ⟨["/b/b.ts"], some ["/a"]⟩
  else if name = "/c/tsconfig.json" then some ⟨["/c/c.ts"], some ["/b"]⟩
  else none

def chainHost : Host String where
  path := id
  resolveConfigFileName := fun name => name ++ "/tsconfig.json"

def chainGraph : GraphInput String where
  order := ["/a/tsconfig.json", "/b/tsconfig.json", "/c/tsconfig.json"]
  parsed := chainParsed
  closesCycle := fun _ _ => false
  errors := false

def chainOptions : Options := ⟨true, false, false⟩

/-- an inspection and a compilation -/
def chainOutcome (kind : StatusKind) (hdisk : kind.ofDisk = true) (hasErrors : Bool) : Outcome :=
  ⟨false, ⟨.plain kind, hdisk⟩, .finished hasErrors "" false⟩

/-- all projects were built before; the watch starts with an error in `a`, which is then fixed -/
def fixedRun (b : Outcome) : List (Action String) :=
  [.start chainGraph, .beginBuild,
    .build "/a/tsconfig.json" (chainOutcome .inputFileNewer rfl true),
    .build "/b/tsconfig.json" (chainOutcome .upToDate rfl false),
    .build "/c/tsconfig.json" (chainOutcome .inputFileNewer rfl false), .finishBuild,
    .event "/a/tsconfig.json" .reset, .beginBuild,
    .build "/a/tsconfig.json" (chainOutcome .outOfDateBuildInfoWithErrors rfl false),
    .build "/b/tsconfig.json" b,
    .build "/c/tsconfig.json" (chainOutcome .inputFileNewer rfl false), .finishBuild]

theorem justified_of_meets_chain : ∃ o : Orchestrator String,
    exec (step chainHost chainOptions)
      (fixedRun (chainOutcome .inputFileNewer rfl false)) Orchestrator.init = some o ∧
    o.phase = .completed ∧ Justified chainHost o := by
  obtain ⟨o, ho⟩ : ∃ o : Orchestrator String, exec (step chainHost chainOptions)
      (fixedRun (chainOutcome .inputFileNewer rfl false)) Orchestrator.init = some o := ⟨_, rfl⟩
  have hphase : o.phase = .completed := by
    cases ho
    rfl
  exact ⟨o, ho, hphase, justified_of_meets chainHost chainOptions _ o ho rfl hphase⟩

/-- `b` is found up to date once `a` is fixed, and `c` stays skipped although nothing that it
references has an error -/
theorem pseudoBuild_keeps_skipped : ¬ ∀ (host : Host String) (opts : Options)
    (as : List (Action String)) (o : Orchestrator String), opts.stopBuildOnErrors = true →
    exec (step host opts) as Orchestrator.init = some o → o.phase = .completed →
    Justified host o := by
  intro hall
  have h := hall chainHost chainOptions
    (fixedRun (chainOutcome .upToDateWithUpstreamTypes rfl false)) _ rfl rfl rfl
  obtain ⟨r, hr, herr⟩ := h "/c/tsconfig.json" _ _ rfl rfl rfl
  have hb : r = "/b" := List.mem_singleton.1 hr
  rw [hb] at herr
  exact Bool.false_ne_true herr

end

end Tsr.Build
