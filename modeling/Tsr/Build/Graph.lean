import Mathlib

/-!
# The build order of a project graph

`setupTask` visits the references of a task before it appends the task to the order, and keeps an
upstream edge to each reference that it came back from.  A reference to a task that is still being
visited has no edge; it is reported as a cycle unless some reference on the way was circular.

* `Projects`      the tasks by index, each with its references, and the roots;
* `setup_spec`    the order has no task twice, and each task stands behind its upstream tasks.

`setupTask` recurses as deep as there are tasks that are being visited; `fuel` is a bound on that
depth, and with more fuel than tasks it never runs out.
-/

namespace Tsr.Build.Graph

/-- each reference is the index of a task and whether it is circular -/
structure Projects where
  references : List (List (Nat × Bool))
  roots : List Nat
  watch : Bool
  valid : ∀ refs ∈ references, ∀ r ∈ refs, r.1 < references.length
  rootsValid : ∀ r ∈ roots, r < references.length

/-- `upstream` has the task and the number of the reference; an error holds the tasks on the stack -/
structure Setup where
  completed : List Nat
  analyzing : List Nat
  stack : List Nat
  order : List Nat
  upstream : Nat → List (Nat × Nat)
  downstream : Nat → List Nat
  errors : List (List Nat)

def Setup.empty : Setup := ⟨[], [], [], [], fun _ => [], fun _ => [], []⟩

section
variable (g : Projects)

def Setup.addDownstream (st : Setup) (index : Nat) (downstream : Option Nat) : Setup :=
  match downstream with
  | some d => if g.watch then
      { st with downstream := Function.update st.downstream index (st.downstream index ++ [d]) }
    else st
  | none => st

def Setup.addUpstream (st : Setup) (index upstream refIndex : Nat) : Setup :=
  { st with upstream := Function.update st.upstream index (st.upstream index ++ [(upstream, refIndex)]) }

/-- the task is being visited -/
def Setup.enter (st : Setup) (index : Nat) : Setup :=
  { st with analyzing := index :: st.analyzing, stack := st.stack ++ [index] }

/-- the task goes to the order -/
def Setup.leave (st : Setup) (index : Nat) : Setup :=
  { st with
    stack := st.stack.dropLast
    completed := index :: st.completed
    order := st.order ++ [index] }

/-- the loop over the references of a task; `visit` is `setupTask` -/
def visitReferences (visit : Nat → Option Nat → Bool → Setup → Option (Option Nat × Setup))
    (index : Nat) (circular : Bool) : List ((Nat × Bool) × Nat) → Setup → Option Setup
  | [], st => some st
  | ((reference, refCircular), refIndex) :: rest, st =>
    match visit reference (some index) (circular || refCircular) st with
    | none => none
    | some (some upstream, st) =>
      visitReferences visit index circular rest (st.addUpstream index upstream refIndex)
    | some (none, st) => visitReferences visit index circular rest st

def setupTask : Nat → Nat → Option Nat → Bool → Setup → Option (Option Nat × Setup)
  | 0, _, _, _, _ => none
  | fuel + 1, index, downstream, circular, st =>
    if index ∈ st.completed then some (some index, st.addDownstream g index downstream)
    else if index ∈ st.analyzing then
      some (none, if circular then st else { st with errors := st.errors ++ [st.stack] })
    else
      match visitReferences (setupTask fuel) index circular
          ((g.references[index]?).getD []).zipIdx (st.enter index) with
      | none => none
      | some st => some (some index, (st.leave index).addDownstream g index downstream)

/-- the tasks of the roots in turn -/
def setupRoots : List Nat → Setup → Option Setup
  | [], st => some st
  | root :: rest, st =>
    match setupTask g (g.references.length + 1) root none false st with
    | none => none
    | some (_, st) => setupRoots rest { st with stack := [] }

def setup : Option Setup := setupRoots g g.roots Setup.empty

end

/-! ## The order -/

/-- each task stands behind its upstream tasks -/
def Sorted (order : List Nat) (upstream : Nat → List (Nat × Nat)) : Prop :=
  ∀ before t after, order = before ++ t :: after → ∀ u ∈ upstream t, u.1 ∈ before

structure SetupInv (g : Projects) (st : Setup) : Prop where
  nodup : st.analyzing.Nodup
  bound : ∀ t ∈ st.analyzing, t < g.references.length
  completed : ∀ t ∈ st.completed, t ∈ st.analyzing
  order : ∀ t, t ∈ st.order ↔ t ∈ st.completed
  orderNodup : st.order.Nodup
  edges : ∀ t, ∀ u ∈ st.upstream t, u.1 ∈ st.completed
  fresh : ∀ t, t ∉ st.analyzing → st.upstream t = []
  sorted : Sorted st.order st.upstream

/-- what a visit leaves alone: tasks that were entered keep their edges, but for `own`, and those
that were being visited are still being visited -/
structure Grows (own : Option Nat) (st st' : Setup) : Prop where
  completed : ∀ t ∈ st.completed, t ∈ st'.completed
  analyzing : ∀ t ∈ st.analyzing, t ∈ st'.analyzing
  length : st.analyzing.length ≤ st'.analyzing.length
  unfinished : ∀ t ∈ st.analyzing, t ∈ st'.completed → t ∈ st.completed
  upstream : ∀ t ∈ st.analyzing, some t ≠ own → st'.upstream t = st.upstream t

theorem Grows.refl (own : Option Nat) (st : Setup) : Grows own st st :=
  ⟨fun _ h => h, fun _ h => h, Nat.le_refl _, fun _ _ h => h, fun _ _ _ => rfl⟩

theorem Grows.trans {own : Option Nat} {st st1 st2 : Setup} (h1 : Grows own st st1)
    (h2 : Grows own st1 st2) : Grows own st st2 where
  completed := fun t ht => h2.completed t (h1.completed t ht)
  analyzing := fun t ht => h2.analyzing t (h1.analyzing t ht)
  length := h1.length.trans h2.length
  unfinished := fun t ht hc => h1.unfinished t ht (h2.unfinished t (h1.analyzing t ht) hc)
  upstream := fun t ht hne =>
    (h2.upstream t (h1.analyzing t ht) hne).trans (h1.upstream t ht hne)

theorem Grows.weaken {own : Option Nat} {st st' : Setup} (h : Grows none st st') :
    Grows own st st' :=
  ⟨h.completed, h.analyzing, h.length, h.unfinished,
    fun t ht _ => h.upstream t ht (Option.some_ne_none t)⟩

section
variable (g : Projects)

theorem addDownstream_frame (st : Setup) (index : Nat) (d : Option Nat) :
    ∃ downstream, st.addDownstream g index d = { st with downstream := downstream } := by
  unfold Setup.addDownstream
  split
  next =>
    split
    next => exact ⟨_, rfl⟩
    next => exact ⟨st.downstream, rfl⟩
  next => exact ⟨st.downstream, rfl⟩

theorem inv_addDownstream {st : Setup} (h : SetupInv g st) (index : Nat) (d : Option Nat) :
    SetupInv g (st.addDownstream g index d) := by
  obtain ⟨downstream, heq⟩ := addDownstream_frame g st index d
  rw [heq]
  exact ⟨h.nodup, h.bound, h.completed, h.order, h.orderNodup, h.edges, h.fresh, h.sorted⟩

theorem grows_addDownstream {own : Option Nat} {st st' : Setup} (h : Grows own st st')
    (index : Nat) (d : Option Nat) : Grows own st (st'.addDownstream g index d) := by
  obtain ⟨downstream, heq⟩ := addDownstream_frame g st' index d
  rw [heq]
  exact ⟨h.completed, h.analyzing, h.length, h.unfinished, h.upstream⟩

theorem completed_addDownstream (st : Setup) (index : Nat) (d : Option Nat) :
    (st.addDownstream g index d).completed = st.completed := by
  obtain ⟨downstream, heq⟩ := addDownstream_frame g st index d
  rw [heq]

/-- an edge of a task that is being visited -/
theorem inv_addUpstream {st : Setup} (h : SetupInv g st) (index upstream refIndex : Nat)
    (hin : index ∈ st.analyzing) (hopen : index ∉ st.completed) (hup : upstream ∈ st.completed) :
    SetupInv g (st.addUpstream index upstream refIndex) ∧
      Grows (some index) st (st.addUpstream index upstream refIndex) := by
  have hne : ∀ t, t ≠ index → (st.addUpstream index upstream refIndex).upstream t = st.upstream t :=
    fun t hne => Function.update_of_ne hne ..
  refine ⟨⟨h.nodup, h.bound, h.completed, h.order, h.orderNodup, ?_, ?_, ?_⟩,
    fun _ ht => ht, fun _ ht => ht, Nat.le_refl _, fun _ _ ht => ht, ?_⟩
  · intro t u hu
    by_cases ht : t = index
    · subst ht
      change u ∈ Function.update st.upstream t _ t at hu
      rw [Function.update_self] at hu
      rcases List.mem_append.1 hu with hu | hu
      · exact h.edges t u hu
      · rw [List.mem_singleton.1 hu]
        exact hup
    · rw [hne t ht] at hu
      exact h.edges t u hu
  · intro t ht
    rw [hne t fun heq => ht (heq ▸ hin)]
    exact h.fresh t ht
  · intro before t after heq u hu
    -- the task itself is not in the order yet
    have hmem : t ∈ st.order := by
      change st.order = _ at heq
      rw [heq]
      exact List.mem_append_right _ (List.mem_cons_self ..)
    rw [hne t fun h' => hopen (h' ▸ (h.order t).1 hmem)] at hu
    exact h.sorted before t after heq u hu
  · intro t _ hown
    exact hne t fun heq => hown (by rw [heq])

/-- what `setupTask` promises with the given fuel -/
def Visits (fuel : Nat) (visit : Nat → Option Nat → Bool → Setup → Option (Option Nat × Setup)) :
    Prop :=
  ∀ index d circular st, SetupInv g st → index < g.references.length →
    g.references.length < fuel + st.analyzing.length →
    ∃ r st', visit index d circular st = some (r, st') ∧ SetupInv g st' ∧ Grows none st st' ∧
      ∀ u, r = some u → u ∈ st'.completed

theorem visitReferences_spec (fuel : Nat)
    (visit : Nat → Option Nat → Bool → Setup → Option (Option Nat × Setup))
    (hvisit : Visits g fuel visit) (index : Nat) (circular : Bool) (refs : List ((Nat × Bool) × Nat))
    (st : Setup) (hrefs : ∀ r ∈ refs, r.1.1 < g.references.length) (h : SetupInv g st)
    (hin : index ∈ st.analyzing) (hopen : index ∉ st.completed)
    (hfuel : g.references.length < fuel + st.analyzing.length) :
    ∃ st', visitReferences visit index circular refs st = some st' ∧ SetupInv g st' ∧
      Grows (some index) st st' := by
  induction refs generalizing st with
  | nil => exact ⟨st, rfl, h, Grows.refl _ st⟩
  | cons r refs ih =>
    obtain ⟨⟨reference, refCircular⟩, refIndex⟩ := r
    obtain ⟨r, st1, hv, h1, hext, hup⟩ := hvisit reference (some index) (circular || refCircular) st h
      (hrefs _ (List.mem_cons_self ..)) hfuel
    have hrefs' : ∀ r ∈ refs, r.1.1 < g.references.length :=
      fun r hr => hrefs r (List.mem_cons_of_mem _ hr)
    have hin1 := hext.analyzing index hin
    have hopen1 : index ∉ st1.completed := fun hc => hopen (hext.unfinished index hin hc)
    have hfuel1 : g.references.length < fuel + st1.analyzing.length := by
      have := hext.length
      omega
    unfold visitReferences
    rw [hv]
    cases r with
    | none =>
      obtain ⟨st2, h2, h3, h4⟩ := ih st1 hrefs' h1 hin1 hopen1 hfuel1
      exact ⟨st2, h2, h3, hext.weaken.trans h4⟩
    | some u =>
      obtain ⟨h2, h3⟩ := inv_addUpstream g h1 index u refIndex hin1 hopen1 (hup u rfl)
      obtain ⟨st2, h4, h5, h6⟩ := ih (st1.addUpstream index u refIndex) hrefs' h2 hin1 hopen1 hfuel1
      exact ⟨st2, h4, h5, (hext.weaken.trans h3).trans h6⟩

theorem inv_enter {st : Setup} (h : SetupInv g st) (index : Nat) (hbound : index < g.references.length)
    (hnew : index ∉ st.analyzing) : SetupInv g (st.enter index) where
  nodup := List.nodup_cons.2 ⟨hnew, h.nodup⟩
  bound := fun t ht => by
    rcases List.mem_cons.1 ht with rfl | ht
    · exact hbound
    · exact h.bound t ht
  completed := fun t ht => List.mem_cons_of_mem _ (h.completed t ht)
  order := h.order
  orderNodup := h.orderNodup
  edges := h.edges
  fresh := fun t ht => h.fresh t fun hin => ht (List.mem_cons_of_mem _ hin)
  sorted := h.sorted

theorem inv_leave {st : Setup} (h : SetupInv g st) (index : Nat) (hin : index ∈ st.analyzing)
    (hopen : index ∉ st.completed) : SetupInv g (st.leave index) where
  nodup := h.nodup
  bound := h.bound
  completed := fun t ht => by
    rcases List.mem_cons.1 ht with rfl | ht
    · exact hin
    · exact h.completed t ht
  order := fun t => by
    show t ∈ st.order ++ [index] ↔ t ∈ index :: st.completed
    rw [List.mem_append, List.mem_singleton, List.mem_cons, h.order, or_comm]
  orderNodup := by
    refine List.Nodup.append h.orderNodup (List.nodup_singleton _) ?_
    rw [List.disjoint_singleton]
    exact fun hmem => hopen ((h.order index).1 hmem)
  edges := fun t u hu => List.mem_cons_of_mem _ (h.edges t u hu)
  fresh := h.fresh
  sorted := by
    intro before t after heq u hu
    change st.order ++ [index] = before ++ t :: after at heq
    rcases List.eq_nil_or_concat after with rfl | ⟨after', x, rfl⟩
    · -- the new task stands behind all the others
      obtain ⟨rfl, -⟩ := List.append_inj' heq rfl
      exact (h.order u.1).2 (h.edges t u hu)
    · rw [List.concat_eq_append, ← List.cons_append, ← List.append_assoc] at heq
      exact h.sorted before t after' (List.append_inj' heq rfl).1 u hu

theorem setupTask_spec (fuel : Nat) : Visits g fuel (setupTask g fuel) := by
  induction fuel with
  | zero =>
    intro index d circular st h hbound hfuel
    -- there are no more tasks than there can be
    have hlen : st.analyzing.length ≤ g.references.length := by
      have hsub : st.analyzing ⊆ List.range g.references.length :=
        fun t ht => List.mem_range.2 (h.bound t ht)
      simpa using (h.nodup.subperm hsub).length_le
    omega
  | succ fuel ih =>
    intro index d circular st h hbound hfuel
    unfold setupTask
    by_cases hcomp : index ∈ st.completed
    · rw [if_pos hcomp]
      refine ⟨_, _, rfl, inv_addDownstream g h index d,
        grows_addDownstream g (Grows.refl _ st) index d, fun u hu => ?_⟩
      rw [completed_addDownstream, ← Option.some.inj hu]
      exact hcomp
    · rw [if_neg hcomp]
      by_cases hana : index ∈ st.analyzing
      · rw [if_pos hana]
        cases circular with
        | true => exact ⟨_, _, rfl, h, Grows.refl _ st, nofun⟩
        | false =>
          refine ⟨_, _, rfl, ?_, ?_, nofun⟩
          · exact ⟨h.nodup, h.bound, h.completed, h.order, h.orderNodup, h.edges, h.fresh, h.sorted⟩
          · exact ⟨fun _ ht => ht, fun _ ht => ht, Nat.le_refl _, fun _ _ ht => ht, fun _ _ _ => rfl⟩
      · rw [if_neg hana]
        have henter := inv_enter g h index hbound hana
        have hin : index ∈ (st.enter index).analyzing := List.mem_cons_self ..
        have hrefs : ∀ r ∈ ((g.references[index]?).getD []).zipIdx, r.1.1 < g.references.length := by
          intro r hr
          have hmem : r.1 ∈ (g.references[index]?).getD [] := by
            have := List.mem_zipIdx hr
            exact List.mem_of_getElem this.2.2.symm
          cases hget : g.references[index]? with
          | none =>
            rw [hget] at hmem
            cases hmem
          | some refs =>
            rw [hget] at hmem
            exact g.valid refs (List.mem_of_getElem? hget) r.1 hmem
        have hfuel' : g.references.length < fuel + (st.enter index).analyzing.length := by
          show g.references.length < fuel + (index :: st.analyzing).length
          rw [List.length_cons]
          omega
        obtain ⟨st1, hv, h1, hext⟩ := visitReferences_spec g fuel (setupTask g fuel) ih index circular
          _ (st.enter index) hrefs henter hin hcomp hfuel'
        have hin1 := hext.analyzing index hin
        have hopen1 : index ∉ st1.completed := fun hc => hcomp (hext.unfinished index hin hc)
        rw [hv]
        refine ⟨_, _, rfl, inv_addDownstream g (inv_leave g h1 index hin1 hopen1) index d,
          grows_addDownstream g ⟨?_, ?_, ?_, ?_, ?_⟩ index d, fun u hu => ?_⟩
        · exact fun t ht => List.mem_cons_of_mem _ (hext.completed t ht)
        · exact fun t ht => hext.analyzing t (List.mem_cons_of_mem _ ht)
        · have := hext.length
          exact (Nat.le_succ _).trans this
        · intro t ht hc
          rcases List.mem_cons.1 hc with rfl | hc
          · exact absurd ht hana
          · exact hext.unfinished t (List.mem_cons_of_mem _ ht) hc
        · intro t ht _
          refine hext.upstream t (List.mem_cons_of_mem _ ht) fun heq => ?_
          exact hana (Option.some.inj heq ▸ ht)
        · rw [completed_addDownstream, ← Option.some.inj hu]
          exact List.mem_cons_self ..

theorem setupRoots_spec (roots : List Nat) (st : Setup) (hroots : ∀ r ∈ roots, r < g.references.length)
    (h : SetupInv g st) : ∃ st', setupRoots g roots st = some st' ∧ SetupInv g st' := by
  induction roots generalizing st with
  | nil => exact ⟨st, rfl, h⟩
  | cons root roots ih =>
    obtain ⟨r, st1, hv, h1, -⟩ := setupTask_spec g (g.references.length + 1) root none false st h
      (hroots root (List.mem_cons_self ..)) (by omega)
    unfold setupRoots
    rw [hv]
    refine ih { st1 with stack := [] } (fun r hr => hroots r (List.mem_cons_of_mem _ hr)) ?_
    exact ⟨h1.nodup, h1.bound, h1.completed, h1.order, h1.orderNodup, h1.edges, h1.fresh, h1.sorted⟩

theorem inv_empty : SetupInv g Setup.empty :=
  ⟨List.nodup_nil, nofun, nofun, fun _ => Iff.rfl, List.nodup_nil, nofun, fun _ _ => rfl,
    fun before t after heq => absurd heq.symm (by simp [Setup.empty])⟩

/-- the order has no task twice, and each task stands behind its upstream tasks -/
theorem setup_spec : ∃ st, setup g = some st ∧ st.order.Nodup ∧ Sorted st.order st.upstream := by
  obtain ⟨st, hst, h⟩ := setupRoots_spec g g.roots Setup.empty g.rootsValid (inv_empty g)
  exact ⟨st, hst, h.orderNodup, h.sorted⟩

end

end Tsr.Build.Graph
