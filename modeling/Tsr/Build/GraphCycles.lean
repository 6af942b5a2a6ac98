import Mathlib
import Tsr.Build.Graph

/-!
# Which cycles of a project graph are reported

`setupTask` passes a circular mark down to everything that it visits below it, and it visits a task
once.  So a cycle without a marked reference goes unreported when the first way to it has a mark.

* `Searched`        what the tasks that were left know about their references;
* `Explores`        what a visit adds to it;
* `setup_cycles`    all tasks that can be reached are in the order; a reported cycle is there, and a
                    cycle that no mark leads to is reported;
* `setup_hidden`    a cycle that one order of the roots reports and the other does not.
-/

namespace Tsr.Build.Graph
open Relation

section
variable (g : Projects)

def Projects.refs (t : Nat) : List (Nat × Bool) := (g.references[t]?).getD []

def Refers (t u : Nat) : Prop := ∃ circular, (u, circular) ∈ g.refs t

def Unmarked (t u : Nat) : Prop := (u, false) ∈ g.refs t

def Reachable (t : Nat) : Prop := ∃ root ∈ g.roots, ReflTransGen (Refers g) root t

/-- the task is at or below the target of a marked reference -/
def BehindMark (v : Nat) : Prop :=
  ∃ t u, Reachable g t ∧ (u, true) ∈ g.refs t ∧ ReflTransGen (Refers g) u v

/-- a cycle without a marked reference that is reached from the roots -/
def Cycle (t : Nat) : Prop := Reachable g t ∧ TransGen (Unmarked g) t t

variable {g}

theorem Unmarked.refers {t u : Nat} (h : Unmarked g t u) : Refers g t u := ⟨false, h⟩

theorem Reachable.refers {t u : Nat} (h : Reachable g t) (hu : Refers g t u) : Reachable g u := by
  obtain ⟨root, hroot, hreach⟩ := h
  exact ⟨root, hroot, hreach.tail hu⟩

theorem BehindMark.reaches {v w : Nat} (h : BehindMark g v) (hw : ReflTransGen (Refers g) v w) :
    BehindMark g w := by
  obtain ⟨t, u, ht, hu, hv⟩ := h
  exact ⟨t, u, ht, hu, hv.trans hw⟩

/-- a task is open while its references are being visited -/
def Setup.Open (st : Setup) (t : Nat) : Prop := t ∈ st.analyzing ∧ t ∉ st.completed

variable (g)

structure Searched (st : Setup) : Prop where
  reach : ∀ t ∈ st.analyzing, Reachable g t
  closed : ∀ t ∈ st.completed, ∀ u, Refers g t u → u ∈ st.analyzing
  edges : ∀ t ∈ st.completed, ¬ BehindMark g t → ∀ u, Unmarked g t u →
    st.errors ≠ [] ∨ ∃ k, (u, k) ∈ st.upstream t
  errors : st.errors ≠ [] → ∃ t, Cycle g t

/-- the way to the task: without a mark, each open task leads to it over unmarked references -/
structure Way (circular : Bool) (leads : Nat → Nat → Prop) (st : Setup) (index : Nat) : Prop where
  reach : Reachable g index
  marked : circular = true → BehindMark g index
  unmarked : circular = false → ∀ t, st.Open t → leads t index

/-- what a visit keeps -/
structure Keeps (st st' : Setup) : Prop where
  opened : ∀ t, st'.Open t → st.Open t
  errors : st.errors ≠ [] → st'.errors ≠ []

variable {g}

theorem Keeps.refl (st : Setup) : Keeps st st := ⟨fun _ h => h, fun h => h⟩

theorem Keeps.trans {st st1 st2 : Setup} (h1 : Keeps st st1) (h2 : Keeps st1 st2) : Keeps st st2 :=
  ⟨fun t h => h1.opened t (h2.opened t h), fun h => h2.errors (h1.errors h)⟩

theorem Way.keeps {circular : Bool} {leads : Nat → Nat → Prop} {st st' : Setup} {index : Nat}
    (h : Way g circular leads st index) (hk : Keeps st st') : Way g circular leads st' index :=
  ⟨h.reach, h.marked, fun hc t ht => h.unmarked hc t (hk.opened t ht)⟩

/-- from a task to one of its references -/
theorem Way.reference {circular mark : Bool} {st : Setup} {index u : Nat}
    (h : Way g circular (ReflTransGen (Unmarked g)) st index) (hu : (u, mark) ∈ g.refs index) :
    Way g (circular || mark) (TransGen (Unmarked g)) st u where
  reach := h.reach.refers ⟨mark, hu⟩
  marked := fun hc => by
    rcases Bool.or_eq_true_iff.1 hc with hc | rfl
    · exact (h.marked hc).reaches (ReflTransGen.single ⟨mark, hu⟩)
    · exact ⟨index, u, h.reach, hu, ReflTransGen.refl⟩
  unmarked := fun hc t ht => by
    obtain ⟨hc', rfl⟩ := Bool.or_eq_false_iff.1 hc
    exact TransGen.tail' (h.unmarked hc' t ht) hu

theorem Searched.addDownstream {st : Setup} (h : Searched g st) (index : Nat) (d : Option Nat) :
    Searched g (st.addDownstream g index d) := by
  obtain ⟨downstream, heq⟩ := addDownstream_frame g st index d
  rw [heq]
  exact ⟨h.reach, h.closed, h.edges, h.errors⟩

theorem Keeps.addDownstream {st st' : Setup} (h : Keeps st st') (index : Nat) (d : Option Nat) :
    Keeps st (st'.addDownstream g index d) := by
  obtain ⟨downstream, heq⟩ := addDownstream_frame g st' index d
  rw [heq]
  exact ⟨h.opened, h.errors⟩

theorem analyzing_addDownstream (st : Setup) (index : Nat) (d : Option Nat) :
    (st.addDownstream g index d).analyzing = st.analyzing := by
  obtain ⟨downstream, heq⟩ := addDownstream_frame g st index d
  rw [heq]

theorem Searched.addUpstream {st : Setup} (h : Searched g st) (index u k : Nat) :
    Searched g (st.addUpstream index u k) where
  reach := h.reach
  closed := h.closed
  edges := fun t ht hmark v hv => by
    refine (h.edges t ht hmark v hv).imp id fun hex => ?_
    obtain ⟨k', hk'⟩ := hex
    refine ⟨k', ?_⟩
    show (v, k') ∈ Function.update st.upstream index (st.upstream index ++ [(u, k)]) t
    by_cases heq : t = index
    · subst heq
      rw [Function.update_self]
      exact List.mem_append_left _ hk'
    · rwa [Function.update_of_ne heq]
  errors := h.errors

theorem mem_addUpstream (st : Setup) (index u k : Nat) :
    (u, k) ∈ (st.addUpstream index u k).upstream index ∧
      ∀ e ∈ st.upstream index, e ∈ (st.addUpstream index u k).upstream index := by
  have heq : (st.addUpstream index u k).upstream index = st.upstream index ++ [(u, k)] :=
    Function.update_self ..
  rw [heq]
  exact ⟨by simp, fun e he => List.mem_append_left _ he⟩

variable (g)

/-- what `setupTask` adds to `Visits` -/
def Explores (fuel : Nat) (visit : Nat → Option Nat → Bool → Setup → Option (Option Nat × Setup)) :
    Prop :=
  ∀ index d circular st r st', SetupInv g st → index < g.references.length →
    g.references.length < fuel + st.analyzing.length → Searched g st →
    Way g circular (TransGen (Unmarked g)) st index → visit index d circular st = some (r, st') →
    Searched g st' ∧ Keeps st st' ∧ index ∈ st'.analyzing ∧ (∀ u, r = some u → u = index) ∧
      (r = none → circular = false → st'.errors ≠ [])

theorem visitReferences_explores (fuel : Nat)
    (visit : Nat → Option Nat → Bool → Setup → Option (Option Nat × Setup))
    (hvisit : Visits g fuel visit) (hexp : Explores g fuel visit) (index : Nat) (circular : Bool)
    (refs : List ((Nat × Bool) × Nat)) (st st' : Setup) (hrefs : ∀ r ∈ refs, r.1 ∈ g.refs index)
    (hbound : ∀ r ∈ refs, r.1.1 < g.references.length) (h : SetupInv g st)
    (hin : st.Open index) (hfuel : g.references.length < fuel + st.analyzing.length)
    (hs : Searched g st) (hway : Way g circular (ReflTransGen (Unmarked g)) st index)
    (hrun : visitReferences visit index circular refs st = some st') :
    Searched g st' ∧ Keeps st st' ∧ (∀ e ∈ st.upstream index, e ∈ st'.upstream index) ∧
      (∀ r ∈ refs, r.1.1 ∈ st'.analyzing) ∧
      (circular = false → ∀ r ∈ refs, r.1.2 = false →
        st'.errors ≠ [] ∨ ∃ k, (r.1.1, k) ∈ st'.upstream index) := by
  induction refs generalizing st with
  | nil =>
    obtain rfl := Option.some.inj hrun
    exact ⟨hs, Keeps.refl st, fun _ he => he, nofun, nofun⟩
  | cons r refs ih =>
    obtain ⟨⟨reference, mark⟩, refIndex⟩ := r
    have hmem : (reference, mark) ∈ g.refs index := hrefs _ (List.mem_cons_self ..)
    have hlt : reference < g.references.length := hbound _ (List.mem_cons_self ..)
    obtain ⟨r, st1, hv, h1, hext, hup⟩ := hvisit reference (some index) (circular || mark) st h hlt
      hfuel
    obtain ⟨hs1, hk1, hana1, hres, hnone⟩ := hexp reference (some index) (circular || mark) st r st1
      h hlt hfuel hs (hway.reference hmem) hv
    have hin1 : st1.Open index :=
      ⟨hext.analyzing index hin.1, fun hc => hin.2 (hext.unfinished index hin.1 hc)⟩
    have hfuel1 : g.references.length < fuel + st1.analyzing.length := by
      have := hext.length
      omega
    have hkeep : ∀ e ∈ st.upstream index, e ∈ st1.upstream index := fun e he => by
      rw [hext.upstream index hin.1 nofun]
      exact he
    -- the state from which the rest of the references are visited
    obtain ⟨st2, hst2, h2, hs2, hana2, hcomp2, herr2, hmore, hgot⟩ : ∃ st2,
        visitReferences visit index circular refs st2 = some st' ∧ SetupInv g st2 ∧
        Searched g st2 ∧ st2.analyzing = st1.analyzing ∧ st2.completed = st1.completed ∧
        st2.errors = st1.errors ∧ (∀ e ∈ st1.upstream index, e ∈ st2.upstream index) ∧
        (circular = false → mark = false →
          st2.errors ≠ [] ∨ ∃ k, (reference, k) ∈ st2.upstream index) := by
      unfold visitReferences at hrun
      rw [hv] at hrun
      cases r with
      | none =>
        refine ⟨st1, hrun, h1, hs1, rfl, rfl, rfl, fun _ he => he, fun hc hm => Or.inl ?_⟩
        exact hnone rfl (by rw [hc, hm]; rfl)
      | some u =>
        obtain rfl := hres u rfl
        obtain ⟨hgot, hmore⟩ := mem_addUpstream st1 index u refIndex
        exact ⟨_, hrun, (inv_addUpstream g h1 index u refIndex hin1.1 hin1.2 (hup u rfl)).1,
          hs1.addUpstream index u refIndex, rfl, rfl, rfl, hmore, fun _ _ => Or.inr ⟨refIndex, hgot⟩⟩
    have hk2 : Keeps st1 st2 := ⟨fun t ht => ⟨hana2 ▸ ht.1, hcomp2 ▸ ht.2⟩, fun he => herr2 ▸ he⟩
    have hin2 : st2.Open index := ⟨hana2 ▸ hin1.1, hcomp2 ▸ hin1.2⟩
    have hrefs2 : ∀ r ∈ refs, r.1 ∈ g.refs index := fun r hr => hrefs r (List.mem_cons_of_mem _ hr)
    have hbound2 : ∀ r ∈ refs, r.1.1 < g.references.length :=
      fun r hr => hbound r (List.mem_cons_of_mem _ hr)
    have hfuel2 : g.references.length < fuel + st2.analyzing.length := hana2 ▸ hfuel1
    obtain ⟨hs3, hk3, hkeep3, hana3, hedges3⟩ := ih st2 hrefs2 hbound2 h2 hin2 hfuel2 hs2
      ((hway.keeps hk1).keeps hk2) hst2
    obtain ⟨st3, hst3, -, hext3⟩ := visitReferences_spec g fuel visit hvisit index circular refs st2
      hbound2 h2 hin2.1 hin2.2 hfuel2
    obtain rfl : st3 = st' := Option.some.inj (hst3.symm.trans hst2)
    refine ⟨hs3, (hk1.trans hk2).trans hk3, fun e he => hkeep3 e (hmore e (hkeep e he)), ?_, ?_⟩
    · intro r' hr'
      rcases List.mem_cons.1 hr' with rfl | hr'
      · exact hext3.analyzing _ (hana2 ▸ hana1)
      · exact hana3 r' hr'
    · intro hc r' hr' hm
      rcases List.mem_cons.1 hr' with rfl | hr'
      · refine (hgot hc hm).imp hk3.errors fun hex => ?_
        obtain ⟨k, hk⟩ := hex
        exact ⟨k, hkeep3 _ hk⟩
      · exact hedges3 hc r' hr' hm

theorem setupTask_explores (fuel : Nat) : Explores g fuel (setupTask g fuel) := by
  induction fuel with
  | zero =>
    intro index d circular st r st' _ _ _ _ _ hrun
    cases hrun
  | succ fuel ih =>
    intro index d circular st r st' h hbound hfuel hs hway hrun
    unfold setupTask at hrun
    by_cases hcomp : index ∈ st.completed
    · rw [if_pos hcomp] at hrun
      obtain ⟨rfl, rfl⟩ := Prod.mk.inj (Option.some.inj hrun)
      refine ⟨hs.addDownstream index d, (Keeps.refl st).addDownstream index d, ?_, ?_, by simp⟩
      · rw [analyzing_addDownstream]
        exact h.completed index hcomp
      · exact fun u hu => (Option.some.inj hu).symm
    rw [if_neg hcomp] at hrun
    by_cases hana : index ∈ st.analyzing
    · rw [if_pos hana] at hrun
      obtain ⟨rfl, rfl⟩ := Prod.mk.inj (Option.some.inj hrun)
      cases circular with
      | true => exact ⟨hs, Keeps.refl st, hana, by simp, by simp⟩
      | false =>
        have hne : st.errors ++ [st.stack] ≠ [] := by simp
        refine ⟨⟨hs.reach, hs.closed, fun _ _ _ _ _ => Or.inl hne, fun _ => ?_⟩,
          ⟨fun _ ht => ht, fun _ => hne⟩, hana, by simp, fun _ _ => hne⟩
        -- the task itself is open
        exact ⟨index, hway.reach, hway.unmarked rfl index ⟨hana, hcomp⟩⟩
    rw [if_neg hana] at hrun
    have hmem : ∀ r ∈ (g.refs index).zipIdx, r.1 ∈ g.refs index := fun r hr =>
      List.mem_of_getElem (List.mem_zipIdx hr).2.2.symm
    have hlt : ∀ r ∈ (g.refs index).zipIdx, r.1.1 < g.references.length := fun r hr => by
      obtain ⟨refs, hget⟩ : ∃ refs, g.references[index]? = some refs :=
        ⟨_, List.getElem?_eq_getElem hbound⟩
      have hin := hmem r hr
      rw [Projects.refs, hget] at hin
      exact g.valid refs (List.mem_of_getElem? hget) r.1 hin
    have henter : SetupInv g (st.enter index) := inv_enter g h index hbound hana
    have hin : (st.enter index).Open index := ⟨List.mem_cons_self .., hcomp⟩
    have hfuel' : g.references.length < fuel + (st.enter index).analyzing.length := by
      show g.references.length < fuel + (index :: st.analyzing).length
      rw [List.length_cons]
      omega
    have hs' : Searched g (st.enter index) := by
      refine ⟨fun t ht => ?_, fun t ht u hu => List.mem_cons_of_mem _ (hs.closed t ht u hu),
        hs.edges, hs.errors⟩
      rcases List.mem_cons.1 ht with rfl | ht
      · exact hway.reach
      · exact hs.reach t ht
    have hway' : Way g circular (ReflTransGen (Unmarked g)) (st.enter index) index := by
      refine ⟨hway.reach, hway.marked, fun hc t ht => ?_⟩
      rcases List.mem_cons.1 ht.1 with rfl | hin
      · exact ReflTransGen.refl
      · exact (hway.unmarked hc t ⟨hin, ht.2⟩).to_reflTransGen
    obtain ⟨st1, hv, -, hext⟩ := visitReferences_spec g fuel (setupTask g fuel)
      (setupTask_spec g fuel) index circular _ (st.enter index) hlt henter hin.1 hin.2 hfuel'
    obtain ⟨hs1, hk1, -, hana1, hedges1⟩ := visitReferences_explores g fuel (setupTask g fuel)
      (setupTask_spec g fuel) ih index circular _ (st.enter index) st1 hmem hlt henter hin hfuel' hs'
      hway' hv
    rw [show (g.references[index]?).getD [] = g.refs index from rfl, hv] at hrun
    obtain ⟨rfl, rfl⟩ := Prod.mk.inj (Option.some.inj hrun)
    have hin1 : index ∈ st1.analyzing := hext.analyzing index hin.1
    have hall : ∀ u mark, (u, mark) ∈ g.refs index →
        ∃ r ∈ (g.refs index).zipIdx, r.1 = (u, mark) := fun u mark hu => by
      obtain ⟨i, hi, heq⟩ := List.mem_iff_getElem.1 hu
      exact ⟨((u, mark), i), List.mem_zipIdx_iff_getElem?.2 (heq ▸ List.getElem?_eq_getElem hi), rfl⟩
    have hleave : Searched g (st1.leave index) := by
      refine ⟨hs1.reach, fun t ht u hu => ?_, fun t ht hmark u hu => ?_, hs1.errors⟩
      · rcases List.mem_cons.1 ht with rfl | ht
        · obtain ⟨mark, hu⟩ := hu
          obtain ⟨r, hr, heq⟩ := hall u mark hu
          have := hana1 r hr
          rwa [heq] at this
        · exact hs1.closed t ht u hu
      · rcases List.mem_cons.1 ht with rfl | ht
        · have hc : circular = false := by
            cases circular with
            | false => rfl
            | true => exact absurd (hway.marked rfl) hmark
          obtain ⟨r, hr, heq⟩ := hall u false hu
          have := hedges1 hc r hr (by rw [heq])
          rwa [heq] at this
        · exact hs1.edges t ht hmark u hu
    have hkeeps : Keeps st (st1.leave index) := by
      refine ⟨fun t ht => ?_, hk1.errors⟩
      have hnot : t ∉ index :: st1.completed := ht.2
      have hopen := hk1.opened t ⟨ht.1, fun hc => hnot (List.mem_cons_of_mem _ hc)⟩
      rcases List.mem_cons.1 hopen.1 with rfl | hin
      · exact absurd (List.mem_cons_self ..) hnot
      · exact ⟨hin, hopen.2⟩
    refine ⟨hleave.addDownstream index d, hkeeps.addDownstream index d, ?_,
      fun u hu => (Option.some.inj hu).symm, by simp⟩
    rw [analyzing_addDownstream]
    exact hin1

/-- no task is open between two roots -/
theorem setupRoots_explores (roots : List Nat) (st st' : Setup) (hroots : ∀ r ∈ roots, r ∈ g.roots)
    (h : SetupInv g st) (hs : Searched g st) (hclosed : ∀ t, ¬ st.Open t)
    (hrun : setupRoots g roots st = some st') :
    SetupInv g st' ∧ Searched g st' ∧ (∀ t, ¬ st'.Open t) ∧
      ∀ t, t ∈ roots ∨ t ∈ st.analyzing → t ∈ st'.analyzing := by
  induction roots generalizing st with
  | nil =>
    obtain rfl := Option.some.inj hrun
    exact ⟨h, hs, hclosed, fun t ht => ht.resolve_left (List.not_mem_nil)⟩
  | cons root roots ih =>
    have hroot : root ∈ g.roots := hroots root (List.mem_cons_self ..)
    have hlt := g.rootsValid root hroot
    obtain ⟨r, st1, hv, h1, hext, -⟩ :=
      setupTask_spec g (g.references.length + 1) root none false st h hlt (by omega)
    obtain ⟨hs1, hk1, hana1, -⟩ := setupTask_explores g (g.references.length + 1) root none false st r
      st1 h hlt (by omega) hs ⟨⟨root, hroot, ReflTransGen.refl⟩, nofun,
        fun _ t ht => absurd ht (hclosed t)⟩ hv
    unfold setupRoots at hrun
    rw [hv] at hrun
    obtain ⟨h2, hs2, hclosed2, hana2⟩ := ih { st1 with stack := [] }
      (fun r hr => hroots r (List.mem_cons_of_mem _ hr))
      ⟨h1.nodup, h1.bound, h1.completed, h1.order, h1.orderNodup, h1.edges, h1.fresh, h1.sorted⟩
      ⟨hs1.reach, hs1.closed, hs1.edges, hs1.errors⟩
      (fun t ht => hclosed t (hk1.opened t ht)) hrun
    refine ⟨h2, hs2, hclosed2, fun t ht => ?_⟩
    rcases ht with ht | ht
    · rcases List.mem_cons.1 ht with rfl | ht
      · exact hana2 _ (Or.inr hana1)
      · exact hana2 t (Or.inl ht)
    · exact hana2 t (Or.inr (hext.analyzing t ht))

/-- an edge leads to an earlier place -/
theorem Sorted.idxOf_lt {order : List Nat} {upstream : Nat → List (Nat × Nat)}
    (h : Sorted order upstream) {t : Nat} (ht : t ∈ order) {e : Nat × Nat} (he : e ∈ upstream t) :
    order.idxOf e.1 < order.idxOf t := by
  obtain ⟨before, after, heq, hnot⟩ := List.eq_append_cons_of_mem ht
  have hin : e.1 ∈ before := h before t after heq e he
  rw [heq, List.idxOf_append_of_mem hin, List.idxOf_append_of_notMem hnot, List.idxOf_cons_self]
  exact Nat.lt_add_right _ (List.idxOf_lt_length_of_mem hin)

/-- **Setup of a graph**: every task that can be reached from the roots is in the order once and
behind its upstream tasks.  A reported cycle has no marked reference, and such a cycle is reported
unless a marked reference leads to it. -/
theorem setup_cycles : ∃ st, setup g = some st ∧ (∀ t, t ∈ st.order ↔ Reachable g t) ∧
    st.order.Nodup ∧ Sorted st.order st.upstream ∧ (st.errors ≠ [] → ∃ t, Cycle g t) ∧
    ∀ t, Cycle g t → ¬ BehindMark g t → st.errors ≠ [] := by
  have hempty := inv_empty g
  have hnone : ∀ t, t ∉ Setup.empty.analyzing := fun _ => List.not_mem_nil
  obtain ⟨st, hst, -⟩ := setupRoots_spec g g.roots Setup.empty g.rootsValid hempty
  obtain ⟨h, hs, hclosed, hroots⟩ := setupRoots_explores g g.roots Setup.empty st (fun _ hr => hr)
    hempty ⟨fun t h => absurd h (hnone t), fun t h => absurd h (hnone t), fun t h => absurd h (hnone t),
      fun he => absurd rfl he⟩ (fun t ht => List.not_mem_nil ht.1) hst
  have hdone : ∀ t ∈ st.analyzing, t ∈ st.completed := fun t ht =>
    not_not.1 fun hc => hclosed t ⟨ht, hc⟩
  have hall : ∀ t, Reachable g t → t ∈ st.completed := fun t ht => by
    obtain ⟨root, hroot, hreach⟩ := ht
    induction hreach with
    | refl => exact hdone root (hroots root (Or.inl hroot))
    | tail _ hu ih => exact hdone _ (hs.closed _ ih _ hu)
  refine ⟨st, hst, fun t => ⟨fun ht => ?_, fun ht => (h.order t).2 (hall t ht)⟩, h.orderNodup,
    h.sorted, hs.errors, fun t hcycle hmark herr => ?_⟩
  · exact hs.reach t (h.completed t ((h.order t).1 ht))
  -- without an error, each unmarked reference to `t` and on the way to it goes back in the order
  have hback : ∀ v, TransGen (Unmarked g) v t → v ∈ st.completed →
      st.order.idxOf t < st.order.idxOf v := by
    have hedge : ∀ v w, Unmarked g v w → ReflTransGen (Unmarked g) w t → v ∈ st.completed →
        st.order.idxOf w < st.order.idxOf v := fun v w hvw hwt hv => by
      have hnot : ¬ BehindMark g v := fun hb =>
        hmark (hb.reaches (ReflTransGen.mono (fun _ _ => Unmarked.refers) _ _ (hwt.head hvw)))
      obtain ⟨k, hk⟩ := (hs.edges v hv hnot w hvw).resolve_left (not_not.2 herr)
      exact h.sorted.idxOf_lt ((h.order v).2 hv) hk
    intro v hv
    induction hv using TransGen.head_induction_on with
    | single hvt => exact hedge _ t hvt ReflTransGen.refl
    | head hvw hwt ih =>
      intro hv
      have hw := hdone _ (hs.closed _ hv _ hvw.refers)
      exact (ih hw).trans (hedge _ _ hvw hwt.to_reflTransGen hv)
  exact lt_irrefl _ (hback t hcycle.2 (hall t hcycle.1))

end

/-! ## A mark that hides a cycle -/

/-- the first task has a marked reference to a cycle of the other two -/
def marked (roots : List Nat) (h : ∀ r ∈ roots, r < 3) : Projects where
  references := [[(1, true)], [(2, false)], [(1, false)]]
  roots := roots
  watch := false
  valid := by decide
  rootsValid := h

/-- the cycle is reported or not by the order of the roots -/
theorem setup_hidden : ∃ g g' : Projects, g.references = g'.references ∧ g.roots.Perm g'.roots ∧
    (∃ t, Cycle g t) ∧ (∃ st, setup g = some st ∧ st.errors = []) ∧
    ∃ st, setup g' = some st ∧ st.errors ≠ [] := by
  refine ⟨marked [0, 1] (by decide), marked [1, 0] (by decide), rfl, List.Perm.swap .., ⟨1, ?_, ?_⟩,
    ⟨_, rfl, rfl⟩, ⟨_, rfl, by decide⟩⟩
  · exact ⟨1, by decide, ReflTransGen.refl⟩
  · have h1 : Unmarked (marked [0, 1] (by decide)) 1 2 := List.mem_singleton.2 rfl
    have h2 : Unmarked (marked [0, 1] (by decide)) 2 1 := List.mem_singleton.2 rfl
    exact (TransGen.single h1).tail h2

end Tsr.Build.Graph
