import Tsr.Tsc.WatchManager

/-!
# No watch is leaked, none is closed twice

A closer is at one place: closed, held by a sweep, not stored yet, or in an entry that is listed or
waits in a sweep.  `places` lists them all, and every step keeps it a permutation of the closers that
the backend has returned.

* `live`           the entries that can own a closer;
* `pending`        entries of the running call that own none yet;
* `Inv`            the invariant, one step lemma for each kind of step;
* `closers_kept`   **what holds in every run**.
-/

set_option linter.unusedSectionVars false
set_option linter.unusedVariables false

namespace Tsr.Tsc.WatchManager

open Tsr.Lib.Run

variable {Dir : Type} [DecidableEq Dir]
variable {s : State Dir} {own : Sweep} {w w' : Sweep} {left : List (Dir × Nat × Nat)}

/-- all sweeps, the one of the running call last -/
def State.pool (s : State Dir) : List Sweep := s.sweeps ++ s.phase.sweeps

def State.live (s : State Dir) : List Nat :=
  s.watched.map Prod.snd ++ s.pool.flatMap Sweep.entries

def State.held (s : State Dir) : List Nat := s.pool.filterMap Sweep.held

def closersOf (entries : Nat → WatchedDir Dir) (ids : List Nat) : List Nat :=
  ids.filterMap fun id => (entries id).closer

/-- where the closers are -/
def State.places (s : State Dir) : List Nat :=
  s.closed ++ (s.held ++ (s.phase.left ++ closersOf s.entries s.live))

/-- what the running call has listed and has no closer for -/
def State.pending (s : State Dir) : List (Dir × Nat) :=
  match s.phase with
  | .sweeping _ => s.call.additions
  | .registering => s.call.additions
  | .storing _ left => left.map fun q => (q.1, q.2.1)
  | _ => []

/-- the call has not failed, and it found a backend -/
def State.reconciles (s : State Dir) : Prop :=
  s.call.backend = true ∧ s.phase ≠ .idle ∧ s.phase ≠ .returned false

/-- the table is the desired one, less what others have removed -/
def State.Agrees (s : State Dir) : Prop :=
  ∀ dir recursive, (∃ id, (dir, id) ∈ s.watched ∧ (s.entries id).recursive = recursive) ↔
    (dir, recursive) ∈ s.call.desired ∧ dir ∉ s.call.gone

/-- what does not depend on the call -/
structure Core (s : State Dir) : Prop where
  keys : (s.watched.map Prod.fst).Nodup
  dirs : ∀ p ∈ s.watched, (s.entries p.2).dir = p.1
  live : s.live.Nodup
  fresh : ∀ id ∈ s.live, id < s.next
  pending_ids : (s.pending.map Prod.snd).Nodup
  pending : ∀ p ∈ s.pending,
    p.2 < s.next ∧ (s.entries p.2).closer = none ∧ (s.entries p.2).dir = p.1
  places : s.places.Perm (List.range s.closers)
  numbers : s.issued.map Prod.fst = List.range s.closers
  stored : ∀ id closer, (s.entries id).closer = some closer → id ∈ s.live →
    (closer, (s.entries id).dir) ∈ s.issued
  left : ∀ held left, s.phase = .storing held left → ∀ q ∈ left, (q.2.2, q.1) ∈ s.issued
  backend : s.backend = false → s.watched = []

structure Inv (s : State Dir) : Prop extends Core s where
  table : s.reconciles → s.Agrees
  unserved : s.call.backend = false → s.watched = []
  failed : s.phase = .returned false → ∀ p ∈ s.call.additions, p ∉ s.watched

/-! ## closers of entries -/

@[simp] theorem setCloser_dir (entries : Nat → WatchedDir Dir) (id : Nat) (closer : Option Nat)
    (id' : Nat) : (setCloser entries id closer id').dir = (entries id').dir := by
  by_cases h : id' = id
  · subst h
    simp [setCloser]
  · simp [setCloser, h]

@[simp] theorem setCloser_recursive (entries : Nat → WatchedDir Dir) (id : Nat)
    (closer : Option Nat) (id' : Nat) :
    (setCloser entries id closer id').recursive = (entries id').recursive := by
  by_cases h : id' = id
  · subst h
    simp [setCloser]
  · simp [setCloser, h]

theorem setCloser_same (entries : Nat → WatchedDir Dir) (id : Nat) (closer : Option Nat) :
    (setCloser entries id closer id).closer = closer := by
  simp [setCloser]

theorem setCloser_other (entries : Nat → WatchedDir Dir) (id id' : Nat) (closer : Option Nat)
    (h : id' ≠ id) : (setCloser entries id closer id').closer = (entries id').closer := by
  simp [setCloser, h]

theorem closersOf_congr (entries entries' : Nat → WatchedDir Dir) (ids : List Nat)
    (h : ∀ id ∈ ids, (entries' id).closer = (entries id).closer) :
    closersOf entries' ids = closersOf entries ids :=
  List.filterMap_congr h

theorem closersOf_cons (entries : Nat → WatchedDir Dir) (id : Nat) (ids : List Nat) :
    closersOf entries (id :: ids) = (entries id).closer.toList ++ closersOf entries ids := by
  rw [closersOf, List.filterMap_cons]
  cases (entries id).closer <;> rfl

/-- a change at an entry that is there once -/
theorem closersOf_setCloser (entries : Nat → WatchedDir Dir) (id : Nat) (closer : Option Nat)
    (ids : List Nat) (h : id ∉ ids) : closersOf (setCloser entries id closer) ids = closersOf entries ids :=
  closersOf_congr _ _ _ fun id' h' =>
    setCloser_other entries id id' closer fun e => h (e ▸ h')

theorem closersOf_append (entries : Nat → WatchedDir Dir) (ids ids' : List Nat) :
    closersOf entries (ids ++ ids') = closersOf entries ids ++ closersOf entries ids' :=
  List.filterMap_append

/-- entries without a closer are not missed -/
theorem closersOf_filter (entries : Nat → WatchedDir Dir) (keep : Dir × Nat → Bool)
    (table : List (Dir × Nat))
    (h : ∀ p ∈ table, keep p = false → (entries p.2).closer = none) :
    closersOf entries ((table.filter keep).map Prod.snd) =
      closersOf entries (table.map Prod.snd) := by
  induction table with
  | nil => rfl
  | cons p table ih =>
    have ih := ih fun q hq => h q (List.mem_cons_of_mem p hq)
    rw [List.map_cons, closersOf_cons]
    by_cases hk : keep p = true
    · rw [List.filter_cons_of_pos hk, List.map_cons, closersOf_cons, ih]
    · have hk : keep p = false := by simpa using hk
      rw [List.filter_cons_of_neg (by simp [hk]), ih, h p List.mem_cons_self hk]
      rfl

/-- a directory has one entry -/
theorem Core.unique (hi : Core s) (dir : Dir) (id id' : Nat)
    (h : (dir, id) ∈ s.watched) (h' : (dir, id') ∈ s.watched) : id = id' := by
  have e := List.inj_on_of_nodup_map hi.keys h h' rfl
  exact (Prod.mk.inj e).2

theorem Core.watched_live (p : Dir × Nat) (h : p ∈ s.watched) : p.2 ∈ s.live :=
  List.mem_append_left _ (List.mem_map_of_mem h)

theorem init_inv (entries : Nat → WatchedDir Dir) : Inv (init entries) where
  keys := List.nodup_nil
  dirs := nofun
  live := List.nodup_nil
  fresh := nofun
  pending_ids := List.nodup_nil
  pending := nofun
  places := List.Perm.refl []
  numbers := rfl
  stored := nofun
  left := nofun
  backend := fun _ => rfl
  table := fun h => absurd rfl h.2.1
  unserved := fun _ => rfl
  failed := nofun

/-! ## entries that others remove -/

/-- entries move from the table to a new sweep -/
def State.remove (keep : Dir × Nat → Bool) (s : State Dir) : State Dir :=
  { s with
    watched := s.watched.filter keep
    sweeps := s.sweeps ++ [⟨none, (s.watched.filter fun p => !keep p).map Prod.snd⟩]
    call := { s.call with
      gone := s.call.gone ++ (s.watched.filter fun p => !keep p).map Prod.fst } }

theorem closeAll_eq (s : State Dir) : closeAll s = s.remove fun _ => false := by
  have h1 : s.watched.filter (fun _ => false) = [] := by simp
  have h2 : s.watched.filter (fun _ => !false) = s.watched := by simp
  rw [State.remove, h1, h2]
  rfl

theorem terminated_eq (hi : Core s) (dir : Dir) (id : Nat)
    (h : (dir, id) ∈ s.watched) :
    terminated dir id s = s.remove fun p => decide (p ≠ (dir, id)) := by
  have hnodup : s.watched.Nodup := hi.keys.of_map _
  have hone : s.watched.filter (fun p => !decide (p ≠ (dir, id))) = [(dir, id)] := by
    have h1 : s.watched.filter (fun p => !decide (p ≠ (dir, id))) =
        s.watched.filter fun p => p == (dir, id) := by
      apply List.filter_congr
      intro p _
      by_cases e : p = (dir, id) <;> simp [e]
    rw [h1, List.filter_beq, List.count_eq_one_of_mem hnodup h]
    rfl
  rw [terminated, if_pos h, State.remove, hone]
  rfl

theorem live_remove (keep : Dir × Nat → Bool) (s : State Dir) :
    (s.remove keep).live.Perm s.live := by
  have hpool : (s.remove keep).pool.flatMap Sweep.entries =
      s.sweeps.flatMap Sweep.entries ++ ((s.watched.filter fun p => !keep p).map Prod.snd ++
        s.phase.sweeps.flatMap Sweep.entries) := by
    simp [State.pool, State.remove]
  have hsplit := (List.filter_append_perm keep s.watched).map Prod.snd
  rw [List.map_append] at hsplit
  rw [State.live, State.live, hpool, State.pool, List.flatMap_append]
  refine List.Perm.trans ?_ (List.Perm.append_right _ hsplit)
  show (((s.watched.filter keep).map Prod.snd) ++ _).Perm _
  rw [List.append_assoc]
  apply List.Perm.append_left
  rw [← List.append_assoc, ← List.append_assoc]
  exact List.Perm.append_right _ List.perm_append_comm

theorem held_remove (keep : Dir × Nat → Bool) (s : State Dir) : (s.remove keep).held = s.held := by
  simp [State.held, State.pool, State.remove]

theorem remove_core (hi : Core s) (keep : Dir × Nat → Bool) :
    Core (s.remove keep) where
  keys := (hi.keys.sublist (List.filter_sublist.map Prod.fst))
  dirs := fun p h => hi.dirs p (List.mem_filter.1 h).1
  live := (live_remove keep s).nodup_iff.2 hi.live
  fresh := fun id h => hi.fresh id ((live_remove keep s).mem_iff.1 h)
  pending_ids := hi.pending_ids
  pending := hi.pending
  places := by
    refine List.Perm.trans ?_ hi.places
    rw [State.places, held_remove]
    apply List.Perm.append_left
    apply List.Perm.append_left
    apply List.Perm.append_left
    exact (live_remove keep s).filterMap _
  numbers := hi.numbers
  stored := fun id closer hc h => hi.stored id closer hc ((live_remove keep s).mem_iff.1 h)
  left := hi.left
  backend := by
    intro h
    show s.watched.filter keep = []
    rw [hi.backend h]
    rfl

theorem remove_inv (hi : Inv s) (keep : Dir × Nat → Bool) :
    Inv (s.remove keep) where
  toCore := remove_core hi.toCore keep
  table := by
    intro h dir recursive
    have ht := hi.table h dir recursive
    constructor
    · rintro ⟨id, hid, hr⟩
      obtain ⟨hid, hk⟩ := List.mem_filter.1 hid
      obtain ⟨h1, h2⟩ := ht.1 ⟨id, hid, hr⟩
      refine ⟨h1, ?_⟩
      intro hg
      rcases List.mem_append.1 hg with hg | hg
      · exact h2 hg
      · -- the removed entry would be a second one of the directory
        obtain ⟨⟨dir', id'⟩, hp, rfl⟩ := List.mem_map.1 hg
        obtain ⟨hp, hk'⟩ := List.mem_filter.1 hp
        rw [hi.unique dir' id id' hid hp] at hk
        rw [hk] at hk'
        exact nomatch hk'
    · rintro ⟨h1, h2⟩
      obtain ⟨id, hid, hr⟩ := ht.2 ⟨h1, fun hg => h2 (List.mem_append_left _ hg)⟩
      refine ⟨id, List.mem_filter.2 ⟨hid, ?_⟩, hr⟩
      by_contra hk
      apply h2
      apply List.mem_append_right
      exact List.mem_map.2 ⟨(dir, id), List.mem_filter.2 ⟨hid, by simpa using hk⟩, rfl⟩
  unserved := by
    intro h
    show s.watched.filter keep = []
    rw [hi.unserved h]
    rfl
  failed := fun h p hp hw => hi.failed h p hp (List.mem_filter.1 hw).1

theorem terminated_inv (hi : Inv s) (dir : Dir) (id : Nat) :
    Inv (terminated dir id s) := by
  by_cases h : (dir, id) ∈ s.watched
  · rw [terminated_eq hi.toCore dir id h]
    exact remove_inv hi _
  · rw [terminated, if_neg h]
    exact hi

theorem closeAll_inv (hi : Inv s) : Inv (closeAll s) := by
  rw [closeAll_eq]
  exact remove_inv hi _

/-! ## the part under the lock -/

/-- the call has begun, nothing is added yet -/
def State.kept (s : State Dir) (desired : List (Dir × Bool)) : State Dir :=
  { s with
    watched := s.watched.filter (s.wanted desired)
    phase := .sweeping ⟨none, (s.watched.filter fun p => !s.wanted desired p).map Prod.snd⟩
    call := ⟨desired, true, [], []⟩ }

/-- no call is running -/
def State.rests (s : State Dir) : Prop := s.phase = .idle ∨ ∃ ok, s.phase = .returned ok

theorem rests_sweeps (h : s.rests) : s.phase.sweeps = [] ∧ s.phase.left = [] := by
  rcases h with h | ⟨ok, h⟩ <;> rw [h] <;> exact ⟨rfl, rfl⟩

theorem live_kept (h : s.rests) (desired : List (Dir × Bool)) :
    (s.kept desired).live.Perm s.live := by
  have hpool : (s.kept desired).pool.flatMap Sweep.entries = s.sweeps.flatMap Sweep.entries ++
      (s.watched.filter fun p => !s.wanted desired p).map Prod.snd := by
    simp [State.pool, State.kept, Phase.sweeps]
  have hsplit := (List.filter_append_perm (s.wanted desired) s.watched).map Prod.snd
  rw [List.map_append] at hsplit
  rw [State.live, State.live, hpool, State.pool, (rests_sweeps h).1, List.append_nil]
  refine List.Perm.trans ?_ (List.Perm.append_right _ hsplit)
  show (((s.watched.filter (s.wanted desired)).map Prod.snd) ++ _).Perm _
  rw [List.append_assoc]
  exact List.Perm.append_left _ List.perm_append_comm

theorem kept_core (hi : Core s) (h : s.rests) (desired : List (Dir × Bool))
    (hb : s.backend = true) : Core (s.kept desired) where
  keys := hi.keys.sublist (List.filter_sublist.map Prod.fst)
  dirs := fun p hp => hi.dirs p (List.mem_filter.1 hp).1
  live := (live_kept h desired).nodup_iff.2 hi.live
  fresh := fun id hid => hi.fresh id ((live_kept h desired).mem_iff.1 hid)
  pending_ids := List.nodup_nil
  pending := nofun
  places := by
    refine List.Perm.trans ?_ hi.places
    have hheld : (s.kept desired).held = s.held := by
      rw [State.held, State.held, State.pool, State.pool, (rests_sweeps h).1]
      simp [State.kept, Phase.sweeps]
    rw [State.places, State.places, hheld, (rests_sweeps h).2]
    apply List.Perm.append_left
    apply List.Perm.append_left
    exact (live_kept h desired).filterMap _
  numbers := hi.numbers
  stored := fun id closer hc hid => hi.stored id closer hc ((live_kept h desired).mem_iff.1 hid)
  left := nofun
  backend := fun h' => absurd (hb.symm.trans h') (by decide)

theorem addOne_new (p : Dir × Bool) (h : s.lists p.1 = false) :
    addOne s p =
      { s with
        watched := s.watched ++ [(p.1, s.next)]
        entries := Function.update s.entries s.next ⟨p.1, p.2, none⟩
        next := s.next + 1
        call := { s.call with additions := s.call.additions ++ [(p.1, s.next)] } } := by
  rw [addOne, if_neg (by simp [h])]

theorem addOne_phase (s : State Dir) (p : Dir × Bool) : (addOne s p).phase = s.phase := by
  rw [addOne]
  split <;> rfl

theorem live_addOne (p : Dir × Bool) (h : s.lists p.1 = false) :
    (addOne s p).live.Perm (s.next :: s.live) := by
  rw [addOne_new p h]
  show ((s.watched ++ [(p.1, s.next)]).map Prod.snd ++ s.pool.flatMap Sweep.entries).Perm _
  rw [List.map_append, List.append_assoc]
  exact List.perm_middle

theorem update_below (entries : Nat → WatchedDir Dir) (id next : Nat) (w : WatchedDir Dir)
    (h : id < next) : Function.update entries next w id = entries id :=
  Function.update_of_ne (Nat.ne_of_lt h) w entries

theorem addOne_core (hi : Core s) (own : Sweep) (hphase : s.phase = .sweeping own)
    (hb : s.backend = true) (p : Dir × Bool) : Core (addOne s p) := by
  by_cases hl : s.lists p.1 = true
  · rw [addOne, if_pos hl]
    exact hi
  have hl : s.lists p.1 = false := by simpa using hl
  have hlive := live_addOne p hl
  have hfresh : s.next ∉ s.live := fun h => Nat.lt_irrefl _ (hi.fresh _ h)
  have hadditions : ∀ q ∈ s.call.additions,
      q.2 < s.next ∧ (s.entries q.2).closer = none ∧ (s.entries q.2).dir = q.1 := by
    have := hi.pending
    rwa [State.pending, hphase] at this
  have hids : (s.call.additions.map Prod.snd).Nodup := by
    have := hi.pending_ids
    rwa [State.pending, hphase] at this
  have hpending : (addOne s p).pending = s.call.additions ++ [(p.1, s.next)] := by
    rw [State.pending, addOne_phase, hphase, addOne_new p hl]
  have hentries : (addOne s p).entries = Function.update s.entries s.next ⟨p.1, p.2, none⟩ := by
    rw [addOne_new p hl]
  have hnext : (addOne s p).next = s.next + 1 := by rw [addOne_new p hl]
  have hsame : ∀ id ∈ s.live, (addOne s p).entries id = s.entries id := by
    intro id hid
    rw [hentries]
    exact update_below _ _ _ _ (hi.fresh id hid)
  have hissued : (addOne s p).issued = s.issued := by rw [addOne_new p hl]
  refine
    { keys := ?_, dirs := ?_, live := ?_, fresh := ?_, pending_ids := ?_, pending := ?_,
      places := ?_, numbers := ?_, stored := ?_, left := ?_, backend := ?_ }
  · rw [addOne_new p hl]
    show ((s.watched ++ [(p.1, s.next)]).map Prod.fst).Nodup
    rw [List.map_append, List.nodup_append]
    refine ⟨hi.keys, List.nodup_singleton _, ?_⟩
    intro a ha b hb e
    rw [List.mem_singleton.1 hb] at e
    subst e
    exact absurd ha (by simpa [State.lists] using hl)
  · intro q hq
    have hw : (addOne s p).watched = s.watched ++ [(p.1, s.next)] := by rw [addOne_new p hl]
    rw [hw] at hq
    rcases List.mem_append.1 hq with hq | hq
    · rw [hsame q.2 (Core.watched_live q hq)]
      exact hi.dirs q hq
    · rw [List.mem_singleton.1 hq, hentries]
      show (Function.update s.entries s.next _ s.next).dir = _
      rw [Function.update_self]
  · exact hlive.nodup_iff.2 (List.nodup_cons.2 ⟨hfresh, hi.live⟩)
  · intro id hid
    rw [hnext]
    rcases List.mem_cons.1 (hlive.mem_iff.1 hid) with rfl | hid
    · exact Nat.lt_succ_self _
    · exact Nat.lt_succ_of_lt (hi.fresh id hid)
  · rw [hpending, List.map_append, List.nodup_append]
    refine ⟨hids, List.nodup_singleton _, ?_⟩
    intro a ha b hb e
    obtain ⟨q, hq, rfl⟩ := List.mem_map.1 ha
    have := (hadditions q hq).1
    rw [e, List.mem_singleton.1 hb] at this
    exact Nat.lt_irrefl _ this
  · intro q hq
    rw [hpending] at hq
    rw [hnext, hentries]
    rcases List.mem_append.1 hq with hq | hq
    · obtain ⟨h1, h2, h3⟩ := hadditions q hq
      rw [update_below _ _ _ _ h1]
      exact ⟨Nat.lt_succ_of_lt h1, h2, h3⟩
    · rw [List.mem_singleton.1 hq]
      show s.next < s.next + 1 ∧ (Function.update s.entries s.next _ s.next).closer = none ∧
        (Function.update s.entries s.next _ s.next).dir = p.1
      rw [Function.update_self]
      exact ⟨Nat.lt_succ_self _, rfl, rfl⟩
  · have hclosers : (addOne s p).closers = s.closers := by rw [addOne_new p hl]
    have hheld : (addOne s p).held = s.held := by rw [addOne_new p hl]; rfl
    have hclosed : (addOne s p).closed = s.closed := by rw [addOne_new p hl]
    rw [hclosers]
    refine List.Perm.trans ?_ hi.places
    rw [State.places, State.places, hheld, hclosed, addOne_phase]
    apply List.Perm.append_left
    apply List.Perm.append_left
    apply List.Perm.append_left
    have h1 := hlive.filterMap fun id => ((addOne s p).entries id).closer
    refine List.Perm.trans h1 (List.Perm.of_eq ?_)
    show closersOf (addOne s p).entries (s.next :: s.live) = _
    rw [closersOf_cons]
    have hnone : ((addOne s p).entries s.next).closer = none := by
      rw [hentries, Function.update_self]
    rw [hnone]
    exact closersOf_congr _ _ _ fun id hid => by rw [hsame id hid]
  · rw [addOne_new p hl]
    exact hi.numbers
  · intro id closer hc hid
    rcases List.mem_cons.1 (hlive.mem_iff.1 hid) with rfl | hid
    · rw [hentries, Function.update_self] at hc
      exact nomatch hc
    · rw [hsame id hid] at hc ⊢
      rw [hissued]
      exact hi.stored id closer hc hid
  · intro held left h
    rw [addOne_phase, hphase] at h
    exact nomatch h
  · intro h
    rw [addOne_new p hl] at h
    exact absurd (hb.symm.trans h) (by decide)

/-- what the additions keep while they are made -/
structure Adding (desired : List (Dir × Bool)) (own : Sweep) (s : State Dir) : Prop where
  core : Core s
  phase : s.phase = .sweeping own
  backend : s.backend = true
  called : s.call.desired = desired ∧ s.call.gone = [] ∧ s.call.backend = true
  listed : ∀ p ∈ s.watched, (p.1, (s.entries p.2).recursive) ∈ desired

theorem addOne_adding {desired : List (Dir × Bool)}
    (h : Adding desired own s) (p : Dir × Bool) (hp : p ∈ desired) :
    Adding desired own (addOne s p) where
  core := addOne_core h.core own h.phase h.backend p
  phase := (addOne_phase s p).trans h.phase
  backend := by
    rw [addOne]
    split <;> exact h.backend
  called := by
    rw [addOne]
    split <;> exact h.called
  listed := by
    by_cases hl : s.lists p.1 = true
    · rw [addOne, if_pos hl]
      exact h.listed
    · rw [addOne_new p (by simpa using hl)]
      intro q hq
      rcases List.mem_append.1 hq with hq | hq
      · have hlt := h.core.fresh q.2 (Core.watched_live q hq)
        show (q.1, (Function.update s.entries s.next _ q.2).recursive) ∈ desired
        rw [update_below _ _ _ _ hlt]
        exact h.listed q hq
      · rw [List.mem_singleton.1 hq]
        show (p.1, (Function.update s.entries s.next _ s.next).recursive) ∈ desired
        rw [Function.update_self]
        exact hp

theorem addOne_lists (s : State Dir) (p : Dir × Bool) (dir : Dir)
    (h : dir ∈ s.watched.map Prod.fst ∨ dir = p.1) : dir ∈ (addOne s p).watched.map Prod.fst := by
  by_cases hl : s.lists p.1 = true
  · rw [addOne, if_pos hl]
    rcases h with h | rfl
    · exact h
    · simpa [State.lists] using hl
  · rw [addOne_new p (by simpa using hl)]
    show dir ∈ (s.watched ++ [(p.1, s.next)]).map Prod.fst
    rw [List.map_append]
    rcases h with h | rfl
    · exact List.mem_append_left _ h
    · exact List.mem_append_right _ List.mem_cons_self

theorem foldl_addOne {desired : List (Dir × Bool)} (todo : List (Dir × Bool))
    (s : State Dir) (h : Adding desired own s) (hsub : ∀ p ∈ todo, p ∈ desired) :
    Adding desired own (todo.foldl addOne s) ∧ ∀ dir,
      (dir ∈ s.watched.map Prod.fst ∨ dir ∈ todo.map Prod.fst) →
        dir ∈ (todo.foldl addOne s).watched.map Prod.fst := by
  induction todo generalizing s with
  | nil =>
    refine ⟨h, ?_⟩
    rintro dir (hd | hd)
    · exact hd
    · exact nomatch hd
  | cons p todo ih =>
    obtain ⟨h1, h2⟩ := ih (addOne s p) (addOne_adding h p (hsub p List.mem_cons_self))
      fun q hq => hsub q (List.mem_cons_of_mem p hq)
    refine ⟨h1, ?_⟩
    intro dir hd
    apply h2 dir
    rcases hd with hd | hd
    · exact Or.inl (addOne_lists s p dir (Or.inl hd))
    · rcases List.mem_cons.1 hd with hd | hd
      · exact Or.inl (addOne_lists s p dir (Or.inr hd))
      · exact Or.inr hd

/-- the table is the desired one as soon as every desired directory is listed -/
theorem Adding.agrees {desired : Desired Dir}
    (h : Adding desired.1 own s)
    (hall : ∀ dir, dir ∈ desired.1.map Prod.fst → dir ∈ s.watched.map Prod.fst) : s.Agrees := by
  intro dir recursive
  rw [h.called.1, h.called.2.1]
  constructor
  · rintro ⟨id, hid, rfl⟩
    exact ⟨h.listed _ hid, List.not_mem_nil⟩
  · rintro ⟨hd, -⟩
    obtain ⟨⟨dir', id⟩, hid, rfl⟩ := List.mem_map.1 (hall dir (List.mem_map_of_mem hd))
    have e := List.inj_on_of_nodup_map desired.2 (h.listed _ hid) hd rfl
    exact ⟨id, hid, (Prod.mk.inj e).2⟩

theorem reconcile_inv (hi : Inv s) (h : s.rests) (desired : Desired Dir) :
    Inv (reconcile desired s) := by
  by_cases hb : s.backend = true
  · obtain ⟨own, hown⟩ : ∃ own, (s.kept desired.1).phase = .sweeping own := ⟨_, rfl⟩
    have h0 : Adding desired.1 own (s.kept desired.1) :=
      { core := kept_core hi.toCore h desired.1 hb
        phase := hown
        backend := hb
        called := ⟨rfl, rfl, rfl⟩
        listed := fun p hp => of_decide_eq_true (List.mem_filter.1 hp).2 }
    obtain ⟨h1, h2⟩ := foldl_addOne desired.1 (s.kept desired.1) h0 fun p hp => hp
    have e : reconcile desired s = desired.1.foldl addOne (s.kept desired.1) := by
      rw [reconcile, if_pos hb]
      rfl
    rw [e]
    exact
      { toCore := h1.core
        table := fun _ => h1.agrees fun dir hd => h2 dir (Or.inr hd)
        unserved := fun hu => absurd (h1.called.2.2.symm.trans hu) (by decide)
        failed := fun hf => by rw [h1.phase] at hf; exact nomatch hf }
  · rw [reconcile, if_neg hb]
    have hsweeps := rests_sweeps h
    exact
      { hi with
        live := by
          have := hi.live
          rwa [State.live, State.pool, hsweeps.1] at this
        fresh := by
          have := hi.fresh
          rwa [State.live, State.pool, hsweeps.1] at this
        pending_ids := List.nodup_nil
        pending := nofun
        places := by
          have := hi.places
          rwa [State.places, State.live, State.held, State.pool, hsweeps.1, hsweeps.2] at this
        stored := by
          have := hi.stored
          rwa [State.live, State.pool, hsweeps.1] at this
        left := nofun
        table := fun ht => nomatch ht.1
        unserved := fun _ => hi.backend (by simpa using hb)
        failed := fun hf => nomatch hf }

/-! ## sweeps -/

theorem sweepStep_cases {s s1 : State Dir} (h : sweepStep s w = some (s1, w')) :
    (∃ closer, w = ⟨some closer, w'.entries⟩ ∧ w'.held = none ∧
      s1 = { s with closed := s.closed ++ [closer] }) ∨
    ∃ id, w = ⟨none, id :: w'.entries⟩ ∧ w'.held = (s.entries id).closer ∧
      s1 = { s with entries := setCloser s.entries id none } := by
  obtain ⟨held, entries⟩ := w
  cases held with
  | some closer =>
    cases h
    exact Or.inl ⟨closer, rfl, rfl, rfl⟩
  | none =>
    cases entries with
    | nil => exact nomatch h
    | cons id entries =>
      cases h
      exact Or.inr ⟨id, rfl, rfl, rfl⟩

/-- one sweep of the pool moves, and the state with it -/
structure Swept (s : State Dir) (w w' : Sweep) (s' : State Dir) : Prop where
  took : ∃ s1, sweepStep s w = some (s1, w') ∧
    s' = { s1 with sweeps := s'.sweeps, phase := s'.phase }
  pool : ∃ rest, s.pool.Perm (w :: rest) ∧ s'.pool.Perm (w' :: rest)
  pending : s'.pending = s.pending
  left : s'.phase.left = s.phase.left
  storing : ∀ held left, s'.phase = .storing held left → s.phase = .storing held left
  reconciles : s'.reconciles → s.reconciles
  failed : s'.phase = .returned false → s.phase = .returned false

theorem live_of_pool {w : Sweep} {rest : List Sweep} (h : s.pool.Perm (w :: rest)) :
    s.live.Perm (w.entries ++ (s.watched.map Prod.snd ++ rest.flatMap Sweep.entries)) := by
  have h1 : s.live.Perm
      (s.watched.map Prod.snd ++ (w.entries ++ rest.flatMap Sweep.entries)) := by
    apply List.Perm.append_left
    exact h.flatMap_right Sweep.entries
  refine h1.trans ?_
  rw [← List.append_assoc, ← List.append_assoc]
  exact List.Perm.append_right _ List.perm_append_comm

theorem held_of_pool {w : Sweep} {rest : List Sweep} (h : s.pool.Perm (w :: rest)) :
    s.held.Perm (w.held.toList ++ rest.filterMap Sweep.held) := by
  have h1 := h.filterMap Sweep.held
  rw [List.filterMap_cons] at h1
  cases hw : w.held with
  | none =>
    rw [hw] at h1
    exact h1
  | some closer =>
    rw [hw] at h1
    exact h1

theorem places_count (s : State Dir) (closer : Nat) :
    s.places.count closer = s.closed.count closer + s.held.count closer +
      s.phase.left.count closer + (closersOf s.entries s.live).count closer := by
  rw [State.places, List.count_append, List.count_append, List.count_append]
  omega

/-- a closer that was taken is closed -/
theorem swept_close {s s' : State Dir} (hi : Core s) (closer : Nat) (entries : List Nat)
    (h : Swept s ⟨some closer, entries⟩ ⟨none, entries⟩ s')
    (e : s' = { s with closed := s.closed ++ [closer], sweeps := s'.sweeps, phase := s'.phase }) :
    Core s' := by
  obtain ⟨rest, hp, hp'⟩ := h.pool
  have hwatched : s'.watched = s.watched := by rw [e]
  have hentries : s'.entries = s.entries := by rw [e]
  have hlive : s'.live.Perm s.live := by
    have h1 := live_of_pool hp'
    rw [hwatched] at h1
    exact h1.trans (live_of_pool hp).symm
  have hclosers : (closersOf s.entries s'.live).Perm (closersOf s.entries s.live) :=
    hlive.filterMap _
  exact
    { keys := hwatched ▸ hi.keys
      dirs := by rw [hwatched, hentries]; exact hi.dirs
      live := hlive.nodup_iff.2 hi.live
      fresh := fun id hid => by
        rw [congrArg State.next e]
        exact hi.fresh id (hlive.mem_iff.1 hid)
      pending_ids := h.pending ▸ hi.pending_ids
      pending := by
        rw [h.pending, congrArg State.next e, hentries]
        exact hi.pending
      places := by
        rw [congrArg State.closers e]
        refine List.Perm.trans (List.perm_iff_count.2 fun c => ?_) hi.places
        rw [places_count, places_count, congrArg State.closed e, h.left, hentries,
          (held_of_pool hp').count_eq, (held_of_pool hp).count_eq, hclosers.count_eq]
        simp only [Option.toList, List.count_append, List.count_nil, List.count_cons]
        omega
      numbers := by
        rw [congrArg State.issued e, congrArg State.closers e]
        exact hi.numbers
      stored := by
        rw [hentries, congrArg State.issued e]
        exact fun id c hc hid => hi.stored id c hc (hlive.mem_iff.1 hid)
      left := by
        rw [congrArg State.issued e]
        exact fun held left hl => hi.left held left (h.storing held left hl)
      backend := by
        rw [congrArg State.backend e, hwatched]
        exact hi.backend }

/-- the closer of a removed entry is taken -/
theorem swept_take {s s' : State Dir} (hi : Core s) (id : Nat) (entries : List Nat)
    (h : Swept s ⟨none, id :: entries⟩ ⟨(s.entries id).closer, entries⟩ s')
    (e : s' = { s with
      entries := setCloser s.entries id none, sweeps := s'.sweeps, phase := s'.phase }) :
    Core s' := by
  obtain ⟨rest, hp, hp'⟩ := h.pool
  have hwatched : s'.watched = s.watched := by rw [e]
  have hentries : s'.entries = setCloser s.entries id none := congrArg State.entries e
  have hlive : s.live.Perm (id :: s'.live) := by
    have h1 := live_of_pool hp'
    rw [hwatched] at h1
    exact (live_of_pool hp).trans (h1.symm.cons id)
  have hnodup := List.nodup_cons.1 (hlive.nodup_iff.1 hi.live)
  have hmem : ∀ id' ∈ s'.live, id' ∈ s.live := fun id' h' =>
    hlive.mem_iff.2 (List.mem_cons_of_mem id h')
  exact
    { keys := hwatched ▸ hi.keys
      dirs := by
        rw [hwatched, hentries]
        intro p hp
        rw [setCloser_dir]
        exact hi.dirs p hp
      live := hnodup.2
      fresh := fun id' h' => by
        rw [congrArg State.next e]
        exact hi.fresh id' (hmem id' h')
      pending_ids := h.pending ▸ hi.pending_ids
      pending := by
        rw [h.pending, congrArg State.next e, hentries]
        intro p hp
        obtain ⟨h1, h2, h3⟩ := hi.pending p hp
        refine ⟨h1, ?_, (setCloser_dir _ _ _ _).trans h3⟩
        by_cases he : p.2 = id
        · rw [he]
          exact setCloser_same _ _ _
        · rw [setCloser_other _ _ _ _ he]
          exact h2
      places := by
        rw [congrArg State.closers e]
        refine List.Perm.trans (List.perm_iff_count.2 fun c => ?_) hi.places
        have h1 : (closersOf s.entries s.live).Perm (closersOf s.entries (id :: s'.live)) :=
          hlive.filterMap fun id => (s.entries id).closer
        rw [closersOf_cons] at h1
        rw [places_count, places_count, congrArg State.closed e, h.left, hentries,
          closersOf_setCloser _ _ _ _ hnodup.1, (held_of_pool hp').count_eq,
          (held_of_pool hp).count_eq, h1.count_eq]
        simp only [Option.toList, List.count_append, List.count_nil]
        omega
      numbers := by
        rw [congrArg State.issued e, congrArg State.closers e]
        exact hi.numbers
      stored := by
        rw [hentries, congrArg State.issued e]
        intro id' c hc h'
        have hne : id' ≠ id := fun he => hnodup.1 (he ▸ h')
        rw [setCloser_other _ _ _ _ hne] at hc
        rw [setCloser_dir]
        exact hi.stored id' c hc (hmem id' h')
      left := by
        rw [congrArg State.issued e]
        exact fun held left hl => hi.left held left (h.storing held left hl)
      backend := by
        rw [congrArg State.backend e, hwatched]
        exact hi.backend }

theorem swept_inv {s s' : State Dir} (hi : Inv s) (h : Swept s w w' s') : Inv s' := by
  obtain ⟨s1, h1, e⟩ := h.took
  have hcore : Core s' ∧ s'.watched = s.watched ∧ s'.call = s.call ∧
      ∀ id, (s'.entries id).recursive = (s.entries id).recursive := by
    obtain ⟨held', entries'⟩ := w'
    rcases sweepStep_cases h1 with ⟨closer, rfl, hh, rfl⟩ | ⟨id, rfl, hh, rfl⟩
    · obtain rfl : held' = none := hh
      refine ⟨swept_close hi.toCore closer entries' h e, by rw [e], by rw [e], ?_⟩
      intro id
      rw [congrArg State.entries e]
    · obtain rfl : held' = (s.entries id).closer := hh
      refine ⟨swept_take hi.toCore id entries' h e, by rw [e], by rw [e], ?_⟩
      intro id'
      rw [congrArg State.entries e]
      exact setCloser_recursive _ _ _ _
  obtain ⟨hcore, hw, hcall, hr⟩ := hcore
  exact
    { toCore := hcore
      table := by
        intro ht dir recursive
        have := hi.table (h.reconciles ht) dir recursive
        simp only [hw, hcall, hr]
        exact this
      unserved := by
        rw [hw, hcall]
        exact hi.unserved
      failed := by
        rw [hw, hcall]
        exact fun hf => hi.failed (h.failed hf) }

theorem sweepStep_frame {s s1 : State Dir} (h : sweepStep s w = some (s1, w')) :
    s1.sweeps = s.sweeps ∧ s1.phase = s.phase ∧ s1.call = s.call := by
  rcases sweepStep_cases h with ⟨closer, -, -, rfl⟩ | ⟨id, -, -, rfl⟩ <;> exact ⟨rfl, rfl, rfl⟩

theorem sweeping_reconciles (hp : s.phase = .sweeping own)
    (hb : s.call.backend = true) : s.reconciles := by
  refine ⟨hb, ?_, ?_⟩
  · rw [hp]
    exact nofun
  · rw [hp]
    exact nofun

theorem sweepOwn_inv {s s' : State Dir} (hi : Inv s) (h : step .sweepOwn s = some s') : Inv s' := by
  cases hp : s.phase with
  | sweeping own =>
    simp only [step, hp, Option.map_eq_some_iff] at h
    obtain ⟨⟨s1, own'⟩, h1, rfl⟩ := h
    obtain ⟨hsweeps, -, hcall⟩ := sweepStep_frame h1
    refine swept_inv hi (w := own)
      { took := ⟨s1, h1, rfl⟩
        pool := ⟨s.sweeps, ?_, ?_⟩
        pending := ?_
        left := by rw [hp]; rfl
        storing := nofun
        reconciles := fun hr => sweeping_reconciles hp (hcall ▸ hr.1)
        failed := fun h' => nomatch h' }
    · rw [State.pool, hp]
      exact List.perm_append_comm
    · rw [State.pool]
      show (s1.sweeps ++ [own']).Perm _
      rw [hsweeps]
      exact List.perm_append_comm
    · rw [State.pending, State.pending, hp]
      exact congrArg Call.additions hcall
  | _ => simp [step, hp] at h

theorem sweep_inv {s s' : State Dir} (hi : Inv s) (i : Nat) (h : step (.sweep i) s = some s') :
    Inv s' := by
  simp only [step, Option.bind_eq_some_iff, Option.map_eq_some_iff] at h
  obtain ⟨w, hw, ⟨s1, w'⟩, h1, rfl⟩ := h
  obtain ⟨hsweeps, hphase, hcall⟩ := sweepStep_frame h1
  obtain ⟨hlt, hget⟩ := List.getElem?_eq_some_iff.1 hw
  refine swept_inv hi (w := w)
    { took := ⟨s1, h1, rfl⟩
      pool := ⟨s.sweeps.eraseIdx i ++ s.phase.sweeps, ?_, ?_⟩
      pending := ?_
      left := congrArg Phase.left hphase
      storing := fun held left h' => hphase ▸ h'
      reconciles := fun hr => ⟨hcall ▸ hr.1, hphase ▸ hr.2.1, hphase ▸ hr.2.2⟩
      failed := fun h' => hphase ▸ h' }
  · have := List.getElem_cons_eraseIdx_perm hlt
    rw [hget] at this
    exact (this.append_right s.phase.sweeps).symm
  · show (s1.sweeps.set i w' ++ s1.phase.sweeps).Perm _
    rw [hsweeps, hphase]
    exact (List.set_perm_cons_eraseIdx hlt w').append_right s.phase.sweeps
  · show State.pending { s1 with sweeps := s1.sweeps.set i w' } = _
    rw [State.pending, State.pending]
    simp only [hphase, hcall]

/-! ## the backend -/

theorem request_cases {s s' : State Dir} (h : request s = some s') :
    s.phase = .sweeping ⟨none, []⟩ ∧
      (s.call.additions = [] ∧ s' = { s with phase := .returned true } ∨
        s' = { s with phase := .registering }) := by
  cases hp : s.phase with
  | sweeping own =>
    obtain ⟨held, entries⟩ := own
    cases held with
    | some closer => simp [request, hp] at h
    | none =>
      cases entries with
      | cons id entries => simp [request, hp] at h
      | nil =>
        simp only [request, hp] at h
        by_cases ha : s.call.additions = []
        · rw [if_pos ha] at h
          cases h
          exact ⟨rfl, Or.inl ⟨ha, rfl⟩⟩
        · rw [if_neg ha] at h
          cases h
          exact ⟨rfl, Or.inr rfl⟩
  | _ => simp [request, hp] at h

/-- the running call goes on, with no closer and no entry of its own -/
theorem phase_inv (hi : Inv s) (own : Sweep) (hp : s.phase = .sweeping own)
    (hown : own = ⟨none, []⟩) (phase : Phase Dir) (hsweeps : phase.sweeps = [])
    (hleft : phase.left = []) (hstore : ∀ held left, phase ≠ .storing held left)
    (hfail : phase ≠ .returned false)
    (hpending : State.pending { s with phase := phase } = s.call.additions) :
    Inv { s with phase := phase } := by
  subst hown
  have hflat : (s.sweeps ++ s.phase.sweeps).flatMap Sweep.entries =
      (s.sweeps ++ phase.sweeps).flatMap Sweep.entries := by
    rw [hp, hsweeps]
    simp [Phase.sweeps]
  have hlive : State.live { s with phase := phase } = s.live := by
    show _ ++ (s.sweeps ++ phase.sweeps).flatMap Sweep.entries = _
    rw [← hflat]
    rfl
  have hheld : State.held { s with phase := phase } = s.held := by
    show (s.sweeps ++ phase.sweeps).filterMap Sweep.held =
      (s.sweeps ++ s.phase.sweeps).filterMap Sweep.held
    rw [hp, hsweeps]
    simp [Phase.sweeps]
  have hadditions : s.pending = s.call.additions := by rw [State.pending, hp]
  exact
    { hi with
      live := hlive ▸ hi.live
      fresh := hlive ▸ hi.fresh
      pending_ids := by
        rw [hpending, ← hadditions]
        exact hi.pending_ids
      pending := by
        rw [hpending, ← hadditions]
        exact hi.pending
      places := by
        have := hi.places
        rw [State.places, hp] at this
        rw [State.places, hheld, hlive]
        show (s.closed ++ (s.held ++ (phase.left ++ _))).Perm _
        rw [hleft]
        exact this
      stored := hlive ▸ hi.stored
      left := fun held left h => absurd h (hstore held left)
      table := fun h => hi.table (sweeping_reconciles hp h.1)
      failed := fun h => absurd h hfail }

theorem request_inv {s s' : State Dir} (hi : Inv s) (h : request s = some s') : Inv s' := by
  obtain ⟨hp, h⟩ := request_cases h
  rcases h with ⟨ha, rfl⟩ | rfl
  · exact phase_inv hi _ hp rfl _ rfl rfl nofun nofun ha.symm
  · exact phase_inv hi _ hp rfl _ rfl rfl nofun nofun rfl

theorem number_closers (closer : Nat) (requests : List (Dir × Nat)) :
    (number closer requests).map (fun q => q.2.2) = List.range' closer requests.length := by
  induction requests generalizing closer with
  | nil => rfl
  | cons p requests ih =>
    show closer :: (number (closer + 1) requests).map _ = _
    rw [ih, List.length_cons, List.range'_succ]

theorem number_requests (closer : Nat) (requests : List (Dir × Nat)) :
    (number closer requests).map (fun q => (q.1, q.2.1)) = requests := by
  induction requests generalizing closer with
  | nil => rfl
  | cons p requests ih =>
    show (p.1, p.2) :: (number (closer + 1) requests).map _ = _
    rw [ih]

theorem range_add (n m : Nat) : List.range (n + m) = List.range n ++ List.range' n m := by
  have h := List.range'_append_1 (s := 0) (m := n) (n := m)
  rw [Nat.zero_add] at h
  rw [List.range_eq_range', List.range_eq_range', h]

theorem register_cases {s s' : State Dir} {ok : Bool} (h : register ok s = some s') :
    s.phase = .registering ∧
      (ok = true ∧ s' = { s with
        closers := s.closers + s.call.additions.length
        issued := s.issued ++ (number s.closers s.call.additions).map fun q => (q.2.2, q.1)
        phase := .storing none (number s.closers s.call.additions) } ∨
      ok = false ∧ s' = { s with
        watched := s.watched.filter fun p => p ∉ s.call.additions
        phase := .returned false }) := by
  cases hp : s.phase with
  | registering =>
    simp only [register, hp] at h
    cases ok with
    | true =>
      cases h
      exact ⟨rfl, Or.inl ⟨rfl, rfl⟩⟩
    | false =>
      cases h
      exact ⟨rfl, Or.inr ⟨rfl, rfl⟩⟩
  | _ => simp [register, hp] at h

/-- the backend has returned a closer for each request -/
theorem register_ok_inv (hi : Inv s) (hp : s.phase = .registering) :
    Inv { s with
      closers := s.closers + s.call.additions.length
      issued := s.issued ++ (number s.closers s.call.additions).map fun q => (q.2.2, q.1)
      phase := .storing none (number s.closers s.call.additions) } := by
  have hadditions : s.pending = s.call.additions := by rw [State.pending, hp]
  have hsweeps : s.phase.sweeps = [] := by rw [hp]; rfl
  have hleft : s.phase.left = [] := by rw [hp]; rfl
  have hpending : (number s.closers s.call.additions).map (fun q => (q.1, q.2.1)) = s.pending := by
    rw [number_requests, hadditions]
  have hlive := hi.live
  have hfresh := hi.fresh
  have hplaces := hi.places
  have hstored := hi.stored
  rw [State.live, State.pool, hsweeps] at hlive hfresh hstored
  rw [State.places, State.live, State.held, State.pool, hsweeps, hleft] at hplaces
  refine
    { hi with
      live := hlive, fresh := hfresh, pending_ids := ?_, pending := ?_, places := ?_, numbers := ?_
      stored := ?_, left := ?_, table := ?_, failed := fun h => nomatch h }
  · show (List.map Prod.snd ((number s.closers s.call.additions).map _)).Nodup
    rw [hpending]
    exact hi.pending_ids
  · show ∀ p ∈ (number s.closers s.call.additions).map _, _
    rw [hpending]
    exact hi.pending
  · rw [State.places]
    show (s.closed ++ (_ ++ ((number s.closers s.call.additions).map (fun q => q.2.2) ++ _))).Perm
      (List.range (s.closers + s.call.additions.length))
    rw [number_closers, range_add]
    refine List.Perm.trans ?_ (List.Perm.append_right _ hplaces)
    refine List.perm_iff_count.2 fun c => ?_
    simp only [List.count_append, List.count_nil]
    show _ + (List.count c (List.filterMap Sweep.held (s.sweeps ++ [])) +
      (_ + List.count c (closersOf s.entries (s.watched.map Prod.snd ++
        (s.sweeps ++ []).flatMap Sweep.entries)))) = _
    omega
  · show (s.issued ++ (number s.closers s.call.additions).map _).map Prod.fst = _
    rw [List.map_append, List.map_map, hi.numbers, range_add, ← number_closers]
    rfl
  · intro id closer hc hid
    exact List.mem_append_left _ (hstored id closer hc hid)
  · intro held left h q hq
    cases h
    exact List.mem_append_right _ (List.mem_map.2 ⟨q, hq, rfl⟩)
  · intro h
    refine hi.table ⟨h.1, ?_⟩
    rw [hp]
    exact ⟨nofun, nofun⟩

/-- the backend has failed: no addition stays listed -/
theorem register_error_inv (hi : Inv s) (hp : s.phase = .registering) :
    Inv { s with
      watched := s.watched.filter fun p => p ∉ s.call.additions
      phase := .returned false } := by
  have hadditions : s.pending = s.call.additions := by rw [State.pending, hp]
  have hsweeps : s.phase.sweeps = [] := by rw [hp]; rfl
  have hleft : s.phase.left = [] := by rw [hp]; rfl
  have hlive := hi.live
  have hfresh := hi.fresh
  have hplaces := hi.places
  have hstored := hi.stored
  rw [State.live, State.pool, hsweeps] at hlive hfresh hstored
  rw [State.places, State.live, State.held, State.pool, hsweeps, hleft, closersOf_append] at hplaces
  have hsub : List.Sublist
      ((s.watched.filter fun p => decide (p ∉ s.call.additions)).map Prod.snd ++
        (s.sweeps ++ []).flatMap Sweep.entries)
      (s.watched.map Prod.snd ++ (s.sweeps ++ []).flatMap Sweep.entries) :=
    (List.filter_sublist.map Prod.snd).append (List.Sublist.refl _)
  refine
    { hi with
      keys := hi.keys.sublist (List.filter_sublist.map Prod.fst)
      dirs := fun p h => hi.dirs p (List.mem_filter.1 h).1
      live := hlive.sublist hsub
      fresh := fun id h => hfresh id (hsub.subset h)
      pending_ids := List.nodup_nil
      pending := nofun
      places := ?_
      stored := fun id closer hc h => hstored id closer hc (hsub.subset h)
      left := nofun
      backend := ?_
      table := fun h => absurd rfl h.2.2
      unserved := ?_
      failed := ?_ }
  · -- the entries that go own no closer
    have hnone : ∀ p ∈ s.watched, decide (p ∉ s.call.additions) = false →
        (s.entries p.2).closer = none := by
      intro p _ h
      have hmem : p ∈ s.pending := by
        rw [hadditions]
        simpa using h
      exact (hi.pending p hmem).2.1
    rw [State.places, State.live, closersOf_append]
    show (s.closed ++ (_ ++ ([] ++ (closersOf s.entries
      ((s.watched.filter fun p => decide (p ∉ s.call.additions)).map Prod.snd) ++ _)))).Perm _
    rw [closersOf_filter s.entries _ _ hnone]
    exact hplaces
  · intro h
    show s.watched.filter _ = []
    rw [hi.backend h]
    rfl
  · intro h
    show s.watched.filter _ = []
    rw [hi.unserved h]
    rfl
  · intro _ p hpa hpw
    have := (List.mem_filter.1 hpw).2
    simp only [decide_eq_true_eq] at this
    exact this hpa

theorem register_inv {s s' : State Dir} (hi : Inv s) (ok : Bool) (h : register ok s = some s') :
    Inv s' := by
  obtain ⟨hp, ⟨-, rfl⟩ | ⟨-, rfl⟩⟩ := register_cases h
  · exact register_ok_inv hi hp
  · exact register_error_inv hi hp

theorem store_cases {s s' : State Dir} (h : store s = some s') :
    (∃ closer left, s.phase = .storing (some closer) left ∧
      s' = { s with closed := s.closed ++ [closer], phase := .storing none left }) ∨
    (∃ dir id closer left, s.phase = .storing none ((dir, id, closer) :: left) ∧
      ((dir, id) ∈ s.watched ∧ s' = { s with
        entries := setCloser s.entries id (some closer), phase := .storing none left } ∨
      (dir, id) ∉ s.watched ∧ s' = { s with phase := .storing (some closer) left })) ∨
    s.phase = .storing none [] ∧ s' = { s with phase := .returned true } := by
  cases hp : s.phase with
  | storing held left =>
    cases held with
    | some closer =>
      simp only [store, hp, Option.some.injEq] at h
      exact Or.inl ⟨closer, left, rfl, h.symm⟩
    | none =>
      cases left with
      | nil =>
        simp only [store, hp, Option.some.injEq] at h
        exact Or.inr (Or.inr ⟨rfl, h.symm⟩)
      | cons q left =>
        obtain ⟨dir, id, closer⟩ := q
        simp only [store, hp] at h
        refine Or.inr (Or.inl ⟨dir, id, closer, left, rfl, ?_⟩)
        by_cases hm : (dir, id) ∈ s.watched
        · rw [if_pos hm] at h
          exact Or.inl ⟨hm, (Option.some.inj h).symm⟩
        · rw [if_neg hm] at h
          exact Or.inr ⟨hm, (Option.some.inj h).symm⟩
  | _ => simp [store, hp] at h

theorem storing_reconciles {held : Option Nat}
    (hp : s.phase = .storing held left) (hb : s.call.backend = true) : s.reconciles := by
  refine ⟨hb, ?_⟩
  rw [hp]
  exact ⟨nofun, nofun⟩

/-- a closer goes from hand to hand, no entry changes -/
theorem storing_inv (hi : Inv s) {held : Option Nat}
    (hp : s.phase = .storing held left) (closed : List Nat) (phase : Phase Dir)
    (hsweeps : phase.sweeps = [])
    (hcount : ∀ c, closed.count c + phase.left.count c = s.closed.count c + s.phase.left.count c)
    (hpending : (State.pending { s with closed := closed, phase := phase }).Sublist s.pending)
    (hleft : ∀ held' left', phase = .storing held' left' → left' ⊆ left)
    (hfail : phase ≠ .returned false) : Inv { s with closed := closed, phase := phase } := by
  have hnone : s.phase.sweeps = [] := by rw [hp]; rfl
  have hpool : State.pool { s with closed := closed, phase := phase } = s.pool := by
    rw [State.pool, State.pool, hnone]
    exact congrArg (s.sweeps ++ ·) hsweeps
  have hlive : State.live { s with closed := closed, phase := phase } = s.live := by
    rw [State.live, hpool]
    rfl
  exact
    { hi with
      live := hlive ▸ hi.live
      fresh := hlive ▸ hi.fresh
      pending_ids := hi.pending_ids.sublist (hpending.map Prod.snd)
      pending := fun p h => hi.pending p (hpending.subset h)
      places := by
        refine List.Perm.trans (List.perm_iff_count.2 fun c => ?_) hi.places
        rw [places_count, places_count, State.held, hpool, hlive]
        have := hcount c
        show closed.count c + s.held.count c + phase.left.count c +
          (closersOf s.entries s.live).count c = _
        omega
      stored := hlive ▸ hi.stored
      left := fun held' left' h q hq => hi.left held left hp q (hleft held' left' h hq)
      table := fun h => hi.table (storing_reconciles hp h.1)
      failed := fun h => absurd h hfail }

/-- the closer is stored in an entry that has none -/
theorem store_listed_inv (hi : Inv s) {dir : Dir} {id closer : Nat} (hp : s.phase = .storing none ((dir, id, closer) :: left))
    (hm : (dir, id) ∈ s.watched) :
    Inv { s with
      entries := setCloser s.entries id (some closer), phase := .storing none left } := by
  have hpending : s.pending = (dir, id) :: left.map fun q => (q.1, q.2.1) := by
    rw [State.pending, hp]
    rfl
  have hids := hi.pending_ids
  rw [hpending, List.map_cons, List.nodup_cons] at hids
  have hhead := hi.pending (dir, id) (by rw [hpending]; exact List.mem_cons_self)
  have hsweeps : s.phase.sweeps = [] := by rw [hp]; rfl
  have hpool : s.sweeps ++ [] = s.pool := by rw [State.pool, hsweeps]
  have hlive : s.watched.map Prod.snd ++ (s.sweeps ++ []).flatMap Sweep.entries = s.live := by
    rw [hpool]
    rfl
  obtain ⟨rest, hrest⟩ : ∃ rest, s.live.Perm (id :: rest) :=
    ⟨_, List.perm_cons_erase (Core.watched_live (dir, id) hm)⟩
  have hnodup := List.nodup_cons.1 (hrest.nodup_iff.1 hi.live)
  refine
    { hi with
      dirs := fun p h => (setCloser_dir _ _ _ _).trans (hi.dirs p h)
      live := ?_, fresh := ?_, pending_ids := ?_, pending := ?_, places := ?_, stored := ?_
      left := ?_, table := ?_, failed := fun h => nomatch h }
  · show (s.watched.map Prod.snd ++ (s.sweeps ++ []).flatMap Sweep.entries).Nodup
    rw [hlive]
    exact hi.live
  · show ∀ id' ∈ s.watched.map Prod.snd ++ (s.sweeps ++ []).flatMap Sweep.entries, _
    rw [hlive]
    exact hi.fresh
  · exact hids.2
  · intro p h
    have hmem : p ∈ s.pending := by
      rw [hpending]
      exact List.mem_cons_of_mem _ h
    obtain ⟨h1, h2, h3⟩ := hi.pending p hmem
    have hmap : p.2 ∈ (left.map fun q => (q.1, q.2.1)).map Prod.snd := List.mem_map_of_mem h
    have hne : p.2 ≠ id := fun e => hids.1 (e ▸ hmap)
    exact ⟨h1, (setCloser_other _ _ _ _ hne).trans h2, (setCloser_dir _ _ _ _).trans h3⟩
  · refine List.Perm.trans (List.perm_iff_count.2 fun c => ?_) hi.places
    rw [places_count, places_count, State.held, State.live, State.pool, hp]
    show s.closed.count c + ((s.sweeps ++ []).filterMap Sweep.held).count c +
      ([] ++ left.map fun q : Dir × Nat × Nat => q.2.2).count c +
      (closersOf (setCloser s.entries id (some closer))
        (s.watched.map Prod.snd ++ (s.sweeps ++ []).flatMap Sweep.entries)).count c =
      s.closed.count c + s.held.count c +
        ([] ++ closer :: left.map fun q : Dir × Nat × Nat => q.2.2).count c + _
    rw [hlive, hpool, List.nil_append, List.nil_append, List.count_cons]
    have h1 : (closersOf s.entries s.live).Perm (closersOf s.entries (id :: rest)) :=
      hrest.filterMap _
    have h2 : (closersOf (setCloser s.entries id (some closer)) s.live).Perm
        (closersOf (setCloser s.entries id (some closer)) (id :: rest)) := hrest.filterMap _
    rw [closersOf_cons, hhead.2.1] at h1
    rw [closersOf_cons, setCloser_same, closersOf_setCloser _ _ _ _ hnodup.1] at h2
    rw [h1.count_eq, h2.count_eq]
    simp only [Option.toList, List.count_append, List.count_nil, List.count_cons]
    show _ + s.held.count c + _ + _ = _
    omega
  · intro id' c hc hid
    show (c, (setCloser s.entries id (some closer) id').dir) ∈ s.issued
    rw [setCloser_dir]
    by_cases he : id' = id
    · subst he
      obtain rfl : closer = c := by
        have hc : (setCloser s.entries id' (some closer) id').closer = some c := hc
        rw [setCloser_same] at hc
        exact Option.some.inj hc
      rw [hhead.2.2]
      exact hi.left none _ hp (dir, id', closer) List.mem_cons_self
    · have hc : (setCloser s.entries id (some closer) id').closer = some c := hc
      rw [setCloser_other _ _ _ _ he] at hc
      exact hi.stored id' c hc (hlive ▸ hid)
  · intro held' left' h q hq
    cases h
    exact hi.left none _ hp q (List.mem_cons_of_mem _ hq)
  · intro h dir' recursive
    have ht := hi.table (storing_reconciles hp h.1) dir' recursive
    show (∃ id', _ ∧ (setCloser s.entries id (some closer) id').recursive = recursive) ↔ _
    simp only [setCloser_recursive]
    exact ht

theorem store_inv {s s' : State Dir} (hi : Inv s) (h : store s = some s') : Inv s' := by
  rcases store_cases h with ⟨closer, left, hp, rfl⟩ |
    ⟨dir, id, closer, left, hp, ⟨hm, rfl⟩ | ⟨hm, rfl⟩⟩ | ⟨hp, rfl⟩
  · refine storing_inv hi hp _ _ rfl ?_ ?_ ?_ nofun
    · intro c
      rw [hp]
      simp only [Phase.left, Option.toList, List.count_append, List.count_nil]
      omega
    · rw [State.pending, State.pending, hp]
    · intro held' left' h
      cases h
      exact List.Subset.refl _
  · exact store_listed_inv hi hp hm
  · refine storing_inv hi hp _ _ rfl ?_ ?_ ?_ nofun
    · intro c
      rw [hp]
      rfl
    · rw [State.pending, State.pending, hp]
      exact List.sublist_cons_self _ _
    · intro held' left' h
      cases h
      exact List.subset_cons_self _ _
  · refine storing_inv hi hp _ _ rfl ?_ (List.nil_sublist _) nofun
      nofun
    intro c
    rw [hp]
    rfl

/-! ## every run -/

theorem step_inv (a : Act Dir) (s s' : State Dir) (hi : Inv s) (h : step a s = some s') :
    Inv s' := by
  cases a with
  | setBackend =>
    cases h
    exact { hi with backend := fun h' => nomatch h' }
  | reconcile desired =>
    cases hp : s.phase with
    | idle =>
      simp only [step, hp, Option.some.injEq] at h
      exact h ▸ reconcile_inv hi (Or.inl hp) desired
    | returned ok =>
      simp only [step, hp, Option.some.injEq] at h
      exact h ▸ reconcile_inv hi (Or.inr ⟨ok, hp⟩) desired
    | _ => simp [step, hp] at h
  | sweepOwn => exact sweepOwn_inv hi h
  | request => exact request_inv hi h
  | register ok => exact register_inv hi ok h
  | store => exact store_inv hi h
  | terminated dir id =>
    cases h
    exact terminated_inv hi dir id
  | closeAll =>
    cases h
    exact closeAll_inv hi
  | sweep i => exact sweep_inv hi i h

theorem exec_inv (entries : Nat → WatchedDir Dir) (as : List (Act Dir)) (s : State Dir)
    (h : exec step as (init entries) = some s) : Inv s :=
  exec_invariant step Inv step_inv as _ _ (init_inv entries) h

theorem Core.closed_nodup (hi : Core s) : s.closed.Nodup := by
  have h := hi.places.nodup_iff.2 List.nodup_range
  rw [State.places, List.nodup_append] at h
  exact h.1

/-- a closer of the backend is closed, stored or in the hands of a call -/
theorem Core.placed (hi : Core s) (closer : Nat) (dir : Dir)
    (h : (closer, dir) ∈ s.issued) :
    closer ∈ s.closed ∨ s.Stores dir closer ∨ s.Carries closer := by
  have hrange : closer ∈ List.range s.closers := by
    rw [← hi.numbers]
    exact List.mem_map_of_mem h
  rcases List.mem_append.1 (hi.places.mem_iff.2 hrange) with h1 | h1
  · exact Or.inl h1
  rcases List.mem_append.1 h1 with h2 | h2
  · obtain ⟨w, hw, hheld⟩ := List.mem_filterMap.1 h2
    exact Or.inr (Or.inr (Or.inr ⟨w, hw, Or.inl hheld⟩))
  rcases List.mem_append.1 h2 with h3 | h3
  · exact Or.inr (Or.inr (Or.inl h3))
  obtain ⟨id, hid, hc⟩ := List.mem_filterMap.1 h3
  rcases List.mem_append.1 hid with hw | hw
  · -- the number was given to one directory only
    obtain ⟨p, hp, rfl⟩ := List.mem_map.1 hw
    have hnodup : (s.issued.map Prod.fst).Nodup := by
      rw [hi.numbers]
      exact List.nodup_range
    have e := List.inj_on_of_nodup_map hnodup (hi.stored p.2 closer hc hid) h rfl
    have hdir : p.1 = dir := (hi.dirs p hp).symm.trans (Prod.mk.inj e).2
    exact Or.inr (Or.inl ⟨p.2, hdir ▸ hp, hc⟩)
  · obtain ⟨w, hw, hmem⟩ := List.mem_flatMap.1 hw
    exact Or.inr (Or.inr (Or.inr ⟨w, hw, Or.inr ⟨id, hmem, hc⟩⟩))

theorem quiet_carries (hq : s.Quiet) (closer : Nat) : ¬ s.Carries closer := by
  obtain ⟨hrest, hsweeps⟩ := hq
  obtain ⟨h1, h2⟩ := rests_sweeps hrest
  rintro (h | ⟨w, hw, h⟩)
  · rw [h2] at h
    exact nomatch h
  · rw [h1, List.append_nil] at hw
    rw [hsweeps w hw] at h
    rcases h with h | ⟨id, hid, -⟩
    · exact nomatch h
    · exact nomatch hid

/-- **Closers are kept.**  In every run: no closer is closed twice, and each one is closed, stored in
the entry listed for its directory, or in the hands of a call in progress; after a call that found a
backend and returned `Ok` the table is the desired one less what was terminated or closed since it
began; after one that failed none of its additions is listed. -/
theorem closers_kept (entries : Nat → WatchedDir Dir) (as : List (Act Dir)) (s : State Dir)
    (h : exec step as (init entries) = some s) :
    s.closed.Nodup ∧
    (∀ closer dir, (closer, dir) ∈ s.issued →
      closer ∈ s.closed ∨ s.Stores dir closer ∨ s.Carries closer) ∧
    (s.Quiet → ∀ closer dir, (closer, dir) ∈ s.issued → closer ∈ s.closed ∨ s.Stores dir closer) ∧
    (s.phase = .returned true → s.call.backend = true → s.Agrees) ∧
    (s.phase = .returned true → s.call.backend = false → s.watched = []) ∧
    (s.phase = .returned false → ∀ p ∈ s.call.additions, p ∉ s.watched) := by
  have hi := exec_inv entries as s h
  refine ⟨hi.closed_nodup, hi.placed, ?_, ?_, fun _ => hi.unserved, hi.failed⟩
  · intro hq closer dir hissued
    rcases hi.placed closer dir hissued with h1 | h1 | h1
    · exact Or.inl h1
    · exact Or.inr h1
    · exact absurd h1 (quiet_carries hq closer)
  · intro hp hb
    refine hi.table ⟨hb, ?_⟩
    rw [hp]
    exact ⟨fun h' => (nomatch h'), fun h' => (nomatch h')⟩

/-- the directory `0`, to be watched with its subdirectories -/
def oneDirectory : Desired Nat := ⟨[(0, true)], by decide⟩

def noEntries : Nat → WatchedDir Nat := fun _ => ⟨0, false, none⟩

theorem closers_kept_storing : ∃ s,
    exec step [.setBackend, .reconcile oneDirectory, .request, .register true, .store, .store]
      (init noEntries) = some s ∧ s.phase = .returned true ∧ s.Quiet ∧ s.Stores 0 0 ∧
    s.closed.Nodup ∧ s.Agrees := by
  refine ⟨_, rfl, rfl, ?_, ⟨0, by decide, by decide⟩, ?_⟩
  · exact ⟨Or.inr ⟨true, rfl⟩, fun w hw => nomatch hw⟩
  · have h := closers_kept noEntries
      [.setBackend, .reconcile oneDirectory, .request, .register true, .store, .store] _ rfl
    exact ⟨h.1, h.2.2.2.1 rfl rfl⟩

/-- A closer is on its way when `watch_directories` has returned; a call returns `Ok` with an empty
table after `close_all_watches`, and without a backend; nothing has terminated. -/
theorem reconcile_returns_without :
    (∃ s, exec step [.setBackend, .reconcile oneDirectory, .request, .register true]
        (init noEntries) = some s ∧
      (0, 0) ∈ s.issued ∧ 0 ∉ s.closed ∧ ¬ s.Stores 0 0) ∧
    (∃ s, exec step [.setBackend, .reconcile oneDirectory, .closeAll, .request, .register true,
        .store, .store, .store] (init noEntries) = some s ∧
      s.phase = .returned true ∧ s.call.desired = [(0, true)] ∧ s.watched = []) ∧
    (∃ s, exec step [.reconcile oneDirectory] (init noEntries) = some s ∧
      s.phase = .returned true ∧ s.call.desired = [(0, true)] ∧ s.watched = []) := by
  refine ⟨⟨_, rfl, by decide, by decide, ?_⟩, ⟨_, rfl, rfl, rfl, rfl⟩, ⟨_, rfl, rfl, rfl, rfl⟩⟩
  rintro ⟨id, hid, hc⟩
  have h : (0, id) ∈ [(0, 0)] := hid
  obtain rfl : id = 0 := (Prod.mk.inj (List.mem_singleton.1 h)).2
  exact nomatch hc

end Tsr.Tsc.WatchManager
