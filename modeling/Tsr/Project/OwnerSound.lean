import Tsr.Project.OwnerCache

/-!
# The owner cache under any interleaving

`Inv` ties every entry to the calls that stand at it and to the log: the owners of a live entry are
those that acquired its key and did not release it since.  `LogInv` says that every call has taken
effect exactly once when it has succeeded, and not before it started.  `step_inv`, `step_logInv`
are the step lemmas; `ownerCache_laws` reads the laws of the cache off the two invariants.
-/

set_option linter.unusedSectionVars false

namespace Tsr.Project.OwnerCache
open Tsr.Lib.Run

/-! ## Owners by the log -/

section
variable {K : Type} [DecidableEq K]

/-- the effect of one event on the owners of `k` -/
def applyEvent (k : K) (owners : Finset UInt64) (ev : Event K) : Finset UInt64 :=
  if ev.key = k then
    if ev.acquires then insert ev.owner owners else owners.erase ev.owner
  else owners

/-- the owners of `k` after the events of the log -/
def replay (log : List (Event K)) (k : K) : Finset UInt64 := log.foldl (applyEvent k) ∅

/-- `o` acquired `k` and did not release it since -/
def Owns (log : List (Event K)) (k : K) (o : UInt64) : Prop :=
  ∃ before ev after, log = before ++ ev :: after ∧ ev.key = k ∧ ev.owner = o ∧
    ev.acquires = true ∧ ∀ ev' ∈ after, ¬ (ev'.key = k ∧ ev'.owner = o ∧ ev'.acquires = false)

theorem replay_append (log evs : List (Event K)) (k : K) :
    replay (log ++ evs) k = evs.foldl (applyEvent k) (replay log k) := List.foldl_append

/-- events of other keys, or releases of owners that are not there, change nothing -/
theorem foldl_applyEvent_of (evs : List (Event K)) (k : K) (owners : Finset UInt64)
    (h : ∀ ev ∈ evs, ev.key = k → ev.acquires = false ∧ ev.owner ∉ owners) :
    evs.foldl (applyEvent k) owners = owners := by
  induction evs with
  | nil => rfl
  | cons ev evs ih =>
    have hev : applyEvent k owners ev = owners := by
      unfold applyEvent
      by_cases hk : ev.key = k
      · obtain ⟨ha, ho⟩ := h ev (by simp) hk
        rw [if_pos hk, ha]
        exact Finset.erase_eq_of_notMem ho
      · rw [if_neg hk]
    rw [List.foldl_cons, hev]
    exact ih fun ev' h' => h ev' (List.mem_cons_of_mem ev h')

theorem mem_replay_iff (log : List (Event K)) (k : K) (o : UInt64) :
    o ∈ replay log k ↔ Owns log k o := by
  induction log using List.reverseRecOn with
  | nil =>
    constructor
    · intro h
      exact absurd h (Finset.notMem_empty o)
    · rintro ⟨before, ev, after, h, _⟩
      exact absurd h (by simp)
  | append_singleton log ev ih =>
    have hlast : Owns (log ++ [ev]) k o ↔
        (ev.key = k ∧ ev.owner = o ∧ ev.acquires = true) ∨
        (Owns log k o ∧ ¬ (ev.key = k ∧ ev.owner = o ∧ ev.acquires = false)) := by
      constructor
      · rintro ⟨before, ev', after, heq, hk, ho, ha, hafter⟩
        rcases List.eq_nil_or_concat after with rfl | ⟨after', x, rfl⟩
        · rw [List.append_singleton_inj] at heq
          rw [heq.2]
          exact Or.inl ⟨hk, ho, ha⟩
        · rw [List.concat_eq_append, ← List.cons_append, ← List.append_assoc,
            List.append_singleton_inj] at heq
          rw [List.concat_eq_append] at hafter
          exact Or.inr ⟨⟨before, ev', after', heq.1, hk, ho, ha,
            fun y hy => hafter y (List.mem_append_left _ hy)⟩,
            by rw [heq.2]; exact hafter x (by simp)⟩
      · rintro (⟨hk, ho, ha⟩ | ⟨⟨before, ev', after, heq, hk, ho, ha, hafter⟩, hnot⟩)
        · exact ⟨log, ev, [], rfl, hk, ho, ha, fun _ h => by cases h⟩
        · refine ⟨before, ev', after ++ [ev], by rw [heq]; simp, hk, ho, ha, fun y hy => ?_⟩
          rcases List.mem_append.1 hy with h | h
          · exact hafter y h
          · rw [List.mem_singleton.1 h]
            exact hnot
    rw [hlast, ← ih, replay_append]
    show o ∈ applyEvent k (replay log k) ev ↔ _
    unfold applyEvent
    by_cases hk : ev.key = k
    · rw [if_pos hk]
      cases hacq : ev.acquires with
      | true =>
        simp only [if_true, Finset.mem_insert, hk, true_and, and_true, Bool.true_eq_false,
          and_false, not_false_eq_true]
        rw [eq_comm]
      | false =>
        simp only [Bool.false_eq_true, if_false, Finset.mem_erase, hk, true_and, and_false,
          false_or, and_true]
        rw [and_comm, ne_comm]
    · rw [if_neg hk]
      simp [hk]

end

/-! ## The invariant -/

section
variable {K T V : Type} [DecidableEq K] [DecidableEq T]

/-- the calls that stand at entry `e` in a given way -/
def count (calls : List (Call K T V)) (k : Kind) (e : Nat) : Nat :=
  calls.countP fun c => c.kind = some (k, e)

/-- An entry with the owners the log gives its key and the calls at it.  A live entry without an
owner is provisional: a load is on its way to it or at it. -/
def EntryOk (entry : Entry K T V) (linked : Prop) (owners : Finset UInt64) (n : Kind → Nat) :
    Prop :=
  if entry.removed then entry.owners = ∅ ∧ entry.busy = none ∧ n .busy = 0 ∧
    (linked ∧ n .removing = 1 ∧ owners = ∅ ∨ ¬ linked ∧ n .removing = 0)
  else linked ∧ entry.owners = owners ∧ n .removing = 0 ∧
    n .busy = (if entry.busy.isSome then 1 else 0) ∧
    (entry.owners = ∅ → entry.value = none ∧ 0 < n .waitingLoad + n .busy)

/-- only the calls that wait to load come and go -/
theorem EntryOk.recount {entry : Entry K T V} {linked : Prop} {owners : Finset UInt64}
    {n n' : Kind → Nat} (h : EntryOk entry linked owners n) (hb : n' .busy = n .busy)
    (hr : n' .removing = n .removing)
    (hw : entry.removed = false → entry.owners = ∅ → 0 < n' .waitingLoad + n' .busy) :
    EntryOk entry linked owners n' := by
  unfold EntryOk at h ⊢
  rw [hb, hr]
  split at h
  case isTrue hrem =>
    rw [if_pos hrem]
    exact h
  case isFalse hrem =>
    rw [if_neg hrem]
    obtain ⟨h1, h2, h3, h4, h5⟩ := h
    exact ⟨h1, h2, h3, h4, fun ho => ⟨(h5 ho).1, by
      rw [← hb]; exact hw (Bool.eq_false_iff.2 hrem) ho⟩⟩

/-- there is an entry at `e`, made for `key`, with the property `P` -/
def At (heap : Nat → Option (Entry K T V)) (key : K) (e : Nat) (P : Entry K T V → Prop) : Prop :=
  ∃ entry, heap e = some entry ∧ entry.key = key ∧ P entry

def CallOk (heap : Nat → Option (Entry K T V)) (c : Call K T V) : Prop :=
  match c.pc with
  | .looking => True
  | .waiting e => At heap c.key e fun _ => True
  | .loading e => c.op = .load ∧ At heap c.key e fun _ => True
  | .evaluating e previous => c.op = .load ∧ At heap c.key e fun entry => entry.value = previous
  | .finishing e _ => c.op = .load ∧ At heap c.key e fun _ => True
  | .removing e _ => At heap c.key e fun _ => True
  | .returned _ => True

structure Inv (s : Cache K T V) : Prop where
  fresh : ∀ e entry, s.heap e = some entry → e < s.next
  indexed : ∀ k e, s.index k = some e → At s.heap k e fun _ => True
  unindexed : ∀ k, s.index k = none → replay s.log k = ∅
  entries : ∀ e entry, s.heap e = some entry →
    EntryOk entry (s.index entry.key = some e) (replay s.log entry.key)
      (fun k => count s.calls k e)
  callsOk : ∀ c ∈ s.calls, CallOk s.heap c

theorem inv_empty : Inv (Cache.empty : Cache K T V) where
  fresh := fun e entry h => by cases h
  indexed := fun k e h => by cases h
  unindexed := fun k _ => rfl
  entries := fun e entry h => by cases h
  callsOk := fun c h => by cases h

/-! ## Counting -/

theorem count_set (calls : List (Call K T V)) (i : Nat) (c : Call K T V)
    (hc : calls[i]? = some c) (pc : Pc V) (k : Kind) (e : Nat) :
    count (calls.set i { c with pc := pc }) k e + (if c.kind = some (k, e) then 1 else 0)
      = count calls k e + (if ({ c with pc := pc } : Call K T V).kind = some (k, e) then 1 else 0) := by
  have h := countP_set_add (fun c : Call K T V => decide (c.kind = some (k, e))) calls i c
    { c with pc := pc } hc
  simp only [decide_eq_true_eq] at h
  exact h

theorem counts_set (s : Cache K T V) (i : Nat) (c : Call K T V) (hc : s.calls[i]? = some c)
    (e : Nat) (pc : Pc V) :
    let calls' := s.calls.set i { c with pc := pc }
    let old k := if c.kind = some (k, e) then 1 else 0
    let new k := if ({ c with pc := pc } : Call K T V).kind = some (k, e) then 1 else 0
    count calls' .waitingLoad e + old .waitingLoad
      = count s.calls .waitingLoad e + new .waitingLoad ∧
    count calls' .busy e + old .busy = count s.calls .busy e + new .busy ∧
    count calls' .removing e + old .removing = count s.calls .removing e + new .removing :=
  ⟨count_set _ _ _ hc _ _ _, count_set _ _ _ hc _ _ _, count_set _ _ _ hc _ _ _⟩

theorem count_pos (calls : List (Call K T V)) (c : Call K T V) (hc : c ∈ calls) (k : Kind)
    (e : Nat) (hk : c.kind = some (k, e)) : 0 < count calls k e :=
  List.countP_pos_iff.2 ⟨c, hc, decide_eq_true hk⟩

/-- a call that stands at `e` has an entry there, made for its key -/
theorem at_of_kind (heap : Nat → Option (Entry K T V)) (c : Call K T V) (hok : CallOk heap c)
    (k : Kind) (e : Nat) (hk : c.kind = some (k, e)) :
    ∃ entry, heap e = some entry ∧ entry.key = c.key := by
  obtain ⟨op, key, owner, thread, pc⟩ := c
  cases pc with
  | looking | returned _ => cases hk
  | waiting e' =>
    simp only [Call.kind] at hk
    split at hk
    · cases hk
      obtain ⟨entry, h, hkey, _⟩ := hok
      exact ⟨entry, h, hkey⟩
    · cases hk
  | loading e' | evaluating e' _ | finishing e' _ =>
    cases hk
    obtain ⟨_, entry, h, hkey, _⟩ := hok
    exact ⟨entry, h, hkey⟩
  | removing e' _ =>
    cases hk
    obtain ⟨entry, h, hkey, _⟩ := hok
    exact ⟨entry, h, hkey⟩

/-- nobody stands at an address that is not in use -/
theorem count_unused (s : Cache K T V) (hs : Inv s) (e : Nat) (he : s.heap e = none) (k : Kind) :
    count s.calls k e = 0 := by
  unfold count
  rw [List.countP_eq_zero]
  intro c hc hk
  obtain ⟨entry, h, _⟩ := at_of_kind s.heap c (hs.callsOk c hc) k e (of_decide_eq_true hk)
  rw [he] at h
  cases h

theorem waitingReleases_spec (calls : List (Call K T V)) (e : Nat) (ev : Event K)
    (h : ev ∈ waitingReleases calls e) : ev.acquires = false ∧
      ∃ d, calls[ev.call]? = some d ∧ d.waitsToRelease e = true ∧ ev.key = d.key ∧
        ev.owner = d.owner := by
  obtain ⟨p, hp, rfl⟩ := List.mem_map.1 h
  obtain ⟨hmem, hw⟩ := List.mem_filter.1 hp
  exact ⟨rfl, p.1, List.mem_zipIdx_iff_getElem?.1 hmem, hw, rfl, rfl⟩

theorem waitsToRelease_iff (c : Call K T V) (e : Nat) :
    c.waitsToRelease e = true ↔ c.op = .release ∧ c.pc = .waiting e := by
  unfold Call.waitsToRelease
  rw [Bool.and_eq_true, decide_eq_true_eq]
  cases c.pc with
  | waiting e' => simp
  | looking | loading _ | evaluating _ _ | finishing _ _ | removing _ _ | returned _ => simp

/-! ## Moves of one call at one entry -/

def Touches (c : Call K T V) (e : Nat) : Prop := ∀ k e', c.kind = some (k, e') → e' = e

section
variable {s : Cache K T V} (hs : Inv s) {i : Nat} {c : Call K T V}
  (hc : s.calls[i]? = some c) (e : Nat) (entry entry' : Entry K T V) (he : s.heap e = some entry)
  (pc : Pc V) (index' : K → Option Nat) (evs : List (Event K))
include hs hc he

/-- **The frame of a move.**  One call moves at the entry `e`, which changes to `entry'`; the index
stays, or loses its link to `e`; the log grows only by events of the key of `e`, and only while the
index has `e`.  What is left to check is `e` itself and the call. -/
theorem move_inv (hkey : entry'.key = entry.key)
    (hindex : index' = s.index ∨
      s.index entry.key = some e ∧ index' = Function.update s.index entry.key none)
    (hevs : evs = [] ∨ s.index entry.key = some e) (hevKey : ∀ ev ∈ evs, ev.key = entry.key)
    (hnone : index' entry.key = none → replay (s.log ++ evs) entry.key = ∅)
    (hold : Touches c e) (hnew : Touches { c with pc := pc } e)
    (hvalue : entry'.value = entry.value ∨
      count (s.calls.set i { c with pc := pc }) .busy e = 1 ∧ ∃ result, pc = .finishing e result)
    (hentry : EntryOk entry' (index' entry.key = some e) (replay (s.log ++ evs) entry.key)
      (fun k => count (s.calls.set i { c with pc := pc }) k e))
    (hcall : CallOk (Function.update s.heap e (some entry')) { c with pc := pc }) :
    Inv { s with
      index := index'
      heap := Function.update s.heap e (some entry')
      calls := s.calls.set i { c with pc := pc }
      log := s.log ++ evs } where
  fresh := by
    intro e' x hx
    by_cases heq : e' = e
    · rw [heq]; exact hs.fresh e entry he
    · exact hs.fresh e' x (by simpa only [Function.update_of_ne heq] using hx)
  indexed := by
    intro k e' hk
    have hk' : s.index k = some e' := by
      rcases hindex with h | ⟨_, h⟩
      · rw [← h]; exact hk
      · by_cases hkk : k = entry.key
        · simp only [h, hkk, Function.update_self] at hk
          cases hk
        · simpa only [h, Function.update_of_ne hkk] using hk
    obtain ⟨x, hx, hxk, _⟩ := hs.indexed k e' hk'
    by_cases heq : e' = e
    · subst heq
      rw [he] at hx
      cases hx
      exact ⟨entry', Function.update_self _ _ _, hkey.trans hxk, trivial⟩
    · exact ⟨x, (Function.update_of_ne heq _ _).trans hx, hxk, trivial⟩
  unindexed := by
    intro k hk
    replace hk : index' k = none := hk
    by_cases hkk : k = entry.key
    · rw [hkk] at hk ⊢
      exact hnone hk
    · have hk' : s.index k = none := by
        rcases hindex with h | ⟨_, h⟩
        · rw [← h]; exact hk
        · rw [h, Function.update_of_ne hkk] at hk
          exact hk
      show replay (s.log ++ evs) k = ∅
      rw [replay_append, foldl_applyEvent_of]
      · exact hs.unindexed k hk'
      · intro ev hev hevk
        exact absurd (hevk.symm.trans (hevKey ev hev)) hkk
  entries := by
    intro e' x hx
    replace hx : Function.update s.heap e (some entry') e' = some x := hx
    by_cases heq : e' = e
    · subst heq
      rw [Function.update_self, Option.some.injEq] at hx
      rw [← hx, hkey]
      exact hentry
    · rw [Function.update_of_ne heq] at hx
      have hcount : (fun k => count (s.calls.set i { c with pc := pc }) k e')
          = fun k => count s.calls k e' := by
        funext k
        have h := count_set s.calls i c hc pc k e'
        rw [if_neg (fun h => heq (hold k e' h)), if_neg (fun h => heq (hnew k e' h))] at h
        exact h
      have hlink : (index' x.key = some e') = (s.index x.key = some e') := by
        rcases hindex with h | ⟨hlinked, h⟩
        · rw [h]
        · by_cases hkk : x.key = entry.key
          · rw [h, hkk, Function.update_self, hlinked]
            simp [Ne.symm heq]
          · rw [h, Function.update_of_ne hkk]
      have hok := hs.entries e' x hx
      show EntryOk x (index' x.key = some e') (replay (s.log ++ evs) x.key)
        (fun k => count (s.calls.set i { c with pc := pc }) k e')
      rw [hcount, hlink]
      -- an entry with the key of `e` is not in the index, so the new events do not concern it
      by_cases hsame : evs = [] ∨ x.key ≠ entry.key
      · have hlog : replay (s.log ++ evs) x.key = replay s.log x.key := by
          rcases hsame with h | h
          · rw [h, List.append_nil]
          · rw [replay_append, foldl_applyEvent_of]
            intro ev hev hevk
            exact absurd (hevk.symm.trans (hevKey ev hev)) h
        rw [hlog]
        exact hok
      · obtain ⟨hne, hkk⟩ := not_or.1 hsame
        have hkk' := not_not.1 hkk
        have hlinked : s.index entry.key = some e := hevs.resolve_left hne
        have hnot : ¬ s.index x.key = some e' := by
          rw [hkk', hlinked]
          simp [Ne.symm heq]
        unfold EntryOk at hok ⊢
        split at hok
        case isTrue hr =>
          rw [if_pos hr]
          exact ⟨hok.1, hok.2.1, hok.2.2.1, Or.inr (hok.2.2.2.resolve_left fun h => hnot h.1)⟩
        case isFalse hr => exact absurd hok.1 hnot
  callsOk := by
    intro d hd
    rcases List.mem_or_eq_of_mem_set hd with hmem | rfl
    · have hok := hs.callsOk d hmem
      have hframe : ∀ e' P Q, At s.heap d.key e' P → (e' = e → P entry → Q entry') →
          (∀ x, P x → Q x) → At (Function.update s.heap e (some entry')) d.key e' Q := by
        rintro e' P Q ⟨x, hx, hxk, hP⟩ hsame hmono
        by_cases heq : e' = e
        · subst heq
          rw [he] at hx
          cases hx
          exact ⟨entry', Function.update_self _ _ _, hkey.trans hxk, hsame rfl hP⟩
        · exact ⟨x, (Function.update_of_ne heq _ _).trans hx, hxk, hmono _ hP⟩
      have htrue : ∀ e', At s.heap d.key e' (fun _ => True) →
          At (Function.update s.heap e (some entry')) d.key e' fun _ => True :=
        fun e' h => hframe e' _ _ h (fun _ _ => trivial) (fun _ _ => trivial)
      obtain ⟨op, key, owner, thread, dpc⟩ := d
      cases dpc with
      | looking | returned _ => trivial
      | waiting e' | removing e' _ => exact htrue e' hok
      | loading e' | finishing e' _ => exact ⟨hok.1, htrue e' hok.2⟩
      | evaluating e' previous =>
        refine ⟨hok.1, hframe e' _ _ hok.2 (fun heq hP => ?_) (fun _ h => h)⟩
        rcases hvalue with hv | ⟨hone, result, hpc⟩
        · exact hv.trans hP
        · -- only the moved call is busy at `e`, and it does not evaluate
          have hself : ({ c with pc := pc } : Call K T V) ∈ s.calls.set i { c with pc := pc } :=
            List.mem_set (List.getElem?_eq_some_iff.1 hc).1 _
          have hsame := eq_of_countP_one _ _ hone _ _ hd hself
            (decide_eq_true (by rw [heq]; rfl)) (decide_eq_true (by rw [hpc]; rfl))
          rw [hpc] at hsame
          cases hsame
    · exact hcall

/-- a move without an effect on the owners -/
theorem stay_inv (hkey : entry'.key = entry.key) (hvalue : entry'.value = entry.value)
    (hold : Touches c e) (hnew : Touches { c with pc := pc } e)
    (hentry : EntryOk entry' (s.index entry.key = some e) (replay s.log entry.key)
      (fun k => count (s.calls.set i { c with pc := pc }) k e))
    (hcall : CallOk (Function.update s.heap e (some entry')) { c with pc := pc }) :
    Inv ((s.setEntry e entry').setPc i c pc) := by
  have h := move_inv hs hc e entry entry' he pc s.index [] hkey (Or.inl rfl) (Or.inl rfl)
    (fun _ h => by cases h) (fun h => by rw [List.append_nil]; exact hs.unindexed _ h) hold hnew
    (Or.inl hvalue) (by rw [List.append_nil]; exact hentry) hcall
  rw [List.append_nil] at h
  exact h

/-- a move of the call alone -/
theorem pc_inv (hold : Touches c e) (hnew : Touches { c with pc := pc } e)
    (hentry : EntryOk entry (s.index entry.key = some e) (replay s.log entry.key)
      (fun k => count (s.calls.set i { c with pc := pc }) k e))
    (hcall : CallOk s.heap { c with pc := pc }) : Inv (s.setPc i c pc) := by
  have hheap : Function.update s.heap e (some entry) = s.heap := by
    rw [← he, Function.update_eq_self]
  have h := stay_inv hs hc e entry entry he pc rfl rfl hold hnew hentry
    (by rw [hheap]; exact hcall)
  unfold Cache.setEntry at h
  rw [hheap] at h
  exact h

end

/-! ## The steps -/

section
variable {s : Cache K T V} (hs : Inv s) {i : Nat} {c : Call K T V} (hc : s.calls[i]? = some c)
include hs hc

theorem callOk_of_get : CallOk s.heap c := hs.callsOk c (List.mem_of_getElem? hc)

/-- the entry behind a busy call: live, in the index, and busy for nobody else -/
theorem busy_entry (e : Nat) (hk : c.kind = some (.busy, e)) :
    ∃ entry, s.heap e = some entry ∧ entry.key = c.key ∧ entry.removed = false ∧
      entry.busy.isSome = true ∧ s.index c.key = some e ∧ entry.owners = replay s.log c.key ∧
      count s.calls .removing e = 0 ∧ count s.calls .busy e = 1 ∧
      (entry.owners = ∅ → entry.value = none) := by
  obtain ⟨entry, he, hkey⟩ := at_of_kind s.heap c (callOk_of_get hs hc) .busy e hk
  have hpos := count_pos s.calls c (List.mem_of_getElem? hc) .busy e hk
  have hok := hs.entries e entry he
  rw [hkey] at hok
  unfold EntryOk at hok
  split at hok
  case isTrue hr => exact absurd hok.2.2.1 (Nat.ne_of_gt hpos)
  case isFalse hr =>
    obtain ⟨hlink, howners, hrem, hbusy, hprov⟩ := hok
    have hsome : entry.busy.isSome = true := by
      by_contra hb
      rw [if_neg hb] at hbusy
      exact absurd hbusy (Nat.ne_of_gt hpos)
    rw [if_pos hsome] at hbusy
    exact ⟨entry, he, hkey, Bool.eq_false_iff.2 hr, hsome, hlink, howners, hrem, hbusy,
      fun h => (hprov h).1⟩

theorem look_some_inv (hpc : c.pc = .looking) (e : Nat) (hidx : s.index c.key = some e) :
    Inv (s.setPc i c (.waiting e)) := by
  obtain ⟨entry, he, hkey, _⟩ := hs.indexed c.key e hidx
  have hok := hs.entries e entry he
  obtain ⟨h1, h2, h3⟩ := counts_set s i c hc e (.waiting e)
  have hkind : c.kind = none := by unfold Call.kind; rw [hpc]
  have hnew : ({ c with pc := .waiting e } : Call K T V).kind = some (.waitingLoad, e) ∨
      ({ c with pc := .waiting e } : Call K T V).kind = none := by
    unfold Call.kind
    by_cases hop : c.op = .load
    · exact Or.inl (if_pos hop)
    · exact Or.inr (if_neg hop)
  rw [hkind] at h1 h2 h3
  refine pc_inv hs hc e entry he (.waiting e) (fun k e' h => by rw [hkind] at h; cases h)
    (fun k e' h => ?_) ?_ ⟨entry, he, hkey, trivial⟩
  · rcases hnew with hnew | hnew <;> rw [hnew] at h <;> cases h
    rfl
  · refine hok.recount ?_ ?_ fun hr ho => ?_
    · rcases hnew with hnew | hnew <;> rw [hnew] at h2 <;> simpa using h2
    · rcases hnew with hnew | hnew <;> rw [hnew] at h3 <;> simpa using h3
    · unfold EntryOk at hok
      rw [if_neg (by rw [hr]; exact Bool.false_ne_true)] at hok
      have hpos := (hok.2.2.2.2 ho).2
      simp only at hpos ⊢
      have hb : count (s.calls.set i { c with pc := .waiting e }) .busy e = count s.calls .busy e := by
        rcases hnew with hnew | hnew <;> rw [hnew] at h2 <;> simpa using h2
      have hw : count s.calls .waitingLoad e
          ≤ count (s.calls.set i { c with pc := .waiting e }) .waitingLoad e := by
        rcases hnew with hnew | hnew <;> rw [hnew] at h1 <;> simp at h1 <;> omega
      omega

/-- a release meets an entry that is marked removed and still in the index -/
theorem look_marked_inv (hpc : c.pc = .looking) (hop : c.op = .release) (e : Nat)
    (hidx : s.index c.key = some e) (hmarked : s.marked e = true) :
    Inv ((s.record i c false).setPc i c (.waiting e)) := by
  obtain ⟨entry, he, hkey, _⟩ := hs.indexed c.key e hidx
  have hr : entry.removed = true := by
    unfold Cache.marked at hmarked
    rw [he] at hmarked
    exact hmarked
  have hok := hs.entries e entry he
  unfold EntryOk at hok
  rw [if_pos hr, hkey] at hok
  obtain ⟨howners, hbusy, hb, hcase⟩ := hok
  obtain ⟨_, hrem, hreplay⟩ := hcase.resolve_right fun h => h.1 hidx
  have hkind : c.kind = none := by unfold Call.kind; rw [hpc]
  have hnew : ({ c with pc := .waiting e } : Call K T V).kind = none := by
    unfold Call.kind
    exact if_neg (by rw [hop]; intro h; cases h)
  have hreplay' : replay (s.log ++ [⟨i, c.key, c.owner, false⟩]) c.key = ∅ := by
    rw [replay_append, hreplay, foldl_applyEvent_of]
    intro ev hev _
    rw [List.mem_singleton.1 hev]
    exact ⟨rfl, Finset.notMem_empty _⟩
  obtain ⟨h1, h2, h3⟩ := counts_set s i c hc e (.waiting e)
  rw [hkind, hnew] at h1 h2 h3
  simp at h1 h2 h3
  have hheap : Function.update s.heap e (some entry) = s.heap := by
    rw [← he, Function.update_eq_self]
  have h := move_inv hs hc e entry entry he (.waiting e) s.index
    [⟨i, c.key, c.owner, false⟩] rfl (Or.inl rfl) (Or.inr (by rw [hkey]; exact hidx))
    (by intro ev hev; rw [List.mem_singleton.1 hev]; exact hkey.symm)
    (fun _ => by rw [hkey]; exact hreplay') (fun k e' h => by rw [hkind] at h; cases h)
    (fun k e' h => by rw [hnew] at h; cases h) (Or.inl rfl)
    (by
      unfold EntryOk
      rw [if_pos hr, hkey]
      exact ⟨howners, hbusy, h2.trans hb, Or.inl ⟨hidx, h3.trans hrem, hreplay'⟩⟩)
    ⟨entry, by rw [hheap]; exact he, hkey, trivial⟩
  rw [hheap] at h
  exact h

/-- a call that stands nowhere moves on -/
theorem idle_inv (hkind : c.kind = none) (pc : Pc V)
    (hnew : ({ c with pc := pc } : Call K T V).kind = none) (evs : List (Event K))
    (hevs : ∀ ev ∈ evs, s.index ev.key = none ∧ ev.acquires = false)
    (hcall : CallOk s.heap { c with pc := pc }) :
    Inv { s with calls := s.calls.set i { c with pc := pc }, log := s.log ++ evs } where
  fresh := hs.fresh
  indexed := hs.indexed
  unindexed := by
    intro k hk
    show replay (s.log ++ evs) k = ∅
    rw [replay_append, hs.unindexed k hk, foldl_applyEvent_of]
    intro ev hev _
    exact ⟨(hevs ev hev).2, Finset.notMem_empty _⟩
  entries := by
    intro e entry he
    have hcount : (fun k => count (s.calls.set i { c with pc := pc }) k e)
        = fun k => count s.calls k e := by
      funext k
      have h := count_set s.calls i c hc pc k e
      rw [hkind, hnew] at h
      exact h
    have hok := hs.entries e entry he
    show EntryOk entry (s.index entry.key = some e) (replay (s.log ++ evs) entry.key) _
    rw [hcount]
    by_cases hidx : s.index entry.key = none
    · -- without a link the entry is removed, and the log does not matter
      unfold EntryOk at hok ⊢
      rw [hidx] at hok ⊢
      split at hok
      case isTrue hr =>
        rw [if_pos hr]
        exact ⟨hok.1, hok.2.1, hok.2.2.1, Or.inr (hok.2.2.2.resolve_left fun h => by cases h.1)⟩
      case isFalse hr => cases hok.1
    · have hlog : replay (s.log ++ evs) entry.key = replay s.log entry.key := by
        rw [replay_append, foldl_applyEvent_of]
        intro ev hev hk
        exact absurd (hk ▸ (hevs ev hev).1) hidx
      rw [hlog]
      exact hok
  callsOk := by
    intro d hd
    rcases List.mem_or_eq_of_mem_set hd with hmem | rfl
    · exact hs.callsOk d hmem
    · exact hcall

/-- a new provisional entry, at an address nobody stands at -/
theorem insert_inv (hpc : c.pc = .looking) (hop : c.op = .load) (hnone : s.index c.key = none) :
    Inv ((s.insertEntry c.key).setPc i c (.waiting s.next)) := by
  have hunused : s.heap s.next = none := by
    cases h : s.heap s.next with
    | none => rfl
    | some entry => exact absurd (hs.fresh _ _ h) (lt_irrefl _)
  have hzero := count_unused s hs s.next hunused
  have hkind : c.kind = none := by unfold Call.kind; rw [hpc]
  have hnew : ({ c with pc := .waiting s.next } : Call K T V).kind = some (.waitingLoad, s.next) := by
    unfold Call.kind
    exact if_pos hop
  have hat : ∀ k e P, At s.heap k e P →
      At (Function.update s.heap s.next (some ⟨c.key, none, ∅, none, false⟩)) k e P := by
    rintro k e P ⟨x, hx, hP⟩
    have hne : e ≠ s.next := Nat.ne_of_lt (hs.fresh e x hx)
    exact ⟨x, (Function.update_of_ne hne _ _).trans hx, hP⟩
  refine ⟨fun e x hx => ?_, fun k e hk => ?_, fun k hk => ?_, fun e x hx => ?_, fun d hd => ?_⟩
  · show e < s.next + 1
    by_cases heq : e = s.next
    · omega
    · have := hs.fresh e x ((Function.update_of_ne heq _ _).symm.trans hx)
      omega
  · by_cases hkk : k = c.key
    · replace hk : Function.update s.index c.key (some s.next) k = some e := hk
      rw [hkk, Function.update_self] at hk
      cases hk
      exact ⟨_, Function.update_self _ _ _, hkk.symm, trivial⟩
    · exact hat _ _ _ (hs.indexed k e ((Function.update_of_ne hkk _ _).symm.trans hk))
  · by_cases hkk : k = c.key
    · replace hk : Function.update s.index c.key (some s.next) k = none := hk
      rw [hkk, Function.update_self] at hk
      cases hk
    · exact hs.unindexed k ((Function.update_of_ne hkk _ _).symm.trans hk)
  · replace hx : Function.update s.heap s.next (some ⟨c.key, none, ∅, none, false⟩) e = some x := hx
    show EntryOk x (Function.update s.index c.key (some s.next) x.key = some e)
      (replay s.log x.key) (fun k => count (s.calls.set i { c with pc := .waiting s.next }) k e)
    by_cases heq : e = s.next
    · subst heq
      rw [Function.update_self] at hx
      cases hx
      obtain ⟨h1, h2, h3⟩ := counts_set s i c hc s.next (.waiting s.next)
      simp [hkind, hnew, hzero] at h1 h2 h3
      rw [Function.update_self, hs.unindexed c.key hnone]
      exact ⟨rfl, rfl, h3, h2, fun _ => ⟨rfl, by simp only; omega⟩⟩
    · rw [Function.update_of_ne heq] at hx
      have hcount : (fun k => count (s.calls.set i { c with pc := .waiting s.next }) k e)
          = fun k => count s.calls k e := by
        funext k
        have h := count_set s.calls i c hc (.waiting s.next) k e
        rw [hkind, hnew] at h
        simpa [Ne.symm heq] using h
      have hlink : (Function.update s.index c.key (some s.next) x.key = some e)
          = (s.index x.key = some e) := by
        by_cases hkk : x.key = c.key
        · rw [hkk, Function.update_self, hnone]
          simp [Ne.symm heq]
        · rw [Function.update_of_ne hkk]
      rw [hcount, hlink]
      exact hs.entries e x hx
  · rcases List.mem_or_eq_of_mem_set hd with hmem | rfl
    · have hok := hs.callsOk d hmem
      obtain ⟨op, key, owner, thread, pc⟩ := d
      cases pc with
      | looking | returned _ => trivial
      | waiting _ | removing _ _ =>
        simp only [CallOk] at hok ⊢
        exact hat _ _ _ hok
      | loading _ | evaluating _ _ | finishing _ _ => exact ⟨hok.1, hat _ _ _ hok.2⟩
    · exact ⟨_, Function.update_self _ _ _, rfl, trivial⟩

/-- An entry without owners is marked removed; the releases that wait at it take effect.  `evs` is
the effect of the call itself. -/
theorem startRemove_inv (e : Nat) (entry entry' : Entry K T V) (he : s.heap e = some entry)
    (hkey : entry.key = c.key) (hkey' : entry'.key = entry.key)
    (hvalue : entry'.value = entry.value) (hbusy' : entry'.busy = none)
    (howners' : entry'.owners = ∅) (hlink : s.index c.key = some e)
    (evs : List (Event K)) (hevKey : ∀ ev ∈ evs, ev.key = c.key)
    (hreplay : replay (s.log ++ evs) c.key = ∅) (result : Result) (hold : Touches c e)
    (hb : count (s.calls.set i { c with pc := .removing e result }) .busy e = 0)
    (hrem : count (s.calls.set i { c with pc := .removing e result }) .removing e = 1) :
    Inv (startRemove { s with log := s.log ++ evs } i c e entry' result) := by
  have hwait : ∀ ev ∈ waitingReleases (s.calls.set i { c with pc := .removing e result }) e,
      ev.acquires = false ∧ ev.key = c.key := by
    intro ev hev
    obtain ⟨hacq, d, hd, hw, hk, _⟩ := waitingReleases_spec _ e ev hev
    obtain ⟨_, hpc⟩ := (waitsToRelease_iff d e).1 hw
    refine ⟨hacq, ?_⟩
    rcases List.mem_or_eq_of_mem_set (List.mem_of_getElem? hd) with hmem | rfl
    · have hok := hs.callsOk d hmem
      unfold CallOk at hok
      rw [hpc] at hok
      obtain ⟨x, hx, hxk, _⟩ := hok
      rw [he] at hx
      cases hx
      rw [hk, ← hxk, hkey]
    · cases hpc
  have hreplay' : replay (s.log ++ (evs ++
      waitingReleases (s.calls.set i { c with pc := .removing e result }) e)) c.key = ∅ := by
    rw [← List.append_assoc, replay_append, hreplay, foldl_applyEvent_of]
    intro ev hev _
    exact ⟨(hwait ev hev).1, Finset.notMem_empty _⟩
  have h := move_inv hs hc e entry { entry' with removed := true } he
    (.removing e result) s.index
    (evs ++ waitingReleases (s.calls.set i { c with pc := .removing e result }) e) hkey'
    (Or.inl rfl) (Or.inr (by rw [hkey]; exact hlink))
    (by
      intro ev hev
      rw [hkey]
      rcases List.mem_append.1 hev with h | h
      · exact hevKey ev h
      · exact (hwait ev h).2)
    (fun _ => by rw [hkey]; exact hreplay') hold (fun k e' h => by cases h; rfl) (Or.inl hvalue)
    (by
      unfold EntryOk
      rw [if_pos rfl, hkey]
      exact ⟨howners', hbusy', hb, Or.inl ⟨hlink, hrem, hreplay'⟩⟩)
    ⟨_, Function.update_self _ _ _, hkey'.trans hkey, trivial⟩
  rw [← List.append_assoc] at h
  exact h

section
variable (e : Nat) (hpc : c.pc = .waiting e) (entry : Entry K T V) (he : s.heap e = some entry)
include hpc he

theorem waiting_key : entry.key = c.key := by
  have hcall := callOk_of_get hs hc
  unfold CallOk at hcall
  rw [hpc] at hcall
  obtain ⟨x, hx, hkey, _⟩ := hcall
  rw [he] at hx
  cases hx
  exact hkey

theorem waiting_kind : c.kind = some (.waitingLoad, e) ∧ c.op = .load ∨
    c.kind = none ∧ c.op ≠ .load := by
  unfold Call.kind
  rw [hpc]
  by_cases hop : c.op = .load
  · exact Or.inl ⟨if_pos hop, hop⟩
  · exact Or.inr ⟨if_neg hop, hop⟩

theorem waiting_touches : Touches c e := by
  intro k e' h
  rcases waiting_kind hs hc e hpc entry he with ⟨hk, _⟩ | ⟨hk, _⟩ <;> rw [hk] at h <;> cases h
  rfl

/-- a waiting call goes away without an effect -/
theorem leave_inv (pc : Pc V) (hnew : ({ c with pc := pc } : Call K T V).kind = none)
    (hcall : CallOk s.heap { c with pc := pc })
    (hstay : c.op = .load → entry.removed = false → 0 < count s.calls .busy e) :
    Inv (s.setPc i c pc) := by
  have hok := hs.entries e entry he
  obtain ⟨h1, h2, h3⟩ := counts_set s i c hc e pc
  rw [hnew] at h1 h2 h3
  refine pc_inv hs hc e entry he pc (waiting_touches hs hc e hpc entry he)
    (fun k e' h => by rw [hnew] at h; cases h) ?_ hcall
  rcases waiting_kind hs hc e hpc entry he with ⟨hk, hop⟩ | ⟨hk, hop⟩ <;>
    rw [hk] at h1 h2 h3 <;> simp at h1 h2 h3
  · refine hok.recount h2 h3 fun hr ho => ?_
    have := hstay hop hr
    simp only [h2]
    omega
  · refine hok.recount h2 h3 fun hr ho => ?_
    unfold EntryOk at hok
    rw [if_neg (by rw [hr]; exact Bool.false_ne_true)] at hok
    have hpos := (hok.2.2.2.2 ho).2
    simp only [h1, h2]
    exact hpos

/-- a load marks the entry busy -/
theorem mark_inv (hop : c.op = .load) (hbusy : entry.busy = none) (hr : entry.removed = false) :
    Inv ((s.setEntry e { entry with busy := some c.thread }).setPc i c (.loading e)) := by
  have hkey := waiting_key hs hc e hpc entry he
  have hok := hs.entries e entry he
  unfold EntryOk at hok
  rw [if_neg (by rw [hr]; exact Bool.false_ne_true), hbusy] at hok
  obtain ⟨hlink, howners, hrem, hb, hprov⟩ := hok
  simp only [Option.isSome_none, Bool.false_eq_true, if_false] at hb
  obtain ⟨h1, h2, h3⟩ := counts_set s i c hc e (.loading e)
  have hk : c.kind = some (.waitingLoad, e) := by
    rcases waiting_kind hs hc e hpc entry he with ⟨hk, _⟩ | ⟨_, hne⟩
    · exact hk
    · exact absurd hop hne
  rw [hk] at h1 h2 h3
  simp [Call.kind] at h1 h2 h3
  refine stay_inv hs hc e entry { entry with busy := some c.thread } he (.loading e) rfl rfl
    (waiting_touches hs hc e hpc entry he) (fun k e' h => by cases h; rfl) ?_
    ⟨hop, _, Function.update_self _ _ _, hkey, trivial⟩
  unfold EntryOk
  rw [if_neg (by show ¬ entry.removed = true; rw [hr]; exact Bool.false_ne_true)]
  refine ⟨hlink, howners, ?_, ?_, fun ho => ⟨(hprov ho).1, ?_⟩⟩
  · simp only at hrem ⊢; omega
  · simp only [Option.isSome_some, if_true]; omega
  · simp only; omega

/-- an owner joins or leaves a live entry that keeps owners -/
theorem effect_inv (hop : c.op ≠ .load) (hr : entry.removed = false) (acquires : Bool)
    (owners' : Finset UInt64)
    (howners' : applyEvent c.key entry.owners ⟨i, c.key, c.owner, acquires⟩ = owners')
    (hne : owners' ≠ ∅) :
    Inv (((s.setEntry e { entry with owners := owners' }).record i c acquires).setPc
      i c (.returned .ok)) := by
  have hkey := waiting_key hs hc e hpc entry he
  have hok := hs.entries e entry he
  unfold EntryOk at hok
  rw [if_neg (by rw [hr]; exact Bool.false_ne_true)] at hok
  obtain ⟨hlink, howners, hrem, hb, hprov⟩ := hok
  obtain ⟨h1, h2, h3⟩ := counts_set s i c hc e (.returned .ok)
  have hk : c.kind = none := by
    rcases waiting_kind hs hc e hpc entry he with ⟨_, h⟩ | ⟨hk, _⟩
    · exact absurd h hop
    · exact hk
  rw [hk] at h1 h2 h3
  simp [Call.kind] at h1 h2 h3
  refine move_inv hs hc e entry { entry with owners := owners' } he
    (.returned .ok) s.index [⟨i, c.key, c.owner, acquires⟩] rfl (Or.inl rfl) (Or.inr hlink) ?_ ?_
    (waiting_touches hs hc e hpc entry he) (fun k e' h => by cases h) (Or.inl rfl) ?_ trivial
  · intro ev hev
    rw [List.mem_singleton.1 hev]
    exact hkey.symm
  · intro hnone
    rw [hlink] at hnone
    cases hnone
  · unfold EntryOk
    rw [if_neg (by show ¬ entry.removed = true; rw [hr]; exact Bool.false_ne_true)]
    refine ⟨hlink, ?_, by simp only at hrem ⊢; omega, by simp only at hb ⊢; omega,
      fun ho => absurd ho hne⟩
    rw [replay_append, ← howners, hkey, ← howners']
    rfl

/-- the last owner leaves, or a release meets a provisional entry -/
theorem eraseLast_inv (hop : c.op = .release) (hbusy : entry.busy = none)
    (hr : entry.removed = false) (hempty : entry.owners.erase c.owner = ∅) :
    Inv (startRemove (s.record i c false) i c e
      { entry with owners := entry.owners.erase c.owner } .ok) := by
  have hkey := waiting_key hs hc e hpc entry he
  have hok := hs.entries e entry he
  unfold EntryOk at hok
  rw [if_neg (by rw [hr]; exact Bool.false_ne_true), hbusy] at hok
  obtain ⟨hlink, howners, hrem, hb, hprov⟩ := hok
  obtain ⟨h1, h2, h3⟩ := counts_set s i c hc e (.removing e .ok)
  have hk : c.kind = none := by
    rcases waiting_kind hs hc e hpc entry he with ⟨_, h⟩ | ⟨hk, _⟩
    · rw [hop] at h; cases h
    · exact hk
  rw [hk] at h1 h2 h3
  simp [Call.kind] at h1 h2 h3
  simp only [Option.isSome_none, Bool.false_eq_true, if_false] at hb hrem
  refine startRemove_inv hs hc e entry
    { entry with owners := entry.owners.erase c.owner } he hkey rfl rfl hbusy hempty
    (by rw [← hkey]; exact hlink) [⟨i, c.key, c.owner, false⟩] ?_ ?_ .ok
    (waiting_touches hs hc e hpc entry he) (by omega) (by omega)
  · intro ev hev
    rw [List.mem_singleton.1 hev]
  · rw [replay_append, ← hkey, ← howners]
    show applyEvent entry.key entry.owners ⟨i, entry.key, c.owner, false⟩ = ∅
    unfold applyEvent
    rw [if_pos rfl]
    exact hempty

end

/-! ### The loader -/

theorem read_inv (e : Nat) (hpc : c.pc = .loading e) (entry : Entry K T V)
    (he : s.heap e = some entry) : Inv (s.setPc i c (.evaluating e entry.value)) := by
  have hkind : c.kind = some (.busy, e) := by unfold Call.kind; rw [hpc]
  have hcall := callOk_of_get hs hc
  unfold CallOk at hcall
  rw [hpc] at hcall
  obtain ⟨hop, x, hx, hkey, _⟩ := hcall
  rw [he] at hx
  cases hx
  obtain ⟨h1, h2, h3⟩ := counts_set s i c hc e (.evaluating e entry.value)
  rw [hkind] at h1 h2 h3
  simp [Call.kind] at h1 h2 h3
  refine pc_inv hs hc e entry he _ (fun k e' h => by rw [hkind] at h; cases h; rfl)
    (fun k e' h => by cases h; rfl) ((hs.entries e entry he).recount h2 h3 fun _ _ => ?_)
    ⟨hop, entry, he, hkey, rfl⟩
  have := count_pos s.calls c (List.mem_of_getElem? hc) .busy e hkind
  omega

theorem loadFails_inv (e : Nat) (previous : Option V) (hpc : c.pc = .evaluating e previous)
    (result : Result) : Inv (s.setPc i c (.finishing e result)) := by
  have hkind : c.kind = some (.busy, e) := by unfold Call.kind; rw [hpc]
  have hcall := callOk_of_get hs hc
  unfold CallOk at hcall
  rw [hpc] at hcall
  obtain ⟨hop, entry, he, hkey, _⟩ := hcall
  obtain ⟨h1, h2, h3⟩ := counts_set s i c hc e (.finishing e result)
  rw [hkind] at h1 h2 h3
  simp [Call.kind] at h1 h2 h3
  refine pc_inv hs hc e entry he _ (fun k e' h => by rw [hkind] at h; cases h; rfl)
    (fun k e' h => by cases h; rfl) ((hs.entries e entry he).recount h2 h3 fun _ _ => ?_)
    ⟨hop, entry, he, hkey, trivial⟩
  have := count_pos s.calls c (List.mem_of_getElem? hc) .busy e hkind
  omega

/-- a load commits its value and its owner -/
theorem loaded_inv (e : Nat) (previous : Option V) (hpc : c.pc = .evaluating e previous)
    (entry : Entry K T V) (he : s.heap e = some entry) (value : V) :
    Inv (((s.setEntry e { entry with
        value := some value, owners := insert c.owner entry.owners }).record i c true).setPc i c
          (.finishing e .ok)) := by
  have hkind : c.kind = some (.busy, e) := by unfold Call.kind; rw [hpc]
  obtain ⟨x, hx, hkey, hr, hbusy, hlink, howners, hrem, hone, _⟩ := busy_entry hs hc e hkind
  rw [he] at hx
  cases hx
  have hop : c.op = .load := by
    have hcall := callOk_of_get hs hc
    unfold CallOk at hcall
    rw [hpc] at hcall
    exact hcall.1
  obtain ⟨h1, h2, h3⟩ := counts_set s i c hc e (.finishing e .ok)
  rw [hkind] at h1 h2 h3
  simp [Call.kind] at h1 h2 h3
  refine move_inv hs hc e entry { entry with
      value := some value, owners := insert c.owner entry.owners } he (.finishing e .ok) s.index
    [⟨i, c.key, c.owner, true⟩] rfl (Or.inl rfl) (Or.inr (by rw [hkey]; exact hlink)) ?_ ?_
    (fun k e' h => by rw [hkind] at h; cases h; rfl) (fun k e' h => by cases h; rfl)
    (Or.inr ⟨by omega, .ok, rfl⟩) ?_ ⟨hop, _, Function.update_self _ _ _, hkey, trivial⟩
  · intro ev hev
    rw [List.mem_singleton.1 hev]
    exact hkey.symm
  · intro hnone
    rw [hkey, hlink] at hnone
    cases hnone
  · unfold EntryOk
    rw [if_neg (by show ¬ entry.removed = true; rw [hr]; exact Bool.false_ne_true)]
    refine ⟨by rw [hkey]; exact hlink, ?_, by simp only; omega,
      by simp only [hbusy, if_true]; omega, fun ho => absurd ho (Finset.insert_ne_empty _ _)⟩
    rw [replay_append, hkey, ← howners]
    show _ = applyEvent c.key entry.owners ⟨i, c.key, c.owner, true⟩
    unfold applyEvent
    rw [if_pos rfl]
    rfl

/-- the guard of a load clears the mark, and removes an entry without owners -/
theorem finish_inv (e : Nat) (result : Result) (hpc : c.pc = .finishing e result)
    (entry : Entry K T V) (he : s.heap e = some entry) :
    (entry.owners = ∅ → Inv (startRemove s i c e { entry with busy := none } result)) ∧
    (entry.owners ≠ ∅ →
      Inv ((s.setEntry e { entry with busy := none }).setPc i c (.returned result))) := by
  have hkind : c.kind = some (.busy, e) := by unfold Call.kind; rw [hpc]
  have hold : Touches c e := fun k e' h => by rw [hkind] at h; cases h; rfl
  obtain ⟨x, hx, hkey, hr, hbusy, hlink, howners, hrem, hone, _⟩ := busy_entry hs hc e hkind
  rw [he] at hx
  cases hx
  constructor
  · intro hempty
    obtain ⟨h1, h2, h3⟩ := counts_set s i c hc e (.removing e result)
    rw [hkind] at h1 h2 h3
    simp [Call.kind] at h1 h2 h3
    have h := startRemove_inv hs hc e entry { entry with busy := none } he hkey rfl rfl rfl
      hempty hlink [] (fun _ h => by cases h)
      (by rw [List.append_nil, ← howners]; exact hempty) result hold (by omega) (by omega)
    rw [List.append_nil] at h
    exact h
  · intro hne
    obtain ⟨h1, h2, h3⟩ := counts_set s i c hc e (.returned result)
    rw [hkind] at h1 h2 h3
    simp [Call.kind] at h1 h2 h3
    refine stay_inv hs hc e entry { entry with busy := none } he _ rfl rfl hold
      (fun k e' h => by cases h) ?_ trivial
    unfold EntryOk
    rw [if_neg (by show ¬ entry.removed = true; rw [hr]; exact Bool.false_ne_true)]
    refine ⟨by rw [hkey]; exact hlink, by rw [hkey]; exact howners, by simp only; omega,
      by simp only [Option.isSome_none, Bool.false_eq_true, if_false]; omega,
      fun ho => absurd ho hne⟩

theorem removeEntry_inv (e : Nat) (result : Result) (hpc : c.pc = .removing e result) :
    Inv ((s.unlink c.key e).setPc i c (.returned result)) := by
  have hkind : c.kind = some (.removing, e) := by unfold Call.kind; rw [hpc]
  obtain ⟨entry, he, hkey⟩ := at_of_kind s.heap c (callOk_of_get hs hc) .removing e hkind
  have hpos := count_pos s.calls c (List.mem_of_getElem? hc) .removing e hkind
  have hok := hs.entries e entry he
  unfold EntryOk at hok
  split at hok
  case isFalse hr => exact absurd hok.2.2.1 (Nat.ne_of_gt hpos)
  case isTrue hr =>
    obtain ⟨howners, hbusy, hb, ⟨hlink, hone, hreplay⟩ | ⟨_, hzero⟩⟩ := hok
    · rw [hkey] at hlink hreplay
      have hunlink : s.unlink c.key e = { s with index := Function.update s.index c.key none } :=
        if_pos hlink
      have hheap : Function.update s.heap e (some entry) = s.heap := by
        rw [← he, Function.update_eq_self]
      obtain ⟨h1, h2, h3⟩ := counts_set s i c hc e (.returned result)
      rw [hkind] at h1 h2 h3
      simp [Call.kind] at h1 h2 h3
      simp only at hb hone
      have h := move_inv hs hc e entry entry he (.returned result)
        (Function.update s.index c.key none) [] rfl
        (Or.inr ⟨by rw [hkey]; exact hlink, by rw [hkey]⟩) (Or.inl rfl) (fun _ h => by cases h)
        (fun _ => by rw [List.append_nil, hkey]; exact hreplay)
        (fun k e' h => by rw [hkind] at h; cases h; rfl) (fun k e' h => by cases h) (Or.inl rfl)
        (by
          unfold EntryOk
          rw [if_pos hr, hkey, Function.update_self]
          exact ⟨howners, hbusy, by simp only; omega, Or.inr ⟨by simp, by simp only; omega⟩⟩)
        trivial
      rw [List.append_nil, hheap] at h
      rw [hunlink]
      exact h
    · exact absurd hzero (Nat.ne_of_gt hpos)

theorem pass_inv (e : Nat) (hpc : c.pc = .waiting e) (entry : Entry K T V)
    (he : s.heap e = some entry) (s' : Cache K T V) (h : pass s i c e entry = some s') :
    Inv s' := by
  unfold pass at h
  cases hbusy : entry.busy with
  | some thread =>
    rw [hbusy] at h
    dsimp only at h
    split at h
    · cases h
      -- the thread reenters the entry it made busy: it panics, and its load is still there
      refine leave_inv hs hc e hpc entry he _ rfl trivial fun _ hr => ?_
      have hok := hs.entries e entry he
      unfold EntryOk at hok
      rw [if_neg (by rw [hr]; exact Bool.false_ne_true), hbusy] at hok
      have hb := hok.2.2.2.1
      simp only [Option.isSome_some, if_true] at hb
      omega
    · cases h
  | none =>
    rw [hbusy] at h
    cases h
    unfold passFree
    have hlive : entry.removed = true ∨ entry.removed = false := by cases entry.removed <;> simp
    cases hop : c.op with
    | load =>
      dsimp only
      rcases hlive with hr | hr
      · rw [if_pos hr]
        exact leave_inv hs hc e hpc entry he .looking rfl trivial
          fun _ hr' => by rw [hr] at hr'; cases hr'
      · rw [if_neg (by rw [hr]; exact Bool.false_ne_true)]
        exact mark_inv hs hc e hpc entry he hop hbusy hr
    | tryAddOwner =>
      have hne : c.op ≠ .load := by rw [hop]; intro h; cases h
      dsimp only
      by_cases hgone : entry.removed = true ∨ entry.owners = ∅
      · rw [if_pos hgone]
        exact leave_inv hs hc e hpc entry he _ rfl trivial fun h => absurd h hne
      · rw [if_neg hgone]
        refine effect_inv hs hc e hpc entry he hne
          (hlive.resolve_left fun h => hgone (Or.inl h)) true _ ?_ (Finset.insert_ne_empty _ _)
        unfold applyEvent
        rw [if_pos rfl]
        rfl
    | release =>
      have hne : c.op ≠ .load := by rw [hop]; intro h; cases h
      dsimp only
      rcases hlive with hr | hr
      · rw [if_pos hr]
        exact leave_inv hs hc e hpc entry he _ rfl trivial fun h => absurd h hne
      · rw [if_neg (by rw [hr]; exact Bool.false_ne_true)]
        by_cases hempty : entry.owners.erase c.owner = ∅
        · rw [if_pos hempty]
          exact eraseLast_inv hs hc e hpc entry he hop hbusy hr hempty
        · rw [if_neg hempty]
          refine effect_inv hs hc e hpc entry he hne hr false _ ?_ hempty
          unfold applyEvent
          rw [if_pos rfl]
          rfl

theorem look_inv (hpc : c.pc = .looking) : Inv (look s i c) := by
  have hkind : c.kind = none := by unfold Call.kind; rw [hpc]
  unfold look
  cases hidx : s.index c.key with
  | some e =>
    dsimp only
    split
    case isTrue h => exact look_marked_inv hs hc hpc h.1 e hidx h.2
    case isFalse => exact look_some_inv hs hc hpc e hidx
  | none =>
    cases hop : c.op with
    | load => exact insert_inv hs hc hpc hop hidx
    | tryAddOwner =>
      have h := idle_inv hs hc hkind (.returned .notAdded) rfl [] (fun _ h => by cases h)
        trivial
      rw [List.append_nil] at h
      exact h
    | release =>
      refine idle_inv hs hc hkind (.returned .ok) rfl [⟨i, c.key, c.owner, false⟩] ?_ trivial
      intro ev hev
      rw [List.mem_singleton.1 hev]
      exact ⟨hidx, rfl⟩

end

/-- a call starts -/
theorem call_inv (s : Cache K T V) (hs : Inv s) (op : Op) (key : K) (owner : UInt64)
    (thread : T) :
    Inv { s with calls := s.calls ++ [⟨op, key, owner, thread, .looking⟩] } where
  fresh := hs.fresh
  indexed := hs.indexed
  unindexed := hs.unindexed
  entries := by
    intro e entry he
    have hcount : (fun k => count (s.calls ++ [⟨op, key, owner, thread, .looking⟩]) k e)
        = fun k => count s.calls k e := by
      funext k
      simp [count, Call.kind]
    rw [hcount]
    exact hs.entries e entry he
  callsOk := by
    intro c hc
    rcases List.mem_append.1 hc with h | h
    · exact hs.callsOk c h
    · rw [List.mem_singleton.1 h]
      trivial

/-- what call `i`, which is `c`, can do -/
inductive Moves (s : Cache K T V) (i : Nat) (c : Call K T V) : Action K T V → Cache K T V → Prop where
  | look (hpc : c.pc = .looking) : Moves s i c (.look i) (look s i c)
  | pass {e entry s'} (hpc : c.pc = .waiting e) (he : s.heap e = some entry)
      (h : pass s i c e entry = some s') : Moves s i c (.pass i) s'
  | read {e entry} (hpc : c.pc = .loading e) (he : s.heap e = some entry) :
      Moves s i c (.read i) (s.setPc i c (.evaluating e entry.value))
  | loaded {e previous parsed value entry} (hpc : c.pc = .evaluating e previous)
      (hv : loadedValue previous parsed = some value) (he : s.heap e = some entry) :
      Moves s i c (.loaded i parsed) (((s.setEntry e { entry with
        value := some value, owners := insert c.owner entry.owners }).record i c true).setPc i c
          (.finishing e .ok))
  | loadFails {e previous result} (hpc : c.pc = .evaluating e previous)
      (hres : result = .failed ∨ result = .panicked) :
      Moves s i c (.loadFails i result) (s.setPc i c (.finishing e result))
  | finish {e result entry} (hpc : c.pc = .finishing e result) (he : s.heap e = some entry)
      (ho : entry.owners = ∅) :
      Moves s i c (.finish i) (startRemove s i c e { entry with busy := none } result)
  | kept {e result entry} (hpc : c.pc = .finishing e result) (he : s.heap e = some entry)
      (ho : entry.owners ≠ ∅) :
      Moves s i c (.finish i) ((s.setEntry e { entry with busy := none }).setPc i c (.returned result))
  | removeEntry {e result} (hpc : c.pc = .removing e result) :
      Moves s i c (.removeEntry i) ((s.unlink c.key e).setPc i c (.returned result))

theorem Moves.actor {i : Nat} {c : Call K T V} {a : Action K T V} {s s' : Cache K T V}
    (h : Moves s i c a s') : a.actor = some i := by
  cases h <;> rfl

theorem step_cases (a : Action K T V) (s s' : Cache K T V) (h : step a s = some s') :
    (∃ op key owner thread, a = .call op key owner thread ∧
      s' = { s with calls := s.calls ++ [⟨op, key, owner, thread, .looking⟩] }) ∨
    ∃ i c, s.calls[i]? = some c ∧ Moves s i c a s' := by
  cases a with
  | call op key owner thread =>
    cases h
    exact .inl ⟨op, key, owner, thread, rfl, rfl⟩
  | look i =>
    obtain ⟨c, hc, h⟩ := Option.bind_eq_some_iff.1 h
    split at h
    case h_2 => cases h
    case h_1 hpc => cases h; exact .inr ⟨i, c, hc, .look hpc⟩
  | pass i =>
    obtain ⟨c, hc, h⟩ := Option.bind_eq_some_iff.1 h
    split at h
    case h_2 => cases h
    case h_1 e hpc =>
      split at h
      · cases h
      · obtain ⟨entry, he, h⟩ := Option.bind_eq_some_iff.1 h
        exact .inr ⟨i, c, hc, .pass hpc he h⟩
  | read i =>
    obtain ⟨c, hc, h⟩ := Option.bind_eq_some_iff.1 h
    split at h
    case h_2 => cases h
    case h_1 e hpc =>
      obtain ⟨entry, he, h⟩ := Option.bind_eq_some_iff.1 h
      cases h
      exact .inr ⟨i, c, hc, .read hpc he⟩
  | loaded i parsed =>
    obtain ⟨c, hc, h⟩ := Option.bind_eq_some_iff.1 h
    split at h
    case h_2 => cases h
    case h_1 e previous hpc =>
      obtain ⟨value, hv, h⟩ := Option.bind_eq_some_iff.1 h
      obtain ⟨entry, he, h⟩ := Option.bind_eq_some_iff.1 h
      cases h
      exact .inr ⟨i, c, hc, .loaded hpc hv he⟩
  | loadFails i result =>
    obtain ⟨c, hc, h⟩ := Option.bind_eq_some_iff.1 h
    split at h
    case h_2 => cases h
    case h_1 e previous hpc =>
      split at h
      case isFalse => cases h
      case isTrue hres => cases h; exact .inr ⟨i, c, hc, .loadFails hpc hres⟩
  | finish i =>
    obtain ⟨c, hc, h⟩ := Option.bind_eq_some_iff.1 h
    split at h
    case h_2 => cases h
    case h_1 e result hpc =>
      obtain ⟨entry, he, h⟩ := Option.bind_eq_some_iff.1 h
      dsimp only at h
      split at h
      case isTrue ho => cases h; exact .inr ⟨i, c, hc, .finish hpc he ho⟩
      case isFalse ho => cases h; exact .inr ⟨i, c, hc, .kept hpc he ho⟩
  | removeEntry i =>
    obtain ⟨c, hc, h⟩ := Option.bind_eq_some_iff.1 h
    split at h
    case h_2 => cases h
    case h_1 e result hpc => cases h; exact .inr ⟨i, c, hc, .removeEntry hpc⟩

/-- **Every step keeps the invariant.** -/
theorem step_inv (a : Action K T V) (s s' : Cache K T V) (hs : Inv s) (h : step a s = some s') :
    Inv s' := by
  rcases step_cases a s s' h with ⟨op, key, owner, thread, -, rfl⟩ | ⟨i, c, hc, hmoves⟩
  · exact call_inv s hs op key owner thread
  cases hmoves with
  | look hpc => exact look_inv hs hc hpc
  | pass hpc he hpass => exact pass_inv hs hc _ hpc _ he s' hpass
  | read hpc he => exact read_inv hs hc _ hpc _ he
  | loaded hpc hv he => exact loaded_inv hs hc _ _ hpc _ he _
  | loadFails hpc => exact loadFails_inv hs hc _ _ hpc _
  | finish hpc he ho => exact (finish_inv hs hc _ _ hpc _ he).1 ho
  | kept hpc he ho => exact (finish_inv hs hc _ _ hpc _ he).2 ho
  | removeEntry hpc => exact removeEntry_inv hs hc _ _ hpc

end

end Tsr.Project.OwnerCache
