import Tsr.Project.RefCountCache

/-!
# The reference-counted cache under any interleaving

`Inv` ties the state of every entry to the calls that stand at it: how many run its producer, hold
a reference to it or remove it, and whether the index still has it.  `step_inv` is the step lemma,
`inv_of_exec` the run lemma, and `refCount_laws` reads the laws of the cache off the invariant.
-/

set_option linter.unusedSectionVars false

namespace Tsr.Project.RefCountCache
open Tsr.Lib.Run

section
variable {K T V : Type} [DecidableEq K] [DecidableEq T] (opts : RefCountCacheOptions)

/-- the calls that stand at entry `e` in a given way -/
def count (calls : List (Call K T V)) (k : Kind) (e : Nat) : Nat :=
  calls.countP fun c => c.pc.kind = some (k, e)

/-- An entry by its state: in the index or not, with its completions and the calls at it. -/
def EntryOk (state : State T V) (linked : Prop) (completions : Nat) (n : Kind → Nat) : Prop :=
  match state with
  | .initializing _ => n .holding = 0 ∧ n .removing = 0 ∧
      (linked ∧ n .producing = 1 ∧ n .failed = 0 ∧ completions = 0 ∨
        ¬ linked ∧ n .producing = 0 ∧ n .failed = 1 ∧ completions = 1)
  | .ready _ references => linked ∧ n .producing = 0 ∧ n .failed = 0 ∧ n .removing = 0 ∧
      completions = 1 ∧ references = n .holding ∧
      (opts.disableDeletion = true ∨ 0 < n .holding) ∧ 0 < n .holding + n .released
  | .removed => n .producing = 0 ∧ n .failed = 0 ∧ n .holding = 0 ∧ completions = 1 ∧
      (linked ∧ n .removing = 1 ∧ opts.disableDeletion = false ∨ ¬ linked ∧ n .removing = 0)

/-- there is an entry at `e`, made for `key`, in a state with the property `P` -/
def At (heap : Nat → Option (Entry K T V)) (key : K) (e : Nat) (P : State T V → Prop) : Prop :=
  ∃ entry, heap e = some entry ∧ entry.key = key ∧ P entry.state

def IsReady (v : V) (state : State T V) : Prop := ∃ references, state = .ready v references

def CallOk (heap : Nat → Option (Entry K T V)) (c : Call K T V) : Prop :=
  match c.pc with
  | .looking => True
  | .entered e => At heap c.key e fun _ => True
  | .producing e => At heap c.key e fun _ => True
  | .failed e => At heap c.key e fun _ => True
  | .leased l => At heap c.key l.entry (IsReady l.value)
  | .releasing l => At heap c.key l.entry (IsReady l.value)
  | .releasingAt l e => e = l.entry ∧ At heap c.key l.entry (IsReady l.value)
  | .removing l e => e = l.entry ∧ At heap c.key e fun _ => True
  | .released l => At heap c.key l.entry fun state =>
      opts.disableDeletion = true → IsReady l.value state
  | .returned => True

structure Inv (s : Cache K T V) : Prop where
  fresh : ∀ e entry, s.heap e = some entry → e < s.next
  indexed : ∀ k e, s.index k = some e → At s.heap k e fun _ => True
  entries : ∀ e entry, s.heap e = some entry →
    EntryOk opts entry.state (s.index entry.key = some e) entry.completions
      (fun k => count s.calls k e)
  callsOk : ∀ c ∈ s.calls, CallOk opts s.heap c

theorem inv_empty : Inv opts (Cache.empty : Cache K T V) where
  fresh := fun e entry h => by cases h
  indexed := fun k e h => by cases h
  entries := fun e entry h => by cases h
  callsOk := fun c h => by cases h

/-! ## Counting -/

/-- one call moves -/
theorem count_set (calls : List (Call K T V)) (i : Nat) (c : Call K T V)
    (hc : calls[i]? = some c) (pc : Pc V) (k : Kind) (e : Nat) :
    count (calls.set i { c with pc := pc }) k e + (if c.pc.kind = some (k, e) then 1 else 0)
      = count calls k e + (if pc.kind = some (k, e) then 1 else 0) := by
  have h := countP_set_add (fun c : Call K T V => decide (c.pc.kind = some (k, e))) calls i c
    { c with pc := pc } hc
  simp only [decide_eq_true_eq] at h
  exact h

/-- a call that stands at `e` has an entry there, made for its key -/
theorem at_of_kind (heap : Nat → Option (Entry K T V)) (c : Call K T V)
    (hok : CallOk opts heap c) (k : Kind) (e : Nat) (hk : c.pc.kind = some (k, e)) :
    ∃ entry, heap e = some entry ∧ entry.key = c.key := by
  obtain ⟨key, thread, pc⟩ := c
  cases pc with
  | looking | returned | entered _ => cases hk
  | producing e' | failed e' | leased l | releasing l | released l =>
    cases hk
    obtain ⟨entry, h, hkey, _⟩ := hok
    exact ⟨entry, h, hkey⟩
  | releasingAt l e' | removing l e' =>
    cases hk
    obtain ⟨_, entry, h, hkey, _⟩ := hok
    exact ⟨entry, h, hkey⟩

/-- nobody stands at an address that is not in use -/
theorem count_unused (s : Cache K T V) (hs : Inv opts s) (e : Nat) (he : s.heap e = none)
    (k : Kind) : count s.calls k e = 0 := by
  unfold count
  rw [List.countP_eq_zero]
  intro c hc hk
  obtain ⟨entry, h, _⟩ := at_of_kind opts s.heap c (hs.callsOk c hc) k e (of_decide_eq_true hk)
  rw [he] at h
  cases h

theorem count_pos (calls : List (Call K T V)) (c : Call K T V) (hc : c ∈ calls) (k : Kind)
    (e : Nat) (hk : c.pc.kind = some (k, e)) : 0 < count calls k e :=
  List.countP_pos_iff.2 ⟨c, hc, decide_eq_true hk⟩

/-! ## Moves of one call at one entry -/

/-- the entry a call stands at -/
def Touches (pc : Pc V) (e : Nat) : Prop := ∀ k e', pc.kind = some (k, e') → e' = e

theorem touches {pc pc' : Pc V} {k : Kind} {e : Nat} (h : pc = pc') (hk : pc'.kind = some (k, e)) :
    Touches pc e := by
  rintro k' e' hk'
  rw [h, hk] at hk'
  cases hk'
  rfl

theorem touches_none {pc pc' : Pc V} {e : Nat} (h : pc = pc') (hk : pc'.kind = none) : Touches pc e := by
  rintro k' e' hk'
  rw [h, hk] at hk'
  cases hk'

section
variable {opts : RefCountCacheOptions} {s : Cache K T V} (hs : Inv opts s) {i : Nat} {c : Call K T V}
  (hc : s.calls[i]? = some c) (e : Nat) (entry entry' : Entry K T V) (he : s.heap e = some entry)
  (hkey : entry'.key = entry.key) (pc : Pc V) (index' : K → Option Nat)
include hs hc he

include hkey in
/-- the calls that did not move still find what they need -/
theorem callOk_frame (calls' : List (Call K T V)) (linked : Prop)
    (hvalue : ∀ v, IsReady v entry.state → ∀ v', IsReady v' entry'.state → v' = v)
    (hkeep : opts.disableDeletion = true → ∀ v, IsReady v entry.state → IsReady v entry'.state)
    (hentry : EntryOk opts entry'.state linked entry'.completions (fun k => count calls' k e))
    (d : Call K T V) (hd : d ∈ s.calls) (hd' : d ∈ calls') :
    CallOk opts (Function.update s.heap e (some entry')) d := by
  have hok := hs.callsOk d hd
  -- an entry other than `e` is as it was, and `e` keeps its key
  have hframe : ∀ e' P Q, At s.heap d.key e' P →
      (e' = e → P entry.state → Q entry'.state) → (∀ state, P state → Q state) →
      At (Function.update s.heap e (some entry')) d.key e' Q := by
    intro e' P Q hat hsame hmono
    obtain ⟨x, hx, hxk, hP⟩ := hat
    by_cases heq : e' = e
    · subst heq
      rw [he] at hx
      cases hx
      exact ⟨entry', Function.update_self _ _ _, hkey.trans hxk, hsame rfl hP⟩
    · exact ⟨x, by rw [Function.update_of_ne heq]; exact hx, hxk, hmono _ hP⟩
  have hholds : ∀ l : Lease V, d.pc.kind = some (.holding, l.entry) →
      At s.heap d.key l.entry (IsReady l.value) →
      At (Function.update s.heap e (some entry')) d.key l.entry (IsReady l.value) := by
    intro l hk hat
    refine hframe _ _ _ hat (fun heq hP => ?_) (fun _ h => h)
    -- somebody holds `e`, so it is ready, and with the value it had
    have hpos : 0 < count calls' .holding e := count_pos calls' d hd' _ _ (by rw [hk, heq])
    revert hentry
    cases hstate : entry'.state with
    | initializing owner => rintro ⟨h0, _⟩; exact absurd h0 (Nat.ne_of_gt hpos)
    | removed => rintro ⟨_, _, h0, _⟩; exact absurd h0 (Nat.ne_of_gt hpos)
    | ready v' r' =>
      intro _
      have hv := hvalue l.value hP v' ⟨r', hstate⟩
      exact ⟨r', by rw [hv]⟩
  obtain ⟨key, thread, pc⟩ := d
  cases pc with
  | looking | returned => trivial
  | entered e' | producing e' | failed e' =>
    exact hframe e' (fun _ => True) (fun _ => True) hok (fun _ _ => trivial) (fun _ _ => trivial)
  | leased l | releasing l => exact hholds l rfl hok
  | releasingAt l e' => exact ⟨hok.1, hholds l rfl hok.2⟩
  | removing l e' =>
    exact ⟨hok.1, hframe e' (fun _ => True) (fun _ => True) hok.2 (fun _ _ => trivial)
      (fun _ _ => trivial)⟩
  | released l =>
    exact hframe l.entry (fun state => opts.disableDeletion = true → IsReady l.value state)
      (fun state => opts.disableDeletion = true → IsReady l.value state) hok
      (fun _ hP hdis => hkeep hdis _ (hP hdis)) (fun _ h => h)

include hkey in
/-- **The frame of a move.**  One call moves at the entry `e`, which changes to `entry'`; the index
stays, or loses its link to `e`.  What is left to check is `e` itself and the call. -/
theorem move_inv
    (hindex : index' = s.index ∨
      s.index entry.key = some e ∧ index' = Function.update s.index entry.key none)
    (hold : Touches c.pc e) (hnew : Touches pc e)
    (hvalue : ∀ v, IsReady v entry.state → ∀ v', IsReady v' entry'.state → v' = v)
    (hkeep : opts.disableDeletion = true → ∀ v, IsReady v entry.state → IsReady v entry'.state)
    (hentry : EntryOk opts entry'.state (index' entry.key = some e) entry'.completions
      (fun k => count (s.calls.set i { c with pc := pc }) k e))
    (hcall : CallOk opts (Function.update s.heap e (some entry')) { c with pc := pc }) :
    Inv opts { s with
      index := index'
      heap := Function.update s.heap e (some entry')
      calls := s.calls.set i { c with pc := pc } } where
  fresh := by
    intro e' x hx
    by_cases heq : e' = e
    · rw [heq]; exact hs.fresh e entry he
    · exact hs.fresh e' x (by simpa only [Function.update_of_ne heq] using hx)
  indexed := by
    intro k e' hk
    have hk' : s.index k = some e' := by
      rcases hindex with h | ⟨_, h⟩
      · rw [← h]; exact hk
      · by_cases hkk : k = entry.key
        · simp only [h, hkk, Function.update_self] at hk
          cases hk
        · simpa only [h, Function.update_of_ne hkk] using hk
    obtain ⟨x, hx, hxk, _⟩ := hs.indexed k e' hk'
    by_cases heq : e' = e
    · subst heq
      rw [he] at hx
      cases hx
      exact ⟨entry', Function.update_self _ _ _, hkey.trans hxk, trivial⟩
    · exact ⟨x, (Function.update_of_ne heq _ _).trans hx, hxk, trivial⟩
  entries := by
    intro e' x hx
    replace hx : Function.update s.heap e (some entry') e' = some x := hx
    by_cases heq : e' = e
    · subst heq
      rw [Function.update_self, Option.some.injEq] at hx
      rw [← hx, hkey]
      exact hentry
    · rw [Function.update_of_ne heq] at hx
      have hcount : (fun k => count (s.calls.set i { c with pc := pc }) k e')
          = fun k => count s.calls k e' := by
        funext k
        have h := count_set s.calls i c hc pc k e'
        rw [if_neg (fun h => heq (hold k e' h)), if_neg (fun h => heq (hnew k e' h))] at h
        exact h
      have hlink : (index' x.key = some e') = (s.index x.key = some e') := by
        rcases hindex with h | ⟨hlinked, h⟩
        · rw [h]
        · by_cases hkk : x.key = entry.key
          · rw [h, hkk, Function.update_self, hlinked]
            simp [Ne.symm heq]
          · rw [h, Function.update_of_ne hkk]
      show EntryOk opts x.state (index' x.key = some e') x.completions
        (fun k => count (s.calls.set i { c with pc := pc }) k e')
      rw [hcount, hlink]
      exact hs.entries e' x hx
  callsOk := by
    intro d hd
    rcases List.mem_or_eq_of_mem_set hd with hmem | rfl
    · exact callOk_frame hs hc e entry entry' he hkey _ _ hvalue hkeep hentry d hmem hd
    · exact hcall

/-- a move that changes neither an entry nor the index -/
theorem move_pc_inv (hold : Touches c.pc e) (hnew : Touches pc e)
    (hkind : c.pc.kind = pc.kind) (hcall : CallOk opts s.heap { c with pc := pc }) :
    Inv opts (s.setPc i c pc) := by
  have hcount : (fun k => count (s.calls.set i { c with pc := pc }) k e)
      = fun k => count s.calls k e := by
    funext k
    have h := count_set s.calls i c hc pc k e
    rw [hkind] at h
    exact Nat.add_right_cancel h
  have hheap : Function.update s.heap e (some entry) = s.heap := by
    rw [← he, Function.update_eq_self]
  have h := move_inv hs hc e entry entry he rfl pc s.index (Or.inl rfl) hold hnew
    (fun v hv v' hv' => by
      obtain ⟨r, hr⟩ := hv
      obtain ⟨r', hr'⟩ := hv'
      rw [hr] at hr'
      cases hr'
      rfl)
    (fun _ _ h => h) (by rw [hcount]; exact hs.entries e entry he) (by rw [hheap]; exact hcall)
  rw [hheap] at h
  exact h

end

/-- the counts at `e` behind a move -/
theorem counts_set (s : Cache K T V) (i : Nat) (c : Call K T V) (hc : s.calls[i]? = some c)
    (e : Nat) (pc : Pc V) :
    let calls' := s.calls.set i { c with pc := pc }
    let old k := if c.pc.kind = some (k, e) then 1 else 0
    let new k := if pc.kind = some (k, e) then 1 else 0
    count calls' .producing e + old .producing = count s.calls .producing e + new .producing ∧
    count calls' .failed e + old .failed = count s.calls .failed e + new .failed ∧
    count calls' .holding e + old .holding = count s.calls .holding e + new .holding ∧
    count calls' .removing e + old .removing = count s.calls .removing e + new .removing ∧
    count calls' .released e + old .released = count s.calls .released e + new .released :=
  ⟨count_set _ _ _ hc _ _ _, count_set _ _ _ hc _ _ _, count_set _ _ _ hc _ _ _,
    count_set _ _ _ hc _ _ _, count_set _ _ _ hc _ _ _⟩

theorem unlink_eq (s : Cache K T V) (key : K) (e : Nat) (h : s.index key = some e) :
    s.unlink key e = { s with index := Function.update s.index key none } := if_pos h

/-! ## The steps -/

section
variable {opts : RefCountCacheOptions} {s : Cache K T V} (hs : Inv opts s) {i : Nat} {c : Call K T V}
  (hc : s.calls[i]? = some c)
include hs hc

theorem callOk_of_get : CallOk opts s.heap c := hs.callsOk c (List.mem_of_getElem? hc)

/-- the entry behind a call that stands at `e`, and how many stand there like it -/
theorem entry_of_kind (k : Kind) (e : Nat) (hk : c.pc.kind = some (k, e)) :
    ∃ entry, s.heap e = some entry ∧ entry.key = c.key ∧ 0 < count s.calls k e ∧
      EntryOk opts entry.state (s.index c.key = some e) entry.completions
        (fun k => count s.calls k e) := by
  obtain ⟨entry, he, hkey⟩ := at_of_kind opts s.heap c (callOk_of_get hs hc) k e hk
  have hok := hs.entries e entry he
  rw [hkey] at hok
  exact ⟨entry, he, hkey, count_pos s.calls c (List.mem_of_getElem? hc) k e hk, hok⟩

theorem enter_ready_inv (e : Nat) (hpc : c.pc = .entered e) (entry : Entry K T V)
    (he : s.heap e = some entry) (v : V) (r : Int) (hstate : entry.state = .ready v r) :
    Inv opts ((s.setEntry e { entry with state := .ready v (r + 1) }).setPc i c
      (.leased ⟨e, v⟩)) := by
  have hok := hs.entries e entry he
  have hcall := callOk_of_get hs hc
  rw [hstate] at hok
  obtain ⟨hlink, hp, hf, hr, hcomp, href, hpos, hgr⟩ := hok
  obtain ⟨h1, h2, h3, h4, h5⟩ := counts_set s i c hc e (.leased ⟨e, v⟩)
  simp [hpc, Pc.kind] at h1 h2 h3 h4 h5
  refine move_inv hs hc e entry { entry with state := .ready v (r + 1) } he rfl
    (.leased ⟨e, v⟩) s.index (Or.inl rfl) (touches_none hpc rfl)
    (touches rfl rfl) ?_ ?_ ?_ ?_
  · rintro v1 ⟨r1, h1⟩ v2 ⟨r2, h2⟩
    rw [hstate] at h1
    cases h1
    cases h2
    rfl
  · rintro _ v1 ⟨r1, h1⟩
    rw [hstate] at h1
    cases h1
    exact ⟨_, rfl⟩
  · simp only [EntryOk] at *
    refine ⟨hlink, by omega, by omega, by omega, hcomp, by rw [href]; omega, Or.inr (by omega),
      by omega⟩
  · obtain ⟨x, hx, hxk, _⟩ : At s.heap c.key e fun _ => True := by
      unfold CallOk at hcall
      rw [hpc] at hcall
      exact hcall
    rw [he] at hx
    cases hx
    exact ⟨_, Function.update_self _ _ _, hxk, r + 1, rfl⟩

/-- a producer runs only for a provisional entry in the index -/
theorem producing_entry (e : Nat) (hpc : c.pc = .producing e) :
    ∃ entry t, s.heap e = some entry ∧ entry.key = c.key ∧ entry.state = .initializing t ∧
      s.index c.key = some e ∧ entry.completions = 0 ∧ count s.calls .producing e = 1 ∧
      count s.calls .failed e = 0 ∧ count s.calls .holding e = 0 ∧
      count s.calls .removing e = 0 := by
  obtain ⟨entry, he, hkey, hpos, hok⟩ := entry_of_kind hs hc .producing e
    (by rw [hpc]; rfl)
  cases hst : entry.state with
  | initializing t =>
    rw [hst] at hok
    obtain ⟨hh, hr, ⟨hlink, hp, hf, hcomp⟩ | ⟨_, hp, _⟩⟩ := hok
    · exact ⟨entry, t, he, hkey, hst, hlink, hcomp, hp, hf, hh, hr⟩
    · exact absurd hp (Nat.ne_of_gt hpos)
  | ready v r => rw [hst] at hok; exact absurd hok.2.1 (Nat.ne_of_gt hpos)
  | removed => rw [hst] at hok; exact absurd hok.1 (Nat.ne_of_gt hpos)

/-- a failed producer's call stands at a provisional entry that left the index -/
theorem failed_entry (e : Nat) (hpc : c.pc = .failed e) :
    ∃ entry t, s.heap e = some entry ∧ entry.key = c.key ∧ entry.state = .initializing t ∧
      s.index c.key ≠ some e ∧ entry.completions = 1 ∧ count s.calls .producing e = 0 ∧
      count s.calls .failed e = 1 ∧ count s.calls .holding e = 0 ∧
      count s.calls .removing e = 0 := by
  obtain ⟨entry, he, hkey, hpos, hok⟩ := entry_of_kind hs hc .failed e
    (by rw [hpc]; rfl)
  cases hst : entry.state with
  | initializing t =>
    rw [hst] at hok
    obtain ⟨hh, hr, ⟨_, _, hf, _⟩ | ⟨hlink, hp, hf, hcomp⟩⟩ := hok
    · exact absurd hf (Nat.ne_of_gt hpos)
    · exact ⟨entry, t, he, hkey, hst, hlink, hcomp, hp, hf, hh, hr⟩
  | ready v r => rw [hst] at hok; exact absurd hok.2.2.1 (Nat.ne_of_gt hpos)
  | removed => rw [hst] at hok; exact absurd hok.2.1 (Nat.ne_of_gt hpos)

/-- a lease stands for a reference to a ready entry in the index -/
theorem holding_entry (l : Lease V) (hl : c.pc.lease = some l)
    (hk : c.pc.kind = some (.holding, l.entry)) :
    ∃ entry r, s.heap l.entry = some entry ∧ entry.key = c.key ∧
      entry.state = .ready l.value r ∧ s.index c.key = some l.entry ∧ entry.completions = 1 ∧
      r = count s.calls .holding l.entry ∧ 0 < count s.calls .holding l.entry ∧
      count s.calls .producing l.entry = 0 ∧ count s.calls .failed l.entry = 0 ∧
      count s.calls .removing l.entry = 0 := by
  obtain ⟨entry, he, hkey, hpos, hok⟩ := entry_of_kind hs hc .holding l.entry hk
  have hready : At s.heap c.key l.entry (IsReady l.value) := by
    have hcall := callOk_of_get hs hc
    obtain ⟨key, thread, pc⟩ := c
    cases pc with
    | looking | entered _ | producing _ | failed _ | released _ | returned => cases hl
    | leased l' | releasing l' => cases hl; exact hcall
    | releasingAt l' e' => cases hl; exact hcall.2
    | removing l' e' => cases hk
  obtain ⟨x, hx, _, r, hst⟩ := hready
  rw [he] at hx
  cases hx
  rw [hst] at hok
  obtain ⟨hlink, hp, hf, hr, hcomp, href, _⟩ := hok
  exact ⟨entry, r, he, hkey, hst, hlink, hcomp, href, hpos, hp, hf, hr⟩

/-- a call that removes an entry is the last one there, and the index still has it -/
theorem removing_entry (l : Lease V) (e : Nat) (hpc : c.pc = .removing l e) :
    ∃ entry, s.heap e = some entry ∧ entry.key = c.key ∧ entry.state = .removed ∧
      s.index c.key = some e ∧ entry.completions = 1 ∧ opts.disableDeletion = false ∧
      count s.calls .producing e = 0 ∧ count s.calls .failed e = 0 ∧
      count s.calls .holding e = 0 ∧ count s.calls .removing e = 1 := by
  obtain ⟨entry, he, hkey, hpos, hok⟩ := entry_of_kind hs hc .removing e
    (by rw [hpc]; rfl)
  cases hst : entry.state with
  | initializing t => rw [hst] at hok; exact absurd hok.2.1 (Nat.ne_of_gt hpos)
  | ready v r => rw [hst] at hok; exact absurd hok.2.2.2.1 (Nat.ne_of_gt hpos)
  | removed =>
    rw [hst] at hok
    obtain ⟨hp, hf, hh, hcomp, ⟨hlink, hr, hdis⟩ | ⟨_, hr⟩⟩ := hok
    · exact ⟨entry, he, hkey, hst, hlink, hcomp, hdis, hp, hf, hh, hr⟩
    · exact absurd hr (Nat.ne_of_gt hpos)

theorem produced_inv (e : Nat) (hpc : c.pc = .producing e) (entry : Entry K T V)
    (he : s.heap e = some entry) (v : V) :
    Inv opts ((s.setEntry e ⟨entry.key, .ready v 1, entry.completions + 1⟩).setPc i c
      (.leased ⟨e, v⟩)) := by
  obtain ⟨x, t, hx, hkey, hstate, hlink, hcomp, hp, hf, hh, hr⟩ :=
    producing_entry hs hc e hpc
  rw [he] at hx
  cases hx
  obtain ⟨h1, h2, h3, h4, h5⟩ := counts_set s i c hc e (.leased ⟨e, v⟩)
  simp [hpc, Pc.kind] at h1 h2 h3 h4 h5
  refine move_inv hs hc e entry ⟨entry.key, .ready v 1, entry.completions + 1⟩ he rfl
    (.leased ⟨e, v⟩) s.index (Or.inl rfl) (touches hpc rfl)
    (touches rfl rfl) ?_ ?_ ?_ ?_
  · rintro v1 ⟨r1, hr1⟩
    rw [hstate] at hr1
    cases hr1
  · rintro _ v1 ⟨r1, hr1⟩
    rw [hstate] at hr1
    cases hr1
  · rw [hkey]
    simp only [EntryOk]
    exact ⟨hlink, by omega, by omega, by omega, by omega, by omega, Or.inr (by omega), by omega⟩
  · exact ⟨_, Function.update_self _ _ _, hkey, 1, rfl⟩

theorem produceFails_inv (e : Nat) (hpc : c.pc = .producing e) (entry : Entry K T V)
    (he : s.heap e = some entry) :
    Inv opts (((s.setEntry e { entry with completions := entry.completions + 1 }).unlink c.key
      e).setPc i c (.failed e)) := by
  obtain ⟨x, t, hx, hkey, hstate, hlink, hcomp, hp, hf, hh, hr⟩ :=
    producing_entry hs hc e hpc
  rw [he] at hx
  cases hx
  obtain ⟨h1, h2, h3, h4, h5⟩ := counts_set s i c hc e (.failed e)
  simp [hpc, Pc.kind] at h1 h2 h3 h4 h5
  rw [unlink_eq (s.setEntry e { entry with completions := entry.completions + 1 }) c.key e hlink]
  refine move_inv hs hc e entry { entry with completions := entry.completions + 1 } he
    rfl (.failed e) (Function.update s.index c.key none)
    (Or.inr ⟨by rw [hkey]; exact hlink, by rw [hkey]⟩) (touches hpc rfl)
    (touches rfl rfl) ?_ (fun _ _ h => h) ?_ ?_
  · rintro v1 ⟨r1, hr1⟩
    rw [hstate] at hr1
    cases hr1
  · simp only [EntryOk, hstate, hkey, Function.update_self]
    exact ⟨by omega, by omega, Or.inr ⟨by simp, by omega, by omega, by omega⟩⟩
  · exact ⟨_, Function.update_self _ _ _, hkey, trivial⟩

theorem unwind_inv (e : Nat) (hpc : c.pc = .failed e) (entry : Entry K T V)
    (he : s.heap e = some entry) :
    Inv opts ((s.setEntry e { entry with state := .removed }).setPc i c .returned) := by
  obtain ⟨x, t, hx, hkey, hstate, hlink, hcomp, hp, hf, hh, hr⟩ :=
    failed_entry hs hc e hpc
  rw [he] at hx
  cases hx
  obtain ⟨h1, h2, h3, h4, h5⟩ := counts_set s i c hc e .returned
  simp [hpc, Pc.kind] at h1 h2 h3 h4 h5
  refine move_inv hs hc e entry { entry with state := .removed } he rfl .returned
    s.index (Or.inl rfl) (touches hpc rfl) (touches_none rfl rfl)
    ?_ ?_ ?_ trivial
  · rintro v1 _ v2 ⟨r2, hr2⟩
    cases hr2
  · rintro _ v1 ⟨r1, hr1⟩
    rw [hstate] at hr1
    cases hr1
  · rw [hkey]
    simp only [EntryOk]
    exact ⟨by omega, by omega, by omega, hcomp, Or.inr ⟨hlink, by omega⟩⟩

/-- the last reference goes, or one of several, or retention keeps the entry -/
theorem deref_inv (l : Lease V) (e : Nat) (hpc : c.pc = .releasingAt l e) (entry : Entry K T V)
    (he : s.heap e = some entry) : Inv opts (deref opts s i c l e entry) := by
  have hel : e = l.entry := by
    have hcall := callOk_of_get hs hc
    unfold CallOk at hcall
    rw [hpc] at hcall
    exact hcall.1
  subst hel
  obtain ⟨x, r, hx, hkey, hstate, hlink, hcomp, href, hpos, hp, hf, hr⟩ :=
    holding_entry hs hc l (by rw [hpc]; rfl) (by rw [hpc]; rfl)
  rw [he] at hx
  cases hx
  unfold deref
  rw [hstate]
  dsimp only
  split
  case isTrue hgo =>
    obtain ⟨h1, h2, h3, h4, h5⟩ := counts_set s i c hc l.entry (.released l)
    simp [hpc, Pc.kind] at h1 h2 h3 h4 h5
    refine move_inv hs hc l.entry entry { entry with state := .ready l.value (r - 1) }
      he rfl (.released l) s.index (Or.inl rfl) (touches hpc rfl)
      (touches rfl rfl) ?_ ?_ ?_ ?_
    · rintro v1 ⟨r1, hr1⟩ v2 ⟨r2, hr2⟩
      rw [hstate] at hr1
      cases hr1
      cases hr2
      rfl
    · rintro _ v1 ⟨r1, hr1⟩
      rw [hstate] at hr1
      cases hr1
      exact ⟨_, rfl⟩
    · rw [hkey]
      simp only [EntryOk]
      refine ⟨hlink, by omega, by omega, by omega, hcomp, by omega, ?_, by omega⟩
      rcases hgo with hgt | hdis
      · exact Or.inr (by omega)
      · exact Or.inl hdis
    · exact ⟨_, Function.update_self _ _ _, hkey, fun _ => ⟨r - 1, rfl⟩⟩
  case isFalse hgo =>
    obtain ⟨hle, hdis⟩ := not_or.1 hgo
    obtain ⟨h1, h2, h3, h4, h5⟩ := counts_set s i c hc l.entry (.removing l l.entry)
    simp [hpc, Pc.kind] at h1 h2 h3 h4 h5
    refine move_inv hs hc l.entry entry { entry with state := .removed } he rfl
      (.removing l l.entry) s.index (Or.inl rfl) (touches hpc rfl)
      (touches rfl rfl) ?_ ?_ ?_ ?_
    · rintro v1 _ v2 ⟨r2, hr2⟩
      cases hr2
    · intro hdis'
      exact absurd hdis' hdis
    · rw [hkey]
      simp only [EntryOk]
      exact ⟨by omega, by omega, by omega, hcomp,
        Or.inl ⟨hlink, by omega, Bool.eq_false_iff.2 hdis⟩⟩
    · exact ⟨rfl, _, Function.update_self _ _ _, hkey, trivial⟩

theorem removeEntry_inv (l : Lease V) (e : Nat) (hpc : c.pc = .removing l e) :
    Inv opts ((s.unlink c.key e).setPc i c (.released l)) := by
  obtain ⟨entry, he, hkey, hstate, hlink, hcomp, hdis, hp, hf, hh, hr⟩ :=
    removing_entry hs hc l e hpc
  have hel : e = l.entry := by
    have hcall := callOk_of_get hs hc
    unfold CallOk at hcall
    rw [hpc] at hcall
    exact hcall.1
  obtain ⟨h1, h2, h3, h4, h5⟩ := counts_set s i c hc e (.released l)
  simp [hpc, Pc.kind] at h1 h2 h3 h4 h5
  have hheap : Function.update s.heap e (some entry) = s.heap := by
    rw [← he, Function.update_eq_self]
  rw [unlink_eq _ _ _ hlink]
  have h := move_inv hs hc e entry entry he rfl (.released l)
    (Function.update s.index c.key none) (Or.inr ⟨by rw [hkey]; exact hlink, by rw [hkey]⟩)
    (touches hpc rfl) (by intro k e' h; cases h; exact hel.symm)
    (by rintro v1 ⟨r1, hr1⟩; rw [hstate] at hr1; cases hr1) (fun _ _ h => h)
    (by
      simp only [EntryOk, hstate, hkey, Function.update_self]
      exact ⟨by omega, by omega, by omega, hcomp, Or.inr ⟨by simp, by omega⟩⟩)
    ⟨entry, by rw [hheap, ← hel]; exact he, hkey, fun hd => by rw [hdis] at hd; cases hd⟩
  rw [hheap] at h
  exact h

/-- a new provisional entry, at an address nobody stands at -/
theorem insert_inv (hpc : c.pc = .looking) (hnone : s.index c.key = none) :
    Inv opts ((s.insertEntry c.key c.thread).setPc i c (.producing s.next)) := by
  have hunused : s.heap s.next = none := by
    cases h : s.heap s.next with
    | none => rfl
    | some entry => exact absurd (hs.fresh _ _ h) (lt_irrefl _)
  have hzero := count_unused opts s hs s.next hunused
  obtain ⟨h1, h2, h3, h4, h5⟩ := counts_set s i c hc s.next (.producing s.next)
  simp [hpc, Pc.kind, hzero] at h1 h2 h3 h4 h5
  have hat : ∀ k e P, At s.heap k e P → e ≠ s.next ∧
      At (Function.update s.heap s.next (some ⟨c.key, .initializing c.thread, 0⟩)) k e P := by
    rintro k e P ⟨x, hx, hP⟩
    have hne : e ≠ s.next := Nat.ne_of_lt (hs.fresh e x hx)
    exact ⟨hne, x, (Function.update_of_ne hne _ _).trans hx, hP⟩
  refine ⟨fun e x hx => ?_, fun k e hk => ?_, fun e x hx => ?_, fun d hd => ?_⟩
  · show e < s.next + 1
    by_cases heq : e = s.next
    · omega
    · have := hs.fresh e x ((Function.update_of_ne heq _ _).symm.trans hx)
      omega
  · by_cases hkk : k = c.key
    · replace hk : Function.update s.index c.key (some s.next) k = some e := hk
      rw [hkk, Function.update_self] at hk
      cases hk
      exact ⟨_, Function.update_self _ _ _, hkk.symm, trivial⟩
    · exact (hat _ _ _ (hs.indexed k e ((Function.update_of_ne hkk _ _).symm.trans hk))).2
  · replace hx : Function.update s.heap s.next (some ⟨c.key, .initializing c.thread, 0⟩) e
      = some x := hx
    show EntryOk opts x.state (Function.update s.index c.key (some s.next) x.key = some e)
      x.completions (fun k => count (s.calls.set i { c with pc := .producing s.next }) k e)
    by_cases heq : e = s.next
    · subst heq
      rw [Function.update_self] at hx
      cases hx
      rw [Function.update_self]
      exact ⟨h3, h4, Or.inl ⟨rfl, h1, h2, rfl⟩⟩
    · rw [Function.update_of_ne heq] at hx
      have hcount : (fun k => count (s.calls.set i { c with pc := .producing s.next }) k e)
          = fun k => count s.calls k e := by
        funext k
        have h := count_set s.calls i c hc (.producing s.next) k e
        rw [hpc] at h
        simpa [Pc.kind, Ne.symm heq] using h
      have hlink : (Function.update s.index c.key (some s.next) x.key = some e)
          = (s.index x.key = some e) := by
        by_cases hkk : x.key = c.key
        · rw [hkk, Function.update_self, hnone]
          simp [Ne.symm heq]
        · rw [Function.update_of_ne hkk]
      rw [hcount, hlink]
      exact hs.entries e x hx
  · rcases List.mem_or_eq_of_mem_set hd with hmem | rfl
    · have hok := hs.callsOk d hmem
      obtain ⟨key, thread, pc⟩ := d
      cases pc with
      | looking | returned => trivial
      | entered _ | producing _ | failed _ | leased _ | releasing _ | released _ =>
        simp only [CallOk] at hok ⊢
        exact (hat _ _ _ hok).2
      | releasingAt _ _ | removing _ _ => exact ⟨hok.1, (hat _ _ _ hok.2).2⟩
    · exact ⟨_, Function.update_self _ _ _, rfl, trivial⟩

end

/-- a call starts -/
theorem call_inv (s : Cache K T V) (hs : Inv opts s) (key : K) (thread : T) :
    Inv opts { s with calls := s.calls ++ [⟨key, thread, .looking⟩] } where
  fresh := hs.fresh
  indexed := hs.indexed
  entries := by
    intro e entry he
    have hcount : (fun k => count (s.calls ++ [⟨key, thread, .looking⟩]) k e)
        = fun k => count s.calls k e := by
      funext k
      simp [count, Pc.kind]
    rw [hcount]
    exact hs.entries e entry he
  callsOk := by
    intro c hc
    rcases List.mem_append.1 hc with h | h
    · exact hs.callsOk c h
    · rw [List.mem_singleton.1 h]
      trivial

section
variable {opts : RefCountCacheOptions} {s : Cache K T V} (hs : Inv opts s) {i : Nat} {c : Call K T V}
  (hc : s.calls[i]? = some c)
include hs hc

theorem look_inv (hpc : c.pc = .looking) : Inv opts (look s i c) := by
  unfold look
  split
  case h_1 e hidx =>
    obtain ⟨entry, he, hkey, _⟩ := hs.indexed c.key e hidx
    exact move_pc_inv hs hc e entry he (.entered e)
      (touches_none hpc rfl) (touches_none rfl rfl) (by rw [hpc]; rfl)
      ⟨entry, he, hkey, trivial⟩
  case h_2 hidx => exact insert_inv hs hc hpc hidx

theorem enter_inv (e : Nat) (hpc : c.pc = .entered e) (entry : Entry K T V)
    (he : s.heap e = some entry) (s' : Cache K T V) (h : enter s i c e entry = some s') :
    Inv opts s' := by
  have hstay : ∀ pc : Pc V, pc.kind = none → CallOk opts s.heap { c with pc := pc } →
      Inv opts (s.setPc i c pc) := fun pc hk hcall =>
    move_pc_inv hs hc e entry he pc (touches_none hpc rfl)
      (touches_none rfl hk) (by rw [hpc, hk]; rfl) hcall
  unfold enter at h
  cases hstate : entry.state with
  | initializing owner =>
    rw [hstate] at h
    dsimp only at h
    split at h
    · cases h
      exact hstay .returned rfl trivial
    · cases h
  | ready v r =>
    rw [hstate] at h
    dsimp only at h
    split at h
    · cases h
      exact enter_ready_inv hs hc e hpc entry he v r hstate
    · cases h
  | removed =>
    rw [hstate] at h
    cases h
    exact hstay .looking rfl trivial

theorem lookRelease_inv (l : Lease V) (hpc : c.pc = .releasing l) :
    s.index c.key = some l.entry ∧ Inv opts (s.setPc i c (.releasingAt l l.entry)) := by
  obtain ⟨entry, r, he, hkey, hstate, hlink, _⟩ :=
    holding_entry hs hc l (by rw [hpc]; rfl) (by rw [hpc]; rfl)
  exact ⟨hlink, move_pc_inv hs hc l.entry entry he (.releasingAt l l.entry)
    (touches hpc rfl) (touches rfl rfl) (by rw [hpc]; rfl)
    ⟨rfl, entry, he, hkey, r, hstate⟩⟩

theorem release_inv (l : Lease V) (hpc : c.pc = .leased l) :
    Inv opts (s.setPc i c (.releasing l)) := by
  obtain ⟨entry, r, he, hkey, hstate, _⟩ :=
    holding_entry hs hc l (by rw [hpc]; rfl) (by rw [hpc]; rfl)
  exact move_pc_inv hs hc l.entry entry he (.releasing l)
    (touches hpc rfl) (touches rfl rfl) (by rw [hpc]; rfl)
    ⟨entry, he, hkey, r, hstate⟩

end

/-- **Every step keeps the invariant.** -/
theorem step_inv (a : Action K T V) (s s' : Cache K T V) (hs : Inv opts s)
    (h : step opts a s = some s') : Inv opts s' := by
  cases a with
  | call key thread =>
    cases h
    exact call_inv opts s hs key thread
  | look i =>
    obtain ⟨c, hc, h⟩ := Option.bind_eq_some_iff.1 h
    split at h
    case h_1 hpc => cases h; exact look_inv hs hc hpc
    case h_2 => cases h
  | enter i =>
    obtain ⟨c, hc, h⟩ := Option.bind_eq_some_iff.1 h
    split at h
    case h_1 e hpc =>
      split at h
      · cases h
      · obtain ⟨entry, he, h⟩ := Option.bind_eq_some_iff.1 h
        exact enter_inv hs hc e hpc entry he s' h
    case h_2 => cases h
  | produced i value =>
    obtain ⟨c, hc, h⟩ := Option.bind_eq_some_iff.1 h
    split at h
    case h_1 e hpc =>
      obtain ⟨entry, he, h⟩ := Option.bind_eq_some_iff.1 h
      cases h
      exact produced_inv hs hc e hpc entry he value
    case h_2 => cases h
  | produceFails i =>
    obtain ⟨c, hc, h⟩ := Option.bind_eq_some_iff.1 h
    split at h
    case h_1 e hpc =>
      obtain ⟨entry, he, h⟩ := Option.bind_eq_some_iff.1 h
      cases h
      exact produceFails_inv hs hc e hpc entry he
    case h_2 => cases h
  | unwind i =>
    obtain ⟨c, hc, h⟩ := Option.bind_eq_some_iff.1 h
    split at h
    case h_1 e hpc =>
      obtain ⟨entry, he, h⟩ := Option.bind_eq_some_iff.1 h
      cases h
      exact unwind_inv hs hc e hpc entry he
    case h_2 => cases h
  | release i =>
    obtain ⟨c, hc, h⟩ := Option.bind_eq_some_iff.1 h
    split at h
    case h_1 l hpc => cases h; exact release_inv hs hc l hpc
    case h_2 => cases h
  | lookRelease i =>
    obtain ⟨c, hc, h⟩ := Option.bind_eq_some_iff.1 h
    split at h
    case h_1 l hpc =>
      obtain ⟨hlink, hinv⟩ := lookRelease_inv hs hc l hpc
      rw [hlink] at h
      cases h
      exact hinv
    case h_2 => cases h
  | deref i =>
    obtain ⟨c, hc, h⟩ := Option.bind_eq_some_iff.1 h
    split at h
    case h_1 l e hpc =>
      split at h
      · cases h
      · obtain ⟨entry, he, h⟩ := Option.bind_eq_some_iff.1 h
        cases h
        exact deref_inv hs hc l e hpc entry he
    case h_2 => cases h
  | removeEntry i =>
    obtain ⟨c, hc, h⟩ := Option.bind_eq_some_iff.1 h
    split at h
    case h_1 l e hpc => cases h; exact removeEntry_inv hs hc l e hpc
    case h_2 => cases h

theorem inv_of_exec (as : List (Action K T V)) (s : Cache K T V)
    (h : exec (step opts) as Cache.empty = some s) : Inv opts s :=
  exec_invariant (step opts) (Inv opts) (fun a s s' hs hstep => step_inv opts a s s' hs hstep) as
    Cache.empty s (inv_empty opts) h

/-! ## The laws -/

section
variable (s : Cache K T V) (hs : Inv opts s)
include hs

/-- a lease that was not given back: its entry is in the index, held or being removed -/
theorem lease_entry (c : Call K T V) (hc : c ∈ s.calls) (l : Lease V) (hl : c.pc.lease = some l) :
    s.index c.key = some l.entry ∧
      (c.pc.kind = some (.holding, l.entry) ∨ c.pc.kind = some (.removing, l.entry)) := by
  obtain ⟨i, hi⟩ := List.mem_iff_getElem?.1 hc
  have hholding : c.pc.kind = some (.holding, l.entry) → s.index c.key = some l.entry ∧
      (c.pc.kind = some (.holding, l.entry) ∨ c.pc.kind = some (.removing, l.entry)) := by
    intro hk
    obtain ⟨_, _, _, _, _, hlink, _⟩ := holding_entry hs hi l hl hk
    exact ⟨hlink, Or.inl hk⟩
  cases hpc : c.pc with
  | looking | entered _ | producing _ | failed _ | released _ | returned =>
    rw [hpc] at hl
    cases hl
  | leased l' | releasing l' | releasingAt l' _ =>
    rw [hpc] at hl
    cases hl
    rw [hpc] at hholding
    exact hholding rfl
  | removing l' e =>
    rw [hpc] at hl
    cases hl
    have hok := hs.callsOk c hc
    unfold CallOk at hok
    rw [hpc] at hok
    obtain ⟨_, _, _, _, hlink, _⟩ := removing_entry hs hi l e hpc
    rw [hok.1] at hlink
    refine ⟨hlink, Or.inr ?_⟩
    show some (Kind.removing, e) = some (Kind.removing, l.entry)
    rw [hok.1]

/-- the leases of a key are the calls that hold or remove its entry -/
theorem outstanding_eq (k : K) (e : Nat) (hidx : s.index k = some e) :
    outstanding s k = count s.calls .holding e + count s.calls .removing e := by
  have hsum : ∀ calls : List (Call K T V),
      calls.countP (fun c => decide (c.pc.kind = some (.holding, e)) ||
        decide (c.pc.kind = some (.removing, e))) = count calls .holding e + count calls .removing e := by
    intro calls
    unfold count
    induction calls with
    | nil => rfl
    | cons c calls ih =>
      simp only [List.countP_cons, ih]
      by_cases h1 : c.pc.kind = some (.holding, e)
      · simp [h1]; omega
      · by_cases h2 : c.pc.kind = some (.removing, e)
        · simp [h2]; omega
        · simp [h1, h2]
  rw [← hsum]
  unfold outstanding
  apply List.countP_congr
  intro c hc
  rw [Bool.and_eq_true, Bool.or_eq_true, decide_eq_true_eq, decide_eq_true_eq, decide_eq_true_eq,
    Option.isSome_iff_exists]
  constructor
  · rintro ⟨hkey, l, hl⟩
    obtain ⟨hlink, hk⟩ := lease_entry opts s hs c hc l hl
    rw [hkey, hidx] at hlink
    cases hlink
    exact hk
  · intro hk
    obtain ⟨kind, hkind, hcase⟩ : ∃ kind, c.pc.kind = some (kind, e) ∧
        (kind = .holding ∨ kind = .removing) := by
      rcases hk with hk | hk
      · exact ⟨_, hk, Or.inl rfl⟩
      · exact ⟨_, hk, Or.inr rfl⟩
    obtain ⟨x, hx, hxk⟩ := at_of_kind opts s.heap c (hs.callsOk c hc) kind e hkind
    obtain ⟨y, hy, hyk, _⟩ := hs.indexed k e hidx
    rw [hx] at hy
    cases hy
    refine ⟨hxk.symm.trans hyk, ?_⟩
    cases hpc : c.pc with
    | looking | entered _ | returned => rw [hpc] at hkind; cases hkind
    | producing _ | failed _ | released _ =>
      rw [hpc] at hkind
      cases hkind
      rcases hcase with h | h <;> cases h
    | leased l | releasing l | releasingAt l _ | removing l _ => exact ⟨l, rfl⟩

theorem outstanding_eq_zero (k : K) (hidx : s.index k = none) : outstanding s k = 0 := by
  unfold outstanding
  rw [List.countP_eq_zero]
  intro c hc h
  rw [Bool.and_eq_true, decide_eq_true_eq, Option.isSome_iff_exists] at h
  obtain ⟨hkey, l, hl⟩ := h
  have hlink := (lease_entry opts s hs c hc l hl).1
  rw [hkey, hidx] at hlink
  cases hlink

theorem producing_iff (k : K) : producing s k = true ↔
    ∃ e, s.index k = some e ∧ count s.calls .producing e = 1 := by
  unfold producing
  rw [List.any_eq_true]
  constructor
  · rintro ⟨c, hc, h⟩
    rw [Bool.and_eq_true, decide_eq_true_eq] at h
    obtain ⟨i, hi⟩ := List.mem_iff_getElem?.1 hc
    cases hpc : c.pc with
    | producing e =>
      obtain ⟨_, _, _, _, _, hlink, _, hp, _⟩ := producing_entry hs hi e hpc
      exact ⟨e, by rw [← h.1]; exact hlink, hp⟩
    | looking | entered _ | failed _ | leased _ | releasing _ | releasingAt _ _ | removing _ _
      | released _ | returned => rw [hpc] at h; exact absurd h.2 Bool.false_ne_true
  · rintro ⟨e, hidx, hp⟩
    obtain ⟨c, hc, hk⟩ := List.countP_pos_iff.1 (show 0 < count s.calls .producing e by omega)
    have hk' := of_decide_eq_true hk
    obtain ⟨x, hx, hxk⟩ := at_of_kind opts s.heap c (hs.callsOk c hc) _ e hk'
    obtain ⟨y, hy, hyk, _⟩ := hs.indexed k e hidx
    rw [hx] at hy
    cases hy
    refine ⟨c, hc, ?_⟩
    rw [Bool.and_eq_true, decide_eq_true_eq, hk']
    exact ⟨hxk.symm.trans hyk, rfl⟩

theorem locked_iff (e : Nat) : s.locked e = true ↔ 0 < count s.calls .removing e := by
  unfold Cache.locked count
  rw [List.any_eq_true, List.countP_pos_iff]

/-- what `reference_count` reads of the entry -/
def State.references : State T V → Option Int
  | .ready _ references => some references
  | .initializing _ => some 1
  | .removed => none

theorem referenceCount_of_entry {k : K} {e : Nat} {entry : Entry K T V} (hidx : s.index k = some e)
    (he : s.heap e = some entry) : referenceCount s k = entry.state.references := by
  unfold referenceCount
  rw [hidx, Option.bind_eq_bind, Option.bind_some, he, Option.bind_eq_bind, Option.bind_some]
  cases entry.state <;> rfl

/-- what `reference_count` reports while nobody removes the entry -/
theorem referenceCount_eq (k : K) (hfree : ∀ e, s.index k = some e → s.locked e = false) :
    referenceCount s k = if producing s k then some 1
      else if has s k then some (outstanding s k : Int) else none := by
  cases hidx : s.index k with
  | none =>
    have hp : ¬ producing s k = true := by
      rw [producing_iff opts s hs]
      rintro ⟨e, he, _⟩
      rw [hidx] at he
      cases he
    have hhas : ¬ has s k = true := by
      unfold has
      rw [hidx]
      exact Bool.false_ne_true
    rw [if_neg hp, if_neg hhas]
    unfold referenceCount
    rw [hidx]
    rfl
  | some e =>
    obtain ⟨entry, he, hkey, _⟩ := hs.indexed k e hidx
    have hok := hs.entries e entry he
    rw [hkey] at hok
    have hrem : count s.calls .removing e = 0 := by
      have h := (locked_iff opts s hs e).not.1 (by rw [hfree e hidx]; exact Bool.false_ne_true)
      omega
    have hhas : has s k = true := by
      unfold has
      rw [hidx]
      rfl
    have hprod := producing_iff opts s hs k
    have hout := outstanding_eq opts s hs k e hidx
    have href := referenceCount_of_entry opts s hs hidx he
    rw [href, hout, hrem]
    cases hstate : entry.state with
    | initializing t =>
      rw [hstate] at hok
      obtain ⟨_, _, ⟨_, hp, _⟩ | ⟨hlink, _⟩⟩ := hok
      · rw [if_pos (hprod.2 ⟨e, hidx, hp⟩)]
        rfl
      · exact absurd hidx hlink
    | ready v r =>
      rw [hstate] at hok
      obtain ⟨_, hp, _, _, _, hr, _⟩ := hok
      have hnp : ¬ producing s k = true := by
        rw [hprod]
        rintro ⟨e', he', hp'⟩
        rw [hidx] at he'
        cases he'
        simp only at hp
        omega
      rw [if_neg hnp, if_pos hhas, hr]
      rfl
    | removed =>
      rw [hstate] at hok
      obtain ⟨_, _, _, _, ⟨_, hr, _⟩ | ⟨hlink, _⟩⟩ := hok
      · simp only at hr
        omega
      · exact absurd hidx hlink

/-- a ready entry of the index granted a lease for its key -/
theorem granted_of_count (k : K) (e : Nat) (hidx : s.index k = some e)
    (hpos : 0 < count s.calls .holding e + count s.calls .released e) : granted s k = true := by
  obtain ⟨kind, hcase, hkind⟩ : ∃ kind, (kind = .holding ∨ kind = .released) ∧
      0 < count s.calls kind e := by
    by_cases h : 0 < count s.calls .holding e
    · exact ⟨_, Or.inl rfl, h⟩
    · exact ⟨_, Or.inr rfl, by omega⟩
  obtain ⟨c, hc, hk⟩ := List.countP_pos_iff.1 hkind
  have hk' := of_decide_eq_true hk
  obtain ⟨x, hx, hxk⟩ := at_of_kind opts s.heap c (hs.callsOk c hc) _ e hk'
  obtain ⟨y, hy, hyk, _⟩ := hs.indexed k e hidx
  rw [hx] at hy
  cases hy
  unfold granted
  rw [List.any_eq_true]
  refine ⟨c, hc, ?_⟩
  rw [Bool.and_eq_true, Bool.or_eq_true, decide_eq_true_eq]
  refine ⟨hxk.symm.trans hyk, ?_⟩
  cases hpc : c.pc with
  | looking | entered _ | returned => rw [hpc] at hk'; cases hk'
  | producing _ | failed _ | removing _ _ =>
    rw [hpc] at hk'
    cases hk'
    rcases hcase with h | h <;> cases h
  | leased l | releasing l | releasingAt l _ => exact Or.inl rfl
  | released l => exact Or.inr rfl

/-- which keys have an entry -/
theorem has_iff (k : K) : has s k = true ↔ 0 < outstanding s k ∨ producing s k = true ∨
    (opts.disableDeletion = true ∧ granted s k = true) := by
  constructor
  · intro hhas
    obtain ⟨e, hidx⟩ := Option.isSome_iff_exists.1 hhas
    obtain ⟨entry, he, hkey, _⟩ := hs.indexed k e hidx
    have hok := hs.entries e entry he
    rw [hkey] at hok
    rw [outstanding_eq opts s hs k e hidx]
    cases hstate : entry.state with
    | initializing t =>
      rw [hstate] at hok
      obtain ⟨_, _, ⟨_, hp, _⟩ | ⟨hlink, _⟩⟩ := hok
      · exact Or.inr (Or.inl ((producing_iff opts s hs k).2 ⟨e, hidx, hp⟩))
      · exact absurd hidx hlink
    | ready v r =>
      rw [hstate] at hok
      obtain ⟨_, _, _, _, _, _, hdis | hpos, hgr⟩ := hok
      · exact Or.inr (Or.inr ⟨hdis, granted_of_count opts s hs k e hidx hgr⟩)
      · exact Or.inl (Nat.add_pos_left hpos _)
    | removed =>
      rw [hstate] at hok
      obtain ⟨_, _, _, _, ⟨_, hr, _⟩ | ⟨hlink, _⟩⟩ := hok
      · exact Or.inl (Nat.add_pos_right _ (by simp only at hr; omega))
      · exact absurd hidx hlink
  · rintro (hout | hprod | ⟨hdis, hgr⟩)
    · cases hidx : s.index k with
      | none => rw [outstanding_eq_zero opts s hs k hidx] at hout; omega
      | some e => unfold has; rw [hidx]; rfl
    · obtain ⟨e, hidx, _⟩ := (producing_iff opts s hs k).1 hprod
      unfold has
      rw [hidx]
      rfl
    · unfold granted at hgr
      obtain ⟨c, hc, h⟩ := List.any_eq_true.1 hgr
      rw [Bool.and_eq_true, Bool.or_eq_true, decide_eq_true_eq, Option.isSome_iff_exists] at h
      obtain ⟨hkey, ⟨l, hl⟩ | hrel⟩ := h
      · have hlink := (lease_entry opts s hs c hc l hl).1
        unfold has
        rw [← hkey, hlink]
        rfl
      · cases hpc : c.pc with
        | released l =>
          -- with deletion disabled the entry of a returned lease stays ready
          have hok := hs.callsOk c hc
          unfold CallOk at hok
          rw [hpc] at hok
          obtain ⟨entry, he, hek, hready⟩ := hok
          obtain ⟨r, hstate⟩ := hready hdis
          have hent := hs.entries l.entry entry he
          rw [hstate, hek, hkey] at hent
          unfold has
          rw [hent.1]
          rfl
        | looking | entered _ | producing _ | failed _ | leased _ | releasing _ | releasingAt _ _
          | removing _ _ | returned => rw [hpc] at hrel; exact absurd hrel Bool.false_ne_true

/-- an entry's producer returned at most once -/
theorem completions_le (e : Nat) (entry : Entry K T V) (he : s.heap e = some entry) :
    entry.completions ≤ 1 := by
  have hok := hs.entries e entry he
  cases hstate : entry.state with
  | initializing t =>
    rw [hstate] at hok
    obtain ⟨_, _, ⟨_, _, _, h⟩ | ⟨_, _, _, h⟩⟩ := hok <;> omega
  | ready v r => rw [hstate] at hok; obtain ⟨_, _, _, _, h, _⟩ := hok; omega
  | removed => rw [hstate] at hok; obtain ⟨_, _, _, h, _⟩ := hok; omega

/-- a producer that fails takes its entry out of the index -/
theorem produceFails_has (i : Nat) (c : Call K T V) (hc : s.calls[i]? = some c)
    (s' : Cache K T V) (h : step opts (.produceFails i) s = some s') : has s' c.key = false := by
  obtain ⟨c', hc', h⟩ := Option.bind_eq_some_iff.1 h
  rw [hc] at hc'
  cases hc'
  split at h
  case h_2 => cases h
  case h_1 e hpc =>
    obtain ⟨entry, he, h⟩ := Option.bind_eq_some_iff.1 h
    cases h
    obtain ⟨_, _, _, _, _, hlink, _⟩ := producing_entry hs hc e hpc
    rw [unlink_eq (s.setEntry e { entry with completions := entry.completions + 1 }) c.key e hlink]
    show (Function.update s.index c.key none c.key).isSome = false
    rw [Function.update_self]
    rfl

/-- two leases for one key see the same value -/
theorem lease_value (c c' : Call K T V) (hc : c ∈ s.calls) (hc' : c' ∈ s.calls)
    (hkey : c.key = c'.key) (l l' : Lease V) (hl : c.pc.lease = some l)
    (hl' : c'.pc.lease = some l') : l.value = l'.value := by
  obtain ⟨hlink, hk⟩ := lease_entry opts s hs c hc l hl
  obtain ⟨hlink', hk'⟩ := lease_entry opts s hs c' hc' l' hl'
  have heq : l.entry = l'.entry := by
    rw [hkey, hlink', Option.some.injEq] at hlink
    exact hlink.symm
  obtain ⟨i, hi⟩ := List.mem_iff_getElem?.1 hc
  obtain ⟨i', hi'⟩ := List.mem_iff_getElem?.1 hc'
  rcases hk with hk | hk
  · obtain ⟨x, r, hx, _, hst, _, _, _, _, _, _, hrem⟩ := holding_entry hs hi l hl hk
    rcases hk' with hk' | hk'
    · obtain ⟨y, r', hy, _, hst', _⟩ := holding_entry hs hi' l' hl' hk'
      rw [heq, hy] at hx
      cases hx
      exact (State.ready.inj (hst.symm.trans hst')).1
    · have := count_pos s.calls c' hc' _ _ hk'
      rw [heq] at hrem
      omega
  · rcases hk' with hk' | hk'
    · obtain ⟨_, _, _, _, _, _, _, _, _, _, _, hrem⟩ := holding_entry hs hi' l' hl' hk'
      have := count_pos s.calls c hc _ _ hk
      rw [heq] at this
      omega
    · -- both remove the entry: they are one call
      have hone : count s.calls .removing l.entry = 1 := by
        cases hpc : c.pc with
        | removing l0 e =>
          rw [hpc] at hk
          cases hk
          exact (removing_entry hs hi l0 _ hpc).choose_spec.2.2.2.2.2.2.2.2.2
        | looking | entered _ | producing _ | failed _ | leased _ | releasing _ | releasingAt _ _
          | released _ | returned => rw [hpc] at hk; cases hk
      have hsame : c = c' := eq_of_countP_one _ s.calls hone c c' hc hc' (decide_eq_true hk)
        (decide_eq_true (by rw [hk', heq]))
      rw [hsame, hl'] at hl
      cases hl
      rfl

end

/-- **The laws of the cache.**  In every state that a schedule reaches: the reference count is the
number of leases that were not given back, and 1 while a producer runs; a key has an entry exactly
when there is such a lease, a producer runs, or deletion is disabled and a lease was once granted;
a producer returns at most once in the life of its entry, and leaves no entry behind when it fails;
all leases of a key see the same value. -/
theorem refCount_laws (as : List (Action K T V)) (s : Cache K T V)
    (h : exec (step opts) as Cache.empty = some s) :
    (∀ k, (∀ e, s.index k = some e → s.locked e = false) →
      referenceCount s k = if producing s k then some 1
        else if has s k then some (outstanding s k : Int) else none) ∧
    (∀ k, has s k = true ↔ 0 < outstanding s k ∨ producing s k = true ∨
      (opts.disableDeletion = true ∧ granted s k = true)) ∧
    (∀ e entry, s.heap e = some entry → entry.completions ≤ 1) ∧
    (∀ i c s', s.calls[i]? = some c → step opts (.produceFails i) s = some s' →
      has s' c.key = false) ∧
    (∀ c ∈ s.calls, ∀ c' ∈ s.calls, c.key = c'.key → ∀ l l', c.pc.lease = some l →
      c'.pc.lease = some l' → l.value = l'.value) := by
  have hs := inv_of_exec opts as s h
  refine ⟨fun k hfree => referenceCount_eq opts s hs k hfree, fun k => has_iff opts s hs k,
    fun e entry he => completions_le opts s hs e entry he,
    fun i c s' hc hstep => produceFails_has opts s hs i c hc s' hstep,
    fun c hc c' hc' hkey l l' hl hl' => lease_value opts s hs c c' hc hc' hkey l l' hl hl'⟩

end

/-- two clients of one key, a producer that fails and a retry by the waiting client -/
def crossing : List (Action Nat Nat Nat) :=
  [.call 7 1, .look 0, .call 7 2, .look 1, .produceFails 0, .unwind 0, .enter 1, .look 1,
    .produced 1 40, .call 7 1, .look 2, .enter 2, .release 1, .lookRelease 1, .deref 1]

theorem refCount_laws_crossing : ∃ s : Cache Nat Nat Nat,
    exec (step ⟨false⟩) crossing Cache.empty = some s ∧ outstanding s 7 = 1 ∧
    (has s 7 = true ↔ 0 < outstanding s 7 ∨ producing s 7 = true ∨
      (false = true ∧ granted s 7 = true)) :=
  ⟨_, rfl, rfl, (refCount_laws ⟨false⟩ crossing _ rfl).2.1 7⟩

/-- with deletion disabled an entry stays although no lease and no producer is left -/
theorem disableDeletion_retains : ¬ ∀ (opts : RefCountCacheOptions) (as : List (Action Nat Nat Nat))
    (s : Cache Nat Nat Nat), exec (step opts) as Cache.empty = some s →
    ∀ k, has s k = true ↔ 0 < outstanding s k ∨ producing s k = true := by
  intro hclaim
  have h := hclaim ⟨true⟩ [.call 0 1, .look 0, .produced 0 5, .release 0, .lookRelease 0, .deref 0]
    _ rfl 0
  exact absurd (h.1 rfl) (by decide)

end Tsr.Project.RefCountCache
