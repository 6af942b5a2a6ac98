import Tsr.Project.Watch

/-!
# Counts of the watch registry

`Holds` is what the counts of the registry should say after an update.  They say it in every run
whose steps meet `MeetsUpdate` (`holds_of_meets`), and an update without a failure then leaves no
set pending.

A set whose registration fails gives back the globs that it was the first to hold, and keeps the
others counted; and a set that is pending is released as if it were registered, its id staying
behind.  Both are what the conditions leave out.
-/

namespace Tsr.Project.Watch
open Tsr.Lib.Decimal

/-! ## The property -/

/-- the glob was registered under the id and not unregistered since -/
def Registered (id : JsString) (key : Key) : List (ClientCall × Bool) → Prop
  | [] => False
  | (.watchFiles id' watcher, ok) :: rest =>
    (ok = true ∧ id' = id ∧ watcher.key = key) ∨ Registered id key rest
  | (.unwatchFiles id', _) :: rest => id' ≠ id ∧ Registered id key rest

/-- the set holds the glob, and is not pending -/
def holds (r : Registry) (key : Key) (w : Watchers) : Bool :=
  decide (key ∈ w.keys) && !r.pending w.id

/-- each glob is counted once for each set of the snapshot that holds it, and is registered when
there is one -/
structure Holds (m : Manager) (cur : WatchSet) : Prop where
  count : ∀ key, m.registry.count key = (cur.toList.map (·.2)).countP (holds m.registry key)
  registered : ∀ key, 0 < m.registry.count key → ∃ id, Registered id key m.log

/-! ## The condition -/

section
variable (client : Nat → Bool)

/-- how many globs of the set are new to the registry -/
def fresh (r : Registry) (w : Watchers) : Nat := w.keys.countP fun key => (r.entries key).isNone

/-- no set of the two snapshots under another name has the id -/
def Alone (old new : WatchSet) (name id : JsString) : Prop :=
  ∀ entry, entry ∈ old.toList ∨ entry ∈ new.toList → entry.1 ≠ name → entry.2.id ≠ id

/-- the globs of the set are different; its registration ids are not in use for other globs; and
either the client takes all that are new, or all of them are new and no other set has the id -/
structure MeetsRegister (m : Manager) (old new : WatchSet) (name : JsString) (w : Watchers) :
    Prop where
  nodup : w.keys.Nodup
  ids : ∀ key id n, m.registry.entries key = some (id, n) → ∀ (i : Nat) (key' : Key),
    w.keys[i]? = some key' → m.registry.entries key' = none → w.registrationId i ≠ id
  calls : (∀ j < fresh m.registry w, client (m.log.length + j) = true) ∨
    (∀ key ∈ w.keys, m.registry.entries key = none) ∧ Alone old new name w.id

/-- a set with a new id is not pending yet, nor is the one that it replaces; a set with the old id
has the old globs -/
def MeetsNew (old new : WatchSet) (m : Manager) (entry : JsString × Watchers) : Prop :=
  match old[entry.1]? with
  | none => m.registry.pending entry.2.id = false ∧ MeetsRegister client m old new entry.1 entry.2
  | some o =>
    if o.id = entry.2.id then
      entry.2.keys = o.keys ∧
        (m.registry.pending entry.2.id = true → MeetsRegister client m old new entry.1 entry.2)
    else m.registry.pending entry.2.id = false ∧ m.registry.pending o.id = false ∧
      MeetsRegister client m old new entry.1 entry.2

/-- a set that is dropped is not pending -/
def MeetsOld (new : WatchSet) (m : Manager) (entry : JsString × Watchers) : Prop :=
  new.contains entry.1 = false → m.registry.pending entry.2.id = false

/-- each of the visits meets the condition in the state in which it starts -/
def MeetsAll (visit : Manager → JsString × Watchers → Manager × List ClientCall)
    (meets : Manager → JsString × Watchers → Prop) : Manager → List (JsString × Watchers) → Prop
  | _, [] => True
  | m, entry :: rest => meets m entry ∧ MeetsAll visit meets (visit m entry).1 rest

def MeetsUpdate (m : Manager) (old new : WatchSet) : Prop :=
  MeetsAll (Manager.visitNew client old) (MeetsNew client old new) m new.toList ∧
  MeetsAll (Manager.visitOld client new) (MeetsOld new)
    (Manager.visitAll (Manager.visitNew client old) m new.toList).1 old.toList

def Meets : Manager → WatchSet → List WatchSet → Prop
  | _, _, [] => True
  | m, old, new :: rest => MeetsUpdate client m old new ∧ Meets (m.update client old new).1 new rest

end

/-! ## Registration ids -/

theorem registrationId_inj (w : Watchers) (i j : Nat) (h : w.registrationId i = w.registrationId j) :
    i = j := by
  have htail := List.append_cancel_left h
  exact decimal_inj i j (List.cons.inj htail).2

theorem mem_numbered (w : Watchers) (p : JsString × Watcher) : p ∈ w.numbered ↔
    ∃ i : Nat, w.iter[i]? = some p.2 ∧ p.1 = w.registrationId i := by
  unfold Watchers.numbered
  rw [List.mem_map]
  constructor
  · rintro ⟨⟨watcher, i⟩, hmem, rfl⟩
    exact ⟨i, List.mem_zipIdx_iff_getElem?.1 hmem, rfl⟩
  · rintro ⟨i, hi, hid⟩
    exact ⟨(p.2, i), List.mem_zipIdx_iff_getElem?.2 hi, Prod.ext hid.symm rfl⟩

theorem map_numbered (w : Watchers) : w.numbered.map (·.2) = w.iter := by
  unfold Watchers.numbered
  rw [List.map_map]
  exact List.zipIdx_map_fst 0 w.iter

/-! ## The registry -/

namespace Registry

/-- what is in the registry has a holder -/
def Pos (r : Registry) : Prop := ∀ key id n, r.entries key = some (id, n) → 0 < n

/-- the entry of a glob with one holder more, registered under the id if it is new -/
def bump (id : JsString) : Option (JsString × Nat) → JsString × Nat
  | none => (id, 1)
  | some (id', n) => (id', n + 1)

/-- the entry of a glob with one holder less -/
def drop : Option (JsString × Nat) → Option (JsString × Nat)
  | none => none
  | some (id, n) => if 1 < n then some (id, n - 1) else none

theorem acquire_entries (r : Registry) (w : Watcher) (id : JsString) :
    (r.acquire w id).1.entries = Function.update r.entries w.key (some (bump id (r.entries w.key))) := by
  unfold acquire
  cases r.entries w.key with
  | none => rfl
  | some v => rfl

theorem acquire_new (r : Registry) (hpos : r.Pos) (w : Watcher) (id : JsString) :
    (r.acquire w id).2 = (r.entries w.key).isNone := by
  unfold acquire
  cases h : r.entries w.key with
  | none => rfl
  | some v =>
    have hn := hpos w.key v.1 v.2 h
    simp only [Option.getD_some, Option.isNone_some, beq_eq_false_iff_ne]
    omega

theorem acquire_pos (r : Registry) (hpos : r.Pos) (w : Watcher) (id : JsString) :
    (r.acquire w id).1.Pos := by
  intro key id' n h
  rw [acquire_entries] at h
  by_cases hk : key = w.key
  · subst hk
    rw [Function.update_self] at h
    cases he : r.entries w.key with
    | none =>
      rw [he] at h
      cases h
      exact Nat.one_pos
    | some v =>
      rw [he] at h
      cases h
      exact Nat.succ_pos _
  · rw [Function.update_of_ne hk] at h
    exact hpos key id' n h

/-- what acquiring a list of different globs does -/
structure Acquired (r : Registry) (l : List (JsString × Watcher)) (r' : Registry)
    (acquired : List (JsString × Watcher)) : Prop where
  pending : r'.pending = r.pending
  other : ∀ key, key ∉ l.map (·.2.key) → r'.entries key = r.entries key
  mine : ∀ p ∈ l, r'.entries p.2.key = some (bump p.1 (r.entries p.2.key))
  acquired_eq : acquired = l.filter fun p => (r.entries p.2.key).isNone
  pos : r'.Pos

theorem acquireAll_spec (r : Registry) (hpos : r.Pos) (l : List (JsString × Watcher))
    (hnodup : (l.map (·.2.key)).Nodup) :
    Acquired r l (r.acquireAll l).1 (r.acquireAll l).2 := by
  induction l generalizing r with
  | nil => exact ⟨rfl, fun _ _ => rfl, nofun, rfl, hpos⟩
  | cons p l ih =>
    obtain ⟨id, w⟩ := p
    rw [List.map_cons, List.nodup_cons] at hnodup
    obtain ⟨hnot, hnodup⟩ := hnodup
    have hih := ih (r.acquire w id).1 (acquire_pos r hpos w id) hnodup
    have hentries := acquire_entries r w id
    have hne : ∀ q ∈ l, q.2.key ≠ w.key := fun q hq heq =>
      hnot (heq ▸ List.mem_map_of_mem (f := fun x : JsString × Watcher => x.2.key) hq)
    refine ⟨hih.pending, ?_, ?_, ?_, hih.pos⟩
    · intro key hkey
      rw [List.map_cons, List.mem_cons, not_or] at hkey
      show ((r.acquire w id).1.acquireAll l).1.entries key = _
      rw [hih.other key hkey.2, hentries, Function.update_of_ne hkey.1]
    · intro q hq
      show ((r.acquire w id).1.acquireAll l).1.entries _ = _
      rcases List.mem_cons.1 hq with rfl | hq
      · rw [hih.other w.key hnot, hentries, Function.update_self]
      · rw [hih.mine q hq, hentries, Function.update_of_ne (hne q hq)]
    · show (if (r.acquire w id).2 then (id, w) :: ((r.acquire w id).1.acquireAll l).2
        else ((r.acquire w id).1.acquireAll l).2) = _
      have hfilter : l.filter (fun q => ((r.acquire w id).1.entries q.2.key).isNone) =
          l.filter fun q => (r.entries q.2.key).isNone := by
        refine List.filter_congr fun q hq => ?_
        rw [hentries, Function.update_of_ne (hne q hq)]
      rw [acquire_new r hpos, hih.acquired_eq, hfilter, List.filter_cons]

theorem release_entries (r : Registry) (w : Watcher) :
    (r.release w).1.entries = Function.update r.entries w.key (drop (r.entries w.key)) := by
  unfold release
  cases h : r.entries w.key with
  | none => exact (Function.update_eq_self_iff.2 h.symm).symm
  | some v =>
    obtain ⟨id, n⟩ := v
    show (if 1 < n then _ else _ : Registry × Option JsString).1.entries = _
    simp only [drop]
    split
    next => rfl
    next => rfl

theorem release_removed (r : Registry) (w : Watcher) (id : JsString) (h : (r.release w).2 = some id) :
    ∃ n, r.entries w.key = some (id, n) ∧ n ≤ 1 := by
  unfold release at h
  cases he : r.entries w.key with
  | none =>
    rw [he] at h
    cases h
  | some v =>
    obtain ⟨id', n⟩ := v
    rw [he] at h
    simp only at h
    split at h
    next => cases h
    next hn =>
      cases h
      exact ⟨n, rfl, Nat.le_of_not_lt hn⟩

theorem release_pending (r : Registry) (w : Watcher) : (r.release w).1.pending = r.pending := by
  unfold release
  split
  next => rfl
  next =>
    split
    next => rfl
    next => rfl

/-- what releasing a list of different globs does -/
structure Released (r : Registry) (l : List Watcher) (r' : Registry) (ids : List JsString) : Prop where
  pending : r'.pending = r.pending
  other : ∀ key, key ∉ l.map Watcher.key → r'.entries key = r.entries key
  mine : ∀ key ∈ l.map Watcher.key, r'.entries key = drop (r.entries key)
  removed : ∀ id ∈ ids, ∃ key n, r.entries key = some (id, n) ∧ r'.entries key = none

theorem releaseAll_spec (r : Registry) (l : List Watcher) (hnodup : (l.map Watcher.key).Nodup) :
    Released r l (r.releaseAll l).1 (r.releaseAll l).2 := by
  induction l generalizing r with
  | nil => exact ⟨rfl, fun _ _ => rfl, nofun, nofun⟩
  | cons w l ih =>
    rw [List.map_cons, List.nodup_cons] at hnodup
    obtain ⟨hnot, hnodup⟩ := hnodup
    have hih := ih (r.release w).1 hnodup
    have hentries := release_entries r w
    have hw : ((r.release w).1.releaseAll l).1.entries w.key = drop (r.entries w.key) := by
      rw [hih.other w.key hnot, hentries, Function.update_self]
    refine ⟨hih.pending.trans (release_pending r w), ?_, ?_, ?_⟩
    · intro key hkey
      rw [List.map_cons, List.mem_cons, not_or] at hkey
      show ((r.release w).1.releaseAll l).1.entries key = _
      rw [hih.other key hkey.2, hentries, Function.update_of_ne hkey.1]
    · intro key hkey
      show ((r.release w).1.releaseAll l).1.entries key = _
      rcases List.mem_cons.1 hkey with rfl | hkey
      · exact hw
      · have hne : key ≠ w.key := fun heq => hnot (heq ▸ hkey)
        rw [hih.mine key hkey, hentries, Function.update_of_ne hne]
    · intro id hid
      rcases List.mem_append.1 hid with hid | hid
      · obtain ⟨n, he, hn⟩ := release_removed r w id (Option.mem_toList.1 hid)
        refine ⟨w.key, n, he, ?_⟩
        show ((r.release w).1.releaseAll l).1.entries w.key = none
        rw [hw, he]
        exact if_neg (Nat.not_lt.2 hn)
      · obtain ⟨key, n, he, hnone⟩ := hih.removed id hid
        refine ⟨key, ?_⟩
        rw [hentries] at he
        by_cases hk : key = w.key
        · subst hk
          rw [Function.update_self] at he
          cases hold : r.entries w.key with
          | none =>
            rw [hold] at he
            cases he
          | some v =>
            obtain ⟨id', n'⟩ := v
            rw [hold] at he
            simp only [drop] at he
            split at he
            next =>
              cases he
              exact ⟨n', rfl, hnone⟩
            next => cases he
        · rw [Function.update_of_ne hk] at he
          exact ⟨n, he, hnone⟩

end Registry

/-! ## Calls to the client -/

section
variable (client : Nat → Bool)

theorem callAll_registry (m : Manager) (calls : List ClientCall) :
    (m.callAll client calls).1.registry = m.registry := by
  induction calls generalizing m with
  | nil => rfl
  | cons c calls ih => exact ih (m.call client c)

theorem callAll_errors (m : Manager) (calls : List ClientCall) :
    (m.callAll client calls).2 = [] ↔ ∀ j < calls.length, client (m.log.length + j) = true := by
  induction calls generalizing m with
  | nil => exact ⟨fun _ _ h => absurd h (Nat.not_lt_zero _), fun _ => rfl⟩
  | cons c calls ih =>
    have hlen : (m.call client c).log.length = m.log.length + 1 := rfl
    show (if !client m.log.length then c :: ((m.call client c).callAll client calls).2
      else ((m.call client c).callAll client calls).2) = [] ↔ _
    cases hc : client m.log.length with
    | false =>
      refine ⟨fun h => by simp at h, fun h => ?_⟩
      have h0 := h 0 (Nat.succ_pos _)
      rw [Nat.add_zero, hc] at h0
      cases h0
    | true =>
      rw [Bool.not_true, if_neg Bool.false_ne_true, ih, hlen]
      constructor
      · intro h j hj
        cases j with
        | zero => exact hc
        | succ j =>
          have hj' : j < calls.length := Nat.lt_of_succ_lt_succ hj
          have := h j hj'
          rwa [Nat.add_assoc, Nat.add_comm 1 j] at this
      · intro h j hj
        have := h (j + 1) (Nat.succ_lt_succ hj)
        rwa [Nat.add_assoc, Nat.add_comm 1 j]

/-- a call keeps what is registered under other ids -/
theorem registered_callAll (m : Manager) (calls : List ClientCall) (id : JsString) (key : Key)
    (hnot : ClientCall.unwatchFiles id ∉ calls) (h : Registered id key m.log) :
    Registered id key (m.callAll client calls).1.log := by
  induction calls generalizing m with
  | nil => exact h
  | cons c calls ih =>
    rw [List.mem_cons, not_or] at hnot
    refine ih (m.call client c) hnot.2 ?_
    cases c with
    | watchFiles id' w => exact Or.inr h
    | unwatchFiles id' => exact ⟨fun heq => hnot.1 (by rw [heq]), h⟩

/-- what the client took is registered -/
theorem registered_of_watch (m : Manager) (acquired : List (JsString × Watcher))
    (hok : (m.callAll client (acquired.map fun p => .watchFiles p.1 p.2)).2 = [])
    (p : JsString × Watcher) (hp : p ∈ acquired) :
    Registered p.1 p.2.key
      (m.callAll client (acquired.map fun p => .watchFiles p.1 p.2)).1.log := by
  have hnot : ∀ (id : JsString) (l : List (JsString × Watcher)),
      ClientCall.unwatchFiles id ∉ l.map fun p => ClientCall.watchFiles p.1 p.2 := by
    intro id l hmem
    obtain ⟨q, -, hq⟩ := List.mem_map.1 hmem
    cases hq
  induction acquired generalizing m with
  | nil => cases hp
  | cons q acquired ih =>
    have h0 := (callAll_errors client m _).1 hok 0 (Nat.succ_pos _)
    rw [Nat.add_zero] at h0
    have hrest : ((m.call client (.watchFiles q.1 q.2)).callAll client
        (acquired.map fun p => .watchFiles p.1 p.2)).2 = [] := by
      have hok' : (if !client m.log.length then _ else _ : List ClientCall) = [] := hok
      rwa [h0, Bool.not_true, if_neg Bool.false_ne_true] at hok'
    rcases List.mem_cons.1 hp with rfl | hp
    · refine registered_callAll client (m.call client (.watchFiles p.1 p.2)) _ _ _ (hnot _ _) ?_
      exact Or.inl ⟨h0, rfl, rfl⟩
    · exact ih (m.call client (.watchFiles q.1 q.2)) hrest hp

end

/-! ## The invariant -/

/-- the registry counts the sets of the list that are not pending -/
structure Inv (m : Manager) (sets : List Watchers) : Prop where
  nodup : ∀ w ∈ sets, w.keys.Nodup
  pos : m.registry.Pos
  count : ∀ key, m.registry.count key = sets.countP (holds m.registry key)
  registered : ∀ key id n, m.registry.entries key = some (id, n) → Registered id key m.log
  ids : ∀ key key' id n n', m.registry.entries key = some (id, n) →
    m.registry.entries key' = some (id, n') → key = key'
  pending : ∀ id, m.registry.pending id = true → sets.countP (fun w => decide (w.id = id)) = 1

theorem Inv.perm {m : Manager} {sets sets' : List Watchers} (h : Inv m sets) (hp : sets.Perm sets') :
    Inv m sets' where
  nodup := fun w hw => h.nodup w (hp.mem_iff.2 hw)
  pos := h.pos
  count := fun key => (h.count key).trans (hp.countP_eq _)
  registered := h.registered
  ids := h.ids
  pending := fun id hid => (hp.countP_eq _).symm.trans (h.pending id hid)

theorem count_bump (r : Registry) (key : Key) (id : JsString) :
    (some (Registry.bump id (r.entries key))).elim 0 (·.2) = r.count key + 1 := by
  unfold Registry.count
  cases r.entries key with
  | none => rfl
  | some v => rfl

theorem count_drop (e : Option (JsString × Nat)) :
    (Registry.drop e).elim 0 (·.2) = e.elim 0 (·.2) - 1 := by
  cases e with
  | none => rfl
  | some v =>
    obtain ⟨id, n⟩ := v
    simp only [Registry.drop, Option.elim_some]
    split
    next => rfl
    next hn => exact (Nat.sub_eq_zero_of_le (Nat.le_of_not_lt hn)).symm

/-! ## Registering a set -/

/-- the client took the new globs of the set -/
structure Took (m : Manager) (w : Watchers) (m' : Manager) : Prop where
  pending : m'.registry.pending = Function.update m.registry.pending w.id false
  other : ∀ key, key ∉ w.keys → m'.registry.entries key = m.registry.entries key
  mine : ∀ (i : Nat) (key : Key), w.keys[i]? = some key →
    m'.registry.entries key = some (Registry.bump (w.registrationId i) (m.registry.entries key))
  pos : m'.registry.Pos
  kept : ∀ id key, Registered id key m.log → Registered id key m'.log
  new : ∀ (i : Nat) (key : Key), w.keys[i]? = some key → m.registry.entries key = none →
    Registered (w.registrationId i) key m'.log

/-- the client refused, and the registry is as it was -/
structure GaveBack (m : Manager) (w : Watchers) (m' : Manager) : Prop where
  pending : m'.registry.pending = Function.update m.registry.pending w.id true
  entries : m'.registry.entries = m.registry.entries
  kept : ∀ id key, Registered id key m.log → Registered id key m'.log

section
variable (client : Nat → Bool)

theorem unwatch_not_mem (id : JsString) (l : List (JsString × Watcher)) :
    ClientCall.unwatchFiles id ∉ l.map fun p => ClientCall.watchFiles p.1 p.2 := by
  intro hmem
  obtain ⟨q, -, hq⟩ := List.mem_map.1 hmem
  cases hq

theorem map_key_numbered (w : Watchers) : w.numbered.map (·.2.key) = w.keys := by
  unfold Watchers.keys
  rw [← map_numbered w, List.map_map]
  rfl

theorem getElem?_keys (w : Watchers) (i : Nat) (key : Key) : w.keys[i]? = some key ↔
    ∃ watcher, w.iter[i]? = some watcher ∧ watcher.key = key := by
  unfold Watchers.keys
  rw [List.getElem?_map, Option.map_eq_some_iff]

theorem acquired_length (m : Manager) (w : Watchers) (hpos : m.registry.Pos) (hnodup : w.keys.Nodup) :
    (m.registry.acquireAll w.numbered).2.length = fresh m.registry w := by
  have hacq := m.registry.acquireAll_spec hpos w.numbered (by rwa [map_key_numbered])
  rw [hacq.acquired_eq, ← List.countP_eq_length_filter]
  unfold fresh
  rw [← map_key_numbered, List.countP_map]
  rfl

theorem register_ok (m : Manager) (w : Watchers) (hpos : m.registry.Pos) (hnodup : w.keys.Nodup)
    (hok : ∀ j < fresh m.registry w, client (m.log.length + j) = true) :
    (m.register client w).2 = [] ∧ Took m w (m.register client w).1 := by
  have hacq := m.registry.acquireAll_spec hpos w.numbered (by rwa [map_key_numbered])
  rw [← acquired_length m w hpos hnodup] at hok
  unfold Manager.register
  generalize m.registry.acquireAll w.numbered = a at hacq hok ⊢
  obtain ⟨registry, acquired⟩ := a
  simp only at hacq hok ⊢
  have herr : (({ m with registry := registry } : Manager).callAll client
      (acquired.map fun p => .watchFiles p.1 p.2)).2 = [] := by
    refine (callAll_errors client _ _).2 ?_
    rwa [List.length_map]
  rw [herr]
  refine ⟨rfl, ?_⟩
  simp only [List.isEmpty_nil, if_true]
  refine ⟨?_, ?_, ?_, ?_, ?_, ?_⟩
  · show Function.update (Manager.registry _).pending w.id false = _
    rw [callAll_registry, hacq.pending]
  · intro key hkey
    show (Manager.registry _).entries key = _
    rw [callAll_registry]
    exact hacq.other key (by rwa [map_key_numbered])
  · intro i key hkey
    obtain ⟨watcher, hi, rfl⟩ := (getElem?_keys w i key).1 hkey
    show (Manager.registry _).entries watcher.key = _
    rw [callAll_registry]
    exact hacq.mine (w.registrationId i, watcher) ((mem_numbered w _).2 ⟨i, hi, rfl⟩)
  · intro key id n he
    change (Manager.registry _).entries key = _ at he
    rw [callAll_registry] at he
    exact hacq.pos key id n he
  · intro id key hreg
    exact registered_callAll client _ _ id key (unwatch_not_mem id acquired) hreg
  · intro i key hkey hnone
    obtain ⟨watcher, hi, rfl⟩ := (getElem?_keys w i key).1 hkey
    refine registered_of_watch client _ acquired herr (w.registrationId i, watcher) ?_
    rw [hacq.acquired_eq, List.mem_filter]
    refine ⟨(mem_numbered w _).2 ⟨i, hi, rfl⟩, ?_⟩
    rw [hnone]
    rfl

theorem register_failed (m : Manager) (w : Watchers) (hpos : m.registry.Pos) (hnodup : w.keys.Nodup)
    (hnew : ∀ key ∈ w.keys, m.registry.entries key = none)
    (hfail : ¬ ∀ j < fresh m.registry w, client (m.log.length + j) = true) :
    (m.register client w).2 ≠ [] ∧ GaveBack m w (m.register client w).1 := by
  have hacq := m.registry.acquireAll_spec hpos w.numbered (by rwa [map_key_numbered])
  rw [← acquired_length m w hpos hnodup] at hfail
  have hall : (m.registry.acquireAll w.numbered).2 = w.numbered := by
    rw [hacq.acquired_eq, List.filter_eq_self]
    intro p hp
    have hmem : p.2.key ∈ w.keys := by
      rw [← map_key_numbered]
      exact List.mem_map_of_mem (f := fun p : JsString × Watcher => p.2.key) hp
    rw [hnew p.2.key hmem]
    rfl
  unfold Manager.register
  generalize m.registry.acquireAll w.numbered = a at hacq hfail hall ⊢
  obtain ⟨registry, acquired⟩ := a
  simp only at hacq hfail hall ⊢
  subst hall
  have herr : (({ m with registry := registry } : Manager).callAll client
      (w.numbered.map fun p => .watchFiles p.1 p.2)).2 ≠ [] := by
    intro h
    refine hfail ?_
    have := (callAll_errors client _ _).1 h
    rwa [List.length_map] at this
  rw [if_neg (by rwa [List.isEmpty_iff])]
  refine ⟨herr, ?_, ?_, ?_⟩
  all_goals rw [map_numbered]
  all_goals have hrel := Registry.releaseAll_spec (Manager.registry (({ m with registry := registry } :
      Manager).callAll client (w.numbered.map fun p => .watchFiles p.1 p.2)).1) w.iter hnodup
  · show Function.update (Registry.pending _) w.id true = _
    rw [hrel.pending, callAll_registry, hacq.pending]
  · funext key
    by_cases hkey : key ∈ w.keys
    · refine (hrel.mine key hkey).trans ?_
      rw [callAll_registry]
      obtain ⟨i, hi⟩ := List.mem_iff_getElem?.1 hkey
      obtain ⟨watcher, hwi, rfl⟩ := (getElem?_keys w i key).1 hi
      have he := hacq.mine (w.registrationId i, watcher) ((mem_numbered w _).2 ⟨i, hwi, rfl⟩)
      simp only at he
      rw [he, hnew watcher.key hkey]
      rfl
    · refine (hrel.other key hkey).trans ?_
      rw [callAll_registry]
      exact hacq.other key (by rwa [map_key_numbered])
  · intro id key hreg
    exact registered_callAll client _ _ id key (unwatch_not_mem id w.numbered) hreg

end

variable {m m' : Manager} {w : Watchers} {sets : List Watchers}

/-! ## What the steps keep -/

theorem count_took (h : Took m w m') (key : Key) :
    m'.registry.count key = m.registry.count key + if key ∈ w.keys then 1 else 0 := by
  by_cases hkey : key ∈ w.keys
  · obtain ⟨i, hi⟩ := List.mem_iff_getElem?.1 hkey
    rw [if_pos hkey, Registry.count, h.mine i key hi]
    exact count_bump m.registry key _
  · rw [if_neg hkey, Registry.count, h.other key hkey]
    rfl

/-- the registration ids stay different, and registered -/
theorem Took.entries (h : Took m w m')
    (hinv : Inv m sets)
    (hids : ∀ key id n, m.registry.entries key = some (id, n) → ∀ (i : Nat) (key' : Key),
      w.keys[i]? = some key' → m.registry.entries key' = none → w.registrationId i ≠ id) :
    (∀ key id n, m'.registry.entries key = some (id, n) → Registered id key m'.log) ∧
    ∀ key key' id n n', m'.registry.entries key = some (id, n) →
      m'.registry.entries key' = some (id, n') → key = key' := by
  -- an entry is an old one, or one of the set under its own id
  have hcases : ∀ key id n, m'.registry.entries key = some (id, n) →
      (∃ n', m.registry.entries key = some (id, n')) ∨
      ∃ i : Nat, w.keys[i]? = some key ∧ m.registry.entries key = none ∧ id = w.registrationId i := by
    intro key id n he
    by_cases hkey : key ∈ w.keys
    · obtain ⟨i, hi⟩ := List.mem_iff_getElem?.1 hkey
      rw [h.mine i key hi] at he
      cases hold : m.registry.entries key with
      | none =>
        rw [hold] at he
        cases he
        exact Or.inr ⟨i, hi, rfl, rfl⟩
      | some v =>
        rw [hold] at he
        cases he
        exact Or.inl ⟨v.2, rfl⟩
    · rw [h.other key hkey] at he
      exact Or.inl ⟨n, he⟩
  constructor
  · intro key id n he
    rcases hcases key id n he with ⟨n', hold⟩ | ⟨i, hi, hnone, rfl⟩
    · exact h.kept id key (hinv.registered key id n' hold)
    · exact h.new i key hi hnone
  · intro key key' id n n' he he'
    rcases hcases key id n he with ⟨k, hold⟩ | ⟨i, hi, hnone, rfl⟩
    · rcases hcases key' id n' he' with ⟨k', hold'⟩ | ⟨i', hi', hnone', rfl⟩
      · exact hinv.ids key key' id k k' hold hold'
      · exact absurd rfl (hids key _ k hold i' key' hi' hnone')
    · rcases hcases key' _ n' he' with ⟨k', hold'⟩ | ⟨i', hi', hnone', hid⟩
      · exact absurd rfl (hids key' _ k' hold' i key hi hnone)
      · have hii := registrationId_inj w i i' hid
        subst hii
        exact Option.some.inj (hi.symm.trans hi')

theorem holds_congr {r r' : Registry} (key : Key)
    (h : r'.pending w.id = r.pending w.id) : holds r' key w = holds r key w := by
  unfold holds
  rw [h]

theorem countP_holds_congr {r r' : Registry} (key : Key)
    (h : ∀ w ∈ sets, r'.pending w.id = r.pending w.id) :
    sets.countP (holds r' key) = sets.countP (holds r key) :=
  List.countP_congr fun w hw => by rw [holds_congr key (h w hw)]

theorem countP_id_zero {id : JsString} :
    sets.countP (fun w => decide (w.id = id)) = 0 ↔ ∀ w ∈ sets, w.id ≠ id := by
  rw [List.countP_eq_zero]
  simp only [decide_eq_true_eq]

/-- a set that is not pending was registered -/
theorem inv_took (hinv : Inv m sets)
    (hnodup : w.keys.Nodup) (hpend : m.registry.pending w.id = false) (h : Took m w m')
    (hids : ∀ key id n, m.registry.entries key = some (id, n) → ∀ (i : Nat) (key' : Key),
      w.keys[i]? = some key' → m.registry.entries key' = none → w.registrationId i ≠ id) :
    Inv m' (w :: sets) := by
  have hsame : m'.registry.pending = m.registry.pending := by
    rw [h.pending]
    exact Function.update_eq_self_iff.2 hpend.symm
  obtain ⟨hreg, hdistinct⟩ := h.entries hinv hids
  refine ⟨?_, h.pos, ?_, hreg, hdistinct, ?_⟩
  · intro w' hw'
    rcases List.mem_cons.1 hw' with rfl | hw'
    · exact hnodup
    · exact hinv.nodup w' hw'
  · intro key
    have hnow : holds m'.registry key w = decide (key ∈ w.keys) := by
      unfold holds
      rw [hsame, hpend]
      exact Bool.and_true _
    have hrest : sets.countP (holds m'.registry key) = sets.countP (holds m.registry key) :=
      countP_holds_congr key fun w _ => by rw [hsame]
    rw [count_took h, hinv.count key, List.countP_cons, hrest, hnow]
    simp
  · intro id hid
    rw [hsame] at hid
    rw [List.countP_cons, hinv.pending id hid]
    have hne : w.id ≠ id := fun heq => by
      rw [heq, hid] at hpend
      cases hpend
    simp [hne]

/-- a pending set was registered -/
theorem inv_retried {o w : Watchers}
    (hinv : Inv m (o :: sets)) (hid : o.id = w.id) (hnodup : w.keys.Nodup)
    (hpend : m.registry.pending w.id = true) (h : Took m w m')
    (hids : ∀ key id n, m.registry.entries key = some (id, n) → ∀ (i : Nat) (key' : Key),
      w.keys[i]? = some key' → m.registry.entries key' = none → w.registrationId i ≠ id) :
    Inv m' (w :: sets) := by
  have hcount := hinv.pending w.id hpend
  rw [List.countP_cons, if_pos (by simpa using hid)] at hcount
  have hothers := countP_id_zero.1 (Nat.succ.inj hcount)
  have hsame : ∀ w' ∈ sets, m'.registry.pending w'.id = m.registry.pending w'.id := by
    intro w' hw'
    rw [h.pending, Function.update_of_ne (hothers w' hw')]
  have hclear : m'.registry.pending w.id = false := by rw [h.pending, Function.update_self]
  obtain ⟨hreg, hdistinct⟩ := h.entries hinv hids
  refine ⟨?_, h.pos, ?_, hreg, hdistinct, ?_⟩
  · intro w' hw'
    rcases List.mem_cons.1 hw' with rfl | hw'
    · exact hnodup
    · exact hinv.nodup w' (List.mem_cons_of_mem o hw')
  · intro key
    rw [count_took h, hinv.count key, List.countP_cons, List.countP_cons,
      countP_holds_congr key hsame]
    have hold : holds m.registry key o = false := by
      unfold holds
      rw [hid, hpend]
      exact Bool.and_false _
    have hnow : holds m'.registry key w = decide (key ∈ w.keys) := by
      unfold holds
      rw [hclear]
      exact Bool.and_true _
    rw [hold, hnow]
    simp
  · intro id hid'
    have hne : id ≠ w.id := fun heq => by
      rw [heq, hclear] at hid'
      cases hid'
    rw [h.pending, Function.update_of_ne hne] at hid'
    have hold := hinv.pending id hid'
    rw [List.countP_cons] at hold ⊢
    rw [← hid]
    exact hold

/-- a set was refused -/
theorem inv_gaveBack (hinv : Inv m sets)
    (hnodup : w.keys.Nodup) (hother : ∀ w' ∈ sets, w'.id ≠ w.id) (h : GaveBack m w m') :
    Inv m' (w :: sets) := by
  have hsame : ∀ w' ∈ sets, m'.registry.pending w'.id = m.registry.pending w'.id := by
    intro w' hw'
    rw [h.pending, Function.update_of_ne (hother w' hw')]
  have hmark : m'.registry.pending w.id = true := by rw [h.pending, Function.update_self]
  refine ⟨?_, ?_, ?_, ?_, ?_, ?_⟩
  · intro w' hw'
    rcases List.mem_cons.1 hw' with rfl | hw'
    · exact hnodup
    · exact hinv.nodup w' hw'
  · intro key id n he
    rw [h.entries] at he
    exact hinv.pos key id n he
  · intro key
    have hold : holds m'.registry key w = false := by
      unfold holds
      rw [hmark]
      exact Bool.and_false _
    rw [Registry.count, h.entries, List.countP_cons, hold,
      countP_holds_congr key hsame]
    exact hinv.count key
  · intro key id n he
    rw [h.entries] at he
    exact h.kept id key (hinv.registered key id n he)
  · intro key key' id n n' he he'
    rw [h.entries] at he he'
    exact hinv.ids key key' id n n' he he'
  · intro id hid
    rw [List.countP_cons]
    by_cases hid' : w.id = id
    · subst hid'
      rw [countP_id_zero.2 hother]
      simp
    · rw [h.pending, Function.update_of_ne (Ne.symm hid')] at hid
      rw [hinv.pending id hid]
      simp [hid']

section
variable (client : Nat → Bool)
variable {m : Manager} {sets : List Watchers} {old new : WatchSet}

/-- a set that is not pending is released -/
theorem inv_unregister {o : Watchers}
    (hinv : Inv m (o :: sets)) (hpend : m.registry.pending o.id = false) :
    Inv (m.unregister client o).1 sets ∧
      (m.unregister client o).1.registry.pending = m.registry.pending := by
  have hrel := m.registry.releaseAll_spec o.iter (hinv.nodup o (List.mem_cons_self ..))
  unfold Manager.unregister
  generalize m.registry.releaseAll o.iter = a at hrel ⊢
  obtain ⟨registry, removed⟩ := a
  simp only at hrel ⊢
  generalize hcall : ({ m with registry := registry } : Manager).callAll client
    (removed.map .unwatchFiles) = res
  have hregistry : res.1.registry = registry := by
    rw [← hcall]
    exact callAll_registry client _ _
  have hentries : ∀ key, registry.entries key =
      if key ∈ o.keys then Registry.drop (m.registry.entries key) else m.registry.entries key := by
    intro key
    by_cases hkey : key ∈ o.keys
    · rw [if_pos hkey]
      exact hrel.mine key hkey
    · rw [if_neg hkey]
      exact hrel.other key hkey
  -- what is left was there, under the same id
  have hold : ∀ key id n, registry.entries key = some (id, n) →
      0 < n ∧ ∃ n', m.registry.entries key = some (id, n') := by
    intro key id n he
    rw [hentries] at he
    split at he
    next =>
      cases hv : m.registry.entries key with
      | none =>
        rw [hv] at he
        cases he
      | some v =>
        obtain ⟨id', n'⟩ := v
        rw [hv] at he
        simp only [Registry.drop] at he
        split at he
        next hn =>
          cases he
          exact ⟨Nat.sub_pos_of_lt hn, n', rfl⟩
        next => cases he
    next => exact ⟨hinv.pos key id n he, n, he⟩
  refine ⟨⟨?_, ?_, ?_, ?_, ?_, ?_⟩, ?_⟩
  · exact fun w hw => hinv.nodup w (List.mem_cons_of_mem o hw)
  · intro key id n he
    rw [hregistry] at he
    exact (hold key id n he).1
  · intro key
    have hcount := hinv.count key
    rw [List.countP_cons] at hcount
    rw [hregistry, countP_holds_congr (r := m.registry) key fun w _ => by rw [hrel.pending],
      Registry.count, hentries]
    have ho : holds m.registry key o = decide (key ∈ o.keys) := by
      unfold holds
      rw [hpend]
      exact Bool.and_true _
    rw [ho] at hcount
    unfold Registry.count at hcount
    by_cases hkey : key ∈ o.keys
    · rw [if_pos hkey, count_drop, hcount]
      simp [hkey]
    · rw [if_neg hkey, hcount]
      simp [hkey]
  · intro key id n he
    rw [hregistry] at he
    obtain ⟨-, n', hm⟩ := hold key id n he
    rw [← hcall]
    refine registered_callAll client _ _ id key ?_ (hinv.registered key id n' hm)
    intro hmem
    obtain ⟨id', hid', heq⟩ := List.mem_map.1 hmem
    cases heq
    obtain ⟨key', k, hk, hnone⟩ := hrel.removed id hid'
    rw [hinv.ids key key' id n' k hm hk, hnone] at he
    cases he
  · intro key key' id n n' he he'
    rw [hregistry] at he he'
    obtain ⟨-, k, hm⟩ := hold key id n he
    obtain ⟨-, k', hm'⟩ := hold key' id n' he'
    exact hinv.ids key key' id k k' hm hm'
  · intro id hid
    rw [hregistry, hrel.pending] at hid
    have hcount := hinv.pending id hid
    have hne : o.id ≠ id := fun heq => by
      rw [heq, hid] at hpend
      cases hpend
    rw [List.countP_cons] at hcount
    simpa [hne] using hcount
  · rw [hregistry]
    exact hrel.pending

/-- registering a set that is not in the list yet -/
theorem inv_register {name : JsString} {w : Watchers} (hinv : Inv m sets) (hpend : m.registry.pending w.id = false)
    (hm : MeetsRegister client m old new name w)
    (hother : Alone old new name w.id → ∀ w' ∈ sets, w'.id ≠ w.id) :
    Inv (m.register client w).1 (w :: sets) ∧
      (∀ id, id ≠ w.id →
        (m.register client w).1.registry.pending id = m.registry.pending id) ∧
      ((m.register client w).2 = [] →
        (m.register client w).1.registry.pending = m.registry.pending) := by
  by_cases hok : ∀ j < fresh m.registry w, client (m.log.length + j) = true
  · obtain ⟨-, htook⟩ := register_ok client m w hinv.pos hm.nodup hok
    refine ⟨inv_took hinv hm.nodup hpend htook hm.ids, ?_, ?_⟩
    · intro id hid
      rw [htook.pending, Function.update_of_ne hid]
    · intro _
      rw [htook.pending]
      exact Function.update_eq_self_iff.2 hpend.symm
  · obtain ⟨hnew, halone⟩ := hm.calls.resolve_left hok
    obtain ⟨herr, hback⟩ := register_failed client m w hinv.pos hm.nodup hnew hok
    refine ⟨inv_gaveBack hinv hm.nodup (hother halone) hback, ?_, fun h => absurd h herr⟩
    intro id hid
    rw [hback.pending, Function.update_of_ne hid]

/-- registering a pending set again -/
theorem inv_retry {name : JsString} {o w : Watchers} (hinv : Inv m (o :: sets)) (hid : o.id = w.id)
    (hpend : m.registry.pending w.id = true) (hm : MeetsRegister client m old new name w) :
    Inv (m.register client w).1 (w :: sets) ∧
      ((m.register client w).2 = [] → (m.register client w).1.registry.pending =
        Function.update m.registry.pending w.id false) := by
  by_cases hok : ∀ j < fresh m.registry w, client (m.log.length + j) = true
  · obtain ⟨-, htook⟩ := register_ok client m w hinv.pos hm.nodup hok
    exact ⟨inv_retried hinv hid hm.nodup hpend htook hm.ids, fun _ => htook.pending⟩
  · obtain ⟨hnew, -⟩ := hm.calls.resolve_left hok
    obtain ⟨herr, hback⟩ := register_failed client m w hinv.pos hm.nodup hnew hok
    refine ⟨?_, fun h => absurd h herr⟩
    -- nothing changed: the set was pending and is pending
    have hsame : (m.register client w).1.registry = m.registry := by
      have hp : (m.register client w).1.registry.pending = m.registry.pending := by
        rw [hback.pending]
        exact Function.update_eq_self_iff.2 hpend.symm
      have he := hback.entries
      cases hr : (m.register client w).1.registry with
      | mk e p =>
        rw [hr] at hp he
        cases hp
        cases he
        rfl
    refine ⟨?_, ?_, ?_, ?_, ?_, ?_⟩
    · intro w' hw'
      rcases List.mem_cons.1 hw' with rfl | hw'
      · exact hm.nodup
      · exact hinv.nodup w' (List.mem_cons_of_mem o hw')
    · rw [hsame]
      exact hinv.pos
    · intro key
      have hcount := hinv.count key
      have hzero : ∀ w' : Watchers, w'.id = w.id → holds m.registry key w' = false := by
        intro w' hw'
        unfold holds
        rw [hw', hpend]
        exact Bool.and_false _
      rw [hsame, hcount, List.countP_cons, List.countP_cons, hzero o hid, hzero w rfl]
    · intro key id n he
      rw [hsame] at he
      exact hback.kept id key (hinv.registered key id n he)
    · rw [hsame]
      exact hinv.ids
    · intro id hid'
      rw [hsame] at hid'
      have hcount := hinv.pending id hid'
      rw [List.countP_cons] at hcount ⊢
      rw [← hid]
      exact hcount

/-! ## One visit -/

/-- the sets that are in effect beside the one that is visited stand under other names -/
def Beside (old new : WatchSet) (name : JsString) (sets : List Watchers) : Prop :=
  ∀ w ∈ sets, ∃ entry, (entry ∈ old.toList ∨ entry ∈ new.toList) ∧ entry.1 ≠ name ∧ entry.2 = w

theorem Beside.of_alone {name id : JsString}
    (h : Beside old new name sets) (halone : Alone old new name id) : ∀ w ∈ sets, w.id ≠ id := by
  intro w hw
  obtain ⟨entry, hmem, hname, rfl⟩ := h w hw
  exact halone entry hmem hname

/-- what a visit of a new set does to the pending ids, when no call fails -/
def Settles (old : WatchSet) (name : JsString) (r r' : Registry) : Prop :=
  ∀ id, r'.pending id = true → r.pending id = true ∧ ∀ o, old[name]? = some o → o.id ≠ id

theorem visitNew_inv (old new : WatchSet) (m : Manager) (name : JsString) (w : Watchers)
    (sets : List Watchers) (hinv : Inv m (old[name]?.toList ++ sets))
    (hbeside : Beside old new name sets) (hm : MeetsNew client old new m (name, w)) :
    Inv (m.visitNew client old (name, w)).1 (w :: sets) ∧
      ((m.visitNew client old (name, w)).2 = [] →
        Settles old name m.registry (m.visitNew client old (name, w)).1.registry) := by
  unfold MeetsNew at hm
  unfold Manager.visitNew Settles
  simp only at hm ⊢
  cases ho : old[name]? with
  | none =>
    rw [ho] at hm hinv
    obtain ⟨hpend, hreg⟩ := hm
    obtain ⟨h1, -, h3⟩ := inv_register client hinv hpend hreg fun ha => hbeside.of_alone ha
    refine ⟨h1, fun herr id hid => ⟨?_, nofun⟩⟩
    have herr' : (m.register client w).2 ++ [] = [] := herr
    rw [List.append_nil] at herr'
    change (m.register client w).1.registry.pending id = true at hid
    rwa [h3 herr'] at hid
  | some o =>
    rw [ho] at hm hinv
    simp only [Option.all_some, decide_eq_true_eq, ite_not] at hm ⊢
    by_cases hid : o.id = w.id
    · rw [if_pos hid] at hm ⊢
      obtain ⟨hkeys, hreg⟩ := hm
      cases hpend : m.registry.pending w.id with
      | true =>
        obtain ⟨h1, h2⟩ := inv_retry client hinv hid hpend (hreg hpend)
        simp only [if_true]
        refine ⟨h1, fun herr id hid' => ?_⟩
        have herr' : (m.register client w).2 ++ [] = [] := herr
        rw [List.append_nil] at herr'
        change (m.register client w).1.registry.pending id = true at hid'
        rw [h2 herr'] at hid'
        have hne : id ≠ w.id := fun heq => by
          rw [heq, Function.update_self] at hid'
          cases hid'
        rw [Function.update_of_ne hne] at hid'
        refine ⟨hid', fun o' ho' => ?_⟩
        cases ho'
        rw [hid]
        exact hne.symm
      | false =>
        simp only [Bool.false_eq_true, if_false]
        refine ⟨?_, fun _ id hid' => ⟨hid', fun o' ho' heq => ?_⟩⟩
        · have hholds : ∀ key, holds m.registry key o = holds m.registry key w := by
            intro key
            unfold holds
            rw [hid, hkeys]
          refine ⟨?_, hinv.pos, ?_, hinv.registered, hinv.ids, ?_⟩
          · intro w' hw'
            rcases List.mem_cons.1 hw' with rfl | hw'
            · rw [hkeys]
              exact hinv.nodup o (List.mem_cons_self ..)
            · exact hinv.nodup w' (List.mem_cons_of_mem o hw')
          · intro key
            have hcount := hinv.count key
            rw [Option.toList_some, List.singleton_append, List.countP_cons, hholds] at hcount
            rw [List.countP_cons]
            exact hcount
          · intro id hid'
            have hcount := hinv.pending id hid'
            rw [Option.toList_some, List.singleton_append, List.countP_cons, hid] at hcount
            rw [List.countP_cons]
            exact hcount
        · cases ho'
          rw [← heq, hid, hpend] at hid'
          cases hid'
    · rw [if_neg hid] at hm ⊢
      obtain ⟨hpend, hpendo, hreg⟩ := hm
      have hother : Alone old new name w.id → ∀ w' ∈ o :: sets, w'.id ≠ w.id := by
        intro ha w' hw'
        rcases List.mem_cons.1 hw' with rfl | hw'
        · exact hid
        · exact hbeside.of_alone ha w' hw'
      obtain ⟨h1, h2, h3⟩ := inv_register client hinv hpend hreg hother
      have hpendo' : (m.register client w).1.registry.pending o.id = false := by
        rw [h2 o.id hid]
        exact hpendo
      obtain ⟨h4, h5⟩ := inv_unregister client (h1.perm (List.Perm.swap o w sets)) hpendo'
      refine ⟨h4, fun herr id hid' => ?_⟩
      have herr' : (m.register client w).2 = [] := (List.append_eq_nil_iff.1 herr).1
      change ((m.register client w).1.unregister client o).1.registry.pending id = true at hid'
      rw [h5, h3 herr'] at hid'
      refine ⟨hid', fun o' ho' heq => ?_⟩
      cases ho'
      rw [heq, hid'] at hpendo
      cases hpendo

/-! ## The loops over the sets -/

theorem names_nodup (t : WatchSet) : (t.toList.map (·.1)).Nodup := by
  rw [Std.ExtTreeMap.map_fst_toList_eq_keys]
  exact Std.ExtTreeMap.nodup_keys

theorem filter_name (l : List (JsString × Watchers)) (hnodup : (l.map (·.1)).Nodup)
    (entry : JsString × Watchers) (h : entry ∈ l) :
    l.filter (fun e => decide (e.1 = entry.1)) = [entry] := by
  induction l with
  | nil => cases h
  | cons e l ih =>
    rw [List.map_cons, List.nodup_cons] at hnodup
    rcases List.mem_cons.1 h with rfl | h
    · rw [List.filter_cons_of_pos (by simp), List.filter_eq_nil_iff.2]
      intro e' he' heq
      exact hnodup.1 (List.mem_map.2 ⟨e', he', by simpa using heq⟩)
    · have hne : e.1 ≠ entry.1 := fun heq => hnodup.1 (List.mem_map.2 ⟨entry, h, heq.symm⟩)
      rw [List.filter_cons_of_neg (by simpa using hne), ih hnodup.2 h]

theorem filter_getElem? (t : WatchSet) (name : JsString) :
    (t.toList.filter fun e => decide (e.1 = name)).map (·.2) = t[name]?.toList := by
  cases h : t[name]? with
  | some o =>
    have hmem : (name, o) ∈ t.toList := Std.ExtTreeMap.mem_toList_iff_getElem?_eq_some.2 h
    rw [filter_name t.toList (names_nodup t) (name, o) hmem]
    rfl
  | none =>
    rw [List.filter_eq_nil_iff.2]
    · rfl
    · intro e he heq
      have := Std.ExtTreeMap.mem_toList_iff_getElem?_eq_some.1 (show (e.1, e.2) ∈ t.toList from he)
      rw [show e.1 = name by simpa using heq, h] at this
      cases this

/-- the sets under other names -/
def others (t : WatchSet) (names : List JsString) : List Watchers :=
  (t.toList.filter fun e => !names.contains e.1).map (·.2)

theorem others_eq (t : WatchSet) (names : List JsString) :
    others t names = (t.toList.filter fun e => decide (e.1 ∉ names)).map (·.2) := by
  unfold others
  congr 1
  exact List.filter_congr fun e _ => by simp

theorem others_perm (t : WatchSet) (names : List JsString) (name : JsString) (h : name ∉ names) :
    (others t names).Perm (t[name]?.toList ++ others t (names ++ [name])) := by
  rw [others_eq, others_eq]
  have hsplit := (List.filter_append_perm (fun e : JsString × Watchers => decide (e.1 = name))
    (t.toList.filter fun e => decide (e.1 ∉ names))).symm.map (·.2)
  rw [List.map_append, List.filter_filter, List.filter_filter] at hsplit
  have hmine : (t.toList.filter fun e => decide (e.1 = name) && decide (e.1 ∉ names)) =
      t.toList.filter fun e => decide (e.1 = name) := by
    refine List.filter_congr fun e _ => ?_
    by_cases he : e.1 = name
    · simp [he, h]
    · simp [he]
  have hrest : (t.toList.filter fun e => !decide (e.1 = name) && decide (e.1 ∉ names)) =
      t.toList.filter fun e => decide (e.1 ∉ names ++ [name]) := by
    refine List.filter_congr fun e _ => ?_
    by_cases he : e.1 = name
    · simp [he]
    · simp [he]
  rw [hmine, hrest, filter_getElem?] at hsplit
  exact hsplit

theorem others_congr (t : WatchSet) (names names' : List JsString)
    (h : ∀ name, name ∈ names ↔ name ∈ names') : others t names = others t names' := by
  rw [others_eq, others_eq]
  congr 1
  exact List.filter_congr fun e _ => by simp [h]

theorem beside_others (done : List (JsString × Watchers)) (name : JsString)
    (hdone : ∀ e ∈ done, e ∈ new.toList) (hname : name ∉ done.map (·.1)) :
    Beside old new name (done.map (·.2) ++ others old (done.map (·.1) ++ [name])) := by
  intro w hw
  rcases List.mem_append.1 hw with hw | hw
  · obtain ⟨e, he, rfl⟩ := List.mem_map.1 hw
    exact ⟨e, Or.inr (hdone e he), fun heq => hname (List.mem_map.2 ⟨e, he, heq⟩), rfl⟩
  · obtain ⟨e, he, rfl⟩ := List.mem_map.1 hw
    obtain ⟨hmem, hnot⟩ := List.mem_filter.1 he
    refine ⟨e, Or.inl hmem, fun heq => ?_, rfl⟩
    simp [heq] at hnot

/-- the pending ids are those of sets that are still to be visited -/
def PendingAt (old : WatchSet) (names : List JsString) (r : Registry) : Prop :=
  ∀ id, r.pending id = true → ∃ e ∈ old.toList, e.1 ∉ names ∧ e.2.id = id

theorem visitAll_new_inv (old new : WatchSet) (todo done : List (JsString × Watchers)) (m : Manager)
    (hsplit : new.toList = done ++ todo)
    (hinv : Inv m (done.map (·.2) ++ others old (done.map (·.1))))
    (hm : MeetsAll (Manager.visitNew client old) (MeetsNew client old new) m todo) :
    Inv (Manager.visitAll (Manager.visitNew client old) m todo).1
        (new.toList.map (·.2) ++ others old (new.toList.map (·.1))) ∧
      ((Manager.visitAll (Manager.visitNew client old) m todo).2 = [] →
        PendingAt old (done.map (·.1)) m.registry →
        PendingAt old (new.toList.map (·.1))
          (Manager.visitAll (Manager.visitNew client old) m todo).1.registry) := by
  induction todo generalizing done m with
  | nil =>
    rw [List.append_nil] at hsplit
    rw [hsplit]
    exact ⟨hinv, fun _ h => h⟩
  | cons e todo ih =>
    obtain ⟨name, w⟩ := e
    have hnodup := names_nodup new
    rw [hsplit, List.map_append, List.map_cons, List.nodup_append] at hnodup
    have hname : name ∉ done.map (·.1) := fun hmem =>
      hnodup.2.2 name hmem name (List.mem_cons_self ..) rfl
    have hdone : ∀ e ∈ done, e ∈ new.toList := by
      intro e he
      rw [hsplit]
      exact List.mem_append_left _ he
    -- the old set under the name goes to the front
    have hperm : (done.map (·.2) ++ others old (done.map (·.1))).Perm
        (old[name]?.toList ++ (done.map (·.2) ++ others old (done.map (·.1) ++ [name]))) :=
      ((others_perm old _ name hname).append_left _).trans
        (List.perm_append_comm_assoc _ _ _)
    obtain ⟨h1, h2⟩ := visitNew_inv client old new m name w _ (hinv.perm hperm)
      (beside_others done name hdone hname) hm.1
    have hperm' : (w :: (done.map (·.2) ++ others old (done.map (·.1) ++ [name]))).Perm
        ((done ++ [(name, w)]).map (·.2) ++ others old ((done ++ [(name, w)]).map (·.1))) := by
      rw [List.map_append, List.map_append, List.append_assoc]
      exact List.perm_middle.symm
    obtain ⟨h3, h4⟩ := ih (done ++ [(name, w)]) (m.visitNew client old (name, w)).1
      (by rw [hsplit, List.append_assoc]; rfl) (h1.perm hperm') hm.2
    refine ⟨h3, fun herr hpend => h4 (List.append_eq_nil_iff.1 herr).2 ?_⟩
    intro id hid
    obtain ⟨hold, hne⟩ := h2 (List.append_eq_nil_iff.1 herr).1 id hid
    obtain ⟨e, he, hnot, rfl⟩ := hpend id hold
    refine ⟨e, he, ?_, rfl⟩
    rw [List.map_append, List.mem_append, not_or]
    refine ⟨hnot, fun hmem => ?_⟩
    have heq : e.1 = name := by simpa using hmem
    refine hne e.2 ?_ rfl
    rw [← heq]
    exact Std.ExtTreeMap.mem_toList_iff_getElem?_eq_some.1 he

theorem visitAll_old_inv (old new : WatchSet) (todo done : List (JsString × Watchers)) (m : Manager)
    (hsplit : old.toList = done ++ todo)
    (hinv : Inv m (new.toList.map (·.2) ++
      others old (new.toList.map (·.1) ++ done.map (·.1))))
    (hm : MeetsAll (Manager.visitOld client new) (MeetsOld new) m todo) :
    Inv (Manager.visitAll (Manager.visitOld client new) m todo).1 (new.toList.map (·.2)) ∧
      (Manager.visitAll (Manager.visitOld client new) m todo).1.registry.pending =
        m.registry.pending ∧
      ∀ e ∈ todo, new.contains e.1 = false → m.registry.pending e.2.id = false := by
  induction todo generalizing done m with
  | nil =>
    refine ⟨?_, rfl, nofun⟩
    have hempty : others old (new.toList.map (·.1) ++ done.map (·.1)) = [] := by
      rw [List.append_nil] at hsplit
      rw [others_eq]
      rw [hsplit, List.filter_eq_nil_iff.2]
      · rfl
      · intro e he hnot
        rw [decide_eq_true_eq, List.mem_append, not_or] at hnot
        exact hnot.2 (List.mem_map_of_mem he)
    rw [hempty, List.append_nil] at hinv
    exact hinv
  | cons e todo ih =>
    obtain ⟨name, o⟩ := e
    have hnodup := names_nodup old
    rw [hsplit, List.map_append, List.map_cons, List.nodup_append] at hnodup
    have hname : name ∉ done.map (·.1) := fun hmem =>
      hnodup.2.2 name hmem name (List.mem_cons_self ..) rfl
    have hmem : (name, o) ∈ old.toList := by
      rw [hsplit]
      exact List.mem_append_right _ (List.mem_cons_self ..)
    have hget := Std.ExtTreeMap.mem_toList_iff_getElem?_eq_some.1 hmem
    have hsplit' : old.toList = (done ++ [(name, o)]) ++ todo := by
      rw [hsplit, List.append_assoc]
      rfl
    have hcontains : new.contains name = true ↔ name ∈ new.toList.map (·.1) := by
      rw [Std.ExtTreeMap.map_fst_toList_eq_keys, Std.ExtTreeMap.mem_keys]
      exact Iff.rfl
    cases hc : new.contains name with
    | true =>
      have hvisit : m.visitOld client new (name, o) = (m, []) := by
        unfold Manager.visitOld
        rw [if_pos hc]
      have hm2 := hm.2
      rw [hvisit] at hm2
      have hsame : others old (new.toList.map (·.1) ++ done.map (·.1)) =
          others old (new.toList.map (·.1) ++ (done ++ [(name, o)]).map (·.1)) := by
        refine others_congr old _ _ fun name' => ?_
        have hin := hcontains.1 hc
        simp only [List.map_append, List.map_cons, List.map_nil, List.mem_append, List.mem_singleton]
        constructor
        · rintro (h | h)
          · exact Or.inl h
          · exact Or.inr (Or.inl h)
        · rintro (h | h | rfl)
          · exact Or.inl h
          · exact Or.inr h
          · exact Or.inl hin
      rw [hsame] at hinv
      obtain ⟨h1, h2, h3⟩ := ih (done ++ [(name, o)]) m hsplit' hinv hm2
      have hstep : (Manager.visitAll (Manager.visitOld client new) m ((name, o) :: todo)).1 =
          (Manager.visitAll (Manager.visitOld client new) m todo).1 := by
        show (Manager.visitAll (Manager.visitOld client new)
          (m.visitOld client new (name, o)).1 todo).1 = _
        rw [hvisit]
      rw [hstep]
      refine ⟨h1, h2, fun e he hnot => ?_⟩
      rcases List.mem_cons.1 he with rfl | he
      · rw [hc] at hnot
        cases hnot
      · exact h3 e he hnot
    | false =>
      have hpend := hm.1 hc
      have hnew : name ∉ new.toList.map (·.1) := fun h => by
        rw [hcontains.2 h] at hc
        cases hc
      have hperm : (new.toList.map (·.2) ++ others old (new.toList.map (·.1) ++ done.map (·.1))).Perm
          (o :: (new.toList.map (·.2) ++
            others old (new.toList.map (·.1) ++ (done ++ [(name, o)]).map (·.1)))) := by
        have h := others_perm old (new.toList.map (·.1) ++ done.map (·.1)) name
          (by rw [List.mem_append, not_or]; exact ⟨hnew, hname⟩)
        rw [hget, List.append_assoc] at h
        rw [List.map_append]
        exact (h.append_left _).trans List.perm_middle
      have hvisit : m.visitOld client new (name, o) = ((m.unregister client o).1,
          (m.unregister client o).2) := by
        unfold Manager.visitOld
        rw [if_neg (by rw [hc]; exact Bool.false_ne_true)]
        rfl
      obtain ⟨h4, h5⟩ := inv_unregister client (hinv.perm hperm) hpend
      have hm2 := hm.2
      rw [hvisit] at hm2
      obtain ⟨h1, h2, h3⟩ := ih (done ++ [(name, o)]) (m.unregister client o).1 hsplit' h4 hm2
      have hstep : (Manager.visitAll (Manager.visitOld client new) m ((name, o) :: todo)).1 =
          (Manager.visitAll (Manager.visitOld client new) (m.unregister client o).1 todo).1 := by
        show (Manager.visitAll (Manager.visitOld client new)
          (m.visitOld client new (name, o)).1 todo).1 = _
        rw [hvisit]
      rw [hstep]
      refine ⟨h1, h2.trans h5, fun e he hnot => ?_⟩
      rcases List.mem_cons.1 he with rfl | he
      · exact hpend
      · rw [← h5]
        exact h3 e he hnot

/-! ## The main result -/

theorem update_inv (old new : WatchSet) (m : Manager) (hinv : Inv m (old.toList.map (·.2)))
    (hm : MeetsUpdate client m old new) :
    Inv (m.update client old new).1 (new.toList.map (·.2)) ∧
      ((m.update client old new).2 = [] →
        ∀ id, (m.update client old new).1.registry.pending id = false) := by
  have hall : others old [] = old.toList.map (·.2) := by
    rw [others_eq]
    rw [List.filter_eq_self.2]
    simp
  obtain ⟨h1, h2⟩ := visitAll_new_inv client old new new.toList [] m rfl (by
    rw [List.map_nil, List.nil_append, List.map_nil, hall]
    exact hinv) hm.1
  obtain ⟨h3, h4, h5⟩ := visitAll_old_inv client old new old.toList []
    (Manager.visitAll (Manager.visitNew client old) m new.toList).1 rfl (by
    rw [List.map_nil, List.append_nil]
    exact h1) hm.2
  refine ⟨h3, fun herr id => ?_⟩
  -- a pending id would be that of a set that is dropped
  have hstart : PendingAt old [] m.registry := by
    intro id hid
    have hcount := hinv.pending id hid
    have hpos : 0 < (old.toList.map (·.2)).countP fun w => decide (w.id = id) := by omega
    obtain ⟨w, hw, hid'⟩ := List.countP_pos_iff.1 hpos
    obtain ⟨e, he, rfl⟩ := List.mem_map.1 hw
    exact ⟨e, he, nofun, by simpa using hid'⟩
  have hpend := h2 (List.append_eq_nil_iff.1 herr).1 hstart
  cases hid : (m.update client old new).1.registry.pending id with
  | false => rfl
  | true =>
    have hid' : (Manager.visitAll (Manager.visitOld client new)
      (Manager.visitAll (Manager.visitNew client old) m new.toList).1 old.toList).1.registry.pending
        id = true := hid
    rw [h4] at hid'
    obtain ⟨e, he, hnot, rfl⟩ := hpend id hid'
    have hc : new.contains e.1 = false := by
      rw [← Bool.not_eq_true]
      intro hc
      refine hnot ?_
      rw [Std.ExtTreeMap.map_fst_toList_eq_keys, Std.ExtTreeMap.mem_keys]
      exact hc
    rw [h5 e he hc] at hid'
    cases hid'

theorem run_inv (sets : List WatchSet) (m : Manager) (old : WatchSet)
    (hinv : Inv m (old.toList.map (·.2))) (hm : Meets client m old sets) :
    Inv (m.run client old sets).1 ((m.run client old sets).2.toList.map (·.2)) := by
  induction sets generalizing m old with
  | nil => exact hinv
  | cons new sets ih => exact ih _ new (update_inv client old new m hinv hm.1).1 hm.2

theorem inv_new : Inv Manager.new ((∅ : WatchSet).toList.map (·.2)) :=
  ⟨nofun, nofun, fun _ => rfl, nofun, nofun, nofun⟩

/-- **in a run whose steps meet the condition, the registry counts the sets that hold a glob, and an
update without a failure leaves no set pending** -/
theorem holds_of_meets (sets : List WatchSet) (hm : Meets client Manager.new ∅ sets) :
    Holds (Manager.new.run client ∅ sets).1 (Manager.new.run client ∅ sets).2 ∧
    ∀ new, MeetsUpdate client (Manager.new.run client ∅ sets).1 (Manager.new.run client ∅ sets).2 new →
      ((Manager.new.run client ∅ sets).1.update client (Manager.new.run client ∅ sets).2 new).2 = [] →
      ∀ id, ((Manager.new.run client ∅ sets).1.update client
        (Manager.new.run client ∅ sets).2 new).1.registry.pending id = false := by
  have hinv := run_inv client sets Manager.new ∅ inv_new hm
  refine ⟨⟨hinv.count, fun key hpos => ?_⟩, fun new hnew => (update_inv client _ new _ hinv hnew).2⟩
  unfold Registry.count at hpos
  cases he : (Manager.new.run client ∅ sets).1.registry.entries key with
  | none =>
    rw [he] at hpos
    cases hpos
  | some v => exact ⟨v.1, hinv.registered key v.1 v.2 he⟩

end

/-! ## Two sets that share a glob -/

namespace Shared

/-- the globs `/src` and `/extra` -/
def src : JsString := [47, 115, 114, 99]
def extra : JsString := [47, 101, 120, 116, 114, 97]

/-- a set with the given globs, cloned from a new one -/
def watched (globs : List JsString) (next : Nat) : Watchers :=
  (WatchedFiles.watchers id ((WatchedFiles.new [114] 7 false next).1.withInput none ⟨[], globs⟩)
    (next + 1)).1

def one : WatchSet := (∅ : WatchSet).insert [97] (watched [src] 1)

/-- `a` has the first glob, `b` has both -/
def both : WatchSet := one.insert [98] (watched [src, extra] 3)

end Shared

open Shared in
/-- a set is registered, and dropped by the next update -/
theorem holds_of_meets_one :
    Holds (Manager.new.run (fun _ => true) ∅ [one]).1 one ∧
      (Manager.new.run (fun _ => true) ∅ [one]).1.registry.count (src, 7) = 1 ∧
      ∀ id, ((Manager.new.run (fun _ => true) ∅ [one]).1.update (fun _ => true) one ∅).1.registry.pending
        id = false := by
  have hlist : one.toList = [([97], watched [src] 1)] := by rfl
  have hmeets : Meets (fun _ => true) Manager.new ∅ [one] := by
    refine ⟨⟨?_, ?_⟩, trivial⟩
    · rw [hlist]
      exact ⟨⟨rfl, by decide, nofun, Or.inl fun _ _ => rfl⟩, trivial⟩
    · exact trivial
  obtain ⟨h1, h2⟩ := holds_of_meets (fun _ => true) [one] hmeets
  refine ⟨h1, by rfl, h2 ∅ ⟨trivial, ?_⟩ (by rfl)⟩
  show MeetsAll _ _ _ one.toList
  rw [hlist]
  exact ⟨fun _ => by rfl, trivial⟩

open Shared in
/-- the second set is refused, and stays counted for the glob of the first one -/
theorem refused_stays_counted :
    (Manager.new.run (fun n => n == 0) ∅ [both]).1.registry.pending (watched [src, extra] 3).id = true ∧
    (Manager.new.run (fun n => n == 0) ∅ [both]).1.registry.count (src, 7) = 2 ∧
    ¬ Holds (Manager.new.run (fun n => n == 0) ∅ [both]).1 both := by
  refine ⟨by rfl, by rfl, fun h => ?_⟩
  have hcount := h.count (src, 7)
  exact absurd hcount (by decide)

end Tsr.Project.Watch
