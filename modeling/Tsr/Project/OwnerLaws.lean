import Tsr.Project.OwnerSound

/-!
# The laws of the owner cache

`LogInv` says what the log has to do with the calls: a call that succeeded is in the log exactly
once, a call that failed, panicked or is still on its way is not.  Since the log only grows at its
end, a call takes effect between its start and its return.  `ownerCache_laws` collects the laws.
-/

set_option linter.unusedSectionVars false

namespace Tsr.Project.OwnerCache
open Tsr.Lib.Run

section
variable {K T V : Type} [DecidableEq K] [DecidableEq T]

/-! ## The log and the calls -/

/-- the call has taken its effect; a release that waits at a removed entry has -/
def tookEffect (heap : Nat → Option (Entry K T V)) (c : Call K T V) : Bool :=
  match c.pc with
  | .finishing _ result => result = .ok
  | .removing _ result => result = .ok
  | .returned result => result = .ok
  | .waiting e => decide (c.op = .release) && (heap e).any fun entry => entry.removed
  | _ => false

structure LogInv (s : Cache K T V) : Prop where
  once : ∀ j d, s.calls[j]? = some d →
    s.log.countP (fun ev => ev.call = j) = if tookEffect s.heap d then 1 else 0
  events : ∀ ev ∈ s.log, ∃ d, s.calls[ev.call]? = some d ∧ ev.key = d.key ∧ ev.owner = d.owner ∧
    (ev.acquires = true ↔ d.op ≠ .release)

theorem logInv_empty : LogInv (Cache.empty : Cache K T V) where
  once := fun j d h => by cases h
  events := fun ev h => by cases h

/-- the releases recorded at `e`, call by call -/
theorem countP_waitingReleases (calls : List (Call K T V)) (e j : Nat) :
    (waitingReleases calls e).countP (fun ev => ev.call = j)
      = if (calls[j]?).any fun c => c.waitsToRelease e then 1 else 0 := by
  have hgen : ∀ (l : List (Call K T V)) (n : Nat),
      (l.zipIdx n).countP (fun p => decide (p.2 = j) && p.1.waitsToRelease e)
        = if n ≤ j ∧ (l[j - n]?).any (fun c => c.waitsToRelease e) = true then 1 else 0 := by
    intro l
    induction l with
    | nil => intro n; simp
    | cons c l ih =>
      intro n
      rw [List.zipIdx_cons, List.countP_cons, ih (n + 1)]
      by_cases hn : n = j
      · subst hn
        have hlt : ¬ (n + 1 ≤ n ∧ (l[n - (n + 1)]?).any (fun c => c.waitsToRelease e) = true) :=
          fun h => by omega
        rw [if_neg hlt, Nat.sub_self]
        simp
      · by_cases hle : n ≤ j
        · have hsub : j - n = j - (n + 1) + 1 := by omega
          have hle' : n + 1 ≤ j := by omega
          rw [hsub, List.getElem?_cons_succ]
          simp [hn, hle, hle']
        · have hle' : ¬ n + 1 ≤ j := by omega
          simp [hn, hle, hle']
  unfold waitingReleases
  rw [List.countP_map, List.countP_filter]
  have h := hgen calls 0
  simp only [Nat.zero_le, true_and, Nat.sub_zero] at h
  rw [← h]
  rfl

/-- one call moves and the log grows by `evs` -/
theorem move_logInv (s : Cache K T V) (hs : LogInv s) (i : Nat) (c : Call K T V)
    (hc : s.calls[i]? = some c) (pc : Pc V) (s' : Cache K T V) (evs : List (Event K))
    (hcalls : s'.calls = s.calls.set i { c with pc := pc }) (hlog : s'.log = s.log ++ evs)
    (hself : evs.countP (fun ev => ev.call = i) + (if tookEffect s.heap c then 1 else 0)
      = if tookEffect s'.heap { c with pc := pc } then 1 else 0)
    (hother : ∀ j d, j ≠ i → s.calls[j]? = some d →
      evs.countP (fun ev => ev.call = j) + (if tookEffect s.heap d then 1 else 0)
        = if tookEffect s'.heap d then 1 else 0)
    (hevs : ∀ ev ∈ evs, ∃ d, s.calls[ev.call]? = some d ∧ ev.key = d.key ∧ ev.owner = d.owner ∧
      (ev.acquires = true ↔ d.op ≠ .release)) : LogInv s' where
  once := by
    intro j d hd
    rw [hlog, List.countP_append]
    rw [hcalls] at hd
    by_cases hj : j = i
    · subst hj
      rw [List.getElem?_set_self (List.getElem?_eq_some_iff.1 hc).1] at hd
      cases hd
      rw [hs.once j c hc, Nat.add_comm]
      exact hself
    · rw [List.getElem?_set_ne (Ne.symm hj)] at hd
      rw [hs.once j d hd, Nat.add_comm]
      exact hother j d hj hd
  events := by
    intro ev hev
    rw [hlog] at hev
    obtain ⟨d, hd, hk, ho, ha⟩ : ∃ d, s.calls[ev.call]? = some d ∧ ev.key = d.key ∧
        ev.owner = d.owner ∧ (ev.acquires = true ↔ d.op ≠ .release) :=
      (List.mem_append.1 hev).elim (hs.events ev) (hevs ev)
    rw [hcalls]
    by_cases hj : ev.call = i
    · rw [hj] at hd ⊢
      rw [hc] at hd
      cases hd
      exact ⟨_, List.getElem?_set_self (List.getElem?_eq_some_iff.1 hc).1, hk, ho, ha⟩
    · exact ⟨d, by rw [List.getElem?_set_ne (Ne.symm hj)]; exact hd, hk, ho, ha⟩

/-- an effect depends on an entry only through its removal -/
theorem tookEffect_congr (heap heap' : Nat → Option (Entry K T V)) (c : Call K T V)
    (h : ∀ e, (heap' e).any (fun entry => entry.removed) = (heap e).any fun entry => entry.removed) :
    tookEffect heap' c = tookEffect heap c := by
  unfold tookEffect
  cases c.pc with
  | waiting e => simp only [h]
  | looking | loading _ | evaluating _ _ | finishing _ _ | removing _ _ | returned _ => rfl

theorem any_removed_update (heap : Nat → Option (Entry K T V)) (e : Nat)
    (entry' : Entry K T V) (h : (heap e).any (fun entry => entry.removed) = entry'.removed)
    (e' : Nat) : (Function.update heap e (some entry') e').any (fun entry => entry.removed)
      = (heap e').any fun entry => entry.removed := by
  by_cases heq : e' = e
  · rw [heq, Function.update_self, h]
    rfl
  · rw [Function.update_of_ne heq]

section
variable (s : Cache K T V) (hl : LogInv s) (i : Nat) (c : Call K T V) (hc : s.calls[i]? = some c)
include hl hc

/-- a step without an effect -/
theorem quiet_logInv (pc : Pc V) (s' : Cache K T V)
    (hcalls : s'.calls = s.calls.set i { c with pc := pc }) (hlog : s'.log = s.log)
    (hheap : ∀ e, (s'.heap e).any (fun entry => entry.removed)
      = (s.heap e).any fun entry => entry.removed)
    (hself : tookEffect s'.heap { c with pc := pc } = tookEffect s.heap c) : LogInv s' := by
  refine move_logInv s hl i c hc pc s' [] hcalls (by rw [hlog, List.append_nil]) ?_ ?_
    (fun ev h => by cases h)
  · rw [hself, List.countP_nil, Nat.zero_add]
  · intro j d _ _
    rw [tookEffect_congr s.heap s'.heap d hheap, List.countP_nil, Nat.zero_add]

/-- a step in which the call takes its effect -/
theorem effect_logInv (pc : Pc V) (s' : Cache K T V) (acquires : Bool)
    (hacq : acquires = true ↔ c.op ≠ .release)
    (hcalls : s'.calls = s.calls.set i { c with pc := pc })
    (hlog : s'.log = s.log ++ [⟨i, c.key, c.owner, acquires⟩])
    (hheap : ∀ e, (s'.heap e).any (fun entry => entry.removed)
      = (s.heap e).any fun entry => entry.removed)
    (hbefore : tookEffect s.heap c = false)
    (hafter : tookEffect s'.heap { c with pc := pc } = true) : LogInv s' := by
  refine move_logInv s hl i c hc pc s' _ hcalls hlog ?_ ?_ ?_
  · rw [hbefore, hafter]
    simp
  · intro j d hj _
    rw [tookEffect_congr s.heap s'.heap d hheap]
    simp [Ne.symm hj]
  · intro ev hev
    rw [List.mem_singleton.1 hev]
    exact ⟨c, hc, rfl, rfl, hacq⟩

/-- An entry is removed: the releases that wait at it take effect, and the call itself if it is a
release. -/
theorem startRemove_logInv (e : Nat) (entry entry' : Entry K T V) (he : s.heap e = some entry)
    (hr : entry.removed = false) (result : Result) (evs : List (Event K))
    (hevs : evs = [] ∨ evs = [⟨i, c.key, c.owner, false⟩] ∧ c.op = .release)
    (hself : evs.countP (fun ev => ev.call = i) + (if tookEffect s.heap c then 1 else 0)
      = if decide (result = .ok) then 1 else 0) :
    LogInv (startRemove { s with log := s.log ++ evs } i c e entry' result) := by
  have hother : ∀ j, j ≠ i → evs.countP (fun ev => ev.call = j) = 0 := by
    intro j hj
    rcases hevs with rfl | ⟨rfl, _⟩
    · rfl
    · simp [Ne.symm hj]
  refine move_logInv s hl i c hc (.removing e result) _
    (evs ++ waitingReleases (s.calls.set i { c with pc := .removing e result }) e) rfl ?_ ?_ ?_ ?_
  · exact List.append_assoc _ _ _
  · rw [List.countP_append, countP_waitingReleases,
      List.getElem?_set_self (List.getElem?_eq_some_iff.1 hc).1]
    have hnot : ((some { c with pc := .removing e result } : Option (Call K T V)).any
        fun c => c.waitsToRelease e) = false := by
      simp [Call.waitsToRelease]
    rw [hnot]
    exact hself
  · intro j d hj hd
    rw [List.countP_append, hother j hj, countP_waitingReleases,
      List.getElem?_set_ne (Ne.symm hj), hd, Option.any_some, Nat.zero_add]
    show _ = if tookEffect (Function.update s.heap e (some { entry' with removed := true })) d
      then 1 else 0
    by_cases hw : d.waitsToRelease e = true
    · obtain ⟨hop, hpc⟩ := (waitsToRelease_iff d e).1 hw
      have hbefore : tookEffect s.heap d = false := by
        unfold tookEffect
        rw [hpc]
        simp [he, hr]
      have hafter : tookEffect
          (Function.update s.heap e (some { entry' with removed := true })) d = true := by
        unfold tookEffect
        rw [hpc]
        simp [hop]
      rw [hw, hbefore, hafter]
      rfl
    · have hsame : tookEffect (Function.update s.heap e (some { entry' with removed := true })) d
          = tookEffect s.heap d := by
        unfold tookEffect
        cases hpc : d.pc with
        | looking | loading _ | evaluating _ _ | finishing _ _ | removing _ _ | returned _ => rfl
        | waiting e' =>
          by_cases heq : e' = e
          · have hop : d.op ≠ .release := fun hop =>
              hw ((waitsToRelease_iff d e).2 ⟨hop, by rw [hpc, heq]⟩)
            simp [hop]
          · simp only [Function.update_of_ne heq]
      rw [Bool.eq_false_iff.2 hw, hsame]
      simp
  · intro ev hev
    rcases List.mem_append.1 hev with h | h
    · rcases hevs with rfl | ⟨rfl, hop⟩
      · cases h
      · rw [List.mem_singleton.1 h]
        exact ⟨c, hc, rfl, rfl, by simp [hop]⟩
    · obtain ⟨hacq, d, hd, hw, hk, ho⟩ := waitingReleases_spec _ e ev h
      obtain ⟨hop, hpc⟩ := (waitsToRelease_iff d e).1 hw
      by_cases hj : ev.call = i
      · rw [hj, List.getElem?_set_self (List.getElem?_eq_some_iff.1 hc).1] at hd
        cases hd
        cases hpc
      · rw [List.getElem?_set_ne (Ne.symm hj)] at hd
        exact ⟨d, hd, hk, ho, by rw [hacq, hop]; simp⟩

theorem look_logInv (hs : Inv s) (hpc : c.pc = .looking) : LogInv (look s i c) := by
  have hbefore : tookEffect s.heap c = false := by unfold tookEffect; rw [hpc]
  unfold look
  cases hidx : s.index c.key with
  | some e =>
    dsimp only
    split
    case isTrue h =>
      refine effect_logInv s hl i c hc (.waiting e) _ false (by simp [h.1]) rfl rfl
        (fun _ => rfl) hbefore ?_
      show (decide (c.op = .release) && s.marked e) = true
      rw [h.2, decide_eq_true h.1]
      rfl
    case isFalse h =>
      refine quiet_logInv s hl i c hc (.waiting e) _ rfl rfl (fun _ => rfl) ?_
      rw [hbefore]
      show (decide (c.op = .release) && s.marked e) = false
      rw [Bool.and_eq_false_iff, decide_eq_false_iff_not, ← Bool.not_eq_true]
      exact not_and_or.1 h
  | none =>
    cases hop : c.op with
    | load =>
      have hunused : s.heap s.next = none := by
        cases h : s.heap s.next with
        | none => rfl
        | some entry => exact absurd (hs.fresh _ _ h) (lt_irrefl _)
      refine quiet_logInv s hl i c hc (.waiting s.next) _ rfl rfl
        (any_removed_update s.heap s.next _ (by rw [hunused]; rfl)) ?_
      rw [hbefore]
      unfold tookEffect
      simp [hop]
    | tryAddOwner => exact quiet_logInv s hl i c hc (.returned .notAdded) _ rfl rfl (fun _ => rfl) hbefore.symm
    | release =>
      exact effect_logInv s hl i c hc (.returned .ok) _ false (by simp [hop]) rfl rfl
        (fun _ => rfl) hbefore rfl

theorem pass_logInv (hs : Inv s) (e : Nat) (hpc : c.pc = .waiting e) (entry : Entry K T V)
    (he : s.heap e = some entry) (s' : Cache K T V) (h : pass s i c e entry = some s') :
    LogInv s' := by
  have htook : tookEffect s.heap c = (decide (c.op = .release) && entry.removed) := by
    unfold tookEffect
    rw [hpc]
    simp only [he, Option.any_some]
  have hlive : entry.removed = true ∨ entry.removed = false := by cases entry.removed <;> simp
  have hflag : ∀ entry' : Entry K T V, entry'.removed = entry.removed → ∀ e',
      (Function.update s.heap e (some entry') e').any (fun entry => entry.removed)
        = (s.heap e').any fun entry => entry.removed := fun entry' h =>
    any_removed_update s.heap e entry' (by rw [he, h]; rfl)
  unfold pass at h
  cases hbusy : entry.busy with
  | some thread =>
    rw [hbusy] at h
    dsimp only at h
    split at h
    · cases h
      refine quiet_logInv s hl i c hc (.returned .panicked) _ rfl rfl (fun _ => rfl) ?_
      -- a busy entry is not removed
      have hr : entry.removed = false := by
        have hok := hs.entries e entry he
        unfold EntryOk at hok
        split at hok
        case isTrue => rw [hbusy] at hok; cases hok.2.1
        case isFalse hr => exact Bool.eq_false_iff.2 hr
      rw [htook, hr, Bool.and_false]
      rfl
    · cases h
  | none =>
    rw [hbusy] at h
    cases h
    unfold passFree
    cases hop : c.op with
    | load =>
      have hbefore : tookEffect s.heap c = false := by rw [htook, hop]; rfl
      dsimp only
      split
      · exact quiet_logInv s hl i c hc .looking _ rfl rfl (fun _ => rfl) hbefore.symm
      · exact quiet_logInv s hl i c hc (.loading e) _ rfl rfl (hflag _ rfl) hbefore.symm
    | tryAddOwner =>
      have hbefore : tookEffect s.heap c = false := by rw [htook, hop]; rfl
      dsimp only
      split
      · exact quiet_logInv s hl i c hc (.returned .notAdded) _ rfl rfl (fun _ => rfl) hbefore.symm
      · exact effect_logInv s hl i c hc (.returned .ok) _ true (by simp [hop]) rfl rfl
          (hflag _ rfl) hbefore rfl
    | release =>
      dsimp only
      rcases hlive with hr | hr
      · rw [if_pos hr]
        refine quiet_logInv s hl i c hc (.returned .ok) _ rfl rfl (fun _ => rfl) ?_
        rw [htook, hop, hr]
        rfl
      · have hbefore : tookEffect s.heap c = false := by rw [htook, hr, Bool.and_false]
        rw [if_neg (by rw [hr]; exact Bool.false_ne_true)]
        split
        · refine startRemove_logInv s hl i c hc e entry _ he hr .ok
            [⟨i, c.key, c.owner, false⟩] (Or.inr ⟨rfl, hop⟩) ?_
          rw [hbefore]
          simp
        · exact effect_logInv s hl i c hc (.returned .ok) _ false (by simp [hop]) rfl rfl
            (hflag _ rfl) hbefore rfl

end

/-- **Every step keeps the log in order.** -/
theorem step_logInv (a : Action K T V) (s s' : Cache K T V) (hs : Inv s) (hl : LogInv s)
    (h : step a s = some s') : LogInv s' := by
  rcases step_cases a s s' h with ⟨op, key, owner, thread, -, rfl⟩ | ⟨i, c, hc, hmoves⟩
  · refine ⟨fun j d hd => ?_, fun ev hev => ?_⟩
    · by_cases hj : j < s.calls.length
      · rw [List.getElem?_append_left hj] at hd
        exact hl.once j d hd
      · have hd' : d ∈ [⟨op, key, owner, thread, .looking⟩] := by
          rw [List.getElem?_append_right (by omega)] at hd
          exact List.mem_of_getElem? hd
        rw [List.mem_singleton.1 hd']
        have hzero : s.log.countP (fun ev => ev.call = j) = 0 := by
          rw [List.countP_eq_zero]
          intro ev hev hcall
          obtain ⟨d', hd', _⟩ := hl.events ev hev
          rw [of_decide_eq_true hcall] at hd'
          exact hj (List.getElem?_eq_some_iff.1 hd').1
        exact hzero
    · obtain ⟨d, hd, hrest⟩ := hl.events ev hev
      exact ⟨d, by rw [List.getElem?_append_left (List.getElem?_eq_some_iff.1 hd).1]; exact hd, hrest⟩
  cases hmoves with
  | look hpc => exact look_logInv s hl i c hc hs hpc
  | @pass e entry s' hpc he hpass => exact pass_logInv s hl i c hc hs e hpc entry he s' hpass
  | @read e entry hpc he =>
    refine quiet_logInv s hl i c hc (.evaluating e entry.value) _ rfl rfl (fun _ => rfl) ?_
    unfold tookEffect
    rw [hpc]
  | @loaded e previous parsed value entry hpc hv he =>
    have hop : c.op = .load := by
      have hcall := callOk_of_get hs hc
      unfold CallOk at hcall
      rw [hpc] at hcall
      exact hcall.1
    refine effect_logInv s hl i c hc (.finishing e .ok) _ true (by simp [hop]) rfl rfl
      (any_removed_update s.heap e _ (by rw [he]; rfl)) ?_ rfl
    unfold tookEffect
    rw [hpc]
  | @loadFails e previous result hpc hres =>
    refine quiet_logInv s hl i c hc (.finishing e result) _ rfl rfl (fun _ => rfl) ?_
    unfold tookEffect
    rw [hpc]
    rcases hres with rfl | rfl <;> rfl
  | @finish e result entry hpc he ho =>
    obtain ⟨x, hx, _, hr, _⟩ := busy_entry hs hc e (by unfold Call.kind; rw [hpc])
    rw [he] at hx
    cases hx
    have hstart := startRemove_logInv s hl i c hc e entry { entry with busy := none } he hr result []
      (Or.inl rfl) (by unfold tookEffect; rw [hpc, List.countP_nil, Nat.zero_add])
    rw [List.append_nil] at hstart
    exact hstart
  | @kept e result entry hpc he ho =>
    refine quiet_logInv s hl i c hc (.returned result) _ rfl rfl
      (any_removed_update s.heap e _ (by rw [he]; rfl)) ?_
    unfold tookEffect
    rw [hpc]
  | @removeEntry e result hpc =>
    refine quiet_logInv s hl i c hc (.returned result) _ ?_ ?_ ?_ ?_
    · unfold Cache.unlink
      split <;> rfl
    · unfold Cache.unlink
      split <;> rfl
    · unfold Cache.unlink
      split <;> exact fun _ => rfl
    · unfold tookEffect
      rw [hpc]

theorem inv_of_exec (as : List (Action K T V)) (s : Cache K T V)
    (h : exec step as Cache.empty = some s) : Inv s ∧ LogInv s :=
  exec_invariant step (fun s => Inv s ∧ LogInv s)
    (fun a s s' hs hstep => ⟨step_inv a s s' hs.1 hstep, step_logInv a s s' hs.1 hs.2 hstep⟩) as
    Cache.empty s ⟨inv_empty, logInv_empty⟩ h

/-! ## What a caller sees -/

/-- the owners and the value an entry shows; none while it is removed -/
def entryView (entry : Entry K T V) : Finset UInt64 × Option V :=
  if entry.removed then (∅, none) else (entry.owners, entry.value)

def view (s : Cache K T V) (k : K) : Finset UInt64 × Option V :=
  match (s.index k).bind s.heap with
  | some entry => entryView entry
  | none => (∅, none)

theorem view_eq (s : Cache K T V) (k : K) : view s k = (ownersOf s k, valueOf s k) := by
  unfold view ownersOf valueOf liveEntry
  rw [Option.bind_eq_bind]
  cases s.index k with
  | none => rfl
  | some e =>
    simp only [Option.bind_some]
    cases hx : s.heap e with
    | none => rfl
    | some entry =>
      simp only [Option.bind_eq_bind, Option.bind_some, entryView]
      by_cases hr : entry.removed = true
      · simp [hr]
      · simp [hr]

/-- one entry changes, and shows the same -/
theorem view_update (s s' : Cache K T V) (e : Nat) (entry entry' : Entry K T V)
    (he : s.heap e = some entry) (hindex : s'.index = s.index)
    (hheap : s'.heap = Function.update s.heap e (some entry'))
    (hsame : entryView entry' = entryView entry) (k : K) : view s' k = view s k := by
  unfold view
  rw [hindex, hheap]
  cases hk : s.index k with
  | none => rfl
  | some e' =>
    simp only [Option.bind_some]
    by_cases heq : e' = e
    · rw [heq, Function.update_self, he]
      exact hsame
    · rw [Function.update_of_ne heq]

theorem view_congr (s s' : Cache K T V) (hindex : s'.index = s.index) (hheap : s'.heap = s.heap)
    (k : K) : view s' k = view s k := by
  unfold view
  rw [hindex, hheap]

/-- the owners are those that acquired and did not release since -/
theorem ownersOf_eq_replay (s : Cache K T V) (hs : Inv s) (k : K) :
    ownersOf s k = replay s.log k := by
  have hview := congrArg Prod.fst (view_eq s k)
  rw [← show (view s k).1 = ownersOf s k from hview]
  unfold view
  cases hk : s.index k with
  | none => exact (hs.unindexed k hk).symm
  | some e =>
    obtain ⟨entry, he, hkey, _⟩ := hs.indexed k e hk
    have hok := hs.entries e entry he
    rw [hkey] at hok
    simp only [Option.bind_some, he]
    unfold entryView
    unfold EntryOk at hok
    split at hok
    case isTrue hr =>
      rw [if_pos hr]
      exact ((hok.2.2.2.resolve_right fun h => h.1 hk).2.2).symm
    case isFalse hr =>
      rw [if_neg hr]
      exact hok.2.1

/-- once every call has returned, an entry has an owner -/
theorem has_iff_of_quiescent (s : Cache K T V) (hs : Inv s) (hq : Quiescent s) (k : K) :
    has s k = true ↔ ∃ o, Owns s.log k o := by
  have hcount : ∀ kind e, count s.calls kind e = 0 := by
    intro kind e
    unfold count
    rw [List.countP_eq_zero]
    intro c hc hk
    obtain ⟨result, hpc⟩ := hq c hc
    have hk' := of_decide_eq_true hk
    unfold Call.kind at hk'
    rw [hpc] at hk'
    cases hk'
  constructor
  · intro hhas
    obtain ⟨e, hk⟩ := Option.isSome_iff_exists.1 hhas
    obtain ⟨entry, he, hkey, _⟩ := hs.indexed k e hk
    have hok := hs.entries e entry he
    rw [hkey] at hok
    unfold EntryOk at hok
    split at hok
    case isTrue hr =>
      obtain ⟨_, hone, _⟩ := hok.2.2.2.resolve_right fun h => h.1 hk
      simp only [hcount] at hone
      cases hone
    case isFalse hr =>
      obtain ⟨_, howners, _, _, hprov⟩ := hok
      have hne : entry.owners ≠ ∅ := by
        intro ho
        have hpos := (hprov ho).2
        simp only [hcount] at hpos
        exact absurd hpos (lt_irrefl _)
      obtain ⟨o, ho⟩ := Finset.nonempty_iff_ne_empty.2 hne
      exact ⟨o, (mem_replay_iff s.log k o).1 (by rw [← howners]; exact ho)⟩
  · rintro ⟨o, ho⟩
    have hmem := (mem_replay_iff s.log k o).2 ho
    unfold has
    cases hk : s.index k with
    | some e => rfl
    | none =>
      rw [hs.unindexed k hk] at hmem
      exact absurd hmem (Finset.notMem_empty o)

section
variable (s : Cache K T V) (hs : Inv s) (i : Nat) (c : Call K T V) (hc : s.calls[i]? = some c)
include hs hc

theorem look_view (hop : c.op = .load) (k : K) : view (look s i c) k = view s k := by
  unfold look
  cases hidx : s.index c.key with
  | some e =>
    rw [hop]
    exact view_congr s _ rfl rfl k
  | none =>
    rw [hop]
    show view ((s.insertEntry c.key).setPc i c (.waiting s.next)) k = view s k
    unfold view
    by_cases hkk : k = c.key
    · -- a provisional entry shows what no entry shows
      show (match (Function.update s.index c.key (some s.next) k).bind
        (Function.update s.heap s.next (some ⟨c.key, none, ∅, none, false⟩)) with
        | some entry => entryView entry | none => (∅, none)) = _
      rw [hkk, Function.update_self, hidx, Option.bind_some, Function.update_self]
      rfl
    · show (match (Function.update s.index c.key (some s.next) k).bind
        (Function.update s.heap s.next (some ⟨c.key, none, ∅, none, false⟩)) with
        | some entry => entryView entry | none => (∅, none)) = _
      rw [Function.update_of_ne hkk]
      cases hk : s.index k with
      | none => rfl
      | some e =>
        obtain ⟨entry, he, _⟩ := hs.indexed k e hk
        have hne : e ≠ s.next := Nat.ne_of_lt (hs.fresh e entry he)
        rw [Option.bind_some, Option.bind_some, Function.update_of_ne hne]

theorem pass_load_view (hop : c.op = .load) (e : Nat) (entry : Entry K T V)
    (he : s.heap e = some entry) (s' : Cache K T V) (h : pass s i c e entry = some s') (k : K) :
    view s' k = view s k := by
  unfold pass at h
  cases hbusy : entry.busy with
  | some thread =>
    rw [hbusy] at h
    dsimp only at h
    split at h
    · cases h
      exact view_congr s _ rfl rfl k
    · cases h
  | none =>
    rw [hbusy] at h
    cases h
    unfold passFree
    rw [hop]
    dsimp only
    split
    · exact view_congr s _ rfl rfl k
    · exact view_update s _ e entry { entry with busy := some c.thread } he (by rfl)
        (by rfl) rfl k

theorem finish_view (e : Nat) (result : Result) (hpc : c.pc = .finishing e result)
    (entry : Entry K T V) (he : s.heap e = some entry) (ho : entry.owners = ∅) (k : K) :
    view (startRemove s i c e { entry with busy := none } result) k = view s k := by
  obtain ⟨x, hx, _, hr, _, _, _, _, _, hvalue⟩ :=
    busy_entry hs hc e (by unfold Call.kind; rw [hpc])
  rw [he] at hx
  cases hx
  refine view_update s _ e entry { entry with busy := none, removed := true } he (by rfl)
    (by rfl) ?_ k
  unfold entryView
  rw [if_pos rfl, if_neg (by rw [hr]; exact Bool.false_ne_true), ho, hvalue ho]

theorem removeEntry_view (e : Nat) (result : Result) (hpc : c.pc = .removing e result) (k : K) :
    view ((s.unlink c.key e).setPc i c (.returned result)) k = view s k := by
  have hkind : c.kind = some (.removing, e) := by unfold Call.kind; rw [hpc]
  obtain ⟨entry, he, hkey⟩ := at_of_kind s.heap c (callOk_of_get hs hc) .removing e hkind
  have hr : entry.removed = true := by
    have hpos := count_pos s.calls c (List.mem_of_getElem? hc) .removing e hkind
    have hok := hs.entries e entry he
    unfold EntryOk at hok
    split at hok
    case isTrue hr => exact hr
    case isFalse hr => exact absurd hok.2.2.1 (Nat.ne_of_gt hpos)
  unfold Cache.unlink
  split
  case isFalse => exact view_congr s _ rfl rfl k
  case isTrue hidx =>
    unfold view
    show (match (Function.update s.index c.key none k).bind s.heap with
      | some entry => entryView entry | none => (∅, none)) = _
    by_cases hkk : k = c.key
    · have hgone : entryView entry = (∅, none) := if_pos hr
      rw [hkk, Function.update_self, hidx, Option.bind_some, he]
      exact hgone.symm
    · rw [Function.update_of_ne hkk]

/-- **Only its commit shows a load.**  A load that fails does not get there. -/
theorem load_view (hop : c.op = .load) (a : Action K T V) (hactor : a.actor = some i)
    (hcommit : ∀ parsed, a ≠ .loaded i parsed) (s' : Cache K T V) (h : step a s = some s') (k : K) :
    view s' k = view s k := by
  rcases step_cases a s s' h with ⟨_, _, _, _, rfl, -⟩ | ⟨j, d, hd, hmoves⟩
  · cases hactor
  cases (hmoves.actor.symm.trans hactor)
  cases (hc.symm.trans hd)
  cases hmoves with
  | look => exact look_view s hs i c hc hop k
  | pass hpc he hpass => exact pass_load_view s hs i c hc hop _ _ he s' hpass k
  | read => exact view_congr s _ rfl rfl k
  | loaded => exact absurd rfl (hcommit _)
  | loadFails => exact view_congr s _ rfl rfl k
  | finish hpc he ho => exact finish_view s hs i c hc _ _ hpc _ he ho k
  | @kept e result entry hpc he =>
    exact view_update s _ e entry { entry with busy := none } he (by rfl) (by rfl) rfl k
  | removeEntry hpc => exact removeEntry_view s hs i c hc _ _ hpc k

/-- an owner that acquires again changes no owner set, and no value unless the old one expired -/
theorem loaded_view (parsed : Option V) (s' : Cache K T V)
    (h : step (.loaded i parsed) s = some s') (howner : c.owner ∈ ownersOf s c.key) :
    (∀ k, ownersOf s' k = ownersOf s k) ∧ (parsed = none → ∀ k, valueOf s' k = valueOf s k) := by
  rcases step_cases _ s s' h with ⟨_, _, _, _, ha, -⟩ | ⟨j, d, hd, hmoves⟩
  · cases ha
  cases (Option.some.inj hmoves.actor)
  cases (hc.symm.trans hd)
  cases hmoves with
  | @loaded e previous _ value entry hpc hvalue he =>
    obtain ⟨x, hx, hkey, hr, _, hlink, howners, _⟩ :=
      busy_entry hs hc e (by unfold Call.kind; rw [hpc])
    rw [he] at hx
    cases hx
    rw [ownersOf_eq_replay s hs, ← howners] at howner
    have hprevious : entry.value = previous := by
      have hcall := callOk_of_get hs hc
      unfold CallOk at hcall
      rw [hpc] at hcall
      obtain ⟨_, x, hx, _, hv⟩ := hcall
      rw [he] at hx
      cases hx
      exact hv
    have hsame : parsed = none → ∀ k, view (((s.setEntry e { entry with
        value := some value, owners := insert c.owner entry.owners }).record i c true).setPc i c
          (.finishing e .ok)) k = view s k := by
      intro hnone k
      subst hnone
      refine view_update s _ e entry { entry with
        value := some value, owners := insert c.owner entry.owners } he (by rfl) (by rfl) ?_ k
      unfold entryView
      rw [Finset.insert_eq_of_mem howner, ← hvalue, hprevious]
      rfl
    refine ⟨fun k => ?_, fun hnone k => ?_⟩
    · -- the owners do not depend on the value
      have hinv := loaded_inv hs hc e previous hpc entry he value
      rw [ownersOf_eq_replay _ hinv, ownersOf_eq_replay s hs]
      show replay (s.log ++ [⟨i, c.key, c.owner, true⟩]) k = replay s.log k
      rw [replay_append]
      show applyEvent k (replay s.log k) ⟨i, c.key, c.owner, true⟩ = replay s.log k
      unfold applyEvent
      by_cases hk : c.key = k
      · rw [if_pos hk, ← hk, ← howners]
        exact Finset.insert_eq_of_mem howner
      · rw [if_neg hk]
    · have := hsame hnone k
      rw [view_eq, view_eq] at this
      exact congrArg Prod.snd this

/-- a release by somebody who is no owner shows nothing -/
theorem release_view (hop : c.op = .release) (howner : c.owner ∉ ownersOf s c.key)
    (a : Action K T V) (hactor : a.actor = some i) (s' : Cache K T V) (h : step a s = some s')
    (k : K) : view s' k = view s k := by
  rw [ownersOf_eq_replay s hs] at howner
  have hload : ∀ e, c.kind = some (.busy, e) → False := by
    intro e hk
    have hcall := callOk_of_get hs hc
    obtain ⟨op, key, owner, thread, pc⟩ := c
    cases pc with
    | looking | returned _ | removing _ _ => cases hk
    | waiting e' => simp only [Call.kind] at hk; split at hk <;> cases hk
    | loading _ | evaluating _ _ | finishing _ _ =>
      have := hcall.1
      rw [hop] at this
      cases this
  rcases step_cases a s s' h with ⟨_, _, _, _, rfl, -⟩ | ⟨j, d, hd, hmoves⟩
  · cases hactor
  cases (hmoves.actor.symm.trans hactor)
  cases (hc.symm.trans hd)
  cases hmoves with
  | look =>
    unfold look
    rw [hop]
    cases s.index c.key with
    | none => exact view_congr s _ rfl rfl k
    | some e =>
      dsimp only
      split
      · exact view_congr s _ rfl rfl k
      · exact view_congr s _ rfl rfl k
  | @pass e entry _ hpc he hpass =>
    have hkey := waiting_key hs hc e hpc entry he
    have hok := hs.entries e entry he
    unfold pass at hpass
    cases hbusy : entry.busy with
    | some thread =>
      rw [hbusy] at hpass
      dsimp only at hpass
      split at hpass
      · cases hpass
        exact view_congr s _ rfl rfl k
      · cases hpass
    | none =>
      rw [hbusy] at hpass
      cases hpass
      unfold passFree
      rw [hop]
      dsimp only
      by_cases hr : entry.removed = true
      · rw [if_pos hr]
        exact view_congr s _ rfl rfl k
      · rw [if_neg hr]
        unfold EntryOk at hok
        rw [if_neg hr, hkey] at hok
        obtain ⟨_, howners, _, _, hprov⟩ := hok
        have herase : entry.owners.erase c.owner = entry.owners := by
          rw [howners]
          exact Finset.erase_eq_of_notMem howner
        rw [herase]
        split
        case isTrue hempty =>
          refine view_update s _ e entry { entry with removed := true } he (by rfl) (by rfl) ?_ k
          unfold entryView
          rw [if_pos rfl, if_neg hr, hempty, (hprov hempty).1]
        case isFalse => exact view_update s _ e entry entry he (by rfl) (by rfl) rfl k
  | @read e _ hpc => exact (hload e (by unfold Call.kind; rw [hpc])).elim
  | @loaded e _ _ _ _ hpc => exact (hload e (by unfold Call.kind; rw [hpc])).elim
  | @loadFails e _ _ hpc => exact (hload e (by unfold Call.kind; rw [hpc])).elim
  | @finish e _ _ hpc => exact (hload e (by unfold Call.kind; rw [hpc])).elim
  | @kept e _ _ hpc => exact (hload e (by unfold Call.kind; rw [hpc])).elim
  | @removeEntry e result hpc => exact removeEntry_view s hs i c hc e result hpc k

end

/-- **The laws of the owner cache.**  In every state that a schedule reaches:

* the owners of a key are those that acquired it and did not release it since, by the log;
* when every call has returned, a key has an entry exactly when it has such an owner;
* a call that succeeded is in the log once, any other call is not, so no acquire is lost;
* a load shows nothing but its commit, so a load that fails leaves value and owners as they are;
* an owner that acquires again, or releases what it does not own, changes nothing. -/
theorem ownerCache_laws (as : List (Action K T V)) (s : Cache K T V)
    (h : exec step as Cache.empty = some s) :
    (∀ k o, o ∈ ownersOf s k ↔ Owns s.log k o) ∧
    (Quiescent s → ∀ k, has s k = true ↔ ∃ o, Owns s.log k o) ∧
    (∀ j d, s.calls[j]? = some d →
      s.log.countP (fun ev => ev.call = j) = if tookEffect s.heap d then 1 else 0) ∧
    (∀ ev ∈ s.log, ∃ d, s.calls[ev.call]? = some d ∧ ev.key = d.key ∧ ev.owner = d.owner ∧
      (ev.acquires = true ↔ d.op ≠ .release)) ∧
    (∀ i c a s', s.calls[i]? = some c → c.op = .load → a.actor = some i →
      (∀ parsed, a ≠ .loaded i parsed) → step a s = some s' →
      ∀ k, ownersOf s' k = ownersOf s k ∧ valueOf s' k = valueOf s k) ∧
    (∀ i c parsed s', s.calls[i]? = some c → step (.loaded i parsed) s = some s' →
      c.owner ∈ ownersOf s c.key → (∀ k, ownersOf s' k = ownersOf s k) ∧
        (parsed = none → ∀ k, valueOf s' k = valueOf s k)) ∧
    (∀ i c a s', s.calls[i]? = some c → c.op = .release → c.owner ∉ ownersOf s c.key →
      a.actor = some i → step a s = some s' →
      ∀ k, ownersOf s' k = ownersOf s k ∧ valueOf s' k = valueOf s k) := by
  obtain ⟨hs, hl⟩ := inv_of_exec as s h
  have hsplit : ∀ s' : Cache K T V, (∀ k, view s' k = view s k) →
      ∀ k, ownersOf s' k = ownersOf s k ∧ valueOf s' k = valueOf s k := by
    intro s' hview k
    have h := hview k
    rw [view_eq, view_eq] at h
    exact Prod.ext_iff.1 h
  refine ⟨fun k o => ?_, fun hq k => has_iff_of_quiescent s hs hq k, hl.once, hl.events,
    fun i c a s' hc hop hactor hcommit hstep => hsplit s' fun k => ?_,
    fun i c parsed s' hc hstep howner => loaded_view s hs i c hc parsed s' hstep howner,
    fun i c a s' hc hop howner hactor hstep => hsplit s' fun k => ?_⟩
  · rw [ownersOf_eq_replay s hs]
    exact mem_replay_iff s.log k o
  · exact load_view s hs i c hc hop a hactor hcommit s' hstep k
  · exact release_view s hs i c hc hop howner a hactor s' hstep k

end

/-- a release removes the provisional entry of a load, which then starts over -/
def overtaken : List (Action Nat Nat Nat) :=
  [.call .load 7 1 10, .look 0, .call .release 7 2 11, .look 1, .pass 1, .removeEntry 1, .pass 0,
    .look 0, .pass 0, .read 0, .loaded 0 (some 5), .finish 0]

theorem ownerCache_laws_overtaken : ∃ s : Cache Nat Nat Nat,
    exec step overtaken Cache.empty = some s ∧ has s 7 = true ∧
    (1 ∈ ownersOf s 7 ↔ Owns s.log 7 1) :=
  ⟨_, rfl, rfl, (ownerCache_laws overtaken _ rfl).1 7 1⟩

end Tsr.Project.OwnerCache
