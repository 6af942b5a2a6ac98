import Tsr.Project.SessionCovered

/-!
# The session: inferred options

What a call of `apply_inferred_options` promises: if it returns success, its options or newer ones have
been published; if it returns an error, it has left the options as they would be without it.

* `without`                      the schedule without a call;
* `Apart`                        a run and the run without the call, while the call is alone;
* `Lost`                         a call that is not alone any more: it will not fail;
* `inferred_options_applied`     **the result** for runs that meet the condition;
* `options_lost`                 a run that does not.
-/

namespace Tsr.Project.Session
open Tsr.Lib.Run

variable {χ ω δ : Type}

/-! ## the run without a call -/

/-- the steps of call `c` -/
def ofCall (c : Nat) : Action χ ω δ → Bool
  | .applyInferredOptions n _ => n = c
  | .start caller _ _ => caller = some c
  | .publish caller => caller = some c
  | .fail caller => caller = some c
  | .settle n => n = c
  | _ => false

theorem ofCall_notifies {c : Nat} {a : Action χ ω δ} (ha : a.notifies = true) : ofCall c a = false := by
  cases a <;> first | rfl | cases ha

def without (c : Nat) (as : List (Action χ ω δ)) : List (Action χ ω δ) := as.filter fun a => !ofCall c a

def stepWithout (c : Nat) (a : Action χ ω δ) (r : State χ ω δ) : Option (State χ ω δ) :=
  if ofCall c a then some r else step a r

theorem exec_without_cons {c : Nat} {a : Action χ ω δ} {as : List (Action χ ω δ)}
    {r r1 : State χ ω δ} (h : stepWithout c a r = some r1) :
    exec step (without c (a :: as)) r = exec step (without c as) r1 := by
  rw [stepWithout] at h
  rw [without, List.filter_cons]
  split at h
  next hc =>
    cases h
    rw [hc]
    rfl
  next hc =>
    rw [Bool.not_eq_true] at hc
    rw [hc]
    show (step a r).bind (exec step (without c as)) = _
    rw [h]
    rfl

/-- `r` is where the run would be without call `c` -/
structure Apart (c : Nat) (s r : State χ ω δ) : Prop where
  snapshot : r.snapshot = s.snapshot
  published : r.published = s.published
  nextSnapshotId : r.nextSnapshotId = s.nextSnapshotId
  made : r.made ≤ s.made
  calls : ∀ m, m ≠ c → r.calls m = s.calls m
  place : ∃ call, s.calls c = some call ∧
    ((call.phase = .flushing ∧ r.update = none ∧ r.pending.inferred = call.previous ∧
      ∃ t, s.update = some (.update t) ∧ t.caller = some c) ∨
    ((call.phase = .waiting ∨ call.phase = .failed) ∧ r.update = s.update ∧
      (∀ t, s.update = some (.update t) → t.caller ≠ some c) ∧
      ((s.pending.inferred = some call.options ∧ r.pending.inferred = call.previous) ∨
        (s.snapshot = none ∧ s.pending.inferred = none ∧ r.pending.inferred = none))))

/-- a call that something has come between, and that has not failed -/
structure Lost (c : Nat) (s : State χ ω δ) : Prop where
  alone : s.alone ≠ some c
  made : c < s.made
  phase : ∃ call, s.calls c = some call ∧
    (call.phase = .waiting ∨ call.phase = .flushing ∨ call.phase = .returned true)

namespace Apart

variable {c : Nat} {s s1 r r1 : State χ ω δ}

/-- a step of both that touches neither options nor calls -/
theorem same (h : Apart c s r) (hs : s1.snapshot = s.snapshot) (hu : s1.update = s.update)
    (hp : s1.pending.inferred = s.pending.inferred) (hc : s1.calls = s.calls)
    (hpub : s1.published = s.published) (hid : s1.nextSnapshotId = s.nextSnapshotId)
    (hm : s1.made = s.made) (hs' : r1.snapshot = r.snapshot) (hu' : r1.update = r.update)
    (hp' : r1.pending.inferred = r.pending.inferred) (hc' : r1.calls = r.calls)
    (hpub' : r1.published = r.published) (hid' : r1.nextSnapshotId = r.nextSnapshotId)
    (hm' : r1.made = r.made) : Apart c s1 r1 := by
  constructor
  · rw [hs, hs', h.snapshot]
  · rw [hpub, hpub', h.published]
  · rw [hid, hid', h.nextSnapshotId]
  · rw [hm, hm']
    exact h.made
  · rw [hc, hc']
    exact h.calls
  · rw [hs, hu, hp, hc, hu', hp']
    exact h.place

theorem stage (h : Apart c s r) (f : Pending χ ω δ → Pending χ ω δ)
    (hf : ∀ p, (f p).inferred = p.inferred) : Apart c (s.stage f) (r.stage f) :=
  h.same rfl rfl (hf _) rfl rfl rfl rfl rfl rfl (hf _) rfl rfl rfl rfl

theorem stageOpen (h : Apart c s r) (f : Pending χ ω δ → Pending χ ω δ)
    (hf : ∀ p, (f p).inferred = p.inferred) : Apart c (s.stageOpen f) (r.stageOpen f) := by
  rw [State.stageOpen, State.stageOpen, h.snapshot]
  split
  next => exact h
  next => exact h.stage f hf

theorem accept (h : Apart c s r) (cs : List (FileChange χ)) : Apart c (s.accept cs) (r.accept cs) := by
  rw [State.accept, State.accept, h.snapshot]
  split
  next => exact h
  next => exact h.same rfl rfl rfl rfl rfl rfl rfl h.snapshot.symm rfl rfl rfl rfl rfl rfl

/-- the lock is free in both, or not held by the call -/
theorem update_free (h : Apart c s r) (hu : ∀ t, s.update = some (.update t) → t.caller ≠ some c) :
    r.update = s.update := by
  obtain ⟨call, -, ⟨-, -, -, t, ht, htc⟩ | ⟨-, hr, -, -⟩⟩ := h.place
  · exact absurd htc (hu t ht)
  · exact hr

/-- the options that both would take -/
theorem effective (h : Apart c s r) {call : Call ω} (hc : s.calls c = some call)
    (hf : call.phase = .failed) :
    ((s.revert c call).setCaller (some c) (.returned false)).effectiveOptions = r.effectiveOptions := by
  obtain ⟨call', hc', hplace⟩ := h.place
  cases (hc.symm.trans hc')
  rcases hplace with ⟨hp, -⟩ | ⟨-, -, -, ⟨h1, h2⟩ | ⟨h0, h1, h2⟩⟩
  · exact nomatch (hf.symm.trans hp)
  · show (s.revert c call).pending.inferred.or (s.snapshot.bind Snapshot.inferredOptions) =
      r.pending.inferred.or (r.snapshot.bind Snapshot.inferredOptions)
    rw [Covered.revert_pending c h1, h2, h.snapshot]
  · have hkeep : (s.revert c call).pending.inferred = none := by
      show (if s.pending.inferred.any fun value => value.ptr = call.options.ptr then
        { s.pending with inferred := call.previous } else s.pending).inferred = none
      rw [h1, if_neg (by simp), h1]
    show (s.revert c call).pending.inferred.or (s.snapshot.bind Snapshot.inferredOptions) =
      r.pending.inferred.or (r.snapshot.bind Snapshot.inferredOptions)
    rw [hkeep, h2, h.snapshot]

/-- a snapshot published by another update -/
theorem adopt (h : Apart c s r) (ho : s.snapshot.isSome = true) {t : Transaction χ ω δ}
    (hu : s.update = some (.update t)) (hne : t.caller ≠ some c) :
    Apart c ((s.adopt t).setCaller t.caller (.returned true))
      ((r.adopt t).setCaller t.caller (.returned true)) := by
  obtain ⟨call, hc, ⟨-, -, -, t', ht', htc⟩ | ⟨hp, hr, -, hq⟩⟩ := h.place
  · cases (hu.symm.trans ht')
    exact absurd htc hne
  constructor
  · rw [State.setCaller_snapshot, State.setCaller_snapshot]
    show some (deriveSnapshot r.nextSnapshotId t.old t.pending) = some (deriveSnapshot s.nextSnapshotId _ _)
    rw [h.nextSnapshotId]
  · rw [State.setCaller_published, State.setCaller_published]
    show r.published ++ [deriveSnapshot r.nextSnapshotId t.old t.pending] =
      s.published ++ [deriveSnapshot s.nextSnapshotId t.old t.pending]
    rw [h.nextSnapshotId, h.published]
  · rw [State.setCaller_nextSnapshotId, State.setCaller_nextSnapshotId]
    exact congrArg (· + 1) h.nextSnapshotId
  · rw [State.setCaller_made, State.setCaller_made]
    exact h.made
  · intro m hm
    exact State.setCaller_calls_congr (h.calls m hm)
  · refine ⟨call, (State.setCaller_calls_ne hne).trans hc, .inr ⟨hp, ?_, ?_, ?_⟩⟩
    · rw [State.setCaller_update, State.setCaller_update]
      rfl
    · intro t' ht'
      rw [State.setCaller_update] at ht'
      cases ht'
    · rw [State.setCaller_pending, State.setCaller_pending]
      rcases hq with hq | ⟨h0, hq⟩
      · exact .inl hq
      · rw [h0] at ho
        cases ho

/-- another update fails, and held no options -/
theorem giveBack (h : Apart c s r) (ho : s.snapshot.isSome = true) {t : Transaction χ ω δ}
    (hu : s.update = some (.update t)) (hcaller : t.caller = none) (hi : t.pending.inferred = none) :
    Apart c (s.giveBack t) (r.giveBack t) := by
  obtain ⟨call, hc, ⟨-, -, -, t', ht', htc⟩ | ⟨hp, hr, -, hq⟩⟩ := h.place
  · cases (hu.symm.trans ht')
    rw [hcaller] at htc
    cases htc
  refine ⟨h.snapshot, h.published, h.nextSnapshotId, h.made, h.calls, call, hc,
    .inr ⟨hp, rfl, nofun, ?_⟩⟩
  rcases hq with ⟨h1, h2⟩ | ⟨h0, -⟩
  · left
    constructor
    · exact (restore_inferred _ _).trans (by rw [h1]; rfl)
    · exact (restore_inferred _ _).trans (by rw [hi, h2, Option.or_none])
  · rw [h0] at ho
    cases ho

/-- the call takes the queue -/
theorem take (h : Apart c s r) {previous : Snapshot ω δ} (hsnap : s.snapshot = some previous)
    (hu : s.update = none) (hw : s.phase c = some .waiting) :
    Apart c ((s.take (some c) previous).setCaller (some c) .flushing) r := by
  obtain ⟨call, hc, hplace⟩ := h.place
  have hwait : call.phase = .waiting := by
    rw [State.phase, hc] at hw
    exact Option.some.inj hw
  refine ⟨h.snapshot, h.published, h.nextSnapshotId, h.made, fun m hm => ?_, _,
    setCaller_calls_self hc, .inl ⟨rfl, ?_, ?_, _, rfl, rfl⟩⟩
  · rw [State.setCaller_calls_ne fun he => hm (Option.some.inj he).symm]
    exact h.calls m hm
  · rcases hplace with ⟨hp, -⟩ | ⟨-, hr, -, -⟩
    · cases (hwait.symm.trans hp)
    · exact hr.trans hu
  · rcases hplace with ⟨hp, -⟩ | ⟨-, -, -, ⟨-, h2⟩ | ⟨h0, -⟩⟩
    · cases (hwait.symm.trans hp)
    · exact h2
    · cases (hsnap.symm.trans h0)

/-- the call fails -/
theorem failOwn (h : Apart c s r) (hcov : Covered s) (ho : s.snapshot.isSome = true)
    (ha : s.alone = some c) {t : Transaction χ ω δ} (hu : s.update = some (.update t))
    (hcaller : t.caller = some c) : Apart c ((s.giveBack t).setCaller (some c) .failed) r := by
  obtain ⟨call, hc, hplace⟩ := h.place
  obtain ⟨call', hc', hflushing⟩ := hcov.caller t c hu hcaller
  cases (hc.symm.trans hc')
  obtain ⟨call', hc', hown⟩ := hcov.own c ha ho
  cases (hc.symm.trans hc')
  rcases hplace with ⟨-, hr, hprev, -⟩ | ⟨hp, -⟩
  · refine ⟨h.snapshot, h.published, h.nextSnapshotId, h.made, fun m hm => ?_, _,
      setCaller_calls_self hc, .inr ⟨.inr rfl, hr, nofun, .inl ⟨?_, hprev⟩⟩⟩
    · rw [State.setCaller_calls_ne fun he => hm (Option.some.inj he).symm]
      exact h.calls m hm
    · rcases hown with ⟨hp, -⟩ | ⟨-, h1, h2⟩
      · rcases hp with hp | hp <;> exact nomatch (hflushing.symm.trans hp)
      · rw [Covered.flightOptions_of hu] at h1
        exact (restore_inferred _ _).trans (by rw [h1, h2]; rfl)
  · rcases hp with hp | hp <;> exact nomatch (hflushing.symm.trans hp)

/-- the call fails on a closed session -/
theorem failClosed (h : Apart c s r) (hw : s.phase c = some .waiting) :
    Apart c (s.setCaller (some c) .failed) r := by
  obtain ⟨call, hc, hplace⟩ := h.place
  have hwait : call.phase = .waiting := by
    rw [State.phase, hc] at hw
    exact Option.some.inj hw
  refine ⟨h.snapshot, h.published, h.nextSnapshotId, h.made, fun m hm => ?_, _,
    setCaller_calls_self hc, ?_⟩
  · rw [State.setCaller_calls_ne fun he => hm (Option.some.inj he).symm]
    exact h.calls m hm
  · rcases hplace with ⟨hp, -⟩ | ⟨-, h1, h2, h3⟩
    · cases (hwait.symm.trans hp)
    · exact .inr ⟨.inr rfl, h1, h2, h3⟩

theorem refuse (h : Apart c s r) {n : Nat} {options : ω} (hn : n ≠ c) :
    Apart c (s.refuse n options) (r.refuse n options) := by
  obtain ⟨call, hc, hplace⟩ := h.place
  refine ⟨h.snapshot, h.published, h.nextSnapshotId, le_rfl, fun m hm => ?_, call, ?_, hplace⟩
  · show Function.update r.calls n _ m = Function.update s.calls n _ m
    rw [h.published]
    by_cases he : m = n
    · subst he
      rw [Function.update_self, Function.update_self]
    · rw [Function.update_of_ne he, Function.update_of_ne he, h.calls m hm]
  · exact (Function.update_of_ne (Ne.symm hn) _ _).trans hc

theorem closeSnapshot (h : Apart c s r) (hu : s.update = none) :
    Apart c { s with snapshot := none, update := some .closing }
      { r with snapshot := none, update := some .closing } := by
  obtain ⟨call, hc, ⟨-, -, -, t, ht, -⟩ | ⟨hp, -, -, hq⟩⟩ := h.place
  · exact nomatch (hu.symm.trans ht)
  refine ⟨rfl, h.published, h.nextSnapshotId, h.made, h.calls, call, hc,
    .inr ⟨hp, rfl, nofun, ?_⟩⟩
  rcases hq with hq | ⟨-, hq⟩
  · exact .inl hq
  · exact .inr ⟨rfl, hq⟩

theorem closePending (h : Apart c s r) (hu : s.update = some .closing) (hs : s.snapshot = none) :
    Apart c { s with pending := Pending.default, update := none }
      { r with pending := Pending.default, update := none } := by
  obtain ⟨call, hc, ⟨-, -, -, t, ht, -⟩ | ⟨hp, -, -, -⟩⟩ := h.place
  · exact nomatch (hu.symm.trans ht)
  exact ⟨h.snapshot, h.published, h.nextSnapshotId, h.made, h.calls, call, hc,
    .inr ⟨hp, rfl, nofun, .inr ⟨hs, rfl, rfl⟩⟩⟩

/-- a call that is alone waits, flushes, or has failed -/
theorem lost_of (h : Apart c s r) (hcov : Covered s) {s1 : State χ ω δ} (halone : s1.alone ≠ some c)
    (hmade : s.made ≤ s1.made) (hcalls : s1.calls c = s.calls c)
    (hf : s.phase c ≠ some .failed) : Lost c s1 := by
  obtain ⟨call, hc, hplace⟩ := h.place
  have hnf : call.phase ≠ .failed := by
    rw [State.phase, hc] at hf
    exact fun hp => hf (congrArg some hp)
  refine ⟨halone, lt_of_lt_of_le (hcov.number c call hc).2.1 hmade, call, hcalls.trans hc, ?_⟩
  rcases hplace with ⟨hp, -⟩ | ⟨hp | hp, -⟩
  · exact .inr (.inl hp)
  · exact .inl hp
  · exact absurd hp hnf

end Apart

section
variable {c : Nat} {s s1 r : State χ ω δ}

/-- what a step can lead to while the call is alone: the run without the call follows, or the call has
returned an error and left no trace, or it is lost -/
def Follows (c : Nat) (a : Action χ ω δ) (s1 r : State χ ω δ) : Prop :=
  (∃ r1, stepWithout c a r = some r1 ∧ ((s1.alone = some c ∧ Apart c s1 r1) ∨
    (s1.phase c = some (.returned false) ∧ s1.effectiveOptions = r1.effectiveOptions))) ∨
  Lost c s1

/-- a step that belongs to no call -/
theorem apart_notified {a : Action χ ω δ} (h : Apart c s r) (ha : a.notifies = true)
    (hstep : step a s = some s1) : ∃ r1, stepWithout c a r = some r1 ∧ Apart c s1 r1 := by
  cases a with
  | enqueue change => exact ⟨_, rfl, Option.some.inj hstep ▸ h.accept _⟩
  | didChangeWatchedFiles events => exact ⟨_, rfl, Option.some.inj hstep ▸ h.accept _⟩
  | setValidationEnabled enabled => exact ⟨_, rfl, Option.some.inj hstep ▸ h.stageOpen _ fun _ => rfl⟩
  | setCustomConfigFileName name => exact ⟨_, rfl, Option.some.inj hstep ▸ h.stageOpen _ fun _ => rfl⟩
  | setDisableAutomaticTypeAcquisition =>
    exact ⟨_, rfl, Option.some.inj hstep ▸ h.stageOpen _ fun _ => rfl⟩
  | setContentMapperContributions contributions =>
    exact ⟨_, rfl, Option.some.inj hstep ▸ h.stage _ fun _ => rfl⟩
  | setLocale => exact ⟨_, rfl, Option.some.inj hstep ▸ h.stage _ fun _ => rfl⟩
  | receiveTypings project change =>
    rw [step] at hstep
    split at hstep
    next => cases hstep
    next hu =>
      cases hstep
      rw [Bool.not_eq_true, Option.isSome_eq_false_iff, Option.isNone_iff_eq_none] at hu
      have hr : r.update = none := (h.update_free fun t ht => by rw [hu] at ht; cases ht).trans hu
      refine ⟨_, ?_, h.stageOpen _ fun _ => rfl⟩
      show (if r.update.isSome then none else _) = _
      rw [hr]
      rfl
  | _ => exact absurd ha Bool.false_ne_true

/-- a step while the call is alone -/
theorem apart_step {a : Action χ ω δ} (hs : Sound s) (ha : s.alone = some c) (h : Apart c s r)
    (hgood : undisturbed a s = true) (hstep : step a s = some s1) : Follows c a s1 r := by
  have hcov := hs.covered
  obtain ⟨own, hown, -⟩ := h.place
  have hlt := (hcov.number c own hown).2.1
  -- a step that both can take
  have both : ∀ {s1 : State χ ω δ} {a} r1, stepWithout c a r = some r1 → s1.alone = s.alone →
      Apart c s1 r1 → Follows c a s1 r := fun r1 hr halone hap => .inl ⟨r1, hr, .inl ⟨halone.trans ha, hap⟩⟩
  have hfree : s.update = none → r.update = none := fun hu =>
    (h.update_free fun t ht => by rw [hu] at ht; cases ht).trans hu
  have hnf : aloneFailed s = false → s.phase c ≠ some .failed := by
    intro h0 hp
    rw [State.phase, hown] at hp
    exact hcov.none_failed h0 hown (Option.some.inj hp)
  have hmay : s.update = none → mayStart r none = true := by
    intro hu
    rw [mayStart, hfree hu]
    rfl
  cases step_moves hstep with
  | keeps hn =>
    obtain ⟨r1, hr, hap⟩ := apart_notified h hn hstep
    exact both r1 hr rfl hap
  | admits hn =>
    obtain ⟨r1, hr, hap⟩ := apart_notified h hn hstep
    exact both r1 hr rfl hap
  | @refuse n options hn hclosed =>
    have hne : n ≠ c := by omega
    refine both _ ?_ rfl (h.refuse (n := n) hne)
    show (if decide (n = c) then some r else applyInferredOptions r n options) = _
    rw [decide_eq_false hne]
    show applyInferredOptions r n options = _
    rw [applyInferredOptions, if_neg (by have := h.made; omega), h.snapshot, hclosed]
    rfl
  | @replace n options hn ho =>
    rw [undisturbed, Option.isNone_eq_false_iff.2 ho, Bool.false_or, Bool.not_eq_true'] at hgood
    refine .inr (h.lost_of hcov (fun he => ?_) (by show s.made ≤ n + 1; omega) ?_ (hnf hgood))
    · have : n = c := Option.some.inj he
      omega
    · exact Function.update_of_ne (by omega) _ _
  | @closed caller staleTimer needed hu hw hclosed =>
    rw [undisturbed, hclosed] at hgood
    by_cases hcaller : caller = some c
    · subst hcaller
      exact .inl ⟨r, if_pos (by simp [ofCall]), .inl ⟨ha, h.failClosed (hw c rfl)⟩⟩
    · have h0 : caller = none := by
        cases caller with
        | none => rfl
        | some m =>
          have hm : s.alone = some m := by simpa using hgood
          exact absurd (hm.symm.trans ha) hcaller
      subst h0
      refine both r ?_ rfl h
      show start r none staleTimer needed = some r
      rw [start, hmay hu, h.snapshot, hclosed]
      rfl
  | @stale needed hu ho =>
    obtain ⟨previous, hsnap⟩ := Option.isSome_iff_exists.1 ho
    refine both r ?_ rfl h
    show start r none true needed = some r
    rw [start, hmay hu, h.snapshot, hsnap]
    rfl
  | empty hu hw ho he =>
    obtain ⟨call, hc, ⟨-, h1⟩ | ⟨-, h1, -⟩⟩ := hcov.own c ha ho
    · simp only [Pending.isEmpty, Bool.and_eq_true, Option.isNone_iff_eq_none] at he
      cases (h1.symm.trans he.1.1.1.2)
    · rw [Covered.flightOptions_free fun t ht => by rw [hu] at ht; cases ht] at h1
      cases h1
  | @take caller staleTimer needed previous hu hw hsnap =>
    rw [undisturbed, hsnap] at hgood
    by_cases hcaller : caller = some c
    · subst hcaller
      refine .inl ⟨r, if_pos (by simp [ofCall]), .inl ⟨?_, h.take hsnap hu (hw c rfl)⟩⟩
      show aloneAfter s.alone (some c) = some c
      rw [aloneAfter, if_pos ha, ha]
    · refine .inr (h.lost_of hcov ?_ (by rw [State.setCaller_made]; exact le_rfl)
        (State.setCaller_calls_ne hcaller) (hnf (by simpa using hgood)))
      rw [State.setCaller_alone]
      show aloneAfter s.alone caller ≠ some c
      rw [aloneAfter, ha, if_neg fun he => hcaller he.symm]
      intro h; cases h
  | @publish t hu =>
    have ho := hs.accounted.open_of_update hu
    by_cases hcaller : t.caller = some c
    · right
      refine ⟨?_, by rw [State.setCaller_made]; exact hlt, ?_⟩
      · rw [State.setCaller_alone]
        show (if s.alone = t.caller then none else s.alone) ≠ some c
        rw [if_pos (ha.trans hcaller.symm)]
        intro h; cases h
      · rw [hcaller]
        exact ⟨_, setCaller_calls_self hown, .inr (.inr rfl)⟩
    · have hr : r.update = some (.update t) :=
        (h.update_free fun t' ht' => by cases (hu.symm.trans ht'); exact hcaller).trans hu
      refine both _ ?_ ?_ (h.adopt ho hu hcaller)
      · rw [stepWithout, if_neg (by simpa [ofCall] using hcaller)]
        show publish r t.caller = _
        rw [publish, hr]
        exact if_pos rfl
      · rw [State.setCaller_alone]
        show (if s.alone = t.caller then none else s.alone) = s.alone
        exact if_neg fun he => hcaller (he.symm.trans ha)
  | @fail t hu =>
    have ho := hs.accounted.open_of_update hu
    by_cases hcaller : t.caller = some c
    · left
      refine ⟨r, if_pos (by simpa [ofCall] using hcaller), .inl ⟨?_, ?_⟩⟩
      · rw [State.setCaller_alone]
        show (if t.pending.inferred.isSome then aloneAfter s.alone t.caller else s.alone) = some c
        rw [hcaller, ha, aloneAfter, if_pos rfl, ite_self]
      · rw [hcaller]
        exact h.failOwn hcov ho ha hu hcaller
    · have h0 : t.caller = none := by
        cases hm : t.caller with
        | none => rfl
        | some m =>
          rw [hm] at hgood
          have : s.alone = some m := of_decide_eq_true hgood
          exact absurd (hm.trans (this.symm.trans ha)) hcaller
      have hr : r.update = some (.update t) :=
        (h.update_free fun t' ht' => by cases (hu.symm.trans ht'); exact hcaller).trans hu
      cases hi : t.pending.inferred with
      | none =>
        refine both (r.giveBack t) ?_ ?_ ?_
        · rw [stepWithout, if_neg (by simpa [ofCall] using hcaller)]
          show fail r t.caller = _
          rw [fail, hr]
          simp only [if_true, h0]
          rfl
        · rw [State.setCaller_alone]
          show (if t.pending.inferred.isSome then aloneAfter s.alone t.caller else s.alone) = s.alone
          rw [hi]
          rfl
        · rw [h0]
          exact h.giveBack ho hu h0 hi
      | some v =>
        refine .inr (h.lost_of hcov ?_ (by rw [State.setCaller_made]; exact le_rfl)
          (State.setCaller_calls_ne hcaller) fun hp => ?_)
        · rw [State.setCaller_alone]
          show (if t.pending.inferred.isSome then aloneAfter s.alone t.caller else s.alone) ≠ some c
          rw [hi, h0, ha]
          intro h; cases h
        · rw [State.phase, hown] at hp
          exact (hcov.failed c own hown (Option.some.inj hp)).2 t hu
  | @settle n call hc hf =>
    have hn : n = c := Option.some.inj ((hcov.failed n call hc hf).1.symm.trans ha)
    subst hn
    refine .inl ⟨r, if_pos (by simp [ofCall]), .inr ⟨?_, h.effective hc hf⟩⟩
    show ((((s.revert n call).setCaller (some n) (.returned false)).calls n).map Call.phase) = _
    rw [setCaller_calls_self (s := s.revert n call) hc]
    rfl
  | closeSnapshot hu =>
    refine both _ ?_ rfl (h.closeSnapshot hu)
    show (if r.update.isSome then none else some _) = _
    rw [hfree hu]
    rfl
  | closePending hu =>
    have hr : r.update = some .closing :=
      (h.update_free fun t ht => by rw [hu] at ht; cases ht).trans hu
    refine both _ ?_ rfl (h.closePending hu (hs.accounted.late hu))
    show closePending r = _
    rw [closePending, hr]

theorem Lost.same (h : Lost c s) (ha : s1.alone ≠ some c) (hm : s.made ≤ s1.made)
    (hc : s1.calls c = s.calls c) : Lost c s1 :=
  ⟨ha, lt_of_lt_of_le h.made hm, hc.symm ▸ h.phase⟩

theorem aloneAfter_ne {alone caller : Option Nat} (h : alone ≠ some c) : aloneAfter alone caller ≠ some c := by
  rw [aloneAfter]
  split
  next => exact h
  next => intro h; cases h

/-- a call that is lost succeeds, if it returns -/
theorem lost_step {a : Action χ ω δ} (h : Lost c s) (hgood : undisturbed a s = true)
    (hstep : step a s = some s1) : Lost c s1 := by
  have hlt := h.made
  obtain ⟨call, hc, hp⟩ := h.phase
  have hne : ∀ {p : Option Nat → Prop} [DecidablePred p] {caller : Option Nat},
      (if p caller then none else s.alone) ≠ some c := by
    intro p _ caller
    split
    next => intro h; cases h
    next => exact h.alone
  -- a phase of a call, with `alone` as it may be left
  have phase : ∀ {s2 : State χ ω δ} {caller p}, s2.alone ≠ some c → s.made ≤ s2.made →
      s2.calls = s.calls → (caller = some c → p = .flushing ∨ p = .returned true) →
      Lost c (s2.setCaller caller p) := by
    intro s2 caller p halone hmade hcalls hphase
    refine ⟨by rwa [State.setCaller_alone], by rw [State.setCaller_made]; omega, ?_⟩
    by_cases hcaller : caller = some c
    · rw [hcaller]
      exact ⟨_, setCaller_calls_self (s := s2) (hcalls ▸ hc), .inr (hphase hcaller)⟩
    · rw [State.setCaller_calls_ne hcaller, hcalls]
      exact h.phase
  cases step_moves hstep with
  | keeps => exact h.same h.alone le_rfl rfl
  | admits => exact h.same h.alone le_rfl rfl
  | @refuse n options hn =>
    exact h.same h.alone (by show s.made ≤ n + 1; omega) (Function.update_of_ne (by omega) _ _)
  | @replace n options hn =>
    refine h.same (fun he => ?_) (by show s.made ≤ n + 1; omega) (Function.update_of_ne (by omega) _ _)
    have : n = c := Option.some.inj he
    omega
  | closed hu hw hclosed =>
    rw [undisturbed, hclosed] at hgood
    refine phase h.alone le_rfl rfl fun hcaller => absurd ?_ h.alone
    rw [hcaller] at hgood
    simpa using hgood
  | stale => exact h
  | empty => exact phase h.alone le_rfl rfl fun _ => .inr rfl
  | take => exact phase (aloneAfter_ne h.alone) le_rfl rfl fun _ => .inl rfl
  | publish => exact phase (hne (p := fun caller => s.alone = caller)) le_rfl rfl fun _ => .inr rfl
  | @fail t hu =>
    refine phase ?_ le_rfl rfl fun hcaller => ?_
    · show (if t.pending.inferred.isSome then aloneAfter s.alone t.caller else s.alone) ≠ some c
      split
      next => exact aloneAfter_ne h.alone
      next => exact h.alone
    · rw [hcaller] at hgood
      exact absurd (of_decide_eq_true hgood) h.alone
  | @settle n failing hn hf =>
    refine phase (hne (p := fun caller => s.alone = caller)) le_rfl rfl fun he => ?_
    cases he
    cases (hn.symm.trans hc)
    rcases hp with hp | hp | hp <;> cases (hf.symm.trans hp)
  | closeSnapshot => exact h.same h.alone le_rfl rfl
  | closePending => exact h.same h.alone le_rfl rfl

end

/-! ## whole runs -/

section
variable {c : Nat} {s s1 : State χ ω δ}

/-- an error stays returned -/
theorem returned_step {a : Action χ ω δ} (hs : Covered s) (h : s.phase c = some (.returned false))
    (hstep : step a s = some s1) : s1.phase c = some (.returned false) := by
  obtain ⟨call, hc, -⟩ := Option.map_eq_some_iff.1 h
  have hlt := (hs.number c call hc).2.1
  have other : ∀ {s2 : State χ ω δ} {caller p q}, s2.calls = s.calls →
      (∀ n, caller = some n → s.phase n = some q) → q ≠ .returned false →
      (s2.setCaller caller p).phase c = some (.returned false) := by
    intro s2 caller p q hcalls hcaller hq
    rw [State.phase, State.setCaller_calls_ne, hcalls]
    · exact h
    · exact fun he => hq (Option.some.inj ((hcaller c he).symm.trans h))
  have flushing : ∀ {t : Transaction χ ω δ}, s.update = some (.update t) → ∀ n, t.caller = some n →
      s.phase n = some .flushing := by
    intro t hu n hn
    obtain ⟨call, hc, hp⟩ := hs.caller t n hu hn
    rw [State.phase, hc]
    exact congrArg some hp
  cases step_moves hstep with
  | @refuse n =>
    refine (congrArg (Option.map Call.phase) ?_).trans h
    exact Function.update_of_ne (by omega) _ _
  | @replace n =>
    refine (congrArg (Option.map Call.phase) ?_).trans h
    exact Function.update_of_ne (by omega) _ _
  | closed hu hw => exact other rfl hw (by rintro ⟨⟩)
  | empty hu hw => exact other rfl hw (by rintro ⟨⟩)
  | take hu hw => exact other rfl hw (by rintro ⟨⟩)
  | publish hu => exact other rfl (flushing hu) (by rintro ⟨⟩)
  | fail hu => exact other rfl (flushing hu) (by rintro ⟨⟩)
  | settle hn hf =>
    refine other rfl (q := .failed) ?_ (by rintro ⟨⟩)
    rintro m ⟨⟩
    rw [State.phase, hn]
    exact congrArg some hf
  | _ => exact h

/-- a call that is alone has not returned -/
theorem Apart.not_returned {r : State χ ω δ} (h : Apart c s r) : s.phase c ≠ some (.returned false) := by
  obtain ⟨call, hc, hplace⟩ := h.place
  rw [State.phase, hc]
  intro h0
  have h0' : call.phase = .returned false := Option.some.inj h0
  rcases hplace with ⟨hp, -⟩ | ⟨hp | hp, -⟩ <;> cases (h0'.symm.trans hp)

theorem Lost.not_returned (h : Lost c s) : s.phase c ≠ some (.returned false) := by
  obtain ⟨call, hc, hp⟩ := h.phase
  rw [State.phase, hc]
  intro h0
  have h0' : call.phase = .returned false := Option.some.inj h0
  rcases hp with hp | hp | hp <;> cases (h0'.symm.trans hp)

/-- how a run stands to the run without the call: the call is still to come, it is alone, or it is
lost -/
inductive Beside (c : Nat) (s r : State χ ω δ) : Prop where
  | before (same : r = s) (none : s.calls c = none)
  | alone (ha : s.alone = some c) (h : Apart c s r)
  | lost (h : Lost c s)

/-- the call is made -/
theorem apart_replace (hs : Covered s) (hn : s.calls c = none) (options : ω) (hm : s.made ≤ c) :
    Apart c (s.replace c options) s := by
  refine ⟨rfl, rfl, rfl, by show s.made ≤ c + 1; omega,
    fun m hne => (Function.update_of_ne hne _ _).symm, _, Function.update_self _ _ _,
    .inr ⟨.inl rfl, rfl, fun t ht htc => ?_, .inl ⟨rfl, rfl⟩⟩⟩
  obtain ⟨call, hc, -⟩ := hs.caller t c ht htc
  exact nomatch (hn.symm.trans hc)

/-- no step but its own makes the call -/
theorem calls_none_step {a : Action χ ω δ} (hn : s.calls c = none) (hmine : ofCall c a = false)
    (hstep : step a s = some s1) : s1.calls c = none := by
  have other : ∀ {s2 : State χ ω δ} {caller p}, s2.calls = s.calls →
      decide (caller = some c) = false → (s2.setCaller caller p).calls c = none := by
    intro s2 caller p hcalls hne
    rw [State.setCaller_calls_ne (of_decide_eq_false hne), hcalls, hn]
  cases step_moves hstep with
  | refuse => exact (Function.update_of_ne (fun he => of_decide_eq_false hmine he.symm) _ _).trans hn
  | replace => exact (Function.update_of_ne (fun he => of_decide_eq_false hmine he.symm) _ _).trans hn
  | closed => exact other rfl hmine
  | empty => exact other rfl hmine
  | take => exact other rfl hmine
  | publish => exact other rfl hmine
  | fail => exact other rfl hmine
  | settle =>
    exact other rfl (decide_eq_false fun he => of_decide_eq_false hmine (Option.some.inj he))
  | _ => exact hn

/-- a step: the two runs stay beside each other, or the call returns an error that leaves no trace -/
theorem beside_step {a : Action χ ω δ} {r : State χ ω δ} (hs : Sound s) (h : Beside c s r)
    (hgood : undisturbed a s = true) (hstep : step a s = some s1) :
    (∃ r1, stepWithout c a r = some r1 ∧ (Beside c s1 r1 ∨
      (s1.phase c = some (.returned false) ∧ s1.effectiveOptions = r1.effectiveOptions))) ∨
    Lost c s1 := by
  cases h with
  | lost h => exact .inr (lost_step h hgood hstep)
  | alone ha h =>
    rcases apart_step hs ha h hgood hstep with ⟨r1, hr, ⟨ha1, h1⟩ | h1⟩ | h1
    · exact .inl ⟨r1, hr, .inl (.alone ha1 h1)⟩
    · exact .inl ⟨r1, hr, .inr h1⟩
    · exact .inr h1
  | before same hn =>
    subst same
    cases hmine : ofCall c a with
    | false =>
      refine .inl ⟨s1, ?_, .inl (.before rfl (calls_none_step hn hmine hstep))⟩
      rw [stepWithout, hmine]
      exact hstep
    | true =>
      have hr : stepWithout c a r = some r := if_pos hmine
      have hphase : r.phase c = none := by rw [State.phase, hn]; rfl
      have hwaits : ∀ {caller : Option Nat}, decide (caller = some c) = true →
          (∀ n, caller = some n → r.phase n = some .waiting) → False :=
        fun hm hw => Option.some_ne_none _ ((hw c (of_decide_eq_true hm)).symm.trans hphase)
      have hflushes : ∀ {t : Transaction χ ω δ}, decide (t.caller = some c) = true →
          r.update = some (.update t) → False := by
        intro t hm hu
        obtain ⟨call, hc, -⟩ := hs.covered.caller t c hu (of_decide_eq_true hm)
        cases hn.symm.trans hc
      cases step_moves hstep with
      | keeps ha => exact absurd ((ofCall_notifies ha).symm.trans hmine) Bool.false_ne_true
      | admits ha => exact absurd ((ofCall_notifies ha).symm.trans hmine) Bool.false_ne_true
      | @refuse n options =>
        obtain rfl : n = c := of_decide_eq_true hmine
        refine .inl ⟨r, hr, .inr ⟨?_, rfl⟩⟩
        show (Function.update r.calls n _ n).map Call.phase = _
        rw [Function.update_self]
        rfl
      | @replace n options hm =>
        obtain rfl : n = c := of_decide_eq_true hmine
        exact .inl ⟨r, hr, .inl (.alone rfl (apart_replace hs.covered hn options hm))⟩
      | closed hu hw => exact (hwaits hmine hw).elim
      | stale => cases hmine
      | empty hu hw => exact (hwaits hmine hw).elim
      | take hu hw => exact (hwaits hmine hw).elim
      | publish hu => exact (hflushes hmine hu).elim
      | fail hu => exact (hflushes hmine hu).elim
      | @settle n call hc =>
        obtain rfl : n = c := of_decide_eq_true hmine
        cases hn.symm.trans hc
      | closeSnapshot => cases hmine
      | closePending => cases hmine

/-- a run that ends with the call returning an error -/
theorem beside_run {a : Action χ ω δ} {as : List (Action χ ω δ)} {r s0 : State χ ω δ} (hs : Sound s)
    (h : Beside c s r) (hgood : along step undisturbed (as ++ [a]) s = true)
    (has : exec step as s = some s0) (hstep : step a s0 = some s1)
    (h0 : s0.phase c ≠ some (.returned false)) (h1 : s1.phase c = some (.returned false)) :
    ∃ r1, exec step (without c (as ++ [a])) r = some r1 ∧
      s1.effectiveOptions = r1.effectiveOptions := by
  induction as generalizing s r with
  | nil =>
    cases has
    rw [List.nil_append, along, Bool.and_eq_true] at hgood
    rcases beside_step hs h hgood.1 hstep with ⟨r1, hr, hb | hb⟩ | hl
    · cases hb with
      | before same hn =>
        rw [State.phase, hn] at h1
        cases h1
      | alone ha hap => exact absurd h1 hap.not_returned
      | lost hl => exact absurd h1 hl.not_returned
    · exact ⟨r1, exec_without_cons hr, hb.2⟩
    · exact absurd h1 hl.not_returned
  | cons b as ih =>
    obtain ⟨s2, hb, has'⟩ := (exec_cons step b as s s0).1 has
    rw [List.cons_append, along, Bool.and_eq_true, hb] at hgood
    obtain ⟨hgood1, hgood2⟩ := hgood
    have hs2 := sound_step hs hgood1 hb
    rcases beside_step hs h hgood1 hb with ⟨r2, hr, hb2 | ⟨hb2, -⟩⟩ | hl
    · obtain ⟨r1, hr1, heff⟩ := ih hs2 hb2 hgood2 has'
      exact ⟨r1, (exec_without_cons hr).trans hr1, heff⟩
    -- the call returned before the last step
    · have hinv := exec_invariant_along step undisturbed
        (fun s => Sound s ∧ s.phase c = some (.returned false))
        (fun _ _ _ hP hg hst => ⟨sound_step hP.1 hg hst, returned_step hP.1.covered hP.2 hst⟩) as s2 s0
        ⟨hs2, hb2⟩ (along_left step undisturbed as [a] s2 hgood2) has'
      exact absurd hinv.2 h0
    -- the call cannot have returned an error
    · have hend : exec step (as ++ [a]) s2 = some s1 := by
        rw [exec_append, has']
        exact (exec_cons step a [] s0 s1).2 ⟨s1, hstep, rfl⟩
      have hinv := exec_invariant_along step undisturbed (Lost c)
        (fun _ _ _ hP hg hst => lost_step hP hg hst) (as ++ [a]) s2 s1 hl hgood2 hend
      exact absurd h1 hinv.not_returned

end

/-- with the last step of the schedule call `n` returns, and leads to `s` -/
def ReturnsNow (id : Nat) (as : List (Action χ ω δ)) (n : Nat) (ok : Bool) (s : State χ ω δ) : Prop :=
  ∃ bs a s0, as = bs ++ [a] ∧ exec step bs (State.new id) = some s0 ∧ step a s0 = some s ∧
    s0.phase n ≠ some (.returned ok) ∧ s.phase n = some (.returned ok)

/-- **the inferred options of a run that meets the condition**: when a call returns success, a snapshot
published since it was made has its options or those of a later call, or those are still pending; when
it returns an error, the effective options are those of the run without it -/
theorem inferred_options_applied (id : Nat) (as : List (Action χ ω δ)) (s : State χ ω δ) (n : Nat)
    (hgood : along step undisturbed as (State.new id) = true) :
    (ReturnsNow id as n true s → ∃ call, s.calls n = some call ∧
      ((∃ next ∈ s.published.drop call.since, next.inferredOptions = some call.options) ∨
      (∃ next ∈ s.published.drop call.since, ∃ v, next.inferredOptions = some v ∧ n < v.ptr) ∨
      ∃ v, s.pending.inferred = some v ∧ n < v.ptr)) ∧
    (ReturnsNow id as n false s → ∃ r, exec step (without n as) (State.new id) = some r ∧
      s.effectiveOptions = r.effectiveOptions) := by
  constructor
  · rintro ⟨bs, a, s0, rfl, hbs, hstep, -, hret⟩
    have hrun : exec step (bs ++ [a]) (State.new id) = some s := by
      rw [exec_append, hbs]
      exact (exec_cons step a [] s0 s).2 ⟨s, hstep, rfl⟩
    have hs := sound_run hgood hrun
    obtain ⟨call, hc, hp⟩ := Option.map_eq_some_iff.1 hret
    obtain ⟨next, hnext, v, hv, hle⟩ := hs.covered.done n call hc hp
    refine ⟨call, hc, ?_⟩
    rcases Nat.eq_or_lt_of_le hle with heq | hlt
    · refine .inl ⟨next, hnext, ?_⟩
      have hown : v = call.options := hs.distinct.value v call.options
        (.published next (List.mem_of_mem_drop hnext) hv) (.own n call hc)
        (heq.symm.trans (hs.covered.number n call hc).1.symm)
      rw [hv, hown]
    · exact .inr (.inl ⟨next, hnext, v, hv, hlt⟩)
  · rintro ⟨bs, a, s0, rfl, hbs, hstep, h0, hret⟩
    exact beside_run (sound_new id) (.before rfl rfl) hgood hbs hstep h0 hret

/-- a call gets through while a notification comes in, a later one fails -/
def appliedSchedule : List (Action Unit Nat Unit) :=
  [.applyInferredOptions 0 7, .start (some 0) false false, .enqueue (savedChange "a"), .publish (some 0),
    .applyInferredOptions 1 8, .start (some 1) false false, .fail (some 1), .settle 1]

theorem inferred_options_applied_twice :
    (∃ s call, ReturnsNow 1 (appliedSchedule.take 4) 0 true s ∧ s.calls 0 = some call ∧
      ((∃ next ∈ s.published.drop call.since, next.inferredOptions = some call.options) ∨
      (∃ next ∈ s.published.drop call.since, ∃ v, next.inferredOptions = some v ∧ 0 < v.ptr) ∨
      ∃ v, s.pending.inferred = some v ∧ 0 < v.ptr)) ∧
    ∃ s r, ReturnsNow 1 appliedSchedule 1 false s ∧
      exec step (without 1 appliedSchedule) (State.new 1) = some r ∧
      s.effectiveOptions = r.effectiveOptions := by
  have hfirst : ∃ s, ReturnsNow 1 (appliedSchedule.take 4) 0 true s :=
    ⟨_, appliedSchedule.take 3, .publish (some 0), _, rfl, rfl, rfl, by decide, rfl⟩
  have hsecond : ∃ s, ReturnsNow 1 appliedSchedule 1 false s :=
    ⟨_, appliedSchedule.take 7, .settle 1, _, rfl, rfl, rfl, by decide, rfl⟩
  obtain ⟨s, hs⟩ := hfirst
  obtain ⟨s', hs'⟩ := hsecond
  obtain ⟨call, hc, h⟩ := (inferred_options_applied 1 (appliedSchedule.take 4) s 0 rfl).1 hs
  obtain ⟨r, hr, he⟩ := (inferred_options_applied 1 appliedSchedule s' 1 rfl).2 hs'
  exact ⟨⟨s, call, hs, hc, h⟩, s', r, hs', hr, he⟩

/-- another flush has taken the options of call `0` and fails while call `1` waits with newer ones;
call `1` fails too and puts back nothing; the flush of call `0` finds nothing to do -/
def lostSchedule : List (Action Unit Nat Unit) :=
  [.applyInferredOptions 0 7, .start none false false, .applyInferredOptions 1 8, .fail none,
    .start (some 1) false false, .fail (some 1), .settle 1, .start (some 0) false false]

theorem options_lost :
    (∃ s, ReturnsNow 1 lostSchedule 0 true s ∧ s.published = [] ∧ s.pending.inferred = none) ∧
    ∃ s r, ReturnsNow 1 (lostSchedule.take 7) 1 false s ∧
      exec step (without 1 (lostSchedule.take 7)) (State.new 1) = some r ∧
      s.effectiveOptions = none ∧ r.effectiveOptions = some ⟨0, 7⟩ := by
  refine ⟨⟨_, ⟨lostSchedule.take 7, .start (some 0) false false, _, rfl, rfl, rfl, ?_, rfl⟩, rfl, rfl⟩,
    _, _, ⟨lostSchedule.take 6, .settle 1, _, rfl, rfl, rfl, ?_, rfl⟩, rfl, rfl, rfl⟩
  · decide
  · decide

end Tsr.Project.Session
