import Tsr.Project.SessionQueue

/-!
# The session: settings and snapshots

A setting waits in the queue, goes with an update, and stands in the snapshot that the update publishes;
an update that fails puts it back behind what has been set since.

* `Settings.after`      what an action sets;
* `Pending.inFront`     the settings of a queue in front of others;
* `Current`             the invariant: queue, update and snapshot hold the last value together, and every
                        snapshot is made from the one before;
* `settings_kept`, `snapshots_chained`  **the results**.
-/

namespace Tsr.Project.Session
open Tsr.Lib.Run

variable {χ ω δ : Type}

structure Settings (δ : Type) where
  customConfigFileName : String
  contributions : Option δ
  validationEnabled : Bool
deriving DecidableEq

namespace Settings

/-- those of a new session -/
def initial : Settings δ := ⟨"", none, true⟩

def after (c : Settings δ) : Action χ ω δ → Settings δ
  | .setValidationEnabled enabled => { c with validationEnabled := enabled }
  | .setCustomConfigFileName name => { c with customConfigFileName := name }
  | .setContentMapperContributions contributions => { c with contributions := some contributions }
  | _ => c

end Settings

def Snapshot.settings (old : Snapshot ω δ) : Settings δ :=
  ⟨old.customConfigFileName, old.contributions, old.validationEnabled⟩

namespace Pending

/-- what is set in the queue, and else the settings `c` -/
def inFront (p : Pending χ ω δ) (c : Settings δ) : Settings δ where
  customConfigFileName := p.customName.getD c.customConfigFileName
  contributions := p.contributions.or c.contributions
  validationEnabled := p.validationEnabled.getD c.validationEnabled

theorem inFront_of_isEmpty {p : Pending χ ω δ} (h : p.isEmpty = true) (c : Settings δ) : p.inFront c = c := by
  simp only [isEmpty, Bool.and_eq_true, Option.isNone_iff_eq_none] at h
  obtain ⟨⟨⟨-, hname⟩, hvalidation⟩, hcontributions⟩ := h
  rw [inFront, hname, hvalidation, hcontributions]
  rfl

/-- the queue that is put back stands behind the one that has grown since -/
theorem restore_inFront (failed queued : Pending χ ω δ) (c : Settings δ) :
    (restore failed queued).inFront c = queued.inFront (failed.inFront c) := by
  show Settings.mk (Option.getD (ite _ _ _) _) (Option.or (ite _ _ _) _) (Option.getD (ite _ _ _) _) = _
  rw [inFront]
  cases queued.customName <;> cases queued.contributions <;> cases queued.validationEnabled <;> rfl

end Pending

namespace State

/-- the queue that an update has taken -/
def underway (s : State χ ω δ) : Pending χ ω δ :=
  match s.update with
  | some (.update t) => t.pending
  | _ => Pending.default

/-- the settings of the session, whose snapshot is `latest` -/
def current (s : State χ ω δ) (latest : Snapshot ω δ) : Settings δ :=
  s.pending.inFront (s.underway.inFront latest.settings)

end State

/-- a snapshot made from the one before, under a later number -/
def DerivedFrom (χ : Type) (previous next : Snapshot ω δ) : Prop :=
  previous.id < next.id ∧ ∃ pending : Pending χ ω δ, next = deriveSnapshot next.id previous pending

/-- the settings of an open session are `c`; an update starts from its snapshot, and the snapshots are a
chain that it continues -/
structure Current (first : Snapshot ω δ) (c : Settings δ) (s : State χ ω δ) : Prop where
  settings : ∀ latest, s.snapshot = some latest → s.current latest = c
  base : ∀ t, s.update = some (.update t) → s.snapshot = some t.old
  chain : List.IsChain (DerivedFrom χ) (first :: s.published)
  last : ∀ latest, s.snapshot = some latest →
    (first :: s.published).getLast? = some latest ∧ latest.id < s.nextSnapshotId

namespace Current

variable {first : Snapshot ω δ} {c : Settings δ} {s s' : State χ ω δ}

theorem setCaller (h : Current first c s) (caller : Option Nat) (p : Phase) : Current first c (s.setCaller caller p) := by
  cases caller with
  | none => exact h
  | some n => exact { h with }

theorem stage (h : Current first c s) {a : Action χ ω δ} {f : Pending χ ω δ → Pending χ ω δ}
    (hf : ∀ d, (f s.pending).inFront d = (s.pending.inFront d).after a) : Current first (c.after a) (s.stage f) := by
  refine { h with settings := fun latest hl => ?_ }
  show (f s.pending).inFront _ = c.after a
  rw [hf, ← h.settings latest hl]
  rfl

theorem stageOpen (h : Current first c s) {a : Action χ ω δ} {f : Pending χ ω δ → Pending χ ω δ}
    (hf : ∀ d, (f s.pending).inFront d = (s.pending.inFront d).after a) : Current first (c.after a) (s.stageOpen f) := by
  rw [State.stageOpen]
  split
  next hn => exact { h with settings := fun latest hl => by rw [hl] at hn; cases hn }
  next => exact h.stage hf

theorem accept (h : Current first c s) (changes : List (FileChange χ)) : Current first c (s.accept changes) := by
  rw [State.accept]
  split
  next => exact h
  next => exact { h with }

theorem notified (h : Current first c s) {a : Action χ ω δ} (ha : a.notifies = true)
    (hs : step a s = some s') : Current first (c.after a) s' := by
  cases a with
  | enqueue change =>
    cases hs
    exact h.accept _
  | didChangeWatchedFiles events =>
    cases hs
    exact h.accept _
  | setValidationEnabled enabled =>
    cases hs
    exact h.stageOpen fun _ => rfl
  | setCustomConfigFileName name =>
    cases hs
    exact h.stageOpen fun _ => rfl
  | setDisableAutomaticTypeAcquisition =>
    cases hs
    exact h.stageOpen fun _ => rfl
  | setContentMapperContributions contributions =>
    cases hs
    exact h.stage fun _ => rfl
  | setLocale =>
    cases hs
    exact h.stage fun _ => rfl
  | receiveTypings project change =>
    rw [Session.step] at hs
    split at hs
    next => cases hs
    next =>
      cases hs
      exact h.stageOpen fun _ => rfl
  | _ => exact absurd ha Bool.false_ne_true

theorem step {a : Action χ ω δ} (h : Current first c s) (hacc : Accounted s) (hs : step a s = some s') :
    Current first (c.after a) s' := by
  cases step_moves hs with
  | keeps ha => exact h.notified ha hs
  | admits ha => exact h.notified ha hs
  | refuse => exact { h with }
  | replace => exact { h with }
  | closed => exact h.setCaller _ _
  | stale => exact h
  | empty hu hw ho he =>
    refine setCaller (s := s.stage _) { h with settings := fun latest hl => ?_ } _ _
    rw [← h.settings latest hl]
    exact (Pending.inFront_of_isEmpty he _).symm
  | @take caller _ _ previous hu hw hsnap =>
    refine setCaller (s := s.take caller previous)
      { h with base := fun t ht => ?_, settings := fun latest hl => ?_ } _ _
    · rw [← h.settings latest hl, State.current, State.current, State.underway.eq_def s, hu]
      rfl
    · cases ht
      exact hsnap
  | @publish t hu =>
    have ho := h.base t hu
    have hc := h.settings t.old ho
    obtain ⟨hlast, hid⟩ := h.last t.old ho
    rw [State.current, State.underway, hu] at hc
    refine setCaller (s := s.adopt t) ⟨fun latest hl => ?_, fun t' ht => (by cases ht), ?_, fun latest hl => ?_⟩ _ _
    · cases hl
      exact hc
    · show List.IsChain (DerivedFrom χ) ((first :: s.published) ++ [_])
      refine List.isChain_append.2 ⟨h.chain, .singleton _, fun x hx y hy => ?_⟩
      cases hy
      cases (hlast.symm.trans hx)
      exact ⟨hid, t.pending, rfl⟩
    · cases hl
      refine ⟨?_, Nat.lt_succ_self _⟩
      show ((first :: s.published) ++ [_]).getLast? = _
      exact List.getLast?_concat
  | @fail t hu =>
    refine setCaller (s := s.giveBack t)
      { h with base := fun t' ht => (by cases ht), settings := fun latest hl => ?_ } _ _
    have hc := h.settings latest hl
    rw [State.current, State.underway, hu] at hc
    rw [← hc]
    exact Pending.restore_inFront _ _ _
  | @settle n call =>
    refine setCaller (s := s.revert n call) { h with settings := fun latest hl => ?_ } _ _
    rw [← h.settings latest hl]
    show (if _ then _ else _ : Pending χ ω δ).inFront _ = _
    split <;> rfl
  | closeSnapshot =>
    exact ⟨nofun, nofun, h.chain, nofun⟩
  | closePending hu =>
    refine { h with base := nofun, settings := fun latest hl => ?_ }
    exact nomatch ((hacc.late hu).symm.trans hl)

theorem run {as : List (Action χ ω δ)} (h : Current first c s) (hacc : Accounted s)
    (hs : exec Session.step as s = some s') : Current first (as.foldl Settings.after c) s' := by
  induction as generalizing c s with
  | nil =>
    cases hs
    exact h
  | cons a as ih =>
    obtain ⟨s1, h1, h2⟩ := (exec_cons Session.step a as s s').1 hs
    exact ih (h.step hacc h1) (hacc.step h1) h2

end Current

/-- the snapshot of a new session -/
def firstSnapshot (ω δ : Type) (id : Nat) : Snapshot ω δ := ⟨id, 0, none, "", none, true⟩

theorem current_run {id : Nat} {as : List (Action χ ω δ)} {s : State χ ω δ}
    (h : exec step as (State.new id) = some s) :
    Current (firstSnapshot ω δ id) (as.foldl Settings.after Settings.initial) s := by
  have hnew : Current (firstSnapshot ω δ id) Settings.initial (State.new id : State χ ω δ) :=
    ⟨fun latest hl => by cases hl; rfl, nofun, .singleton _,
      fun latest hl => by cases hl; exact ⟨rfl, Nat.lt_succ_self _⟩⟩
  exact hnew.run (accounted_new id) h

/-- **The settings of an open session** are the last ones set, whichever updates took them along, failed
or got through meanwhile: what waits in the queue, in front of what an update has taken, in front of the
snapshot.  So a session at rest has published them. -/
theorem settings_kept (id : Nat) (as : List (Action χ ω δ)) (s : State χ ω δ) (latest : Snapshot ω δ)
    (h : exec step as (State.new id) = some s) (ho : s.snapshot = some latest) :
    s.current latest = as.foldl Settings.after Settings.initial ∧
    (s.update = none → s.pending.isEmpty = true →
      latest.settings = as.foldl Settings.after Settings.initial) := by
  have hcurrent := (current_run h).settings latest ho
  refine ⟨hcurrent, fun hu he => ?_⟩
  rw [← hcurrent, State.current, State.underway, hu]
  exact (Pending.inFront_of_isEmpty he _).symm

/-- a name set while an update fails -/
def renamedSchedule : List (Action Unit Unit Unit) :=
  [.setCustomConfigFileName "a", .setValidationEnabled false, .start none false false,
    .setCustomConfigFileName "b", .fail none, .start none false false, .publish none]

theorem settings_kept_renamed : ∃ s latest, exec step renamedSchedule (State.new 1) = some s ∧
    s.snapshot = some latest ∧ latest.settings = ⟨"b", none, false⟩ := by
  refine ⟨_, _, rfl, rfl, ?_⟩
  exact (settings_kept 1 renamedSchedule _ _ rfl rfl).2 rfl rfl

/-- **The snapshots of a session** are a chain, whatever the schedule: each is derived from the one
published right before it, and the session has the last one. -/
theorem snapshots_chained (id : Nat) (as : List (Action χ ω δ)) (s : State χ ω δ)
    (h : exec step as (State.new id) = some s) :
    List.IsChain (DerivedFrom χ) (firstSnapshot ω δ id :: s.published) ∧
    ∀ latest, s.snapshot = some latest →
      (firstSnapshot ω δ id :: s.published).getLast? = some latest :=
  ⟨(current_run h).chain, fun latest hl => ((current_run h).last latest hl).1⟩

theorem snapshots_chained_renamed : ∃ s latest, exec step renamedSchedule (State.new 1) = some s ∧
    s.snapshot = some latest ∧
    (firstSnapshot Unit Unit 1 :: s.published).getLast? = some latest := by
  refine ⟨_, _, rfl, rfl, ?_⟩
  exact (snapshots_chained 1 renamedSchedule _ rfl).2 _ rfl

end Tsr.Project.Session
