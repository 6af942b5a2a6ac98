import Tsr.Project.Session

/-!
# The session: file changes

Every change that is admitted stands in one of three places: it was handed to a published snapshot, it
is with the update on its way, or it waits in the queue; read in this order, the three give back the
order of admission.  `close` drops what waits.

* `Accounted`               the invariant, with what a closed session has lost;
* `closed_step`             a closed session stays closed and takes nothing;
* `changes_handed_once`     **the result**.
-/

namespace Tsr.Project.Session
open Tsr.Lib.Run

variable {χ ω δ : Type}

namespace State

/-- the changes that an update has taken and not yet settled -/
def inFlight (s : State χ ω δ) : List (FileChange χ) :=
  match s.update with
  | some (.update t) => t.pending.changes
  | _ => []

/-! ## what a step leaves alone -/

variable (s : State χ ω δ) (n : Nat) (caller : Option Nat) (p : Phase)

@[simp] theorem setCaller_snapshot : (s.setCaller caller p).snapshot = s.snapshot := by
  cases caller <;> rfl

@[simp] theorem setCaller_update : (s.setCaller caller p).update = s.update := by
  cases caller <;> rfl

@[simp] theorem setCaller_pending : (s.setCaller caller p).pending = s.pending := by
  cases caller <;> rfl

@[simp] theorem setCaller_accepted : (s.setCaller caller p).accepted = s.accepted := by
  cases caller <;> rfl

@[simp] theorem setCaller_handed : (s.setCaller caller p).handed = s.handed := by
  cases caller <;> rfl

@[simp] theorem setCaller_published : (s.setCaller caller p).published = s.published := by
  cases caller <;> rfl

@[simp] theorem setCaller_made : (s.setCaller caller p).made = s.made := by cases caller <;> rfl

@[simp] theorem setCaller_nextSnapshotId :
    (s.setCaller caller p).nextSnapshotId = s.nextSnapshotId := by
  cases caller <;> rfl

@[simp] theorem setCaller_alone : (s.setCaller caller p).alone = s.alone := by cases caller <;> rfl

end State

/-- the three places, and what a closed session has dropped -/
structure Accounted (s : State χ ω δ) : Prop where
  live : s.snapshot.isSome = true →
    s.handed.flatten ++ (s.inFlight ++ s.pending.changes) = s.accepted
  closed : s.snapshot = none → s.handed.flatten <+: s.accepted ∧ ∀ t, s.update ≠ some (.update t)
  late : s.update = some .closing → s.snapshot = none

namespace Accounted

variable {s s' : State χ ω δ}

/-- a step that moves no change -/
theorem same (h : Accounted s) (hs : s'.snapshot = s.snapshot) (hu : s'.update = s.update)
    (hp : s'.pending.changes = s.pending.changes) (ha : s'.accepted = s.accepted)
    (hh : s'.handed = s.handed) : Accounted s' := by
  have hf : s'.inFlight = s.inFlight := by rw [State.inFlight, State.inFlight, hu]
  exact ⟨by rw [hs, hf, hp, ha, hh]; exact h.live, by rw [hs, hu, ha, hh]; exact h.closed,
    by rw [hu, hs]; exact h.late⟩

theorem admits (h : Accounted s) (hs : s.snapshot.isSome = true) (changes : List (FileChange χ)) :
    Accounted { s with
      pending := { s.pending with changes := s.pending.changes ++ changes }
      accepted := s.accepted ++ changes } := by
  refine ⟨fun _ => ?_, fun h0 => ?_, h.late⟩
  · show s.handed.flatten ++ (s.inFlight ++ (s.pending.changes ++ changes)) = s.accepted ++ changes
    rw [← h.live hs]
    simp only [List.append_assoc]
  · rw [show s.snapshot = none from h0] at hs
    cases hs

theorem setCaller (h : Accounted s) (caller : Option Nat) (phase : Phase) :
    Accounted (s.setCaller caller phase) :=
  h.same (by simp) (by simp) (by simp) (by simp) (by simp)

/-- the queue changes hands -/
theorem take (h : Accounted s) (hfree : s.update = none) {previous : Snapshot ω δ}
    (hs : s.snapshot = some previous) (caller : Option Nat) : Accounted (s.take caller previous) := by
  refine ⟨fun _ => ?_, fun h0 => absurd (hs.symm.trans h0) (by simp), nofun⟩
  have hlive := h.live (by rw [hs]; rfl)
  rw [State.inFlight, hfree, List.nil_append] at hlive
  show s.handed.flatten ++ (s.pending.changes ++ []) = s.accepted
  rw [List.append_nil]
  exact hlive

/-- an update runs only while the session is open -/
theorem open_of_update (h : Accounted s) {t : Transaction χ ω δ} (hu : s.update = some (.update t)) :
    s.snapshot.isSome = true := by
  rw [Option.isSome_iff_ne_none]
  intro h0
  exact (h.closed h0).2 t hu

theorem adopt (h : Accounted s) {t : Transaction χ ω δ} (hu : s.update = some (.update t)) :
    Accounted (s.adopt t) := by
  refine ⟨fun _ => ?_, nofun, nofun⟩
  have hlive := h.live (h.open_of_update hu)
  rw [State.inFlight, hu] at hlive
  show (s.handed ++ [t.pending.changes]).flatten ++ ([] ++ s.pending.changes) = s.accepted
  rw [← hlive, List.flatten_append, List.flatten_singleton, List.append_assoc]
  rfl

theorem giveBack (h : Accounted s) {t : Transaction χ ω δ} (hu : s.update = some (.update t)) :
    Accounted (s.giveBack t) := by
  refine ⟨fun _ => ?_, fun h0 => absurd hu ((h.closed h0).2 t), nofun⟩
  have hlive := h.live (h.open_of_update hu)
  rw [State.inFlight, hu] at hlive
  exact hlive

/-- an empty queue loses nothing by being taken -/
theorem changes_of_isEmpty {p : Pending χ ω δ} (h : p.isEmpty = true) : p.changes = [] := by
  simp only [Pending.isEmpty, Bool.and_eq_true, List.isEmpty_iff] at h
  exact h.1.1.1.1.2

theorem closeSnapshot (h : Accounted s) :
    Accounted { s with snapshot := none, update := some .closing } := by
  refine ⟨nofun, fun _ => ⟨?_, nofun⟩, fun _ => rfl⟩
  cases hsnap : s.snapshot with
  | none => exact (h.closed hsnap).1
  | some snapshot =>
    exact ⟨_, h.live (by rw [hsnap]; rfl)⟩

theorem closePending (h : Accounted s) (hu : s.update = some .closing) :
    Accounted { s with pending := Pending.default, update := none } := by
  have hnone := h.late hu
  refine ⟨fun h0 => ?_, fun _ => ⟨(h.closed hnone).1, nofun⟩, nofun⟩
  rw [show s.snapshot = none from hnone] at h0
  cases h0

theorem step {a : Action χ ω δ} (h : Accounted s) (hs : step a s = some s') : Accounted s' := by
  cases step_moves hs with
  | keeps ha p hi hc => exact h.same rfl rfl hc rfl rfl
  | admits ha changes ho => exact h.admits ho changes
  | refuse => exact h.same rfl rfl rfl rfl rfl
  | replace => exact h.same rfl rfl rfl rfl rfl
  | closed => exact h.setCaller _ _
  | stale => exact h
  | empty hu hw ho he =>
    refine Accounted.setCaller ?_ _ _
    exact h.same rfl rfl (changes_of_isEmpty he).symm rfl rfl
  | take hu hw hsnap => exact (h.take hu hsnap _).setCaller _ _
  | publish hu => exact (h.adopt hu).setCaller _ _
  | fail hu => exact (h.giveBack hu).setCaller _ _
  | settle =>
    refine h.same rfl rfl ?_ rfl rfl
    show (if _ then _ else _ : Pending χ ω δ).changes = s.pending.changes
    split <;> rfl
  | closeSnapshot => exact h.closeSnapshot
  | closePending hu => exact h.closePending hu

end Accounted

theorem accounted_new (id : Nat) : Accounted (State.new id : State χ ω δ) :=
  ⟨fun _ => rfl, nofun, nofun⟩

theorem accounted_run {id : Nat} {as : List (Action χ ω δ)} {s : State χ ω δ}
    (h : exec step as (State.new id) = some s) : Accounted s :=
  exec_invariant step Accounted (fun _ _ _ hs hstep => hs.step hstep) as _ s (accounted_new id) h

/-! ## after the end -/

/-- closed, with no update on its way, and with the same books as `s₀` -/
structure Ended (s₀ s : State χ ω δ) : Prop where
  snapshot : s.snapshot = none
  update : ∀ t, s.update ≠ some (.update t)
  accepted : s.accepted = s₀.accepted
  handed : s.handed = s₀.handed

theorem ended_step {a : Action χ ω δ} {s₀ s s' : State χ ω δ} (h : Ended s₀ s)
    (hs : step a s = some s') : Ended s₀ s' := by
  have same : s'.snapshot = s.snapshot → s'.update = s.update → s'.accepted = s.accepted →
      s'.handed = s.handed → Ended s₀ s' := by
    intro h1 h2 h3 h4
    exact ⟨h1.trans h.snapshot, h2 ▸ h.update, h3.trans h.accepted, h4.trans h.handed⟩
  have setCaller : ∀ caller p, Ended s₀ (s.setCaller caller p) := fun caller p =>
    ⟨by simpa using h.snapshot, by simpa using h.update, by simpa using h.accepted,
      by simpa using h.handed⟩
  have closed : s.snapshot.isSome ≠ true := by
    rw [h.snapshot]
    exact Bool.false_ne_true
  cases step_moves hs with
  | keeps => exact same rfl rfl rfl rfl
  | admits ha changes ho => exact absurd ho closed
  | refuse => exact same rfl rfl rfl rfl
  | replace hn ho => exact absurd ho closed
  | closed => exact setCaller _ _
  | stale => exact h
  | empty hu hw ho he => exact absurd ho closed
  | take hu hw hsnap => exact nomatch (hsnap.symm.trans h.snapshot)
  | publish hu => exact absurd hu (h.update _)
  | fail hu => exact absurd hu (h.update _)
  | settle => exact same rfl rfl rfl rfl
  | closeSnapshot => exact ⟨rfl, nofun, h.accepted, h.handed⟩
  | closePending => exact ⟨h.snapshot, nofun, h.accepted, h.handed⟩

/-- **the file changes of a session**: while it is open they are handed on in the order of admission,
each once; a closed session has handed on the first ones, and neither takes nor hands on any more; an
update that fails puts its changes back in front and leaves the snapshot -/
theorem changes_handed_once (id : Nat) (as : List (Action χ ω δ)) (s : State χ ω δ)
    (h : exec step as (State.new id) = some s) :
    (s.snapshot.isSome = true →
      s.handed.flatten ++ (s.inFlight ++ s.pending.changes) = s.accepted) ∧
    (s.snapshot = none → s.handed.flatten <+: s.accepted ∧
      ∀ bs s', exec step bs s = some s' → s'.snapshot = none ∧ s'.accepted = s.accepted ∧
        s'.handed = s.handed) ∧
    ∀ caller s', step (.fail caller) s = some s' → s'.pending.changes = s.inFlight ++ s.pending.changes ∧
      s'.snapshot = s.snapshot ∧ s'.published = s.published ∧ s'.handed = s.handed := by
  have hacc := accounted_run h
  refine ⟨hacc.live, fun hn => ⟨(hacc.closed hn).1, fun bs s' hb => ?_⟩, fun caller s' hf => ?_⟩
  · have hend : Ended s s' := exec_invariant step (Ended s) (fun _ _ _ => ended_step) bs s s'
      ⟨hn, (hacc.closed hn).2, rfl, rfl⟩ hb
    exact ⟨hend.snapshot, hend.accepted, hend.handed⟩
  · obtain ⟨t, hu, -, rfl⟩ := fail_cases hf
    rw [State.inFlight, hu]
    simp [State.giveBack, restore]

def savedChange (uri : String) : FileChange Unit := ⟨.save, uri, none⟩

/-- a failed update between two changes, then one that gets through -/
def retrySchedule : List (Action Unit Unit Unit) :=
  [.enqueue (savedChange "a"), .start none false false, .enqueue (savedChange "b"), .fail none,
    .start none false false, .publish none]

theorem changes_handed_once_retry :
    ∃ s, exec step retrySchedule (State.new 1) = some s ∧
      s.handed = [[savedChange "a", savedChange "b"]] ∧
      s.handed.flatten ++ (s.inFlight ++ s.pending.changes) = s.accepted :=
  ⟨_, rfl, rfl, (changes_handed_once 1 retrySchedule _ rfl).1 rfl⟩

/-- a change that waits when the session closes is never handed on -/
theorem change_dropped_by_close :
    ∃ s : State Unit Unit Unit, exec step [.enqueue (savedChange "a"), .closeSnapshot, .closePending]
        (State.new 1) = some s ∧ s.accepted = [savedChange "a"] ∧
      ∀ bs s', exec step bs s = some s' → s'.accepted = [savedChange "a"] ∧ s'.handed.flatten = [] := by
  refine ⟨_, rfl, rfl, fun bs s' hb => ?_⟩
  have hend := exec_invariant step (Ended _) (fun _ _ _ => ended_step) bs _ s'
    ⟨rfl, fun t ht => absurd ht (by intro h; cases h), rfl, rfl⟩ hb
  exact ⟨hend.accepted, by rw [hend.handed]; rfl⟩

end Tsr.Project.Session
