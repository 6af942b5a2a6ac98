import Tsr.Project.OverlayGroups
import Tsr.Lib.Latch

/-!
# The flags of a file that stays open

* `Presence`                    what the watch events of a batch tell of the file on disk;
* `SaveStands`, `WatchStands`   a save, or a change on disk, that nothing behind it makes the batch forget;
* `flags_kept`                  the flags of the batch are these latches.
-/

namespace Tsr.Project
open Tsr.Lib.Latch

variable {E : Type}

/-! ## the flags of a file -/

/-- what the watch events tell of the file on disk since the batch began -/
inductive Presence where
  | asBefore
  | appeared
  | gone
deriving DecidableEq

def Presence.step : Presence → FileChangeKind → Presence
  | .gone, .watchCreate => .asBefore
  | .asBefore, .watchCreate => .appeared
  | .appeared, .watchDelete => .asBefore
  | .asBefore, .watchDelete => .gone
  | p, _ => p

def presence (es : List FileChange) : Presence := es.foldl (fun p c => p.step c.kind) .asBefore

theorem presence_snoc (es : List FileChange) (c : FileChange) :
    presence (es ++ [c]) = (presence es).step c.kind := by
  rw [presence, List.foldl_append]
  rfl

/-- a change, or a deletion on disk -/
def Touches (_ : List FileChange) (c : FileChange) : Prop := c.kind = .change ∨ c.kind = .watchDelete

/-- a watch event that is heeded: a change of a file that has not appeared in the batch -/
def Heeded (before : List FileChange) (c : FileChange) : Prop :=
  c.kind = .watchChange ∧ presence before ≠ .appeared

/-- a save, and behind it nothing that makes the batch forget it -/
def SaveStands : List FileChange → Prop :=
  Stands (fun _ c => c.kind = .save) fun before c => Touches before c ∨ Heeded before c

/-- a change on disk that is heeded, or a file that is created again, and behind it nothing that makes
the batch forget it -/
def WatchStands : List FileChange → Prop :=
  Stands (fun before c => Heeded before c ∨ c.kind = .watchCreate ∧ presence before = .gone) Touches

/-- neither opened nor closed -/
def Kept (es : List FileChange) : Prop := ∀ c ∈ es, c.kind ≠ .openFile ∧ c.kind ≠ .close

structure KeptFlags (es : List FileChange) (events : Events) : Prop where
  opened : events.opened = none
  close : events.close = false
  changes : events.changes = es.filter fun c => c.kind = .change
  saved : events.saved = true ↔ SaveStands es
  watched : events.watched = true ↔ WatchStands es
  created : events.created = true ↔ presence es = .appeared
  deleted : events.deleted = true ↔ presence es = .gone

theorem saveStands_snoc (es : List FileChange) (c : FileChange) : SaveStands (es ++ [c]) ↔
    c.kind = .save ∨ (¬ (Touches es c ∨ Heeded es c) ∧ SaveStands es) := stands_snoc es c

theorem watchStands_snoc (es : List FileChange) (c : FileChange) : WatchStands (es ++ [c]) ↔
    (Heeded es c ∨ c.kind = .watchCreate ∧ presence es = .gone) ∨ (¬ Touches es c ∧ WatchStands es) :=
  stands_snoc es c

theorem flags_of_snoc {es : List FileChange} {c : FileChange} {events : Events}
    (h : flags (E := E) (es ++ [c]) = .ok events) :
    ∃ before, flags (E := E) es = .ok before ∧ before.add (E := E) c = .ok events := by
  cases hes : flags (E := E) es with
  | error e =>
    rw [flags, List.foldlM_append] at h
    have hfold : es.foldlM Events.add Events.empty = .error e := hes
    rw [hfold] at h
    cases h
  | ok before =>
    rw [flags_snoc hes] at h
    exact ⟨before, rfl, h⟩

theorem filter_change_snoc (es : List FileChange) (c : FileChange) :
    (es ++ [c]).filter (fun c => c.kind = .change) =
      (es.filter fun c => c.kind = .change) ++ if c.kind = .change then [c] else [] := by
  rw [List.filter_append]
  congr 1
  rw [List.filter_cons, List.filter_nil]
  by_cases h : c.kind = .change
  · rw [if_pos h, if_pos (decide_eq_true h)]
  · rw [if_neg h, if_neg (by simpa using h)]

/-- **The flags of a file that stays open are latches.** -/
theorem flags_kept (es : List FileChange) (hkept : Kept es) {events : Events}
    (h : flags (E := E) es = .ok events) : KeptFlags es events := by
  induction es using List.reverseRecOn generalizing events with
  | nil =>
    cases h
    have hsave : ¬ SaveStands [] := not_stands_nil
    have hwatch : ¬ WatchStands [] := not_stands_nil
    refine ⟨rfl, rfl, rfl, ?_, ?_, ?_, ?_⟩
    · simp [Events.empty, hsave]
    · simp [Events.empty, hwatch]
    · simp [Events.empty, presence]
    · simp [Events.empty, presence]
  | append_singleton es c ih =>
    obtain ⟨before, hbefore, hadd⟩ := flags_of_snoc h
    have hf := ih (fun c' hc' => hkept c' (List.mem_append_left _ hc')) hbefore
    obtain ⟨hopen, hclose⟩ := hkept c (List.mem_append_right _ List.mem_cons_self)
    have hunopened : ¬ before.opened.isSome = true := by
      rw [hf.opened]
      exact Bool.false_ne_true
    have hcreated : before.created = decide (presence es = .appeared) := by
      rw [Bool.eq_iff_iff, decide_eq_true_iff]
      exact hf.created
    have hdeleted : before.deleted = decide (presence es = .gone) := by
      rw [Bool.eq_iff_iff, decide_eq_true_iff]
      exact hf.deleted
    have hsaves := saveStands_snoc es c
    have hwatches := watchStands_snoc es c
    have hpresence := presence_snoc es c
    rw [Events.add, if_neg hunopened, hf.close, hcreated, hdeleted] at hadd
    -- the kind of the change and what is known of the file decide the flags
    cases hkind : c.kind with
    | openFile => exact absurd hkind hopen
    | close => exact absurd hkind hclose
    | _ =>
      cases hp : presence es <;>
      · rw [hkind, hp] at hadd
        simp [hkind, hp, Touches, Heeded, Presence.step, ← hf.saved, ← hf.watched] at hsaves hwatches
        simp [hkind, hp, Presence.step] at hpresence
        cases hadd
        constructor <;>
        simp [hf.opened, hf.close, hf.changes, List.filter_cons, hkind, hsaves, hwatches, hpresence,
          hcreated, hdeleted, hp]

end Tsr.Project
