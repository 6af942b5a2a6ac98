import Tsr.Project.OverlayGroups

/-!
# Watch events in the summary

The watch events of a file without an overlay, as a file system produces them, are summed up in three
flags.

* `produces`        the events that a file system produces, and whether the file is there behind them;
* `flags_watch`     the flags behind such events: they compare the file before with the file after;
* `watch_summary`   so do the sets of the summary.
-/

namespace Tsr.Project
open Tsr.Json (Bytes)
open Tsr.Lib.Result

variable {E H : Type} [DecidableEq H]

/-- a file is created when it is not there, and changed or deleted when it is -/
def fileSystem (present : Bool) : FileChangeKind → Option Bool
  | .watchCreate => if present then none else some true
  | .watchChange => if present then some true else none
  | .watchDelete => if present then some false else none
  | _ => none

def produces (before : Bool) (es : List FileChange) : Option Bool :=
  es.foldlM (fun present c => fileSystem present c.kind) before

theorem produces_snoc (before : Bool) (es : List FileChange) (c : FileChange) :
    produces before (es ++ [c]) = (produces before es).bind fun present => fileSystem present c.kind := by
  rw [produces, List.foldlM_append]
  show (produces before es).bind _ = _
  refine congrArg _ (funext fun present => ?_)
  rw [List.foldlM_cons]
  cases fileSystem present c.kind <;> rfl

/-- the flags, by the file before and after -/
def watchFlags (before after touched : Bool) : Events :=
  ⟨none, false, before && after && touched, [], false, !before && after, before && !after⟩

theorem watchFlags_add {before present after : Bool} (c : FileChange) (touched : Bool)
    (ht : touched = false → present = before) (h : fileSystem present c.kind = some after) :
    (watchFlags before present touched).add (E := E) c = .ok (watchFlags before after true) := by
  have hclosed : ¬ (watchFlags before present touched).opened.isSome = true := Bool.false_ne_true
  rw [Events.add, if_neg hclosed]
  cases hkind : c.kind with
  | watchCreate =>
    rw [hkind] at h
    cases present with
    | true => cases h
    | false =>
      cases h
      cases before <;> rfl
  | watchChange =>
    rw [hkind] at h
    cases present with
    | false => cases h
    | true =>
      cases h
      cases before <;> rfl
  | watchDelete =>
    rw [hkind] at h
    cases present with
    | false => cases h
    | true =>
      cases h
      cases before <;> rfl
  | openFile | close | change | save =>
    rw [hkind] at h
    cases h

/-- **The flags sum up the events.** -/
theorem flags_watch (before : Bool) (es : List FileChange) {after : Bool}
    (h : produces before es = some after) :
    flags (E := E) es = .ok (watchFlags before after (!es.isEmpty)) := by
  induction es using List.reverseRecOn generalizing after with
  | nil =>
    cases h
    cases before <;> rfl
  | append_singleton es c ih =>
    rw [produces_snoc] at h
    obtain ⟨present, hpresent, hc⟩ := Option.bind_eq_some_iff.1 h
    rw [flags_snoc (ih hpresent), watchFlags_add c _ ?_ hc]
    · have hne : (es ++ [c]).isEmpty = false := by simp
      rw [hne]
      rfl
    · intro hes
      rw [Bool.not_eq_false', List.isEmpty_iff] at hes
      rw [hes] at hpresent
      cases hpresent
      rfl

/-- a set of files, with this one in it if `b` -/
def mark (b : Bool) (uri : Bytes) (s : Finset Bytes) : Finset Bytes := if b then insert uri s else s

theorem mem_mark {b : Bool} {uri : Bytes} {s : Finset Bytes} (h : uri ∉ s) : uri ∈ mark b uri s ↔ b = true := by
  rw [mark]
  cases b with
  | true => simp
  | false => simpa using h

theorem processUri_watch {host : OverlayHost E H} {uri : Bytes} {w : Overlays × FileChangeSummary}
    (hnone : w.1[host.path uri]? = none) (before after touched : Bool) :
    processUri host w (uri, watchFlags before after touched) =
      .ok (w.1, { w.2 with
        changed := mark (before && after && touched) uri w.2.changed
        created := mark (!before && after) uri w.2.created
        deleted := mark (before && !after) uri w.2.deleted }) := by
  rw [processUri]
  dsimp only
  rw [hnone]
  cases before <;> cases after <;> cases touched <;> rfl

/-- the sets of a file that is not open, by its watch events -/
theorem marks_watch (host : OverlayHost E H) (overlays after' : Overlays)
    (changes : List FileChange) (summary : FileChangeSummary)
    (h : processChanges host overlays changes = .ok (after', summary)) (uri : Bytes)
    (hnone : overlays[host.path uri]? = none)
    (hothers : ∀ c ∈ changes, c.uri ≠ uri → host.path c.uri ≠ host.path uri)
    (before after : Bool) (hwatch : produces before (about uri changes) = some after) :
    (uri ∈ summary.created ↔ before = false ∧ after = true) ∧
      (uri ∈ summary.deleted ↔ before = true ∧ after = false) ∧
      (uri ∈ summary.changed ↔ before = true ∧ after = true ∧ about uri changes ≠ []) := by
  have hflags := flags_watch (E := E) before _ hwatch
  by_cases hnil : about uri changes = []
  · have hsame := processChanges_unmarked h hnil
    rw [hnil] at hwatch
    obtain rfl : before = after := Option.some.inj hwatch
    rw [hsame.created, hsame.deleted, hsame.changed]
    refine ⟨?_, ?_, ?_⟩
    · simp [FileChangeSummary.empty]
    · simp [FileChangeSummary.empty]
    · simp [FileChangeSummary.empty, hnil]
  · obtain ⟨events, w1, w2, hevents, hstep, hbefore, -, hblank, hmarks⟩ := processChanges_file h hothers hnil
    rw [hflags] at hevents
    cases hevents
    rw [processUri_watch (hbefore.trans hnone)] at hstep
    cases hstep
    have htouched : (about uri changes).isEmpty = false := by
      rw [Bool.eq_false_iff]
      exact fun hempty => hnil (List.isEmpty_iff.1 hempty)
    have hchanged : uri ∉ w1.2.changed := fun hmem => absurd (hblank.changed.1 hmem) (Finset.notMem_empty _)
    have hcreated : uri ∉ w1.2.created := fun hmem => absurd (hblank.created.1 hmem) (Finset.notMem_empty _)
    have hdeleted : uri ∉ w1.2.deleted := fun hmem => absurd (hblank.deleted.1 hmem) (Finset.notMem_empty _)
    refine ⟨?_, ?_, ?_⟩
    · rw [hmarks.created, mem_mark hcreated, Bool.and_eq_true, Bool.not_eq_true']
    · rw [hmarks.deleted, mem_mark hdeleted, Bool.and_eq_true, Bool.not_eq_true']
    · rw [hmarks.changed, mem_mark hchanged, htouched, Bool.and_eq_true, Bool.and_eq_true]
      simp [hnil]

/-- **The summary compares a file that is not open before and after its watch events**, and puts it in
one set at most. -/
theorem watch_summary (host : OverlayHost E H) (overlays after' : Overlays)
    (changes : List FileChange) (summary : FileChangeSummary)
    (h : processChanges host overlays changes = .ok (after', summary)) (uri : Bytes)
    (hnone : overlays[host.path uri]? = none)
    (hothers : ∀ c ∈ changes, c.uri ≠ uri → host.path c.uri ≠ host.path uri)
    (before after : Bool) (hwatch : produces before (about uri changes) = some after) :
    (uri ∈ summary.created ↔ before = false ∧ after = true) ∧
      (uri ∈ summary.deleted ↔ before = true ∧ after = false) ∧
      (uri ∈ summary.changed ↔ before = true ∧ after = true ∧ about uri changes ≠ []) ∧
      ¬ (uri ∈ summary.created ∧ uri ∈ summary.deleted) ∧
      ¬ (uri ∈ summary.created ∧ uri ∈ summary.changed) ∧
      ¬ (uri ∈ summary.deleted ∧ uri ∈ summary.changed) := by
  obtain ⟨hcreated, hdeleted, hchanged⟩ :=
    marks_watch host overlays after' changes summary h uri hnone hothers before after hwatch
  refine ⟨hcreated, hdeleted, hchanged, ?_, ?_, ?_⟩
  · rw [hcreated, hdeleted]
    intro h
    obtain ⟨⟨hb, -⟩, hb', -⟩ := h
    rw [hb] at hb'
    cases hb'
  · rw [hcreated, hchanged]
    intro h
    obtain ⟨⟨hb, -⟩, hb', -⟩ := h
    rw [hb] at hb'
    cases hb'
  · rw [hdeleted, hchanged]
    intro h
    obtain ⟨⟨-, ha⟩, -, ha', -⟩ := h
    rw [ha] at ha'
    cases ha'

/-- names are paths, and no file is on disk -/
def bareHost : OverlayHost Unit Bytes := ⟨id, id, fun _ => .ok none, id, .utf16⟩

/-- a file is replaced, with the creation of another one in between -/
def replacing : List FileChange :=
  [.new .watchDelete (bytesOf "/a.ts"), .new .watchCreate (bytesOf "/b.ts"),
    .new .watchCreate (bytesOf "/a.ts")]

theorem watch_summary_replacing :
    ∃ after summary, processChanges bareHost ∅ replacing = .ok (after, summary) ∧
      bytesOf "/a.ts" ∈ summary.changed ∧ bytesOf "/a.ts" ∉ summary.created ∧
      bytesOf "/a.ts" ∉ summary.deleted := by
  cases h : processChanges bareHost ∅ replacing with
  | error e =>
    have hok : (processChanges bareHost ∅ replacing).toBool = true := by decide +kernel
    rw [h] at hok
    cases hok
  | ok r =>
    obtain ⟨after, summary⟩ := r
    obtain ⟨hcreated, hdeleted, hchanged, -⟩ := watch_summary bareHost ∅ after replacing summary h
      (bytesOf "/a.ts") (by decide +kernel) (by intro c _ hc; exact hc) true true (by decide +kernel)
    refine ⟨after, summary, rfl, hchanged.2 ⟨rfl, rfl, by decide +kernel⟩, ?_, ?_⟩
    · intro hmem
      cases (hcreated.1 hmem).1
    · intro hmem
      cases (hdeleted.1 hmem).2

end Tsr.Project
