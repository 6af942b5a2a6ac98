import Tsr.Project.Overlay

/-!
# A batch, file by file

What a batch does to the overlay of a file depends on the events of this file alone, as long as no
other file of the batch has the same path.

* `flags`, `Groups`         the flags of a file are those of its own events;
* `settle`                  what the flags do to the overlay of the file;
* `processUri_follows`      a file is settled, and all other files are left as they are;
* `processChanges_ok`       so is every file of a batch.
-/

set_option linter.unusedSectionVars false

namespace Tsr.Project
open Tsr.Json (Bytes)
open Tsr.Lib.Result

variable {E H : Type} [DecidableEq H]

/-! ## grouping -/

/-- the events of one file -/
def about (uri : Bytes) (changes : List FileChange) : List FileChange :=
  changes.filter fun c => c.uri = uri

def flags (changes : List FileChange) : Except (Failure E) Events := changes.foldlM Events.add .empty

theorem flags_snoc {es : List FileChange} {events : Events}
    (h : flags (E := E) es = .ok events) (c : FileChange) : flags (E := E) (es ++ [c]) = events.add c := by
  rw [flags, List.foldlM_append]
  show (flags es >>= fun events => [c].foldlM Events.add events) = events.add c
  rw [h, ok_bind, List.foldlM_cons]
  cases events.add (E := E) c <;> rfl

theorem about_snoc_same {c : FileChange} (done : List FileChange) :
    about c.uri (done ++ [c]) = about c.uri done ++ [c] := by
  rw [about, List.filter_append]
  simp [about]

theorem about_snoc_other {c : FileChange} {uri : Bytes} (h : c.uri ≠ uri) (done : List FileChange) :
    about uri (done ++ [c]) = about uri done := by
  rw [about, List.filter_append]
  simp [about, h]

/-- each file has the flags of its own events, if there are some -/
def Groups (E : Type) (done : List FileChange) (grouped : Grouped) : Prop :=
  ∀ uri, ∃ events, flags (E := E) (about uri done) = .ok events ∧
    grouped[uri]? = if about uri done = [] then none else some events

theorem groupStep_ok {g g' : Grouped × FileChangeSummary} {c : FileChange}
    (h : groupStep (E := E) g c = .ok g') :
    ∃ events outside, (g.1[c.uri]?.getD .empty).add (E := E) c = .ok events ∧
      g' = (g.1.insert c.uri events, { g.2 with includesWatchChangeOutsideNodeModules := outside }) := by
  rw [groupStep, bind_eq_ok] at h
  obtain ⟨events, hevents, hg⟩ := h
  cases hg
  exact ⟨events, _, hevents, rfl⟩

theorem Groups.step {done : List FileChange} {g g' : Grouped × FileChangeSummary} {c : FileChange}
    (hg : Groups E done g.1) (h : groupStep (E := E) g c = .ok g') : Groups E (done ++ [c]) g'.1 := by
  obtain ⟨events, outside, hadd, rfl⟩ := groupStep_ok h
  intro uri
  obtain ⟨old, hold, hget⟩ := hg uri
  by_cases huri : c.uri = uri
  · subst huri
    have hflags : g.1[c.uri]?.getD .empty = old := by
      by_cases hnil : about c.uri done = []
      · rw [hget, if_pos hnil]
        rw [hnil] at hold
        cases hold
        rfl
      · rw [hget, if_neg hnil]
        rfl
    refine ⟨events, ?_, ?_⟩
    · rw [about_snoc_same, flags_snoc hold, ← hflags, hadd]
    · rw [about_snoc_same, if_neg (by simp)]
      exact Std.ExtTreeMap.getElem?_insert_self
  · refine ⟨old, ?_, ?_⟩
    · rw [about_snoc_other huri]
      exact hold
    · rw [about_snoc_other huri, ← hget, Std.ExtTreeMap.getElem?_insert, if_neg]
      intro heq
      exact huri (Std.compare_eq_iff_eq.1 heq)

/-- the summary is empty before the files are looked at -/
def Blank (result : FileChangeSummary) : Prop :=
  ∃ outside, result = { FileChangeSummary.empty with includesWatchChangeOutsideNodeModules := outside }

theorem groups_run (rest done : List FileChange) {g g' : Grouped × FileChangeSummary}
    (hg : Groups E done g.1) (hb : Blank g.2) (h : rest.foldlM (groupStep (E := E)) g = .ok g') :
    Groups E (done ++ rest) g'.1 ∧ Blank g'.2 := by
  induction rest generalizing done g with
  | nil =>
    cases h
    rw [List.append_nil]
    exact ⟨hg, hb⟩
  | cons c rest ih =>
    rw [List.foldlM_cons, bind_eq_ok] at h
    obtain ⟨g1, h1, h2⟩ := h
    have hb1 : Blank g1.2 := by
      obtain ⟨events, outside, -, rfl⟩ := groupStep_ok h1
      obtain ⟨before, hbefore⟩ := hb
      exact ⟨outside, by rw [hbefore]⟩
    have := ih (done ++ [c]) (hg.step h1) hb1 h2
    rwa [List.append_assoc] at this

theorem groups_group {changes : List FileChange} {grouped : Grouped} {result : FileChangeSummary}
    (h : group (E := E) changes = .ok (grouped, result)) : Groups E changes grouped ∧ Blank result := by
  refine groups_run changes [] ?_ ⟨false, rfl⟩ h
  intro uri
  exact ⟨.empty, rfl, rfl⟩

/-! ## the overlay of one file -/

section
variable (host : OverlayHost E H) (uri : Bytes)

/-- the overlay that an event opens -/
def openedFile (change : FileChange) : FileHandle :=
  let name := host.fileName uri
  let kind := languageKindToScriptKind change.language
  .overlay name change.content change.version (if kind = .unknown then .fromFileName name else kind)

def watchFile (events : Events) (file : FileHandle) : Except (Failure E) FileHandle :=
  if events.watched ∧ ¬ events.saved then
    match file.computeDiskMatch host with
    | .error e => .error (.failed e)
    | .ok (matchesDisk, _) => .ok (file.withDiskMatch matchesDisk)
  else .ok file

def saveFile (events : Events) (file : FileHandle) : FileHandle :=
  if events.saved then file.withDiskMatch true else file

/-- the overlay of a file after its events, by their flags -/
def settle (events : Events) (overlay : Option FileHandle) : Except (Failure E) (Option FileHandle) :=
  match events.opened with
  | some change => .ok (some (openedFile host uri change))
  | none =>
    if events.close then .ok none
    else match overlay with
      | none => .ok none
      | some file => do
        let file ← watchFile host events file
        let file ← events.changes.foldlM (changeFile host) file
        return some (saveFile events file)

/-- the other files of a summary -/
structure Elsewhere (uri : Bytes) (r r' : FileChangeSummary) : Prop where
  changed : ∀ u, u ≠ uri → (u ∈ r'.changed ↔ u ∈ r.changed)
  created : ∀ u, u ≠ uri → (u ∈ r'.created ↔ u ∈ r.created)
  deleted : ∀ u, u ≠ uri → (u ∈ r'.deleted ↔ u ∈ r.deleted)

variable {host uri} {base : Overlays} {r0 r : FileChangeSummary} {w : Working} {events : Events}

theorem Elsewhere.refl (uri : Bytes) (r : FileChangeSummary) : Elsewhere uri r r :=
  ⟨fun _ _ => Iff.rfl, fun _ _ => Iff.rfl, fun _ _ => Iff.rfl⟩

theorem mem_insert_other {u : Bytes} {s : Finset Bytes} (hu : u ≠ uri) : u ∈ insert uri s ↔ u ∈ s := by
  rw [Finset.mem_insert]
  exact or_iff_right hu

theorem Elsewhere.insertChanged (h : Elsewhere uri r0 r) :
    Elsewhere uri r0 { r with changed := insert uri r.changed } :=
  ⟨fun u hu => (mem_insert_other hu).trans (h.changed u hu), h.created, h.deleted⟩

theorem Elsewhere.insertCreated (h : Elsewhere uri r0 r) :
    Elsewhere uri r0 { r with created := insert uri r.created } :=
  ⟨h.changed, fun u hu => (mem_insert_other hu).trans (h.created u hu), h.deleted⟩

theorem Elsewhere.insertDeleted (h : Elsewhere uri r0 r) :
    Elsewhere uri r0 { r with deleted := insert uri r.deleted } :=
  ⟨h.changed, h.created, fun u hu => (mem_insert_other hu).trans (h.deleted u hu)⟩

variable (host uri base r0) in
/-- only the file and its overlay have changed -/
structure Frame (w : Working) : Prop where
  own : w.overlays[host.path uri]? = w.overlay
  others : ∀ p, p ≠ host.path uri → w.overlays[p]? = base[p]?
  summary : Elsewhere uri r0 w.result

theorem getElem?_insert_same (m : Overlays) (p : Bytes) (f : FileHandle) : (m.insert p f)[p]? = some f :=
  Std.ExtTreeMap.getElem?_insert_self

theorem getElem?_insert_other (m : Overlays) {p q : Bytes} (h : q ≠ p) (f : FileHandle) :
    (m.insert p f)[q]? = m[q]? := by
  rw [Std.ExtTreeMap.getElem?_insert, if_neg]
  intro heq
  exact h (Std.compare_eq_iff_eq.1 heq).symm

theorem getElem?_erase_same (m : Overlays) (p : Bytes) : (m.erase p)[p]? = none :=
  Std.ExtTreeMap.getElem?_erase_self

theorem getElem?_erase_other (m : Overlays) {p q : Bytes} (h : q ≠ p) : (m.erase p)[q]? = m[q]? := by
  rw [Std.ExtTreeMap.getElem?_erase, if_neg]
  intro heq
  exact h (Std.compare_eq_iff_eq.1 heq).symm

theorem Frame.write (h : Frame host uri base r0 w) (f : FileHandle) :
    Frame host uri base r0
      { w with overlays := w.overlays.insert (host.path uri) f, overlay := some f } := by
  refine ⟨getElem?_insert_same _ _ _, ?_, h.summary⟩
  intro p hp
  show (w.overlays.insert (host.path uri) f)[p]? = _
  rw [getElem?_insert_other _ hp]
  exact h.others p hp

theorem Frame.markChanged (h : Frame host uri base r0 w) :
    Frame host uri base r0 { w with result := { w.result with changed := insert uri w.result.changed } } :=
  ⟨h.own, h.others, h.summary.insertChanged⟩

variable (host uri base r0) in
/-- a stage ends like a computation of the overlay alone -/
inductive Follows : Except (Failure E) Working → Except (Failure E) (Option FileHandle) → Prop
  | ok {w : Working} {o : Option FileHandle} (h : Frame host uri base r0 w) (ho : w.overlay = o) :
      Follows (.ok w) (.ok o)
  | error (e : Failure E) : Follows (.error e) (.error e)

/-! ## stage by stage -/

theorem closeOverlay_frame (h : Frame host uri base r0 w) (events : Events) :
    Frame host uri base r0 (closeOverlay host uri events w) ∧
      (closeOverlay host uri events w).overlay = if events.close then none else w.overlay := by
  rw [closeOverlay]
  by_cases hclose : events.close = true
  · rw [if_pos hclose]
    cases hover : w.overlay with
    | none =>
      rw [if_neg (by simp)]
      exact ⟨h, hover⟩
    | some f =>
      rw [if_pos ⟨hclose, rfl⟩]
      refine ⟨⟨getElem?_erase_same _ _, ?_, ⟨h.summary.changed, h.summary.created, h.summary.deleted⟩⟩, rfl⟩
      intro p hp
      show (w.overlays.erase (host.path uri))[p]? = _
      rw [getElem?_erase_other _ hp]
      exact h.others p hp
  · rw [if_neg hclose, if_neg (fun hc => hclose hc.1)]
    exact ⟨h, rfl⟩

theorem watchOverlay_follows (h : Frame host uri base r0 w) (events : Events) :
    Follows host uri base r0 (watchOverlay host uri events w)
      (match w.overlay with
        | none => .ok none
        | some f => (watchFile host events f).map some) := by
  obtain ⟨overlays, overlay, result⟩ := w
  rw [watchOverlay]
  by_cases hwatched : events.watched = true
  · rw [if_pos hwatched]
    cases overlay with
    | none => exact .ok h.markChanged rfl
    | some f =>
      dsimp only
      rw [watchFile]
      cases hsaved : events.saved with
      | true =>
        rw [if_neg (by decide), if_neg (fun hw => hw.2 rfl)]
        exact .ok h rfl
      | false =>
        rw [if_pos (by decide), if_pos ⟨hwatched, by decide⟩]
        cases hmatch : f.computeDiskMatch host with
        | error e => exact .error _
        | ok m =>
          by_cases hne : m.1 ≠ f.matchesDisk
          · show Follows host uri base r0 (if m.1 ≠ f.matchesDisk then _ else _) _
            rw [if_pos hne]
            exact .ok (h.write _) rfl
          · show Follows host uri base r0 (if m.1 ≠ f.matchesDisk then _ else _)
              (.ok (some (f.withDiskMatch m.1)))
            rw [if_neg hne, not_ne_iff.1 hne]
            exact .ok h rfl
  · rw [if_neg hwatched]
    cases overlay with
    | none => exact .ok h rfl
    | some f =>
      dsimp only
      rw [watchFile, if_neg (fun hw => hwatched hw.1)]
      exact .ok h rfl

theorem changeStep_follows (h : Frame host uri base r0 w) {f : FileHandle} (hf : w.overlay = some f)
    (c : FileChange) :
    Follows host uri base r0 (changeStep host uri w c) ((changeFile host f c).map some) := by
  rw [changeStep, hf]
  dsimp only
  cases hnext : changeFile host f c with
  | error e => exact .error e
  | ok next =>
    rw [ok_bind]
    by_cases hempty : c.changes.isEmpty = true
    · rw [if_pos hempty]
      have hsame : next = f := by
        rw [changeFile, List.isEmpty_iff.1 hempty] at hnext
        cases hnext
        rfl
      subst hsame
      refine .ok ⟨?_, h.others, h.summary⟩ rfl
      rw [← hf]
      exact h.own
    · rw [if_neg hempty]
      exact .ok (h.write next) rfl

theorem changes_follow (cs : List FileChange) (h : Frame host uri base r0 w) {f : FileHandle}
    (hf : w.overlay = some f) :
    Follows host uri base r0 (cs.foldlM (changeStep host uri) w)
      ((cs.foldlM (changeFile host) f).map some) := by
  induction cs generalizing w f with
  | nil => exact .ok h hf
  | cons c cs ih =>
    rw [List.foldlM_cons, List.foldlM_cons]
    have hstep := changeStep_follows h hf c
    cases hnext : changeFile host f c with
    | error e =>
      rw [hnext] at hstep
      generalize changeStep host uri w c = x at hstep
      cases hstep
      exact .error e
    | ok next =>
      rw [hnext] at hstep
      generalize changeStep host uri w c = x at hstep
      cases hstep with
      | ok hw ho =>
        rw [ok_bind, ok_bind]
        exact ih hw ho

theorem changeOverlay_follows (h : Frame host uri base r0 w) (events : Events) :
    Follows host uri base r0 (changeOverlay host uri events w)
      (match w.overlay with
        | none => .ok none
        | some f => (events.changes.foldlM (changeFile host) f).map some) := by
  obtain ⟨overlays, overlay, result⟩ := w
  rw [changeOverlay]
  cases overlay with
  | none =>
    rw [if_neg (by simp)]
    exact .ok h rfl
  | some f =>
    dsimp only
    cases hchanges : events.changes with
    | nil =>
      rw [if_neg (by simp)]
      exact .ok h rfl
    | cons c cs =>
      rw [if_pos (by simp)]
      exact changes_follow (c :: cs) h.markChanged rfl

/-- what is left in the map, and the summary of the others -/
theorem saveOverlay_frame (h : Frame host uri base r0 w) (events : Events) :
    (saveOverlay host uri events w).overlays[host.path uri]? = w.overlay.map (saveFile events) ∧
      (∀ p, p ≠ host.path uri → (saveOverlay host uri events w).overlays[p]? = base[p]?) ∧
      Elsewhere uri r0 (saveOverlay host uri events w).result := by
  obtain ⟨overlays, overlay, result⟩ := w
  rw [saveOverlay]
  by_cases hsaved : events.saved = true
  · rw [if_pos hsaved]
    cases overlay with
    | some f =>
      refine ⟨?_, ?_, h.summary⟩
      · rw [Option.map_some, saveFile, if_pos hsaved]
        exact getElem?_insert_same _ _ _
      · intro p hp
        show (overlays.insert (host.path uri) (f.withDiskMatch true))[p]? = _
        rw [getElem?_insert_other _ hp]
        exact h.others p hp
    | none =>
      dsimp only
      split
      next => exact ⟨h.own, h.others, h.summary.insertChanged⟩
      next => exact ⟨h.own, h.others, h.summary⟩
  · rw [if_neg hsaved]
    refine ⟨?_, h.others, h.summary⟩
    cases overlay with
    | some f =>
      rw [Option.map_some, saveFile, if_neg hsaved]
      exact h.own
    | none => exact h.own

theorem reportDisk_frame (events : Events) (h : Elsewhere uri r0 w.result) :
    (reportDisk uri events w).overlays = w.overlays ∧
      Elsewhere uri r0 (reportDisk uri events w).result := by
  rw [reportDisk]
  by_cases hnone : w.overlay.isNone = true
  · rw [if_pos hnone]
    refine ⟨rfl, ?_⟩
    show Elsewhere uri r0 (if events.deleted = true then _ else _)
    by_cases hcreated : events.created = true
    · rw [if_pos hcreated]
      by_cases hdeleted : events.deleted = true
      · rw [if_pos hdeleted]
        exact h.insertCreated.insertDeleted
      · rw [if_neg hdeleted]
        exact h.insertCreated
    · rw [if_neg hcreated]
      by_cases hdeleted : events.deleted = true
      · rw [if_pos hdeleted]
        exact h.insertDeleted
      · rw [if_neg hdeleted]
        exact h
  · rw [if_neg hnone]
    exact ⟨rfl, h⟩

/-! ## one file of a batch -/

/-- a file that is settled, and all others as they were -/
structure Settled (host : OverlayHost E H) (uri : Bytes) (w w' : Overlays × FileChangeSummary) : Prop where
  others : ∀ p, p ≠ host.path uri → w'.1[p]? = w.1[p]?
  summary : Elsewhere uri w.2 w'.2

theorem openOverlay_ok {w w' : Working} {change : FileChange} (h : Frame host uri base r0 w)
    (hw : openOverlay host uri change w = .ok w') :
    w'.overlays[host.path uri]? = some (openedFile host uri change) ∧
      (∀ p, p ≠ host.path uri → w'.overlays[p]? = base[p]?) ∧ Elsewhere uri r0 w'.result := by
  rw [openOverlay] at hw
  split at hw
  next => cases hw
  next =>
    cases hw
    refine ⟨getElem?_insert_same _ _ _, ?_, ?_⟩
    · intro p hp
      show (w.overlays.insert (host.path uri) _)[p]? = _
      rw [getElem?_insert_other _ hp]
      exact h.others p hp
    · dsimp only
      split
      next =>
        split
        next => exact h.summary.insertChanged
        next => exact ⟨h.summary.changed, h.summary.created, h.summary.deleted⟩
      next => exact ⟨h.summary.changed, h.summary.created, h.summary.deleted⟩

theorem frame_start (host : OverlayHost E H) (uri : Bytes) (w : Overlays × FileChangeSummary) :
    Frame host uri w.1 w.2 ⟨w.1, w.1[host.path uri]?, w.2⟩ :=
  ⟨rfl, fun _ _ => rfl, .refl uri w.2⟩

/-- a file of a batch ends like a computation of its overlay alone -/
inductive Ends (host : OverlayHost E H) (uri : Bytes) (w : Overlays × FileChangeSummary) :
    Except (Failure E) (Overlays × FileChangeSummary) → Except (Failure E) (Option FileHandle) → Prop
  | ok {w' : Overlays × FileChangeSummary} {o : Option FileHandle} (h : Settled host uri w w')
      (ho : w'.1[host.path uri]? = o) : Ends host uri w (.ok w') (.ok o)
  | error (e : Failure E) : Ends host uri w (.error e) (.error e)

/-- the last two stages -/
theorem ends_of_frame {v : Overlays × FileChangeSummary} {w : Working} (events : Events)
    (h : Frame host uri v.1 v.2 w) :
    Ends host uri v
      (.ok ((reportDisk uri events (saveOverlay host uri events w)).overlays,
        (reportDisk uri events (saveOverlay host uri events w)).result))
      (.ok (w.overlay.map (saveFile events))) := by
  obtain ⟨hown, hothers, hsummary⟩ := saveOverlay_frame h events
  obtain ⟨hoverlays, hresult⟩ := reportDisk_frame events hsummary
  refine .ok ⟨?_, hresult⟩ ?_
  · intro p hp
    show (reportDisk uri events (saveOverlay host uri events w)).overlays[p]? = _
    rw [hoverlays]
    exact hothers p hp
  · show (reportDisk uri events (saveOverlay host uri events w)).overlays[host.path uri]? = _
    rw [hoverlays]
    exact hown

theorem processUri_ends (host : OverlayHost E H) (uri : Bytes) (w : Overlays × FileChangeSummary)
    (events : Events) (hopen : events.opened = none) :
    Ends host uri w (processUri host w (uri, events)) (settle host uri events w.1[host.path uri]?) := by
  have hstart := frame_start host uri w
  unfold settle
  rw [processUri, hopen]
  dsimp only
  obtain ⟨hclosed, hoverlay⟩ := closeOverlay_frame hstart events
  generalize closeOverlay host uri events ⟨w.1, w.1[host.path uri]?, w.2⟩ = w1 at hclosed hoverlay
  have hwatch := watchOverlay_follows hclosed events
  dsimp only at hoverlay
  cases ho : w1.overlay with
  | none =>
    -- no overlay, or one that is closed
    have hsettle : (if events.close = true then .ok none
        else match w.1[host.path uri]? with
          | none => .ok none
          | some file => do
            let file ← watchFile host events file
            let file ← events.changes.foldlM (changeFile host) file
            return some (saveFile events file) : Except (Failure E) (Option FileHandle)) = .ok none := by
      by_cases hclose : events.close = true
      · rw [if_pos hclose]
      · rw [if_neg hclose] at hoverlay ⊢
        rw [← hoverlay, ho]
    rw [hsettle]
    rw [ho] at hwatch
    generalize watchOverlay host uri events w1 = x at hwatch
    cases hwatch with
    | ok hw2 ho2 =>
      rw [ok_bind]
      have hchange := changeOverlay_follows hw2 events
      rw [ho2] at hchange
      generalize changeOverlay host uri events _ = y at hchange
      cases hchange with
      | ok hw3 ho3 =>
        have hends := ends_of_frame events hw3
        rw [ho3] at hends
        exact hends
  | some f =>
    have hclose : ¬ events.close = true := by
      intro hclose
      rw [if_pos hclose, ho] at hoverlay
      cases hoverlay
    rw [if_neg hclose] at hoverlay ⊢
    rw [← hoverlay, ho]
    dsimp only
    rw [ho] at hwatch
    dsimp only at hwatch
    cases hfile : watchFile host events f with
    | error e =>
      rw [hfile] at hwatch
      generalize watchOverlay host uri events w1 = x at hwatch
      cases hwatch
      exact .error e
    | ok f1 =>
      rw [hfile] at hwatch
      generalize watchOverlay host uri events w1 = x at hwatch
      cases hwatch with
      | ok hw2 ho2 =>
        rw [ok_bind, ok_bind]
        have hchange := changeOverlay_follows hw2 events
        rw [ho2] at hchange
        dsimp only at hchange
        cases hedit : events.changes.foldlM (changeFile host) f1 with
        | error e =>
          rw [hedit] at hchange
          generalize changeOverlay host uri events _ = y at hchange
          cases hchange
          exact .error e
        | ok f2 =>
          rw [hedit] at hchange
          generalize changeOverlay host uri events _ = y at hchange
          cases hchange with
          | ok hw3 ho3 =>
            have hends := ends_of_frame events hw3
            rw [ho3] at hends
            exact hends

/-- **One file of a batch that does not fail.** -/
theorem processUri_ok {w w' : Overlays × FileChangeSummary} (h : processUri host w (uri, events) = .ok w') :
    settle host uri events w.1[host.path uri]? = .ok w'.1[host.path uri]? ∧ Settled host uri w w' := by
  cases hopen : events.opened with
  | none =>
    have hends := processUri_ends host uri w events hopen
    rw [h] at hends
    generalize settle host uri events w.1[host.path uri]? = y at hends ⊢
    cases hends with
    | ok hs ho => exact ⟨by rw [ho], hs⟩
  | some change =>
    rw [processUri, hopen] at h
    dsimp only at h
    rw [bind_eq_ok] at h
    obtain ⟨v, hv, heq⟩ := h
    cases heq
    obtain ⟨hown, hothers, hsummary⟩ := openOverlay_ok (frame_start host uri w) hv
    refine ⟨?_, hothers, hsummary⟩
    unfold settle
    rw [hopen]
    dsimp only
    rw [hown]

/-! ## all files of a batch -/

/-- the file is in the same sets of both summaries -/
structure SameMarks (uri : Bytes) (r r' : FileChangeSummary) : Prop where
  changed : uri ∈ r'.changed ↔ uri ∈ r.changed
  created : uri ∈ r'.created ↔ uri ∈ r.created
  deleted : uri ∈ r'.deleted ↔ uri ∈ r.deleted

theorem SameMarks.trans {r1 r2 r3 : FileChangeSummary} (h : SameMarks uri r1 r2)
    (h' : SameMarks uri r2 r3) : SameMarks uri r1 r3 :=
  ⟨h'.changed.trans h.changed, h'.created.trans h.created, h'.deleted.trans h.deleted⟩

theorem Elsewhere.marks {u : Bytes} (h : Elsewhere uri r0 r) (hu : u ≠ uri) : SameMarks u r0 r :=
  ⟨h.changed u hu, h.created u hu, h.deleted u hu⟩

/-- what no entry is about stays as it was -/
theorem entries_elsewhere (entries : List (Bytes × Events)) {w w' : Overlays × FileChangeSummary}
    (h : entries.foldlM (processUri host) w = .ok w') :
    (∀ p, (∀ a ∈ entries, host.path a.1 ≠ p) → w'.1[p]? = w.1[p]?) ∧
      ∀ u, (∀ a ∈ entries, a.1 ≠ u) → SameMarks u w.2 w'.2 := by
  induction entries generalizing w with
  | nil =>
    cases h
    exact ⟨fun _ _ => rfl, fun _ _ => ⟨Iff.rfl, Iff.rfl, Iff.rfl⟩⟩
  | cons a entries ih =>
    rw [List.foldlM_cons, bind_eq_ok] at h
    obtain ⟨w1, h1, h2⟩ := h
    obtain ⟨-, hs⟩ := processUri_ok h1
    obtain ⟨hmap, hmarks⟩ := ih h2
    refine ⟨?_, ?_⟩
    · intro p hp
      rw [hmap p (fun b hb => hp b (List.mem_cons_of_mem _ hb))]
      exact hs.others p (hp a List.mem_cons_self).symm
    · intro u hu
      exact (hs.summary.marks (hu a List.mem_cons_self).symm).trans
        (hmarks u (fun b hb => hu b (List.mem_cons_of_mem _ hb)))

/-- one entry of a list, when no other is about its path -/
theorem entries_entry {front back : List (Bytes × Events)} {w w' : Overlays × FileChangeSummary}
    (h : (front ++ (uri, events) :: back).foldlM (processUri host) w = .ok w')
    (hothers : ∀ a ∈ front ++ back, host.path a.1 ≠ host.path uri) :
    ∃ w1 w2, processUri host w1 (uri, events) = .ok w2 ∧
      w1.1[host.path uri]? = w.1[host.path uri]? ∧ w'.1[host.path uri]? = w2.1[host.path uri]? ∧
      SameMarks uri w.2 w1.2 ∧ SameMarks uri w2.2 w'.2 := by
  have hne : ∀ a ∈ front ++ back, a.1 ≠ uri := by
    intro a ha heq
    exact hothers a ha (by rw [heq])
  rw [List.foldlM_append, bind_eq_ok] at h
  obtain ⟨w1, h1, h2⟩ := h
  rw [List.foldlM_cons, bind_eq_ok] at h2
  obtain ⟨w2, h2, h3⟩ := h2
  obtain ⟨hmap1, hmarks1⟩ := entries_elsewhere front h1
  obtain ⟨hmap3, hmarks3⟩ := entries_elsewhere back h3
  refine ⟨w1, w2, h2, ?_, ?_, ?_, ?_⟩
  · exact hmap1 _ fun a ha => hothers a (List.mem_append_left _ ha)
  · exact hmap3 _ fun a ha => hothers a (List.mem_append_right _ ha)
  · exact hmarks1 _ fun a ha => hne a (List.mem_append_left _ ha)
  · exact hmarks3 _ fun a ha => hne a (List.mem_append_right _ ha)

variable {overlays after : Overlays} {summary : FileChangeSummary} {changes : List FileChange}

theorem mem_group {grouped : Grouped} (hg : Groups E changes grouped) {a : Bytes × Events}
    (ha : a ∈ grouped.toList) : flags (E := E) (about a.1 changes) = .ok a.2 ∧ about a.1 changes ≠ [] := by
  obtain ⟨uri, events⟩ := a
  have hget := Std.ExtTreeMap.mem_toList_iff_getElem?_eq_some.1 ha
  obtain ⟨events', hflags, hget'⟩ := hg uri
  rw [hget'] at hget
  by_cases hnil : about uri changes = []
  · rw [if_pos hnil] at hget
    cases hget
  · rw [if_neg hnil] at hget
    cases hget
    exact ⟨hflags, hnil⟩

theorem exists_of_about (h : about uri changes ≠ []) : ∃ c ∈ changes, c.uri = uri := by
  obtain ⟨c, hc⟩ := List.exists_mem_of_ne_nil _ h
  rw [about, List.mem_filter] at hc
  exact ⟨c, hc.1, of_decide_eq_true hc.2⟩

/-- **A file of a batch**: it is looked at once, with the flags of its own events. -/
theorem processChanges_file (h : processChanges host overlays changes = .ok (after, summary))
    (hothers : ∀ c ∈ changes, c.uri ≠ uri → host.path c.uri ≠ host.path uri)
    (hsome : about uri changes ≠ []) :
    ∃ events w1 w2, flags (E := E) (about uri changes) = .ok events ∧
      processUri host w1 (uri, events) = .ok w2 ∧
      w1.1[host.path uri]? = overlays[host.path uri]? ∧ after[host.path uri]? = w2.1[host.path uri]? ∧
      SameMarks uri .empty w1.2 ∧ SameMarks uri w2.2 summary := by
  rw [processChanges, bind_eq_ok] at h
  obtain ⟨⟨grouped, result⟩, hgroup, h⟩ := h
  obtain ⟨hg, outside, hblank⟩ := groups_group hgroup
  obtain ⟨events, hflags, hget⟩ := hg uri
  rw [if_neg hsome] at hget
  have hmem := Std.ExtTreeMap.mem_toList_iff_getElem?_eq_some.2 hget
  obtain ⟨front, back, hsplit⟩ := List.append_of_mem hmem
  have hdistinct := Std.ExtTreeMap.distinct_keys_toList (t := grouped)
  dsimp only at h
  rw [hsplit] at h hdistinct
  have hne : ∀ a ∈ front ++ back, a.1 ≠ uri := by
    intro a ha heq
    obtain ⟨-, hcross, hback⟩ := List.pairwise_append.1 hdistinct
    rcases List.mem_append.1 ha with ha | ha
    · exact hback a ha (uri, events) List.mem_cons_self (Std.compare_eq_iff_eq.2 heq)
    · exact (List.pairwise_cons.1 hcross).1 a ha (Std.compare_eq_iff_eq.2 heq.symm)
  obtain ⟨w1, w2, hstep, hbefore, hafter, hmarks, hmarks'⟩ := entries_entry h (by
    intro a ha
    have hin : a ∈ grouped.toList := by
      rw [hsplit]
      rcases List.mem_append.1 ha with ha | ha
      · exact List.mem_append_left _ ha
      · exact List.mem_append_right _ (List.mem_cons_of_mem _ ha)
    obtain ⟨c, hc, hcuri⟩ := exists_of_about (mem_group hg hin).2
    rw [← hcuri]
    exact hothers c hc (by rw [hcuri]; exact hne a ha))
  refine ⟨events, w1, w2, hflags, hstep, hbefore, hafter, ?_, hmarks'⟩
  rw [hblank] at hmarks
  exact ⟨hmarks.changed, hmarks.created, hmarks.deleted⟩

theorem processChanges_elsewhere (h : processChanges host overlays changes = .ok (after, summary))
    {p : Bytes} (hp : ∀ c ∈ changes, host.path c.uri ≠ p) : after[p]? = overlays[p]? := by
  rw [processChanges, bind_eq_ok] at h
  obtain ⟨⟨grouped, result⟩, hgroup, h⟩ := h
  obtain ⟨hg, -⟩ := groups_group hgroup
  refine (entries_elsewhere _ h).1 p ?_
  intro a ha
  obtain ⟨c, hc, hcuri⟩ := exists_of_about (mem_group hg ha).2
  rw [← hcuri]
  exact hp c hc

theorem processChanges_unmarked (h : processChanges host overlays changes = .ok (after, summary))
    (hnil : about uri changes = []) : SameMarks uri .empty summary := by
  rw [processChanges, bind_eq_ok] at h
  obtain ⟨⟨grouped, result⟩, hgroup, h⟩ := h
  obtain ⟨hg, outside, hblank⟩ := groups_group hgroup
  have hmarks := (entries_elsewhere _ h).2 uri (by
    intro a ha heq
    exact (mem_group hg ha).2 (heq ▸ hnil))
  rw [hblank] at hmarks
  exact ⟨hmarks.changed, hmarks.created, hmarks.deleted⟩

/-- **The overlay of a file after a batch.** -/
theorem processChanges_settle (h : processChanges host overlays changes = .ok (after, summary))
    (hothers : ∀ c ∈ changes, c.uri ≠ uri → host.path c.uri ≠ host.path uri) :
    ∃ events, flags (E := E) (about uri changes) = .ok events ∧
      settle host uri events overlays[host.path uri]? = .ok after[host.path uri]? := by
  by_cases hnil : about uri changes = []
  · have hsame := processChanges_elsewhere h (p := host.path uri) (by
      intro c hc
      refine hothers c hc ?_
      intro heq
      have hmem : c ∈ about uri changes := List.mem_filter.2 ⟨hc, decide_eq_true heq⟩
      rw [hnil] at hmem
      cases hmem)
    rw [hnil, hsame]
    refine ⟨.empty, rfl, ?_⟩
    cases overlays[host.path uri]? with
    | none => rfl
    | some f => rfl
  · obtain ⟨events, w1, w2, hflags, hstep, hbefore, hafter, -, -⟩ := processChanges_file h hothers hnil
    refine ⟨events, hflags, ?_⟩
    rw [← hbefore, hafter]
    exact (processUri_ok hstep).1

end
end Tsr.Project
