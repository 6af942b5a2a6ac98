import Tsr.Project.OverlayGroups

/-!
# Batches of one event

The events of a batch are taken as batches of their own.  A batch that fails leaves the overlays as they
were.

* `oneByOne`            the overlays behind all of them;
* `singly`, `keptStep`  what one event does to the overlay of its file;
* `oneByOne_file`       the overlay of a file follows from the events of this file.
-/

namespace Tsr.Project
open Tsr.Json (Bytes)
open Tsr.Lib.Result

variable {E H : Type} [DecidableEq H] (host : OverlayHost E H)

/-! ## batches of one event -/

def stepOne (overlays : Overlays) (c : FileChange) : Overlays :=
  match processChanges host overlays [c] with
  | .ok r => r.1
  | .error _ => overlays

def oneByOne (overlays : Overlays) (changes : List FileChange) : Overlays :=
  changes.foldl (stepOne host) overlays

/-- a change of a file that is open; one that fails is not published -/
def editStep (file : FileHandle) (c : FileChange) : FileHandle :=
  match changeFile host file c with
  | .ok edited => edited
  | .error _ => file

def watchStep (file : FileHandle) : FileHandle :=
  match file.computeDiskMatch host with
  | .ok (matchesDisk, _) => file.withDiskMatch matchesDisk
  | .error _ => file

/-- an event that neither opens nor closes the file -/
def keptStep (file : FileHandle) (c : FileChange) : FileHandle :=
  match c.kind with
  | .change => editStep host file c
  | .save => file.withDiskMatch true
  | .watchChange => watchStep host file
  | _ => file

/-- what a batch of one event does to the overlay of its file -/
def singly (c : FileChange) (overlay : Option FileHandle) : Option FileHandle :=
  match c.kind with
  | .openFile => some (openedFile host c.uri c)
  | .close => none
  | _ => overlay.map fun file => keptStep host file c

/-- the flags of one event -/
def flagsOf (c : FileChange) : Events :=
  match c.kind with
  | .openFile => { Events.empty with opened := some c }
  | .close => { Events.empty with close := true }
  | .change => { Events.empty with changes := [c] }
  | .save => { Events.empty with saved := true }
  | .watchCreate => { Events.empty with created := true }
  | .watchChange => { Events.empty with watched := true }
  | .watchDelete => { Events.empty with deleted := true }

theorem flags_one (c : FileChange) : flags (E := E) [c] = .ok (flagsOf c) := by
  have hnil : flags (E := E) [] = .ok .empty := rfl
  have hone : flags (E := E) [c] = Events.empty.add c := flags_snoc hnil c
  have hclosed : ¬ Events.empty.opened.isSome = true := Bool.false_ne_true
  rw [hone, Events.add, if_neg hclosed, flagsOf]
  cases c.kind <;> rfl

theorem settle_change {c : FileChange} (hkind : c.kind = .change) (file : FileHandle) :
    settle host c.uri (flagsOf c) (some file) = (changeFile host file c).map some := by
  have hflags : flagsOf c = { Events.empty with changes := [c] } := by rw [flagsOf, hkind]
  rw [hflags]
  show ([c].foldlM (changeFile host) file >>= _) = _
  rw [List.foldlM_cons]
  cases changeFile host file c <;> rfl

theorem settle_watch {c : FileChange} (hkind : c.kind = .watchChange) (file : FileHandle) :
    settle host c.uri (flagsOf c) (some file) =
      match file.computeDiskMatch host with
      | .ok (matchesDisk, _) => .ok (some (file.withDiskMatch matchesDisk))
      | .error e => .error (.failed e) := by
  have hflags : flagsOf c = { Events.empty with watched := true } := by rw [flagsOf, hkind]
  rw [hflags]
  show (watchFile host { Events.empty with watched := true } file >>= _) = _
  rw [watchFile, if_pos ⟨rfl, Bool.false_ne_true⟩]
  cases file.computeDiskMatch host <;> rfl

/-- the flags of one event settle its file as the event does, unless they fail -/
theorem settle_one (c : FileChange) (overlay : Option FileHandle) :
    (settle host c.uri (flagsOf c) overlay = .ok (singly host c overlay)) ∨
      ∃ e, settle host c.uri (flagsOf c) overlay = .error e ∧ singly host c overlay = overlay := by
  unfold singly keptStep
  cases hkind : c.kind with
  | openFile =>
    left
    unfold settle flagsOf
    rw [hkind]
  | close =>
    left
    unfold settle flagsOf
    rw [hkind]
    rfl
  | save | watchCreate | watchDelete =>
    left
    unfold settle flagsOf
    rw [hkind]
    cases overlay <;> rfl
  | change =>
    cases overlay with
    | none =>
      left
      unfold settle flagsOf
      rw [hkind]
      rfl
    | some file =>
      rw [settle_change host hkind, Option.map_some, editStep]
      cases changeFile host file c with
      | ok edited => exact .inl rfl
      | error e => exact .inr ⟨e, rfl, rfl⟩
  | watchChange =>
    cases overlay with
    | none =>
      left
      unfold settle flagsOf
      rw [hkind]
      rfl
    | some file =>
      rw [settle_watch host hkind, Option.map_some, watchStep]
      cases file.computeDiskMatch host with
      | ok m => exact .inl rfl
      | error e => exact .inr ⟨.failed e, rfl, rfl⟩

/-- the only entry of a map -/
theorem entries_one {grouped : Grouped} {c : FileChange} (hg : Groups E [c] grouped) :
    grouped.toList = [(c.uri, flagsOf c)] := by
  have habout : about c.uri [c] = [c] := List.filter_cons_of_pos (decide_eq_true rfl)
  obtain ⟨events, hflags, hget⟩ := hg c.uri
  rw [habout, flags_one] at hflags
  cases hflags
  rw [if_neg (by rw [habout]; exact List.cons_ne_nil _ _)] at hget
  have hmem := Std.ExtTreeMap.mem_toList_iff_getElem?_eq_some.2 hget
  obtain ⟨front, back, hsplit⟩ := List.append_of_mem hmem
  have hdistinct := Std.ExtTreeMap.distinct_keys_toList (t := grouped)
  have hkey : ∀ a ∈ grouped.toList, a.1 = c.uri := by
    intro a ha
    obtain ⟨c', hc', huri⟩ := exists_of_about (mem_group hg ha).2
    rw [← huri, List.mem_singleton.1 hc']
  rw [hsplit] at hdistinct hkey ⊢
  obtain ⟨-, hcross, hfront⟩ := List.pairwise_append.1 hdistinct
  have hnofront : front = [] := by
    refine List.eq_nil_iff_forall_not_mem.2 fun a ha => ?_
    exact hfront a ha _ List.mem_cons_self
      (Std.compare_eq_iff_eq.2 (hkey a (List.mem_append_left _ ha)))
  have hnoback : back = [] := by
    refine List.eq_nil_iff_forall_not_mem.2 fun a ha => ?_
    exact (List.pairwise_cons.1 hcross).1 a ha (Std.compare_eq_iff_eq.2
      (hkey a (List.mem_append_right _ (List.mem_cons_of_mem _ ha))).symm)
  rw [hnofront, hnoback]
  rfl

theorem group_one (c : FileChange) : ∃ g, group (E := E) [c] = .ok g := by
  have hadd : Events.empty.add (E := E) c = .ok (flagsOf c) := by
    have hnil : flags (E := E) [] = .ok .empty := rfl
    rw [← flags_one]
    exact (flags_snoc hnil c).symm
  rw [group, List.foldlM_cons, groupStep, Std.ExtTreeMap.getElem?_empty, Option.getD_none, hadd]
  exact ⟨_, rfl⟩

/-- one file that can be settled does not fail, if none is opened before it -/
theorem processUri_not_error {uri : Bytes} {events : Events} {overlays : Overlays}
    {r : FileChangeSummary} {o : Option FileHandle} {e : Failure E} (hr : Blank r)
    (hs : settle host uri events overlays[host.path uri]? = .ok o) :
    processUri host (overlays, r) (uri, events) ≠ .error e := by
  intro hone
  cases hopen : events.opened with
  | none =>
    have hends := processUri_ends host uri (overlays, r) events hopen
    rw [hone, hs] at hends
    cases hends
  | some change =>
    obtain ⟨outside, rfl⟩ := hr
    rw [processUri, hopen] at hone
    cases hone

/-- **A batch of one event.** -/
theorem stepOne_spec (overlays : Overlays) (c : FileChange) :
    (stepOne host overlays c)[host.path c.uri]? = singly host c overlays[host.path c.uri]? ∧
      ∀ p, p ≠ host.path c.uri → (stepOne host overlays c)[p]? = overlays[p]? := by
  have hsettle := settle_one host c overlays[host.path c.uri]?
  rw [stepOne]
  cases hrun : processChanges host overlays [c] with
  | ok r =>
    obtain ⟨after, summary⟩ := r
    have hothers : ∀ c' ∈ [c], c'.uri ≠ c.uri → host.path c'.uri ≠ host.path c.uri := by
      intro c' hc' hne
      exact absurd (by rw [List.mem_singleton.1 hc']) hne
    obtain ⟨events, hflags, hafter⟩ := processChanges_settle hrun hothers
    have habout : about c.uri [c] = [c] := List.filter_cons_of_pos (decide_eq_true rfl)
    rw [habout, flags_one] at hflags
    cases hflags
    refine ⟨?_, ?_⟩
    · rcases hsettle with hok | ⟨e, herror, -⟩
      · rw [hafter] at hok
        exact Except.ok.inj hok
      · rw [hafter] at herror
        cases herror
    · intro p hp
      refine processChanges_elsewhere hrun ?_
      intro c' hc'
      rw [List.mem_singleton.1 hc']
      exact hp.symm
  | error e =>
    -- nothing is published; the file itself fails
    refine ⟨?_, fun _ _ => rfl⟩
    rcases hsettle with hok | ⟨e', -, hsame⟩
    · exfalso
      obtain ⟨⟨grouped, result⟩, hgroup⟩ := group_one (E := E) c
      obtain ⟨hg, outside, rfl⟩ := groups_group hgroup
      rw [processChanges, hgroup, ok_bind] at hrun
      dsimp only at hrun
      rw [entries_one hg, List.foldlM_cons] at hrun
      generalize hone : processUri host (overlays, _) (c.uri, flagsOf c) = x at hrun
      cases x with
      | ok w => cases hrun
      | error e' => exact processUri_not_error host ⟨outside, rfl⟩ hok hone
    · exact hsame.symm

/-- a file under batches of one event; no other file has its path -/
theorem oneByOne_file (changes : List FileChange) (overlays : Overlays) {uri : Bytes}
    (hothers : ∀ c ∈ changes, c.uri ≠ uri → host.path c.uri ≠ host.path uri) :
    (oneByOne host overlays changes)[host.path uri]? =
      (about uri changes).foldl (fun o c => singly host c o) overlays[host.path uri]? := by
  induction changes generalizing overlays with
  | nil => rfl
  | cons c changes ih =>
    obtain ⟨hown, hrest⟩ := stepOne_spec host overlays c
    have hih := ih (stepOne host overlays c) fun c' hc' => hothers c' (List.mem_cons_of_mem _ hc')
    show (oneByOne host (stepOne host overlays c) changes)[host.path uri]? = _
    by_cases huri : c.uri = uri
    · subst huri
      have habout : about c.uri (c :: changes) = c :: about c.uri changes :=
        List.filter_cons_of_pos (decide_eq_true rfl)
      rw [hih, hown, habout]
      rfl
    · have habout : about uri (c :: changes) = about uri changes :=
        List.filter_cons_of_neg (by simpa using huri)
      rw [hih, hrest _ (hothers c List.mem_cons_self huri).symm, habout]

theorem oneByOne_elsewhere (changes : List FileChange) (overlays : Overlays) {p : Bytes}
    (hp : ∀ c ∈ changes, host.path c.uri ≠ p) : (oneByOne host overlays changes)[p]? = overlays[p]? := by
  induction changes generalizing overlays with
  | nil => rfl
  | cons c changes ih =>
    show (oneByOne host (stepOne host overlays c) changes)[p]? = _
    rw [ih _ fun c' hc' => hp c' (List.mem_cons_of_mem _ hc')]
    exact (stepOne_spec host overlays c).2 p (hp c List.mem_cons_self).symm

end Tsr.Project
