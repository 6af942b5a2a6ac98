import Tsr.Project.SnapshotFs

/-!
# What a file request returned stands

The tables of a builder settle a path once: after that no reader changes what they say of it.  A
call returns only what is settled when it returns.

* `BuildState.settled`     what the tables say of a path, if they say anything;
* `publish_eq`             a reader writes only where nothing is settled;
* `FileReads.Sound`        every result is the settled one, before and after `finalize`;
* `get_file_stable`        results of one path agree, except that an absence is asked for once more
                           by the frozen snapshot;
* `getFile_absent_then_present`   a run in which it is.
-/

namespace Tsr.Project
open Tsr.Json (Bytes)
open Tsr.Lib.Run

variable {E H : Type}

/-! ## a path is settled once -/

namespace BuildState

/-- what the tables say of a path; `none` when a reader has to ask the host -/
def settled (state : BuildState H) (path : JsString) : Option (Option H) :=
  match state.lookup path false with
  | .found file => some file
  | .load _ => none

variable {state : BuildState H} {path name : JsString} {file : Option H}
  {realpath : Option JsString}

theorem publish_eq (state : BuildState H) (path name : JsString) (file : Option H)
    (realpath : Option JsString) : state.publish path name false file realpath =
      match state.settled path with
      | some found => (state, found)
      | none => (state.write path name file realpath, file) := by
  unfold publish settled lookup
  by_cases hdel : state.deleted.contains path = true
  · rw [if_pos hdel, if_pos hdel]
  · rw [if_neg hdel, if_neg hdel, if_neg Bool.false_ne_true]
    cases hget : state.files.get path with
    | none =>
      by_cases horig : (state.files.original path).isSome = true
      · simp only [if_pos horig]
      · simp only [if_neg horig]
    | some current =>
      by_cases hload : (!current.needsReload) = true
      · simp only [if_pos hload, Bool.not_false, Bool.true_and]
      · simp only [if_neg hload, Bool.not_false, Bool.true_and]

theorem settled_write_self (state : BuildState H) (path name : JsString) (file : Option H)
    (realpath : Option JsString) (h : state.settled path = none) :
    (state.write path name file realpath).settled path = some file := by
  cases file with
  | none =>
    unfold settled lookup write
    rw [if_pos (by rw [Std.ExtTreeSet.contains_insert_self])]
  | some handle =>
    have hdel : ¬ state.deleted.contains path = true := by
      intro hdel
      rw [settled, lookup, if_pos hdel] at h
      cases h
    unfold settled lookup write
    rw [if_neg hdel]
    simp only [DirtyMap.get_insert, if_true, Bool.not_false, Bool.true_and]

theorem settled_write_of_ne (state : BuildState H) (path name : JsString) (file : Option H)
    (realpath : Option JsString) (other : JsString) (hne : path ≠ other) :
    (state.write path name file realpath).settled other = state.settled other := by
  cases file with
  | none =>
    have hdel : (state.deleted.insert path).contains other = state.deleted.contains other := by
      rw [Std.ExtTreeSet.contains_insert, beq_eq_false_iff_ne.2, Bool.false_or]
      rwa [Ne, Std.compare_eq_iff_eq]
    unfold settled lookup write
    simp only [hdel, DirtyMap.get_remove_of_ne _ _ _ hne, DirtyMap.original_remove]
  | some handle =>
    unfold settled lookup write
    simp only [DirtyMap.get_insert, if_neg hne, DirtyMap.original_insert]
    rfl

/-- what a publication returns is settled -/
theorem settled_publish (state : BuildState H) (path name : JsString) (file : Option H)
    (realpath : Option JsString) : (state.publish path name false file realpath).1.settled path =
      some (state.publish path name false file realpath).2 := by
  rw [publish_eq]
  cases h : state.settled path with
  | none => exact settled_write_self state path name file realpath h
  | some found => exact h

/-- what was settled before stays -/
theorem settled_mono (state : BuildState H) (path name : JsString) (file : Option H)
    (realpath : Option JsString) (other : JsString) (found : Option H)
    (h : state.settled other = some found) :
    (state.publish path name false file realpath).1.settled other = some found := by
  rw [publish_eq]
  cases hpath : state.settled path with
  | some x => exact h
  | none =>
    have hne : path ≠ other := by
      intro heq
      rw [heq, h] at hpath
      cases hpath
    show (state.write path name file realpath).settled other = some found
    rw [settled_write_of_ne state path name file realpath other hne, h]

theorem sealed_publish (state : BuildState H) (path name : JsString) (file : Option H)
    (realpath : Option JsString) :
    (state.publish path name false file realpath).1.sealed = state.sealed := by
  rw [publish_eq]
  cases state.settled path with
  | some found => rfl
  | none =>
    cases file with
    | none => rfl
    | some handle => rfl

/-- a file that is settled stands in the table -/
theorem get_of_settled (state : BuildState H) (path : JsString) (handle : H)
    (h : state.settled path = some (some handle)) :
    (state.files.get path).map (·.file) = some (some handle) := by
  unfold settled lookup at h
  by_cases hdel : state.deleted.contains path = true
  · rw [if_pos hdel] at h
    cases h
  · rw [if_neg hdel] at h
    cases hget : state.files.get path with
    | none =>
      rw [hget] at h
      by_cases horig : (state.files.original path).isSome = true
      · simp only [if_pos horig] at h
        cases h
      · simp only [if_neg horig] at h
        cases h
    | some entry =>
      rw [hget] at h
      by_cases hload : (!entry.needsReload) = true
      · simp only [hload, Bool.not_false, Bool.true_and, if_true] at h
        rw [Option.map_some, Option.some.inj h]
      · simp only [hload, Bool.not_false, Bool.true_and] at h
        cases h

end BuildState

/-! ## what a frozen snapshot keeps -/

namespace SnapshotFs

/-- what a frozen snapshot answers from now on, if that is fixed -/
def kept (snapshot : SnapshotFs E H) (path : JsString) : Option (Except E (Option H)) :=
  match snapshot.known path with
  | some file => some (.ok file)
  | none => snapshot.readFiles[path]?

theorem known_memoize (snapshot : SnapshotFs E H) (path : JsString)
    (answer : Except E (Option H)) (other : JsString) :
    (snapshot.memoize path answer).1.known other = snapshot.known other := by
  unfold memoize
  cases snapshot.readFiles[path]? with
  | none => rfl
  | some result => rfl

theorem kept_memoize_self (snapshot : SnapshotFs E H) (path : JsString)
    (answer : Except E (Option H)) (h : snapshot.known path = none) :
    (snapshot.memoize path answer).1.kept path = some (snapshot.memoize path answer).2 := by
  unfold kept
  rw [known_memoize, h]
  unfold memoize
  cases hread : snapshot.readFiles[path]? with
  | none => exact Std.ExtTreeMap.getElem?_insert_self
  | some result => exact hread

theorem kept_memoize_mono (snapshot : SnapshotFs E H) (path : JsString)
    (answer : Except E (Option H)) (other : JsString) (result : Except E (Option H))
    (h : snapshot.kept other = some result) :
    (snapshot.memoize path answer).1.kept other = some result := by
  unfold kept at h ⊢
  rw [known_memoize]
  cases hknown : snapshot.known other with
  | some file =>
    rw [hknown] at h
    exact h
  | none =>
    rw [hknown] at h
    unfold memoize
    cases hread : snapshot.readFiles[path]? with
    | some found => exact h
    | none =>
      show (snapshot.readFiles.insert path answer)[other]? = some result
      rw [Std.ExtTreeMap.getElem?_insert, if_neg]
      · exact h
      · intro heq
        rw [Std.compare_eq_iff_eq] at heq
        rw [heq] at hread
        rw [hread] at h
        cases h

end SnapshotFs

/-! ## every result stands -/

namespace FileReads

/-- what the builder says of a path, once `finalize` has begun too -/
def value (s : FileReads E H) (path : JsString) : Option (Option H) :=
  match s.builder.overlays[path]? with
  | some file => some (some file)
  | none => (s.taken.getD s.builder.state).settled path

def Stands (s : FileReads E H) (r : FileResult E H) : Prop :=
  match r.late with
  | false => ∀ file, r.result = .ok file → s.value r.path = some file
  | true => ∃ snapshot, s.builder.frozen = some snapshot ∧ snapshot.kept r.path = some r.result

/-- a call is where its path allows it to be -/
def Fits (s : FileReads E H) (call : FileCall H) : Prop :=
  match call.phase with
  | .memoizing => ∃ snapshot, s.builder.frozen = some snapshot ∧ snapshot.known call.path = none
  | _ => s.builder.overlays[call.path]? = none

structure Sound (s : FileReads E H) : Prop where
  fits : ∀ call ∈ s.calls, call.phase ≠ .ended → s.Fits call
  sealed_iff : s.builder.state.sealed = s.taken.isSome
  frozen : ∀ snapshot, s.builder.frozen = some snapshot → ∃ state, s.taken = some state ∧
    snapshot.overlays = s.builder.overlays ∧ snapshot.diskFiles = state.files.finalize.1
  stands : ∀ r ∈ s.returned, s.Stands r

variable {s : FileReads E H} {call : FileCall H} {phase : FilePhase H} {i : Nat}

theorem fits_of_pending (s : FileReads E H) (call : FileCall H)
    (h : call.Pending s.builder.overlays) : s.Fits call := by
  obtain ⟨hover, hphase⟩ := h
  unfold Fits
  cases hp : call.phase with
  | memoizing => exact absurd hp hphase
  | _ => exact hover

theorem Stands.mono (s s' : FileReads E H) (r : FileResult E H)
    (hvalue : ∀ path file, s.value path = some file → s'.value path = some file)
    (hkept : ∀ snapshot, s.builder.frozen = some snapshot → ∃ snapshot',
      s'.builder.frozen = some snapshot' ∧
        ∀ path result, snapshot.kept path = some result → snapshot'.kept path = some result)
    (h : s.Stands r) : s'.Stands r := by
  obtain ⟨path, late, result⟩ := r
  cases late with
  | false =>
    intro file hfile
    exact hvalue path file (h file hfile)
  | true =>
    obtain ⟨snapshot, hfrozen, hresult⟩ := h
    obtain ⟨snapshot', hfrozen', hmono⟩ := hkept snapshot hfrozen
    exact ⟨snapshot', hfrozen', hmono path result hresult⟩

theorem Sound.log (h : s.Sound) (path : JsString) (late : Bool) (result : Except E (Option H))
    (hr : s.Stands ⟨path, late, result⟩) : (s.log path late result).Sound := by
  refine ⟨h.fits, h.sealed_iff, h.frozen, ?_⟩
  intro r hmem
  rcases List.mem_append.1 hmem with hmem | hmem
  · exact h.stands r hmem
  · rw [List.mem_singleton.1 hmem]
    exact hr

theorem Sound.enter (h : s.Sound) (hfits : s.Fits call) : (s.enter call).Sound := by
  refine ⟨?_, h.sealed_iff, h.frozen, h.stands⟩
  intro c hmem
  rcases List.mem_append.1 hmem with hmem | hmem
  · exact h.fits c hmem
  · rw [List.mem_singleton.1 hmem]
    exact fun _ => hfits

theorem Sound.move (h : s.Sound) (hfits : phase ≠ .ended → s.Fits { call with phase := phase }) :
    (s.move i call phase).Sound := by
  refine ⟨?_, h.sealed_iff, h.frozen, h.stands⟩
  intro c hmem
  rcases List.mem_or_eq_of_mem_set hmem with hmem | rfl
  · exact h.fits c hmem
  · exact hfits

theorem Sound.ended (h : s.Sound) : (s.move i call .ended).Sound :=
  h.move fun hne => absurd rfl hne

/-- a state of the tables in which nothing that was settled has changed -/
theorem Sound.setState (h : s.Sound) (state : BuildState H) (htaken : s.taken = none)
    (hsealed : state.sealed = s.builder.state.sealed)
    (hmono : ∀ path file, s.builder.state.settled path = some file →
      state.settled path = some file) : (s.setState state).Sound := by
  refine ⟨h.fits, hsealed.trans h.sealed_iff, h.frozen, ?_⟩
  intro r hmem
  refine Stands.mono s _ r ?_ (fun snapshot hf => ⟨snapshot, hf, fun _ _ hk => hk⟩) (h.stands r hmem)
  intro path file hfile
  unfold value at hfile ⊢
  show (match s.builder.overlays[path]? with
    | some file => some (some file)
    | none => (s.taken.getD state).settled path) = some file
  cases hover : s.builder.overlays[path]? with
  | some file' =>
    rw [hover] at hfile
    exact hfile
  | none =>
    rw [hover, htaken] at hfile
    rw [htaken]
    exact hmono path file hfile

theorem Sound.memoize (h : s.Sound) (snapshot : SnapshotFs E H) (path : JsString)
    (answer : Except E (Option H)) (hfrozen : s.builder.frozen = some snapshot) :
    (s.setFrozen (snapshot.memoize path answer).1).Sound := by
  have hsame : (snapshot.memoize path answer).1.overlays = snapshot.overlays ∧
      (snapshot.memoize path answer).1.diskFiles = snapshot.diskFiles := by
    unfold SnapshotFs.memoize
    cases snapshot.readFiles[path]? with
    | none => exact ⟨rfl, rfl⟩
    | some result => exact ⟨rfl, rfl⟩
  refine ⟨?_, h.sealed_iff, ?_, ?_⟩
  · intro call hmem hne
    have hfits := h.fits call hmem hne
    unfold Fits at hfits ⊢
    cases hphase : call.phase with
    | memoizing =>
      rw [hphase] at hfits
      obtain ⟨snapshot', hfrozen', hknown⟩ := hfits
      rw [hfrozen, Option.some.injEq] at hfrozen'
      subst hfrozen'
      refine ⟨_, rfl, ?_⟩
      rw [SnapshotFs.known_memoize, hknown]
    | _ =>
      rw [hphase] at hfits
      exact hfits
  · intro snapshot' heq
    obtain ⟨state, htaken, hover, hdisk⟩ := h.frozen snapshot hfrozen
    cases heq
    exact ⟨state, htaken, hsame.1.trans hover, hsame.2.trans hdisk⟩
  · intro r hmem
    refine Stands.mono s _ r (fun _ _ hv => hv) ?_ (h.stands r hmem)
    intro snapshot' heq
    rw [hfrozen, Option.some.injEq] at heq
    subst heq
    exact ⟨_, rfl, SnapshotFs.kept_memoize_mono snapshot path answer⟩

end FileReads

section
variable (basePath snapshotPath : JsString → JsString) {s s' : FileReads E H}

open FileReads

theorem sound_beginCall (h : s.Sound) (name : JsString) :
    (beginCall basePath snapshotPath name s).Sound := by
  unfold beginCall
  cases hfrozen : s.builder.frozen with
  | none =>
    cases hover : s.builder.overlays[basePath name]? with
    | none => exact h.enter hover
    | some file =>
      apply h.log
      intro found hfound
      cases hfound
      show s.value (basePath name) = some (some file)
      rw [FileReads.value, hover]
  | some snapshot =>
    cases hknown : snapshot.known (snapshotPath name) with
    | none =>
      simp only [hknown]
      apply h.enter
      exact ⟨snapshot, hfrozen, hknown⟩
    | some file =>
      simp only [hknown]
      apply h.log
      refine ⟨snapshot, hfrozen, ?_⟩
      show snapshot.kept (snapshotPath name) = some (.ok file)
      rw [SnapshotFs.kept, hknown]

/-- the value of a path that is no overlay, while the tables can change -/
theorem value_eq (h : s.Sound) (path : JsString) (hover : s.builder.overlays[path]? = none)
    (hopen : ¬ s.builder.state.sealed = true) :
    s.taken = none ∧ s.value path = s.builder.state.settled path := by
  have htaken : s.taken = none := by
    cases ht : s.taken with
    | none => rfl
    | some state =>
      rw [h.sealed_iff, ht] at hopen
      exact absurd rfl hopen
  refine ⟨htaken, ?_⟩
  rw [FileReads.value, hover, htaken]
  rfl

theorem sound_moveCall (h : s.Sound) (i : Nat) (call : FileCall H) (action : FileAction E H)
    (hfits : call.phase ≠ .ended → s.Fits call)
    (hstep : moveCall basePath i call action s = some s') : s'.Sound := by
  obtain ⟨name, path, phase⟩ := call
  have hend : (s.move i ⟨name, path, phase⟩ .ended).Sound := h.ended
  cases phase with
  | looking =>
    have hover : s.builder.overlays[path]? = none := hfits nofun
    cases action with
    | lookup j =>
      unfold moveCall at hstep
      simp only at hstep
      by_cases hopen : s.builder.state.sealed = true
      · rw [if_pos hopen] at hstep
        cases hstep
        exact hend
      · rw [if_neg hopen] at hstep
        obtain ⟨htaken, hvalue⟩ := value_eq h path hover hopen
        cases hlook : s.builder.state.lookup path false with
        | load entry =>
          rw [hlook] at hstep
          cases hstep
          exact h.move fun _ => hover
        | found file =>
          rw [hlook] at hstep
          cases hstep
          apply hend.log
          intro found hfound
          cases hfound
          show s.value path = some file
          rw [hvalue, BuildState.settled, hlook]
    | _ => cases hstep
  | reading entry =>
    have hover : s.builder.overlays[path]? = none := hfits nofun
    cases action with
    | read j answer =>
      unfold moveCall at hstep
      cases answer with
      | error e =>
        cases hstep
        exact hend.log _ _ _ nofun
      | ok file =>
        cases hstep
        apply h.move
        intro hne
        unfold afterRead
        cases entry with
        | some entry => exact hover
        | none =>
          by_cases hlink : isNodeModulesPath name = true
          · simp only [if_pos hlink]
            exact hover
          · simp only [if_neg hlink]
            exact hover
    | _ => cases hstep
  | resolving file =>
    have hover : s.builder.overlays[path]? = none := hfits nofun
    cases action with
    | resolve j answer =>
      unfold moveCall at hstep
      cases answer with
      | error e =>
        cases hstep
        exact hend.log _ _ _ nofun
      | ok real =>
        cases hstep
        exact h.move fun _ => hover
    | _ => cases hstep
  | publishing file realpath =>
    have hover : s.builder.overlays[path]? = none := hfits nofun
    cases action with
    | publish j =>
      unfold moveCall at hstep
      simp only at hstep
      by_cases hopen : s.builder.state.sealed = true
      · rw [if_pos hopen] at hstep
        cases hstep
        exact hend
      · rw [if_neg hopen] at hstep
        cases hstep
        obtain ⟨htaken, -⟩ := value_eq h path hover hopen
        have hset := hend.setState (s.builder.state.publish path name false file realpath).1 htaken
          (BuildState.sealed_publish _ _ _ _ _) (BuildState.settled_mono _ _ _ _ _)
        apply hset.log
        intro found hfound
        cases hfound
        unfold FileReads.value
        show (match s.builder.overlays[path]? with
          | some file => some (some file)
          | none => (s.taken.getD (s.builder.state.publish path name false file realpath).1).settled
              path) = some (s.builder.state.publish path name false file realpath).2
        rw [hover, htaken]
        exact BuildState.settled_publish _ _ _ _ _
    | _ => cases hstep
  | memoizing =>
    obtain ⟨snapshot, hfrozen, hknown⟩ := hfits nofun
    cases action with
    | memoize j answer =>
      unfold moveCall at hstep
      simp only [hfrozen] at hstep
      cases hstep
      have hset := hend.memoize snapshot path answer hfrozen
      apply hset.log
      exact ⟨_, rfl, SnapshotFs.kept_memoize_self snapshot path answer hknown⟩
    | _ => cases hstep
  | ended => cases action <;> cases hstep

theorem sound_takeFiles (h : s.Sound) (hstep : takeFiles s = some s') : s'.Sound := by
  unfold takeFiles at hstep
  by_cases hopen : (s.builder.frozen.isSome || s.builder.state.sealed) = true
  · rw [if_pos hopen] at hstep
    cases hstep
  · rw [if_neg hopen] at hstep
    cases hstep
    rw [Bool.or_eq_true, not_or] at hopen
    have hfrozen : s.builder.frozen = none := by
      rw [← Option.not_isSome_iff_eq_none]
      exact hopen.1
    have htaken : s.taken = none := by
      rw [← Option.not_isSome_iff_eq_none, ← h.sealed_iff]
      exact hopen.2
    refine ⟨h.fits, rfl, ?_, ?_⟩
    · intro snapshot heq
      rw [show s.builder.frozen = some snapshot from heq] at hfrozen
      cases hfrozen
    · intro r hmem
      refine Stands.mono s _ r ?_ (fun snapshot hf => ⟨snapshot, hf, fun _ _ hk => hk⟩)
        (h.stands r hmem)
      intro path file hfile
      unfold FileReads.value at hfile ⊢
      rw [htaken] at hfile
      exact hfile

theorem sound_freeze (h : s.Sound) (hstep : freeze s = some s') : s'.Sound := by
  unfold freeze at hstep
  cases htaken : s.taken with
  | none =>
    rw [htaken] at hstep
    cases hstep
  | some state =>
    cases hfrozen : s.builder.frozen with
    | some snapshot =>
      rw [htaken, hfrozen] at hstep
      cases hstep
    | none =>
      rw [htaken, hfrozen] at hstep
      cases hstep
      refine ⟨?_, h.sealed_iff, ?_, ?_⟩
      · intro call hmem hne
        have hfits := h.fits call hmem hne
        unfold FileReads.Fits at hfits ⊢
        cases hphase : call.phase with
        | memoizing =>
          rw [hphase, hfrozen] at hfits
          obtain ⟨snapshot, heq, -⟩ := hfits
          cases heq
        | _ =>
          rw [hphase] at hfits
          exact hfits
      · intro snapshot heq
        cases heq
        exact ⟨state, htaken, rfl, rfl⟩
      · intro r hmem
        refine Stands.mono s _ r (fun _ _ hv => hv) ?_ (h.stands r hmem)
        intro snapshot heq
        rw [hfrozen] at heq
        cases heq

/-- **One step keeps every result.** -/
theorem sound_fileStep (action : FileAction E H) (s s' : FileReads E H) (h : s.Sound)
    (hstep : fileStep basePath snapshotPath action s = some s') : s'.Sound := by
  have hcall : ∀ i, callStep basePath i action s = some s' → s'.Sound := by
    intro i hi
    unfold callStep at hi
    cases hc : s.calls[i]? with
    | none =>
      rw [hc] at hi
      cases hi
    | some call =>
      rw [hc] at hi
      exact sound_moveCall basePath h i call action (h.fits call (List.mem_of_getElem? hc)) hi
  cases action with
  | call name =>
    cases hstep
    exact sound_beginCall basePath snapshotPath h name
  | lookup i => exact hcall i hstep
  | read i answer => exact hcall i hstep
  | resolve i answer => exact hcall i hstep
  | publish i => exact hcall i hstep
  | memoize i answer => exact hcall i hstep
  | take => exact sound_takeFiles h hstep
  | freeze => exact sound_freeze h hstep

end

/-! ## results of one path -/

section
variable (base : SnapshotFs E H) (overlays : Std.ExtTreeMap JsString H)
  (overlayDirectories : Directories) (files : DirtyMap JsString (DiskEntry H))
  (deleted : Std.ExtTreeSet JsString) (calls : List {call : FileCall H // call.Pending overlays})

theorem sound_atWork : (atWork (E := E) base overlays overlayDirectories files deleted calls).Sound := by
  refine ⟨?_, rfl, ?_, ?_⟩
  · intro call hmem hne
    obtain ⟨c, -, rfl⟩ := List.mem_map.1 hmem
    exact FileReads.fits_of_pending _ c.1 c.2
  · intro snapshot heq
    cases heq
  · intro r hmem
    exact absurd hmem List.not_mem_nil

/-- a file that the builder has returned is known to the frozen snapshot -/
theorem known_of_value {s : FileReads E H} (h : s.Sound) (snapshot : SnapshotFs E H)
    (hfrozen : s.builder.frozen = some snapshot) (path : JsString) (handle : H)
    (hvalue : s.value path = some (some handle)) : snapshot.known path = some (some handle) := by
  obtain ⟨state, htaken, hover, hdisk⟩ := h.frozen snapshot hfrozen
  unfold FileReads.value at hvalue
  unfold SnapshotFs.known
  rw [hover]
  cases ho : s.builder.overlays[path]? with
  | some file =>
    rw [ho] at hvalue
    cases hvalue
    rfl
  | none =>
    rw [ho, htaken] at hvalue
    show snapshot.diskFiles[path]?.map (·.file) = some (some handle)
    rw [hdisk, DirtyMap.getElem?_finalize]
    exact BuildState.get_of_settled state path handle hvalue

/-- **What a request for a file returned stands.**  Before `finalize` every result for a path is the
same, file or absence; so is every result of the frozen snapshot; and a file that was returned
before is returned after. -/
theorem get_file_stable (basePath snapshotPath : JsString → JsString)
    (actions : List (FileAction E H)) (s : FileReads E H)
    (hrun : exec (fileStep basePath snapshotPath) actions
      (atWork base overlays overlayDirectories files deleted calls) = some s)
    (a b : FileResult E H) (ha : a ∈ s.returned) (hb : b ∈ s.returned) (hpath : a.path = b.path) :
    (a.late = false → b.late = false →
      ∀ file file', a.result = .ok file → b.result = .ok file' → file = file') ∧
    (a.late = true → b.late = true → a.result = b.result) ∧
    (a.late = false → b.late = true →
      ∀ handle, a.result = .ok (some handle) → b.result = .ok (some handle)) := by
  have h : s.Sound := exec_invariant _ FileReads.Sound (sound_fileStep basePath snapshotPath)
    actions _ s (sound_atWork base overlays overlayDirectories files deleted calls) hrun
  have hsa := h.stands a ha
  have hsb := h.stands b hb
  unfold FileReads.Stands at hsa hsb
  refine ⟨?_, ?_, ?_⟩
  · intro hearly hearly' file file' hfile hfile'
    rw [hearly] at hsa
    rw [hearly'] at hsb
    have h1 := hsa file hfile
    have h2 := hsb file' hfile'
    rw [hpath, h2] at h1
    exact (Option.some.inj h1).symm
  · intro hlate hlate'
    rw [hlate] at hsa
    rw [hlate'] at hsb
    obtain ⟨snapshot, hfrozen, hkept⟩ := hsa
    obtain ⟨snapshot', hfrozen', hkept'⟩ := hsb
    rw [hfrozen, Option.some.injEq] at hfrozen'
    subst hfrozen'
    rw [hpath, hkept'] at hkept
    exact (Option.some.inj hkept).symm
  · intro hearly hlate handle hfile
    rw [hearly] at hsa
    rw [hlate] at hsb
    obtain ⟨snapshot, hfrozen, hkept⟩ := hsb
    have hknown := known_of_value h snapshot hfrozen a.path handle (hsa _ hfile)
    rw [← hpath, SnapshotFs.kept, hknown] at hkept
    exact (Option.some.inj hkept).symm

end

/-- a builder over an empty snapshot -/
def freshReads : FileReads Unit Nat :=
  atWork ⟨∅, ∅, ∅, ∅, ∅, ∅⟩ ∅ ∅ (DirtyMap.new ∅) ∅ []

def aTs : JsString := bytesOf "/a.ts"

/-- two readers get two answers, and the second publishes first -/
def racingReads : List (FileAction Unit Nat) :=
  [.call aTs, .call aTs, .lookup 0, .lookup 1, .read 0 (.ok (some 1)), .read 1 (.ok (some 2)),
    .publish 1, .publish 0, .take, .freeze, .call aTs]

theorem get_file_stable_racing : ∃ s, exec (fileStep id id) racingReads freshReads = some s ∧
    (⟨aTs, false, .ok (some 2)⟩ : FileResult Unit Nat) ∈ s.returned ∧
    ∀ b ∈ s.returned, aTs = b.path → b.late = true → b.result = .ok (some 2) := by
  have hrun : (exec (fileStep id id) racingReads freshReads).map (·.returned) =
      some [⟨aTs, false, .ok (some 2)⟩, ⟨aTs, false, .ok (some 2)⟩, ⟨aTs, true, .ok (some 2)⟩] := by
    decide +kernel
  obtain ⟨s, hs, hreturned⟩ := Option.map_eq_some_iff.1 hrun
  have hfirst : (⟨aTs, false, .ok (some 2)⟩ : FileResult Unit Nat) ∈ s.returned := by
    rw [hreturned]
    exact List.mem_cons_self
  refine ⟨s, hs, hfirst, ?_⟩
  intro b hb hpath hlate
  exact (get_file_stable _ _ _ _ _ _ id id racingReads s hs _ b hfirst hb hpath).2.2 rfl hlate 2 rfl

/-- the file is written after the last read of the builder -/
def lateFile : List (FileAction Unit Nat) :=
  [.call aTs, .lookup 0, .read 0 (.ok none), .publish 0, .take, .freeze, .call aTs,
    .memoize 1 (.ok (some 1))]

/-- **An absence does not stand in the frozen snapshot.** -/
theorem getFile_absent_then_present :
    (exec (fileStep id id) lateFile freshReads).map (·.returned) =
      some [⟨aTs, false, .ok none⟩, ⟨aTs, true, .ok (some 1)⟩] := by
  decide +kernel

end Tsr.Project
