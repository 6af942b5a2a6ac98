import Tsr.Lib.Run
import Tsr.Project.Directories
import Tsr.Project.Overlay

/-!
# The files a snapshot has read

While a snapshot is built, any number of threads ask its builder for files.  A read of the host
happens outside the lock, so two of them can race; the one that publishes first wins.  `finalize`
freezes the tables, and from then on the frozen snapshot answers.

* `DirtyMap`      a table over a base that is not changed;
* `Lookup`        what `disk_file` finds under its first lock;
* `publish`       what it does under its second;
* `step`          one step of one thread, of `finalize`, or of a frozen read.

The answers of the host are arguments of the actions: nothing is assumed of them.
-/

set_option linter.unusedSectionVars false
set_option linter.unusedVariables false

namespace Tsr.Project
open Tsr.Json (Bytes)
open Tsr.Lib.Run

/-! ## a table over a base -/

/-- `none` in `changes` is a key that was taken out -/
structure DirtyMap (K V : Type) [Ord K] where
  base : Std.ExtTreeMap K V
  changes : Std.ExtTreeMap K (Option V)

namespace DirtyMap
variable {K V : Type} [Ord K] [Std.TransOrd K] [Std.LawfulEqOrd K] [DecidableEq K]

def new (base : Std.ExtTreeMap K V) : DirtyMap K V := ⟨base, ∅⟩

def original (m : DirtyMap K V) (key : K) : Option V := m.base[key]?

def get (m : DirtyMap K V) (key : K) : Option V :=
  match m.changes[key]? with
  | none => m.base[key]?
  | some value => value

def insert (m : DirtyMap K V) (key : K) (value : V) : DirtyMap K V :=
  { m with changes := m.changes.insert key (some value) }

def remove (m : DirtyMap K V) (key : K) : DirtyMap K V :=
  if m.base.contains key || m.changes.contains key then
    { m with changes := m.changes.insert key none }
  else m

def apply (values : Std.ExtTreeMap K V) (change : K × Option V) : Std.ExtTreeMap K V :=
  match change.2 with
  | some value => values.insert change.1 value
  | none => values.erase change.1

/-- the table, and whether it differs from the base -/
def finalize (m : DirtyMap K V) : Std.ExtTreeMap K V × Bool :=
  if m.changes.isEmpty then (m.base, false)
  else (m.changes.toList.foldl apply m.base, true)

theorem original_insert (m : DirtyMap K V) (k : K) (value : V) (key : K) :
    (m.insert k value).original key = m.original key := rfl

theorem original_remove (m : DirtyMap K V) (k key : K) :
    (m.remove k).original key = m.original key := by
  rw [remove]
  split
  · rfl
  · rfl

theorem get_insert (m : DirtyMap K V) (k : K) (value : V) (key : K) :
    (m.insert k value).get key = if k = key then some value else m.get key := by
  unfold get insert
  rw [Std.ExtTreeMap.getElem?_insert]
  simp only [Std.compare_eq_iff_eq]
  by_cases hk : k = key
  · rw [if_pos hk, if_pos hk]
  · rw [if_neg hk, if_neg hk]

theorem get_remove_of_ne (m : DirtyMap K V) (k key : K) (hne : k ≠ key) :
    (m.remove k).get key = m.get key := by
  rw [remove]
  split
  · unfold get
    rw [Std.ExtTreeMap.getElem?_insert, if_neg (by rwa [Std.compare_eq_iff_eq])]
  · rfl

theorem getElem?_apply (values : Std.ExtTreeMap K V) (change : K × Option V) (key : K) :
    (apply values change)[key]? = if change.1 = key then change.2 else values[key]? := by
  obtain ⟨k, value⟩ := change
  cases value with
  | none =>
    show (values.erase k)[key]? = _
    rw [Std.ExtTreeMap.getElem?_erase]
    simp only [Std.compare_eq_iff_eq]
  | some value =>
    show (values.insert k value)[key]? = _
    rw [Std.ExtTreeMap.getElem?_insert]
    simp only [Std.compare_eq_iff_eq]

theorem foldl_apply_of_not_mem (l : List (K × Option V)) (values : Std.ExtTreeMap K V) (key : K)
    (h : ∀ change ∈ l, change.1 ≠ key) : (l.foldl apply values)[key]? = values[key]? := by
  induction l generalizing values with
  | nil => rfl
  | cons change l ih =>
    rw [List.foldl_cons, ih _ fun c hc => h c (List.mem_cons_of_mem _ hc), getElem?_apply,
      if_neg (h change List.mem_cons_self)]

theorem foldl_apply_of_mem (l : List (K × Option V)) (values : Std.ExtTreeMap K V) (key : K)
    (value : Option V) (hl : l.Pairwise fun a b => a.1 ≠ b.1) (h : (key, value) ∈ l) :
    (l.foldl apply values)[key]? = value := by
  induction l generalizing values with
  | nil => exact absurd h List.not_mem_nil
  | cons change l ih =>
    obtain ⟨hne, hl'⟩ := List.pairwise_cons.1 hl
    rw [List.foldl_cons]
    rcases List.mem_cons.1 h with rfl | h
    · rw [foldl_apply_of_not_mem l _ key fun c hc => (hne c hc).symm, getElem?_apply, if_pos rfl]
    · exact ih _ hl' h

/-- **The final table has what the map had.** -/
theorem getElem?_finalize (m : DirtyMap K V) (key : K) : m.finalize.1[key]? = m.get key := by
  unfold finalize get
  cases hkey : m.changes[key]? with
  | none =>
    split
    · rfl
    · apply foldl_apply_of_not_mem
      intro change hmem heq
      have hget := Std.ExtTreeMap.mem_toList_iff_getElem?_eq_some.1 (show (change.1, change.2) ∈ _ from hmem)
      rw [heq, hkey] at hget
      cases hget
  | some value =>
    have hmem : (key, value) ∈ m.changes.toList :=
      Std.ExtTreeMap.mem_toList_iff_getElem?_eq_some.2 hkey
    rw [if_neg (fun hempty => ?_)]
    · apply foldl_apply_of_mem _ _ _ _ ?_ hmem
      refine Std.ExtTreeMap.distinct_keys_toList.imp ?_
      intro a b hab heq
      exact hab (Std.compare_eq_iff_eq.2 heq)
    · rw [Std.ExtTreeMap.isEmpty_iff.1 hempty, Std.ExtTreeMap.getElem?_empty] at hkey
      cases hkey

end DirtyMap

/-! ## the frozen snapshot -/

abbrev Aliases := Std.ExtTreeMap JsString (Std.ExtTreeSet JsString)

/-- `E` is an error of the host, `H` a handle of a file -/
structure SnapshotFs (E H : Type) where
  overlays : Std.ExtTreeMap JsString H
  overlayDirectories : Directories
  diskFiles : DiskFiles H
  diskDirectories : Directories
  aliases : Aliases
  readFiles : Std.ExtTreeMap JsString (Except E (Option H))

variable {E H : Type}

/-- what a frozen snapshot answers without the host -/
def SnapshotFs.known (snapshot : SnapshotFs E H) (path : JsString) : Option (Option H) :=
  match snapshot.overlays[path]? with
  | some file => some (some file)
  | none => snapshot.diskFiles[path]?.map (·.file)

/-- the first answer for a path is kept, an error too -/
def SnapshotFs.memoize (snapshot : SnapshotFs E H) (path : JsString)
    (answer : Except E (Option H)) : SnapshotFs E H × Except E (Option H) :=
  match snapshot.readFiles[path]? with
  | some result => (snapshot, result)
  | none => ({ snapshot with readFiles := snapshot.readFiles.insert path answer }, answer)

/-! ## the builder -/

structure BuildState (H : Type) where
  files : DirtyMap JsString (DiskEntry H)
  deleted : Std.ExtTreeSet JsString
  sealed : Bool

inductive Lookup (H : Type) where
  | found (file : Option H)
  | load (entry : Option (DiskEntry H))

namespace BuildState

/-- the first lock of `disk_file` -/
def lookup (state : BuildState H) (path : JsString) (force : Bool) : Lookup H :=
  if state.deleted.contains path then .found none
  else match state.files.get path with
    | some entry =>
      if !force && !entry.needsReload then .found entry.file else .load (some entry)
    | none => if (state.files.original path).isSome then .found none else .load none

def write (state : BuildState H) (path name : JsString) (file : Option H)
    (realpath : Option JsString) : BuildState H :=
  match file with
  | some handle =>
    { state with files := state.files.insert path ⟨name, some handle, false, realpath⟩ }
  | none =>
    { state with files := state.files.remove path, deleted := state.deleted.insert path }

/-- the second lock of `disk_file`: the entry is looked at again -/
def publish (state : BuildState H) (path name : JsString) (force : Bool) (file : Option H)
    (realpath : Option JsString) : BuildState H × Option H :=
  if state.deleted.contains path then (state, none)
  else if force then (state.write path name file realpath, file)
  else match state.files.get path with
    | some current =>
      if !current.needsReload then (state, current.file)
      else (state.write path name file realpath, file)
    | none =>
      if (state.files.original path).isSome then (state, none)
      else (state.write path name file realpath, file)

end BuildState

structure SnapshotFsBuilder (E H : Type) where
  base : SnapshotFs E H
  overlays : Std.ExtTreeMap JsString H
  overlayDirectories : Directories
  state : BuildState H
  frozen : Option (SnapshotFs E H)

def isNodeModulesPath (path : JsString) : Bool := decide (bytesOf "/node_modules/" <:+: path)

/-- the paths each real path is reached by -/
def aliasesOf (files : DiskFiles H) : Aliases :=
  files.toList.foldl (fun aliases file =>
    match file.2.realpath with
    | some realpath => aliases.insert realpath ((aliases[realpath]?.getD ∅).insert file.1)
    | none => aliases) ∅

/-- `files` and `changed` are what `finalize` took out of the state under the lock -/
def SnapshotFsBuilder.snapshot (builder : SnapshotFsBuilder E H) (files : DiskFiles H)
    (changed : Bool) : SnapshotFs E H :=
  let base := builder.base
  let aliasesChanged := changed && (files.size != base.diskFiles.size ||
    files.toList.any fun file => match base.diskFiles[file.1]? with
      | none => true
      | some old => old.realpath != file.2.realpath)
  { overlays := builder.overlays
    overlayDirectories := builder.overlayDirectories
    diskFiles := files
    diskDirectories :=
      if changed then updateDirectories base.diskFiles base.diskDirectories files
      else base.diskDirectories
    aliases := if aliasesChanged then aliasesOf files else base.aliases
    readFiles := ∅ }

/-! ## calls of `get_file` -/

/-- what a call does next -/
inductive FilePhase (H : Type) where
  | looking
  | reading (entry : Option (DiskEntry H))
  | resolving (file : Option H)
  | publishing (file : Option H) (realpath : Option JsString)
  | memoizing
  | ended
deriving DecidableEq

/-- `path` is the canonical path of `name` -/
structure FileCall (H : Type) where
  name : JsString
  path : JsString
  phase : FilePhase H

/-- what a call returned; `late` says that the frozen snapshot answered -/
structure FileResult (E H : Type) where
  path : JsString
  late : Bool
  result : Except E (Option H)
deriving DecidableEq

/-- `taken` is the state that `finalize` has sealed, `returned` the results so far -/
structure FileReads (E H : Type) where
  builder : SnapshotFsBuilder E H
  taken : Option (BuildState H)
  calls : List (FileCall H)
  returned : List (FileResult E H)

inductive FileAction (E H : Type) where
  | call (name : JsString)
  | lookup (i : Nat)
  | read (i : Nat) (answer : Except E (Option H))
  | resolve (i : Nat) (answer : Except E JsString)
  | publish (i : Nat)
  | memoize (i : Nat) (answer : Except E (Option H))
  | take
  | freeze

namespace FileReads

def log (s : FileReads E H) (path : JsString) (late : Bool) (result : Except E (Option H)) :
    FileReads E H :=
  { s with returned := s.returned ++ [⟨path, late, result⟩] }

def enter (s : FileReads E H) (call : FileCall H) : FileReads E H :=
  { s with calls := s.calls ++ [call] }

def move (s : FileReads E H) (i : Nat) (call : FileCall H) (phase : FilePhase H) :
    FileReads E H :=
  { s with calls := s.calls.set i { call with phase := phase } }

def setState (s : FileReads E H) (state : BuildState H) : FileReads E H :=
  { s with builder := { s.builder with state := state } }

/-- the frozen snapshot keeps the answer -/
def setFrozen (s : FileReads E H) (snapshot : SnapshotFs E H) : FileReads E H :=
  { s with builder := { s.builder with frozen := some snapshot } }

end FileReads

section
variable (basePath snapshotPath : JsString → JsString)

/-- `get_file` up to its first lock -/
def beginCall (name : JsString) (s : FileReads E H) : FileReads E H :=
  match s.builder.frozen with
  | some snapshot =>
    match snapshot.known (snapshotPath name) with
    | some file => s.log (snapshotPath name) true (.ok file)
    | none => s.enter ⟨name, snapshotPath name, .memoizing⟩
  | none =>
    match s.builder.overlays[basePath name]? with
    | some file => s.log (basePath name) false (.ok (some file))
    | none => s.enter ⟨name, basePath name, .looking⟩

/-- the real path is asked for only where a package can be linked -/
def afterRead (call : FileCall H) (entry : Option (DiskEntry H)) (file : Option H) : FilePhase H :=
  match entry with
  | some entry => .publishing file entry.realpath
  | none => if isNodeModulesPath call.name then .resolving file else .publishing file none

def moveCall (i : Nat) (call : FileCall H) (action : FileAction E H) (s : FileReads E H) :
    Option (FileReads E H) :=
  match action, call.phase with
  | .lookup _, .looking =>
    -- a sealed builder panics
    if s.builder.state.sealed then some (s.move i call .ended)
    else match s.builder.state.lookup call.path false with
      | .found file => some ((s.move i call .ended).log call.path false (.ok file))
      | .load entry => some (s.move i call (.reading entry))
  | .read _ answer, .reading entry =>
    match answer with
    | .error e => some ((s.move i call .ended).log call.path false (.error e))
    | .ok file => some (s.move i call (afterRead call entry file))
  | .resolve _ answer, .resolving file =>
    match answer with
    | .error e => some ((s.move i call .ended).log call.path false (.error e))
    | .ok name =>
      let realpath := basePath name
      some (s.move i call (.publishing file (if realpath = call.path then none else some realpath)))
  | .publish _, .publishing file realpath =>
    if s.builder.state.sealed then some (s.move i call .ended)
    else
      let published := s.builder.state.publish call.path call.name false file realpath
      some (((s.move i call .ended).setState published.1).log call.path false (.ok published.2))
  | .memoize _ answer, .memoizing =>
    match s.builder.frozen with
    | none => none
    | some snapshot =>
      let kept := snapshot.memoize call.path answer
      some (((s.move i call .ended).setFrozen kept.1).log call.path true kept.2)
  | _, _ => none

/-- `finalize` under the lock -/
def takeFiles (s : FileReads E H) : Option (FileReads E H) :=
  if s.builder.frozen.isSome || s.builder.state.sealed then none
  else some { s.setState ⟨DirtyMap.new ∅, s.builder.state.deleted, true⟩ with
    taken := some s.builder.state }

/-- the rest of `finalize` -/
def freeze (s : FileReads E H) : Option (FileReads E H) :=
  match s.taken, s.builder.frozen with
  | some state, none =>
    some (s.setFrozen (s.builder.snapshot state.files.finalize.1 state.files.finalize.2))
  | _, _ => none

def callStep (i : Nat) (action : FileAction E H) (s : FileReads E H) : Option (FileReads E H) :=
  match s.calls[i]? with
  | some call => moveCall basePath i call action s
  | none => none

def fileStep (action : FileAction E H) (s : FileReads E H) : Option (FileReads E H) :=
  match action with
  | .call name => some (beginCall basePath snapshotPath name s)
  | .lookup i => callStep basePath i action s
  | .read i answer => callStep basePath i action s
  | .resolve i answer => callStep basePath i action s
  | .publish i => callStep basePath i action s
  | .memoize i answer => callStep basePath i action s
  | .take => takeFiles s
  | .freeze => freeze s

end

/-- a call that is past the overlays, and not at the frozen snapshot -/
def FileCall.Pending (overlays : Std.ExtTreeMap JsString H) (call : FileCall H) : Prop :=
  overlays[call.path]? = none ∧ call.phase ≠ .memoizing

/-- a builder at work: any tables, and any calls under way -/
def atWork (base : SnapshotFs E H) (overlays : Std.ExtTreeMap JsString H)
    (overlayDirectories : Directories) (files : DirtyMap JsString (DiskEntry H))
    (deleted : Std.ExtTreeSet JsString) (calls : List {call : FileCall H // call.Pending overlays}) :
    FileReads E H :=
  ⟨⟨base, overlays, overlayDirectories, ⟨files, deleted, false⟩, none⟩, none, calls.map (·.1), []⟩

end Tsr.Project
