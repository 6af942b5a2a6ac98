import Tsr.Lib.Run

/-!
# The session

A session owns the published snapshot, a queue of what the next one has to take in, and a lock that
one update holds from start to end.  The lock of the queue is held only to push or to take it; the
update runs without it.  One action of the step function below is one critical section, so a schedule
is any order in which notifications, flushes, calls of `apply_inferred_options` and `close` of any
number of threads can take the locks.

* `enqueue`, `didChangeWatchedFiles`    admission, under the lock of the snapshot;
* `start`                                `update_snapshot` up to the queue being taken;
* `publish`, `fail`                      how the update ends; a failed one puts the queue back;
* `applyInferredOptions`, `settle`       the call and, if its flush fails, what it takes back;
* `closeSnapshot`, `closePending`        the two writes of `close`.

`accepted`, `handed`, `published`, `made` and `alone` are ghosts: what was admitted, what the published
snapshots were given, the published snapshots, the next free number of a call, and the call that nothing
has disturbed so far.
-/

namespace Tsr.Project.Session
open Tsr.Lib.Run

inductive FileChangeKind where
  | opened
  | closed
  | change
  | save
  | watchCreate
  | watchChange
  | watchDelete
deriving DecidableEq

/-- `body` is the version, the text and the edits of a document -/
structure FileChange (χ : Type) where
  kind : FileChangeKind
  uri : String
  body : Option χ
deriving DecidableEq

/-- an event of the client: `1` created, `2` changed, `3` deleted -/
structure FileEvent where
  type : Nat
  uri : String
deriving DecidableEq

def FileEvent.kind (event : FileEvent) : Option FileChangeKind :=
  if event.type = 1 then some .watchCreate
  else if event.type = 2 then some .watchChange
  else if event.type = 3 then some .watchDelete
  else none

/-- compiler options behind a pointer; `ptr` is what `Arc::ptr_eq` compares, and the number of the call
that allocated it -/
structure Shared (ω : Type) where
  ptr : Nat
  options : ω
deriving DecidableEq

structure Pending (χ ω δ : Type) where
  mapperLocaleChanged : Bool
  ataChanges : List (String × δ)
  ataChanged : Bool
  changes : List (FileChange χ)
  inferred : Option (Shared ω)
  customName : Option String
  validationEnabled : Option Bool
  contributions : Option δ
deriving DecidableEq

/-- `inferredOptions`, `customConfigFileName`, `contributions` and `validationEnabled` are the settings
that a snapshot takes from the queue or else from the one before -/
structure Snapshot (ω δ : Type) where
  id : Nat
  parent : Nat
  inferredOptions : Option (Shared ω)
  customConfigFileName : String
  contributions : Option δ
  validationEnabled : Bool
deriving DecidableEq

/-- an update on its way: whose it is, the snapshot it started from, and the queue it took -/
structure Transaction (χ ω δ : Type) where
  caller : Option Nat
  old : Snapshot ω δ
  pending : Pending χ ω δ
deriving DecidableEq

/-- who holds the update lock -/
inductive Holder (χ ω δ : Type) where
  | update (transaction : Transaction χ ω δ)
  | closing
deriving DecidableEq

/-- a call of `apply_inferred_options`: its flush is still to come, runs, has failed; or the call has
returned -/
inductive Phase where
  | waiting
  | flushing
  | failed
  | returned (ok : Bool)
deriving DecidableEq

/-- `previous` is the value that the call replaced; `since` is a ghost: the number of snapshots published
before -/
structure Call (ω : Type) where
  options : Shared ω
  previous : Option (Shared ω)
  phase : Phase
  since : Nat
deriving DecidableEq

structure State (χ ω δ : Type) where
  snapshot : Option (Snapshot ω δ)
  update : Option (Holder χ ω δ)
  pending : Pending χ ω δ
  calls : Nat → Option (Call ω)
  nextSnapshotId : Nat
  accepted : List (FileChange χ)
  handed : List (List (FileChange χ))
  published : List (Snapshot ω δ)
  made : Nat
  alone : Option Nat

inductive Action (χ ω δ : Type) where
  | enqueue (change : FileChange χ)
  | didChangeWatchedFiles (events : List FileEvent)
  | setValidationEnabled (enabled : Bool)
  | setCustomConfigFileName (name : String)
  | setContentMapperContributions (contributions : δ)
  | setLocale
  | receiveTypings (project : String) (change : δ)
  | setDisableAutomaticTypeAcquisition
  | applyInferredOptions (call : Nat) (options : ω)
  | start (caller : Option Nat) (staleTimer : Bool) (needed : Bool)
  | publish (caller : Option Nat)
  | fail (caller : Option Nat)
  | settle (call : Nat)
  | closeSnapshot
  | closePending
deriving DecidableEq

section
variable {χ ω δ : Type}

/-! ## the queue -/

namespace Pending

def default : Pending χ ω δ := ⟨false, [], false, [], none, none, none, none⟩

def isEmpty (p : Pending χ ω δ) : Bool :=
  p.ataChanges.isEmpty && !p.ataChanged && !p.mapperLocaleChanged && p.changes.isEmpty
    && p.inferred.isNone && p.customName.isNone && p.validationEnabled.isNone
    && p.contributions.isNone

end Pending

/-- `BTreeMap::insert` -/
def insert (key : String) (value : δ) (map : List (String × δ)) : List (String × δ) :=
  (key, value) :: map.filter fun entry => entry.1 ≠ key

/-- `entry(key).or_insert(value)` -/
def orInsert (map : List (String × δ)) (entry : String × δ) : List (String × δ) :=
  if map.any (fun e => e.1 = entry.1) then map else entry :: map

/-- what the transaction's guard leaves in the queue -/
def restore (failed queued : Pending χ ω δ) : Pending χ ω δ where
  ataChanges := failed.ataChanges.foldl orInsert queued.ataChanges
  ataChanged := queued.ataChanged || failed.ataChanged
  mapperLocaleChanged := queued.mapperLocaleChanged || failed.mapperLocaleChanged
  changes := failed.changes ++ queued.changes
  inferred := if queued.inferred.isNone then failed.inferred else queued.inferred
  contributions := if queued.contributions.isNone then failed.contributions else queued.contributions
  validationEnabled :=
    if queued.validationEnabled.isNone then failed.validationEnabled else queued.validationEnabled
  customName := if queued.customName.isNone then failed.customName else queued.customName

/-- the settings of the snapshot that follows `old` -/
def deriveSnapshot (id : Nat) (old : Snapshot ω δ) (pending : Pending χ ω δ) : Snapshot ω δ where
  id := id
  parent := old.id
  inferredOptions := pending.inferred.or old.inferredOptions
  customConfigFileName := pending.customName.getD old.customConfigFileName
  contributions := pending.contributions.or old.contributions
  validationEnabled := pending.validationEnabled.getD old.validationEnabled

/-! ## the steps -/

namespace State

def new (id : Nat) : State χ ω δ where
  snapshot := some
    { id := id
      parent := 0
      inferredOptions := none
      customConfigFileName := ""
      contributions := none
      validationEnabled := true }
  update := none
  pending := Pending.default
  calls := fun _ => none
  nextSnapshotId := id + 1
  accepted := []
  handed := []
  published := []
  made := 0
  alone := none

/-- the queue changed under its lock -/
def stage (s : State χ ω δ) (change : Pending χ ω δ → Pending χ ω δ) : State χ ω δ :=
  { s with pending := change s.pending }

/-- admission: the lock of the snapshot is held, so the session does not close in between -/
def accept (s : State χ ω δ) (changes : List (FileChange χ)) : State χ ω δ :=
  if s.snapshot.isNone then s
  else
    { s with
      pending := { s.pending with changes := s.pending.changes ++ changes }
      accepted := s.accepted ++ changes }

/-- a setting that is refused once the session is closed -/
def stageOpen (s : State χ ω δ) (change : Pending χ ω δ → Pending χ ω δ) : State χ ω δ :=
  if s.snapshot.isNone then s else s.stage change

def setPhase (s : State χ ω δ) (n : Nat) (phase : Phase) : State χ ω δ :=
  { s with calls := Function.update s.calls n ((s.calls n).map fun call => { call with phase := phase }) }

/-- the phase of the call that a flush belongs to -/
def setCaller (s : State χ ω δ) (caller : Option Nat) (phase : Phase) : State χ ω δ :=
  match caller with
  | none => s
  | some n => s.setPhase n phase

def phase (s : State χ ω δ) (n : Nat) : Option Phase := (s.calls n).map Call.phase

/-- pending, or else those of the snapshot -/
def effectiveOptions (s : State χ ω δ) : Option (Shared ω) :=
  s.pending.inferred.or (s.snapshot.bind Snapshot.inferredOptions)

end State

def enqueue (s : State χ ω δ) (change : FileChange χ) : State χ ω δ := s.accept [change]

def didChangeWatchedFiles (s : State χ ω δ) (events : List FileEvent) : State χ ω δ :=
  s.accept (events.filterMap fun event => event.kind.map fun kind => ⟨kind, event.uri, none⟩)

/-- the pending options replaced, and remembered by the call -/
def State.replace (s : State χ ω δ) (n : Nat) (options : ω) : State χ ω δ :=
  { s with
    calls := Function.update s.calls n
      (some ⟨⟨n, options⟩, s.pending.inferred, .waiting, s.published.length⟩)
    pending := { s.pending with inferred := some ⟨n, options⟩ }
    made := n + 1
    alone := some n }

/-- the call turned away by a closed session -/
def State.refuse (s : State χ ω δ) (n : Nat) (options : ω) : State χ ω δ :=
  { s with
    calls := Function.update s.calls n (some ⟨⟨n, options⟩, none, .returned false, s.published.length⟩)
    made := n + 1 }

/-- calls are numbered in the order in which they are made, with gaps -/
def applyInferredOptions (s : State χ ω δ) (n : Nat) (options : ω) : Option (State χ ω δ) :=
  if n < s.made then none
  else if s.snapshot.isNone then some (s.refuse n options)
  else some (s.replace n options)

/-- the update lock is free, and a flush of a call comes when the call has replaced the options -/
def mayStart (s : State χ ω δ) (caller : Option Nat) : Bool :=
  s.update.isNone && caller.all fun n => s.phase n = some .waiting

/-- an update of call `n` keeps `n` alone -/
def aloneAfter (alone caller : Option Nat) : Option Nat := if alone = caller then alone else none

namespace State

/-- the queue taken for an update -/
def take (s : State χ ω δ) (caller : Option Nat) (previous : Snapshot ω δ) : State χ ω δ :=
  { s with
    pending := Pending.default
    update := some (.update ⟨caller, previous, s.pending⟩)
    alone := aloneAfter s.alone caller }

/-- the snapshot replaced, the transaction settled -/
def adopt (s : State χ ω δ) (t : Transaction χ ω δ) : State χ ω δ :=
  let next := deriveSnapshot s.nextSnapshotId t.old t.pending
  { s with
    snapshot := some next
    update := none
    nextSnapshotId := s.nextSnapshotId + 1
    handed := s.handed ++ [t.pending.changes]
    published := s.published ++ [next]
    alone := if s.alone = t.caller then none else s.alone }

/-- the guard of a transaction that did not get through -/
def giveBack (s : State χ ω δ) (t : Transaction χ ω δ) : State χ ω δ :=
  { s with
    update := none
    pending := restore t.pending s.pending
    alone := if t.pending.inferred.isSome then aloneAfter s.alone t.caller else s.alone }

/-- the replaced options back in their place, if they have not been replaced since -/
def revert (s : State χ ω δ) (n : Nat) (call : Call ω) : State χ ω δ :=
  { s with
    pending :=
      if s.pending.inferred.any fun value => value.ptr = call.options.ptr then
        { s.pending with inferred := call.previous }
      else s.pending
    alone := if s.alone = some n then none else s.alone }

end State

/-- `staleTimer` is a timer whose epoch has passed, `needed` that the update has work besides the
queue; a call's own flush has neither -/
def start (s : State χ ω δ) (caller : Option Nat) (staleTimer needed : Bool) : Option (State χ ω δ) :=
  if !mayStart s caller then none
  else
    match s.snapshot with
    | none => some (s.setCaller caller .failed)
    | some previous =>
      if staleTimer && caller.isNone then some s
      else if s.pending.isEmpty && !(needed && caller.isNone) then
        some ((s.stage fun _ => Pending.default).setCaller caller (.returned true))
      else some ((s.take caller previous).setCaller caller .flushing)

/-- the update of `caller` gets through -/
def publish (s : State χ ω δ) (caller : Option Nat) : Option (State χ ω δ) :=
  match s.update with
  | some (.update t) =>
    if t.caller = caller then some ((s.adopt t).setCaller caller (.returned true)) else none
  | _ => none

/-- an error, or a panic, anywhere in the derivation -/
def fail (s : State χ ω δ) (caller : Option Nat) : Option (State χ ω δ) :=
  match s.update with
  | some (.update t) => if t.caller = caller then some ((s.giveBack t).setCaller caller .failed) else none
  | _ => none

/-- the end of a call whose flush has failed -/
def settle (s : State χ ω δ) (n : Nat) : Option (State χ ω δ) :=
  match s.calls n with
  | some call =>
    if call.phase = .failed then some ((s.revert n call).setPhase n (.returned false)) else none
  | none => none

def closeSnapshot (s : State χ ω δ) : Option (State χ ω δ) :=
  if s.update.isSome then none else some { s with snapshot := none, update := some .closing }

def closePending (s : State χ ω δ) : Option (State χ ω δ) :=
  match s.update with
  | some .closing => some { s with pending := Pending.default, update := none }
  | _ => none

def step : Action χ ω δ → State χ ω δ → Option (State χ ω δ)
  | .enqueue change, s => some (enqueue s change)
  | .didChangeWatchedFiles events, s => some (didChangeWatchedFiles s events)
  | .setValidationEnabled enabled, s =>
    some (s.stageOpen fun p => { p with validationEnabled := some enabled })
  | .setCustomConfigFileName name, s => some (s.stageOpen fun p => { p with customName := some name })
  | .setContentMapperContributions contributions, s =>
    some (s.stage fun p => { p with contributions := some contributions })
  | .setLocale, s => some (s.stage fun p => { p with mapperLocaleChanged := true })
  | .receiveTypings project change, s =>
    if s.update.isSome then none
    else some (s.stageOpen fun p => { p with ataChanges := insert project change p.ataChanges })
  | .setDisableAutomaticTypeAcquisition, s => some (s.stageOpen fun p => { p with ataChanged := true })
  | .applyInferredOptions n options, s => applyInferredOptions s n options
  | .start caller staleTimer needed, s => start s caller staleTimer needed
  | .publish caller, s => publish s caller
  | .fail caller, s => fail s caller
  | .settle n, s => settle s n
  | .closeSnapshot, s => closeSnapshot s
  | .closePending, s => closePending s

/-! ## what a step can do -/

variable {s s' : State χ ω δ}

theorem fail_cases {caller : Option Nat} (h : fail s caller = some s') :
    ∃ t, s.update = some (.update t) ∧ t.caller = caller ∧ s' = (s.giveBack t).setCaller caller .failed := by
  rw [fail] at h
  split at h
  next t hu =>
    split at h
    next hc => exact ⟨t, hu, hc, (Option.some.inj h).symm⟩
    next => cases h
  next => cases h

/-- admissions, and settings but for the inferred options -/
def Action.notifies : Action χ ω δ → Bool
  | .applyInferredOptions _ _ | .start _ _ _ | .publish _ | .fail _ | .settle _ => false
  | .closeSnapshot | .closePending => false
  | _ => true

/-- the queue has changed, but not whose options wait in it -/
inductive Notified (s : State χ ω δ) : State χ ω δ → Prop where
  | keeps (p : Pending χ ω δ) (hi : p.inferred = s.pending.inferred) (hc : p.changes = s.pending.changes) :
      Notified s { s with pending := p }
  | admits (changes : List (FileChange χ)) (ho : s.snapshot.isSome = true) :
      Notified s { s with
        pending := { s.pending with changes := s.pending.changes ++ changes }
        accepted := s.accepted ++ changes }

theorem notified_stageOpen (c : Pending χ ω δ → Pending χ ω δ)
    (hi : (c s.pending).inferred = s.pending.inferred) (hc : (c s.pending).changes = s.pending.changes) :
    Notified s (s.stageOpen c) := by
  rw [State.stageOpen]
  split
  next => exact .keeps s.pending rfl rfl
  next => exact .keeps _ hi hc

theorem notified_accept (changes : List (FileChange χ)) : Notified s (s.accept changes) := by
  rw [State.accept]
  split
  next => exact .keeps s.pending rfl rfl
  next ho =>
    rw [Bool.not_eq_true, Option.isNone_eq_false_iff] at ho
    exact .admits changes ho

theorem step_notifies {a : Action χ ω δ} (hs : step a s = some s') (ha : a.notifies = true) :
    Notified s s' := by
  cases a with
  | enqueue change => exact Option.some.inj hs ▸ notified_accept _
  | didChangeWatchedFiles events => exact Option.some.inj hs ▸ notified_accept _
  | setValidationEnabled enabled => exact Option.some.inj hs ▸ notified_stageOpen _ rfl rfl
  | setCustomConfigFileName name => exact Option.some.inj hs ▸ notified_stageOpen _ rfl rfl
  | setDisableAutomaticTypeAcquisition => exact Option.some.inj hs ▸ notified_stageOpen _ rfl rfl
  | setContentMapperContributions contributions => exact Option.some.inj hs ▸ .keeps _ rfl rfl
  | setLocale => exact Option.some.inj hs ▸ .keeps _ rfl rfl
  | receiveTypings project change =>
    rw [step] at hs
    split at hs
    next => cases hs
    next => exact Option.some.inj hs ▸ notified_stageOpen _ rfl rfl
  | _ => exact absurd ha Bool.false_ne_true

/-- what a step can do -/
inductive Moves (s : State χ ω δ) : Action χ ω δ → State χ ω δ → Prop where
  | keeps {a} (ha : a.notifies = true) (p : Pending χ ω δ) (hi : p.inferred = s.pending.inferred)
      (hc : p.changes = s.pending.changes) : Moves s a { s with pending := p }
  | admits {a} (ha : a.notifies = true) (changes : List (FileChange χ)) (ho : s.snapshot.isSome = true) :
      Moves s a { s with
        pending := { s.pending with changes := s.pending.changes ++ changes }
        accepted := s.accepted ++ changes }
  | refuse {n options} (hn : s.made ≤ n) (hs : s.snapshot = none) :
      Moves s (.applyInferredOptions n options) (s.refuse n options)
  | replace {n options} (hn : s.made ≤ n) (ho : s.snapshot.isSome = true) :
      Moves s (.applyInferredOptions n options) (s.replace n options)
  | closed {caller staleTimer needed} (hu : s.update = none)
      (hw : ∀ n, caller = some n → s.phase n = some .waiting) (hs : s.snapshot = none) :
      Moves s (.start caller staleTimer needed) (s.setCaller caller .failed)
  | stale {needed} (hu : s.update = none) (ho : s.snapshot.isSome = true) :
      Moves s (.start none true needed) s
  | empty {caller staleTimer needed} (hu : s.update = none)
      (hw : ∀ n, caller = some n → s.phase n = some .waiting) (ho : s.snapshot.isSome = true)
      (he : s.pending.isEmpty = true) : Moves s (.start caller staleTimer needed)
        ((s.stage fun _ => Pending.default).setCaller caller (.returned true))
  | take {caller staleTimer needed previous} (hu : s.update = none)
      (hw : ∀ n, caller = some n → s.phase n = some .waiting) (hs : s.snapshot = some previous) :
      Moves s (.start caller staleTimer needed) ((s.take caller previous).setCaller caller .flushing)
  | publish {t} (hu : s.update = some (.update t)) :
      Moves s (.publish t.caller) ((s.adopt t).setCaller t.caller (.returned true))
  | fail {t} (hu : s.update = some (.update t)) :
      Moves s (.fail t.caller) ((s.giveBack t).setCaller t.caller .failed)
  | settle {n call} (hc : s.calls n = some call) (hf : call.phase = .failed) :
      Moves s (.settle n) ((s.revert n call).setCaller (some n) (.returned false))
  | closeSnapshot (hu : s.update = none) :
      Moves s .closeSnapshot { s with snapshot := none, update := some .closing }
  | closePending (hu : s.update = some .closing) :
      Moves s .closePending { s with pending := Pending.default, update := none }

theorem moves_start {caller : Option Nat} {staleTimer needed : Bool}
    (h : start s caller staleTimer needed = some s') : Moves s (.start caller staleTimer needed) s' := by
  rw [start] at h
  split at h
  next => cases h
  next hm =>
    simp only [mayStart, Bool.not_eq_true', Bool.not_eq_false, Bool.and_eq_true,
      Option.isNone_iff_eq_none] at hm
    have hw : ∀ n, caller = some n → s.phase n = some .waiting := by
      rintro n rfl
      simpa using hm.2
    cases hsnap : s.snapshot with
    | none =>
      rw [hsnap] at h
      cases h
      exact .closed hm.1 hw hsnap
    | some previous =>
      have ho : s.snapshot.isSome = true := by
        rw [hsnap]
        rfl
      rw [hsnap] at h
      simp only at h
      split at h
      next ht =>
        cases h
        rw [Bool.and_eq_true, Option.isNone_iff_eq_none] at ht
        obtain ⟨rfl, rfl⟩ := ht
        exact .stale hm.1 ho
      next =>
        split at h
        next he =>
          cases h
          rw [Bool.and_eq_true] at he
          exact .empty hm.1 hw ho he.1
        next =>
          cases h
          exact .take hm.1 hw hsnap

theorem step_moves {a : Action χ ω δ} (hs : step a s = some s') : Moves s a s' := by
  by_cases ha : a.notifies = true
  · cases step_notifies hs ha with
    | keeps p hi hc => exact .keeps ha p hi hc
    | admits changes ho => exact .admits ha changes ho
  cases a with
  | applyInferredOptions n options =>
    rw [step, applyInferredOptions] at hs
    split at hs
    next => cases hs
    next hn =>
      split at hs <;> cases hs
      next h0 => exact .refuse (Nat.le_of_not_lt hn) (Option.isNone_iff_eq_none.1 h0)
      next h0 =>
        rw [Bool.not_eq_true, Option.isNone_eq_false_iff] at h0
        exact .replace (Nat.le_of_not_lt hn) h0
  | start caller staleTimer needed => exact moves_start hs
  | publish caller =>
    rw [step, publish] at hs
    split at hs
    next t hu =>
      split at hs <;> cases hs
      next hc =>
        subst hc
        exact .publish hu
    next => cases hs
  | fail caller =>
    obtain ⟨t, hu, rfl, rfl⟩ := fail_cases hs
    exact .fail hu
  | settle n =>
    rw [step, settle] at hs
    split at hs
    next call hc =>
      split at hs <;> cases hs
      next hp => exact .settle hc hp
    next => cases hs
  | closeSnapshot =>
    rw [step, closeSnapshot] at hs
    split at hs <;> cases hs
    next hu =>
      rw [Bool.not_eq_true, Option.isSome_eq_false_iff, Option.isNone_iff_eq_none] at hu
      exact .closeSnapshot hu
  | closePending =>
    rw [step, closePending] at hs
    split at hs <;> cases hs
    next hu => exact .closePending hu
  | _ => exact absurd rfl ha

end

end Tsr.Project.Session
