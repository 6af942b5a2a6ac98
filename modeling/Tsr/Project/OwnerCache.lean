import Tsr.Lib.Run

/-!
# The owner cache

`OwnerCache` retains an entry per key as long as some owner (a snapshot) has acquired it.  The
index and each entry have a lock of their own; an entry is marked busy while a loader runs outside
the locks.  The step function has one action per critical section:

* `load_and_acquire`   `look` (creates a provisional entry), `pass` (waits until the entry is not
  busy, then marks it), `read`, then `loaded` or `loadFails`, and `finish`;
* `acquire`            the same call with a loader that always succeeds and never expires;
* `try_add_owner` and `release`   `look`, then `pass`;
* `removeEntry`        the index lock, taken while the entry lock is held.

`log` is a ghost: the acquisitions and releases in the order in which they take effect.  A release
that waits at an entry while another call removes it, or that finds it in the index just before
it leaves, takes effect at that moment: the key has no owner then.
-/

namespace Tsr.Project.OwnerCache

/-- `owners` is a set of snapshot ids; `key` is a ghost, the key the entry was created for -/
structure Entry (K T V : Type) where
  key : K
  value : Option V
  owners : Finset UInt64
  busy : Option T
  removed : Bool
deriving DecidableEq

inductive Op where
  | load
  | tryAddOwner
  | release
deriving DecidableEq

/-- how a call ended -/
inductive Result where
  | ok
  | failed
  | panicked
  | notAdded
deriving DecidableEq

/-- where a call stands -/
inductive Pc (V : Type) where
  | looking
  | waiting (e : Nat)
  | loading (e : Nat)
  | evaluating (e : Nat) (previous : Option V)
  | finishing (e : Nat) (result : Result)
  | removing (e : Nat) (result : Result)
  | returned (result : Result)
deriving DecidableEq

structure Call (K T V : Type) where
  op : Op
  key : K
  owner : UInt64
  thread : T
  pc : Pc V
deriving DecidableEq

/-- an effect on the owner set of a key -/
structure Event (K : Type) where
  call : Nat
  key : K
  owner : UInt64
  acquires : Bool
deriving DecidableEq

structure Cache (K T V : Type) where
  index : K → Option Nat
  heap : Nat → Option (Entry K T V)
  next : Nat
  calls : List (Call K T V)
  log : List (Event K)

inductive Action (K T V : Type) where
  | call (op : Op) (key : K) (owner : UInt64) (thread : T)
  | look (i : Nat)
  | pass (i : Nat)
  | read (i : Nat)
  | loaded (i : Nat) (parsed : Option V)
  | loadFails (i : Nat) (result : Result)
  | finish (i : Nat)
  | removeEntry (i : Nat)
deriving DecidableEq

/-- the call that an action moves -/
def Action.actor {K T V : Type} : Action K T V → Option Nat
  | .call .. => none
  | .look i => some i
  | .pass i => some i
  | .read i => some i
  | .loaded i _ => some i
  | .loadFails i _ => some i
  | .finish i => some i
  | .removeEntry i => some i

/-- a load that waits for the entry, a call that marked it busy, a call that holds its lock while
it is taken out of the index -/
inductive Kind where
  | waitingLoad
  | busy
  | removing
deriving DecidableEq

def Call.kind {K T V : Type} (c : Call K T V) : Option (Kind × Nat) :=
  match c.pc with
  | .waiting e => if c.op = .load then some (.waitingLoad, e) else none
  | .loading e => some (.busy, e)
  | .evaluating e _ => some (.busy, e)
  | .finishing e _ => some (.busy, e)
  | .removing e _ => some (.removing, e)
  | _ => none

section
variable {K T V : Type} [DecidableEq K] [DecidableEq T]

/-- a release that waits at `e` -/
def Call.waitsToRelease (c : Call K T V) (e : Nat) : Bool :=
  decide (c.op = .release) && match c.pc with | .waiting e' => decide (e' = e) | _ => false

/-- the releases that wait at `e`, in the order of the calls -/
def waitingReleases (calls : List (Call K T V)) (e : Nat) : List (Event K) :=
  (calls.zipIdx.filter fun p => p.1.waitsToRelease e).map fun p => ⟨p.2, p.1.key, p.1.owner, false⟩

namespace Cache

def empty : Cache K T V where
  index := fun _ => none
  heap := fun _ => none
  next := 0
  calls := []
  log := []

def setPc (s : Cache K T V) (i : Nat) (c : Call K T V) (pc : Pc V) : Cache K T V :=
  { s with calls := s.calls.set i { c with pc := pc } }

def setEntry (s : Cache K T V) (e : Nat) (entry : Entry K T V) : Cache K T V :=
  { s with heap := Function.update s.heap e (some entry) }

def record (s : Cache K T V) (i : Nat) (c : Call K T V) (acquires : Bool) : Cache K T V :=
  { s with log := s.log ++ [⟨i, c.key, c.owner, acquires⟩] }

/-- the releases that wait at `e` take effect -/
def recordWaiting (s : Cache K T V) (e : Nat) : Cache K T V :=
  { s with log := s.log ++ waitingReleases s.calls e }

/-- a provisional entry for `key` -/
def insertEntry (s : Cache K T V) (key : K) : Cache K T V :=
  { s with
    index := Function.update s.index key (some s.next)
    heap := Function.update s.heap s.next (some ⟨key, none, ∅, none, false⟩)
    next := s.next + 1 }

/-- the second half of `remove`: the key leaves the index if it still stands for `e` -/
def unlink (s : Cache K T V) (key : K) (e : Nat) : Cache K T V :=
  if s.index key = some e then { s with index := Function.update s.index key none } else s

/-- the entry is marked removed -/
def marked (s : Cache K T V) (e : Nat) : Bool := (s.heap e).any fun entry => entry.removed

/-- the lock of `e` is held across the removal from the index -/
def locked (s : Cache K T V) (e : Nat) : Bool :=
  s.calls.any fun c => c.kind = some (.removing, e)

end Cache

/-- the index lock; a release that meets an entry on its way out takes effect here -/
def look (s : Cache K T V) (i : Nat) (c : Call K T V) : Cache K T V :=
  match s.index c.key with
  | some e =>
    (if c.op = .release ∧ s.marked e then s.record i c false else s).setPc i c (.waiting e)
  | none =>
    match c.op with
    | .load => (s.insertEntry c.key).setPc i c (.waiting s.next)
    | .tryAddOwner => s.setPc i c (.returned .notAdded)
    | .release => (s.record i c false).setPc i c (.returned .ok)

/-- the first half of `remove`, with the entry lock held from here on -/
def startRemove (s : Cache K T V) (i : Nat) (c : Call K T V) (e : Nat) (entry : Entry K T V)
    (result : Result) : Cache K T V :=
  ((s.setEntry e { entry with removed := true }).setPc i c (.removing e result)).recordWaiting e

/-- the critical section behind `wait`, the entry not being busy -/
def passFree (s : Cache K T V) (i : Nat) (c : Call K T V) (e : Nat) (entry : Entry K T V) :
    Cache K T V :=
  match c.op with
  | .load =>
    if entry.removed then s.setPc i c .looking
    else (s.setEntry e { entry with busy := some c.thread }).setPc i c (.loading e)
  | .tryAddOwner =>
    if entry.removed ∨ entry.owners = ∅ then s.setPc i c (.returned .notAdded)
    else ((s.setEntry e { entry with owners := insert c.owner entry.owners }).record i c true).setPc
      i c (.returned .ok)
  | .release =>
    if entry.removed then s.setPc i c (.returned .ok)
    else
      let entry := { entry with owners := entry.owners.erase c.owner }
      if entry.owners = ∅ then startRemove (s.record i c false) i c e entry .ok
      else ((s.setEntry e entry).record i c false).setPc i c (.returned .ok)

/-- `wait`: a busy entry is waited for, except by the thread that made it busy, which panics -/
def pass (s : Cache K T V) (i : Nat) (c : Call K T V) (e : Nat) (entry : Entry K T V) :
    Option (Cache K T V) :=
  match entry.busy with
  | none => some (passFree s i c e entry)
  | some thread => if thread = c.thread then some (s.setPc i c (.returned .panicked)) else none

/-- The value that a load commits: the one that is there unless it expired, else the parsed one.
`parsed = none` says that the entry had a value and `expired` denied. -/
def loadedValue (previous parsed : Option V) : Option V :=
  match parsed with
  | some v => some v
  | none => previous

def step : Action K T V → Cache K T V → Option (Cache K T V)
  | .call op key owner thread, s =>
    some { s with calls := s.calls ++ [⟨op, key, owner, thread, .looking⟩] }
  | .look i, s => do
    let c ← s.calls[i]?
    match c.pc with
    | .looking => some (look s i c)
    | _ => none
  | .pass i, s => do
    let c ← s.calls[i]?
    match c.pc with
    | .waiting e => if s.locked e then none else pass s i c e (← s.heap e)
    | _ => none
  | .read i, s => do
    let c ← s.calls[i]?
    match c.pc with
    | .loading e => let entry ← s.heap e; some (s.setPc i c (.evaluating e entry.value))
    | _ => none
  | .loaded i parsed, s => do
    let c ← s.calls[i]?
    match c.pc with
    | .evaluating e previous =>
      let value ← loadedValue previous parsed
      let entry ← s.heap e
      some (((s.setEntry e { entry with
        value := some value, owners := insert c.owner entry.owners }).record i c true).setPc i c
          (.finishing e .ok))
    | _ => none
  | .loadFails i result, s => do
    let c ← s.calls[i]?
    match c.pc with
    | .evaluating e _ =>
      -- an error of `expired` or `parse`, or a panic in one of them
      if result = .failed ∨ result = .panicked then some (s.setPc i c (.finishing e result))
      else none
    | _ => none
  | .finish i, s => do
    let c ← s.calls[i]?
    match c.pc with
    | .finishing e result =>
      let entry ← s.heap e
      let entry := { entry with busy := none }
      if entry.owners = ∅ then some (startRemove s i c e entry result)
      else some ((s.setEntry e entry).setPc i c (.returned result))
    | _ => none
  | .removeEntry i, s => do
    let c ← s.calls[i]?
    match c.pc with
    | .removing e result => some ((s.unlink c.key e).setPc i c (.returned result))
    | _ => none

/-! ## What a caller sees -/

def has (s : Cache K T V) (key : K) : Bool := (s.index key).isSome

/-- the entry of a key that is not being removed -/
def liveEntry (s : Cache K T V) (key : K) : Option (Entry K T V) := do
  let e ← s.index key
  let entry ← s.heap e
  if entry.removed then none else some entry

def ownersOf (s : Cache K T V) (key : K) : Finset UInt64 :=
  match liveEntry s key with
  | some entry => entry.owners
  | none => ∅

def valueOf (s : Cache K T V) (key : K) : Option V := (liveEntry s key).bind Entry.value

/-- every call has returned -/
def Quiescent (s : Cache K T V) : Prop := ∀ c ∈ s.calls, ∃ result, c.pc = .returned result

end

end Tsr.Project.OwnerCache
