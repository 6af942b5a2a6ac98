import Tsr.Lib.Run

/-!
# The reference-counted cache

`RefCountCache` keeps one shared entry per key.  The index and each entry have a lock of their own;
the step function below has one action per critical section, so that a schedule is any order in
which calls of any number of threads can take the locks.

* `acquire` (`acquire_or_error` is the same call)   `look`, then either `produce…` for the call
  that created the entry, or `enter` for one that found it;
* `release`                                          `lookRelease`, `deref`, `removeEntry`.

Producers run outside the locks and may succeed, fail or panic; a call made inside a producer is
one more call of its thread.  Two fields are ghosts: `Entry.key` is the key an entry was created
for, `Entry.completions` counts the returns of its producer.  A lease remembers the entry it was
granted by, for the statements only: `release` looks the entry up by its key.
-/

namespace Tsr.Project.RefCountCache

structure RefCountCacheOptions where
  disableDeletion : Bool
deriving DecidableEq

/-- the state of an entry -/
inductive State (T V : Type) where
  | initializing (owner : T)
  | ready (value : V) (references : Int)
  | removed
deriving DecidableEq

structure Entry (K T V : Type) where
  key : K
  state : State T V
  completions : Nat
deriving DecidableEq

/-- a granted reference: what the client sees, and the entry it came from -/
structure Lease (V : Type) where
  entry : Nat
  value : V
deriving DecidableEq

/-- where a call stands; a call that holds a lease goes on with its release -/
inductive Pc (V : Type) where
  | looking
  | entered (e : Nat)
  | producing (e : Nat)
  | failed (e : Nat)
  | leased (l : Lease V)
  | releasing (l : Lease V)
  | releasingAt (l : Lease V) (e : Nat)
  | removing (l : Lease V) (e : Nat)
  | released (l : Lease V)
  | returned
deriving DecidableEq

/-- what a call means to an entry: it runs the producer, has taken a failed entry out of the
index, holds a reference, holds the lock while it removes the entry, or has given its reference
back -/
inductive Kind where
  | producing
  | failed
  | holding
  | removing
  | released
deriving DecidableEq

def Pc.kind {V : Type} : Pc V → Option (Kind × Nat)
  | .producing e => some (.producing, e)
  | .failed e => some (.failed, e)
  | .leased l => some (.holding, l.entry)
  | .releasing l => some (.holding, l.entry)
  | .releasingAt l _ => some (.holding, l.entry)
  | .removing _ e => some (.removing, e)
  | .released l => some (.released, l.entry)
  | _ => none

/-- the lease a call was granted, up to the step that gives it back -/
def Pc.lease {V : Type} : Pc V → Option (Lease V)
  | .leased l => some l
  | .releasing l => some l
  | .releasingAt l _ => some l
  | .removing l _ => some l
  | _ => none

structure Call (K T V : Type) where
  key : K
  thread : T
  pc : Pc V
deriving DecidableEq

/-- `heap` holds the entries ever allocated, `next` is the first free address -/
structure Cache (K T V : Type) where
  index : K → Option Nat
  heap : Nat → Option (Entry K T V)
  next : Nat
  calls : List (Call K T V)

/-- one critical section of the call with the given number, or the start of a call -/
inductive Action (K T V : Type) where
  | call (key : K) (thread : T)
  | look (i : Nat)
  | enter (i : Nat)
  | produced (i : Nat) (value : V)
  | produceFails (i : Nat)
  | unwind (i : Nat)
  | release (i : Nat)
  | lookRelease (i : Nat)
  | deref (i : Nat)
  | removeEntry (i : Nat)
deriving DecidableEq

section
variable {K T V : Type} [DecidableEq K] [DecidableEq T]

namespace Cache

def empty : Cache K T V where
  index := fun _ => none
  heap := fun _ => none
  next := 0
  calls := []

def setPc (s : Cache K T V) (i : Nat) (c : Call K T V) (pc : Pc V) : Cache K T V :=
  { s with calls := s.calls.set i { c with pc := pc } }

def setEntry (s : Cache K T V) (e : Nat) (entry : Entry K T V) : Cache K T V :=
  { s with heap := Function.update s.heap e (some entry) }

/-- `remove_entry`: the key is taken out of the index if it still stands for `e` -/
def unlink (s : Cache K T V) (key : K) (e : Nat) : Cache K T V :=
  if s.index key = some e then { s with index := Function.update s.index key none } else s

/-- a provisional entry for `key` -/
def insertEntry (s : Cache K T V) (key : K) (thread : T) : Cache K T V :=
  { s with
    index := Function.update s.index key (some s.next)
    heap := Function.update s.heap s.next (some ⟨key, .initializing thread, 0⟩)
    next := s.next + 1 }

/-- the lock of `e` is held across the removal from the index -/
def locked (s : Cache K T V) (e : Nat) : Bool :=
  s.calls.any fun c => c.pc.kind = some (.removing, e)

end Cache

/-- `look`: the index lock of `acquire` -/
def look (s : Cache K T V) (i : Nat) (c : Call K T V) : Cache K T V :=
  match s.index c.key with
  | some e => s.setPc i c (.entered e)
  | none => (s.insertEntry c.key c.thread).setPc i c (.producing s.next)

/-- `enter`: the entry lock of an `acquire` that found the entry `e` -/
def enter (s : Cache K T V) (i : Nat) (c : Call K T V) (e : Nat) (entry : Entry K T V) :
    Option (Cache K T V) :=
  match entry.state with
  | .initializing owner =>
    -- another thread waits for the producer; the producer's own thread panics
    if owner = c.thread then some (s.setPc i c .returned) else none
  | .ready value references =>
    -- at `isize::MAX` references the source panics: there is no step
    if references + 1 < 2 ^ 63 then
      some ((s.setEntry e { entry with state := .ready value (references + 1) }).setPc i c
        (.leased ⟨e, value⟩))
    else none
  | .removed => some (s.setPc i c .looking)

/-- `deref`: the entry lock of `release` -/
def deref (opts : RefCountCacheOptions) (s : Cache K T V) (i : Nat) (c : Call K T V) (l : Lease V)
    (e : Nat) (entry : Entry K T V) : Cache K T V :=
  match entry.state with
  | .ready value references =>
    if references - 1 > 0 ∨ opts.disableDeletion = true then
      (s.setEntry e { entry with state := .ready value (references - 1) }).setPc i c (.released l)
    else (s.setEntry e { entry with state := .removed }).setPc i c (.removing l e)
  | _ => s.setPc i c (.released l)

def step (opts : RefCountCacheOptions) : Action K T V → Cache K T V → Option (Cache K T V)
  | .call key thread, s => some { s with calls := s.calls ++ [⟨key, thread, .looking⟩] }
  | .look i, s => do
    let c ← s.calls[i]?
    match c.pc with
    | .looking => some (look s i c)
    | _ => none
  | .enter i, s => do
    let c ← s.calls[i]?
    match c.pc with
    | .entered e => if s.locked e then none else enter s i c e (← s.heap e)
    | _ => none
  | .produced i value, s => do
    let c ← s.calls[i]?
    match c.pc with
    | .producing e =>
      let entry ← s.heap e
      some ((s.setEntry e ⟨entry.key, .ready value 1, entry.completions + 1⟩).setPc i c
        (.leased ⟨e, value⟩))
    | _ => none
  | .produceFails i, s => do
    let c ← s.calls[i]?
    match c.pc with
    | .producing e =>
      let entry ← s.heap e
      some (((s.setEntry e { entry with completions := entry.completions + 1 }).unlink c.key
        e).setPc i c (.failed e))
    | _ => none
  | .unwind i, s => do
    let c ← s.calls[i]?
    match c.pc with
    | .failed e =>
      let entry ← s.heap e
      some ((s.setEntry e { entry with state := .removed }).setPc i c .returned)
    | _ => none
  | .release i, s => do
    let c ← s.calls[i]?
    match c.pc with
    | .leased l => some (s.setPc i c (.releasing l))
    | _ => none
  | .lookRelease i, s => do
    let c ← s.calls[i]?
    match c.pc with
    | .releasing l =>
      match s.index c.key with
      | some e => some (s.setPc i c (.releasingAt l e))
      | none => some (s.setPc i c (.released l))
    | _ => none
  | .deref i, s => do
    let c ← s.calls[i]?
    match c.pc with
    | .releasingAt l e => if s.locked e then none else some (deref opts s i c l e (← s.heap e))
    | _ => none
  | .removeEntry i, s => do
    let c ← s.calls[i]?
    match c.pc with
    | .removing l e => some ((s.unlink c.key e).setPc i c (.released l))
    | _ => none

/-! ## What a client or a caller sees -/

/-- `has` -/
def has (s : Cache K T V) (key : K) : Bool := (s.index key).isSome

/-- the leases for a key that were granted and not given back -/
def outstanding (s : Cache K T V) (key : K) : Nat :=
  s.calls.countP fun c => decide (c.key = key) && c.pc.lease.isSome

/-- a producer runs for the key -/
def producing (s : Cache K T V) (key : K) : Bool :=
  s.calls.any fun c => decide (c.key = key) && (c.pc.kind.any fun p => p.1 = .producing)

/-- a lease for the key was granted at some time -/
def granted (s : Cache K T V) (key : K) : Bool :=
  s.calls.any fun c => decide (c.key = key) &&
    (c.pc.lease.isSome || c.pc.kind.any fun p => p.1 = .released)

/-- `reference_count`, in a state where the lock of the entry is free -/
def referenceCount (s : Cache K T V) (key : K) : Option Int := do
  let e ← s.index key
  let entry ← s.heap e
  match entry.state with
  | .ready _ references => some references
  | .initializing _ => some 1
  | .removed => none

end

end Tsr.Project.RefCountCache
