import Tsr.Lib.Run

/-!
# The watch manager

The manager keeps a table of watched directories.  `reconcile_watches` lists the new entries before
the backend is asked to watch them, and stores the closers that the backend returns in the entries
that are still listed by then.  Callbacks run on the threads of the backend: a watch that has
terminated takes its own entry out of the table, whenever it is called.

* `addOne`, `reconcile`   the part of `reconcile_watches` under the state lock;
* `request`, `register`, `store`   the backend, and its closers one by one;
* `terminated`, `closeAll`         entries that others remove;
* `Sweep`                 entries that were removed: each closer is taken and then closed.

An entry is known by its number: `Arc::ptr_eq` compares numbers.  One `reconcile_watches` runs at a
time, as its callers hold the cycle lock; every other call is free to interleave.
-/

namespace Tsr.Tsc.WatchManager

variable {Dir : Type} [DecidableEq Dir]

/-- `dir` is the key under which the entry was made -/
structure WatchedDir (Dir : Type) where
  dir : Dir
  recursive : Bool
  closer : Option Nat

/-- removed entries whose closers are still to be taken, and the closer that has been taken -/
structure Sweep where
  held : Option Nat
  entries : List Nat

/-- the directories to watch, each with its recursive flag; one pair for each directory -/
def Desired (Dir : Type) := { table : List (Dir × Bool) // (table.map Prod.fst).Nodup }

/-- where the running `reconcile_watches` stands; `returned` remembers the result of the last one -/
inductive Phase (Dir : Type) where
  | idle
  | sweeping (own : Sweep)
  | registering
  | storing (held : Option Nat) (left : List (Dir × Nat × Nat))
  | returned (ok : Bool)

/-- the call itself; `gone` lists the directories that others have removed since it began -/
structure Call (Dir : Type) where
  desired : List (Dir × Bool)
  backend : Bool
  additions : List (Dir × Nat)
  gone : List Dir

/-- `closers` counts what the backend has returned, `issued` says for which directories -/
structure State (Dir : Type) where
  backend : Bool
  watched : List (Dir × Nat)
  entries : Nat → WatchedDir Dir
  next : Nat
  closers : Nat
  issued : List (Nat × Dir)
  closed : List Nat
  sweeps : List Sweep
  phase : Phase Dir
  call : Call Dir

def init (entries : Nat → WatchedDir Dir) : State Dir where
  backend := false
  watched := []
  entries := entries
  next := 0
  closers := 0
  issued := []
  closed := []
  sweeps := []
  phase := .idle
  call := ⟨[], false, [], []⟩

/-- a change of one closer -/
def setCloser (entries : Nat → WatchedDir Dir) (id : Nat) (closer : Option Nat) :
    Nat → WatchedDir Dir :=
  Function.update entries id { entries id with closer := closer }

/-! ## the table -/

def State.lists (s : State Dir) (dir : Dir) : Bool := dir ∈ s.watched.map Prod.fst

/-- a listed entry is as desired -/
def State.wanted (s : State Dir) (desired : List (Dir × Bool)) (p : Dir × Nat) : Bool :=
  (p.1, (s.entries p.2).recursive) ∈ desired

/-- the entry for a directory that is not listed, still without a closer -/
def addOne (s : State Dir) (p : Dir × Bool) : State Dir :=
  if s.lists p.1 then s
  else
    { s with
      watched := s.watched ++ [(p.1, s.next)]
      entries := Function.update s.entries s.next ⟨p.1, p.2, none⟩
      next := s.next + 1
      call := { s.call with additions := s.call.additions ++ [(p.1, s.next)] } }

/-- stale entries go, new ones are listed -/
def reconcile (desired : Desired Dir) (s : State Dir) : State Dir :=
  if s.backend then
    let kept : State Dir :=
      { s with
        watched := s.watched.filter (s.wanted desired.1)
        phase := .sweeping ⟨none, (s.watched.filter fun p => !s.wanted desired.1 p).map Prod.snd⟩
        call := ⟨desired.1, true, [], []⟩ }
    desired.1.foldl addOne kept
  else { s with phase := .returned true, call := ⟨desired.1, false, [], []⟩ }

/-! ## closers -/

/-- the next step of a sweep: a closer that was taken is closed before the next one is taken -/
def sweepStep (s : State Dir) (w : Sweep) : Option (State Dir × Sweep) :=
  match w.held, w.entries with
  | some closer, entries => some ({ s with closed := s.closed ++ [closer] }, ⟨none, entries⟩)
  | none, id :: entries =>
    some ({ s with entries := setCloser s.entries id none }, ⟨(s.entries id).closer, entries⟩)
  | none, [] => none

/-- one closer for each request, in the order of the requests -/
def number : Nat → List (Dir × Nat) → List (Dir × Nat × Nat)
  | _, [] => []
  | closer, (dir, id) :: rest => (dir, id, closer) :: number (closer + 1) rest

/-- behind the sweep: without additions the call is done -/
def request (s : State Dir) : Option (State Dir) :=
  match s.phase with
  | .sweeping ⟨none, []⟩ =>
    if s.call.additions = [] then some { s with phase := .returned true }
    else some { s with phase := .registering }
  | _ => none

/-- `watch_directories` returns -/
def register (ok : Bool) (s : State Dir) : Option (State Dir) :=
  match s.phase with
  | .registering =>
    if ok then
      some { s with
        closers := s.closers + s.call.additions.length
        issued := s.issued ++ (number s.closers s.call.additions).map fun q => (q.2.2, q.1)
        phase := .storing none (number s.closers s.call.additions) }
    else
      some { s with
        watched := s.watched.filter fun p => p ∉ s.call.additions
        phase := .returned false }
  | _ => none

/-- the next closer is stored in its entry, or closed when the entry is no longer listed -/
def store (s : State Dir) : Option (State Dir) :=
  match s.phase with
  | .storing (some closer) left =>
    some { s with closed := s.closed ++ [closer], phase := .storing none left }
  | .storing none ((dir, id, closer) :: left) =>
    if (dir, id) ∈ s.watched then
      some { s with entries := setCloser s.entries id (some closer), phase := .storing none left }
    else some { s with phase := .storing (some closer) left }
  | .storing none [] => some { s with phase := .returned true }
  | _ => none

/-! ## entries that others remove -/

/-- the callback of the entry `id`; a late one finds another entry or none -/
def terminated (dir : Dir) (id : Nat) (s : State Dir) : State Dir :=
  if (dir, id) ∈ s.watched then
    { s with
      watched := s.watched.filter fun p => p ≠ (dir, id)
      sweeps := s.sweeps ++ [⟨none, [id]⟩]
      call := { s.call with gone := s.call.gone ++ [dir] } }
  else s

def closeAll (s : State Dir) : State Dir :=
  { s with
    watched := []
    sweeps := s.sweeps ++ [⟨none, s.watched.map Prod.snd⟩]
    call := { s.call with gone := s.call.gone ++ s.watched.map Prod.fst } }

/-! ## steps -/

inductive Act (Dir : Type) where
  | setBackend
  | reconcile (desired : Desired Dir)
  | sweepOwn
  | request
  | register (ok : Bool)
  | store
  | terminated (dir : Dir) (id : Nat)
  | closeAll
  | sweep (i : Nat)

def step : Act Dir → State Dir → Option (State Dir)
  | .setBackend, s => some { s with backend := true }
  | .reconcile desired, s =>
    match s.phase with
    | .idle => some (reconcile desired s)
    | .returned _ => some (reconcile desired s)
    | _ => none
  | .sweepOwn, s =>
    match s.phase with
    | .sweeping own => (sweepStep s own).map fun r => { r.1 with phase := .sweeping r.2 }
    | _ => none
  | .request, s => request s
  | .register ok, s => register ok s
  | .store, s => store s
  | .terminated dir id, s => some (terminated dir id s)
  | .closeAll, s => some (closeAll s)
  | .sweep i, s =>
    (s.sweeps[i]?).bind fun w =>
      (sweepStep s w).map fun r => { r.1 with sweeps := r.1.sweeps.set i r.2 }

/-- no call is in progress -/
def State.Quiet (s : State Dir) : Prop :=
  (s.phase = .idle ∨ ∃ ok, s.phase = .returned ok) ∧ ∀ w ∈ s.sweeps, w = ⟨none, []⟩

/-- the closer is stored in the entry that is listed for the directory -/
def State.Stores (s : State Dir) (dir : Dir) (closer : Nat) : Prop :=
  ∃ id, (dir, id) ∈ s.watched ∧ (s.entries id).closer = some closer

/-- the sweep of the running call -/
def Phase.sweeps : Phase Dir → List Sweep
  | .sweeping own => [own]
  | _ => []

/-- closers that the running call has not stored yet -/
def Phase.left : Phase Dir → List Nat
  | .storing held left => held.toList ++ left.map fun q => q.2.2
  | _ => []

/-- the closer is in the hands of a call in progress -/
def State.Carries (s : State Dir) (closer : Nat) : Prop :=
  closer ∈ s.phase.left ∨ ∃ w ∈ s.sweeps ++ s.phase.sweeps,
    w.held = some closer ∨ ∃ id ∈ w.entries, (s.entries id).closer = some closer

end Tsr.Tsc.WatchManager
