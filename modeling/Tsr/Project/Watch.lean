import Tsr.Lib.Decimal

/-!
# Watch registrations of the language server

A snapshot of the session asks for sets of globs to be watched.  The globs are registered with the
client once each, counted by the sets that hold them.

* `WatchedFiles.watchers`   the globs of one set and its id, kept from the set it was cloned from
                            where they did not change;
* `Registry`                the count and the registration id of each glob, and the ids of the sets
                            whose registration failed;
* `Manager.updateWatch`     registers one set and releases another;
* `Manager.update`          from the sets of one snapshot to those of the next.

The client is `client : Nat → Bool`: whether its `n`-th call succeeds.  `Manager.log` keeps what was
asked of it, the newest call first.
-/

namespace Tsr.Project.Watch
open Tsr.Lib.Decimal

/-- the bytes of a string -/
abbrev JsString := List UInt8

/-! ## Watchers -/

structure Watcher where
  pattern : JsString
  baseUri : Option JsString
  kind : UInt32
deriving DecidableEq

/-- a glob and its kind -/
abbrev Key := JsString × UInt32

def Watcher.globString (w : Watcher) : JsString :=
  match w.baseUri with
  | some uri => uri ++ 47 :: w.pattern
  | none => w.pattern

def Watcher.key (w : Watcher) : Key := (w.globString, w.kind)

structure Watchers where
  id : JsString
  workspace : List Watcher
  outsideWorkspace : List Watcher
deriving DecidableEq

def Watchers.iter (w : Watchers) : List Watcher := w.workspace ++ w.outsideWorkspace

def Watchers.keys (w : Watchers) : List Key := w.iter.map Watcher.key

/-- `id.index` -/
def Watchers.registrationId (w : Watchers) (index : Nat) : JsString := w.id ++ 46 :: decimal index

/-- the watchers with their registration ids -/
def Watchers.numbered (w : Watchers) : List (JsString × Watcher) :=
  w.iter.zipIdx.map fun (watcher, index) => (w.registrationId index, watcher)

/-! ## The watchers of a set -/

structure PatternsAndIgnored where
  directoriesOutsideWorkspace : List JsString
  patternsInsideWorkspace : List JsString

structure WatchedFiles where
  name : JsString
  kind : UInt32
  relative : Bool
  input : PatternsAndIgnored
  previous : List Watcher × List Watcher
  initialId : Nat

namespace WatchedFiles

/-- `next` is the next id of the process -/
def new (name : JsString) (kind : UInt32) (relative : Bool) (next : Nat) : WatchedFiles × Nat :=
  (⟨name, kind, relative, ⟨[], []⟩, ([], []), next⟩, next + 1)

/-- `computed` are the watchers of the set, if they were asked for; the clone has no id of its own -/
def withInput (w : WatchedFiles) (computed : Option Watchers) (input : PatternsAndIgnored) :
    WatchedFiles :=
  { w with
    input := input
    previous := computed.elim w.previous fun c => (c.workspace, c.outsideWorkspace)
    initialId := 0 }

/-- `sort` and `dedup` -/
def sortDedup (l : List JsString) : List JsString :=
  (l.insertionSort (· ≤ ·)).destutter (· ≠ ·)

def removeTrailingDirectorySeparator (path : JsString) : JsString :=
  if path.getLast?.any fun b => b == 47 || b == 92 then path.dropLast else path

/-- `fromFileName` is the URI of a file name -/
def recursiveDirectoryWatcher (fromFileName : JsString → JsString) (directory : JsString)
    (kind : UInt32) (relative : Bool) : Watcher :=
  if relative then ⟨[42, 42, 47, 42], some (fromFileName directory), kind⟩
  else ⟨removeTrailingDirectorySeparator directory ++ [47, 42, 42, 47, 42], none, kind⟩

/-- computed once, when the watchers are first asked for -/
def watchers (fromFileName : JsString → JsString) (w : WatchedFiles) (next : Nat) :
    Watchers × Nat :=
  let globs := sortDedup w.input.patternsInsideWorkspace
  let directories := sortDedup w.input.directoriesOutsideWorkspace
  let sameWorkspace := decide (w.previous.1.map (·.pattern) = globs)
  let workspace := if sameWorkspace then w.previous.1
    else globs.map fun pattern => ⟨pattern, none, w.kind⟩
  let outside := directories.map fun dir => recursiveDirectoryWatcher fromFileName dir w.kind w.relative
  let sameOutside := decide (w.previous.2.map (·.globString) = outside.map (·.globString))
  let outsideWorkspace := if sameOutside then w.previous.2 else outside
  let changed := !sameWorkspace || !sameOutside
  -- ` watcher `
  (⟨w.name ++ [32, 119, 97, 116, 99, 104, 101, 114, 32] ++
      decimal (if changed then next else w.initialId), workspace, outsideWorkspace⟩,
    if changed then next + 1 else next)

end WatchedFiles

/-! ## The registry -/

/-- each glob has the id under which it was registered and the number of its holders -/
structure Registry where
  entries : Key → Option (JsString × Nat)
  pending : JsString → Bool

namespace Registry

def empty : Registry := ⟨fun _ => none, fun _ => false⟩

def count (r : Registry) (key : Key) : Nat := (r.entries key).elim 0 (·.2)

/-- also says whether the glob is new to the registry -/
def acquire (r : Registry) (watcher : Watcher) (id : JsString) : Registry × Bool :=
  let value := (r.entries watcher.key).getD (id, 0)
  ({ r with entries := Function.update r.entries watcher.key (some (value.1, value.2 + 1)) },
    value.2 + 1 == 1)

/-- the registration id, when the last holder is gone -/
def release (r : Registry) (watcher : Watcher) : Registry × Option JsString :=
  match r.entries watcher.key with
  | none => (r, none)
  | some (id, n) =>
    if 1 < n then
      ({ r with entries := Function.update r.entries watcher.key (some (id, n - 1)) }, none)
    else ({ r with entries := Function.update r.entries watcher.key none }, some id)

def markPending (r : Registry) (id : JsString) : Registry :=
  { r with pending := Function.update r.pending id true }

def clearPending (r : Registry) (id : JsString) : Registry :=
  { r with pending := Function.update r.pending id false }

/-- acquires the watchers in turn and collects those that are new -/
def acquireAll (r : Registry) : List (JsString × Watcher) → Registry × List (JsString × Watcher)
  | [] => (r, [])
  | (id, watcher) :: rest =>
    let (r, isNew) := r.acquire watcher id
    let (r, acquired) := r.acquireAll rest
    (r, if isNew then (id, watcher) :: acquired else acquired)

/-- releases the watchers in turn and collects the ids of those that have no holder left -/
def releaseAll (r : Registry) : List Watcher → Registry × List JsString
  | [] => (r, [])
  | watcher :: rest =>
    let (r, removed) := r.release watcher
    let (r, ids) := r.releaseAll rest
    (r, removed.toList ++ ids)

end Registry

/-! ## The manager -/

inductive ClientCall where
  | watchFiles (id : JsString) (watcher : Watcher)
  | unwatchFiles (id : JsString)
deriving DecidableEq

structure Manager where
  registry : Registry
  log : List (ClientCall × Bool)

/-- the sets of a snapshot, by name -/
abbrev WatchSet := Std.ExtTreeMap JsString Watchers

namespace Manager

def new : Manager := ⟨Registry.empty, []⟩

section
variable (client : Nat → Bool)

/-- asks the client and says whether it failed -/
def call (m : Manager) (c : ClientCall) : Manager :=
  { m with log := (c, client m.log.length) :: m.log }

/-- the calls in turn, with those that failed -/
def callAll (m : Manager) : List ClientCall → Manager × List ClientCall
  | [] => (m, [])
  | c :: rest =>
    let failed := !client m.log.length
    let (m, errors) := (m.call client c).callAll rest
    (m, if failed then c :: errors else errors)

/-- the first half of `update_watch` -/
def register (m : Manager) (new : Watchers) : Manager × List ClientCall :=
  let (registry, acquired) := m.registry.acquireAll new.numbered
  let (m, errors) := { m with registry := registry }.callAll client
    (acquired.map fun (id, watcher) => .watchFiles id watcher)
  if errors.isEmpty then ({ m with registry := m.registry.clearPending new.id }, [])
  else
    -- the successful calls are rolled back too
    let (registry, _) := m.registry.releaseAll (acquired.map (·.2))
    ({ m with registry := registry.markPending new.id }, errors)

/-- the second half of `update_watch` -/
def unregister (m : Manager) (old : Watchers) : Manager × List ClientCall :=
  let (registry, removed) := m.registry.releaseAll old.iter
  { m with registry := registry }.callAll client (removed.map .unwatchFiles)

def updateWatch (m : Manager) (old new : Option Watchers) : Manager × List ClientCall :=
  let (m, errors) := match new with
    | some new => m.register client new
    | none => (m, [])
  let (m, errors') := match old with
    | some old => m.unregister client old
    | none => (m, [])
  (m, errors ++ errors')

/-- a set of the new snapshot -/
def visitNew (old : WatchSet) (m : Manager) (entry : JsString × Watchers) :
    Manager × List ClientCall :=
  let previous := old[entry.1]?
  if previous.all fun o => o.id ≠ entry.2.id then m.updateWatch client previous (some entry.2)
  else if m.registry.pending entry.2.id then m.updateWatch client none (some entry.2)
  else (m, [])

/-- a set of the old snapshot -/
def visitOld (new : WatchSet) (m : Manager) (entry : JsString × Watchers) :
    Manager × List ClientCall :=
  if new.contains entry.1 then (m, []) else m.updateWatch client (some entry.2) none

/-- visits the entries in turn -/
def visitAll (visit : Manager → JsString × Watchers → Manager × List ClientCall) (m : Manager) :
    List (JsString × Watchers) → Manager × List ClientCall
  | [] => (m, [])
  | entry :: rest =>
    let (m, errors) := visit m entry
    let (m, errors') := visitAll visit m rest
    (m, errors ++ errors')

/-- the calls that failed stand for their messages -/
def update (m : Manager) (old new : WatchSet) : Manager × List ClientCall :=
  let (m, errors) := visitAll (visitNew client old) m new.toList
  let (m, errors') := visitAll (visitOld client new) m old.toList
  (m, errors ++ errors')

/-- the updates from each of the sets to the next one -/
def run (m : Manager) (old : WatchSet) : List WatchSet → Manager × WatchSet
  | [] => (m, old)
  | new :: rest => (m.update client old new).1.run new rest

end

end Manager

end Tsr.Project.Watch
