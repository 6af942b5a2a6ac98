import Tsr.Fswatch.EventList

/-!
# The watcher of the Linux backends

A watcher keeps a list of directory watches; each one serves any number of subscriptions.  The
backend keeps the native subscriptions, and a worker that reads the native events.

* `Backend`     `subscribe`, `addMany`, `closeWatch`, `dropPath`, and the native events;
* `State`       the watcher with its backend, if it has one;
* `register`    `register_directories`, with what the kernel and the file system answer;
* `step`        one action of the callers, of the worker, or a native event.

A directory watch is known by its place in `State.objects`.  A registration holds the lock of the
watcher from its first look at the list to the end, so it is one action.
-/

namespace Tsr.Fswatch.Watcher
open Tsr.Fswatch

/-! ## Paths -/

def startsWithSlash (path : Path) : Bool := path.head? == some 47

def endsWithSlash (path : Path) : Bool := path.getLast? == some 47

def stripPrefix (dir path : Path) : Option Path :=
  if dir.isPrefixOf path then some (path.drop dir.length) else none

def isInDirectoryOrSelf (dir path : Path) : Bool :=
  !dir.isEmpty && (path == dir || (stripPrefix dir path).any fun rest =>
    !rest.isEmpty && (endsWithSlash dir || startsWithSlash rest))

def joinSuffix (root suffix : Path) : Path :=
  if suffix.isEmpty then root
  else if endsWithSlash root && startsWithSlash suffix then root ++ suffix.tail
  else if !endsWithSlash root && !startsWithSlash suffix then root ++ 47 :: suffix
  else root ++ suffix

def rebasePath (path source target : Path) : Path :=
  if source = target ∨ isInDirectoryOrSelf source path = false then path
  else joinSuffix target (path.drop source.length)

/-! ## Directory watches -/

inductive Error where
  | mustBeAbsolute
  | io (errno : Nat)
  | directoryWatch (directory path : Path) (errno : Nat)
deriving DecidableEq

/-- `entries` are the ids of the callbacks -/
structure DirWatch where
  dir : Path
  physicalDir : Path
  recursive : Bool
  next : UInt64
  entries : List UInt64
deriving DecidableEq

def DirWatch.displayPath (w : DirWatch) (path : Path) : Path := rebasePath path w.physicalDir w.dir

/-- a new callback -/
def DirWatch.watch (w : DirWatch) : DirWatch × UInt64 :=
  ({ w with next := w.next + 1, entries := w.entries ++ [w.next + 1] }, w.next + 1)

def DirWatch.unwatch (w : DirWatch) (id : UInt64) : DirWatch :=
  { w with entries := w.entries.filter (· ≠ id) }

/-! ## The backend -/

/-- what the kernel answers to a new native watch: its key, or an error -/
inductive Native where
  | added (key : Nat)
  | failed (errno : Nat)
deriving DecidableEq

/-- a walk over a directory: the native watches of the directory itself and of those below it, and an
error that ended it -/
structure Walk where
  root : Native
  below : List (Path × Native)
  failure : Option Nat
deriving DecidableEq

structure Subscription where
  path : Path
  physical : Path
  watch : Nat
deriving DecidableEq

/-- the read loop of the worker: `failed` has still to retire its descriptor -/
inductive Loop where
  | running
  | failed
  | retired
deriving DecidableEq

/-- `notifying` are the watches that the worker has still to tell of its failure -/
structure Backend where
  loop : Loop
  subscriptions : List (Nat × List Subscription)
  watches : List Nat
  notifying : List Nat
deriving DecidableEq

namespace Backend

def new : Backend := ⟨.running, [], [], []⟩

/-- the descriptor is there until the worker retires it -/
def hasFd (b : Backend) : Bool := b.loop != .retired

/-- `entry(key).or_default().push(sub)` -/
def pushSubscription (key : Nat) (sub : Subscription) :
    List (Nat × List Subscription) → List (Nat × List Subscription)
  | [] => [(key, [sub])]
  | (k, subs) :: rest => if k = key then (k, subs ++ [sub]) :: rest
    else (k, subs) :: pushSubscription key sub rest

/-- `EBADF` without a descriptor -/
def addDir (b : Backend) (watch : Nat) (path physical : Path) (native : Native) :
    Backend × Option Nat :=
  if b.hasFd then
    match native with
    | .added key =>
      ({ b with subscriptions := pushSubscription key ⟨path, physical, watch⟩ b.subscriptions }, none)
    | .failed errno => (b, some errno)
  else (b, some 9)

/-- the directories of a walk in turn, up to the first error -/
def addDirs (b : Backend) (watch : Nat) (w : DirWatch) : List (Path × Native) →
    Backend × Option (Path × Nat)
  | [] => (b, none)
  | (physical, native) :: rest =>
    match b.addDir watch (w.displayPath physical) physical native with
    | (b, some errno) => (b, some (w.displayPath physical, errno))
    | (b, none) => addDirs b watch w rest

/-- all directories of a walk, whatever fails -/
def addDirsBestEffort (b : Backend) (watch : Nat) (w : DirWatch) : List (Path × Native) → Backend
  | [] => b
  | (physical, native) :: rest =>
    addDirsBestEffort (b.addDir watch (w.displayPath physical) physical native).1 watch w rest

def subscribe (b : Backend) (watch : Nat) (w : DirWatch) (walk : Walk) : Backend × Option Error :=
  if b.hasFd then
    if w.recursive then
      match b.addDirs watch w ((w.physicalDir, walk.root) :: walk.below) with
      | (b, some (path, errno)) => (b, some (.directoryWatch w.dir path errno))
      | (b, none) => (b, walk.failure.map .io)
    else
      match b.addDir watch w.dir w.physicalDir walk.root with
      | (b, some errno) => (b, some (.directoryWatch w.dir w.dir errno))
      | (b, none) => (b, none)
  else (b, some (.directoryWatch w.dir w.dir 9))

/-- keys without subscriptions go -/
def retain (keep : Subscription → Bool) (subscriptions : List (Nat × List Subscription)) :
    List (Nat × List Subscription) :=
  (subscriptions.map fun entry => (entry.1, entry.2.filter keep)).filter fun entry => !entry.2.isEmpty

def closeWatch (b : Backend) (watch : Nat) : Backend :=
  { b with
    subscriptions := retain (fun sub => sub.watch != watch) b.subscriptions
    watches := b.watches.filter (· ≠ watch) }

def dropPath (b : Backend) (path : Path) (recursive : Bool) : Backend :=
  { b with
    subscriptions := retain (fun sub => if recursive then !isInDirectoryOrSelf path sub.path
      else sub.path != path) b.subscriptions }

/-- `added` are the watches of this call so far -/
def addMany (objects : List DirWatch) (walks : Nat → Walk) : List Nat → List Nat → Backend →
    Backend × Option Error
  | [], _, b => (b, none)
  | watch :: rest, added, b =>
    if watch ∈ b.watches then addMany objects walks rest added b
    else match objects[watch]? with
    | none => addMany objects walks rest added b
    | some w =>
      match b.subscribe watch w (walks watch) with
      | (b, some error) => (added.foldl closeWatch (b.closeWatch watch), some error)
      | (b, none) => addMany objects walks rest (added ++ [watch])
          { b with watches := b.watches ++ [watch] }

/-! ## Native events -/

/-- the bits of a native event that the backends look at -/
structure Mask where
  create : Bool
  movedTo : Bool
  modify : Bool
  delete : Bool
  movedFrom : Bool
  deleteSelf : Bool
  moveSelf : Bool
  directory : Bool
deriving DecidableEq

def subscriptionsOf (b : Backend) (key : Nat) : List Subscription :=
  ((b.subscriptions.find? fun entry => entry.1 == key).map (·.2)).getD []

/-- one subscription under the key of an inotify event; `walk` is the new directory, if it is one -/
def inotifySubscription (objects : List DirWatch) (mask : Mask) (name : Path)
    (walk : List (Path × Native)) (b : Backend) (sub : Subscription) : Backend :=
  match objects[sub.watch]? with
  | none => b
  | some w =>
    let path := joinSuffix sub.path name
    let selfEvent := mask.deleteSelf || mask.moveSelf
    if mask.create || mask.movedTo then
      if mask.directory && w.recursive then b.addDirsBestEffort sub.watch w walk else b
    else if mask.modify then b
    else if mask.delete || mask.movedFrom || selfEvent then
      if selfEvent && path != w.dir then b
      else if selfEvent || mask.directory then b.dropPath path true
      else b
    else b

def inotifyEvent (objects : List DirWatch) (key : Nat) (mask : Mask) (name : Path)
    (walk : List (Path × Native)) (b : Backend) : Backend :=
  (b.subscriptionsOf key).foldl (inotifySubscription objects mask name walk) b

/-- one subscription under the key of a fanotify record; `gone` says that the path is not there -/
def fanotifySubscription (objects : List DirWatch) (mask : Mask) (name : Path) (gone : Bool)
    (walk : List (Path × Native)) (b : Backend) (sub : Subscription) : Backend :=
  match objects[sub.watch]? with
  | none => b
  | some w =>
    let selfEvent := name.isEmpty || name == [46]
    let path := if selfEvent then sub.path else joinSuffix sub.path name
    let create := mask.create || mask.movedTo
    let delete := mask.delete || mask.movedFrom
    let selfMask := mask.deleteSelf || mask.moveSelf
    if create && delete && !selfEvent && gone then b
    else
      let b := if (delete || selfMask) && (!selfMask || path == w.dir) then
          b.dropPath path (selfMask || mask.directory)
        else b
      if create && mask.directory && w.recursive then b.addDirsBestEffort sub.watch w walk else b

def fanotifyEvent (objects : List DirWatch) (key : Nat) (mask : Mask) (name : Path) (gone : Bool)
    (walk : List (Path × Native)) (b : Backend) : Backend :=
  (b.subscriptionsOf key).foldl (fanotifySubscription objects mask name gone walk) b

end Backend

/-! ## The watcher -/

/-- a request whose directory is absolute and exists, with its physical directory -/
structure Request where
  dir : Path
  physical : Path
  recursive : Bool
  absolute : startsWithSlash dir = true
  physicalAbsolute : startsWithSlash physical = true

/-- `dirs` is the list of the owner, `openWatches` are the public watches; `returned` is the answer of
the last action, if it was a registration -/
structure State where
  objects : List DirWatch
  dirs : List Nat
  backend : Option Backend
  openWatches : List (Nat × UInt64)
  returned : Option (Except Error (List (Nat × UInt64)))

def State.init : State := ⟨[], [], none, [], none⟩

/-- the listed watch of a directory -/
def findDir (objects : List DirWatch) (dirs : List Nat) (request : Request) : Option Nat :=
  dirs.find? fun id => (objects[id]?).any fun w => w.dir == request.dir && w.recursive == request.recursive

/-- what a registration has listed so far -/
structure Listing where
  objects : List DirWatch
  dirs : List Nat
  added : List Nat
  registrations : List (Nat × UInt64)

/-- a callback on a listed watch -/
def Listing.subscribe (l : Listing) (id : Nat) : Listing :=
  match l.objects[id]? with
  | none => l
  | some w => { l with
      objects := l.objects.set id w.watch.1
      registrations := l.registrations ++ [(id, w.watch.2)] }

def Listing.request (l : Listing) (request : Request) : Listing :=
  match findDir l.objects l.dirs request with
  | some id => l.subscribe id
  | none =>
    Listing.subscribe { l with
      objects := l.objects ++ [⟨request.dir, request.physical, request.recursive, 0, []⟩]
      dirs := l.dirs ++ [l.objects.length]
      added := l.added ++ [l.objects.length] } l.objects.length

/-- the callbacks of a registration that failed -/
def unwatchAll (objects : List DirWatch) (registrations : List (Nat × UInt64)) : List DirWatch :=
  registrations.foldl (fun objects r => objects.modify r.1 (·.unwatch r.2)) objects

def stopIfEmpty (dirs : List Nat) (b : Backend) : Option Backend := if dirs.isEmpty then none else some b

/-- the native watches of the listing -/
def State.addMany (s : State) (l : Listing) (walks : Nat → Walk) (b : Backend) : State :=
  match b.addMany l.objects walks l.added [] with
  | (b, some error) =>
    let dirs := l.dirs.filter fun id => decide (id ∉ l.added)
    { s with
      objects := unwatchAll l.objects l.registrations
      dirs := dirs
      backend := stopIfEmpty dirs (l.added.foldl Backend.closeWatch b)
      returned := some (.error error) }
  | (b, none) =>
    { s with
      objects := l.objects
      dirs := l.dirs
      backend := some b
      openWatches := s.openWatches ++ l.registrations
      returned := some (.ok l.registrations) }

/-- `startup` is what the start of a backend gives, if one is needed -/
def register (s : State) (prepared : Except Error (List Request)) (startup : Option Error)
    (walks : Nat → Walk) : State :=
  match prepared with
  | .error error => { s with returned := some (.error error) }
  | .ok [] => { s with returned := some (.ok []) }
  | .ok requests =>
    match s.backend, startup with
    | none, some error => { s with returned := some (.error error) }
    | backend, _ =>
      s.addMany (requests.foldl Listing.request ⟨s.objects, s.dirs, [], []⟩) walks
        (backend.getD Backend.new)

/-- `Watch::close` of an open watch -/
def close (s : State) (watch : Nat × UInt64) : State :=
  let objects := s.objects.modify watch.1 (·.unwatch watch.2)
  let last := (objects[watch.1]?).all fun w => w.entries.isEmpty
  let dirs := if last then s.dirs.filter (· ≠ watch.1) else s.dirs
  let backend := if last then s.backend.map (·.closeWatch watch.1) else s.backend
  { s with
    objects := objects
    dirs := dirs
    backend := backend.bind (stopIfEmpty dirs)
    openWatches := s.openWatches.erase watch
    returned := none }

/-- `Watcher::close` -/
def closeAll (s : State) : State :=
  { s with
    objects := s.dirs.foldl (fun objects id => objects.modify id ({ · with entries := [] })) s.objects
    dirs := []
    backend := none
    returned := none }

inductive Action where
  | register (prepared : Except Error (List Request)) (startup : Option Error) (walks : Nat → Walk)
  | close (watch : Nat × UInt64)
  | closeAll
  | inotify (key : Nat) (mask : Backend.Mask) (name : Path) (walk : List (Path × Native))
  | fanotify (key : Nat) (mask : Backend.Mask) (name : Path) (gone : Bool)
      (walk : List (Path × Native))
  | fail
  | retire
  | notifyError (watch : Nat)

/-- an action of the worker -/
def onBackend (s : State) (f : Backend → Option Backend) : Option State :=
  (s.backend.bind f).map fun b => { s with backend := some b, returned := none }

/-- only a running loop reads events -/
def whileRunning (f : Backend → Backend) (b : Backend) : Option Backend :=
  if b.loop = .running then some (f b) else none

def step (a : Action) (s : State) : Option State :=
  match a with
  | .register prepared startup walks => some (register s prepared startup walks)
  | .close watch => if watch ∈ s.openWatches then some (close s watch) else none
  | .closeAll => some (closeAll s)
  | .inotify key mask name walk =>
    onBackend s (whileRunning (Backend.inotifyEvent s.objects key mask name walk))
  | .fanotify key mask name gone walk =>
    onBackend s (whileRunning (Backend.fanotifyEvent s.objects key mask name gone walk))
  | .fail => onBackend s (whileRunning fun b => { b with loop := .failed })
  | .retire => onBackend s fun b =>
      if b.loop = .failed then some { b with loop := .retired, notifying := b.watches } else none
  | .notifyError watch =>
    (onBackend s fun b =>
      if watch ∈ b.notifying then some { b with notifying := b.notifying.erase watch } else none).map
        fun s => { s with objects := s.objects.modify watch ({ · with entries := [] }) }

end Tsr.Fswatch.Watcher
