import Tsr.Lib.Run

/-!
# Core: breadth-first search with one thread for each job of a level

* `Job`, `createPath`      a node and the job that queued it; the nodes back to the start;
* `Pc`, `Search.stepJob`   the steps of one job: each atomic operation, each call and each lock is one step;
* `Search.join`            the end of a level, when all its jobs are done;
* `Search.inOrder`         the search that visits each level in index order, one node after the other.

The value `i64::MAX` of an atomic index is `none`: no level is that long.
-/

namespace Tsr.Core.Bfs

/-- a node and the job that queued it -/
inductive Job (N : Type) where
  | root (node : N)
  | child (node : N) (parent : Job N)

namespace Job

variable {N : Type}

def node : Job N → N
  | root node => node
  | child node _ => node

def path : Job N → List N
  | root node => [node]
  | child node parent => node :: parent.path

end Job

def createPath {N : Type} (job : Option (Job N)) : List N := (job.map Job.path).getD []

/-- the arguments of a search; `preprocessLevel` gives the keys that the callback deletes -/
structure Search (N K : Type) where
  start : N
  neighbors : N → List N
  visit : N → Bool × Bool
  visited : Finset K
  preprocessLevel : Option (List (K × N) → List K)
  getKey : N → K

/-- the two indices that `update_min` lowers -/
inductive Target where
  | goal
  | fallback
deriving DecidableEq

/-- where a job stands -/
inductive Pc where
  /-- before the first load of the lowest goal -/
  | start
  /-- before `add_if_absent` -/
  | enter
  /-- before the call of `visit` -/
  | visiting
  /-- in `update_min`, before the load -/
  | load (target : Target)
  /-- in `update_min`, before the exchange -/
  | swap (target : Target) (current : Option Nat)
  /-- before the second load of the lowest goal -/
  | check
  /-- before the neighbors are queued -/
  | expand
  | done
deriving DecidableEq

structure State (N K : Type) where
  level : List (Job N)
  pcs : List Pc
  lowestGoal : Option Nat
  lowestFallback : Option Nat
  next : List (List (Job N))
  visited : Finset K
  fallback : Option (Job N)
  result : Option (Bool × List N)
  /-- ghost: the number of the level -/
  depth : Nat
  /-- ghost: the keys visited before the level -/
  base : Finset K
  /-- ghost: the nodes `visit` was called with -/
  visits : List N

inductive Action where
  | job (i : Nat)
  | join

namespace State

variable {N K : Type}

def lowest (s : State N K) : Target → Option Nat
  | .goal => s.lowestGoal
  | .fallback => s.lowestFallback

def setLowest (s : State N K) : Target → Nat → State N K
  | .goal, i => { s with lowestGoal := some i }
  | .fallback, i => { s with lowestFallback := some i }

def setPc (s : State N K) (i : Nat) (pc : Pc) : State N K := { s with pcs := s.pcs.set i pc }

end State

/-- where `update_min` returns to -/
def Target.after : Target → Pc
  | .goal => .done
  | .fallback => .check

/-- the index is not below the one of the atomic -/
def reached (lowest : Option Nat) (i : Nat) : Bool := lowest.any fun l => l ≤ i

namespace Search

variable {N K : Type} [DecidableEq K] (search : Search N K)

def key (job : Job N) : K := search.getKey job.node

/-- the level after the callback -/
def prune (jobs : List (Job N)) : List (Job N) :=
  match search.preprocessLevel with
  | none => jobs
  | some preprocess =>
    let deleted := preprocess (jobs.map fun job => (search.key job, job.node))
    jobs.filter fun job => search.key job ∉ deleted

/-- the first job of each key -/
def distinct (jobs : List (Job N)) : List (Job N) :=
  jobs.foldl (fun kept job => if search.key job ∈ kept.map search.key then kept else kept ++ [job]) []

def children (job : Job N) : List (Job N) :=
  (search.neighbors job.node).map fun node => .child node job

/-- the job behind the call of `visit` -/
def afterVisit (hasFallback : Bool) : Bool × Bool → Pc
  | (true, true) => .load .goal
  | (true, false) => if hasFallback then .check else .load .fallback
  | (false, _) => .check

/-- one step of the job `i` -/
def stepJob (i : Nat) (job : Job N) (s : State N K) : Pc → Option (State N K)
  | .start => some (s.setPc i (if reached s.lowestGoal i then .done else .enter))
  | .enter =>
    if search.key job ∈ s.visited then some (s.setPc i .done)
    else some { s.setPc i .visiting with visited := insert (search.key job) s.visited }
  | .visiting =>
    some { s.setPc i (afterVisit s.fallback.isSome (search.visit job.node)) with
      visits := job.node :: s.visits }
  | .load target =>
    let current := s.lowest target
    some (s.setPc i (if current.any fun l => l < i then target.after else .swap target current))
  | .swap target current =>
    if s.lowest target = current then some ((s.setLowest target i).setPc i target.after)
    else some (s.setPc i (.load target))
  | .check => some (s.setPc i (if reached s.lowestGoal i then .done else .expand))
  | .expand => some { s.setPc i .done with next := s.next.set i (search.children job) }
  | .done => none

/-- the loop over the levels, up to the jobs of the next one -/
def startLevel (depth : Nat) (jobs : List (Job N)) (visited : Finset K) (fallback : Option (Job N))
    (visits : List N) : State N K :=
  let level := if jobs.isEmpty then [] else search.prune jobs
  { level, pcs := level.map fun _ => .start, lowestGoal := none, lowestFallback := none,
    next := level.map fun _ => [], visited, fallback,
    result := if jobs.isEmpty then some (false, createPath fallback) else none,
    depth, base := visited, visits }

/-- the fallback behind a level without a goal -/
def fallbackOf (s : State N K) : Option (Job N) :=
  if s.fallback.isSome then s.fallback else s.lowestFallback.bind fun i => s.level[i]?

/-- all jobs have been joined -/
def join (s : State N K) : State N K :=
  match s.lowestGoal with
  | some goal => { s with result := some (true, createPath s.level[goal]?) }
  | none =>
    search.startLevel (s.depth + 1) (search.distinct s.next.flatten) s.visited (fallbackOf s) s.visits

def step : Action → State N K → Option (State N K)
  | .job i, s => s.level[i]?.bind fun job => s.pcs[i]?.bind fun pc => search.stepJob i job s pc
  | .join, s => if s.result.isNone ∧ ∀ pc ∈ s.pcs, pc = .done then some (search.join s) else none

def init : State N K := search.startLevel 0 [.root search.start] search.visited none []

/-! ## one node after the other -/

/-- what the search found, with the number of the level it was found in -/
structure Outcome (N : Type) where
  stop : Bool
  found : Option (Nat × Job N)

inductive LevelResult (N K : Type) where
  | stop (job : Job N)
  | next (jobs : List (Job N)) (visited : Finset K) (fallback : Option (Nat × Job N))

/-- a level in index order; `queued` are the jobs of the next level so far -/
def levelInOrder (depth : Nat) :
    List (Job N) → List (Job N) → Finset K → Option (Nat × Job N) → LevelResult N K
  | [], queued, visited, fallback => .next queued visited fallback
  | job :: jobs, queued, visited, fallback =>
    if search.key job ∈ visited then levelInOrder depth jobs queued visited fallback
    else
      let visited := insert (search.key job) visited
      let queued := queued ++ search.children job
      match search.visit job.node with
      | (true, true) => .stop job
      | (true, false) => levelInOrder depth jobs queued visited (fallback.or (some (depth, job)))
      | (false, _) => levelInOrder depth jobs queued visited fallback

/-- the levels from the one with number `depth` on; `none` when there are more than `fuel` -/
def inOrder : Nat → Nat → List (Job N) → Finset K → Option (Nat × Job N) → Option (Outcome N)
  | 0, _, _, _, _ => none
  | fuel + 1, depth, jobs, visited, fallback =>
    if jobs.isEmpty then some { stop := false, found := fallback }
    else match search.levelInOrder depth (search.prune jobs) [] visited fallback with
      | .stop job => some { stop := true, found := some (depth, job) }
      | .next queued visited fallback =>
        inOrder fuel (depth + 1) (search.distinct queued) visited fallback

/-- the whole search, with at most `fuel` levels -/
def sequential (fuel : Nat) : Option (Outcome N) :=
  search.inOrder fuel 0 [.root search.start] search.visited none

end Search

end Tsr.Core.Bfs
