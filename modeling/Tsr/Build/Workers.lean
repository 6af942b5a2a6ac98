import Tsr.Build.Graph
import Tsr.Lib.Run

/-!
# The builder workers

The workers of a build take the positions of the order one after another.  A worker waits for the
upstream tasks of the task at its position, runs it, marks it done, waits until the entry before it
has been reported, and writes the output of the task.

* `Setting`   the order, the upstream tasks, and how many threads the group of workers has;
* `step`      one action of one worker: between two actions any other worker may move.

A worker that the group has not started yet is `queued`.  `State.stage` and `State.trace` are for
the proofs only: how far the task at each position has come, and the runs and completions so far.
-/

namespace Tsr.Build.Workers
open Tsr.Build.Graph

/-- an open integer type -/
abbrev ExitStatus := Int32

def diagnosticsPresentOutputsSkipped : ExitStatus := 1

structure TaskResult where
  status : ExitStatus
  output : List UInt8
deriving DecidableEq

/-- of a task that failed, panicked or found the build canceled -/
def TaskResult.skipped : TaskResult := ⟨diagnosticsPresentOutputsSkipped, []⟩

/-- how the run of a task ends; errors and panics are numbered -/
inductive Outcome where
  | ok (result : TaskResult)
  | error (error : Nat)
  | panic (panic : Nat)
  | canceled
deriving DecidableEq

def Outcome.result : Outcome → TaskResult
  | .ok result => result
  | _ => .skipped

/-- where a worker is in its loop, with the position that it took -/
inductive Phase where
  | queued
  | claiming
  | waiting (position : Nat) (upstream : List (Nat × Nat))
  | ran (position : Nat) (outcome : Outcome)
  | settled (position : Nat) (result : TaskResult)
  | reporting (position : Nat) (result : TaskResult)
  | writing (position : Nat) (result : TaskResult)
  | written (position : Nat) (result : TaskResult)
  | ended
deriving DecidableEq

def Phase.running : Phase → Bool
  | .queued | .ended => false
  | _ => true

inductive Event where
  | ran (index : Nat)
  | done (index : Nat)
deriving DecidableEq

structure Setting where
  order : List Nat
  upstream : Nat → List (Nat × Nat)
  threads : Nat

structure State where
  current : Nat
  failure : Option Nat
  firstPanic : Option Nat
  buildErrors : Nat → Bool
  pending : Nat → Bool
  initialCycle : Nat → Bool
  done : Nat → Bool
  reportDone : Nat → Bool
  results : Nat → Option TaskResult
  written : List (Nat × List UInt8)
  workers : List Phase
  stage : Nat → Nat
  trace : List Event

/-- the completions are reset; `pending` and `initialCycle` are as the graph left them -/
def State.init (pending initialCycle : Nat → Bool) (builders : Nat) : State where
  current := 0
  failure := none
  firstPanic := none
  buildErrors := fun _ => false
  pending := pending
  initialCycle := initialCycle
  done := fun _ => false
  reportDone := fun _ => false
  results := fun _ => none
  written := []
  workers := List.replicate builders .queued
  stage := fun _ => 0
  trace := []

inductive Action where
  | start (w : Nat)
  | fetch (w : Nat)
  | wait (w : Nat)
  | run (w : Nat) (outcome : Outcome)
  | settle (w : Nat)
  | finish (w : Nat)
  | await (w : Nat)
  | write (w : Nat) (panic : Option Nat)
  | report (w : Nat)
deriving DecidableEq

def Action.worker : Action → Nat
  | .start w | .fetch w | .wait w | .run w _ | .settle w | .finish w | .await w | .write w _
  | .report w => w

section
variable (c : Setting)

def move (s : State) (w : Nat) (phase : Phase) : State := { s with workers := s.workers.set w phase }

/-- the task at the position has come to the given stage -/
def mark (s : State) (position stage : Nat) : State :=
  { s with stage := Function.update s.stage position stage }

/-- `current.fetch_add` -/
def claim (s : State) (w : Nat) : State :=
  match c.order[s.current]? with
  | some index =>
    mark (move { s with current := s.current + 1 } w (.waiting s.current (c.upstream index)))
      s.current 1
  | none => move { s with current := s.current + 1 } w .ended

/-- the first error and the first panic are kept -/
def settleTask (s : State) (index : Nat) : Outcome → State
  | .ok _ => s
  | .error e => { s with
      failure := s.failure.or (some e)
      buildErrors := Function.update s.buildErrors index true }
  | .panic p => { s with
      firstPanic := s.firstPanic.or (some p)
      buildErrors := Function.update s.buildErrors index true }
  | .canceled => { s with buildErrors := Function.update s.buildErrors index true }

def finishTask (s : State) (index : Nat) : State :=
  { s with
    pending := Function.update s.pending index false
    initialCycle := Function.update s.initialCycle index false
    done := Function.update s.done index true
    trace := s.trace ++ [.done index] }

/-- the first entry waits for none -/
def turn (s : State) (position : Nat) : Bool :=
  position == 0 || (c.order[position - 1]?).any s.reportDone

def writeOutput (s : State) (index : Nat) (result : TaskResult) (panic : Option Nat) : State :=
  { s with
    written := s.written ++ [(index, result.output)]
    firstPanic := s.firstPanic.or panic }

def reportTask (s : State) (index : Nat) (result : TaskResult) : State :=
  { s with
    results := Function.update s.results index (some result)
    reportDone := Function.update s.reportDone index true }

/-- the actions of a worker whose task is `index` -/
def stepTask (w index : Nat) (s : State) : Phase → Action → Option State
  | .waiting p (u :: rest), .wait _ =>
    if s.done u.1 then some (move s w (.waiting p rest)) else none
  | .waiting p [], .run _ outcome =>
    some (mark (move { s with trace := s.trace ++ [.ran index] } w (.ran p outcome)) p 2)
  | .ran p outcome, .settle _ => some (move (settleTask s index outcome) w (.settled p outcome.result))
  | .settled p result, .finish _ => some (mark (move (finishTask s index) w (.reporting p result)) p 3)
  | .reporting p result, .await _ =>
    if turn c s p then some (mark (move s w (.writing p result)) p 4) else none
  | .writing p result, .write _ panic =>
    some (mark (move (writeOutput s index result panic) w (.written p result)) p 5)
  | .written p result, .report _ => some (mark (move (reportTask s index result) w .claiming) p 6)
  | _, _ => none

/-- the position that the worker holds -/
def Phase.position : Phase → Option Nat
  | .queued | .claiming | .ended => none
  | .waiting p _ | .ran p _ | .settled p _ | .reporting p _ | .writing p _ | .written p _ => some p

def stepWorker (w : Nat) (s : State) (phase : Phase) (a : Action) : Option State :=
  match phase, a with
  | .queued, .start _ =>
    if s.workers.countP Phase.running < c.threads then some (move s w .claiming) else none
  | .claiming, .fetch _ => some (claim c s w)
  | phase, a => (phase.position.bind (c.order[·]?)).bind fun index => stepTask c w index s phase a

def step (a : Action) (s : State) : Option State :=
  (s.workers[a.worker]?).bind fun phase => stepWorker c a.worker s phase a

end

end Tsr.Build.Workers
