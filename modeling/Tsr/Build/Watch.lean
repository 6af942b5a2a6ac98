import Tsr.Lib.Run

/-!
# Project builds in watch mode

`Orchestrator` keeps one task per project across the cycles of a watch.  A task has a status, which
is `none` until it is examined, and is examined only while it is `pending`.

* `upToDateStatus`, `handleWithoutBuild`, `compile`   what the examination of a task decides;
* `updateDownstream`   what a task that was built does to the tasks that reference it;
* `build`              one task of `build_or_clean`;
* `generateGraph`      the graph, with the tasks of the last one where they are not dirty;
* `step`               the events, the graph and the tasks of a cycle, as actions.

The disk enters in three places: the parsed configs of a new graph, the `Inspection` of the outputs
of a project, and the outcome of a compilation.  They are parameters of the actions.  A task starts
when its references are done; it reads only these and writes only the tasks that reference it,
which have not started: builders in parallel are an order of such steps.
-/

namespace Tsr.Build
open Tsr.Lib.Run

/-! ## Statuses -/

inductive StatusKind where
  | configFileNotFound
  | buildErrors
  | upstreamErrors
  | upToDate
  | upToDateWithUpstreamTypes
  | upToDateWithInputFileText
  | inputFileMissing
  | outputMissing
  | inputFileNewer
  | outOfDateBuildInfoWithPendingEmit
  | outOfDateBuildInfoWithErrors
  | outOfDateOptions
  | outOfDateRoots
  | tsVersionOutOfDate
  | forceBuild
  | solution
deriving DecidableEq

/-- the fields that are not given are those of `Status::plain` -/
structure Status where
  kind : StatusKind
  input : String := ""
  output : String := ""
  inputTime : Nat := 0
  outputTime : Nat := 0
  buildInfo : String := ""
  hasTimes : Bool := false
  refHasUpstreamErrors : Bool := false
deriving DecidableEq

namespace Status

def plain (kind : StatusKind) : Status := { kind := kind }

def file (kind : StatusKind) (file : String) : Status := { kind := kind, output := file }

def pair (kind : StatusKind) (input output : String) : Status :=
  { kind := kind, input := input, output := output }

def isError (s : Status) : Bool :=
  match s.kind with
  | .configFileNotFound | .buildErrors | .upstreamErrors => true
  | _ => false

def isPseudoBuild (s : Status) : Bool :=
  match s.kind with
  | .upToDateWithUpstreamTypes | .upToDateWithInputFileText => true
  | _ => false

/-- nothing has to be compiled -/
def isUpToDate (s : Status) : Bool :=
  match s.kind with
  | .upToDate | .upToDateWithUpstreamTypes | .upToDateWithInputFileText => true
  | _ => false

end Status

/-- the kinds that a comparison of inputs and outputs on the disk gives -/
def StatusKind.ofDisk : StatusKind → Bool
  | .configFileNotFound | .buildErrors | .upstreamErrors | .forceBuild | .solution => false
  | _ => true

/-- what `up_to_date_status` finds on the disk -/
def Inspection : Type := { s : Status // s.kind.ofDisk = true }

/-! ## Tasks -/

/-- `projectReferences` has the path of each reference -/
structure Config where
  rootFileNames : List String
  projectReferences : Option (List String)
deriving DecidableEq

structure Options where
  stopBuildOnErrors : Bool
  force : Bool
  dry : Bool
deriving DecidableEq

structure Task where
  config : String
  resolved : Option Config
  status : Option Status
  pending : Bool
  initialCycle : Bool
  dirty : Bool
deriving DecidableEq

namespace Task

/-- `BuildTask::new`, with the mark of the first graph -/
def new (config : String) (resolved : Option Config) (initial : Bool) : Task :=
  ⟨config, resolved, none, true, initial, false⟩

def resetStatus (t : Task) : Task := { t with status := none, pending := true }

def references (t : Task) : List String := (t.resolved.bind (·.projectReferences)).getD []

def hasError (t : Task) : Bool := t.status.any Status.isError

end Task

/-- how file names become keys: `o.path` and `resolve_config_file_name_of_project_reference` -/
structure Host (P : Type) where
  path : String → P
  resolveConfigFileName : String → String

/-- the project that a reference names -/
def Host.project {P : Type} (host : Host P) (reference : String) : P :=
  host.path (host.resolveConfigFileName reference)

inductive Phase where
  | new
  | watching
  | building
  | completed
deriving DecidableEq

/-- `errors` says whether the graph has a circular reference -/
structure Orchestrator (P : Type) where
  tasks : P → Option Task
  order : List P
  upstream : P → List (P × Nat)
  errors : Bool
  done : P → Bool
  phase : Phase

/-- what `generate_graph` reads: the configs in the order of the graph, what parsing them gives, and
the references that are left out because they close a cycle -/
structure GraphInput (P : Type) where
  order : List String
  parsed : String → Option Config
  closesCycle : P → Nat → Bool
  errors : Bool

/-- `finished hasErrors emitted changedDts`: the compilation ran to its end -/
inductive Compilation where
  | projectError
  | finished (hasErrors : Bool) (emitted : String) (changedDts : Bool)
deriving DecidableEq

/-- `fails`: an error or a panic ends the task before it stores its status -/
structure Outcome where
  fails : Bool
  inspection : Inspection
  compilation : Compilation

inductive Event where
  | reset
  | markDirty
  | reloadFileNames (rootFileNames : List String)
deriving DecidableEq

inductive Action (P : Type) where
  | start (graph : GraphInput P)
  | event (p : P) (e : Event)
  | regenerate (graph : GraphInput P)
  | beginBuild
  | build (p : P) (outcome : Outcome)
  | finishBuild

section
variable {P : Type} [DecidableEq P] (host : Host P) (opts : Options)

/-! ## The graph -/

namespace Orchestrator

def init : Orchestrator P where
  tasks := fun _ => none
  order := []
  upstream := fun _ => []
  errors := false
  done := fun _ => false
  phase := .new

def setTask (o : Orchestrator P) (p : P) (t : Task) : Orchestrator P :=
  { o with tasks := Function.update o.tasks p (some t) }

def hasError (o : Orchestrator P) (p : P) : Bool := (o.tasks p).any Task.hasError

/-- a reference from `d` to `p` is an entry of `d` in `downstream p` -/
def downstream (o : Orchestrator P) (p : P) : List P :=
  o.order.flatMap fun d => (o.upstream d).filterMap fun e => if e.1 = p then some d else none

end Orchestrator

/-- the edges that `setup_task` makes for the references of a task -/
def edges (graph : GraphInput P) (p : P) (t : Task) : List (P × Nat) :=
  t.references.zipIdx.filterMap fun r =>
    if graph.closesCycle p r.2 then none else some (host.project r.1, r.2)

/-- a task of the last graph, unless its config has to be read again -/
def reusable (o : Orchestrator P) (reuse : Bool) (p : P) : Option Task :=
  if reuse then (o.tasks p).filter fun t => !t.dirty else none

/-- the task of a project in a new graph -/
def graphTask (o : Orchestrator P) (graph : GraphInput P) (initial : Bool) (p : P) : Option Task :=
  (graph.order.find? fun name => decide (host.path name = p)).map fun name =>
    (reusable o (!initial) p).getD (Task.new name (graph.parsed name) initial)

/-- `generate_graph_with_tasks`; only a first graph uses no old tasks -/
def generateGraph (o : Orchestrator P) (graph : GraphInput P) (initial : Bool) : Orchestrator P where
  tasks := graphTask host o graph initial
  order := graph.order.map host.path
  upstream := fun p => match graphTask host o graph initial p with
    | some t => edges host graph p t
    | none => []
  errors := graph.errors
  done := fun _ => false
  phase := .watching

/-! ## The examination of a task -/

/-- the first reference whose task has an error -/
def upstreamError (o : Orchestrator P) (config : Config) (upstream : List (P × Nat)) :
    Option Status :=
  upstream.findSome? fun e =>
    match (o.tasks e.1).bind (·.status), (config.projectReferences.getD [])[e.2]? with
    | some status, some reference =>
      if opts.stopBuildOnErrors && status.isError then
        some { Status.plain .upstreamErrors with
          input := reference
          refHasUpstreamErrors := decide (status.kind = .upstreamErrors) }
      else none
    | _, _ => none

/-- a config without files that only groups references -/
def Config.isSolution (config : Config) : Bool :=
  config.rootFileNames.isEmpty && config.projectReferences.isSome

def upToDateStatus (o : Orchestrator P) (p : P) (t : Task) (inspection : Inspection) : Status :=
  match t.status with
  | some status => status
  | none =>
    match t.resolved with
    | none => .plain .configFileNotFound
    | some config =>
      if config.isSolution then .plain .solution
      else
        match upstreamError opts o config (o.upstream p) with
        | some status => status
        | none => if opts.force then .plain .forceBuild else inspection.val

/-- `handle_status_that_doesnt_require_build`: the status to store, if nothing is compiled -/
def handleWithoutBuild (status : Status) : Option Status :=
  match status.kind with
  | .upToDate | .upstreamErrors | .solution | .configFileNotFound => some status
  | _ =>
    if status.isPseudoBuild then
      if opts.dry then some (.plain .upToDate) else some { status with kind := .upToDate }
    else if opts.dry then some (.plain .upToDate)
    else none

/-- the status of a compiled project, and, where there is a program, whether it changed its
declarations -/
def compile : Compilation → Status × Option Bool
  | .projectError => (.plain .buildErrors, none)
  | .finished hasErrors emitted changedDts =>
    (if hasErrors then .plain .buildErrors else .file .upToDate emitted, some changedDts)

/-- what a build of `config` means for the task of a project that references it -/
def touch (config : String) (program : Option Bool) (t : Task) : Task :=
  match program with
  | none => t.resetStatus
  | some changedDts =>
    let status := match t.status with
      | none => none
      | some status =>
        if status.isUpToDate then
          if changedDts then some (.pair .inputFileNewer config status.output)
          else if status.kind = .upToDate then
            some { status with kind := .upToDateWithUpstreamTypes }
          else some status
        else if status.kind = .upstreamErrors then
          if host.project status.input = host.path config then none else some status
        else some status
    { t with status := status, pending := true }

def touchTask (config : String) (program : Option Bool) (o : Orchestrator P) (p : P) :
    Orchestrator P :=
  match o.tasks p with
  | none => o
  | some t => o.setTask p (touch host config program t)

/-- `update_downstream` of a task whose new status is already stored -/
def updateDownstream (o : Orchestrator P) (p : P) (t : Task) (program : Option Bool) :
    Orchestrator P :=
  if t.initialCycle then o
  else if opts.stopBuildOnErrors && t.hasError then o
  else (o.downstream p).foldl (touchTask host t.config program) o

/-- `BuildTask::build`, and the status of a task that fails -/
def buildTask (o : Orchestrator P) (p : P) (t : Task) (outcome : Outcome) : Orchestrator P :=
  if outcome.fails then o.setTask p { t with status := some (.plain .buildErrors) }
  else if t.pending = false then o
  else
    match handleWithoutBuild opts (upToDateStatus opts o p t outcome.inspection) with
    | some status => o.setTask p { t with status := some status }
    | none =>
      let t := { t with status := some (compile outcome.compilation).1 }
      updateDownstream host opts (o.setTask p t) p t (compile outcome.compilation).2

/-- the flags of a task that has been visited -/
def finishTask (o : Orchestrator P) (p : P) : Orchestrator P :=
  { o with
    tasks := Function.update o.tasks p
      ((o.tasks p).map fun t => { t with pending := false, initialCycle := false })
    done := Function.update o.done p true }

def applyEvent (t : Task) : Event → Task
  | .reset => t.resetStatus
  | .markDirty => { t with dirty := true }
  | .reloadFileNames rootFileNames =>
    { t.resetStatus with
      resolved := t.resolved.map fun config => { config with rootFileNames := rootFileNames } }

/-! ## Cycles -/

/-- `none` if the action is not enabled -/
def step : Action P → Orchestrator P → Option (Orchestrator P)
  | .start graph, o => if o.phase = .new then some (generateGraph host o graph true) else none
  | .event p e, o =>
    match o.tasks p with
    | none => none
    | some t =>
      if o.phase = .watching ∨ o.phase = .completed then
        some { o.setTask p (applyEvent t e) with phase := .watching }
      else none
  | .regenerate graph, o =>
    if o.phase = .watching ∨ o.phase = .completed then some (generateGraph host o graph false)
    else none
  | .beginBuild, o =>
    if o.phase = .watching ∨ o.phase = .completed then
      if o.errors then some { o with phase := .completed }
      else some { o with done := fun _ => false, phase := .building }
    else none
  | .build p outcome, o =>
    match o.tasks p with
    | none => none
    | some t =>
      if o.phase = .building ∧ p ∈ o.order ∧ o.done p = false ∧
          ∀ e ∈ o.upstream p, o.done e.1 = true then
        some (finishTask (buildTask host opts o p t outcome) p)
      else none
  | .finishBuild, o =>
    if o.phase = .building ∧ ∀ p ∈ o.order, o.done p = true then
      some { o with phase := .completed }
    else none

end

end Tsr.Build
