import Mathlib

/-!
# Checker: whether a flow node is reachable

* `Graph.move`    what the node at hand asks for: an answer, the next node, all branches, an antecedent
                  under a reduce label, or a question to the type checker;
* `walk`, `traverse`, `run`   the traversal with its two memos, the table and the slot of the last answer;
* `askAt`         a question of the type checker, which runs queries of its own, to a depth that is given;
* `plain`         the traversal without memos.

Lists of antecedents are followed to their end; `reduced` has the innermost label first.
-/

set_option linter.unusedVariables false

namespace Tsr.Checker.FlowReachability

abbrev FlowId := Nat

inductive Error where
  | missingLink (context : String)
  | invalidGraph
  | unknownFlow (flow : FlowId)
  | semantic (code : Nat)
deriving DecidableEq

structure ReduceLabel where
  target : Option FlowId
  antecedents : List (Option FlowId)
deriving DecidableEq

inductive FlowData (A : Type) where
  | ast (node : A)
  | switchClause (switchStatement : Option A) (clauseStart clauseEnd : Int)
  | reduceLabel (label : ReduceLabel)

structure FlowNode (A : Type) where
  flags : UInt32
  data : Option (FlowData A) := none
  antecedent : Option FlowId := none
  antecedents : List (Option FlowId) := []

structure Graph (A : Type) where
  nodes : List (FlowNode A)

/-! ## flags -/

def unreachable : UInt32 := 1
def start : UInt32 := 2
def branchLabel : UInt32 := 4
def loopLabel : UInt32 := 8
def assignment : UInt32 := 16
def condition : UInt32 := 32 ||| 64
def switchClause : UInt32 := 128
def arrayMutation : UInt32 := 256
def call : UInt32 := 512
def reduceLabel : UInt32 := 1024

/-- one of the flags is set -/
def FlowNode.has {A : Type} (node : FlowNode A) (flags : UInt32) : Bool := node.flags &&& flags != 0

/-! ## what a node asks for -/

/-- a question to the type checker -/
inductive Question (A : Type) where
  | callIsNever (call : A)
  | switchExhaustive (switchStatement : A)

inductive Move (A : Type) where
  | answer (reachable : Bool)
  | goTo (next : FlowId)
  | branches (list : List FlowId)
  | reduce (label : ReduceLabel) (next : Except Error FlowId)
  /-- the node is not reachable if the answer is yes -/
  | ask (question : Question A) (next : Except Error FlowId)

def required {α : Type} (value : Option α) (context : String) : Except Error α :=
  match value with
  | some value => .ok value
  | none => .error (.missingLink context)

/-- every item of the list is checked first -/
def antecedents (list : List (Option FlowId)) : Except Error (List FlowId) :=
  list.mapM fun flow => required flow "flow list element"

namespace Graph

variable {A : Type} (graph : Graph A)

def node (flow : FlowId) : Except Error (FlowNode A) :=
  match graph.nodes[flow]? with
  | some node => .ok node
  | none => .error (.unknownFlow flow)

/-- the antecedents of a branch label, which the innermost reduce label for it replaces -/
def branchAntecedents (reduced : List ReduceLabel) (flow : FlowId) (node : FlowNode A) :
    List (Option FlowId) :=
  match reduced.find? fun label => label.target = some flow with
  | some label => label.antecedents
  | none => node.antecedents

def moveOf (reduced : List ReduceLabel) (flow : FlowId) (node : FlowNode A) : Except Error (Move A) :=
  if node.has (assignment ||| condition ||| arrayMutation) then
    (required node.antecedent "reachable antecedent").map .goTo
  else if node.has branchLabel then
    (antecedents (branchAntecedents reduced flow node)).map .branches
  else if node.has loopLabel then
    (antecedents node.antecedents).map fun list => (list.head?.map .goTo).getD (.answer false)
  else if node.has reduceLabel then
    match node.data with
    | some (.reduceLabel label) => .ok (.reduce label (required node.antecedent "reduce antecedent"))
    | _ => .error .invalidGraph
  else if node.has call then
    match node.data with
    | some (.ast call) =>
      .ok (.ask (.callIsNever call) (required node.antecedent "reachable call antecedent"))
    | _ => .error .invalidGraph
  else if node.has switchClause then
    match node.data with
    | some (.switchClause statement clauseStart clauseEnd) =>
      if clauseStart = clauseEnd then
        (required statement "reachable switch statement").map fun statement =>
          .ask (.switchExhaustive statement) (required node.antecedent "reachable switch antecedent")
      else (required node.antecedent "reachable switch antecedent").map .goTo
    | _ => .error .invalidGraph
  else .ok (.answer !(node.has unreachable))

def move (reduced : List ReduceLabel) (flow : FlowId) : Except Error (Move A) :=
  (graph.node flow).bind fun node => moveOf reduced flow node

end Graph

/-! ## the traversal with its memos -/

/-- an answer taken from the slot while a reduce label is in force -/
structure SlotRead where
  flow : FlowId
  reduced : List ReduceLabel
  result : Bool

structure State where
  reachable : FlowId → Option Bool := fun _ => none
  lastReachable : Option (FlowId × Bool) := none
  /-- ghost: how many questions have been asked -/
  clock : Nat := 0
  /-- ghost -/
  reads : List SlotRead := []

/-- the fixed answers of the type checker, and the queries that it runs to find them -/
structure Semantics (A : Type) where
  answer : Question A → Except Error Bool
  queries : Question A → Nat → List FlowId

abbrev Result := Except Error Bool

def State.slot (s : State) (flow : FlowId) : Option Bool :=
  s.lastReachable.bind fun (last, result) => if last = flow then some result else none

/-- the ghost record of an answer from the slot -/
def State.read (s : State) (flow : FlowId) (reduced : List ReduceLabel) (result : Bool) : State :=
  if reduced = [] then s else { s with reads := ⟨flow, reduced, result⟩ :: s.reads }

def State.insertAll (s : State) (passed : List FlowId) (result : Bool) : State :=
  { s with reachable := fun flow => if flow ∈ passed then some result else s.reachable flow }

/-- the nodes that were passed get the answer -/
def finish : Result × List FlowId × State → Result × State
  | (.ok result, passed, s) => (.ok result, s.insertAll passed result)
  | (.error error, _, s) => (.error error, s)

/-- the loop over the branches, up to the first that is reachable -/
def anyBranch (visit : FlowId → State → Option (Result × State)) :
    List FlowId → State → Option (Result × State)
  | [], s => some (.ok false, s)
  | branch :: branches, s =>
    (visit branch s).bind fun
      | (.error error, s) => some (.error error, s)
      | (.ok true, s) => some (.ok true, s)
      | (.ok false, s) => anyBranch visit branches s

section
variable {A : Type} (graph : Graph A) (sem : Semantics A)

/-- the loop of `traverse`; `none` without fuel -/
def walk (ask : Question A → State → Option State) :
    Nat → FlowId → List ReduceLabel → List FlowId → State → Option (Result × List FlowId × State)
  | 0, _, _, _, _ => none
  | fuel + 1, flow, reduced, passed, s =>
    match s.slot flow with
    | some result => some (.ok result, passed, s.read flow reduced result)
    | none =>
      match if reduced = [] then s.reachable flow else none with
      | some result => some (.ok result, passed, s)
      | none =>
        let passed := if reduced = [] then passed ++ [flow] else passed
        match graph.move reduced flow with
        | .error error => some (.error error, passed, s)
        | .ok (.answer reachable) => some (.ok reachable, passed, s)
        | .ok (.goTo next) => walk ask fuel next reduced passed s
        | .ok (.branches list) =>
          (anyBranch (fun branch s => (walk ask fuel branch reduced [] s).map finish) list s).map
            fun (result, s) => (result, passed, s)
        | .ok (.reduce label (.error error)) => some (.error error, passed, { s with lastReachable := none })
        | .ok (.reduce label (.ok next)) =>
          ((walk ask fuel next (label :: reduced) [] { s with lastReachable := none }).map finish).map
            fun (result, s) => (result, passed, s)
        | .ok (.ask question next) =>
          (ask question s).bind fun s =>
            match sem.answer question, next with
            | .error error, _ => some (.error error, passed, s)
            | .ok true, _ => some (.ok false, passed, s)
            | .ok false, .error error => some (.error error, passed, s)
            | .ok false, .ok next => walk ask fuel next reduced passed s

def traverse (ask : Question A → State → Option State) (fuel : Nat) (flow : FlowId)
    (reduced : List ReduceLabel) (s : State) : Option (Result × State) :=
  (walk graph sem ask fuel flow reduced [] s).map finish

/-- the slot gets the answer of a whole query -/
def State.keep (s : State) (flow : FlowId) : Result → State
  | .ok result => { s with lastReachable := some (flow, result) }
  | .error _ => s

def runWith (ask : Question A → State → Option State) (fuel : Nat) (flow : FlowId) (s : State) :
    Option (Result × State) :=
  (traverse graph sem ask fuel flow [] s).map fun (result, s) => (result, s.keep flow result)

/-- one query after the other -/
def runAll (run : FlowId → State → Option (Result × State)) :
    List FlowId → State → Option (List Result × State)
  | [], s => some ([], s)
  | flow :: flows, s =>
    (run flow s).bind fun (result, s) =>
      (runAll run flows s).map fun (results, s) => (result :: results, s)

/-- a question and the queries it runs, in which questions run queries to one depth less -/
def askAt (fuel : Nat) : Nat → Question A → State → Option State
  | 0, _, s => some { s with clock := s.clock + 1 }
  | depth + 1, question, s =>
    (runAll (runWith graph sem (askAt fuel depth) fuel) (sem.queries question s.clock)
      { s with clock := s.clock + 1 }).map Prod.snd

def run (fuel depth : Nat) (flow : FlowId) (s : State) : Option (Result × State) :=
  runWith graph sem (askAt graph sem fuel depth) fuel flow s

/-- the entry of the checker: completed answers first -/
def reachableFlow (fuel depth : Nat) (flow : FlowId) (s : State) : Option (Result × State) :=
  match s.slot flow with
  | some result => some (.ok result, s)
  | none =>
    match s.reachable flow with
    | some result => some (.ok result, { s with lastReachable := some (flow, result) })
    | none => run graph sem fuel depth flow s

/-! ## the traversal without memos -/

def plainAny (visit : FlowId → Option Result) : List FlowId → Option Result
  | [] => some (.ok false)
  | branch :: branches =>
    (visit branch).bind fun
      | .error error => some (.error error)
      | .ok true => some (.ok true)
      | .ok false => plainAny visit branches

def plain : Nat → FlowId → List ReduceLabel → Option Result
  | 0, _, _ => none
  | fuel + 1, flow, reduced =>
    match graph.move reduced flow with
    | .error error => some (.error error)
    | .ok (.answer reachable) => some (.ok reachable)
    | .ok (.goTo next) => plain fuel next reduced
    | .ok (.branches list) => plainAny (fun branch => plain fuel branch reduced) list
    | .ok (.reduce _ (.error error)) => some (.error error)
    | .ok (.reduce label (.ok next)) => plain fuel next (label :: reduced)
    | .ok (.ask question next) =>
      match sem.answer question, next with
      | .error error, _ => some (.error error)
      | .ok true, _ => some (.ok false)
      | .ok false, .error error => some (.error error)
      | .ok false, .ok next => plain fuel next reduced

end

end Tsr.Checker.FlowReachability
