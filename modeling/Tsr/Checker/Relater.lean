import Mathlib

/-!
# Recursive type relations

`recursive_related` compares two types by a formula over further comparisons.  A pair that is being
compared is assumed to be related; the pairs whose answer rests on such an assumption stay on a
stack of keys until an enclosing comparison is decided.

* `Formula`, `System`   the structural comparison of each pair, with `and` and `or` from left to
                        right;
* `System.related`      the pairs that are related: the greatest fixpoint;
* `Frame`               the assumptions of one comparison;
* `step`                the evaluation, one node of a formula or one return at a time.

The evaluation is a machine with a stack of continuations, so that what holds throughout can be
stated.  An action says whether the step fails and what counts as deeply nested.  The lists `rests`
and `left` of the machine are for the proofs only: the assumptions that an answer rests on, and the
keys that a comparison left on the stack.
-/

namespace Tsr.Checker

/-! ## Systems of type pairs -/

/-- which of the two types a comparison looks into -/
inductive Recursion where
  | source
  | target
  | both
deriving DecidableEq

def Recursion.hasSource : Recursion → Bool
  | .source | .both => true
  | .target => false

def Recursion.hasTarget : Recursion → Bool
  | .target | .both => true
  | .source => false

/-- `marks` are the reliability flags that a node reports -/
inductive Formula (κ : Type) where
  | value (related : Bool) (marks : UInt32)
  | call (key : κ) (recursion : Recursion) (report : Bool)
  | and (left right : Formula κ)
  | or (left right : Formula κ)
deriving DecidableEq

/-- `broad` is the key without the constraints of its type parameters, where there are any -/
structure System (κ τ : Type) where
  body : κ → Formula κ
  source : κ → τ
  target : κ → τ
  broad : κ → Option κ

section
variable {κ τ : Type}

def Formula.holds : Formula κ → Set κ → Prop
  | .value related _, _ => related = true
  | .call key _ _, X => key ∈ X
  | .and a b, X => a.holds X ∧ b.holds X
  | .or a b, X => a.holds X ∨ b.holds X

theorem Formula.holds_mono (f : Formula κ) {X Y : Set κ} (hXY : X ⊆ Y) (h : f.holds X) :
    f.holds Y := by
  induction f with
  | value related marks => exact h
  | call key recursion report => exact hXY h
  | and a b iha ihb => exact ⟨iha h.1, ihb h.2⟩
  | or a b iha ihb => exact h.imp iha ihb

/-- the pairs that are related when those of `X` are -/
def System.next (sys : System κ τ) : Set κ →o Set κ where
  toFun X := { k | (sys.body k).holds X }
  monotone' := fun _ _ hXY k hk => (sys.body k).holds_mono hXY hk

/-- the related pairs -/
def System.related (sys : System κ τ) : Set κ := OrderHom.gfp sys.next

theorem System.mem_related (sys : System κ τ) (k : κ) :
    k ∈ sys.related ↔ (sys.body k).holds sys.related := by
  have h : sys.next sys.related = sys.related := OrderHom.map_gfp sys.next
  constructor
  · intro hk
    rw [← h] at hk
    exact hk
  · intro hk
    rw [← h]
    exact hk

/-- **Coinduction.** -/
theorem System.subset_related (sys : System κ τ) (X : Set κ) (h : ∀ k ∈ X, (sys.body k).holds X) :
    X ⊆ sys.related := OrderHom.le_gfp sys.next h

end

/-! ## Frames and caches -/

structure Sides where
  source : Bool
  target : Bool
deriving DecidableEq

structure Entry where
  succeeded : Bool
  complexityOverflow : Bool
  reliability : UInt32
deriving DecidableEq

/-- the ternary values, `maybe` with the assumptions that it rests on -/
inductive Ternary (κ : Type) where
  | false
  | maybe (rests : List κ)
  | true
deriving DecidableEq

/-- `&` -/
def Ternary.and {κ : Type} : Ternary κ → Ternary κ → Ternary κ
  | .false, _ => .false
  | .true, r => r
  | .maybe _, .false => .false
  | .maybe a, .maybe b => .maybe (a ++ b)
  | .maybe a, .true => .maybe a

structure Frame (κ τ : Type) where
  maybeKeys : List κ
  maybeSet : Finset κ
  sourceStack : List τ
  targetStack : List τ
  expanding : Sides
  remaining : Int
  overflow : Bool

/-- what is still to be done with an answer -/
inductive Kont (κ : Type) where
  | andRight (right : Formula κ)
  | andJoin (left : Ternary κ)
  | orRight (right : Formula κ)
  | call (key : κ) (start : Nat) (previous : Sides) (saved : UInt32) (recursion : Recursion)
      (left : List (κ × List κ))
  | query (key : Option κ)

inductive Control (κ : Type) where
  | idle
  | eval (formula : Formula κ)
  | ret (result : Ternary κ)
  | raise

/-- the cache of one kind of relation; `others` are the frames that are not in use -/
structure State (κ τ : Type) where
  cache : AList fun _ : κ => Entry
  reliability : UInt32
  frame : Frame κ τ
  others : List (Frame κ τ)
  control : Control κ
  kont : List (Kont κ)

/-- `new_relation_frame` -/
def newFrame {κ τ : Type} (cache : AList fun _ : κ => Entry) : Frame κ τ where
  maybeKeys := []
  maybeSet := ∅
  sourceStack := []
  targetStack := []
  expanding := ⟨false, false⟩
  remaining := Int.tdiv (16000000 - cache.keys.length) 8
  overflow := false

def State.init (κ τ : Type) : State κ τ := ⟨∅, 0, newFrame ∅, [], .idle, []⟩

/-- `fail entered`: an error before or after the pair was put on the stacks -/
inductive Action (κ : Type) where
  | query (formula : Formula κ) (key : Option κ) (frame : Option Nat)
  | go (nested : Sides)
  | fail (entered : Bool)
deriving DecidableEq

section
variable {κ τ : Type} [DecidableEq κ] (sys : System κ τ)

def State.return (s : State κ τ) (result : Ternary κ) : State κ τ := { s with control := .ret result }

/-! ## `recursive_related` -/

/-- a failure is compared again when it has to be reported -/
def cached (s : State κ τ) (key : κ) (report : Bool) : Option Entry :=
  (s.cache.lookup key).filter fun e => e.succeeded || !report || e.complexityOverflow

/-- the assumption that answers for the key -/
def assumed (frame : Frame κ τ) (key : κ) : Option κ :=
  if key ∈ frame.maybeSet then some key
  else (sys.broad key).filter fun broad => broad ∈ frame.maybeSet

def atDepthLimit (frame : Frame κ τ) : Bool :=
  frame.sourceStack.length == 100 || frame.targetStack.length == 100

/-- the answers that need no structural comparison -/
def answer (s : State κ τ) (key : κ) (report : Bool) : Option (State κ τ) :=
  if s.frame.overflow then some (s.return .false)
  else match cached s key report with
  | some e => some ({ s with reliability := s.reliability ||| e.reliability }.return
      (if e.succeeded then .true else .false))
  | none =>
    if s.frame.remaining ≤ 0 then
      some ({ s with frame := { s.frame with overflow := true } }.return .false)
    else match assumed sys s.frame key with
    | some assumption => some (s.return (.maybe [assumption]))
    | none => if atDepthLimit s.frame then some (s.return (.maybe [])) else none

/-- the pair goes on the stacks -/
def pushPair (s : State κ τ) (key : κ) (recursion : Recursion) : State κ τ :=
  { s with
    reliability := 0
    frame := { s.frame with
      maybeKeys := s.frame.maybeKeys ++ [key]
      maybeSet := insert key s.frame.maybeSet
      sourceStack := if recursion.hasSource then s.frame.sourceStack ++ [sys.source key]
        else s.frame.sourceStack
      targetStack := if recursion.hasTarget then s.frame.targetStack ++ [sys.target key]
        else s.frame.targetStack }
    kont := .call key s.frame.maybeKeys.length s.frame.expanding s.reliability recursion [] :: s.kont }

/-- `nested` is what `deeply_nested_type` says, for stacks that are long enough -/
def expand (frame : Frame κ τ) (recursion : Recursion) (nested : Sides) : Sides where
  source := frame.expanding.source ||
    (recursion.hasSource && decide (3 ≤ frame.sourceStack.length) && nested.source)
  target := frame.expanding.target ||
    (recursion.hasTarget && decide (3 ≤ frame.targetStack.length) && nested.target)

/-- the structural comparison, unless both sides are deeply nested -/
def compare (s : State κ τ) (key : κ) (recursion : Recursion) (nested : Sides) : State κ τ :=
  let s := pushPair sys s key recursion
  let expanding := expand s.frame recursion nested
  { s with
    frame := { s.frame with expanding := expanding }
    control := if expanding.source && expanding.target then .ret (.maybe [])
      else .eval (sys.body key) }

def recursiveRelated (s : State κ τ) (key : κ) (recursion : Recursion) (report : Bool)
    (nested : Sides) : State κ τ :=
  (answer sys s key report).getD (compare sys s key recursion nested)

/-- one key of the drained part of the stack -/
def resetKey (succeeded : Bool) (propagating : UInt32) (s : State κ τ) (key : κ) : State κ τ :=
  if succeeded then
    { s with
      cache := s.cache.insert key ⟨true, false, propagating⟩
      frame := { s.frame with
        maybeSet := s.frame.maybeSet.erase key
        remaining := s.frame.remaining - 1 } }
  else { s with frame := { s.frame with maybeSet := s.frame.maybeSet.erase key } }

def resetMaybe (s : State κ τ) (start : Nat) (succeeded : Bool) (propagating : UInt32) : State κ τ :=
  (s.frame.maybeKeys.drop start).foldl (resetKey succeeded propagating)
    { s with frame := { s.frame with maybeKeys := s.frame.maybeKeys.take start } }

/-- the pair comes off the stacks -/
def popPair (s : State κ τ) (previous : Sides) (saved : UInt32) (recursion : Recursion) : State κ τ :=
  { s with
    reliability := s.reliability ||| saved
    frame := { s.frame with
      sourceStack := if recursion.hasSource then s.frame.sourceStack.dropLast
        else s.frame.sourceStack
      targetStack := if recursion.hasTarget then s.frame.targetStack.dropLast
        else s.frame.targetStack
      expanding := previous } }

def recordFailure (s : State κ τ) (key : κ) (propagating : UInt32) : State κ τ :=
  { s with
    cache := s.cache.insert key ⟨false, false, propagating⟩
    frame := { s.frame with remaining := s.frame.remaining - 1 } }

/-- the keys that stay behind belong to the comparison around -/
def leaveKeys (keys : List (κ × List κ)) : List (Kont κ) → List (Kont κ)
  | [] => []
  | .call key start previous saved recursion left :: kont =>
    .call key start previous saved recursion (left ++ keys) :: kont
  | k :: kont => k :: leaveKeys keys kont

def stacksEmpty (frame : Frame κ τ) : Bool := frame.sourceStack.isEmpty && frame.targetStack.isEmpty

/-- the end of a comparison with an answer; `s` has its continuation popped -/
def leaveCall (s : State κ τ) (key : κ) (start : Nat) (previous : Sides) (saved : UInt32)
    (recursion : Recursion) (left : List (κ × List κ)) (result : Ternary κ) : State κ τ :=
  let propagating := s.reliability
  let s := popPair s previous saved recursion
  match result with
  | .false => (resetMaybe (recordFailure s key propagating) start false propagating).return .false
  | .true => (resetMaybe s start true propagating).return .true
  | .maybe rests =>
    if stacksEmpty s.frame then (resetMaybe s start true propagating).return (.maybe [])
    else { s with
      kont := leaveKeys ((key, rests) :: left) s.kont
      control := .ret (.maybe [key]) }

/-- the end of a comparison with an error -/
def leaveCallError (s : State κ τ) (start : Nat) (previous : Sides) (saved : UInt32)
    (recursion : Recursion) : State κ τ :=
  { resetMaybe (popPair s previous saved recursion) start false s.reliability with control := .raise }

/-! ## Steps -/

/-- a query that ran out of its budget is a failure -/
def endQuery (s : State κ τ) (key : Option κ) : State κ τ :=
  match key with
  | some key => if s.frame.overflow then
      { s with cache := s.cache.insert key ⟨false, true, 0⟩, control := .idle }
    else { s with control := .idle }
  | none => { s with control := .idle }

def stepReturn (s : State κ τ) (result : Ternary κ) : Option (State κ τ) :=
  match s.kont with
  | [] => none
  | .andRight right :: kont =>
    match result with
    | .false => some { s with kont := kont }
    | result => some { s with control := .eval right, kont := .andJoin result :: kont }
  | .andJoin left :: kont => some { s with control := .ret (left.and result), kont := kont }
  | .orRight right :: kont =>
    match result with
    | .false => some { s with control := .eval right, kont := kont }
    | _ => some { s with kont := kont }
  | .call key start previous saved recursion left :: kont =>
    some (leaveCall { s with kont := kont } key start previous saved recursion left result)
  | .query key :: kont => some (endQuery { s with kont := kont } key)

def stepRaise (s : State κ τ) : Option (State κ τ) :=
  match s.kont with
  | [] => none
  | .call _ start previous saved recursion _ :: kont =>
    some (leaveCallError { s with kont := kont } start previous saved recursion)
  | .query _ :: kont => some { s with kont := kont, control := .idle }
  | _ :: kont => some { s with kont := kont }

def stepEval (s : State κ τ) (nested : Sides) : Formula κ → State κ τ
  | .value related marks =>
    { s with reliability := s.reliability ||| marks }.return (if related then .true else .false)
  | .call key recursion report => recursiveRelated sys s key recursion report nested
  | .and a b => { s with control := .eval a, kont := .andRight b :: s.kont }
  | .or a b => { s with control := .eval a, kont := .orRight b :: s.kont }

/-- an error while a formula is evaluated -/
def stepFail (s : State κ τ) (entered : Bool) : Formula κ → Option (State κ τ)
  | .call key recursion report =>
    if entered then
      match answer sys s key report with
      | some _ => none
      | none => some { pushPair sys s key recursion with control := .raise }
    else some { s with control := .raise }
  | _ => if entered then none else some { s with control := .raise }

/-- a query gets a new frame, or goes on with one that was kept -/
def useFrame (s : State κ τ) : Option Nat → Option (State κ τ)
  | none => some { s with frame := newFrame s.cache, others := s.frame :: s.others }
  | some i => (s.others[i]?).map fun frame =>
      { s with frame := frame, others := s.others.set i s.frame }

def step (a : Action κ) (s : State κ τ) : Option (State κ τ) :=
  match s.control, a with
  | .idle, .query formula key frame =>
    (useFrame s frame).map fun s => { s with control := .eval formula, kont := [.query key] }
  | .eval formula, .go nested => some (stepEval sys s nested formula)
  | .eval formula, .fail entered => stepFail sys s entered formula
  | .ret result, .go _ => stepReturn s result
  | .raise, .go _ => stepRaise s
  | _, _ => none

end

end Tsr.Checker
