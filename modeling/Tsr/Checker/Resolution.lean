import Tsr.Lib.Run

/-!
# The guard against cycles of lazy resolution

A resolution is an entity and the property of it that is being resolved.  A resolution that is asked for
again while it is on the stack fails, and with it everything above it.  The probe looks no further down
than the floor, and stops at a resolution of which the property is there already.

* `findResolutionCycleStartIndex`   the probe, from the top down to the floor;
* `push`, `pop`                     `push` returns whether there is no cycle, `pop` whether there was none;
* `step`                            one call; a `pop` of the empty stack is a panic.

`hasProperty` is called at most once for each place of the stack in one probe, so it may answer as it
likes at each of them.
-/

namespace Tsr.Checker.Resolution
open Tsr.Lib.Run

inductive TypeSystemEntity where
  | symbol (id : Nat)
  | type (id : Nat)
  | signature (id : Nat)
  | node (id : Nat)
deriving DecidableEq

inductive TypeSystemPropertyName where
  | type
  | resolvedBaseConstructorType
  | declaredType
  | resolvedReturnType
  | resolvedBaseConstraint
  | resolvedTypeArguments
  | resolvedBaseTypes
  | writeType
  | initializerIsUndefined
  | aliasTarget
deriving DecidableEq

structure TypeResolution where
  target : TypeSystemEntity
  propertyName : TypeSystemPropertyName
  result : Bool
deriving DecidableEq

/-- the top stands last -/
structure ResolutionStack where
  resolutions : List TypeResolution
  resolutionStart : Nat
deriving DecidableEq

/-- the answers of the predicate by place -/
abbrev Probe := Nat → TypeResolution → Bool

namespace ResolutionStack

def new : ResolutionStack := ⟨[], 0⟩

def depth (s : ResolutionStack) : Nat := s.resolutions.length

/-- the floor that it returns is the one before -/
def setResolutionStart (s : ResolutionStack) (start : Nat) : Nat × ResolutionStack :=
  (s.resolutionStart, { s with resolutionStart := start })

section
variable (s : ResolutionStack) (target : TypeSystemEntity) (propertyName : TypeSystemPropertyName)
  (hasProperty : Probe)

/-- the loop, below `index` -/
def findBelow : Nat → Option Nat
  | 0 => none
  | index + 1 =>
    if index < s.resolutionStart then none
    else
      match s.resolutions[index]? with
      | none => none
      | some resolution =>
        if hasProperty index resolution then none
        else if resolution.target = target ∧ resolution.propertyName = propertyName then some index
        else findBelow index

def findResolutionCycleStartIndex : Option Nat := findBelow s target propertyName hasProperty s.depth

def failed (resolution : TypeResolution) : TypeResolution := { resolution with result := false }

def pushAfterCycleCheck (cycleStart : Option Nat) : Bool × ResolutionStack :=
  match cycleStart with
  | some start =>
    (false, { s with
      resolutions := s.resolutions.take start ++ (s.resolutions.drop start).map failed })
  | none => (true, { s with resolutions := s.resolutions ++ [⟨target, propertyName, true⟩] })

def push : Bool × ResolutionStack :=
  pushAfterCycleCheck s target propertyName (findResolutionCycleStartIndex s target propertyName hasProperty)

end

/-- `none` is a panic -/
def pop (s : ResolutionStack) : Option (Bool × ResolutionStack) :=
  s.resolutions.getLast?.map fun resolution =>
    (resolution.result, { s with resolutions := s.resolutions.dropLast })

end ResolutionStack

inductive Call where
  | push (target : TypeSystemEntity) (propertyName : TypeSystemPropertyName) (hasProperty : Probe)
  | pop
  | setResolutionStart (start : Nat)

def step : Call → ResolutionStack → Option ResolutionStack
  | .push target propertyName hasProperty, s => some (s.push target propertyName hasProperty).2
  | .pop, s => s.pop.map (·.2)
  | .setResolutionStart start, s => some (s.setResolutionStart start).2

end Tsr.Checker.Resolution
