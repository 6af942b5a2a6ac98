import Tsr.Lib.Bytes

/-!
# Keys of the relation caches

The verdict on a pair of types is cached under a key.  The key of two generic references leaves open
which unconstrained type parameters they have: a parameter is written as the index of its first
occurrence.  Other arguments are written by their ids.

* `Ty`, `Store`          types by what they are made of, and the ids under which they are interned;
* `writeReference`, `writeArguments`   the bytes of a reference and of its arguments;
* `relationKey`          the key of a pair;
* `rename`               a renaming of type parameters, throughout a type.
-/

namespace Tsr.Checker.RelationKey

open Tsr.Lib.Bytes

/-- `reference` is a type reference without a node; `other` stands for all other types: what they are,
and the types they are made of -/
inductive Ty where
  | parameter (p : Nat)
  | reference (target : Nat) (arguments : List Ty)
  | other (shape : Nat) (parts : List Ty)

/-- the types of a checker; a type has one id -/
structure Store where
  id : Ty → Nat
  types : Ty → Prop
  reference : ∀ target arguments, types (.reference target arguments) →
    target < 2 ^ 32 ∧ ∀ a ∈ arguments, types a
  bound : ∀ a, types a → id a < 2 ^ 32
  inj : ∀ a b, types a → types b → id a = id b → a = b

/-- induction over a type with its arguments -/
theorem Ty.ind {motive : Ty → Prop} (parameter : ∀ p, motive (.parameter p))
    (reference : ∀ target arguments, (∀ a ∈ arguments, motive a) →
      motive (.reference target arguments))
    (other : ∀ shape parts, (∀ a ∈ parts, motive a) → motive (.other shape parts)) :
    ∀ a, motive a := by
  intro a
  refine @Ty.rec motive (fun l => ∀ a ∈ l, motive a) parameter (fun target arguments ih => ?_)
    (fun shape parts ih => ?_) ?_ (fun a l iha ihl => ?_) a
  · exact reference target arguments ih
  · exact other shape parts ih
  · exact fun a h => nomatch h
  · intro b hb
    rcases List.mem_cons.1 hb with rfl | hb
    · exact iha
    · exact ihl b hb

/-! ## keys -/

mutual

def hasGenericArguments : Ty → Bool
  | .parameter _ => false
  | .reference _ arguments => anyGeneric arguments
  | .other _ _ => false

def anyGeneric : List Ty → Bool
  | [] => false
  | .parameter _ :: _ => true
  | .reference target arguments :: rest =>
    hasGenericArguments (.reference target arguments) || anyGeneric rest
  | .other _ _ :: rest => anyGeneric rest

end

/-- what was written, the parameters that have an index, and whether one has a constraint -/
structure Written where
  bytes : List UInt8
  parameters : List Nat
  constrained : Bool

/-- `parameters` with `p` at its end, unless it has an index -/
def register (p : Nat) (parameters : List Nat) : List Nat :=
  if p ∈ parameters then parameters else parameters ++ [p]

theorem register_of_mem {p : Nat} {parameters : List Nat} (h : p ∈ parameters) :
    register p parameters = parameters := if_pos h

theorem register_of_not_mem {p : Nat} {parameters : List Nat} (h : p ∉ parameters) :
    register p parameters = parameters ++ [p] := if_neg h

section
variable (id : Ty → Nat) (constrained : Nat → Bool) (ignoreConstraints : Bool)

def writeIndex (p : Nat) (parameters : List Nat) : Written :=
  ⟨61 :: le 8 (parameters.idxOf p), register p parameters, false⟩

def writeType (a : Ty) (isConstrained : Bool) (parameters : List Nat) : Written :=
  ⟨45 :: le 4 (id a), parameters, isConstrained⟩

mutual

/-- `write_generic_reference_key` -/
def writeReference (depth : Nat) : Ty → List Nat → Written
  | .reference target arguments, parameters =>
    let w := writeArguments depth arguments parameters
    { w with bytes := le 4 target ++ w.bytes }
  | .parameter _, parameters => ⟨[], parameters, false⟩
  | .other _ _, parameters => ⟨[], parameters, false⟩

def writeArguments (depth : Nat) : List Ty → List Nat → Written
  | [], parameters => ⟨[], parameters, false⟩
  | a :: rest, parameters =>
    let w := writeArgument depth a parameters
    let r := writeArguments depth rest w.parameters
    ⟨w.bytes ++ r.bytes, r.parameters, w.constrained || r.constrained⟩

/-- an argument is written by index, by its id, or in brackets -/
def writeArgument (depth : Nat) : Ty → List Nat → Written
  | .parameter p, parameters =>
    if ignoreConstraints || !constrained p then writeIndex p parameters
    else writeType id (.parameter p) true parameters
  | .reference target arguments, parameters =>
    if depth < 4 && hasGenericArguments (.reference target arguments) then
      let w := writeArguments (depth + 1) arguments parameters
      { w with bytes := 60 :: (le 4 target ++ w.bytes) ++ [62] }
    else writeType id (.reference target arguments) false parameters
  | .other shape parts, parameters => writeType id (.other shape parts) false parameters

end

/-- the pair in the order in which it is written: the identity relation is symmetric -/
def orderedPair (identity : Bool) (source target : Ty) : Ty × Ty :=
  if identity && decide (id target < id source) then (target, source) else (source, target)

/-- `relation_key`, and whether a type parameter with a constraint was met -/
def relationKey (source target : Ty) (intersection : Nat) (identity : Bool) : List UInt8 × Bool :=
  let pair := orderedPair id identity source target
  if hasGenericArguments pair.1 && hasGenericArguments pair.2 then
    let a := writeReference id constrained ignoreConstraints 0 pair.1 []
    let b := writeReference id constrained ignoreConstraints 0 pair.2 a.parameters
    (103 :: a.bytes ++ 44 :: b.bytes ++ le 4 intersection, a.constrained || b.constrained)
  else (115 :: le 4 (id pair.1) ++ le 4 (id pair.2) ++ le 4 intersection, false)

end

/-! ## renamings -/

mutual

def rename (r : Nat → Nat) : Ty → Ty
  | .parameter p => .parameter (r p)
  | .reference target arguments => .reference target (renameAll r arguments)
  | .other shape parts => .other shape (renameAll r parts)

def renameAll (r : Nat → Nat) : List Ty → List Ty
  | [] => []
  | a :: rest => rename r a :: renameAll r rest

end

mutual

/-- the type parameters of a type -/
def free : Ty → List Nat
  | .parameter p => [p]
  | .reference _ arguments => freeAll arguments
  | .other _ parts => freeAll parts

def freeAll : List Ty → List Nat
  | [] => []
  | a :: rest => free a ++ freeAll rest

end

/-- a one-to-one renaming of unconstrained type parameters that takes one pair to the other -/
structure Renames (constrained : Nat → Bool) (r : Nat → Nat) (a b : Ty × Ty) : Prop where
  source : rename r a.1 = b.1
  target : rename r a.2 = b.2
  fixed : ∀ p ∈ free a.1 ++ free a.2, constrained p = true → r p = p
  unconstrained : ∀ p ∈ free a.1 ++ free a.2, constrained p = false → constrained (r p) = false
  oneToOne : ∀ p ∈ free a.1 ++ free a.2, ∀ q ∈ free a.1 ++ free a.2, r p = r q → p = q

end Tsr.Checker.RelationKey
