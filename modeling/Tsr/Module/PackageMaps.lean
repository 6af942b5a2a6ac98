import Mathlib

/-!
# The entries of an exports or imports table

A name without a star and without a slash at its end is looked up first.  The other keys are tried in the
order of `comparePatternKeys`: those with one star or a slash at the end.  The two ends of a pattern are
tested independently, so they can overlap in the name; the slice between them is then out of range.

* `comparePatternKeys`   longer bases first, then patterns, then longer keys;
* `tryKey`               what a key makes of the name;
* `mapEntries`           the entry that is handed to `mapTarget`, and how.
-/

set_option linter.unusedSectionVars false

namespace Tsr.Module

abbrev Bytes := List UInt8

/-- the byte of `*` -/
def star : UInt8 := 0x2A
/-- the byte of `/` -/
def slash : UInt8 := 0x2F

/-- the table of a package; no key is listed twice -/
structure Table (V : Type) where
  entries : List (Bytes × V)
  distinct : (entries.map Prod.fst).Nodup

/-- where the first star is -/
def starIndex (key : Bytes) : Option Nat := key.findIdx? (· == star)

def baseLength (key : Bytes) : Nat :=
  match starIndex key with
  | some i => i + 1
  | none => key.length

def comparePatternKeys (a b : Bytes) : Ordering :=
  ((compare (baseLength b) (baseLength a)).then
    (compare (starIndex b).isSome (starIndex a).isSome)).then (compare b.length a.length)

/-- a key that is not only looked up -/
def expands (key : Bytes) : Bool := key.count star == 1 || key.getLast? == some slash

/-- `none` is a slice out of range -/
def slice (name : Bytes) (start stop : Nat) : Option Bytes :=
  if start ≤ stop then some ((name.take stop).drop start) else none

/-- the subpath and whether it stands for a star; the outer `none` is a key that does not match -/
def tryKey (name pattern : Bytes) : Option (Option (Bytes × Bool)) :=
  match starIndex pattern with
  | some i =>
    let before := pattern.take i
    let after := pattern.drop (i + 1)
    if before.isPrefixOf name && after.isSuffixOf name then
      some ((slice name before.length (name.length - after.length)).map (·, true))
    else none
  | none => if pattern.isPrefixOf name then some (some (name.drop pattern.length, false)) else none

/-- what `mapTarget` is called with -/
inductive Outcome (V : Type) where
  | notFound
  | panicked
  | mapTarget (target : V) (subpath : Bytes) (pattern : Bool) (key : Bytes)
deriving DecidableEq

section
variable {V : Type} (name : Bytes)

/-- the loop over the sorted keys -/
def tryKeys : List (Bytes × V) → Outcome V
  | [] => .notFound
  | (key, target) :: entries =>
    match tryKey name key with
    | some (some (subpath, pattern)) => .mapTarget target subpath pattern key
    | some none => .panicked
    | none => tryKeys entries

def sorted (entries : List (Bytes × V)) : List (Bytes × V) :=
  (entries.filter fun entry => expands entry.1).insertionSort
    fun a b => comparePatternKeys a.1 b.1 ≠ .gt

/-- whether the name is looked up -/
def plain : Bool := !(name.getLast? == some slash) && !name.contains star

def mapEntries (table : Table V) : Outcome V :=
  match if plain name then table.entries.find? fun entry => entry.1 == name else none with
  | some (_, target) => .mapTarget target [] false name
  | none => tryKeys name (sorted table.entries)

end

end Tsr.Module
