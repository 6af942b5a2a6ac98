import Tsr.Lib.Loop

/-!
# The sort of Go

A quicksort that looks for patterns.  A short range is sorted by insertion; a range whose partitions
were unbalanced too often is sorted as a heap; a range that seems to be in order is tried by insertion
first, and the elements that equal the one in front of the range are set aside.

`none` stands for a panic: an index out of bounds.

* `insertionSort`, `heapSort`, `partialInsertionSort`;
* `partition`, `partitionEqual`     the range around its pivot;
* `choosePivot`, `breakPatterns`    a pivot by medians, and three elements exchanged at random;
* `pdqsort`, `sort`.
-/

namespace Tsr.Core.GoSort
open Tsr.Lib.Loop

variable {α : Type} (compare : α → α → Ordering)

/-! ## elements -/

def less (data : Array α) (i j : Nat) : Option Bool := do
  let x ← data[i]?
  let y ← data[j]?
  some (compare x y).isLT

def swap (data : Array α) (i j : Nat) : Option (Array α) :=
  if h : i < data.size ∧ j < data.size then some (data.swap i j h.1 h.2) else none

/-- `data[a..b].reverse()` -/
def reverse (data : Array α) (a b : Nat) : Option (Array α) :=
  if a ≤ b ∧ b ≤ data.size then
    some (data.extract 0 a ++ (data.extract a b).reverse ++ data.extract b data.size)
  else none

/-- a step that is taken under a condition -/
def only {β : Type} (condition : Bool) (step : β → Option β) (x : β) : Option β :=
  if condition then step x else some x

/-- the element at `j` is exchanged with those in front of it, down to `a`, while it is less -/
def sink (a : Nat) : Nat → Array α → Option (Array α)
  | 0, data => some data
  | j + 1, data =>
    if a < j + 1 then do
      if ← less compare data (j + 1) j then sink a j (← swap data (j + 1) j) else some data
    else some data

/-- the element in front of `j` is exchanged with the next `count` ones while it is greater -/
def rise : Nat → Nat → Array α → Option (Array α)
  | 0, _, data => some data
  | count + 1, j, data => do
    if ← less compare data j (j - 1) then rise count (j + 1) (← swap data j (j - 1)) else some data

def insertionSort (data : Array α) (a b : Nat) : Option (Array α) :=
  (List.range' (a + 1) (b - (a + 1))).foldlM (fun data i => sink compare a i data) data

/-! ## heaps -/

/-- a pass that panics ends the loop -/
def attempt {σ β : Type} (pass : Option (Pass σ (Option β))) : Pass σ (Option β) :=
  pass.getD (.leave none)

/-- the greater one of `child` and its neighbour -/
def greaterChild (data : Array α) (hi first child : Nat) : Option Nat :=
  if child + 1 < hi then do
    if ← less compare data (first + child) (first + child + 1) then some (child + 1) else some child
  else some child

def siftPass (hi first : Nat) (s : Array α × Nat) : Pass (Array α × Nat) (Option (Array α)) :=
  attempt do
    let (data, root) := s
    let child := 2 * root + 1
    if hi ≤ child then return .leave (some data)
    let child ← greaterChild compare data hi first child
    if !(← less compare data (first + root) (first + child)) then return .leave (some data)
    return .again (← swap data (first + root) (first + child), child)

def siftDown (data : Array α) (lo hi first : Nat) : Option (Array α) :=
  loop (siftPass compare hi first) (fun _ => none) (fun s => hi - s.2) (data, lo)

def heapSort (data : Array α) (a b : Nat) : Option (Array α) := do
  let length := b - a
  let data ← (List.range ((length - 1) / 2 + 1)).reverse.foldlM
    (fun data i => siftDown compare data i length a) data
  (List.range length).reverse.foldlM
    (fun data i => do siftDown compare (← swap data a (a + i)) 0 i a) data

/-! ## partitions -/

/-- the first of `count` positions from `i` up that fails the test -/
def climb (test : Nat → Option Bool) : Nat → Nat → Option Nat
  | 0, i => some i
  | count + 1, i => do
    if ← test i then climb test count (i + 1) else some i

/-- the first of `count` positions from `j` down that fails the test -/
def descend (test : Nat → Option Bool) : Nat → Nat → Option Nat
  | 0, j => some j
  | count + 1, j => do
    if ← test j then descend test count (j - 1) else some j

/-- `left` and `right` are the tests of the elements that may stay; the walk ends where the two
positions have crossed -/
def splitPass (left right : Array α → Nat → Option Bool) (s : Array α × Nat × Nat) :
    Pass (Array α × Nat × Nat) (Option (Array α × Nat × Nat)) :=
  attempt do
    let (data, i, j) := s
    let i ← climb (left data) (j + 1 - i) i
    let j ← descend (right data) (j + 1 - i) j
    if j < i then return .leave (some (data, i, j))
    return .again (← swap data i j, i + 1, j - 1)

def split (left right : Array α → Nat → Option Bool) (s : Array α × Nat × Nat) :
    Option (Array α × Nat × Nat) :=
  loop (splitPass left right) (fun _ => none) (fun s => s.2.2 + 1 - s.2.1) s

/-- elements that are less than the pivot stay on the left; the flag tells that none was exchanged -/
def partition (data : Array α) (a b pivot : Nat) : Option (Array α × Nat × Bool) := do
  let left := fun data i => less compare data i a
  let right := fun data j => (less compare data j a).map (!·)
  let data ← swap data a pivot
  let i ← climb (left data) (b - 1 + 1 - (a + 1)) (a + 1)
  let j ← descend (right data) (b - 1 + 1 - i) (b - 1)
  if j < i then return (← swap data j a, j, true)
  let (data, _, j) ← split left right (← swap data i j, i + 1, j - 1)
  return (← swap data j a, j, false)

/-- elements that are not greater than the pivot stay on the left -/
def partitionEqual (data : Array α) (a b pivot : Nat) : Option (Array α × Nat) := do
  let left := fun data i => (less compare data a i).map (!·)
  let right := fun data j => less compare data a j
  let data ← swap data a pivot
  let (data, i, _) ← split left right (data, a + 1, b - 1)
  return (data, i)

/-! ## nearly sorted ranges -/

/-- the rounds that are left, the position that is reached; the flag tells that the range is sorted -/
def partialRounds (a b : Nat) : Nat → Nat → Array α → Option (Array α × Bool)
  | 0, _, data => some (data, false)
  | rounds + 1, i, data => do
    let i ← climb (fun i => (less compare data i (i - 1)).map (!·)) (b - i) i
    if i = b then return (data, true)
    if b - a < 50 then return (data, false)
    let data ← swap data i (i - 1)
    -- the walk stops at 1, not at `a + 1`
    let data ← only (2 ≤ i - a) (sink compare 0 (i - 1)) data
    let data ← only (2 ≤ b - i) (rise compare (b - (i + 1)) (i + 1)) data
    partialRounds a b rounds i data

def partialInsertionSort (data : Array α) (a b : Nat) : Option (Array α × Bool) :=
  partialRounds compare a b 5 (a + 1) data

/-! ## pivots -/

def xorshift (random : UInt64) : UInt64 :=
  let random := random ^^^ (random <<< 13)
  let random := random ^^^ (random >>> 7)
  random ^^^ (random <<< 17)

/-- the number of binary digits -/
def bitLength (n : Nat) : Nat := n.size

/-- the low digits of a random number, below twice the length -/
def randomIndex (random : UInt64) (length : Nat) : Nat :=
  let other := random.toNat &&& (2 ^ bitLength length - 1)
  if length ≤ other then other - length else other

def breakPatterns (data : Array α) (a b : Nat) : Option (Array α) := do
  let length := b - a
  if length < 8 then return data
  let (data, _) ← (List.range' (a + length / 4 * 2 - 1) 3).foldlM (fun s index => do
    let random := xorshift s.2
    return (← swap s.1 index (a + randomIndex random length), random)) (data, UInt64.ofNat length)
  return data

inductive Hint where
  | unknown
  | increasing
  | decreasing
deriving DecidableEq

/-- the two positions in the order of their elements, and the number of exchanges so far -/
def order2 (data : Array α) (a b swaps : Nat) : Option (Nat × Nat × Nat) := do
  if ← less compare data b a then return (b, a, swaps + 1) else return (a, b, swaps)

def median (data : Array α) (a b c swaps : Nat) : Option (Nat × Nat) := do
  let (a, b, swaps) ← order2 compare data a b swaps
  let (b, _, swaps) ← order2 compare data b c swaps
  let (_, b, swaps) ← order2 compare data a b swaps
  return (b, swaps)

/-- the medians around three positions, and the number of exchanges -/
def medians (data : Array α) (i j k : Nat) : Option (Nat × Nat × Nat × Nat) := do
  let (i, swaps) ← median compare data (i - 1) i (i + 1) 0
  let (j, swaps) ← median compare data (j - 1) j (j + 1) swaps
  let (k, swaps) ← median compare data (k - 1) k (k + 1) swaps
  return (i, j, k, swaps)

def hintOf (swaps : Nat) : Hint :=
  if swaps = 0 then .increasing else if swaps = 12 then .decreasing else .unknown

def choosePivot (data : Array α) (a b : Nat) : Option (Nat × Hint) :=
  let length := b - a
  let i := a + length / 4
  let j := a + length / 4 * 2
  let k := a + length / 4 * 3
  if length < 8 then some (j, hintOf 0)
  else if length < 50 then do
    let (j, swaps) ← median compare data i j k 0
    return (j, hintOf swaps)
  else do
    let (i, j, k, swaps) ← medians compare data i j k
    let (j, swaps) ← median compare data i j k swaps
    return (j, hintOf swaps)

/-! ## the sort -/

structure State (α : Type) where
  data : Array α
  a : Nat
  b : Nat
  limit : Nat
  wasBalanced : Bool
  wasPartitioned : Bool

/-- the range reversed if the hint says that it is in the opposite order -/
def orient (data : Array α) (a b pivot : Nat) (hint : Hint) : Option (Array α × Nat × Hint) := do
  if hint = .decreasing then return (← reverse data a b, b - 1 - (pivot - a), .increasing)
  else return (data, pivot, hint)

/-- tells whether the range has been sorted -/
def tryPartial (data : Array α) (a b : Nat) (likely : Bool) : Option (Array α × Bool) :=
  if likely then partialInsertionSort compare data a b else some (data, false)

/-- tells whether the pivot equals the element in front of the range -/
def equalsFloor (data : Array α) (a pivot : Nat) : Option Bool :=
  if 0 < a then (less compare data (a - 1) pivot).map (!·) else some false

/-- the passes of the loop, those of the calls for the smaller partitions included; no more than
`fuel` are nested -/
def passes : Nat → State α → Option (Array α)
  | 0, _ => none
  | fuel + 1, ⟨data, a, b, limit, wasBalanced, wasPartitioned⟩ =>
    let length := b - a
    if length ≤ 12 then insertionSort compare data a b
    else if limit = 0 then heapSort compare data a b
    else do
      let data ← only (!wasBalanced) (fun data => breakPatterns data a b) data
      let limit := if wasBalanced then limit else limit - 1
      let (pivot, hint) ← choosePivot compare data a b
      let (data, pivot, hint) ← orient data a b pivot hint
      let (data, sorted) ← tryPartial compare data a b
        (wasBalanced && wasPartitioned && hint = .increasing)
      if sorted then return data
      if ← equalsFloor compare data a pivot then do
        let (data, a) ← partitionEqual compare data a b pivot
        passes fuel ⟨data, a, b, limit, wasBalanced, wasPartitioned⟩
      else do
        let (data, mid, alreadyPartitioned) ← partition compare data a b pivot
        let balanceThreshold := length / 8
        if mid - a < b - mid then do
          let data ← passes fuel ⟨data, a, mid, limit, true, true⟩
          passes fuel ⟨data, mid + 1, b, limit, balanceThreshold ≤ mid - a, alreadyPartitioned⟩
        else do
          let data ← passes fuel ⟨data, mid + 1, b, limit, true, true⟩
          passes fuel ⟨data, a, mid, limit, balanceThreshold ≤ b - mid, alreadyPartitioned⟩

def pdqsort (data : Array α) (a b limit : Nat) : Option (Array α) :=
  passes compare (b - a + 1) ⟨data, a, b, limit, true, true⟩

def sort (data : Array α) : Option (Array α) :=
  pdqsort compare data 0 data.size (bitLength data.size)

end Tsr.Core.GoSort
