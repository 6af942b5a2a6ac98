import Tsr.Lib.Decimal
import Tsr.Lib.Seek

/-!
# Names of generated identifiers

Temporary names come from counters of their scope, one for each pair of a prefix and a suffix; unique names are
numbered until one is free.  What is reserved is kept in the scopes that are open, or for good.

* `NameGenerator`   the two stacks of scopes, and the names that are kept for good;
* `makeTempVariableName`, `makeUniqueName`   the two ways to make a name; their loops run on fuel;
* `Run`             calls in any order, with the names that they returned.

The numbers of the scopes, the count of what a counter has tried and the names that were returned are for the
proofs; nothing reads them.
-/

namespace Tsr.Printer

open Tsr.Lib.Decimal Tsr.Lib.Seek

abbrev Name := List UInt8

/-! ## texts -/

def hasLeadingHash (text : Name) : Bool := text.head? = some 35

def removeLeadingHash (text : Name) : Name := if hasLeadingHash text then text.tail else text

def ensureLeadingHash (text : Name) : Name := if hasLeadingHash text then text else 35 :: text

def formatGeneratedName (privateName : Bool) (pre base suffix : Name) : Name :=
  let name := removeLeadingHash pre ++ (removeLeadingHash base ++ removeLeadingHash suffix)
  if privateName then ensureLeadingHash name else name

/-! ## scopes -/

/-- the bits of a counter that count -/
def tempFlagsCountMask : Nat := 2 ^ 28 - 1

/-- the preference for `_i` -/
def tempFlagsI : Nat := 2 ^ 28

/-- a counter of a scope: the one without prefix and suffix, or that of a key -/
abbrev Counter := Option Name

structure NameGenerationScope where
  /-- which scope it is -/
  id : Nat
  tempFlags : Nat
  formattedNameTempFlags : Name → Option Nat
  reservedNames : List Name
  /-- how many values a counter has tried -/
  tried : Counter → Nat

namespace NameGenerationScope

def new (id : Nat) : NameGenerationScope := ⟨id, 0, fun _ => none, [], fun _ => 0⟩

/-- a counter that was not used yet is at its start -/
def flags (scope : NameGenerationScope) : Counter → Nat
  | none => scope.tempFlags
  | some key => (scope.formattedNameTempFlags key).getD 0

def setFlags (scope : NameGenerationScope) (flags : Nat) : Counter → NameGenerationScope
  | none => { scope with tempFlags := flags }
  | some key => { scope with formattedNameTempFlags := Function.update scope.formattedNameTempFlags key (some flags) }

def reserve (scope : NameGenerationScope) (name : Name) : NameGenerationScope :=
  { scope with reservedNames := name :: scope.reservedNames }

def advance (scope : NameGenerationScope) (counter : Counter) (n : Nat) : NameGenerationScope :=
  { scope with tried := Function.update scope.tried counter (scope.tried counter + n) }

end NameGenerationScope

structure NameGenerator where
  /-- the innermost scope first -/
  nameGenerationScope : List NameGenerationScope
  privateNameGenerationScope : List NameGenerationScope
  generatedNames : List Name
  nextId : Nat

namespace NameGenerator

def new : NameGenerator := ⟨[], [], [], 0⟩

def getScope (g : NameGenerator) (privateName : Bool) : List NameGenerationScope :=
  if privateName then g.privateNameGenerationScope else g.nameGenerationScope

def setScope (g : NameGenerator) (privateName : Bool) (scopes : List NameGenerationScope) : NameGenerator :=
  if privateName then { g with privateNameGenerationScope := scopes } else { g with nameGenerationScope := scopes }

/-- a scope more -/
def pushOne (g : NameGenerator) (privateName : Bool) : NameGenerator :=
  { g.setScope privateName (.new g.nextId :: g.getScope privateName) with nextId := g.nextId + 1 }

def popOne (g : NameGenerator) (privateName : Bool) : NameGenerator :=
  g.setScope privateName (g.getScope privateName).tail

def pushScope (g : NameGenerator) (reuseTempVariableScope : Bool) : NameGenerator :=
  if reuseTempVariableScope then g.pushOne true else (g.pushOne true).pushOne false

def popScope (g : NameGenerator) (reuseTempVariableScope : Bool) : NameGenerator :=
  if reuseTempVariableScope then g.popOne true else (g.popOne true).popOne false

/-- the innermost scope; a first one is made if there is none -/
def orDefault (g : NameGenerator) (privateName : Bool) : NameGenerator :=
  if (g.getScope privateName).isEmpty then g.pushOne privateName else g

/-- a change of the innermost scope -/
def changeTop (g : NameGenerator) (privateName : Bool) (f : NameGenerationScope → NameGenerationScope) :
    NameGenerator :=
  let g := g.orDefault privateName
  g.setScope privateName ((g.getScope privateName).modifyHead f)

def getTempFlags (g : NameGenerator) (privateName : Bool) (counter : Counter) : Nat :=
  match g.getScope privateName with
  | [] => 0
  | scope :: _ => scope.flags counter

def setTempFlags (g : NameGenerator) (privateName : Bool) (counter : Counter) (flags : Nat) : NameGenerator :=
  g.changeTop privateName fun scope => scope.setFlags flags counter

def reserveName (g : NameGenerator) (name : Name) (privateName isScoped temp : Bool) : NameGenerator :=
  let g := g.orDefault privateName
  if privateName || isScoped then g.changeTop privateName (·.reserve name)
  else if temp then g
  else { g with generatedNames := name :: g.generatedNames }

def isReservedName (g : NameGenerator) (name : Name) (privateName : Bool) : Bool :=
  g.generatedNames.contains name || (g.getScope privateName).any fun scope => scope.reservedNames.contains name

section
variable (isFileLevelUniqueName : Name → Bool → Bool)

def isUniqueName (g : NameGenerator) (name : Name) (privateName : Bool) : Bool :=
  isFileLevelUniqueName name privateName && !g.isReservedName name privateName

/-- with a check function, which is the file-level one, what was generated does not count -/
def checkUniqueName (g : NameGenerator) (name : Name) (privateName checkFn : Bool) : Bool :=
  if checkFn then isFileLevelUniqueName name privateName
  else g.isUniqueName isFileLevelUniqueName name privateName

/-! ## temporary names -/

/-- `_a` to `_z`, then `_0`, `_1` and so on -/
def tempName (count : Nat) : Name :=
  if count < 26 then [95, (97 + count).toUInt8] else 95 :: decimal (count - 26)

/-- the counter of a prefix and a suffix -/
def counterOf (privateName : Bool) (pre suffix : Name) : Counter :=
  if pre = [] ∧ suffix = [] then none
  else
    let key := formatGeneratedName privateName pre [] suffix
    some (if privateName then ensureLeadingHash key else key)

/-- what a search for a temporary name ends with -/
inductive Found where
  | preferred
  /-- the value of the counter -/
  | counted (tempFlags : Nat)

/-- the name that a value of the counter stands for -/
def countedName (privateName : Bool) (pre suffix : Name) (tempFlags : Nat) : Name :=
  formatGeneratedName privateName pre (tempName (tempFlags &&& tempFlagsCountMask)) suffix

def preferredName (privateName : Bool) (pre suffix : Name) : Name :=
  formatGeneratedName privateName pre [95, 105] suffix

/-- one turn of the loop: `i` and `n` are left out -/
def acceptsCount (g : NameGenerator) (privateName : Bool) (pre suffix : Name) (tempFlags : Nat) : Bool :=
  let count := tempFlags &&& tempFlagsCountMask
  count ≠ 8 && count ≠ 13 && g.isUniqueName isFileLevelUniqueName (countedName privateName pre suffix tempFlags) privateName

def findTempName (fuel : Nat) (g : NameGenerator) (flags : Nat) (privateName : Bool) (pre suffix : Name) :
    Option Found :=
  let tempFlags := g.getTempFlags privateName (counterOf privateName pre suffix)
  if flags ≠ 0 ∧ tempFlags &&& flags = 0 ∧
      g.isUniqueName isFileLevelUniqueName (preferredName privateName pre suffix) privateName = true then
    some .preferred
  else
    (seek (g.acceptsCount isFileLevelUniqueName privateName pre suffix) fuel tempFlags).map .counted

/-- the name, and the counter after it -/
def takeTempName (g : NameGenerator) (flags : Nat) (reservedInNestedScopes privateName : Bool) (pre suffix : Name) :
    Found → Name × NameGenerator
  | .preferred =>
    let name := preferredName privateName pre suffix
    let counter := counterOf privateName pre suffix
    (name, (g.reserveName name privateName reservedInNestedScopes true).setTempFlags privateName counter
      (g.getTempFlags privateName counter ||| flags))
  | .counted tempFlags =>
    let name := countedName privateName pre suffix tempFlags
    let counter := counterOf privateName pre suffix
    (name, ((g.reserveName name privateName reservedInNestedScopes true).setTempFlags privateName counter
      (tempFlags + 1)).changeTop privateName
        fun scope => scope.advance counter (tempFlags + 1 - g.getTempFlags privateName counter))

def makeTempVariableName (fuel : Nat) (g : NameGenerator) (flags : Nat)
    (reservedInNestedScopes privateName : Bool) (pre suffix : Name) : Option (Name × NameGenerator) :=
  (findTempName isFileLevelUniqueName fuel g flags privateName pre suffix).map
    (g.takeTempName flags reservedInNestedScopes privateName pre suffix)

/-! ## unique names -/

/-- the base in front of a number -/
def numberedBase (baseName : Name) : Name :=
  if baseName ≠ [] ∧ baseName.getLast? ≠ some 95 then baseName ++ [95] else baseName

def uniqueCandidate (baseName : Name) (privateName : Bool) (pre suffix : Name) (i : Nat) : Name :=
  formatGeneratedName privateName pre (numberedBase (removeLeadingHash baseName) ++ decimal i) suffix

/-- what a search for a unique name ends with -/
def findUniqueName (fuel : Nat) (g : NameGenerator) (baseName : Name) (checkFn optimistic privateName : Bool)
    (pre suffix : Name) : Option Name :=
  let fullName := formatGeneratedName privateName pre (removeLeadingHash baseName) suffix
  if optimistic = true ∧ g.checkUniqueName isFileLevelUniqueName fullName privateName checkFn = true then
    some fullName
  else
    (seek (fun i => g.checkUniqueName isFileLevelUniqueName (uniqueCandidate baseName privateName pre suffix i)
      privateName checkFn) fuel 1).map (uniqueCandidate baseName privateName pre suffix)

def makeUniqueName (fuel : Nat) (g : NameGenerator) (baseName : Name)
    (checkFn optimistic isScoped privateName : Bool) (pre suffix : Name) : Option (Name × NameGenerator) :=
  (findUniqueName isFileLevelUniqueName fuel g baseName checkFn optimistic privateName pre suffix).map fun name =>
    (name, g.reserveName name privateName isScoped false)

end

end NameGenerator

/-! ## calls -/

/-- a call that makes a name -/
inductive Make where
  | temp (loop reservedInNestedScopes privateName : Bool) (pre suffix : Name)
  | unique (baseName : Name) (checkFn optimistic isScoped privateName : Bool) (pre suffix : Name)

namespace Make

def privateName : Make → Bool
  | .temp _ _ privateName _ _ => privateName
  | .unique _ _ _ _ privateName _ _ => privateName

/-- the name is reserved while its scope is open -/
def held : Make → Bool
  | .temp _ reserved privateName _ _ => privateName || reserved
  | .unique _ _ _ isScoped privateName _ _ => privateName || isScoped

/-- the name is reserved for good -/
def kept : Make → Bool
  | .temp _ _ _ _ _ => false
  | .unique _ _ _ isScoped privateName _ _ => !(privateName || isScoped)

/-- the name is checked against those that were generated -/
def checked : Make → Bool
  | .temp _ _ _ _ _ => true
  | .unique _ checkFn _ _ _ _ _ => !checkFn

/-- the counter of a temporary name -/
def counter : Make → Option Counter
  | .temp _ _ privateName pre suffix => some (NameGenerator.counterOf privateName pre suffix)
  | .unique _ _ _ _ _ _ _ => none

def perform (isFileLevelUniqueName : Name → Bool → Bool) (fuel : Nat) (g : NameGenerator) :
    Make → Option (Name × NameGenerator)
  | .temp loop reserved privateName pre suffix =>
    g.makeTempVariableName isFileLevelUniqueName fuel (if loop then tempFlagsI else 0) reserved privateName pre suffix
  | .unique baseName checkFn optimistic isScoped privateName pre suffix =>
    g.makeUniqueName isFileLevelUniqueName fuel baseName checkFn optimistic isScoped privateName pre suffix

end Make

/-- a name that was returned, with the scopes of its kind that were open, and what its counter had tried -/
structure Issued where
  make : Make
  name : Name
  opened : List Nat
  tried : Nat

/-- the scope of a name is the innermost one -/
def Issued.scope (e : Issued) : Nat := e.opened.headD 0

def NameGenerator.opened (g : NameGenerator) (privateName : Bool) : List Nat := (g.getScope privateName).map (·.id)

def NameGenerator.triedBy (g : NameGenerator) (privateName : Bool) : Option Counter → Nat
  | none => 0
  | some counter =>
    match g.getScope privateName with
    | [] => 0
    | scope :: _ => scope.tried counter

/-- what a call that made a name is remembered by -/
def NameGenerator.issue (g : NameGenerator) (make : Make) (name : Name) : Issued :=
  ⟨make, name, g.opened make.privateName, g.triedBy make.privateName make.counter⟩

/-- calls in any order, with the names that they returned, the last one first -/
inductive Run (isFileLevelUniqueName : Name → Bool → Bool) : NameGenerator → List Issued → Prop
  | start : Run isFileLevelUniqueName .new []
  | push {g : NameGenerator} {issued : List Issued} (reuse : Bool) : Run isFileLevelUniqueName g issued →
      Run isFileLevelUniqueName (g.pushScope reuse) issued
  | pop {g : NameGenerator} {issued : List Issued} (reuse : Bool) : Run isFileLevelUniqueName g issued →
      Run isFileLevelUniqueName (g.popScope reuse) issued
  | make {g g' : NameGenerator} {issued : List Issued} {fuel : Nat} {m : Make} {name : Name} :
      Run isFileLevelUniqueName g issued → m.perform isFileLevelUniqueName fuel g = some (name, g') →
      Run isFileLevelUniqueName g' (g'.issue m name :: issued)

end Tsr.Printer
