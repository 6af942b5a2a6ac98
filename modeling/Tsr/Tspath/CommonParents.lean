import Tsr.Tspath.Relative

/-!
# Common parents

* `commonParents`         the parents of a list of paths, and the paths that are too shallow;
* `commonParentsWorker`   of lists of components: what they share if that is deep enough, else one
                          call for each group with the same path key at the first difference;
* `toPath`                the path key.

The function that takes a path apart and the fold tables are parameters.
-/

namespace Tsr.Tspath
open Tsr.Json (Bytes)
open Tsr.Jsstring (SimpleFold equalFold)

/-! ## path keys -/

/-- the lower case of file names -/
abbrev LowerCase := Bytes → Bytes

def canonical (lower : LowerCase) (path : Bytes) (caseSensitive : Bool) : Bytes :=
  if caseSensitive then path else lower path

def toPath (lower : LowerCase) (file base : Bytes) (caseSensitive : Bool) : Bytes :=
  canonical lower (if 0 < encodedRootLength file then normalize file else absolute file base) caseSensitive

/-- equal, up to case if `ignoreCase` is set -/
def equalityComparer (table : SimpleFold) (ignoreCase : Bool) (left right : Bytes) : Bool :=
  if ignoreCase then equalFold table left right == some true else left == right

/-! ## groups -/

/-- the head of the last group with this key, and the tails of all of them -/
structure Member where
  key : Bytes
  head : List Bytes
  tails : List (List Bytes)
deriving DecidableEq

def addMember (key : Bytes) (head tail : List Bytes) : List Member → List Member
  | [] => [⟨key, head, [tail]⟩]
  | member :: members =>
    if member.key = key then ⟨key, head, member.tails ++ [tail]⟩ :: members
    else member :: addMember key head tail members

def componentAt (group : List Bytes) (index : Nat) : Bytes := group.getD index []

/-- the members, by the key of the component at `index` -/
def fanOut (key : Bytes → Bytes) (index : Nat) (groups : List (List Bytes)) : List Member :=
  groups.foldl (fun members group =>
    addMember (key (componentAt group index)) (group.take (index + 1)) (group.drop (index + 1)) members) []

def maxDepth (first : List Bytes) (rest : List (List Bytes)) : Nat :=
  rest.foldl (fun depth group => min depth group.length) first.length

/-- the first index at which not all are equal -/
def divergence (equal : Bytes → Bytes → Bool) (first : List Bytes) (rest : List (List Bytes)) : Option Nat :=
  (List.range (maxDepth first rest)).find? fun index =>
    !(rest.all fun group => equal (componentAt first index) (componentAt group index))

/-- a call for the members decreases `minComponents`, which bounds the fuel -/
def workerLoop (equal : Bytes → Bytes → Bool) (key : Bytes → Bytes) :
    Nat → Nat → List (List Bytes) → List (List Bytes)
  | _, _, [] => []
  | fuel, minComponents, first :: rest =>
    match divergence equal first rest with
    | none => [first.take (maxDepth first rest)]
    | some index =>
      if minComponents ≤ index then [first.take index]
      else match fuel with
        | 0 => []
        | fuel + 1 =>
          ((fanOut key index (first :: rest)).insertionSort fun a b => a.key ≤ b.key).flatMap fun member =>
            (workerLoop equal key fuel (minComponents - (index + 1)) member.tails).map (member.head ++ ·)

section
variable (table : SimpleFold) (lower : LowerCase)

def commonParentsWorker (groups : List (List Bytes)) (minComponents : Nat) (cwd : Bytes) (caseSensitive : Bool) :
    List (List Bytes) :=
  workerLoop (equalityComparer table !caseSensitive) (fun component => toPath lower component cwd caseSensitive)
    minComponents minComponents groups

/-- a `minComponents` below one ends the process; a single path is its own parent -/
def commonParents (paths : List Bytes) (minComponents : Int) (getComponents : Bytes → Bytes → List Bytes)
    (cwd : Bytes) (caseSensitive : Bool) : Option (List Bytes × Finset Bytes) :=
  if minComponents < 1 then none
  else
    let components (path : Bytes) := reducePathComponents (getComponents path cwd)
    let deepEnough (path : Bytes) : Bool := minComponents ≤ (components path).length
    match paths with
    | [path] => some (if deepEnough path then ([path], ∅) else ([], {path}))
    | paths =>
      let groups := (paths.filter deepEnough).map components
      some ((commonParentsWorker table lower groups minComponents.toNat cwd caseSensitive).map pathFromComponents,
        (paths.filter fun path => !deepEnough path).toFinset)

/-- whether the components of the one begin with those of the other -/
def containsPath (parent child cwd : Bytes) (caseSensitive : Bool) : Bool :=
  let parent := combine cwd [parent]
  let child := combine cwd [child]
  if parent = [] ∨ child = [] then false
  else if parent = child then true
  else
    let parent := normalizedComponents parent []
    let child := normalizedComponents child []
    parent.length ≤ child.length && commonComponents table caseSensitive 0 parent child == parent.length

end

end Tsr.Tspath
