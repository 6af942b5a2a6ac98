import Tsr.Jsstring.Wtf8
import Tsr.Tspath.Path

/-!
# Normalised paths

A path is combined with the current directory, and its `.`, `..` and empty segments are resolved.
Four functions do so: `absolute` gives the path, the others its components, the root first.

* `combine`                              a rooted path stands alone;
* `normalize`                            a path with nothing to resolve is kept, a path whose `/./`
  are all there is to resolve is rewritten, any other path is taken apart;
* `absolute`                             no separator at the end, but of a root;
* `pathComponents`, `reducePathComponents`, `normalizedComponents`,
  `normalizedComponentsFromCombined`     the components;
* `pathFromComponents`                   joins them.
-/

namespace Tsr.Tspath
open Tsr.Json (Bytes)

def dot : Bytes := [0x2E]

def dotDot : Bytes := [0x2E, 0x2E]

/-! ## combine -/

/-- separators of `path` are normalized -/
def combineStep (result path : Bytes) : Bytes :=
  if path = [] then result
  else
    let path := normalizeSlashes path
    if result = [] ∨ rootLength path ≠ 0 then path
    else if result.getLast? = some 0x2F then result ++ path
    else result ++ 0x2F :: path

def combine (first : Bytes) (paths : List Bytes) : Bytes :=
  paths.foldl combineStep (normalizeSlashes first)

/-! ## normalize -/

def hasRelativeSegment (path : Bytes) : Bool :=
  [0x2F, 0x2F] <:+: path || (path.splitOn 0x2F).any fun s => s = dot || s = dotDot

/-- each `/./` that a scan from the left meets becomes `/` -/
def simplify : Bytes → Bytes
  | a :: b :: c :: rest =>
    if a = 0x2F ∧ b = 0x2E ∧ c = 0x2F then 0x2F :: simplify rest else a :: simplify (b :: c :: rest)
  | rest => rest

/-- without the `./` that it begins with -/
def stripDot (path : Bytes) : Bytes := if [0x2E, 0x2F] <+: path then path.drop 2 else path

/-- the components after `root` -/
def pushComponent (root : Bytes) (components : List Bytes) (component : Bytes) : List Bytes :=
  if component = [] ∨ component = dot then components
  else if component = dotDot then
    if components.getLast?.any (· ≠ dotDot) then components.dropLast
    else if components = [] ∧ root ≠ [] then components
    else components ++ [component]
  else components ++ [component]

/-- the path taken apart; its separators are normalized -/
def rebuild (slashes : Bytes) : Bytes :=
  let rootEnd := rootLength slashes
  let root := slashes.take rootEnd
  let components := ((slashes.drop rootEnd).splitOn 0x2F).foldl (pushComponent root) []
  let result := if root ≠ [] ∧ root.getLast? ≠ some 0x2F then root ++ [0x2F] else root
  let result := result ++ [0x2F].intercalate components
  if result ≠ [] ∧ slashes.getLast? = some 0x2F ∧ result.getLast? ≠ some 0x2F then result ++ [0x2F]
  else result

def normalize (path : Bytes) : Bytes :=
  let slashes := normalizeSlashes path
  if hasRelativeSegment slashes = false then slashes
  else
    let simplified := simplify slashes
    let trimmed := stripDot simplified
    if trimmed ≠ slashes ∧ hasRelativeSegment trimmed = false ∧
        ¬(trimmed.length ≠ simplified.length ∧ trimmed.head? = some 0x2F) then trimmed
    else rebuild slashes

/-- no separator at the end of a path that is more than a root; one at the end of a root -/
def finishRoot (path : Bytes) : Bytes :=
  let root := rootLength path
  if root < path.length ∧ path.getLast? = some 0x2F then path.dropLast
  else if path.length = root ∧ root ≠ 0 ∧ path.getLast? ≠ some 0x2F then path ++ [0x2F]
  else path

def absolute (file cwd : Bytes) : Bytes :=
  finishRoot (if rootLength file = 0 ∧ cwd ≠ [] then normalize (combine cwd [file]) else normalize file)

/-! ## components -/

/-- a root that is longer than the path ends the process -/
def splitPathComponents (path : Bytes) (root : Nat) : Option (List Bytes) :=
  if root ≤ path.length then
    let rest := (path.drop root).splitOn 0x2F
    some (path.take root :: if rest.getLast? = some [] then rest.dropLast else rest)
  else none

/-- keeps `.` and empty components that are not the last -/
def pathComponents (path cwd : Bytes) : Option (List Bytes) :=
  let path := combine cwd [path]
  splitPathComponents path (rootLength path)

/-- the first of `reduced` is the root; `..` is kept where it is empty -/
def reduceComponent (reduced : List Bytes) (component : Bytes) : List Bytes :=
  if component = [] ∨ component = dot then reduced
  else if component = dotDot then
    if 1 < reduced.length then
      if reduced.getLast?.any (· ≠ dotDot) then reduced.dropLast else reduced ++ [component]
    else if reduced.head?.any (· ≠ []) then reduced
    else reduced ++ [component]
  else reduced ++ [component]

def reducePathComponents : List Bytes → List Bytes
  | [] => []
  | first :: components => components.foldl reduceComponent [first]

def normalizedComponentsFromCombined (path : Bytes) : List Bytes :=
  let root := rootLength path
  ((path.drop root).splitOn 0x2F).foldl reduceComponent [path.take root]

def normalizedComponent (root : Nat) (parts : List Bytes) (part : Bytes) : List Bytes :=
  if part = [] ∨ part = dot then parts
  else if part = dotDot then
    if 1 < parts.length ∧ parts.getLast?.any (· ≠ dotDot) then parts.dropLast
    else if root ≠ 0 then parts
    else parts ++ [part]
  else parts ++ [part]

def normalizedComponents (path cwd : Bytes) : List Bytes :=
  let path := combine cwd [path]
  let root := rootLength path
  ((path.drop root).splitOn 0x2F).foldl (normalizedComponent root) [path.take root]

def pathFromComponents : List Bytes → Bytes
  | [] => []
  | root :: parts =>
    let result :=
      if root ≠ [] ∧ ¬(root.getLast? = some 0x2F ∨ root.getLast? = some 0x5C) then root ++ [0x2F]
      else root
    result ++ [0x2F].intercalate parts

end Tsr.Tspath
