import Tsr.Tspath.Normalize
import Tsr.Jsstring.ToLower
import Tsr.Lib.Separated

/-!
# The order of paths

* `comparePaths`        the roots, then the text behind them if neither path has relative segments,
                        else the normalised components;
* `compareComponents`   the components one after the other, then their number.

The table of the lower cases is a parameter.
-/

namespace Tsr.Tspath
open Tsr.Json (Bytes)
open Tsr.Jsstring (SimpleLower toLowerGo)
open Tsr.Lib.Separated (lexical)

variable (table : SimpleLower)

/-- the text as it is compared -/
def caseKey (caseSensitive : Bool) (text : Bytes) : Bytes := if caseSensitive then text else toLowerGo table text

/-- the root, at index 0, is compared without its case -/
def compareComponents (caseSensitive : Bool) : Nat → List Bytes → List Bytes → Ordering
  | index, a :: left, b :: right =>
    let order :=
      if index = 0 ∨ caseSensitive = false then lexical (toLowerGo table a) (toLowerGo table b) else lexical a b
    if order ≠ .eq then order else compareComponents caseSensitive (index + 1) left right
  | _, left, right => compare left.length right.length

def comparePaths (left right cwd : Bytes) (caseSensitive : Bool) : Ordering :=
  let left := combine cwd [left]
  let right := combine cwd [right]
  if left = right then .eq
  else if left = [] then .lt
  else if right = [] then .gt
  else
    let leftRoot := rootLength left
    let rightRoot := rootLength right
    let order := lexical (toLowerGo table (left.take leftRoot)) (toLowerGo table (right.take rightRoot))
    if order ≠ .eq then order
    else
      let a := left.drop leftRoot
      let b := right.drop rightRoot
      if hasRelativeSegment a = false ∧ hasRelativeSegment b = false then
        if caseSensitive then lexical a b else lexical (toLowerGo table a) (toLowerGo table b)
      else compareComponents table caseSensitive 0 (normalizedComponents left []) (normalizedComponents right [])

end Tsr.Tspath
