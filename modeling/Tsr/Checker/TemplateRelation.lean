import Tsr.Jsstring.Surrogates

/-!
# Checker: matching a template against a template

* `inferLiteralParts`     the matches for the placeholders of the target, or that there are none;
* `templateMatchSegment`  what lies between two cursors: a string, or a template of its own.

A slice out of range is an outcome of its own (`Stop.outOfRange`).  The types that the checker makes
of the matches are given by `Constructors`.
-/

namespace Tsr.Checker.TemplateRelation

open Tsr.Json (Bytes)
open Tsr.Jsstring

/-- why there are no matches -/
inductive Stop (E : Type) where
  | noMatch
  | failed (error : E)
  /-- the code panics -/
  | outOfRange
deriving DecidableEq

abbrev Outcome (E α : Type) := Except (Stop E) α

/-- what stands between two texts of the target: a string, or texts with types between them -/
inductive Segment (P : Type) where
  | string (text : Bytes)
  | template (texts : List Bytes) (types : List P)
deriving DecidableEq

/-- the types that the checker makes -/
structure Constructors (E P M : Type) where
  getStringLiteralType : Bytes → Except E M
  getTemplateLiteralType : List Bytes → List P → Except E M

section
variable {E P M : Type}

def Constructors.build (make : Constructors E P M) : Segment P → Except E M
  | .string text => make.getStringLiteralType text
  | .template texts types => make.getTemplateLiteralType texts types

def lift {α : Type} : Except E α → Outcome E α
  | .ok a => .ok a
  | .error error => .error (.failed error)

/-! ## indices and slices -/

def item {α : Type} (list : List α) (index : Nat) : Outcome E α :=
  match list[index]? with
  | some a => .ok a
  | none => .error .outOfRange

def slice {α : Type} (list : List α) (start stop : Nat) : Outcome E (List α) :=
  if start ≤ stop ∧ stop ≤ list.length then .ok ((list.take stop).drop start) else .error .outOfRange

/-- the first window that is the delimiter -/
def windowPosition (delimiter : Bytes) : Bytes → Option Nat
  | [] => if delimiter = [] then some 0 else none
  | b :: bytes => if delimiter.isPrefixOf (b :: bytes) then some 0 else (windowPosition delimiter bytes).map (· + 1)

/-! ## the cursor -/

structure Cursor where
  segment : Nat
  position : Nat
deriving DecidableEq

/-- the source; its last text is shortened by the last text of the target -/
structure Source (P : Type) where
  texts : List Bytes
  types : List P
  last : Nat
  remainingEnd : Bytes

def Source.text (source : Source P) (index : Nat) : Outcome E Bytes :=
  if index = source.last then .ok source.remainingEnd else item source.texts index

/-- the loop over the segments; the fuel is the number of segments left -/
def findDelimiter (source : Source P) (delimiter : Bytes) : Nat → Cursor → Outcome E Cursor
  | 0, _ => .error .outOfRange
  | fuel + 1, cursor => do
    let text ← source.text cursor.segment
    let window ← slice text cursor.position text.length
    match windowPosition delimiter window with
    | some found => .ok ⟨cursor.segment, cursor.position + found⟩
    | none =>
      if cursor.segment + 1 = source.texts.length then .error .noMatch
      else findDelimiter source delimiter fuel ⟨cursor.segment + 1, 0⟩

/-- where a delimiter stands; an empty one stands behind the next code point or the next type -/
def nextCursor (source : Source P) (delimiter : Bytes) (cursor : Cursor) : Outcome E Cursor :=
  if delimiter ≠ [] then findDelimiter source delimiter (source.texts.length - cursor.segment) cursor
  else do
    let text ← source.text cursor.segment
    if cursor.position < text.length then
      let rest ← slice text cursor.position text.length
      .ok ⟨cursor.segment, cursor.position + (decodeRune rest).2⟩
    else if cursor.segment < source.last then .ok ⟨cursor.segment + 1, 0⟩
    else .error .noMatch

/-- the arguments of the constructor in `templateMatchSegment` -/
def matchSegment (source : Source P) (start stop : Cursor) (endText : Bytes) : Outcome E (Segment P) :=
  if start.segment = stop.segment then do
    let text ← slice endText start.position stop.position
    .ok (.string (combineSurrogatePairs text))
  else do
    let text ← item source.texts start.segment
    let first ← slice text start.position text.length
    let middle ← slice source.texts (start.segment + 1) stop.segment
    let final ← slice endText 0 stop.position
    let types ← slice source.types start.segment stop.segment
    .ok (.template (first :: middle ++ [final]) types)

def templateMatchSegment (make : Constructors E P M) (source : Source P) (start stop : Cursor)
    (endText : Bytes) : Outcome E M := do
  let segment ← matchSegment source start stop endText
  lift (make.build segment)

/-- the loop over the inner texts of the target, and the last match -/
def inferLoop (make : Constructors E P M) (source : Source P) : List Bytes → Cursor → Outcome E (List M)
  | [], cursor => do
    let found ← templateMatchSegment make source cursor ⟨source.last, source.remainingEnd.length⟩
      source.remainingEnd
    .ok [found]
  | delimiter :: delimiters, cursor => do
    let next ← nextCursor source delimiter cursor
    let text ← source.text next.segment
    let found ← templateMatchSegment make source cursor next text
    let rest ← inferLoop make source delimiters ⟨next.segment, next.position + delimiter.length⟩
    .ok (found :: rest)

def inferLiteralParts (make : Constructors E P M) (texts : List Bytes) (types : List P)
    (target : List Bytes) : Outcome E (List M) :=
  if texts.length = 0 ∨ target.length = 0 then .error .outOfRange
  else do
    let last := texts.length - 1
    let stop := target.length - 1
    let first ← item texts 0
    let final ← item texts last
    let start ← item target 0
    let suffix ← item target stop
    if (last = 0 ∧ first.length < start.length + suffix.length) ∨ ¬ start.isPrefixOf first ∨
        ¬ suffix.isSuffixOf final then .error .noMatch
    else
      let inner ← slice target 1 stop
      inferLoop make ⟨texts, types, last, final.take (final.length - suffix.length)⟩ inner ⟨0, start.length⟩

/-! ## what the matches stand for -/

/-- texts with types between them, written one after the other -/
def spell : List Bytes → List P → List (Piece P)
  | text :: texts, p :: types => pieces text ++ .hole p :: spell texts types
  | text :: _, [] => pieces text
  | [], _ => []

def Segment.pieces : Segment P → List (Piece P)
  | .string text => Jsstring.pieces text
  | .template texts types => spell texts types

/-- text 0, match 0, text 1, match 1 and so on -/
def written : List Bytes → List (Segment P) → List (Piece P)
  | text :: texts, segment :: segments => pieces text ++ segment.pieces ++ written texts segments
  | text :: _, [] => pieces text
  | [], _ => []

end

end Tsr.Checker.TemplateRelation
