import Mathlib
import Tsr.Ast.SpanMap

/-!
# The order of diagnostics

A diagnostic has a chain of messages and related diagnostics, of any nesting.  `address` says which
allocation it is, for the comparisons of pointers.  The naming of the files can fail.

* `messageIdentity`         the text that tells one message from another;
* `equalDiagnostics`        equal in what is shown and in the codes of the chains;
* `compareDiagnostics`      by the position, then by the message, by the sizes of the chains, by their
                            contents, and last by the related information.
-/

set_option linter.unusedSectionVars false

namespace Tsr.Ast

abbrev JsString := List UInt8
abbrev NodeId := Nat

structure DiagnosticFields where
  file : Option NodeId
  loc : TextRange
  code : Int32
  category : Int32
  source : JsString
  /-- the text of the message that the code stands for -/
  message : Option JsString
  messageText : JsString
  messageKey : JsString
  messageArgs : List JsString
  adHocMessage : Option JsString
deriving DecidableEq

inductive Diagnostic where
  | mk (address : Nat) (fields : DiagnosticFields) (messageChain relatedInformation : List Diagnostic)

namespace Diagnostic

def address : Diagnostic → Nat
  | mk address _ _ _ => address

def fields : Diagnostic → DiagnosticFields
  | mk _ fields _ _ => fields

def messageChain : Diagnostic → List Diagnostic
  | mk _ _ messageChain _ => messageChain

def relatedInformation : Diagnostic → List Diagnostic
  | mk _ _ _ relatedInformation => relatedInformation

end Diagnostic

def messageIdentity (fields : DiagnosticFields) : JsString :=
  if fields.messageText ≠ [] then fields.messageText
  else if fields.code = -1 then
    match fields.message, fields.adHocMessage with
    | some text, _ => text
    | none, some text => text
    | none, none => fields.messageKey
  else fields.messageKey

/-! ## chains of messages -/

mutual

def equalMessageChain : Diagnostic → Diagnostic → Bool
  | .mk address left chain _, right =>
    address == right.address ||
      (left.code == right.fields.code && left.messageArgs == right.fields.messageArgs &&
        (chain.length == right.messageChain.length && equalChainPairs chain right.messageChain))

/-- the messages of two chains one after the other, as long as there are two -/
def equalChainPairs : List Diagnostic → List Diagnostic → Bool
  | left :: lefts, right :: rights => equalMessageChain left right && equalChainPairs lefts rights
  | _, _ => true

end

def equalChains (left right : List Diagnostic) : Bool :=
  left.length == right.length && equalChainPairs left right

mutual

/-- of two messages: longer chains first -/
def compareChainSizeBelow : Diagnostic → Diagnostic → Ordering
  | .mk _ _ chain _, right =>
    (compare right.messageChain.length chain.length).then (compareChainSizePairs chain right.messageChain)

def compareChainSizePairs : List Diagnostic → List Diagnostic → Ordering
  | left :: lefts, right :: rights =>
    (compareChainSizeBelow left right).then (compareChainSizePairs lefts rights)
  | _, _ => .eq

end

def compareMessageChainSize (left right : List Diagnostic) : Ordering :=
  (compare right.length left.length).then (compareChainSizePairs left right)

mutual

def compareChainContentBelow : Diagnostic → Diagnostic → Ordering
  | .mk _ left chain _, right =>
    (compare left.messageArgs right.fields.messageArgs).then
      (compareMessageChainContent chain right.messageChain)

/-- it pairs up only as many messages as both sides have -/
def compareMessageChainContent : List Diagnostic → List Diagnostic → Ordering
  | left :: lefts, right :: rights =>
    (compareChainContentBelow left right).then (compareMessageChainContent lefts rights)
  | _, _ => .eq

end

/-! ## diagnostics -/

section
variable {E : Type} (fileName : NodeId → Except E JsString)

def diagnosticPath (fields : DiagnosticFields) : Except E JsString :=
  match fields.file with
  | none => .ok []
  | some file => fileName file

/-- flags and related information do not count -/
def equalDiagnosticsNoRelatedInfo (left right : Diagnostic) : Except E Bool :=
  if left.address = right.address then .ok true
  else do
    let leftPath ← diagnosticPath fileName left.fields
    let rightPath ← diagnosticPath fileName right.fields
    return leftPath == rightPath && left.fields.loc == right.fields.loc &&
      left.fields.code == right.fields.code && left.fields.category == right.fields.category &&
      left.fields.source == right.fields.source &&
      messageIdentity left.fields == messageIdentity right.fields &&
      left.fields.messageArgs == right.fields.messageArgs &&
      equalChains left.messageChain right.messageChain

mutual

def equalDiagnostics : Diagnostic → Diagnostic → Except E Bool
  | .mk address left chain related, right =>
    if address = right.address then .ok true
    else do
      let equal ← equalDiagnosticsNoRelatedInfo fileName (.mk address left chain related) right
      if !equal || related.length != right.relatedInformation.length then
        return false
      equalRelatedPairs related right.relatedInformation

def equalRelatedPairs : List Diagnostic → List Diagnostic → Except E Bool
  | left :: lefts, right :: rights => do
    let equal ← equalDiagnostics left right
    if !equal then
      return false
    equalRelatedPairs lefts rights
  | _, _ => .ok true

end

/-- what stands between the path and the related information -/
def compareMessages (left right : Diagnostic) : Ordering :=
  ((((((((compare left.fields.loc.pos.toInt right.fields.loc.pos.toInt).then
    (compare left.fields.loc.stop.toInt right.fields.loc.stop.toInt)).then
    (compare left.fields.code.toInt right.fields.code.toInt)).then
    (compare left.fields.category.toInt right.fields.category.toInt)).then
    (compare left.fields.source right.fields.source)).then
    (compare (messageIdentity left.fields) (messageIdentity right.fields))).then
    (compare left.fields.messageArgs right.fields.messageArgs)).then
    (compareMessageChainSize left.messageChain right.messageChain)).then
    (compareMessageChainContent left.messageChain right.messageChain)

/-- more related information first; `pairs` compares its members -/
def compareRelatedInfo (left right : List Diagnostic) (pairs : Except E Ordering) : Except E Ordering :=
  let order := compare right.length left.length
  if order ≠ .eq then .ok order else pairs

mutual

def compareDiagnostics : Diagnostic → Diagnostic → Except E Ordering
  | .mk address left chain related, right =>
    if address = right.address then .ok .eq
    else do
      let leftPath ← diagnosticPath fileName left
      let rightPath ← diagnosticPath fileName right.fields
      let order := compare leftPath rightPath
      if order ≠ .eq then
        return order
      let order := compareMessages (.mk address left chain related) right
      if order ≠ .eq then
        return order
      compareRelatedInfo related right.relatedInformation (compareRelatedPairs related right.relatedInformation)

def compareRelatedPairs : List Diagnostic → List Diagnostic → Except E Ordering
  | left :: lefts, right :: rights => do
    let order ← compareDiagnostics left right
    if order ≠ .eq then
      return order
    compareRelatedPairs lefts rights
  | _, _ => .ok .eq

end

end

/-! ## what is in memory -/

/-- the diagnostics that are alive: two of them at one address are one -/
structure Memory where
  Live : Diagnostic → Prop
  one : ∀ a b, Live a → Live b → a.address = b.address → a = b
  chain : ∀ a, Live a → ∀ b ∈ a.messageChain, Live b
  related : ∀ a, Live a → ∀ b ∈ a.relatedInformation, Live b

/-- a reference to one of them -/
abbrev Memory.Ref (memory : Memory) : Type := { d : Diagnostic // memory.Live d }

end Tsr.Ast
