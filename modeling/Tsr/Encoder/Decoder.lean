import Tsr.Encoder.StringTable

/-!
# Decoding a tree

An encoded tree is a header of eleven words, the string table, two sections of node data and the node
table: seven words for each node or list, in preorder.  A node knows its parent and its next sibling.

* `Decoder.new`      checks the header;
* `getString`        the string at an index; `none` is the panic of a slice out of range;
* `children`         the first child follows its parent, the others follow by their links; `none`
                     when the links do not come to an end in `fuel` steps;
* `decode`           builds the nodes from the last to the first.
-/

namespace Tsr.Encoder
open Tsr.Json (Bytes)
open Tsr.Lib.Words

structure Decoder where
  raw : Bytes
  strTable : Nat
  extData : Nat
  nodeOffset : Nat
  nodeCount : Nat
  allStrings : Bytes
deriving DecidableEq

namespace Decoder

def new (raw : Bytes) : Except String Decoder :=
  if raw.length < 44 then
    .error ("data too short for header: " ++ toString raw.length ++ " bytes")
  else
    let version := (raw[3]?.getD 0).toNat
    if version ≠ 8 then
      .error ("unsupported protocol version " ++ toString version ++ " (expected 8)")
    else
      let strTable := readWord raw 24
      let strData := readWord raw 28
      let extData := readWord raw 32
      let nodeOffset := readWord raw 40
      let dataLength := wrap32 raw.length
      if [strTable, strData, extData, nodeOffset].any fun offset => dataLength < offset then
        .error ("invalid AST header offsets: offsets exceed data length (" ++ toString dataLength ++
          ")")
      else if ¬ (strTable ≤ strData ∧ strData ≤ extData ∧ extData ≤ nodeOffset) then
        .error ("invalid AST header offsets: expected strTable <= strData <= extData <= nodeOff (got " ++
          toString strTable ++ ", " ++ toString strData ++ ", " ++ toString extData ++ ", " ++
          toString nodeOffset ++ ")")
      else .ok ⟨raw, strTable, extData, nodeOffset, (raw.length - nodeOffset) / 28, raw.drop strData⟩

variable (d : Decoder)

def nodeField (index field : Nat) : Nat := readWord d.raw (d.nodeOffset + index * 28 + field)

def getString (index : Nat) : Option Bytes :=
  let offset := d.strTable + index * 4
  let start := readWord d.raw offset
  let stop := readWord d.raw (offset + 4)
  if start ≤ stop ∧ stop ≤ d.allStrings.length then some (slice d.allStrings start stop) else none

/-- the siblings from a link on -/
def siblings : Nat → Nat → Option (List Nat)
  | _, 0 => some []
  | 0, _ + 1 => none
  | fuel + 1, next + 1 => (siblings fuel (d.nodeField (next + 1) 12)).map ((next + 1) :: ·)

def children (fuel index : Nat) : Option (List Nat) :=
  let first := index + 1
  if d.nodeCount ≤ first ∨ d.nodeField first 16 ≠ wrap32 index then some []
  else siblings d fuel first

end Decoder

/-! ## from the last node to the first -/

/-- the wire kind of a list -/
def listKind : Nat := 2 ^ 32 - 1

inductive DecodeFailure where
  | noNodes
  | node (index : Nat) (message : String)
  | panic
  | endless
deriving DecidableEq

/-- what has been built: the nodes and lists by their numbers, and the slots of the arena in use -/
structure Built (N L : Type) where
  nodes : List (Option N)
  lists : List (Option L)
  arenaUsed : Nat

/-- the factory of the tree; `create` reads the nodes and lists built so far, and may use slots -/
structure Factory (N L : Type) where
  create : Built N L → NodeKind → Nat → List Nat → Except String (N × Nat)
  setRange : N → Nat → Nat → N
  setFlags : N → Nat → N
  newList : Nat → Nat → List N → L

section
variable {N L : Type} (d : Decoder) (factory : Factory N L) (fuel : Nat)

def decodeRow (built : Built N L) (index : Nat) : Except DecodeFailure (Built N L) :=
  let wireKind := d.nodeField index 0
  let pos := d.nodeField index 4
  let stop := d.nodeField index 8
  let data := d.nodeField index 20
  match d.children fuel index with
  | none => .error .endless
  | some children =>
    if wireKind = listKind then
      if built.arenaUsed + children.length ≤ d.nodeCount ∧ ∀ child ∈ children, child < d.nodeCount then
        let nodes := children.filterMap fun child => built.nodes[child]?.join
        .ok { built with
          lists := built.lists.set index (some (factory.newList pos stop nodes))
          arenaUsed := built.arenaUsed + children.length }
      else .error .panic
    else
      match factory.create built (Int16.ofNat wireKind) data children with
      | .error message => .error (.node index message)
      | .ok (node, arenaUsed) =>
        let node := factory.setFlags (factory.setRange node pos stop) (d.nodeField index 24)
        .ok { built with nodes := built.nodes.set index (some node), arenaUsed := arenaUsed }

/-- the rows behind the first `count`, from the last on -/
def decodeRows (count : Nat) : Except DecodeFailure (Built N L) :=
  (List.range' count (d.nodeCount - count)).reverse.foldlM (decodeRow d factory fuel)
    ⟨List.replicate d.nodeCount none, List.replicate d.nodeCount none, 0⟩

/-- the root of the tree -/
def decode : Except DecodeFailure (Option N) :=
  if d.nodeCount < 2 then .error .noNodes
  else (decodeRows d factory fuel 1).map fun built => built.nodes[1]?.join

end

end Tsr.Encoder
