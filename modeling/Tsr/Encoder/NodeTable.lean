import Tsr.Encoder.Decoder
import Tsr.Encoder.Walk
import Tsr.Lib.Siblings

/-!
# The node table

A row of seven words for each node or list, in the order of the walk.  While the walk goes on, each row
is linked to the one before it under the same parent.

* `NodeTable.add`    a row is written, and the row of the last sibling overwritten in one word;
* `encodeNode`       header, string table, node data and node table;
* `Encodes`          the words of the table: the links of `Lib/Siblings`, and what is written of a tree;
* `encodes_run`      that is so after any number of rows.
-/

namespace Tsr.Encoder
open Tsr.Json (Bytes)
open Tsr.Lib.Words
open Tsr.Lib.Preorder
open Tsr.Lib.Siblings

/-- a signed word of 16 bits as a word of 32 -/
def kindWord (kind : NodeKind) : Nat := (kind.toInt % 2 ^ 32).toNat

/-- the words of a row, before it is linked -/
def Tree.row (t : Tree) (parent : Nat) : List Nat :=
  match t with
  | .node d _ _ => [kindWord d.kind, d.pos, d.stop, 0, parent, d.data, d.flags]
  | .list d elements =>
    [listKind, d.pos, d.stop, 0, parent, elements.length, if d.trailingComma then 1 else 0]

/-- `previous` holds the last child of every number, `0` before there is one -/
structure NodeTable where
  nodes : Bytes
  previous : List Nat

def NodeTable.new : NodeTable := ⟨List.replicate 28 0, [0]⟩

def NodeTable.add (table : NodeTable) (v : Visit) : NodeTable :=
  let (index, parent, t) := v
  let last := table.previous[parent]?.getD 0
  { nodes := (if last ≠ 0 then patchWord table.nodes (last * 28 + 12) index else table.nodes) ++
      words (t.row parent)
    previous := table.previous.set parent index ++ [0] }

def encodeNodes (root : Tree) (source : Bool) : Bytes :=
  ((visits (Walk.new root source)).foldl NodeTable.add NodeTable.new).nodes

/-- what is encoded beside the node table -/
structure Sections where
  hashLo : Nat
  hashHi : Nat
  options : Nat
  strings : StringTable
  extended : Bytes
  structured : Bytes

def Sections.tableOffset : Nat := 44

def Sections.stringOffset (s : Sections) : Nat := Sections.tableOffset + s.strings.offsets.length * 4

def Sections.extendedOffset (s : Sections) : Nat := s.stringOffset + s.strings.stringLength

def Sections.structuredOffset (s : Sections) : Nat := s.extendedOffset + s.extended.length

def Sections.nodeOffset (s : Sections) : Nat := s.structuredOffset + s.structured.length

def Sections.header (s : Sections) : List Nat :=
  [8 * 2 ^ 24, s.hashLo, s.hashLo / 2 ^ 32, s.hashHi, s.hashHi / 2 ^ 32, s.options,
    Sections.tableOffset, s.stringOffset, s.extendedOffset, s.structuredOffset, s.nodeOffset]

def encodeNode (s : Sections) (root : Tree) (source : Bool) : Bytes :=
  words s.header ++ s.strings.encode ++ s.extended ++ s.structured ++ encodeNodes root source

/-! ## the words of the table -/

theorem length_row (t : Tree) (parent : Nat) : (t.row parent).length = 7 := by
  cases t with
  | node => rfl
  | list => rfl

theorem link_row (t : Tree) (parent : Nat) : (t.row parent)[3]? = some 0 := by
  cases t with
  | node => rfl
  | list => rfl

theorem parent_row (t : Tree) (parent : Nat) : (t.row parent)[4]? = some parent := by
  cases t with
  | node => rfl
  | list => rfl

/-- the words of a table that holds some rows -/
structure Encodes (table : NodeTable) (l : Links) (vs : List Visit) (ws : List Nat) : Prop where
  previous : table.previous = l.previous
  nodes : table.nodes = words ws
  length : ws.length = 7 * (vs.length + 1)
  links : ∀ i, i ≤ vs.length → ws[7 * i + 3]? = l.next[i]?
  rows : ∀ k v, vs[k]? = some v → ∀ f, f < 7 → f ≠ 3 → ws[7 * (k + 1) + f]? = (v.2.2.row v.2.1)[f]?

theorem encodes_new : Encodes NodeTable.new Links.start [] (List.replicate 7 0) := by
  refine ⟨rfl, by decide, rfl, ?_, ?_⟩
  · intro i hi
    rw [Nat.le_zero.1 hi]
    rfl
  · intro k v hk
    rw [List.getElem?_nil] at hk
    cases hk

/-- **A row is written.** -/
theorem encodes_add (table : NodeTable) (l : Links) (vs : List Visit) (ws : List Nat) (parent : Nat)
    (t : Tree) (h : Encodes table l vs ws) (hl : Linked l (vs.map (·.2.1)))
    (hparent : parent ≤ vs.length) :
    ∃ ws', Encodes (table.add (vs.length + 1, parent, t)) (l.add (vs.length + 1) parent)
      (vs ++ [(vs.length + 1, parent, t)]) ws' := by
  have hlen := h.length
  have hmap : (vs.map (·.2.1)).length = vs.length := List.length_map _
  have hlast : table.previous[parent]?.getD 0 = l.last parent := by rw [h.previous]; rfl
  have hbound : l.last parent ≤ vs.length := by
    rw [Links.last, hl.last parent (by rw [hmap]; exact hparent), Option.getD_some]
    cases hc : (Forest.childrenOf parent 1 (vs.map (·.2.1))).getLast? with
    | none => exact Nat.zero_le _
    | some x =>
      have := mem_childrenOf_le parent _ x (List.mem_of_getLast? hc)
      rw [hmap] at this
      exact this.2
  -- the words with the link of the last sibling
  let linked := if l.last parent ≠ 0 then ws.set (7 * l.last parent + 3) (vs.length + 1) else ws
  have hlinked : linked.length = ws.length := by
    show (if l.last parent ≠ 0 then _ else _ : List Nat).length = _
    split
    · exact List.length_set
    · rfl
  have hnodes : (table.add (vs.length + 1, parent, t)).nodes = words (linked ++ t.row parent) := by
    show (if table.previous[parent]?.getD 0 ≠ 0 then patchWord table.nodes
      (table.previous[parent]?.getD 0 * 28 + 12) (vs.length + 1) else table.nodes) ++
      words (t.row parent) = _
    rw [words_append, hlast, h.nodes,
      show l.last parent * 28 + 12 = 4 * (7 * l.last parent + 3) by omega]
    refine congrArg (fun x => x ++ words (t.row parent)) ?_
    show _ = words (if l.last parent ≠ 0 then ws.set (7 * l.last parent + 3) (vs.length + 1) else ws)
    split
    · rw [patchWord_words _ _ _ (by omega)]
    · rfl
  have hother : ∀ j, j ≠ 7 * l.last parent + 3 → linked[j]? = ws[j]? := by
    intro j hj
    show (if l.last parent ≠ 0 then ws.set (7 * l.last parent + 3) (vs.length + 1) else ws)[j]? = _
    split
    · rw [List.getElem?_set_ne (by omega)]
    · rfl
  refine ⟨linked ++ t.row parent, ?_, hnodes, ?_, ?_, ?_⟩
  · show table.previous.set parent (vs.length + 1) ++ [0] = l.previous.set parent (vs.length + 1) ++ [0]
    rw [h.previous]
  · rw [List.length_append, hlinked, length_row, hlen, List.length_append, List.length_singleton]
    omega
  · intro i hi
    rw [List.length_append, List.length_singleton] at hi
    show _ = ((if l.last parent ≠ 0 then l.next.set (l.last parent) (vs.length + 1) else l.next) ++
      [0])[i]?
    have hnext : (if l.last parent ≠ 0 then l.next.set (l.last parent) (vs.length + 1)
        else l.next).length = vs.length + 1 := by
      have := hl.length_next
      rw [hmap] at this
      split
      · rw [List.length_set, this]
      · rw [this]
    by_cases hnew : i = vs.length + 1
    · rw [List.getElem?_append_right (by omega), List.getElem?_append_right (by omega), hlinked, hlen,
        hnext, hnew, show 7 * (vs.length + 1) + 3 - 7 * (vs.length + 1) = 3 by omega, link_row,
        Nat.sub_self]
      rfl
    · rw [List.getElem?_append_left (by omega), List.getElem?_append_left (by omega)]
      show (if l.last parent ≠ 0 then ws.set (7 * l.last parent + 3) (vs.length + 1)
        else ws)[7 * i + 3]? = _
      have hold := h.links i (by omega)
      by_cases hzero : l.last parent ≠ 0
      · rw [if_pos hzero, if_pos hzero, List.getElem?_set, List.getElem?_set]
        have hnl := hl.length_next
        rw [hmap] at hnl
        by_cases hi' : l.last parent = i
        · rw [if_pos (by omega), if_pos (by omega), if_pos hi', if_pos (by omega)]
        · rw [if_neg (by omega), if_neg hi', hold]
      · rw [if_neg hzero, if_neg hzero, hold]
  · intro k v hk f hf hne
    by_cases hnew : k < vs.length
    · rw [List.getElem?_append_left hnew] at hk
      rw [List.getElem?_append_left (by omega), hother _ (by omega), h.rows k v hk f hf hne]
    · rw [List.getElem?_append_right (by omega)] at hk
      have hk0 : k - vs.length = 0 := by
        obtain ⟨hlt, -⟩ := List.getElem?_eq_some_iff.1 hk
        rw [List.length_singleton] at hlt
        omega
      rw [hk0] at hk
      cases hk
      rw [List.getElem?_append_right (by omega), hlinked, hlen]
      congr 1
      omega

/-- **The table after any number of rows.** -/
theorem encodes_run (table : NodeTable) (l : Links) (us vs : List Visit) (ws : List Nat)
    (h : Encodes table l us ws) (hl : Linked l (us.map (·.2.1)))
    (hindex : vs.map (·.1) = List.range' (us.length + 1) vs.length)
    (hparents : ∀ k p, (vs.map (·.2.1))[k]? = some p → p ≤ us.length + k) :
    ∃ ws', Encodes (vs.foldl NodeTable.add table) (l.addAll (us.length + 1) (vs.map (·.2.1)))
      (us ++ vs) ws' := by
  induction vs generalizing table l us ws with
  | nil =>
    rw [List.append_nil]
    exact ⟨ws, h⟩
  | cons v vs ih =>
    obtain ⟨index, parent, t⟩ := v
    rw [List.map_cons, List.length_cons, List.range'_succ] at hindex
    obtain ⟨hhead, htail⟩ := List.cons.inj hindex
    have hhead : index = us.length + 1 := hhead
    subst hhead
    have hp : parent ≤ us.length := hparents 0 parent rfl
    obtain ⟨ws1, hadd⟩ := encodes_add table l us ws parent t h hl hp
    have hlinked : Linked (l.add (us.length + 1) parent)
        ((us ++ [(us.length + 1, parent, t)]).map (·.2.1)) := by
      have := linked_add l _ parent hl (by rw [List.length_map]; exact hp)
      rw [List.length_map] at this
      rw [List.map_append]
      exact this
    have hlen : (us ++ [(us.length + 1, parent, t)]).length = us.length + 1 := List.length_append
    obtain ⟨ws2, hrun⟩ := ih _ _ _ ws1 hadd hlinked (by rw [hlen]; exact htail) (by
      intro k p hk
      rw [hlen]
      have := hparents (k + 1) p hk
      omega)
    rw [hlen, List.append_assoc] at hrun
    exact ⟨ws2, hrun⟩

end Tsr.Encoder
