import Tsr.Encoder.NodeTable

/-!
# The decoder finds the tree

* `header_read`       the decoder accepts an encoding below `2^32` bytes, and finds its parts;
* `field_read`        it reads the words of the node table;
* `children_read`     it finds the children of a node by the links;
* `decodeRows_built`  what lies behind a number has been built before it;
* `decode_reads_tree` all that, for every tree whose encoding is below `2^32` bytes;
* `wideTree_rejected` a tree whose encoding is not.
-/

namespace Tsr.Encoder
open Tsr.Json (Bytes)
open Tsr.Lib.Words
open Tsr.Lib.Preorder
open Tsr.Lib.Siblings

/-! ## the encoding of a tree -/

/-- the trees in the order in which they are written -/
def written (root : Tree) (source : Bool) : List Tree := (forest source [root]).nodes.map (·.1)

/-- the numbers of the parents, in that order -/
def parentsOf (root : Tree) (source : Bool) : List Nat := (forest source [root]).parents 0 1

theorem length_written (root : Tree) (source : Bool) :
    (written root source).length = (forest source [root]).size := by
  rw [written, List.length_map, Forest.length_nodes]

theorem parentsOf_le (root : Tree) (source : Bool) (k p : Nat)
    (h : (parentsOf root source)[k]? = some p) : p ≤ k := by
  have := Forest.parent_lt (forest source [root]) 0 1 (by omega) k p h
  omega

/-- the words of an encoded tree -/
structure Table (root : Tree) (source : Bool) (ws : List Nat) (l : Links) : Prop where
  nodes : encodeNodes root source = words ws
  length : ws.length = 7 * ((written root source).length + 1)
  linked : Linked l (parentsOf root source)
  links : ∀ i, i ≤ (written root source).length → ws[7 * i + 3]? = l.next[i]?
  rows : ∀ (k : Nat) (t : Tree) (parent : Nat), (written root source)[k]? = some t →
    (parentsOf root source)[k]? = some parent → ∀ f, f < 7 → f ≠ 3 →
      ws[7 * (k + 1) + f]? = (t.row parent)[f]?

/-- **The table of a tree.** -/
theorem table_of (root : Tree) (source : Bool) (hsize : (written root source).length < 2 ^ 32) :
    ∃ ws l, Table root source ws l := by
  rw [length_written] at hsize
  have hvisits := visits_eq root source hsize
  have hindex := index_numbered 0 1 (forest source [root])
  have hmap := map_numbered 0 1 (forest source [root])
  have hlen : (numbered 0 1 (forest source [root])).length = (forest source [root]).size := by
    rw [← List.length_map (f := fun v : Visit => v.1), hindex, List.length_range']
  have hpairs : (parentsOf root source).length = (written root source).length := by
    rw [parentsOf, Forest.length_parents, length_written]
  have hparents : (numbered 0 1 (forest source [root])).map (·.2.1) = parentsOf root source := by
    have := congrArg (List.map Prod.fst) hmap
    rw [List.map_map, List.map_fst_zip] at this
    · exact this
    · rw [List.length_map, Forest.length_parents, Forest.length_nodes]
  have htrees : (numbered 0 1 (forest source [root])).map (·.2.2) = written root source := by
    have := congrArg (List.map Prod.snd) hmap
    rw [List.map_map, List.map_snd_zip] at this
    · exact this
    · rw [List.length_map, Forest.length_parents, Forest.length_nodes]
  have hbound : ∀ k p, ((numbered 0 1 (forest source [root])).map (·.2.1))[k]? = some p →
      p ≤ ([] : List Visit).length + k := by
    intro k p hk
    rw [hparents] at hk
    have := parentsOf_le root source k p hk
    simpa using this
  obtain ⟨ws, hrun⟩ := encodes_run NodeTable.new Links.start [] _ _ encodes_new linked_start
    (by rw [hindex, hlen]; rfl) hbound
  have hlinked := linked_of Links.start [] _ linked_start hbound
  rw [List.nil_append, hparents] at hlinked
  rw [List.nil_append] at hrun
  refine ⟨ws, _, ?_, ?_, hlinked, ?_, ?_⟩
  · rw [encodeNodes, hvisits]
    exact hrun.nodes
  · rw [hrun.length, hlen, length_written]
  · intro i hi
    rw [length_written, ← hlen] at hi
    rw [hrun.links i hi, hparents]
    rfl
  · intro k t parent ht hp f hf hne
    have hk : k < (numbered 0 1 (forest source [root])).length := by
      obtain ⟨hlt, -⟩ := List.getElem?_eq_some_iff.1 ht
      rw [length_written] at hlt
      omega
    have hrow := hrun.rows k _ (List.getElem?_eq_getElem hk) f hf hne
    rw [← htrees, List.getElem?_map, List.getElem?_eq_getElem hk] at ht
    rw [← hparents, List.getElem?_map, List.getElem?_eq_getElem hk] at hp
    have ht := Option.some.inj ht
    have hp := Option.some.inj hp
    subst ht hp
    exact hrow

/-! ## the header -/

theorem length_encodeNode (s : Sections) (root : Tree) (source : Bool) :
    (encodeNode s root source).length = s.nodeOffset + (encodeNodes root source).length := by
  rw [encodeNode, List.length_append, List.length_append, List.length_append, List.length_append,
    length_words, StringTable.length_encode, StringTable.encodedLength, Sections.nodeOffset,
    Sections.structuredOffset, Sections.extendedOffset, Sections.stringOffset, Sections.tableOffset]
  show 4 * 11 + _ + _ + _ + _ = _
  omega

/-- the decoder of an encoding -/
def decoderOf (s : Sections) (root : Tree) (source : Bool) : Decoder :=
  { raw := encodeNode s root source
    strTable := Sections.tableOffset
    extData := s.extendedOffset
    nodeOffset := s.nodeOffset
    nodeCount := (encodeNodes root source).length / 28
    allStrings := (encodeNode s root source).drop s.stringOffset }

/-- what follows the header -/
theorem encodeNode_eq (s : Sections) (root : Tree) (source : Bool) : encodeNode s root source =
    words s.header ++ (s.strings.encode ++ s.extended ++ s.structured ++ encodeNodes root source) := by
  rw [encodeNode]
  simp only [List.append_assoc]

theorem readWord_header (s : Sections) (root : Tree) (source : Bool) (k value : Nat)
    (hk : s.header[k]? = some value) (hvalue : value < 2 ^ 32) :
    readWord (encodeNode s root source) (4 * k) = value := by
  obtain ⟨hlt, hget⟩ := List.getElem?_eq_some_iff.1 hk
  rw [encodeNode_eq, readWord_front _ _ _ hlt, hget, Nat.mod_eq_of_lt hvalue]

theorem version_encodeNode (s : Sections) (root : Tree) (source : Bool) :
    (encodeNode s root source)[3]? = some 8 := by
  have hversion : Tsr.Lib.Bytes.le 4 (8 * 2 ^ 24) = [0, 0, 0, 8] := by decide
  rw [encodeNode_eq, Sections.header, words_cons, hversion]
  rfl

/-- **The decoder accepts an encoding below `2^32` bytes.** -/
theorem header_read (s : Sections) (root : Tree) (source : Bool)
    (hsize : (encodeNode s root source).length < 2 ^ 32) :
    Decoder.new (encodeNode s root source) = .ok (decoderOf s root source) := by
  have hlen := length_encodeNode s root source
  have h1 : Sections.tableOffset ≤ s.stringOffset := Nat.le_add_right _ _
  have h2 : s.stringOffset ≤ s.extendedOffset := Nat.le_add_right _ _
  have h3 : s.extendedOffset ≤ s.structuredOffset := Nat.le_add_right _ _
  have h4 : s.structuredOffset ≤ s.nodeOffset := Nat.le_add_right _ _
  have h0 : Sections.tableOffset = 44 := rfl
  have r24 : readWord (encodeNode s root source) 24 = Sections.tableOffset :=
    readWord_header s root source 6 _ rfl (by omega)
  have r28 : readWord (encodeNode s root source) 28 = s.stringOffset :=
    readWord_header s root source 7 _ rfl (by omega)
  have r32 : readWord (encodeNode s root source) 32 = s.extendedOffset :=
    readWord_header s root source 8 _ rfl (by omega)
  have r40 : readWord (encodeNode s root source) 40 = s.nodeOffset :=
    readWord_header s root source 10 _ rfl (by omega)
  have hdata : wrap32 (encodeNode s root source).length = (encodeNode s root source).length :=
    wrap32_of_lt hsize
  unfold Decoder.new
  rw [if_neg (by omega), version_encodeNode]
  simp only [r24, r28, r32, r40, hdata]
  rw [if_neg (by decide), if_neg, if_neg (by omega), decoderOf, hlen, Nat.add_sub_cancel_left]
  intro hany
  obtain ⟨offset, hmem, hlt⟩ := List.any_eq_true.1 hany
  rw [decide_eq_true_eq] at hlt
  simp only [List.mem_cons, List.not_mem_nil, or_false] at hmem
  rcases hmem with rfl | rfl | rfl | rfl <;> omega

/-! ## the rows -/

section
variable (s : Sections) (root : Tree) (source : Bool) {ws : List Nat} {l : Links}

/-- a word of the node table -/
theorem field_read (h : Table root source ws l) (index field value : Nat)
    (hvalue : ws[7 * index + field]? = some value) :
    (decoderOf s root source).nodeField index (4 * field) = value % 2 ^ 32 := by
  obtain ⟨hlt, hget⟩ := List.getElem?_eq_some_iff.1 hvalue
  have hfront : (words s.header ++ s.strings.encode ++ s.extended ++ s.structured).length =
      s.nodeOffset := by
    have h1 := length_encodeNode s root source
    rw [encodeNode, List.length_append] at h1
    omega
  have hword := readWord_words (words s.header ++ s.strings.encode ++ s.extended ++ s.structured) []
    ws (7 * index + field) hlt
  rw [List.append_nil, ← h.nodes, hfront, hget] at hword
  rw [← hword]
  show readWord (encodeNode s root source) (s.nodeOffset + index * 28 + 4 * field) = _
  rw [show s.nodeOffset + index * 28 + 4 * field = s.nodeOffset + 4 * (7 * index + field) by omega]
  rfl

theorem nodeCount_decoderOf (h : Table root source ws l) :
    (decoderOf s root source).nodeCount = (written root source).length + 1 := by
  show (encodeNodes root source).length / 28 = _
  rw [h.nodes, length_words, h.length]
  omega

/-- what is written of a tree, its link and its parent apart -/
theorem row_read (h : Table root source ws l) (k : Nat) (t : Tree)
    (ht : (written root source)[k]? = some t) (field word : Nat) (hfield : field < 7)
    (hlink : field ≠ 3) (hparent : field ≠ 4) (hword : (t.row 0)[field]? = some word) :
    (decoderOf s root source).nodeField (k + 1) (4 * field) = word % 2 ^ 32 := by
  obtain ⟨hlt, -⟩ := List.getElem?_eq_some_iff.1 ht
  have hk : k < (parentsOf root source).length := by
    rw [parentsOf, Forest.length_parents, ← length_written]
    exact hlt
  have hrow := h.rows k t _ ht (List.getElem?_eq_getElem hk) field hfield hlink
  have hsame : (t.row (parentsOf root source)[k])[field]? = (t.row 0)[field]? := by
    cases t with
    | node d cs docs =>
      show ([_, _, _, _, _, _, _] : List Nat)[field]? = ([_, _, _, _, _, _, _] : List Nat)[field]?
      rcases field with _ | _ | _ | _ | _ | field <;> first | rfl | omega
    | list d elements =>
      show ([_, _, _, _, _, _, _] : List Nat)[field]? = ([_, _, _, _, _, _, _] : List Nat)[field]?
      rcases field with _ | _ | _ | _ | _ | field <;> first | rfl | omega
  exact field_read s root source h (k + 1) field word (hrow.trans (hsame.trans hword))

/-- the links lead through a chain -/
theorem siblings_of_chain (h : Table root source ws l) (hsize : (written root source).length < 2 ^ 32)
    (j : Nat) (js : List Nat) (hmem : ∀ x ∈ j :: js, 1 ≤ x ∧ x ≤ (written root source).length)
    (hchain : Chain l.next (j :: js)) (fuel : Nat) (hfuel : js.length < fuel) :
    (decoderOf s root source).siblings fuel j = some (j :: js) := by
  have hlink : ∀ x value, 1 ≤ x ∧ x ≤ (written root source).length → l.next[x]? = some value →
      value < 2 ^ 32 → (decoderOf s root source).nodeField x 12 = value := by
    intro x value hx hvalue hlt
    have := field_read s root source h x 3 value ((h.links x hx.2).trans hvalue)
    rw [Nat.mod_eq_of_lt hlt] at this
    exact this
  induction js generalizing j fuel with
  | nil =>
    obtain ⟨fuel, rfl⟩ : ∃ n, fuel = n + 1 := ⟨fuel - 1, by
      have : 0 < fuel := hfuel
      omega⟩
    obtain ⟨j, rfl⟩ : ∃ n, j = n + 1 := ⟨j - 1, by
      have := hmem j List.mem_cons_self
      omega⟩
    have hzero := hlink (j + 1) 0 (hmem _ List.mem_cons_self) hchain (by omega)
    rw [Decoder.siblings, hzero]
    cases fuel with
    | zero => rfl
    | succ fuel => rfl
  | cons k js ih =>
    obtain ⟨fuel, rfl⟩ : ∃ n, fuel = n + 1 := ⟨fuel - 1, by
      rw [List.length_cons] at hfuel
      omega⟩
    obtain ⟨j, rfl⟩ : ∃ n, j = n + 1 := ⟨j - 1, by
      have := hmem j List.mem_cons_self
      omega⟩
    have hk := hmem k (List.mem_cons_of_mem _ List.mem_cons_self)
    have hnext := hlink (j + 1) k (hmem _ List.mem_cons_self) hchain.1 (by omega)
    have hrest := ih k (fun x hx => hmem x (List.mem_cons_of_mem _ hx)) hchain.2 fuel (by
      rw [List.length_cons] at hfuel
      omega)
    rw [Decoder.siblings, hnext, hrest]
    rfl

/-- where the ordered children of the tree at a number stand -/
theorem childrenOf_written (k : Nat) (t : Tree) (ht : (written root source)[k]? = some t) :
    Forest.childrenOf (k + 1) 1 (parentsOf root source) =
      (forest source (t.ordered source)).roots (k + 2) := by
  rw [written, List.getElem?_map, Option.map_eq_some_iff] at ht
  obtain ⟨⟨u, below⟩, hget, rfl⟩ := ht
  have hbelow := nodes_forest source [root] u below (List.mem_of_getElem? hget)
  subst hbelow
  have := Forest.childrenOf_parents (forest source [root]) 0 1 (by omega) k u _ hget
  rw [Nat.add_comm 1 k] at this
  exact this

/-- **The children of a node are found by the links.** -/
theorem children_read (h : Table root source ws l) (hsize : (written root source).length < 2 ^ 32)
    (k : Nat) (t : Tree) (ht : (written root source)[k]? = some t) (fuel : Nat)
    (hfuel : (written root source).length < fuel) :
    (decoderOf s root source).children fuel (k + 1) =
      some ((forest source (t.ordered source)).roots (k + 2)) := by
  obtain ⟨hlt, -⟩ := List.getElem?_eq_some_iff.1 ht
  have hps : (parentsOf root source).length = (written root source).length := by
    rw [parentsOf, Forest.length_parents, length_written]
  have hcount := nodeCount_decoderOf s root source h
  have hroots := childrenOf_written root source k t ht
  -- the next number is a child exactly if it says so
  have hfirst : k + 2 ∈ Forest.childrenOf (k + 1) 1 (parentsOf root source) ↔
      ¬ ((decoderOf s root source).nodeCount ≤ k + 1 + 1 ∨
        (decoderOf s root source).nodeField (k + 1 + 1) 16 ≠ wrap32 (k + 1)) := by
    rw [Forest.mem_childrenOf, hcount, wrap32_of_lt (by omega)]
    by_cases hin : k + 1 < (written root source).length
    · have hp : k + 1 < (parentsOf root source).length := by omega
      have hbound := parentsOf_le root source (k + 1) _ (List.getElem?_eq_getElem hp)
      have hword : (decoderOf s root source).nodeField (k + 1 + 1) 16 =
          (parentsOf root source)[k + 1] := by
        have hrow := h.rows (k + 1) _ _ (List.getElem?_eq_getElem hin) (List.getElem?_eq_getElem hp) 4
          (by omega) (by omega)
        have := field_read s root source h (k + 1 + 1) 4 _ (hrow.trans (parent_row _ _))
        rw [Nat.mod_eq_of_lt (by omega)] at this
        exact this
      rw [hword]
      constructor
      · intro hex
        obtain ⟨m, hm, hnum⟩ := hex
        have hmk : m = k + 1 := by omega
        subst hmk
        rw [List.getElem?_eq_getElem hp] at hm
        rw [not_or]
        exact ⟨by omega, not_not.2 (Option.some.inj hm)⟩
      · intro hnot
        rw [not_or] at hnot
        exact ⟨k + 1, by rw [List.getElem?_eq_getElem hp, not_not.1 hnot.2], by omega⟩
    · constructor
      · intro hex
        obtain ⟨m, hm, hnum⟩ := hex
        obtain ⟨hm', -⟩ := List.getElem?_eq_some_iff.1 hm
        omega
      · intro hnot
        rw [not_or] at hnot
        omega
  unfold Decoder.children
  simp only
  cases hshape : forest source (t.ordered source) with
  | nil =>
    rw [hshape, Forest.roots] at hroots
    rw [hroots] at hfirst
    rw [if_pos (by
      by_contra hnot
      exact absurd (hfirst.2 hnot) List.not_mem_nil)]
    rfl
  | cons u below rest =>
    rw [hshape, Forest.roots] at hroots
    rw [hroots] at hfirst
    have hmem : ∀ x ∈ (k + 2) :: rest.roots (k + 2 + 1 + below.size),
        1 ≤ x ∧ x ≤ (written root source).length := by
      intro x hx
      rw [← hroots] at hx
      have := mem_childrenOf_le (k + 1) _ x hx
      omega
    have hchain := h.linked.chain (k + 1)
    rw [hroots] at hchain
    have hnodup : ((k + 2) :: rest.roots (k + 2 + 1 + below.size)).Nodup := by
      rw [← hroots]
      exact (pairwise_childrenOf (k + 1) 1 _).imp fun hlt => Nat.ne_of_lt hlt
    have hshort : ((k + 2) :: rest.roots (k + 2 + 1 + below.size)).length ≤
        (written root source).length := by
      have hsub : (k + 2) :: rest.roots (k + 2 + 1 + below.size) ⊆
          List.range' 1 (written root source).length := by
        intro x hx
        have := hmem x hx
        rw [List.mem_range'_1]
        omega
      have := (List.subperm_of_subset hnodup hsub).length_le
      rwa [List.length_range'] at this
    rw [List.length_cons] at hshort
    rw [if_neg (hfirst.1 List.mem_cons_self), Forest.roots]
    exact siblings_of_chain s root source h hsize (k + 2) _ hmem hchain fuel (by omega)

end

/-! ## from the last node to the first -/

section
variable {N L : Type} (d : Decoder) (factory : Factory N L) (fuel : Nat)

/-- what the row of a number asks for has been built -/
def Built.Has (built : Built N L) (index : Nat) : Prop :=
  if d.nodeField index 0 = listKind then (built.lists[index]?.join).isSome = true
  else (built.nodes[index]?.join).isSome = true

theorem join_set {α : Type} (xs : List (Option α)) (i j : Nat) (x : α)
    (h : (xs[j]?.join).isSome = true) : ((xs.set i (some x))[j]?.join).isSome = true := by
  rw [List.getElem?_set]
  split
  · next hij =>
    have hlt : i < xs.length := by
      by_contra hout
      rw [← hij, List.getElem?_eq_none (Nat.le_of_not_lt hout)] at h
      cases h
    rw [if_pos hlt]
    rfl
  · exact h

theorem join_set_self {α : Type} (xs : List (Option α)) (i : Nat) (x : α) (hi : i < xs.length) :
    ((xs.set i (some x))[i]?.join).isSome = true := by
  rw [List.getElem?_set_self hi]
  rfl

/-- a row is built, and the others stay -/
theorem decodeRow_built (built built' : Built N L) (index : Nat)
    (hstep : decodeRow d factory fuel built index = .ok built')
    (hnodes : index < built.nodes.length) (hlists : index < built.lists.length) :
    built'.nodes.length = built.nodes.length ∧ built'.lists.length = built.lists.length ∧
    built'.Has d index ∧ ∀ j, built.Has d j → built'.Has d j := by
  unfold decodeRow at hstep
  simp only at hstep
  cases hc : d.children fuel index with
  | none =>
    rw [hc] at hstep
    cases hstep
  | some children =>
    rw [hc] at hstep
    by_cases hlist : d.nodeField index 0 = listKind
    · simp only [if_pos hlist] at hstep
      split at hstep
      · cases hstep
        refine ⟨rfl, List.length_set, ?_, ?_⟩
        · unfold Built.Has
          rw [if_pos hlist]
          exact join_set_self _ _ _ hlists
        · intro j hj
          unfold Built.Has at hj ⊢
          split
          · next hk =>
            rw [if_pos hk] at hj
            exact join_set _ _ _ _ hj
          · next hk =>
            rw [if_neg hk] at hj
            exact hj
      · cases hstep
    · simp only [if_neg hlist] at hstep
      cases hmake : factory.create built (Int16.ofNat (d.nodeField index 0)) (d.nodeField index 20)
          children with
      | error message =>
        rw [hmake] at hstep
        cases hstep
      | ok made =>
        rw [hmake] at hstep
        cases hstep
        refine ⟨List.length_set, rfl, ?_, ?_⟩
        · unfold Built.Has
          rw [if_neg hlist]
          exact join_set_self _ _ _ hnodes
        · intro j hj
          unfold Built.Has at hj ⊢
          split
          · next hk =>
            rw [if_pos hk] at hj
            exact hj
          · next hk =>
            rw [if_neg hk] at hj
            exact join_set _ _ _ _ hj

/-- **What lies behind a number has been built before it.** -/
theorem decodeRows_built (count : Nat) (hcount : count ≤ d.nodeCount) (built : Built N L)
    (h : decodeRows d factory fuel count = .ok built) :
    built.nodes.length = d.nodeCount ∧ built.lists.length = d.nodeCount ∧
    ∀ j, count ≤ j → j < d.nodeCount → built.Has d j := by
  obtain ⟨m, hm⟩ : ∃ m, d.nodeCount = count + m := ⟨d.nodeCount - count, by omega⟩
  induction m generalizing count built with
  | zero =>
    rw [decodeRows, hm, Nat.add_zero, Nat.sub_self] at h
    cases h
    refine ⟨?_, ?_, ?_⟩
    · rw [List.length_replicate, hm, Nat.add_zero]
    · rw [List.length_replicate, hm, Nat.add_zero]
    · intro j hj hj'
      omega
  | succ m ih =>
    have hrange : List.range' count (d.nodeCount - count) =
        count :: List.range' (count + 1) (d.nodeCount - (count + 1)) := by
      rw [show d.nodeCount - count = (d.nodeCount - (count + 1)) + 1 by omega, List.range'_succ]
    rw [decodeRows, hrange, List.reverse_cons, List.foldlM_append] at h
    obtain ⟨mid, hmid, hlast⟩ : ∃ mid, decodeRows d factory fuel (count + 1) = .ok mid ∧
        decodeRow d factory fuel mid count = .ok built := by
      rw [← decodeRows] at h
      cases hmid : decodeRows d factory fuel (count + 1) with
      | error e =>
        rw [hmid] at h
        cases h
      | ok mid =>
        rw [hmid] at h
        refine ⟨mid, rfl, ?_⟩
        cases hrow : decodeRow d factory fuel mid count with
        | error e =>
          simp only [bind, Except.bind, List.foldlM_cons, hrow] at h
          cases h
        | ok built' =>
          simp only [bind, Except.bind, List.foldlM_cons, List.foldlM_nil, hrow, pure,
            Except.pure] at h
          exact h
    obtain ⟨hnodes, hlists, hhas⟩ := ih (count + 1) (by omega) mid hmid (by omega)
    obtain ⟨h1, h2, h3, h4⟩ := decodeRow_built d factory fuel mid built count hlast (by omega)
      (by omega)
    refine ⟨h1.trans hnodes, h2.trans hlists, ?_⟩
    intro j hj hj'
    by_cases heq : j = count
    · rw [heq]
      exact h3
    · exact h4 j (hhas j (by omega) hj')

end

/-! ## the whole tree -/

/-- header, strings, node data, and 28 bytes for each node or list and for the empty row -/
def encodedSize (s : Sections) (root : Tree) (source : Bool) : Nat :=
  s.nodeOffset + 28 * ((written root source).length + 1)

theorem encodedSize_eq (s : Sections) (root : Tree) (source : Bool) (ws : List Nat) (l : Links)
    (h : Table root source ws l) : (encodeNode s root source).length = encodedSize s root source := by
  rw [length_encodeNode, h.nodes, length_words, h.length, encodedSize]
  omega

/-- the walk writes the trees in preorder, each at the next number -/
theorem visits_written (root : Tree) (source : Bool) (hsize : (written root source).length < 2 ^ 32) :
    (visits (Walk.new root source)).map (fun v => (v.1, v.2.2)) =
      (List.range' 1 (written root source).length).zip (written root source) := by
  rw [length_written] at hsize ⊢
  have hindex := index_numbered 0 1 (forest source [root])
  have hmap := map_numbered 0 1 (forest source [root])
  have htrees : (numbered 0 1 (forest source [root])).map (·.2.2) = written root source := by
    have := congrArg (List.map Prod.snd) hmap
    rw [List.map_map, List.map_snd_zip] at this
    · exact this
    · rw [List.length_map, Forest.length_parents, Forest.length_nodes]
  rw [visits_eq root source hsize, ← hindex, ← htrees, List.zip_map']

/-- the decoder finds a tree -/
structure ReadsTree (d : Decoder) (root : Tree) (source : Bool) : Prop where
  /-- a row for every node and list -/
  count : d.nodeCount = (written root source).length + 1
  /-- with what is written of it -/
  row : ∀ (k : Nat) (t : Tree), (written root source)[k]? = some t →
    ∀ field word, field < 7 → field ≠ 3 → field ≠ 4 → (t.row 0)[field]? = some word →
      d.nodeField (k + 1) (4 * field) = word % 2 ^ 32
  /-- its ordered children are found, each where it stands -/
  children : ∀ (k : Nat) (t : Tree), (written root source)[k]? = some t →
    (∀ fuel, (written root source).length < fuel → d.children fuel (k + 1) =
      some ((forest source (t.ordered source)).roots (k + 2))) ∧
    ((forest source (t.ordered source)).roots (k + 2)).map (fun j => (written root source)[j - 1]?) =
      (t.ordered source).map some
  /-- they have been built before it -/
  built : ∀ (N L : Type) (factory : Factory N L) (fuel k : Nat) (t : Tree),
    (written root source)[k]? = some t →
    ∀ built : Built N L, decodeRows d factory fuel (k + 2) = .ok built →
      ∀ c ∈ (forest source (t.ordered source)).roots (k + 2), ∀ u,
        (written root source)[c - 1]? = some u →
        match u with
        | .list _ _ => (built.lists[c]?.join).isSome = true
        | .node data _ _ => if data.kind = -1 then (built.lists[c]?.join).isSome = true
          else (built.nodes[c]?.join).isSome = true

theorem kindWord_listKind (kind : NodeKind) : kindWord kind = listKind ↔ kind = -1 := by
  rw [kindWord, listKind, ← Int16.toInt_inj]
  have h1 := Int16.le_toInt kind
  have h2 := Int16.toInt_lt kind
  have h3 : (-1 : Int16).toInt = -1 := by decide
  rw [h3]
  omega

theorem kindWord_lt (kind : NodeKind) : kindWord kind < 2 ^ 32 := by
  rw [kindWord]
  omega

/-- the children of the tree at a number -/
theorem roots_written (root : Tree) (source : Bool) (k : Nat) (t : Tree)
    (ht : (written root source)[k]? = some t) :
    ((forest source (t.ordered source)).roots (k + 2)).map (fun j => (written root source)[j - 1]?) =
      (t.ordered source).map some := by
  rw [written, List.getElem?_map, Option.map_eq_some_iff] at ht
  obtain ⟨⟨u, below⟩, hget, rfl⟩ := ht
  have hbelow := nodes_forest source [root] u below (List.mem_of_getElem? hget)
  subst hbelow
  have hlevel := Forest.nodes_roots (forest source (u.ordered source)) (k + 2)
  rw [level_forest, List.map_map] at hlevel
  have hlabels := congrArg (List.map (Option.map Prod.fst)) hlevel
  rw [List.map_map, List.map_map] at hlabels
  refine Eq.trans (List.map_congr_left ?_) hlabels
  intro j hj
  obtain ⟨m, hm, rfl⟩ : ∃ m, m < (forest source (u.ordered source)).size ∧ j = k + 2 + m := by
    have hmem : j ∈ Forest.childrenOf 0 (k + 2) ((forest source (u.ordered source)).parents 0 (k + 2)) := by
      rw [Forest.childrenOf_of_lt _ 0 (k + 2) 0 (by omega), if_pos rfl]
      exact hj
    obtain ⟨m, hm, hjm⟩ := (Forest.mem_childrenOf 0 (k + 2) _ j).1 hmem
    obtain ⟨hlt, -⟩ := List.getElem?_eq_some_iff.1 hm
    rw [Forest.length_parents] at hlt
    exact ⟨m, hlt, hjm⟩
  have hnodes := Forest.nodes_below (forest source [root]) k u _ hget m hm
  show ((forest source [root]).nodes.map (·.1))[k + 2 + m - 1]? =
    ((forest source (u.ordered source)).nodes[k + 2 + m - (k + 2)]?).map Prod.fst
  rw [List.getElem?_map, show k + 2 + m - 1 = k + 1 + m by omega, hnodes,
    show k + 2 + m - (k + 2) = m by omega]

theorem mem_roots (root : Tree) (source : Bool) (k : Nat) (t : Tree)
    (ht : (written root source)[k]? = some t) (c : Nat)
    (hc : c ∈ (forest source (t.ordered source)).roots (k + 2)) :
    k + 2 ≤ c ∧ c ≤ (written root source).length := by
  rw [← childrenOf_written root source k t ht] at hc
  obtain ⟨m, hm, rfl⟩ := (Forest.mem_childrenOf (k + 1) 1 _ c).1 hc
  obtain ⟨hlt, -⟩ := List.getElem?_eq_some_iff.1 hm
  have := parentsOf_le root source m _ hm
  rw [parentsOf, Forest.length_parents, ← length_written] at hlt
  omega

/-- **The decoder finds every tree whose encoding is below `2^32` bytes**, and builds it from below. -/
theorem decode_reads_tree (s : Sections) (root : Tree) (source : Bool)
    (hsize : encodedSize s root source < 2 ^ 32) :
    ∃ d, Decoder.new (encodeNode s root source) = .ok d ∧ ReadsTree d root source ∧
      (visits (Walk.new root source)).map (fun v => (v.1, v.2.2)) =
        (List.range' 1 (written root source).length).zip (written root source) := by
  have hcount : (written root source).length < 2 ^ 32 := by
    rw [encodedSize] at hsize
    omega
  obtain ⟨ws, l, h⟩ := table_of root source hcount
  have hlen := encodedSize_eq s root source ws l h
  have hnodes := nodeCount_decoderOf s root source h
  refine ⟨decoderOf s root source, header_read s root source (by omega), ⟨hnodes, ?_, ?_, ?_⟩,
    visits_written root source hcount⟩
  · intro k t ht field word h1 h2 h3 h4
    exact row_read s root source h k t ht field word h1 h2 h3 h4
  · intro k t ht
    exact ⟨children_read s root source h hcount k t ht, roots_written root source k t ht⟩
  · intro N L factory fuel k t ht built hbuilt c hc u hu
    obtain ⟨hlow, hhigh⟩ := mem_roots root source k t ht c hc
    obtain ⟨-, -, hhas⟩ := decodeRows_built (decoderOf s root source) factory fuel (k + 2) (by omega)
      built hbuilt
    have hc' := hhas c hlow (by omega)
    have hkind := row_read s root source h (c - 1) u hu 0
    rw [show c - 1 + 1 = c by omega] at hkind
    unfold Built.Has at hc'
    cases u with
    | list data elements =>
      rw [hkind listKind (by omega) (by omega) (by omega) rfl,
        if_pos (Nat.mod_eq_of_lt (by rw [listKind]; omega))] at hc'
      exact hc'
    | node data cs docs =>
      rw [hkind (kindWord data.kind) (by omega) (by omega) (by omega) rfl,
        Nat.mod_eq_of_lt (kindWord_lt data.kind)] at hc'
      simp only [kindWord_listKind] at hc'
      exact hc'

def emptySections : Sections := ⟨0, 0, 0, StringTable.start [], [], []⟩

def emptyStatement : Tree := .node ⟨243, 0, 0, 0, 0⟩ [] []

/-- a comment, attached to a block, with a comment of its own; the block's list misses an element -/
def commentedBlock : Tree :=
  .node ⟨242, 0, 9, 1, 0⟩ [.list ⟨1, 8, true⟩ [some emptyStatement, none, some emptyStatement]]
    [.node ⟨320, 0, 4, 0, 0⟩ [.list ⟨0, 0, false⟩ []] [.node ⟨320, 1, 2, 0, 0⟩ [] []]]

theorem decode_reads_commentedBlock :
    ∃ d, Decoder.new (encodeNode emptySections commentedBlock true) = .ok d ∧
      ReadsTree d commentedBlock true ∧
      (visits (Walk.new commentedBlock true)).map (fun v => (v.1, v.2.2)) =
        (List.range' 1 (written commentedBlock true).length).zip (written commentedBlock true) := by
  have hcount : (written commentedBlock true).length = 7 := by
    rw [length_written]
    simp [forest, Forest.size, commentedBlock, emptyStatement, Tree.ordered, List.reduceOption]
  refine decode_reads_tree emptySections commentedBlock true ?_
  rw [encodedSize, hcount]
  decide

/-- a block of `count` empty statements -/
def wideTree (count : Nat) : Tree :=
  .node ⟨242, 0, 0, 1, 0⟩ [.list ⟨0, 0, false⟩ (List.replicate count (some emptyStatement))] []

theorem reduceOption_statements (count : Nat) :
    (List.replicate count (some emptyStatement)).reduceOption = List.replicate count emptyStatement := by
  induction count with
  | zero => rfl
  | succ count ih =>
    rw [List.replicate_succ, List.replicate_succ, List.reduceOption_cons_of_some, ih]

theorem size_statements (source : Bool) (count : Nat) :
    (forest source (List.replicate count emptyStatement)).size = count := by
  have hleaf : emptyStatement.ordered source = [] := by cases source <;> rfl
  induction count with
  | zero =>
    rw [List.replicate_zero, forest]
    rfl
  | succ count ih =>
    rw [List.replicate_succ, forest, Forest.size, ih, hleaf, forest, Forest.size]
    omega

theorem length_wideTree (count : Nat) : (written (wideTree count) false).length = count + 2 := by
  rw [length_written, size_single]
  show 1 + (forest false [.list ⟨0, 0, false⟩ (List.replicate count (some emptyStatement))]).size = _
  rw [size_single, Tree.ordered, reduceOption_statements, size_statements]
  omega

/-- **An encoding of `2^32` bytes and more is rejected**: its length wraps around. -/
theorem wideTree_rejected :
    Decoder.new (encodeNode emptySections (wideTree 153391685) false) =
      .error "invalid AST header offsets: offsets exceed data length (12)" := by
  have hcount := length_wideTree 153391685
  obtain ⟨ws, l, h⟩ := table_of (wideTree 153391685) false (by rw [hcount]; omega)
  have hlen := encodedSize_eq emptySections _ _ ws l h
  rw [encodedSize, hcount] at hlen
  have hoffset : emptySections.nodeOffset = 44 := rfl
  rw [hoffset] at hlen
  have hwrap : wrap32 (encodeNode emptySections (wideTree 153391685) false).length = 12 := by
    rw [hlen]
    rfl
  have r24 : readWord (encodeNode emptySections (wideTree 153391685) false) 24 = 44 :=
    readWord_header emptySections _ _ 6 _ rfl (by decide)
  unfold Decoder.new
  rw [if_neg (by omega), version_encodeNode]
  simp only [r24, hwrap]
  rw [if_neg (by decide), if_pos]
  · rfl
  · rfl

end Tsr.Encoder
