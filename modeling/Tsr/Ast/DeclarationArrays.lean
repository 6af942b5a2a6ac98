import Tsr.Ast.DeclarationPages

/-!
# Arrays in the store of declaration lists

The cells of a store are those of its arrays, one array after the other.

* `layout`              where the arrays of a store stand;
* `Stands`              a store with its arrays;
* `Located`             the cells that a header shows;
* `gives_makes`         a new array, for `alloc` and its relatives;
* `gives_within`, `gives_grown`   the two ways to append;
* `gives_set`           a cell of a header.
-/

set_option linter.unusedSectionVars false

namespace Tsr.Ast.Declarations

open Tsr.Lib Tsr.Lib.Fallible Tsr.Lib.GoSlice

/-! ## layout -/

/-- where arrays stand that lie one after the other -/
def layout : Nat → List (List Cell) → List DeclarationBacking
  | _, [] => []
  | start, cells :: arrays => ⟨start, cells.length⟩ :: layout (start + cells.length) arrays

theorem length_layout (start : Nat) (arrays : List (List Cell)) : (layout start arrays).length = arrays.length := by
  induction arrays generalizing start with
  | nil => rfl
  | cons cells arrays ih => exact congrArg (· + 1) (ih _)

theorem layout_append (start : Nat) (before after : List (List Cell)) :
    layout start (before ++ after) = layout start before ++ layout (start + before.flatten.length) after := by
  induction before generalizing start with
  | nil => rfl
  | cons cells before ih =>
    show _ :: layout (start + cells.length) (before ++ after) = _ :: (_ ++ _)
    rw [ih, List.flatten_cons, List.length_append, Nat.add_assoc]

/-- the backing of an array -/
theorem layout_at (before after : List (List Cell)) (cells : List Cell) :
    (layout 0 (before ++ cells :: after))[before.length]? = some ⟨before.flatten.length, cells.length⟩ := by
  rw [layout_append, List.getElem?_append_right (by rw [length_layout]), length_layout, Nat.sub_self, Nat.zero_add]
  rfl

/-- an array replaced by one of its length -/
theorem layout_replace (before after : List (List Cell)) {cells cells' : List Cell}
    (h : cells'.length = cells.length) :
    layout 0 (before ++ cells' :: after) = layout 0 (before ++ cells :: after) := by
  rw [layout_append, layout_append, layout, layout, h]

/-- the arrays of a store are not too long, and not too many -/
structure Fits (arrays : List (List Cell)) : Prop where
  count : arrays.length < 2 ^ 32
  lengths : ∀ cells ∈ arrays, cells.length < 2 ^ 32

theorem length_flatten_le {arrays : List (List Cell)} (h : ∀ cells ∈ arrays, cells.length < 2 ^ 32) :
    arrays.flatten.length ≤ arrays.length * (2 ^ 32 - 1) := by
  induction arrays with
  | nil => exact Nat.le_refl _
  | cons cells arrays ih =>
    have hhead := h cells List.mem_cons_self
    have htail := ih fun c hc => h c (List.mem_cons_of_mem _ hc)
    rw [List.flatten_cons, List.length_append, List.length_cons]
    omega

/-- one more array does not overflow the count of the cells -/
theorem Fits.room {arrays : List (List Cell)} (h : Fits arrays) {n : Nat} (hn : n < 2 ^ 32) :
    arrays.flatten.length + n < 2 ^ 64 := by
  have hle := length_flatten_le h.lengths
  have hcount := h.count
  omega

/-! ## a store with its arrays -/

/-- the arrays of the headers, all cells, and nodes whose first one has fixed the namespace -/
structure Mirrors (id owner : ArenaId) (arrays : List (List Cell)) (cells seen : List Cell)
    (l : DeclarationLists) : Prop where
  own : l.id = id
  named : l.nodeArena = owner
  backings : l.backings = layout 0 arrays
  pages : Holds owner cells l.pages
  unnamed : l.nodes = none → ∀ node ∈ cells ++ seen, node = none

/-- in some namespace -/
def Stands (id : ArenaId) (arrays : List (List Cell)) (cells seen : List Cell) (l : DeclarationLists) : Prop :=
  ∃ owner, Mirrors id owner arrays cells seen l

theorem stands_new (id : ArenaId) : Stands id [] [] [] (DeclarationLists.new id) := by
  refine ⟨id, rfl, rfl, rfl, holds_empty id, ?_⟩
  intro _ node hnode
  cases hnode

section
variable {id owner : ArenaId} {arrays : List (List Cell)} {cells seen : List Cell} {l : DeclarationLists}

/-- other nodes, which are nil when the first ones are -/
theorem Mirrors.sees (h : Mirrors id owner arrays cells seen l) {others : List Cell}
    (hnil : (∀ node ∈ cells ++ seen, node = none) → ∀ node ∈ others, node = none) :
    Mirrors id owner arrays cells others l where
  own := h.own
  named := h.named
  backings := h.backings
  pages := h.pages
  unnamed := by
    intro hnone node hnode
    have hall := h.unnamed hnone
    rcases List.mem_append.1 hnode with hcells | hothers
    · exact hall node (List.mem_append_left _ hcells)
    · exact hnil hall node hothers

theorem Stands.sees (h : Stands id arrays cells seen l) {others : List Cell}
    (hnil : (∀ node ∈ cells ++ seen, node = none) → ∀ node ∈ others, node = none) :
    Stands id arrays cells others l := by
  obtain ⟨owner, h⟩ := h
  exact ⟨owner, h.sees hnil⟩

theorem Stands.forget (h : Stands id arrays cells seen l) : Stands id arrays cells [] l := by
  apply h.sees
  intro _ node hnode
  cases hnode

/-! ## nodes that are observed -/

theorem Stands.observed (h : Stands id arrays cells seen l) (node : Cell) :
    Stands id arrays cells (seen ++ [node]) (l.observed node) := by
  obtain ⟨owner, h⟩ := h
  have hassoc : cells ++ (seen ++ [node]) = (cells ++ seen) ++ [node] := (List.append_assoc _ _ _).symm
  cases hnodes : l.nodes with
  | some a =>
    have hsame : l.observed node = l := by rw [DeclarationLists.observed, hnodes]; rfl
    rw [hsame]
    refine ⟨owner, h.own, h.named, h.backings, h.pages, ?_⟩
    intro hnone
    rw [hnodes] at hnone
    cases hnone
  | none =>
    have hall := h.unnamed hnodes
    have hnew : l.observed node = { l with nodes := node.map NodeId.arena } := by
      rw [DeclarationLists.observed, hnodes]
      rfl
    have hpages := h.pages.renamed (fun n hn => hall n (List.mem_append_left _ hn))
    rw [hnew]
    refine ⟨_, h.own, rfl, h.backings, hpages _, ?_⟩
    intro hnone n hn
    rw [hassoc] at hn
    rcases List.mem_append.1 hn with hold | hlast
    · exact hall n hold
    · rw [List.mem_singleton.1 hlast]
      exact Option.map_eq_none_iff.1 hnone

theorem gives_observe (node : Cell) :
    Gives (Stands id arrays cells seen) (DeclarationLists.observeNode node) (.ok ⟨⟩)
      (Stands id arrays cells (seen ++ [node])) :=
  gives_change fun _ h => h.observed node

theorem gives_observeAll (values : List Cell) :
    Gives (Stands id arrays cells seen) (DeclarationLists.observeAll values) (.ok ⟨⟩)
      (Stands id arrays cells (seen ++ values)) := by
  have hloop := @gives_forM _ _ _ DeclarationLists.observeNode values
    (fun k => Stands id arrays cells (seen ++ values.take k)) ?_
  · rw [List.take_zero, List.append_nil, List.take_length] at hloop
    exact hloop
  · intro k hk
    rw [List.take_succ_eq_append_getElem hk, ← List.append_assoc]
    exact gives_observe _

/-- the first node of the values stands for all of them -/
theorem gives_observeFirst (values : List Cell) :
    Gives (Stands id arrays cells []) (DeclarationLists.observeNode (values.find? Option.isSome).join) (.ok ⟨⟩)
      (Stands id arrays cells values) := by
  refine (gives_observe _).leads ?_
  intro l h
  apply h.sees
  intro hall node hnode
  have hfirst := hall _ (List.mem_append_right _ (List.mem_append_right _ List.mem_cons_self))
  cases hfind : values.find? Option.isSome with
  | none =>
    have := List.find?_eq_none.1 hfind node hnode
    rwa [Bool.not_eq_true, Option.isSome_eq_false_iff, Option.isNone_iff_eq_none] at this
  | some first =>
    rw [hfind] at hfirst
    have hsome := List.find?_some hfind
    rw [show first = none from hfirst] at hsome
    cases hsome

/-! ## cells -/

/-- a cell is set in the namespace of the store -/
theorem gives_setAt {index : Nat} {node : Cell} (hindex : index < cells.length)
    (hnil : (∀ n ∈ cells ++ seen, n = none) → node = none) :
    Gives (Mirrors id owner arrays cells seen) (DeclarationLists.onPages (EdgePages.set owner index node)) (.ok ⟨⟩)
      (Mirrors id owner arrays (cells.set index node) seen) := by
  refine gives_onPart (gives_setCell node hindex) (fun l h => h.pages) ?_
  intro l p h hp
  refine ⟨h.own, h.named, h.backings, hp, ?_⟩
  intro hnone n hn
  have hall := h.unnamed hnone
  rcases List.mem_append.1 hn with hcell | hseen
  · rcases List.mem_or_eq_of_mem_set hcell with hold | hnew
    · exact hall n (List.mem_append_left _ hold)
    · rw [hnew]
      exact hnil hall
  · exact hall n (List.mem_append_right _ hseen)

/-- cells at the end, in the namespace of the store -/
theorem gives_appendAt {nodes : List Cell} (hnodes : nodes.length < 2 ^ 32)
    (hroom : cells.length + nodes.length < 2 ^ 64)
    (hnil : (∀ n ∈ cells ++ seen, n = none) → ∀ n ∈ nodes, n = none) :
    Gives (Mirrors id owner arrays cells seen) (DeclarationLists.onPages (EdgePages.appendIter owner nodes))
      (.ok ⟨cells.length, nodes.length⟩) (Mirrors id owner arrays (cells ++ nodes) seen) := by
  refine gives_onPart (gives_appendIter hnodes hroom) (fun l h => h.pages) ?_
  intro l p h hp
  refine ⟨h.own, h.named, h.backings, hp, ?_⟩
  intro hnone n hn
  have hall := h.unnamed hnone
  rw [List.append_assoc, List.mem_append, List.mem_append] at hn
  rcases hn with hcell | hnew | hseen
  · exact hall n (List.mem_append_left _ hcell)
  · exact hnil hall n hnew
  · exact hall n (List.mem_append_right _ hseen)

/-! ## new arrays -/

/-- the header of the next array, if the arena of the backings has a slot left -/
def newHeader (id : ArenaId) (count len capacity : Nat) : Except Failure DeclarationSlice :=
  if h : count + 1 < 2 ^ 32 then .ok ⟨some ⟨id, count + 1, Nat.succ_pos _, h⟩, 0, len, capacity⟩
  else .error .panic

/-- an array more, if its header could be made -/
def Makes (id : ArenaId) (arrays : List (List Cell)) (cells : List Cell) (l : DeclarationLists) : Prop :=
  arrays.length + 1 < 2 ^ 32 → Stands id (arrays ++ [cells]) (arrays ++ [cells]).flatten [] l

/-- the cells at the end get a header -/
theorem gives_header {values : List Cell} (len : Nat) :
    Gives (Mirrors id owner arrays (arrays.flatten ++ values) seen)
      (DeclarationLists.allocateHeader arrays.flatten.length len values.length)
      (newHeader id arrays.length len values.length) (Makes id arrays values) := by
  intro l h
  have hcount : l.backings.length = arrays.length := by rw [h.backings, length_layout]
  have hflat : (arrays ++ [values]).flatten = arrays.flatten ++ values := by
    rw [List.flatten_append, List.flatten_singleton]
  by_cases hroom : arrays.length + 1 < 2 ^ 32
  · have hlist : l.backings.length + 1 < 2 ^ 32 := by rw [hcount]; exact hroom
    rw [DeclarationLists.allocateHeader, dif_pos hlist, newHeader, dif_pos hroom]
    refine ⟨?_, ?_⟩
    · simp only [hcount, h.own]
    · intro _
      refine ⟨owner, h.own, h.named, ?_, ?_, ?_⟩
      · show l.backings ++ _ = _
        rw [layout_append, h.backings, Nat.zero_add]
        rfl
      · rw [hflat]
        exact h.pages
      · intro hnone node hnode
        rw [hflat, List.append_nil] at hnode
        exact h.unnamed hnone node (List.mem_append_left _ hnode)
  · have hlist : ¬ l.backings.length + 1 < 2 ^ 32 := by rw [hcount]; exact hroom
    rw [DeclarationLists.allocateHeader, dif_neg hlist, newHeader, dif_neg hroom]
    exact ⟨rfl, fun h => absurd h hroom⟩

/-- the cells of a new array, at the end of a store that has observed them -/
theorem gives_makes (hfits : Fits arrays) {values : List Cell} (len : Nat) (hvalues : values.length < 2 ^ 32)
    (hnil : (∀ n ∈ arrays.flatten ++ seen, n = none) → ∀ n ∈ values, n = none) :
    Gives (Stands id arrays arrays.flatten seen) (do
        let arena ← read DeclarationLists.nodeArena
        let backing ← DeclarationLists.onPages (EdgePages.appendIter arena values)
        DeclarationLists.allocateHeader backing.start len values.length)
      (newHeader id arrays.length len values.length) (Makes id arrays values) := by
  apply gives_exists
  intro owner
  refine gives_bind (gives_read fun l h => h.named) ?_
  exact gives_bind (gives_appendAt hvalues (hfits.room hvalues) hnil) (gives_header len)

theorem fill_eq (values : List Cell) (capacity : Nat) :
    DeclarationLists.fill values capacity = padded none values capacity := by
  apply List.map_congr_left
  intro i _
  cases values[i]? with
  | none => rfl
  | some node => rfl

theorem length_fill (values : List Cell) (capacity : Nat) :
    (DeclarationLists.fill values capacity).length = capacity := by
  rw [fill_eq, length_padded]

/-- a new array holds the values, and nils -/
theorem nil_of_fill {values : List Cell} (hnil : ∀ n ∈ values, n = none) (capacity : Nat) :
    ∀ n ∈ DeclarationLists.fill values capacity, n = none := by
  intro n hn
  obtain ⟨i, -, hi⟩ := List.mem_map.1 hn
  cases hv : values[i]? with
  | none =>
    rw [hv] at hi
    exact hi.symm
  | some node =>
    rw [hv] at hi
    rw [← hi]
    exact hnil node (List.mem_of_getElem? hv)

theorem gives_allocWithCapacity (hfits : Fits arrays) {values : List Cell} {capacity : Nat}
    (hlen : values.length ≤ capacity) (hcapacity : capacity < 2 ^ 32) :
    Gives (Stands id arrays arrays.flatten []) (DeclarationLists.allocWithCapacity values capacity)
      (newHeader id arrays.length values.length capacity)
      (Makes id arrays (DeclarationLists.fill values capacity)) := by
  rw [DeclarationLists.allocWithCapacity, if_neg (by omega)]
  refine gives_bind (gives_observeFirst values) ?_
  have hmakes := @gives_makes id arrays values hfits (DeclarationLists.fill values capacity) values.length
    (by rw [length_fill]; exact hcapacity)
    (fun hall => nil_of_fill (fun n hn => hall n (List.mem_append_right _ hn)) capacity)
  rw [length_fill] at hmakes
  exact hmakes

theorem gives_allocOne (hfits : Fits arrays) (node : Cell) :
    Gives (Stands id arrays arrays.flatten []) (DeclarationLists.allocOne node)
      (newHeader id arrays.length 1 1) (Makes id arrays [node]) := by
  refine gives_bind (gives_observe node) ?_
  exact gives_makes hfits 1 (show 1 < 2 ^ 32 by decide) fun hall n hn => hall n (List.mem_append_right _ hn)

/-! ## headers -/

/-- the cells that a header shows, at their place in the store -/
structure Located (id : ArenaId) (arrays : List (List Cell)) (s : DeclarationSlice) (start : Nat)
    (shown : List Cell) : Prop where
  length : shown.length = s.len
  cells : ∀ k, k < s.len → arrays.flatten[start + k]? = shown[k]?
  inside : start + s.len ≤ arrays.flatten.length
  range : ∀ l, Stands id arrays arrays.flatten [] l → l.range s = .ok (start, start + s.len)

/-- the nil header shows nothing -/
theorem located_nil (id : ArenaId) (arrays : List (List Cell)) {s : DeclarationSlice} (hs : s.backing = none)
    (hlen : s.len = 0) : Located id arrays s 0 [] where
  length := hlen.symm
  cells := by
    intro k hk
    omega
  inside := by
    rw [hlen]
    exact Nat.zero_le _
  range := by
    intro l _
    rw [DeclarationLists.range, hs, hlen]

/-- a header into an array of its store -/
structure Points (id : ArenaId) (arrays : List (List Cell)) (s : DeclarationSlice) (backing : AuxId)
    (before after : List (List Cell)) (cells : List Cell) : Prop where
  held : s.backing = some backing
  own : backing.arena = id
  arrays : arrays = before ++ cells :: after
  slot : before.length + 1 = backing.slot
  inside : s.start + s.capacity ≤ cells.length
  len : s.len ≤ s.capacity

end

section
variable {id owner : ArenaId} {arrays : List (List Cell)} {seen : List Cell} {l : DeclarationLists}
  {s : DeclarationSlice} {backing : AuxId} {before after : List (List Cell)} {cells : List Cell}

theorem Points.flatten (h : Points id arrays s backing before after cells) :
    arrays.flatten = before.flatten ++ (cells ++ after.flatten) := by
  rw [h.arrays, List.flatten_append, List.flatten_cons]

theorem Points.look (h : Points id arrays s backing before after cells)
    (hl : Stands id arrays arrays.flatten [] l) :
    l.backing backing = .ok ⟨before.flatten.length, cells.length⟩ := by
  obtain ⟨owner, hl⟩ := hl
  have hslot : backing.slot - 1 = before.length := by
    rw [← h.slot]
    exact Nat.add_sub_cancel _ _
  rw [DeclarationLists.backing, hl.own, if_neg (not_not_intro h.own), hl.backings, h.arrays, hslot, layout_at]

theorem Points.located (hfits : Fits arrays) (h : Points id arrays s backing before after cells) :
    Located id arrays s (before.flatten.length + s.start) ((cells.drop s.start).take s.len) := by
  have hinside := h.inside
  have hlen := h.len
  have hflat := h.flatten
  have hlength : arrays.flatten.length = before.flatten.length + (cells.length + after.flatten.length) := by
    rw [hflat, List.length_append, List.length_append]
  refine ⟨?_, ?_, by omega, ?_⟩
  · rw [List.length_take, List.length_drop]
    omega
  · intro k hk
    rw [hflat, List.getElem?_append_right (by omega), List.getElem?_append_left (by omega),
      List.getElem?_take_of_lt hk, List.getElem?_drop]
    congr 1
    omega
  · intro l hl
    have hsmall : cells.length < 2 ^ 32 := by
      apply hfits.lengths
      rw [h.arrays]
      exact List.mem_append_right _ List.mem_cons_self
    have hbig := hfits.room (n := 0) (by decide)
    rw [DeclarationLists.range, h.held]
    dsimp only
    rw [h.look hl]
    show (if 2 ^ 32 ≤ s.start + s.len ∨ cells.length < s.start + s.len then _ else _) = _
    rw [if_neg (by omega)]
    show (if 2 ^ 64 ≤ before.flatten.length + s.start + s.len then _ else _) = _
    rw [if_neg (by omega)]

/-- **A header reads the cells that it shows.** -/
theorem Located.get {start : Nat} {shown : List Cell} (h : Located id arrays s start shown)
    (hl : Stands id arrays arrays.flatten [] l) :
    ∃ r, l.get s = .ok r ∧ r.len = s.len ∧ r.toVec = .ok shown := by
  refine ⟨⟨l.pages, l.nodeArena, start, start + s.len - start⟩, ?_, ?_, ?_⟩
  · rw [DeclarationLists.get, h.range l hl]
  · exact Nat.add_sub_cancel_left _ _
  · obtain ⟨owner, hl⟩ := hl
    show l.pages.iter l.nodeArena start (start + (start + s.len - start)) = _
    rw [Nat.add_sub_cancel_left, hl.named, iter_holds hl.pages h.inside]
    congr 1
    apply List.ext_getElem?
    intro k
    by_cases hk : k < s.len
    · rw [List.getElem?_take_of_lt hk, List.getElem?_drop, h.cells k hk]
    · have hshown : shown[k]? = none := List.getElem?_eq_none (by rw [h.length]; omega)
      rw [hshown]
      apply List.getElem?_eq_none
      rw [List.length_take]
      omega

/-! ## a new array that is filled cell by cell -/

/-- the next cell of the array at the end -/
theorem gives_placeNext {done : List Cell} {capacity : Nat} {node : Cell} (hlt : done.length < capacity)
    (hnil : (∀ n ∈ (arrays.flatten ++ padded none done capacity) ++ seen, n = none) → node = none) :
    Gives (Mirrors id owner arrays (arrays.flatten ++ padded none done capacity) seen)
      (DeclarationLists.onPages (EdgePages.set owner (arrays.flatten.length + done.length) node)) (.ok ⟨⟩)
      (Mirrors id owner arrays (arrays.flatten ++ padded none (done ++ [node]) capacity) seen) := by
  have hset := @gives_setAt id owner arrays (arrays.flatten ++ padded none done capacity) seen
    (arrays.flatten.length + done.length) node
    (by rw [List.length_append, length_padded]; omega) hnil
  rw [List.set_append_right _ _ (Nat.le_add_right _ _), Nat.add_sub_cancel_left, padded_set none node hlt] at hset
  exact hset

/-- the old cells -/
theorem gives_copyCells {start : Nat} {shown : List Cell} {capacity : Nat} (h : Located id arrays s start shown)
    (hroom : shown.length ≤ capacity) :
    Gives (Mirrors id owner arrays (arrays.flatten ++ padded none [] capacity) seen)
      (DeclarationLists.copyCells owner start arrays.flatten.length s.len) (.ok ⟨⟩)
      (Mirrors id owner arrays (arrays.flatten ++ padded none shown capacity) seen) := by
  have hloop := @gives_forM _ _ _ (fun index => do
      let value ← look fun (l : DeclarationLists) => l.pages.expectCell owner (start + index)
      DeclarationLists.onPages (EdgePages.set owner (arrays.flatten.length + index) value)) (List.range s.len)
    (fun k => Mirrors id owner arrays (arrays.flatten ++ padded none (shown.take k) capacity) seen) ?_
  · rw [List.length_range, ← h.length, List.take_length, List.take_zero, h.length] at hloop
    exact hloop
  · intro k hk
    rw [List.length_range] at hk
    have hshown : k < shown.length := by rw [h.length]; exact hk
    have hcell : arrays.flatten[start + k]? = some shown[k] := by
      rw [h.cells k hk]
      exact List.getElem?_eq_getElem hshown
    have hdone : (shown.take k).length = k := by
      rw [List.length_take]
      omega
    have hnext := @gives_placeNext id owner arrays seen (shown.take k) capacity shown[k] (by omega) (fun hall =>
      hall _ (List.mem_append_left _ (List.mem_append_left _ (List.mem_of_getElem? hcell))))
    rw [List.getElem_range, List.take_succ_eq_append_getElem hshown]
    rw [hdone] at hnext
    refine gives_bind (gives_look fun l hl => ?_) hnext
    apply expectCell_holds hl.pages
    rw [List.getElem?_append_left (List.getElem?_eq_some_iff.1 hcell).1]
    exact hcell

/-- the values after them -/
theorem gives_placeValues {shown values : List Cell} {capacity : Nat}
    (hroom : shown.length + values.length ≤ capacity)
    (hnil : (∀ n ∈ seen, n = none) → ∀ n ∈ values, n = none) :
    Gives (Mirrors id owner arrays (arrays.flatten ++ padded none shown capacity) seen)
      (DeclarationLists.placeValues owner (arrays.flatten.length + shown.length) values) (.ok ⟨⟩)
      (Mirrors id owner arrays (arrays.flatten ++ padded none (shown ++ values) capacity) seen) := by
  have hloop := @gives_forM _ _ _ (fun entry : Cell × Nat =>
      DeclarationLists.onPages (EdgePages.set owner (arrays.flatten.length + shown.length + entry.2) entry.1))
    values.zipIdx
    (fun k => Mirrors id owner arrays (arrays.flatten ++ padded none (shown ++ values.take k) capacity) seen) ?_
  · rw [List.length_zipIdx, List.take_length, List.take_zero, List.append_nil] at hloop
    exact hloop
  · intro k hk
    rw [List.length_zipIdx] at hk
    have hdone : (shown ++ values.take k).length = shown.length + k := by
      rw [List.length_append, List.length_take]
      omega
    have hnext := @gives_placeNext id owner arrays seen (shown ++ values.take k) capacity values[k] (by omega)
      (fun hall => hnil (fun n hn => hall n (List.mem_append_right _ hn)) _ (List.getElem_mem hk))
    rw [hdone, ← Nat.add_assoc, List.append_assoc] at hnext
    rw [List.getElem_zipIdx, List.take_succ_eq_append_getElem hk]
    show Gives _ (DeclarationLists.onPages (EdgePages.set owner (_ + (0 + k)) values[k])) _ _
    rw [Nat.zero_add]
    exact hnext

/-- **An append that copies**: the shown cells, then the values, in an array of their own. -/
theorem gives_grown (hfits : Fits arrays) {start capacity : Nat} {shown values : List Cell}
    (h : Located id arrays s start shown)
    (hgrowth : declarationGrowthCapacity (s.len + values.length) s.capacity = .ok capacity) :
    Gives (Stands id arrays arrays.flatten []) (DeclarationLists.appendGrown s (start, start + s.len) values)
      (newHeader id arrays.length (s.len + values.length) capacity)
      (Makes id arrays (DeclarationLists.fill (shown ++ values) capacity)) := by
  obtain ⟨hroom, hcapacity⟩ := growth_ok hgrowth
  have hshown := h.length
  have hnils : List.replicate capacity (none : Cell) = padded none [] capacity := by
    rw [padded_eq none (Nat.zero_le capacity)]
    rfl
  refine gives_bind (gives_look fun _ _ => by rw [hgrowth]; rfl) ?_
  refine gives_bind (gives_observeAll values) ?_
  apply gives_exists
  intro owner
  refine gives_bind (gives_read fun l hl => hl.named) ?_
  rw [hnils]
  refine gives_bind (gives_appendAt (by rw [length_padded]; exact hcapacity)
    (by rw [length_padded]; exact hfits.room hcapacity) ?_) ?_
  · intro _ n hn
    rw [← hnils] at hn
    exact (List.mem_replicate.1 hn).2
  show Gives _ (DeclarationLists.copyCells owner start arrays.flatten.length (start + s.len - start) >>= _) _ _
  rw [Nat.add_sub_cancel_left]
  refine gives_bind (gives_copyCells h (by omega)) ?_
  have hvalues := @gives_placeValues id owner arrays ([] ++ values) shown values capacity (by omega) fun hall => hall
  have hheader := @gives_header id owner arrays ([] ++ values) (padded none (shown ++ values) capacity)
    (s.len + values.length)
  rw [hshown] at hvalues
  rw [length_padded] at hheader
  rw [fill_eq]
  exact gives_bind hvalues hheader

/-! ## an array that is written -/

/-- values over cells, one after the other -/
theorem gives_writeValues {index : Nat} {values : List Cell} (h : index + values.length ≤ cells.length) :
    Gives (Stands id arrays cells []) (DeclarationLists.writeValues index values) (.ok ⟨⟩)
      (Stands id arrays (overwrite cells index values) []) := by
  have hloop := @gives_forM _ _ _ (fun entry : Cell × Nat => do
      DeclarationLists.observeNode entry.1
      let arena ← read DeclarationLists.nodeArena
      DeclarationLists.onPages (EdgePages.set arena (index + entry.2) entry.1)) values.zipIdx
    (fun k => Stands id arrays (overwrite cells index (values.take k)) []) ?_
  · rw [List.length_zipIdx, List.take_length, List.take_zero, overwrite_nil] at hloop
    exact hloop
  · intro k hk
    rw [List.length_zipIdx] at hk
    have hdone : (values.take k).length = k := by
      rw [List.length_take]
      omega
    have hcells : (overwrite cells index (values.take k)).length = cells.length :=
      length_overwrite (by omega)
    have hset : (overwrite cells index (values.take k)).set (index + k) values[k]
        = overwrite cells index (values.take k ++ [values[k]]) := by
      have := @overwrite_set _ cells index (values.take k) values[k] (by omega)
      rwa [hdone] at this
    rw [List.getElem_zipIdx, List.take_succ_eq_append_getElem hk, ← hset]
    refine gives_bind (gives_observe values[k]) ?_
    apply gives_exists
    intro owner
    refine gives_bind (gives_read fun l hl => hl.named) ?_
    show Gives _ (DeclarationLists.onPages (EdgePages.set owner (index + (0 + k)) values[k])) _ _
    rw [Nat.zero_add]
    refine (gives_setAt (by omega) ?_).leads ?_
    · intro hall
      exact hall _ (List.mem_append_right _ List.mem_cons_self)
    · intro l hl
      exact Stands.forget ⟨owner, hl⟩

/-- the arrays with one of them overwritten -/
theorem Points.written (h : Points id arrays s backing before after cells) {i : Nat} {values : List Cell}
    (hroom : i + values.length ≤ cells.length)
    (hl : Stands id arrays (overwrite arrays.flatten (before.flatten.length + i) values) [] l) :
    Stands id (before ++ overwrite cells i values :: after)
      (before ++ overwrite cells i values :: after).flatten [] l := by
  obtain ⟨owner, hl⟩ := hl
  have hflat : (before ++ overwrite cells i values :: after).flatten
      = overwrite arrays.flatten (before.flatten.length + i) values := by
    rw [h.flatten, overwrite_append _ _ hroom, List.flatten_append, List.flatten_cons]
  refine ⟨owner, hl.own, hl.named, ?_, ?_, ?_⟩
  · rw [hl.backings, h.arrays, layout_replace before after (length_overwrite hroom)]
  · rw [hflat]
    exact hl.pages
  · rw [hflat]
    exact hl.unnamed

/-- **An append within the capacity** writes the array that the header points into. -/
theorem gives_within (h : Points id arrays s backing before after cells) {values : List Cell}
    (hroom : s.len + values.length ≤ s.capacity) :
    Gives (Stands id arrays arrays.flatten []) (DeclarationLists.appendWithin s values)
      (.ok { s with len := s.len + values.length })
      (Stands id (before ++ overwrite cells (s.start + s.len) values :: after)
        (before ++ overwrite cells (s.start + s.len) values :: after).flatten []) := by
  have hinside := h.inside
  have hlength : arrays.flatten.length = before.flatten.length + (cells.length + after.flatten.length) := by
    rw [h.flatten, List.length_append, List.length_append]
  rw [DeclarationLists.appendWithin, h.held]
  refine gives_bind (gives_look fun l hl => by rw [h.look hl]; rfl) ?_
  rw [if_neg (show ¬ cells.length < s.start + s.len + values.length by omega)]
  refine gives_bind (gives_writeValues (by show before.flatten.length + _ + _ ≤ _; omega)) ?_
  exact (gives_pure _).leads fun l hl => h.written (by omega) hl

/-- **`set` writes one cell** of the array that the header points into. -/
theorem gives_set (hfits : Fits arrays) (h : Points id arrays s backing before after cells) {index : Nat} (node : Cell)
    (hindex : index < s.len) :
    Gives (Stands id arrays arrays.flatten []) (DeclarationLists.set s index node) (.ok ⟨⟩)
      (Stands id (before ++ overwrite cells (s.start + index) [node] :: after)
        (before ++ overwrite cells (s.start + index) [node] :: after).flatten []) := by
  have hinside := h.inside
  have hlen := h.len
  have hlocated := h.located hfits
  have hroom := hlocated.inside
  refine gives_bind (gives_look fun l hl => by rw [hlocated.range l hl]; rfl) ?_
  show Gives _
    (if before.flatten.length + s.start + s.len - (before.flatten.length + s.start) ≤ index then _ else _) _ _
  rw [if_neg (by omega)]
  refine gives_bind (gives_observe node) ?_
  apply gives_exists
  intro owner
  refine gives_bind (gives_read fun l hl => hl.named) ?_
  refine (gives_setAt (show before.flatten.length + s.start + index < _ by omega) ?_).leads ?_
  · intro hall
    exact hall _ (List.mem_append_right _ List.mem_cons_self)
  · intro l hl
    apply h.written (show s.start + index + 1 ≤ cells.length by omega)
    rw [← Nat.add_assoc, overwrite_one node (by omega)]
    exact Stands.forget ⟨owner, hl⟩

/-- `appendAll` past the capacity -/
theorem gives_appendAll_grown (hfits : Fits arrays) {start capacity : Nat} {shown values : List Cell}
    (h : Located id arrays s start shown) (hvalues : values ≠ []) (hlen : s.capacity < s.len + values.length)
    (hsmall : s.len + values.length < 2 ^ 32)
    (hgrowth : declarationGrowthCapacity (s.len + values.length) s.capacity = .ok capacity) :
    Gives (Stands id arrays arrays.flatten []) (DeclarationLists.appendAll s values)
      (newHeader id arrays.length (s.len + values.length) capacity)
      (Makes id arrays (DeclarationLists.fill (shown ++ values) capacity)) := by
  refine gives_bind (gives_look fun l hl => by rw [h.range l hl]; rfl) ?_
  rw [if_neg hvalues, if_neg (by omega), if_neg (Nat.not_le.2 hlen)]
  exact gives_grown hfits h hgrowth

end

end Tsr.Ast.Declarations
