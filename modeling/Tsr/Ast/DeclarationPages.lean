import Tsr.Ast.DeclarationLists
import Tsr.Lib.GoSlice

/-!
# What the pages and the growth of declaration lists do

* `Encodes`, `Holds`   the cells that the pages of a store hold;
* `get_holds`          a read;
* `gives_set`, `gives_appendIter`   writes;
* `growth_ok`          a growth that is not refused has room, `growth_refused` when it is refused.
-/

namespace Tsr.Ast.Declarations

open Tsr.Lib Tsr.Lib.Fallible

variable {owner : ArenaId} {cells : List Cell} {p : EdgePages} {i : Nat} {node : Cell} {index : Nat}

/-! ## growth -/

/-- the loop stops with room for `len`, or where it started -/
theorem growTo_ok {len fuel capacity result : Nat} (hfuel : len ≤ capacity + fuel)
    (h : growTo len fuel capacity = .ok result) : len ≤ result := by
  induction fuel generalizing capacity with
  | zero =>
    cases h
    exact hfuel
  | succ fuel ih =>
    rw [growTo] at h
    by_cases hlt : capacity < len
    · rw [if_pos hlt] at h
      by_cases hbig : 2 ^ 64 ≤ capacity + (capacity + 3 * 256) / 4
      · rw [if_pos hbig] at h
        cases h
      · rw [if_neg hbig] at h
        exact ih (by omega) h
    · rw [if_neg hlt] at h
      cases h
      exact Nat.le_of_not_lt hlt

/-- the loop stays below a quarter over `len`, and 192 cells -/
theorem growTo_small {len bound : Nat} (hbound : len + (len + 768) / 4 ≤ bound) (hfits : bound < 2 ^ 64)
    (fuel : Nat) {capacity : Nat} (h : capacity ≤ bound) :
    ∃ result, growTo len fuel capacity = .ok result ∧ result ≤ bound := by
  induction fuel generalizing capacity with
  | zero => exact ⟨capacity, rfl, h⟩
  | succ fuel ih =>
    rw [growTo]
    by_cases hlt : capacity < len
    · rw [if_pos hlt, if_neg (by omega)]
      exact ih (by omega)
    · rw [if_neg hlt]
      exact ⟨capacity, rfl, h⟩

theorem sizeClasses_le {cls : Nat} (h : cls ∈ sizeClasses) : cls ≤ 32768 := by
  have hall : ∀ c ∈ sizeClasses, c ≤ 32768 := by decide
  exact hall cls h

/-- a size is rounded up, by less than a page of 8192 bytes or within the classes -/
theorem roundUpSize_ok {size : Nat} (h : size + 8191 < 2 ^ 64) :
    ∃ rounded, roundUpSize size = .ok rounded ∧ size ≤ rounded ∧ rounded ≤ size + 32768 := by
  by_cases hsmall : size ≤ 32768 - 8
  · have hlast : (sizeClasses.find? fun cls => decide (size + (if 512 < size then 8 else 0) ≤ cls)).isSome = true := by
      rw [List.find?_isSome]
      refine ⟨32768, by decide, decide_eq_true ?_⟩
      split_ifs <;> omega
    obtain ⟨cls, hcls⟩ := Option.isSome_iff_exists.1 hlast
    have hle : size + (if 512 < size then 8 else 0) ≤ cls := of_decide_eq_true (@List.find?_some _ (fun cls => decide (size + (if 512 < size then 8 else 0) ≤ cls)) _ _ hcls)
    have hmax := sizeClasses_le (List.mem_of_find?_eq_some hcls)
    refine ⟨cls - (if 512 < size then 8 else 0), ?_, by omega, by omega⟩
    rw [roundUpSize, if_pos hsmall, hcls]
  · refine ⟨(size + 8191) / 8192 * 8192, ?_, by omega, by omega⟩
    rw [roundUpSize, if_neg hsmall, if_neg (by omega)]

theorem baseCapacity_ok {len old capacity : Nat} (h : baseCapacity len old = .ok capacity) : len ≤ capacity := by
  rw [baseCapacity] at h
  by_cases hbig : 2 ^ 64 ≤ old * 2
  · rw [if_pos hbig] at h
    cases h
  · rw [if_neg hbig] at h
    exact growTo_ok (Nat.le_add_left _ _) h

theorem roundUpSize_le {size rounded : Nat} (h : roundUpSize size = .ok rounded) : size ≤ rounded := by
  by_cases hfits : size + 8191 < 2 ^ 64
  · obtain ⟨r, hr, hle, -⟩ := roundUpSize_ok hfits
    rw [h] at hr
    cases hr
    exact hle
  · rw [roundUpSize, if_neg (by omega), if_pos (by omega)] at h
    cases h

/-- **A growth has room for the values**, and its capacity fits a header. -/
theorem growth_ok {len old capacity : Nat} (h : declarationGrowthCapacity len old = .ok capacity) :
    len ≤ capacity ∧ capacity < 2 ^ 32 := by
  rw [declarationGrowthCapacity] at h
  cases hbase : baseCapacity len old with
  | error e =>
    rw [hbase] at h
    cases h
  | ok base =>
    have hlen := baseCapacity_ok hbase
    rw [hbase] at h
    simp only at h
    by_cases hbig : 2 ^ 64 ≤ base * 8
    · rw [if_pos hbig] at h
      cases h
    · rw [if_neg hbig] at h
      cases hround : roundUpSize (base * 8) with
      | error e =>
        rw [hround] at h
        cases h
      | ok rounded =>
        have hle := roundUpSize_le hround
        rw [hround] at h
        simp only at h
        by_cases hfits : 2 ^ 32 ≤ rounded / 8
        · rw [if_pos hfits] at h
          cases h
        · rw [if_neg hfits] at h
          cases h
          omega

/-- **Only a growth to 2^31 cells or more is refused.** -/
theorem growth_total {len old : Nat} (hlen : len < 2 ^ 31) (hold : old < len) :
    ∃ capacity, declarationGrowthCapacity len old = .ok capacity := by
  have hfirst : (if old * 2 < len then len else if old < 256 then old * 2 else old) ≤ len + (len + 768) / 4 + 512 := by
    split_ifs <;> omega
  obtain ⟨base, hbase, hle⟩ := @growTo_small len (len + (len + 768) / 4 + 512) (by omega) (by omega) len _ hfirst
  obtain ⟨rounded, hround, -, hrle⟩ := @roundUpSize_ok (base * 8) (by omega)
  have hcapacity : baseCapacity len old = .ok base := by
    rw [baseCapacity, if_neg (by omega)]
    exact hbase
  refine ⟨rounded / 8, ?_⟩
  rw [declarationGrowthCapacity, hcapacity]
  show (if 2 ^ 64 ≤ base * 8 then _ else _) = _
  rw [if_neg (by omega), hround]
  show (if 2 ^ 32 ≤ rounded / 8 then _ else _) = _
  rw [if_neg (by omega)]

/-! ## words -/

/-- what a word and its entry of the table stand for, in a namespace -/
inductive Encodes (owner : ArenaId) : Nat → Option NodeId → Cell → Prop
  | nil {entry : Option NodeId} : Encodes owner 0 entry none
  | slot {entry : Option NodeId} (node : NodeId) : node.arena = owner → node.slot ≠ escape →
      Encodes owner node.slot entry (some node)
  | escaped {entry : Option NodeId} (node : NodeId) : entry = some node → Encodes owner escape entry (some node)

/-- the pages hold these cells -/
structure Holds (owner : ArenaId) (cells : List Cell) (p : EdgePages) : Prop where
  len : p.len = cells.length
  paged : p.pages.length = (cells.length + 255) / 256
  cell : ∀ i node, cells[i]? = some node →
    ∃ word, p.wordAt i = some word ∧ Encodes owner word (p.escapes i) node

theorem holds_empty (owner : ArenaId) : Holds owner [] EdgePages.empty where
  len := rfl
  paged := rfl
  cell := by
    intro i node h
    cases h

/-- nil cells have the same words in every namespace -/
theorem Holds.renamed (h : Holds owner cells p)
    (hnil : ∀ node ∈ cells, node = none) (other : ArenaId) : Holds other cells p where
  len := h.len
  paged := h.paged
  cell := by
    intro i node hi
    obtain ⟨word, hword, hencodes⟩ := h.cell i node hi
    cases hnil node (List.mem_of_getElem? hi)
    cases hencodes
    exact ⟨0, hword, .nil⟩

/-- the page of an index that holds a cell -/
theorem Holds.page_lt (h : Holds owner cells p)
    (hi : i < cells.length) : i / pageWords < p.pages.length := by
  rw [h.paged]
  show i / 256 < _
  omega

/-! ## reads -/

theorem fromParts_slot (node : NodeId) : NodeId.fromParts node.arena node.slot = .ok node := by
  rw [NodeId.fromParts, dif_pos ⟨node.nonzero, node.fits⟩]

/-- **A read decodes the cell.** -/
theorem get_holds (h : Holds owner cells p) (hi : cells[i]? = some node) : p.get owner i = .ok (some node) := by
  have hlt : i < cells.length := (List.getElem?_eq_some_iff.1 hi).1
  obtain ⟨word, hword, hencodes⟩ := h.cell i node hi
  have hlocal : p.localWord i = .ok (some word) := by
    rw [EdgePages.localWord, h.len, if_neg (Nat.not_le.2 hlt), hword]
  rw [EdgePages.get, hlocal]
  show (if word = 0 then _ else _) = _
  cases hencodes with
  | nil => rw [if_pos rfl]
  | slot n harena hslot =>
    rw [if_neg (Nat.pos_iff_ne_zero.1 n.nonzero), if_neg hslot, ← harena, fromParts_slot]
  | escaped n hentry =>
    rw [if_neg (by decide), if_pos rfl, hentry]

theorem expectCell_holds (h : Holds owner cells p) (hi : cells[i]? = some node) : p.expectCell owner i = .ok node := by
  rw [EdgePages.expectCell, get_holds h hi]

/-- the cells of a range -/
theorem mapM_holds (h : Holds owner cells p) (n : Nat) :
    ∀ start, start + n ≤ cells.length →
      (List.range' start n).mapM (p.expectCell owner) = .ok ((cells.drop start).take n) := by
  induction n with
  | zero =>
    intro start hle
    rfl
  | succ n ih =>
    intro start hle
    have hi : cells[start]? = some cells[start] := List.getElem?_eq_getElem (by omega)
    have hdrop : cells.drop start = cells[start] :: cells.drop (start + 1) := List.drop_eq_getElem_cons (by omega)
    rw [List.range'_succ, List.mapM_cons, expectCell_holds h hi, ih (start + 1) (by omega), hdrop]
    rfl

theorem iter_holds (h : Holds owner cells p) {start n : Nat}
    (hle : start + n ≤ cells.length) :
    p.iter owner start (start + n) = .ok ((cells.drop start).take n) := by
  rw [EdgePages.iter, h.len, if_pos ⟨Nat.le_add_right _ _, hle⟩, Nat.add_sub_cancel_left]
  exact mapM_holds h n start hle

/-! ## writes -/

/-- a word is written, and the entry of its index fits it; nothing else changes -/
structure Put (owner : ArenaId) (index : Nat) (node : Cell) (p p' : EdgePages) : Prop where
  len : p'.len = p.len
  pages : p'.pages.length = p.pages.length
  here : ∃ word, p'.wordAt index = some word ∧ Encodes owner word (p'.escapes index) node
  there : ∀ i, i ≠ index → p'.wordAt i = p.wordAt i ∧ p'.escapes i = p.escapes i

theorem writeWord_run (word : Nat) (h : index / pageWords < p.pages.length) :
    ∃ p', EdgePages.writeWord index word p = (.ok (), p') ∧ p'.len = p.len ∧
      p'.pages.length = p.pages.length ∧ p'.escapes = p.escapes ∧ p'.wordAt index = some word ∧
      ∀ i, i ≠ index → p'.wordAt i = p.wordAt i := by
  have hpage : p.pages[index / pageWords]? = some p.pages[index / pageWords] := List.getElem?_eq_getElem h
  rw [EdgePages.writeWord, hpage]
  refine ⟨_, rfl, rfl, List.length_set, rfl, ?_, ?_⟩
  · rw [EdgePages.wordAt]
    show Option.map _ ((List.set p.pages _ _)[index / pageWords]?) = _
    rw [List.getElem?_set_self h]
    exact congrArg some (Vector.getElem_set_self _)
  · intro i hi
    rw [EdgePages.wordAt, EdgePages.wordAt]
    show Option.map _ ((List.set p.pages _ _)[i / pageWords]?) = _
    by_cases hsame : index / pageWords = i / pageWords
    · rw [← hsame, List.getElem?_set_self h, hpage]
      refine congrArg some (Vector.getElem_set_ne _ _ ?_)
      intro hmod
      apply hi
      rw [← Nat.div_add_mod i pageWords, ← Nat.div_add_mod index pageWords, hsame, hmod]
    · rw [List.getElem?_set_ne hsame]

/-- the word that `encode` returns fits the entry that it leaves -/
theorem encode_run (owner : ArenaId) (index : Nat) (node : Cell) (p : EdgePages) :
    ∃ word entries, EdgePages.encode owner index node p = (.ok word, { p with escapes := entries }) ∧
      Encodes owner word (entries index) node ∧ ∀ i, i ≠ index → entries i = p.escapes i := by
  cases node with
  | none => exact ⟨0, p.escapes, rfl, .nil, fun _ _ => rfl⟩
  | some node =>
    rw [EdgePages.encode]
    by_cases hlocal : node.arena = owner ∧ node.slot ≠ escape
    · rw [if_pos hlocal]
      exact ⟨node.slot, p.escapes, rfl, .slot node hlocal.1 hlocal.2, fun _ _ => rfl⟩
    · rw [if_neg hlocal]
      refine ⟨escape, Function.update p.escapes index (some node), rfl, .escaped node ?_, ?_⟩
      · exact Function.update_self _ _ _
      · intro i hi
        exact Function.update_of_ne hi _ _

theorem put_run (owner : ArenaId) (node : Cell)
    (h : index / pageWords < p.pages.length) :
    ∃ p', EdgePages.put owner index node p = (.ok (), p') ∧ Put owner index node p p' := by
  obtain ⟨word, entries, hencode, hencodes, hentries⟩ := encode_run owner index node p
  obtain ⟨p', hwrite, hlen, hpages, hescapes, hhere, hthere⟩ :=
    @writeWord_run { p with escapes := entries } index word h
  refine ⟨p', (bind_run_ok hencode).trans hwrite, hlen, hpages, ⟨word, hhere, ?_⟩, ?_⟩
  · rw [hescapes]
    exact hencodes
  · intro i hi
    exact ⟨hthere i hi, by rw [hescapes]; exact hentries i hi⟩

theorem Holds.put {p p' : EdgePages}
    (h : Holds owner cells p) (hput : Put owner index node p p') : Holds owner (cells.set index node) p' where
  len := by rw [hput.len, h.len, List.length_set]
  paged := by rw [hput.pages, h.paged, List.length_set]
  cell := by
    intro i value hi
    have hlt : i < cells.length := by
      have := (List.getElem?_eq_some_iff.1 hi).1
      rwa [List.length_set] at this
    by_cases hsame : i = index
    · rw [← hsame, List.getElem?_set_self hlt] at hi
      cases hi
      rw [hsame]
      exact hput.here
    · rw [List.getElem?_set_ne (Ne.symm hsame)] at hi
      obtain ⟨hword, hescape⟩ := hput.there i hsame
      rw [hword, hescape]
      exact h.cell i value hi

/-- what a cell holds does not matter once its index is written -/
theorem Put.of_forget {p p' : EdgePages}
    (h : Put owner index node (p.forget index) p') : Put owner index node p p' where
  len := h.len
  pages := h.pages
  here := h.here
  there := by
    intro i hi
    obtain ⟨hword, hescape⟩ := h.there i hi
    exact ⟨hword, hescape.trans (Function.update_of_ne hi _ _)⟩

/-- **A cell that is there is set.** -/
theorem gives_setCell (node : Cell) (h : index < cells.length) :
    Gives (Holds owner cells) (EdgePages.set owner index node) (.ok ⟨⟩) (Holds owner (cells.set index node)) := by
  refine gives_bind (gives_read fun p hp => hp.len) ?_
  rw [if_neg (Nat.not_le.2 h)]
  intro p hp
  obtain ⟨p', hrun, hput⟩ := put_run (p := p.forget index) owner node (hp.page_lt h)
  rw [bind_run_ok (show change (EdgePages.forget index) p = (.ok (), p.forget index) from rfl), hrun]
  exact ⟨rfl, hp.put hput.of_forget⟩

/-! ## the end of the pages -/

theorem roomFor_wordAt (index : Nat) (p : EdgePages) {word : Nat} (h : p.wordAt i = some word) :
    (p.roomFor index).wordAt i = some word := by
  by_cases hpage : index % pageWords = 0
  · rw [EdgePages.roomFor, if_pos hpage]
    rw [EdgePages.wordAt, Option.map_eq_some_iff] at h
    obtain ⟨page, hget, hword⟩ := h
    rw [EdgePages.wordAt, Option.map_eq_some_iff]
    exact ⟨page, by rw [List.getElem?_append_left (List.getElem?_eq_some_iff.1 hget).1]; exact hget, hword⟩
  · rw [EdgePages.roomFor, if_neg hpage]
    exact h

/-- the page of the next cell is there -/
theorem roomFor_length (h : Holds owner cells p) :
    (p.roomFor cells.length).pages.length = (cells.length + 256) / 256 := by
  by_cases hpage : cells.length % pageWords = 0
  · have hmod : cells.length % 256 = 0 := hpage
    rw [EdgePages.roomFor, if_pos hpage]
    show (p.pages ++ [Vector.replicate pageWords 0]).length = _
    rw [List.length_append, h.paged, List.length_singleton]
    omega
  · have hmod : ¬ cells.length % 256 = 0 := hpage
    rw [EdgePages.roomFor, if_neg hpage, h.paged]
    omega

theorem roomFor_rest (index : Nat) (p : EdgePages) :
    (p.roomFor index).len = p.len ∧ (p.roomFor index).escapes = p.escapes := by
  by_cases hpage : index % pageWords = 0
  · rw [EdgePages.roomFor, if_pos hpage]
    exact ⟨rfl, rfl⟩
  · rw [EdgePages.roomFor, if_neg hpage]
    exact ⟨rfl, rfl⟩

/-- the pages after a turn of the loop -/
theorem Holds.append {p p' : EdgePages}
    (h : Holds owner cells p) (hput : Put owner cells.length node (p.roomFor cells.length) p') :
    Holds owner (cells ++ [node]) p'.longer where
  len := by
    show p'.len + 1 = _
    rw [hput.len, (roomFor_rest _ p).1, h.len, List.length_append, List.length_singleton]
  paged := by
    show p'.pages.length = _
    rw [hput.pages, roomFor_length h, List.length_append, List.length_singleton]
  cell := by
    intro i value hi
    by_cases hlt : i < cells.length
    · rw [List.getElem?_append_left hlt] at hi
      obtain ⟨word, hword, hencodes⟩ := h.cell i value hi
      obtain ⟨hsame, hescape⟩ := hput.there i (Nat.ne_of_lt hlt)
      refine ⟨word, hsame.trans (roomFor_wordAt _ p hword), ?_⟩
      show Encodes owner word (p'.escapes i) value
      rw [hescape, (roomFor_rest _ p).2]
      exact hencodes
    · have hlast : i = cells.length := by
        have := (List.getElem?_eq_some_iff.1 hi).1
        rw [List.length_append, List.length_singleton] at this
        omega
      rw [hlast, List.getElem?_concat_length] at hi
      cases hi
      rw [hlast]
      exact hput.here

/-- one turn of the loop -/
theorem gives_appendCell (cells : List Cell) (node : Cell) :
    Gives (Holds owner cells) (EdgePages.appendCell owner node) (.ok ⟨⟩) (Holds owner (cells ++ [node])) := by
  refine gives_bind (gives_read fun p hp => hp.len) ?_
  intro p hp
  have hpage : cells.length / pageWords < (p.roomFor cells.length).pages.length := by
    rw [roomFor_length hp]
    show cells.length / 256 < _
    omega
  obtain ⟨p', hrun, hput⟩ := put_run owner node hpage
  have hroom : change (EdgePages.roomFor cells.length) p = ((.ok () : Except Failure Unit), p.roomFor cells.length) :=
    rfl
  rw [bind_run_ok hroom, bind_run_ok hrun]
  exact ⟨rfl, hp.append hput⟩

/-- **Cells at the end of the pages.** -/
theorem gives_appendIter {cells nodes : List Cell} (hnodes : nodes.length < 2 ^ 32)
    (hroom : cells.length + nodes.length < 2 ^ 64) :
    Gives (Holds owner cells) (EdgePages.appendIter owner nodes) (.ok ⟨cells.length, nodes.length⟩)
      (Holds owner (cells ++ nodes)) := by
  refine gives_bind (gives_read fun p hp => hp.len) ?_
  rw [if_neg (by omega)]
  have hloop := @gives_forM _ _ _ (EdgePages.appendCell owner) nodes
    (fun k => Holds owner (cells ++ nodes.take k)) ?_
  · rw [List.take_zero, List.append_nil, List.take_length] at hloop
    exact gives_bind hloop (gives_pure _)
  · intro k hk
    rw [List.take_succ_eq_append_getElem hk, ← List.append_assoc]
    exact gives_appendCell _ _

end Tsr.Ast.Declarations
