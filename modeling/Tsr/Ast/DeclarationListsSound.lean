import Tsr.Ast.DeclarationArrays

/-!
# Declaration lists are Go slices

Any calls on any stores are calls of Go on a heap of separate arrays, with the same results; every header reads in
its store what it shows in Go.

* `GoStep`, `GoRun`   the calls in Go, and runs of them;
* `Related`           the stores and the arrays of the heap;
* `ends_made`, `ends_appended`, `ends_set`   one call;
* `declarations_goSlices`   a run.
-/

set_option linter.unusedSectionVars false

namespace Tsr.Ast.Declarations

open Tsr.Lib Tsr.Lib.Fallible Tsr.Lib.GoSlice

/-! ## the calls in Go -/

def DeclarationSlice.toGo (s : DeclarationSlice) : Slice AuxId := ⟨s.backing, s.start, s.len, s.capacity⟩

/-- the array of the header, if it has one, belongs to a store -/
def DeclarationSlice.isOf (s : DeclarationSlice) (store : ArenaId) : Prop :=
  ∀ a, s.backing = some a → a.arena = store

/-- what a call makes: the store, the values and the capacity -/
def Call.makes : Call → Option (ArenaId × List Cell × Nat)
  | .alloc store values => some (store, values, values.length)
  | .allocOne store node => some (store, [node], 1)
  | .allocWithCapacity store values capacity => some (store, values, capacity)
  | _ => none

/-- what a call appends, and where: new arrays are made in `target`, the header belongs to `reader` -/
structure Appending where
  target : ArenaId
  reader : ArenaId
  s : DeclarationSlice
  values : List Cell
  /-- only a header whose capacity is its length -/
  capped : Bool

def Call.appends (heap : Heap AuxId Cell) : Call → Option Appending
  | .append store s node => some ⟨store, store, s, [node], false⟩
  | .appendAll store s values => some ⟨store, store, s, values, false⟩
  | .appendIfUnique store s node =>
    some ⟨store, store, s, if node ∈ GoSlice.read heap s.toGo then [] else [node], false⟩
  | .appendImported target source s values => some ⟨target, source, s, values, true⟩
  | _ => none

/-- the bounds of a slice of a header -/
def Call.slices : Call → Option (DeclarationSlice × Nat × Nat × Nat)
  | .slice s start stop => some (s, start, stop, s.capacity)
  | .sliceWithCapacity s start stop max => some (s, start, stop, max)
  | _ => none

/-- a call that Go panics on, that asks the wrong store, or whose array does not fit a header -/
inductive Refused (heap : Heap AuxId Cell) : Call → Prop
  | made {call : Call} {store : ArenaId} {values : List Cell} {capacity : Nat} :
      call.makes = some (store, values, capacity) →
      2 ^ 32 ≤ values.length ∨ 2 ^ 32 ≤ capacity ∨ capacity < values.length → Refused heap call
  | appended {call : Call} {x : Appending} : call.appends heap = some x →
      ¬ x.s.isOf x.reader ∨ x.capped = true ∧ x.s.capacity ≠ x.s.len ∨ 2 ^ 31 ≤ x.s.len + x.values.length →
      Refused heap call
  | set {store : ArenaId} {s : DeclarationSlice} {index : Nat} {node : Cell} :
      ¬ s.isOf store ∨ s.len ≤ index → Refused heap (.set store s index node)
  | sliced {call : Call} {s : DeclarationSlice} {start stop max : Nat} :
      call.slices = some (s, start, stop, max) → stop < start ∨ max < stop ∨ s.capacity < max → Refused heap call

/-- **One call in Go**: its result, and the heap after it. -/
inductive GoStep (heap : Heap AuxId Cell) : Call → Outcome → Heap AuxId Cell → Prop
  | made {call : Call} {store : ArenaId} {values : List Cell} {capacity : Nat} (a : AuxId) :
      call.makes = some (store, values, capacity) → values.length ≤ capacity → a.arena = store → heap a = none →
      GoStep heap call (.ok (some ⟨some a, 0, values.length, capacity⟩))
        (Function.update heap a (some (padded none values capacity)))
  | appended {call : Call} {x : Appending} {s' : DeclarationSlice} {heap' : Heap AuxId Cell} :
      call.appends heap = some x → x.s.isOf x.reader → (x.capped = true → x.s.capacity = x.s.len) →
      Append none heap x.s.toGo x.values s'.toGo heap' →
      (∀ a, s'.backing = some a → heap a = none → a.arena = x.target) → GoStep heap call (.ok (some s')) heap'
  | set {store : ArenaId} {s : DeclarationSlice} {index : Nat} {node : Cell} : s.isOf store → index < s.len →
      GoStep heap (.set store s index node) (.ok none) (write heap s.toGo index [node])
  | sliced {call : Call} {s : DeclarationSlice} {start stop max : Nat} :
      call.slices = some (s, start, stop, max) → start ≤ stop → stop ≤ max → max ≤ s.capacity →
      GoStep heap call (.ok (some ⟨s.backing, s.start + start, stop - start, max - start⟩)) heap
  | refused {call : Call} (e : Error) : Refused heap call → GoStep heap call (.error (.error e)) heap

/-- the calls of a run in Go, on a heap that is empty at first -/
inductive GoRun : List (Call × Outcome) → Heap AuxId Cell → Prop
  | start : GoRun [] fun _ => none
  | step {trace : List (Call × Outcome)} {heap heap' : Heap AuxId Cell} {call : Call} {out : Outcome} :
      GoRun trace heap → GoStep heap call out heap' → GoRun (trace ++ [(call, out)]) heap'

/-! ## the arrays of the heap -/

/-- the arrays of the stores, by their identities -/
def heapOf (arrays : ArenaId → List (List Cell)) : Heap AuxId Cell := fun a => (arrays a.arena)[a.slot - 1]?

/-- every store has its arrays -/
structure Related (arrays : ArenaId → List (List Cell)) (w : World) : Prop where
  stands : ∀ id, Stands id (arrays id) (arrays id).flatten [] (w id)
  fits : ∀ id, Fits (arrays id)

section
variable {arrays : ArenaId → List (List Cell)} {w : World} {store : ArenaId} {s : DeclarationSlice} {a : AuxId}
  {before after : List (List Cell)} {cells : List Cell}

theorem related_start : Related (fun _ => []) World.start where
  stands := stands_new
  fits := fun _ => ⟨by decide, nofun⟩

theorem AuxId.ext_parts {a b : AuxId} (harena : a.arena = b.arena) (hslot : a.slot = b.slot) : a = b := by
  cases a
  cases b
  cases harena
  cases hslot
  rfl

/-- the slots of other backings are other places -/
theorem slot_ne {a b : AuxId} (harena : b.arena = a.arena) (hne : b ≠ a) : b.slot - 1 ≠ a.slot - 1 := by
  intro hslot
  have ha := a.nonzero
  have hb := b.nonzero
  exact hne (AuxId.ext_parts harena (by omega))

/-- an array more -/
theorem heapOf_made (a : AuxId) (cells : List Cell) (ha : a.slot = (arrays a.arena).length + 1) :
    heapOf arrays a = none ∧ heapOf (Function.update arrays a.arena (arrays a.arena ++ [cells]))
      = Function.update (heapOf arrays) a (some cells) := by
  have hplace : a.slot - 1 = (arrays a.arena).length := by omega
  refine ⟨?_, ?_⟩
  · show (arrays a.arena)[a.slot - 1]? = none
    rw [hplace]
    exact List.getElem?_eq_none (Nat.le_refl _)
  · funext b
    show (Function.update arrays a.arena _ b.arena)[b.slot - 1]? = _
    by_cases hb : b = a
    · rw [hb, Function.update_self, Function.update_self, hplace, List.getElem?_concat_length]
    · rw [Function.update_of_ne hb]
      by_cases harena : b.arena = a.arena
      · have hne := slot_ne harena hb
        rw [harena, Function.update_self]
        show _ = (arrays b.arena)[b.slot - 1]?
        rw [harena]
        by_cases hlt : b.slot - 1 < (arrays a.arena).length
        · exact List.getElem?_append_left hlt
        · rw [List.getElem?_eq_none (Nat.le_of_not_lt hlt), List.getElem?_eq_none]
          rw [List.length_append, List.length_singleton]
          omega
      · rw [Function.update_of_ne harena]
        rfl

/-- an array among those of its store -/
theorem heapOf_split (h : heapOf arrays a = some cells) :
    ∃ before after, arrays a.arena = before ++ cells :: after ∧ before.length + 1 = a.slot := by
  have hget : (arrays a.arena)[a.slot - 1]? = some cells := h
  obtain ⟨hlt, hcells⟩ := List.getElem?_eq_some_iff.1 hget
  have hslot := a.nonzero
  refine ⟨(arrays a.arena).take (a.slot - 1), (arrays a.arena).drop (a.slot - 1 + 1), ?_, ?_⟩
  · rw [← hcells, ← List.drop_eq_getElem_cons hlt, List.take_append_drop]
  · rw [List.length_take]
    omega

/-- a header lies in an array of its store -/
theorem points (h : GoSlice.Valid (heapOf arrays) s.toGo) (hs : s.backing = some a) :
    ∃ before after cells, Points a.arena (arrays a.arena) s a before after cells ∧ heapOf arrays a = some cells := by
  obtain ⟨cells, hcells, hinside⟩ := h.inside a hs
  obtain ⟨before, after, hsplit, hslot⟩ := heapOf_split hcells
  exact ⟨before, after, cells, ⟨hs, rfl, hsplit, hslot, hinside, h.len⟩, hcells⟩

/-- an array replaced -/
theorem heapOf_replaced (harrays : arrays a.arena = before ++ cells :: after) (hslot : before.length + 1 = a.slot)
    (cells' : List Cell) : heapOf (Function.update arrays a.arena (before ++ cells' :: after))
      = Function.update (heapOf arrays) a (some cells') := by
  have hplace : a.slot - 1 = before.length := by
    rw [← hslot]
    exact Nat.add_sub_cancel _ _
  funext b
  show (Function.update arrays a.arena _ b.arena)[b.slot - 1]? = _
  by_cases hb : b = a
  · rw [hb, Function.update_self, Function.update_self, hplace, List.getElem?_append_right (Nat.le_refl _),
      Nat.sub_self]
    rfl
  · rw [Function.update_of_ne hb]
    by_cases harena : b.arena = a.arena
    · have hne := slot_ne harena hb
      rw [harena, Function.update_self]
      show _ = (arrays b.arena)[b.slot - 1]?
      rw [harena, harrays]
      by_cases hlt : b.slot - 1 < before.length
      · rw [List.getElem?_append_left hlt, List.getElem?_append_left hlt]
      · obtain ⟨n, hn⟩ : ∃ n, b.slot - 1 - before.length = n + 1 := ⟨b.slot - 1 - before.length - 1, by omega⟩
        rw [List.getElem?_append_right (Nat.le_of_not_lt hlt), List.getElem?_append_right (Nat.le_of_not_lt hlt), hn]
        rfl
    · rw [Function.update_of_ne harena]
      rfl

/-- **What a header shows in Go lies in its store.** -/
theorem located (hrelated : Related arrays w) (h : GoSlice.Valid (heapOf arrays) s.toGo) (hof : s.isOf store) :
    ∃ start, Located store (arrays store) s start (GoSlice.read (heapOf arrays) s.toGo) := by
  cases hs : s.backing with
  | none =>
    have hcapacity := h.nil hs
    have hlen : s.toGo.len ≤ s.toGo.capacity := h.len
    have hnil : GoSlice.read (heapOf arrays) s.toGo = [] := by
      rw [GoSlice.read, show s.toGo.array = none from hs]
    refine ⟨0, ?_⟩
    rw [hnil]
    exact located_nil store _ hs (show s.toGo.len = 0 by omega)
  | some a =>
    have hstore := hof a hs
    cases hstore
    obtain ⟨before, after, cells, hpoints, hcells⟩ := points h hs
    refine ⟨before.flatten.length + s.start, ?_⟩
    rw [read_of_array (show s.toGo.array = some a from hs) hcells]
    exact hpoints.located (hrelated.fits _)

/-- a header of another store is refused -/
theorem range_other {others : List (List Cell)} {l : DeclarationLists}
    (hl : Stands store others others.flatten [] l) (hof : ¬ s.isOf store) : l.range s = .error .wrongOwner := by
  obtain ⟨owner, h⟩ := hl
  rw [DeclarationLists.range]
  cases hs : s.backing with
  | none =>
    refine absurd ?_ hof
    intro a ha
    rw [hs] at ha
    cases ha
  | some a =>
    have hne : a.arena ≠ l.id := by
      rw [h.own]
      intro ha
      apply hof
      intro b hb
      rw [hs] at hb
      cases hb
      exact ha
    dsimp only
    rw [DeclarationLists.backing, if_pos hne]

/-! ## how a call ends -/

/-- with a panic, when the arena of the backings is full, or as the call in Go does -/
inductive Ends (arrays : ArenaId → List (List Cell)) (call : Call) : Outcome → World → Prop
  | panics {w' : World} (store : ArenaId) : 2 ^ 32 ≤ (arrays store).length + 1 → Ends arrays call (.error .panic) w'
  | goes {out : Outcome} {w' : World} (arrays' : ArenaId → List (List Cell)) : Related arrays' w' →
      GoStep (heapOf arrays) call out (heapOf arrays') →
      (∀ s : DeclarationSlice, GoSlice.Valid (heapOf arrays) s.toGo → GoSlice.Valid (heapOf arrays') s.toGo) →
      (∀ s : DeclarationSlice, out = .ok (some s) → GoSlice.Valid (heapOf arrays') s.toGo) → Ends arrays call out w'

/-- one store with other arrays -/
theorem Related.updated (h : Related arrays w) {others : List (List Cell)} {l : DeclarationLists}
    (hl : Stands store others others.flatten [] l) (hfits : Fits others) :
    Related (Function.update arrays store others) (Function.update w store l) where
  stands := by
    intro id
    by_cases hid : id = store
    · rw [hid, Function.update_self, Function.update_self]
      exact hl
    · rw [Function.update_of_ne hid, Function.update_of_ne hid]
      exact h.stands id
  fits := by
    intro id
    by_cases hid : id = store
    · rw [hid, Function.update_self]
      exact hfits
    · rw [Function.update_of_ne hid]
      exact h.fits id

theorem Related.same (h : Related arrays w) {l : DeclarationLists}
    (hl : Stands store (arrays store) (arrays store).flatten [] l) : Related arrays (Function.update w store l) := by
  have := h.updated hl (h.fits store)
  rwa [Function.update_eq_self] at this

section
variable {call : Call} {x : Fallible DeclarationLists Failure DeclarationSlice}

/-- a refused call -/
theorem ends_refused (hrelated : Related arrays w) {e : Error}
    (hx : Gives (Stands store (arrays store) (arrays store).flatten []) x (.error (.error e))
      (Stands store (arrays store) (arrays store).flatten [])) (hrefused : Refused (heapOf arrays) call) :
    Ends arrays call (w.onHeader store x).1 (w.onHeader store x).2 := by
  obtain ⟨hresult, hstands⟩ := hx _ (hrelated.stands store)
  have hout : (w.onHeader store x).1 = .error (.error e) := by
    show Except.map some (x (w store)).1 = _
    rw [hresult]
    rfl
  rw [hout]
  refine .goes arrays (hrelated.same hstands) (.refused e hrefused) (fun s hs => hs) ?_
  intro s hs
  cases hs

/-- a call that returns a header that there is -/
theorem ends_kept (hrelated : Related arrays w)
    (hx : Gives (Stands store (arrays store) (arrays store).flatten []) x (.ok s)
      (Stands store (arrays store) (arrays store).flatten [])) (hvalid : GoSlice.Valid (heapOf arrays) s.toGo)
    (hgo : GoStep (heapOf arrays) call (.ok (some s)) (heapOf arrays)) :
    Ends arrays call (w.onHeader store x).1 (w.onHeader store x).2 := by
  obtain ⟨hresult, hstands⟩ := hx _ (hrelated.stands store)
  have hout : (w.onHeader store x).1 = .ok (some s) := by
    show Except.map some (x (w store)).1 = _
    rw [hresult]
    rfl
  rw [hout]
  refine .goes arrays (hrelated.same hstands) hgo (fun s hs => hs) ?_
  intro t ht
  cases ht
  exact hvalid

/-- **A call that makes an array.** -/
theorem ends_made (hrelated : Related arrays w) {len capacity : Nat} {cells : List Cell}
    (hx : Gives (Stands store (arrays store) (arrays store).flatten []) x
      (newHeader store (arrays store).length len capacity) (Makes store (arrays store) cells))
    (hcells : cells.length = capacity) (hlen : len ≤ capacity) (hsmall : capacity < 2 ^ 32)
    (hgo : ∀ a : AuxId, a.arena = store → heapOf arrays a = none →
      GoStep (heapOf arrays) call (.ok (some ⟨some a, 0, len, capacity⟩))
        (Function.update (heapOf arrays) a (some cells))) :
    Ends arrays call (w.onHeader store x).1 (w.onHeader store x).2 := by
  cases hcells
  obtain ⟨hresult, hmakes⟩ := hx _ (hrelated.stands store)
  by_cases hroom : (arrays store).length + 1 < 2 ^ 32
  · have hout : (w.onHeader store x).1
        = .ok (some ⟨some ⟨store, (arrays store).length + 1, Nat.succ_pos _, hroom⟩, 0, len, cells.length⟩) := by
      show Except.map some (x (w store)).1 = _
      rw [hresult, newHeader, dif_pos hroom]
      rfl
    obtain ⟨hnone, hheap⟩ :=
      @heapOf_made arrays ⟨store, (arrays store).length + 1, Nat.succ_pos _, hroom⟩ cells rfl
    have hfits : Fits (arrays store ++ [cells]) := by
      refine ⟨?_, ?_⟩
      · rw [List.length_append, List.length_singleton]
        exact hroom
      · intro c hc
        rcases List.mem_append.1 hc with hold | hnew
        · exact (hrelated.fits store).lengths c hold
        · rw [List.mem_singleton.1 hnew]
          exact hsmall
    rw [hout]
    refine .goes (Function.update arrays store (arrays store ++ [cells])) (hrelated.updated (hmakes hroom) hfits) ?_ ?_ ?_
    · rw [hheap]
      exact hgo _ rfl hnone
    · intro s hs
      rw [hheap]
      exact hs.made hnone
    · intro s hs
      cases hs
      rw [hheap]
      refine ⟨hlen, ?_, ?_⟩
      · intro hnil
        cases hnil
      · intro a ha
        cases ha
        refine ⟨cells, Function.update_self _ _ _, ?_⟩
        show 0 + cells.length ≤ cells.length
        rw [Nat.zero_add]
  · have hout : (w.onHeader store x).1 = .error .panic := by
      show Except.map some (x (w store)).1 = _
      rw [hresult, newHeader, dif_neg hroom]
      rfl
    rw [hout]
    exact .panics store (Nat.le_of_not_lt hroom)

/-- an array that is written -/
theorem Related.written (hrelated : Related arrays w) {l : DeclarationLists}
    (hcells : heapOf arrays a = some cells) (harrays : arrays a.arena = before ++ cells :: after)
    (hslot : before.length + 1 = a.slot) {cells' : List Cell} (hlength : cells'.length = cells.length)
    (hl : Stands a.arena (before ++ cells' :: after) (before ++ cells' :: after).flatten [] l) :
    ∃ arrays', Related arrays' (Function.update w a.arena l) ∧
      heapOf arrays' = Function.update (heapOf arrays) a (some cells') ∧
      ∀ s : DeclarationSlice, GoSlice.Valid (heapOf arrays) s.toGo → GoSlice.Valid (heapOf arrays') s.toGo := by
  have hfits : Fits (before ++ cells' :: after) := by
    have hold := hrelated.fits a.arena
    rw [harrays] at hold
    refine ⟨?_, ?_⟩
    · have := hold.count
      rw [List.length_append, List.length_cons] at this ⊢
      exact this
    · intro c hc
      rcases List.mem_append.1 hc with hbefore | hrest
      · exact hold.lengths c (List.mem_append_left _ hbefore)
      · rcases List.mem_cons.1 hrest with hnew | hafter
        · rw [hnew, hlength]
          exact hold.lengths cells (List.mem_append_right _ List.mem_cons_self)
        · exact hold.lengths c (List.mem_append_right _ (List.mem_cons_of_mem _ hafter))
  have hheap := heapOf_replaced harrays hslot cells'
  refine ⟨_, hrelated.updated hl hfits, hheap, ?_⟩
  intro s hs
  rw [hheap]
  exact hs.replaced hcells hlength

/-! ## arrays that are made -/

theorem ends_allocWithCapacity (hrelated : Related arrays w) {values : List Cell} {capacity : Nat}
    (hcall : call.makes = some (store, values, capacity)) :
    Ends arrays call (w.onHeader store (DeclarationLists.allocWithCapacity values capacity)).1
      (w.onHeader store (DeclarationLists.allocWithCapacity values capacity)).2 := by
  by_cases hfits : 2 ^ 32 ≤ values.length ∨ 2 ^ 32 ≤ capacity ∨ capacity < values.length
  · refine ends_refused hrelated (e := .invalidSlot) ?_ (.made hcall hfits)
    rw [DeclarationLists.allocWithCapacity, if_pos hfits]
    exact gives_fail _
  · refine ends_made hrelated (gives_allocWithCapacity (hrelated.fits store) (by omega) (by omega))
      (length_fill values capacity) (by omega) (by omega) ?_
    intro a ha hnone
    rw [fill_eq]
    exact .made a hcall (by omega) ha hnone

theorem ends_allocOne (hrelated : Related arrays w) {node : Cell} (hcall : call.makes = some (store, [node], 1)) :
    Ends arrays call (w.onHeader store (DeclarationLists.allocOne node)).1
      (w.onHeader store (DeclarationLists.allocOne node)).2 := by
  refine ends_made hrelated (gives_allocOne (hrelated.fits store) node) (show [node].length = 1 from rfl)
    (Nat.le_refl 1) (by decide) ?_
  intro a ha hnone
  exact .made a hcall (Nat.le_refl 1) ha hnone

/-! ## appends -/

/-- a growth that is not refused makes an array with room for the values -/
theorem ends_grown (hrelated : Related arrays w) {v : Appending} {shown : List Cell} {capacity : Nat}
    (hcall : call.appends (heapOf arrays) = some v) (hof : v.s.isOf v.reader)
    (hcapped : v.capped = true → v.s.capacity = v.s.len)
    (hshown : shown = GoSlice.read (heapOf arrays) v.s.toGo) (hvalues : v.values ≠ [])
    (hlen : v.s.capacity < v.s.len + v.values.length)
    (hgrowth : declarationGrowthCapacity (v.s.len + v.values.length) v.s.capacity = .ok capacity)
    (hx : Gives (Stands v.target (arrays v.target) (arrays v.target).flatten []) x
      (newHeader v.target (arrays v.target).length (v.s.len + v.values.length) capacity)
      (Makes v.target (arrays v.target) (DeclarationLists.fill (shown ++ v.values) capacity))) :
    Ends arrays call (w.onHeader v.target x).1 (w.onHeader v.target x).2 := by
  obtain ⟨hroom, hsmall⟩ := growth_ok hgrowth
  refine ends_made hrelated hx (length_fill _ _) hroom hsmall ?_
  intro a ha hnone
  rw [fill_eq, hshown]
  refine .appended hcall hof hcapped (.grown a capacity hvalues hlen hnone hroom) ?_
  intro b hb _
  cases hb
  exact ha

/-- an append within the capacity -/
theorem ends_within (hrelated : Related arrays w) {values : List Cell} (hvalid : GoSlice.Valid (heapOf arrays) s.toGo)
    (hcall : call.appends (heapOf arrays) = some ⟨store, store, s, values, false⟩) (hof : s.isOf store)
    (hvalues : values ≠ []) (hwithin : s.len + values.length ≤ s.capacity)
    (hx : ∀ l, Stands store (arrays store) (arrays store).flatten [] l →
      x l = DeclarationLists.appendWithin s values l) :
    Ends arrays call (w.onHeader store x).1 (w.onHeader store x).2 := by
  have hpos := List.length_pos_iff.2 hvalues
  cases hs : s.backing with
  | none =>
    have hcapacity : s.start = 0 ∧ s.capacity = 0 := hvalid.nil hs
    omega
  | some a =>
    have hstore := hof a hs
    cases hstore
    obtain ⟨before, after, cells, hpoints, hcells⟩ := points hvalid hs
    have hinside := hpoints.inside
    have hgives := gives_within hpoints hwithin
    obtain ⟨hresult, hstands⟩ := hgives _ (hrelated.stands a.arena)
    rw [← hx _ (hrelated.stands a.arena)] at hresult hstands
    obtain ⟨arrays', hrelated', hheap, hkept⟩ := hrelated.written hcells hpoints.arrays hpoints.slot
      (length_overwrite (show s.start + s.len + values.length ≤ cells.length by omega)) hstands
    have hout : (w.onHeader a.arena x).1 = .ok (some { s with len := s.len + values.length }) := by
      show Except.map some (x (w a.arena)).1 = _
      rw [hresult]
      rfl
    have hwrite : heapOf arrays' = GoSlice.write (heapOf arrays) s.toGo s.len values := by
      rw [hheap]
      exact (write_of_array (show s.toGo.array = some a from hs) hcells s.len values).symm
    rw [hout]
    refine .goes arrays' hrelated' (.appended hcall hof nofun ?_ ?_) hkept ?_
    · rw [hwrite]
      exact .within hvalues hwithin
    · intro b hb hnone
      have hba : s.backing = some b := hb
      rw [hs] at hba
      cases hba
      rw [hcells] at hnone
    · intro t ht
      cases ht
      have hold := hkept s hvalid
      exact ⟨hwithin, hold.nil, hold.inside⟩

/-- **`appendAll`** -/
theorem ends_appendAll (hrelated : Related arrays w) {values : List Cell}
    (hvalid : GoSlice.Valid (heapOf arrays) s.toGo)
    (hcall : call.appends (heapOf arrays) = some ⟨store, store, s, values, false⟩) :
    Ends arrays call (w.onHeader store (DeclarationLists.appendAll s values)).1
      (w.onHeader store (DeclarationLists.appendAll s values)).2 := by
  by_cases hof : s.isOf store
  · obtain ⟨start, hlocated⟩ := located hrelated hvalid hof
    have hrange : Gives (Stands store (arrays store) (arrays store).flatten [])
        (look fun l => raise (l.range s)) (.ok (start, start + s.len))
        (Stands store (arrays store) (arrays store).flatten []) :=
      gives_look fun l hl => by rw [hlocated.range l hl]; rfl
    by_cases hvalues : values = []
    · refine ends_kept hrelated ?_ hvalid (.appended hcall hof nofun (.nothing hvalues) ?_)
      · refine gives_bind hrange ?_
        rw [if_pos hvalues]
        exact gives_pure _
      · intro a ha hnone
        obtain ⟨cells, hcells, -⟩ := hvalid.inside a ha
        rw [hnone] at hcells
        cases hcells
    · by_cases hsmall : 2 ^ 32 ≤ values.length ∨ 2 ^ 32 ≤ s.len + values.length
      · refine ends_refused hrelated (e := .invalidSlot) ?_
          (.appended hcall (.inr (.inr (show 2 ^ 31 ≤ s.len + values.length by omega))))
        refine gives_bind hrange ?_
        rw [if_neg hvalues, if_pos hsmall]
        exact gives_fail _
      · by_cases hwithin : s.len + values.length ≤ s.capacity
        · refine ends_within hrelated hvalid hcall hof hvalues hwithin ?_
          intro l hl
          obtain ⟨hresult, -⟩ := hrange l hl
          rw [DeclarationLists.appendAll, bind_run_ok (Prod.ext hresult rfl), if_neg hvalues, if_neg hsmall,
            if_pos hwithin]
          rfl
        · cases hgrowth : declarationGrowthCapacity (s.len + values.length) s.capacity with
          | error e =>
            have hlarge : 2 ^ 31 ≤ s.len + values.length := by
              by_contra hlt
              obtain ⟨capacity, hok⟩ := growth_total (Nat.lt_of_not_le hlt) (Nat.lt_of_not_le hwithin)
              rw [hgrowth] at hok
              cases hok
            refine ends_refused hrelated (e := e) ?_ (.appended hcall (.inr (.inr hlarge)))
            refine gives_bind hrange ?_
            rw [if_neg hvalues, if_neg hsmall, if_neg hwithin]
            exact gives_bind_error (gives_look fun l _ => by rw [hgrowth]; rfl)
          | ok capacity =>
            refine ends_grown hrelated hcall hof nofun rfl hvalues (Nat.lt_of_not_le hwithin) hgrowth ?_
            exact gives_appendAll_grown (hrelated.fits store) hlocated hvalues (Nat.lt_of_not_le hwithin) (by omega)
              hgrowth
  · refine ends_refused hrelated (e := .wrongOwner) ?_ (.appended hcall (.inl hof))
    exact gives_bind_error (gives_look fun l hl => by rw [range_other hl hof]; rfl)

/-- **`appendIfUnique`** appends the values that are not there. -/
theorem unique_run (hrelated : Related arrays w) (hvalid : GoSlice.Valid (heapOf arrays) s.toGo) (node : Cell) :
    DeclarationLists.appendIfUnique s node (w store) = DeclarationLists.appendAll s
      (if node ∈ GoSlice.read (heapOf arrays) s.toGo then [] else [node]) (w store) := by
  have hstands := hrelated.stands store
  by_cases hof : s.isOf store
  · obtain ⟨start, hlocated⟩ := located hrelated hvalid hof
    obtain ⟨r, hget, -, hread⟩ := hlocated.get hstands
    have hlook : look (fun l : DeclarationLists => raise (l.get s)) (w store) = (.ok r, w store) := by
      show (raise ((w store).get s), w store) = _
      rw [hget]
      rfl
    have hcontains : look (fun _ : DeclarationLists => r.contains node) (w store)
        = (.ok (decide (node ∈ GoSlice.read (heapOf arrays) s.toGo)), w store) := by
      show (r.contains node, w store) = _
      rw [DeclarationRead.contains, hread]
    have hrange : look (fun l : DeclarationLists => raise (l.range s)) (w store)
        = (.ok (start, start + s.len), w store) := by
      show (raise ((w store).range s), w store) = _
      rw [hlocated.range _ hstands]
      rfl
    rw [DeclarationLists.appendIfUnique, bind_run_ok hlook, bind_run_ok hcontains]
    by_cases hmem : node ∈ GoSlice.read (heapOf arrays) s.toGo
    · rw [if_pos hmem, if_pos (decide_eq_true hmem), DeclarationLists.appendAll, bind_run_ok hrange, if_pos rfl]
    · rw [if_neg hmem, if_neg (by rw [decide_eq_true_eq]; exact hmem)]
      rfl
  · have hrange := range_other hstands hof
    have hget : look (fun l : DeclarationLists => raise (l.get s)) (w store)
        = (.error (.error .wrongOwner), w store) := by
      show (raise ((w store).get s), w store) = _
      rw [DeclarationLists.get, hrange]
      rfl
    have hlook : look (fun l : DeclarationLists => raise (l.range s)) (w store)
        = (.error (.error .wrongOwner), w store) := by
      show (raise ((w store).range s), w store) = _
      rw [hrange]
      rfl
    rw [DeclarationLists.appendIfUnique, bind_run_error hget, DeclarationLists.appendAll, bind_run_error hlook]

/-- a header that is read in its store for another one -/
theorem gives_imported {others : List (List Cell)} (hfits : Fits others) {shown values : List Cell}
    {existing : DeclarationRead} {capacity : Nat} (hread : existing.toVec = .ok shown)
    (hlen : existing.len = s.len) (hcapped : s.capacity = s.len) (hvalues : values ≠ [])
    (hsmall : s.len + values.length < 2 ^ 64)
    (hgrowth : declarationGrowthCapacity (s.len + values.length) s.capacity = .ok capacity) :
    Gives (Stands store others others.flatten []) (DeclarationLists.appendImported s existing values)
      (newHeader store others.length (s.len + values.length) capacity)
      (Makes store others (DeclarationLists.fill (shown ++ values) capacity)) := by
  have hcapacity := (growth_ok hgrowth).2
  rw [DeclarationLists.appendImported, if_neg (by rw [hlen, hcapped]; simp), if_neg hvalues, if_neg (by omega)]
  refine gives_bind (gives_look fun l _ => by rw [hgrowth]; rfl) ?_
  refine gives_bind (gives_look fun l _ => hread) ?_
  refine gives_bind (gives_observeAll (shown ++ values)) ?_
  have hmakes := @gives_makes store others ([] ++ (shown ++ values)) hfits
    (DeclarationLists.fill (shown ++ values) capacity) (s.len + values.length)
    (by rw [length_fill]; exact hcapacity)
    (fun hall => nil_of_fill (fun n hn => hall n (List.mem_append_right _ hn)) capacity)
  rw [length_fill] at hmakes
  exact hmakes

/-- **`appendImported`** -/
theorem ends_appendImported (hrelated : Related arrays w) {source : ArenaId} {values : List Cell}
    (hvalid : GoSlice.Valid (heapOf arrays) s.toGo) {existing : DeclarationRead}
    (hof : s.isOf source) (hget : (w source).get s = .ok existing)
    (hcall : call.appends (heapOf arrays) = some ⟨store, source, s, values, true⟩) :
    Ends arrays call (w.onHeader store (DeclarationLists.appendImported s existing values)).1
      (w.onHeader store (DeclarationLists.appendImported s existing values)).2 := by
  obtain ⟨start, hlocated⟩ := located hrelated hvalid hof
  obtain ⟨r, hr, hlen, hread⟩ := hlocated.get (hrelated.stands source)
  rw [hget] at hr
  cases hr
  by_cases hcapped : s.capacity = s.len
  · have hmatch : ¬ (existing.len ≠ s.len ∨ s.capacity ≠ s.len) := by
      rw [hlen, hcapped]
      simp
    by_cases hvalues : values = []
    · refine ends_kept hrelated ?_ hvalid (.appended hcall hof (fun _ => hcapped) (.nothing hvalues) ?_)
      · rw [DeclarationLists.appendImported, if_neg hmatch, if_pos hvalues]
        exact gives_pure _
      · intro a ha hnone
        obtain ⟨cells, hcells, -⟩ := hvalid.inside a ha
        rw [hnone] at hcells
        cases hcells
    · by_cases hsmall : 2 ^ 64 ≤ s.len + values.length
      · refine ends_refused hrelated (e := .invalidSlot) ?_
          (.appended hcall (.inr (.inr (show 2 ^ 31 ≤ s.len + values.length by omega))))
        rw [DeclarationLists.appendImported, if_neg hmatch, if_neg hvalues, if_pos hsmall]
        exact gives_fail _
      · have hpos := List.length_pos_iff.2 hvalues
        have hmore : s.capacity < s.len + values.length := by omega
        cases hgrowth : declarationGrowthCapacity (s.len + values.length) s.capacity with
        | error e =>
          have hlarge : 2 ^ 31 ≤ s.len + values.length := by
            by_contra hlt
            obtain ⟨capacity, hok⟩ := growth_total (Nat.lt_of_not_le hlt) hmore
            rw [hgrowth] at hok
            cases hok
          refine ends_refused hrelated (e := e) ?_ (.appended hcall (.inr (.inr hlarge)))
          rw [DeclarationLists.appendImported, if_neg hmatch, if_neg hvalues, if_neg hsmall]
          exact gives_bind_error (gives_look fun l _ => by rw [hgrowth]; rfl)
        | ok capacity =>
          refine ends_grown hrelated hcall hof (fun _ => hcapped) rfl hvalues hmore hgrowth ?_
          exact gives_imported (hrelated.fits store) hread hlen hcapped hvalues (Nat.lt_of_not_le hsmall) hgrowth
  · refine ends_refused hrelated (e := .invalidSlot) ?_ (.appended hcall (.inr (.inl ⟨rfl, hcapped⟩)))
    rw [DeclarationLists.appendImported, if_pos (.inr hcapped)]
    exact gives_fail _

end

/-! ## cells and slices -/

/-- **`set`** -/
theorem ends_set (hrelated : Related arrays w) (hvalid : GoSlice.Valid (heapOf arrays) s.toGo) (index : Nat)
    (node : Cell) : Ends arrays (.set store s index node) (perform w (.set store s index node)).1
      (perform w (.set store s index node)).2 := by
  have hstands := hrelated.stands store
  by_cases hallowed : s.isOf store ∧ index < s.len
  · obtain ⟨hof, hindex⟩ := hallowed
    have hlen : s.len ≤ s.capacity := hvalid.len
    cases hs : s.backing with
    | none =>
      have hcapacity : s.start = 0 ∧ s.capacity = 0 := hvalid.nil hs
      omega
    | some a =>
      have hstore := hof a hs
      cases hstore
      obtain ⟨before, after, cells, hpoints, hcells⟩ := points hvalid hs
      have hinside := hpoints.inside
      obtain ⟨hresult, hwritten⟩ := gives_set (hrelated.fits a.arena) hpoints node hindex _ hstands
      obtain ⟨arrays', hrelated', hheap, hkept⟩ := hrelated.written hcells hpoints.arrays hpoints.slot
        (length_overwrite (show s.start + index + 1 ≤ cells.length by omega)) hwritten
      have hout : (perform w (.set a.arena s index node)).1 = .ok none := by
        show Except.map _ (DeclarationLists.set s index node (w a.arena)).1 = _
        rw [hresult]
        rfl
      have hwrite : heapOf arrays' = GoSlice.write (heapOf arrays) s.toGo index [node] := by
        rw [hheap]
        exact (write_of_array (show s.toGo.array = some a from hs) hcells index [node]).symm
      rw [hout]
      refine .goes arrays' hrelated' ?_ hkept ?_
      · rw [hwrite]
        exact .set hof hindex
      · intro t ht
        cases ht
  · have hfails : ∃ e, Gives (Stands store (arrays store) (arrays store).flatten []) (DeclarationLists.set s index node)
        (.error (.error e)) (Stands store (arrays store) (arrays store).flatten []) := by
      by_cases hof : s.isOf store
      · obtain ⟨start, hlocated⟩ := located hrelated hvalid hof
        have hindex : start + s.len - start ≤ index := by
          have : ¬ index < s.len := fun h => hallowed ⟨hof, h⟩
          omega
        refine ⟨.invalidSlot, gives_bind (gives_look fun l hl => by rw [hlocated.range l hl]; rfl) ?_⟩
        show Gives _ (if start + s.len - start ≤ index then _ else _) _ _
        rw [if_pos hindex]
        exact gives_fail _
      · exact ⟨.wrongOwner, gives_bind_error (gives_look fun l hl => by rw [range_other hl hof]; rfl)⟩
    obtain ⟨e, hgives⟩ := hfails
    obtain ⟨hresult, hsame⟩ := hgives _ hstands
    have hout : (perform w (.set store s index node)).1 = .error (.error e) := by
      show Except.map _ (DeclarationLists.set s index node (w store)).1 = _
      rw [hresult]
      rfl
    rw [hout]
    refine .goes arrays (hrelated.same hsame) (.refused e (.set ?_)) (fun s hs => hs) ?_
    · by_cases hof : s.isOf store
      · exact .inr (Nat.le_of_not_lt fun h => hallowed ⟨hof, h⟩)
      · exact .inl hof
    · intro t ht
      cases ht

/-- **Slices** of a header -/
theorem ends_slice (hrelated : Related arrays w) (hvalid : GoSlice.Valid (heapOf arrays) s.toGo) {call : Call}
    {start stop max : Nat} (hcall : call.slices = some (s, start, stop, max)) :
    Ends arrays call ((raise (s.sliceWithCapacity start stop max)).map some) w := by
  by_cases hbounds : stop < start ∨ max < stop ∨ s.capacity < max
  · have hout : (raise (s.sliceWithCapacity start stop max)).map some = .error (.error .invalidSlot) := by
      rw [DeclarationSlice.sliceWithCapacity, if_pos hbounds]
      rfl
    rw [hout]
    refine .goes arrays hrelated (.refused .invalidSlot (.sliced hcall hbounds)) (fun s hs => hs) ?_
    intro t ht
    cases ht
  · have hfits : s.start + start < 2 ^ 32 := by
      cases hs : s.backing with
      | none =>
        have hcapacity : s.start = 0 ∧ s.capacity = 0 := hvalid.nil hs
        omega
      | some a =>
        obtain ⟨before, after, cells, hpoints, -⟩ := points hvalid hs
        have hinside := hpoints.inside
        have hcells : cells ∈ arrays a.arena := by
          rw [hpoints.arrays]
          exact List.mem_append_right _ List.mem_cons_self
        have := (hrelated.fits a.arena).lengths cells hcells
        omega
    have hout : (raise (s.sliceWithCapacity start stop max)).map some
        = .ok (some ⟨s.backing, s.start + start, stop - start, max - start⟩) := by
      rw [DeclarationSlice.sliceWithCapacity, if_neg hbounds, if_neg (Nat.not_le.2 hfits)]
      rfl
    rw [hout]
    refine .goes arrays hrelated (.sliced hcall (by omega) (by omega) (by omega)) (fun s hs => hs) ?_
    intro t ht
    cases ht
    exact hvalid.slice (by omega) (by omega) (show max ≤ s.capacity by omega)

/-! ## runs -/

/-- **One call** on any of the stores. -/
theorem perform_ends (hrelated : Related arrays w) (call : Call)
    (hvalid : ∀ s, call.header = some s → GoSlice.Valid (heapOf arrays) s.toGo) :
    Ends arrays call (perform w call).1 (perform w call).2 := by
  cases call with
  | alloc store values => exact ends_allocWithCapacity hrelated rfl
  | allocOne store node => exact ends_allocOne hrelated rfl
  | allocWithCapacity store values capacity => exact ends_allocWithCapacity hrelated rfl
  | append store s node => exact ends_appendAll hrelated (hvalid s rfl) rfl
  | appendAll store s values => exact ends_appendAll hrelated (hvalid s rfl) rfl
  | appendIfUnique store s node =>
    have hrun := @unique_run arrays w store s hrelated (hvalid s rfl) node
    have hends := @ends_appendAll arrays w store s (.appendIfUnique store s node) hrelated _ (hvalid s rfl) rfl
    show Ends arrays _ (w.onHeader store (DeclarationLists.appendIfUnique s node)).1
      (w.onHeader store (DeclarationLists.appendIfUnique s node)).2
    rw [World.onHeader, World.on] at hends ⊢
    rw [hrun]
    exact hends
  | appendImported target source s values =>
    by_cases hof : s.isOf source
    · obtain ⟨start, hlocated⟩ := located hrelated (hvalid s rfl) hof
      obtain ⟨r, hget, -, -⟩ := hlocated.get (hrelated.stands source)
      rw [perform, hget]
      exact ends_appendImported hrelated (hvalid s rfl) hof hget rfl
    · have hget : (w source).get s = .error .wrongOwner := by
        rw [DeclarationLists.get, range_other (hrelated.stands source) hof]
      rw [perform, hget]
      refine .goes arrays hrelated (.refused .wrongOwner (.appended rfl (.inl hof))) (fun s hs => hs) ?_
      intro t ht
      cases ht
  | set store s index node => exact ends_set hrelated (hvalid s rfl) index node
  | slice s start stop => exact ends_slice hrelated (hvalid s rfl) rfl
  | sliceWithCapacity s start stop max => exact ends_slice hrelated (hvalid s rfl) rfl

theorem headers_append {trace : List (Call × Outcome)} {entry : Call × Outcome}
    (hs : s ∈ headers (trace ++ [entry])) : s ∈ headers trace ∨ entry.2 = .ok (some s) := by
  rw [headers, List.filterMap_append, ← List.cons_append] at hs
  rcases List.mem_append.1 hs with hold | hnew
  · exact .inl hold
  · refine .inr ?_
    obtain ⟨x, hx, hsome⟩ := List.mem_filterMap.1 hnew
    rw [List.mem_singleton.1 hx] at hsome
    cases hout : entry.2 with
    | error failure =>
      rw [hout] at hsome
      cases hsome
    | ok header =>
      rw [hout] at hsome
      exact congrArg Except.ok hsome

theorem reached_related {trace : List (Call × Outcome)} (h : Reached trace w) :
    ∃ arrays, Related arrays w ∧ GoRun trace (heapOf arrays) ∧
      ∀ s ∈ headers trace, GoSlice.Valid (heapOf arrays) s.toGo := by
  induction h with
  | start =>
    refine ⟨fun _ => [], related_start, .start, ?_⟩
    intro s hs
    cases List.mem_singleton.1 hs
    refine ⟨Nat.le_refl _, fun _ => ⟨rfl, rfl⟩, ?_⟩
    intro a ha
    cases ha
  | step _ hheader hpanic ih =>
    rename_i trace w call _
    obtain ⟨arrays, hrelated, hrun, hvalid⟩ := ih
    have hends := perform_ends hrelated call fun s hs => hvalid s (hheader s hs)
    generalize hout : (perform w call).1 = out at hends hpanic
    generalize (perform w call).2 = w' at hends
    cases hends with
    | panics store hfull => exact absurd rfl hpanic
    | goes arrays' hrelated' hgo hkept hnew =>
      refine ⟨arrays', hrelated', .step hrun hgo, ?_⟩
      intro s hs
      rcases headers_append hs with hold | hlast
      · exact hkept s (hvalid s hold)
      · exact hnew s hlast

/-- **Declaration lists are Go slices**: the calls of any run are calls of Go, with the same results, on a heap of
separate arrays; every header that was returned reads in its store what it shows there; and a call panics only
when the arena of a store's backings has no slot left. -/
theorem declarations_goSlices {trace : List (Call × Outcome)} {w : World} (hreached : Reached trace w) :
    (∃ heap, GoRun trace heap ∧ ∀ s ∈ headers trace, ∀ store, s.isOf store →
      (w store).contents s = .ok (GoSlice.read heap s.toGo)) ∧
    ∀ call, (∀ s, call.header = some s → s ∈ headers trace) → (perform w call).1 = .error .panic →
      ∃ store, (w store).backings.length + 1 = 2 ^ 32 := by
  obtain ⟨arrays, hrelated, hrun, hvalid⟩ := reached_related hreached
  refine ⟨⟨heapOf arrays, hrun, ?_⟩, ?_⟩
  · intro s hs store hof
    obtain ⟨start, hlocated⟩ := located hrelated (hvalid s hs) hof
    obtain ⟨r, hget, -, hread⟩ := hlocated.get (hrelated.stands store)
    rw [DeclarationLists.contents, hget]
    exact hread
  · intro call hheader hpanic
    have hends := perform_ends hrelated call fun s hs => hvalid s (hheader s hs)
    rw [hpanic] at hends
    cases hends with
    | panics store hfull =>
      obtain ⟨owner, hstands⟩ := hrelated.stands store
      have hcount := (hrelated.fits store).count
      refine ⟨store, ?_⟩
      rw [hstands.backings, length_layout]
      omega
    | goes arrays' hrelated' hgo hkept hnew =>
      cases hgo

/-! ## an array that two headers share -/

def sharedNode : NodeId := ⟨7, 1, by decide, by decide⟩

def foreignNode : NodeId := ⟨8, 2 ^ 32 - 1, by decide, by decide⟩

/-- one node, with room for three more -/
def sharedHeader : DeclarationSlice := ⟨some ⟨3, 1, by decide, by decide⟩, 0, 1, 4⟩

def sharedFirst : World := (perform World.start (.allocWithCapacity 3 [some sharedNode] 4)).2

def sharedSecond : World := (perform sharedFirst (.append 3 sharedHeader (some foreignNode))).2

def sharedTrace : List (Call × Outcome) :=
  [(.allocWithCapacity 3 [some sharedNode] 4, .ok (some sharedHeader)),
    (.append 3 sharedHeader (some foreignNode), .ok (some { sharedHeader with len := 2 }))]

theorem declarations_goSlices_shared : ∃ heap, GoRun sharedTrace heap ∧
    (sharedSecond 3).contents { sharedHeader with len := 2 }
      = .ok (GoSlice.read heap ({ sharedHeader with len := 2 } : DeclarationSlice).toGo) := by
  have hfirst : Reached [(.allocWithCapacity 3 [some sharedNode] 4, .ok (some sharedHeader))] sharedFirst := by
    refine @Reached.step [] World.start (.allocWithCapacity 3 [some sharedNode] 4) .start ?_ ?_
    · intro s hs
      cases hs
    · intro h
      cases h
  have hsecond : Reached sharedTrace sharedSecond := by
    refine @Reached.step _ sharedFirst (.append 3 sharedHeader (some foreignNode)) hfirst ?_ ?_
    · intro s hs
      cases hs
      exact List.mem_cons_of_mem _ List.mem_cons_self
    · intro h
      cases h
  obtain ⟨heap, hrun, hreads⟩ := (declarations_goSlices hsecond).1
  refine ⟨heap, hrun, hreads _ ?_ 3 ?_⟩
  · exact List.mem_cons_of_mem _ (List.mem_cons_of_mem _ List.mem_cons_self)
  · intro a ha
    cases ha
    rfl

end

end Tsr.Ast.Declarations
