import Tsr.Ast.SpanMap
import Tsr.Lib.Result

/-!
# Text edits

A list of edits is applied in one pass that copies the text between the end of one edit and the
start of the next. A piece that is no slice of the text ends the pass with its bounds.

* `TextChange.applyTo`        one edit;
* `applyBulkEdits`            a list, in one pass;
* `splice`                    what sorted edits make of the text;
* `applyEach`                 one edit at a time, from the last to the first;
* `applyBulkEdits_meets`      for edits whose ends are in order the pass succeeds exactly where they
  are sorted, apart and in the text, and then gives what `applyEach` gives.

An edit that ends before it starts is not found out: the pass copies the text between once more.
-/

namespace Tsr.Core
open Tsr.Ast (TextRange)
open Tsr.Lib.Result

abbrev Bytes := List UInt8

structure TextChange where
  range : TextRange
  newText : Bytes
deriving DecidableEq

namespace TextChange

def pos (edit : TextChange) : Int := edit.range.pos.toInt

def stop (edit : TextChange) : Int := edit.range.stop.toInt

end TextChange

/-- `capacity` is the length of the text where the high bound is past it -/
structure UnappliableEdits where
  low : Int
  high : Int
  capacity : Option Nat
deriving DecidableEq

def slice (text : Bytes) (low high : Int) : Except UnappliableEdits Bytes :=
  if high < 0 ∨ text.length < high then .error ⟨low, high, some text.length⟩
  else if low < 0 ∨ high < low then .error ⟨low, high, none⟩
  else .ok ((text.take high.toNat).drop low.toNat)

def TextChange.applyTo (edit : TextChange) (text : Bytes) : Except UnappliableEdits Bytes := do
  let before ← slice text 0 edit.pos
  let after ← slice text edit.stop text.length
  .ok (before ++ edit.newText ++ after)

/-- the text before an edit; none is asked for where the edit starts at the end of the last one -/
def gap (text : Bytes) (lastEnd start : Int) : Except UnappliableEdits Bytes :=
  if start ≠ lastEnd then slice text lastEnd start else .ok []

/-- the text written so far, and the end of the last edit -/
def bulkStep (text : Bytes) (state : Bytes × Int) (edit : TextChange) :
    Except UnappliableEdits (Bytes × Int) := do
  let piece ← gap text state.2 edit.pos
  .ok (state.1 ++ piece ++ edit.newText, edit.stop)

def applyBulkEdits (text : Bytes) (edits : List TextChange) : Except UnappliableEdits Bytes := do
  let (out, lastEnd) ← edits.foldlM (bulkStep text) ([], 0)
  let rest ← slice text lastEnd text.length
  .ok (out ++ rest)

/-! ## what edits mean -/

/-- no edit ends before it starts -/
def WellFormed (edits : List TextChange) : Prop := ∀ e ∈ edits, e.pos ≤ e.stop

def InBounds (text : Bytes) (edits : List TextChange) : Prop :=
  ∀ e ∈ edits, 0 ≤ e.pos ∧ e.stop ≤ text.length

/-- each edit starts where the one before it ended, or later -/
def Sorted (edits : List TextChange) : Prop := edits.Pairwise fun a b => a.stop ≤ b.pos

/-- the edits one at a time, from the last to the first -/
def applyEach (text : Bytes) (edits : List TextChange) : Except UnappliableEdits Bytes :=
  edits.foldr (fun edit result => result >>= edit.applyTo) (.ok text)

/-- the text from `start` on with the edits in it -/
def splice (text : Bytes) (start : Nat) : List TextChange → Bytes
  | [] => text.drop start
  | e :: edits => (text.take e.pos.toNat).drop start ++ e.newText ++ splice text e.stop.toNat edits

/-- the edits lie in the text after `start`, in order -/
def Lies (text : Bytes) : Int → List TextChange → Prop
  | start, [] => start ≤ text.length
  | start, e :: edits => start ≤ e.pos ∧ e.pos ≤ e.stop ∧ Lies text e.stop edits

theorem Lies.le {text : Bytes} {edits : List TextChange} {start : Int} (h : Lies text start edits) :
    start ≤ text.length := by
  induction edits generalizing start with
  | nil => exact h
  | cons e edits ih =>
    obtain ⟨hpos, hstop, hrest⟩ := h
    have := ih hrest
    omega

/-- edits that are well formed, sorted and in the text lie in it in order -/
theorem lies_iff {text : Bytes} {edits : List TextChange} {start : Int} (hstart : 0 ≤ start)
    (hlen : start ≤ text.length) :
    Lies text start edits ↔
      WellFormed edits ∧ InBounds text edits ∧ Sorted edits ∧ ∀ e ∈ edits, start ≤ e.pos := by
  induction edits generalizing start with
  | nil =>
    constructor
    · intro _
      refine ⟨?_, ?_, List.Pairwise.nil, ?_⟩ <;> exact fun e he => absurd he List.not_mem_nil
    · exact fun _ => hlen
  | cons e edits ih =>
    constructor
    · intro ⟨hpos, hstop, hrest⟩
      obtain ⟨hform, hbounds, hsorted, hafter⟩ := (ih (by omega) hrest.le).1 hrest
      refine ⟨List.forall_mem_cons.2 ⟨hstop, hform⟩, List.forall_mem_cons.2 ⟨?_, hbounds⟩,
        List.pairwise_cons.2 ⟨hafter, hsorted⟩, List.forall_mem_cons.2 ⟨hpos, ?_⟩⟩
      · exact ⟨by omega, hrest.le⟩
      · intro b hb
        have := hafter b hb
        omega
    · intro ⟨hform, hbounds, hsorted, hafter⟩
      obtain ⟨hstop, hform⟩ := List.forall_mem_cons.1 hform
      obtain ⟨⟨hlow, hhigh⟩, hbounds⟩ := List.forall_mem_cons.1 hbounds
      obtain ⟨hbefore, hsorted⟩ := List.pairwise_cons.1 hsorted
      obtain ⟨hpos, -⟩ := List.forall_mem_cons.1 hafter
      exact ⟨hpos, hstop, (ih (by omega) hhigh).2 ⟨hform, hbounds, hsorted, hbefore⟩⟩

/-! ## the pass -/

variable {text : Bytes}

theorem slice_ok {low high : Int} (hlow : 0 ≤ low) (hle : low ≤ high) (hhigh : high ≤ text.length) :
    slice text low high = .ok ((text.take high.toNat).drop low.toNat) := by
  rw [slice, if_neg (by omega), if_neg (by omega)]

theorem slice_inv {low high : Int} {piece : Bytes} (h : slice text low high = .ok piece) :
    0 ≤ low ∧ low ≤ high ∧ high ≤ text.length := by
  unfold slice at h
  split at h
  · cases h
  · split at h
    · cases h
    · omega

theorem gap_ok {low high : Int} (hlow : 0 ≤ low) (hle : low ≤ high) (hhigh : high ≤ text.length) :
    gap text low high = .ok ((text.take high.toNat).drop low.toNat) := by
  by_cases heq : high = low
  · rw [gap, if_neg (not_not.2 heq), heq, List.drop_eq_nil_of_le (List.length_take_le _ _)]
  · rw [gap, if_pos heq, slice_ok hlow hle hhigh]

theorem gap_inv {low high : Int} {piece : Bytes} (h : gap text low high = .ok piece) :
    high = low ∨ 0 ≤ low ∧ low ≤ high ∧ high ≤ text.length := by
  by_cases heq : high = low
  · exact Or.inl heq
  · rw [gap, if_pos heq] at h
    exact Or.inr (slice_inv h)

/-- the rest of the pass, from the end of the last edit -/
def finish (text : Bytes) (state : Bytes × Int) : Except UnappliableEdits Bytes := do
  let rest ← slice text state.2 text.length
  .ok (state.1 ++ rest)

theorem bulk_lies {edits : List TextChange} {start : Int} (out : Bytes) (hstart : 0 ≤ start)
    (h : Lies text start edits) :
    edits.foldlM (bulkStep text) (out, start) >>= finish text =
      .ok (out ++ splice text start.toNat edits) := by
  induction edits generalizing out start with
  | nil =>
    show finish text (out, start) = _
    rw [finish, slice_ok hstart h (Int.le_refl _), splice]
    show Except.ok (out ++ (text.take (text.length : Int).toNat).drop start.toNat) = _
    rw [Int.toNat_natCast, List.take_length]
  | cons e edits ih =>
    obtain ⟨hpos, hstop, hrest⟩ := h
    have hle := hrest.le
    rw [List.foldlM_cons, bulkStep, gap_ok hstart hpos (by omega)]
    show (edits.foldlM (bulkStep text) (_, e.stop) >>= finish text) = _
    rw [ih _ (by omega) hrest, splice]
    simp only [List.append_assoc]

/-- where each edit ends no earlier than it starts, a pass that succeeds has met them in order -/
theorem lies_of_bulk {edits : List TextChange} {start : Int} {out result : Bytes}
    (hform : WellFormed edits)
    (h : edits.foldlM (bulkStep text) (out, start) >>= finish text = .ok result) :
    Lies text start edits := by
  induction edits generalizing out start with
  | nil =>
    have hfinish : finish text (out, start) = .ok result := h
    obtain ⟨rest, hrest, -⟩ := (bind_eq_ok _ _ _).1 hfinish
    exact (slice_inv hrest).2.1
  | cons e edits ih =>
    obtain ⟨hstop, hform⟩ := List.forall_mem_cons.1 hform
    rw [List.foldlM_cons] at h
    obtain ⟨state, hstate, hdone⟩ := (bind_eq_ok _ _ _).1 h
    obtain ⟨next, hnext, hrest⟩ := (bind_eq_ok _ _ _).1 hstate
    obtain ⟨piece, hpiece, hout⟩ := (bind_eq_ok _ _ _).1 hnext
    cases hout
    have hlies := ih hform ((bind_eq_ok _ _ _).2 ⟨state, hrest, hdone⟩)
    refine ⟨?_, hstop, hlies⟩
    rcases gap_inv hpiece with heq | ⟨-, hle, -⟩
    · exact Int.le_of_eq heq.symm
    · exact hle

/-! ## one edit at a time -/

theorem applyTo_ok (edit : TextChange) (hlow : 0 ≤ edit.pos) (hle : edit.pos ≤ edit.stop)
    (hhigh : edit.stop ≤ text.length) :
    edit.applyTo text =
      .ok (text.take edit.pos.toNat ++ edit.newText ++ text.drop edit.stop.toNat) := by
  rw [TextChange.applyTo, slice_ok (Int.le_refl 0) hlow (by omega),
    slice_ok (by omega) hhigh (Int.le_refl _)]
  show Except.ok ((text.take edit.pos.toNat).drop 0 ++ edit.newText ++
    (text.take (text.length : Int).toNat).drop edit.stop.toNat) = _
  rw [List.drop_zero, Int.toNat_natCast, List.take_length]

/-- the edits after `start` leave the text before it -/
theorem applyEach_lies {edits : List TextChange} {start : Int} (hstart : 0 ≤ start)
    (h : Lies text start edits) :
    applyEach text edits = .ok (text.take start.toNat ++ splice text start.toNat edits) := by
  induction edits generalizing start with
  | nil => exact congrArg Except.ok (List.take_append_drop _ _).symm
  | cons e edits ih =>
    obtain ⟨hpos, hstop, hrest⟩ := h
    have hle := hrest.le
    have hlen : (text.take e.stop.toNat).length = e.stop.toNat := by
      rw [List.length_take]
      omega
    show applyEach text edits >>= e.applyTo = _
    rw [ih (by omega) hrest, ok_bind, applyTo_ok e (by omega) hstop]
    · rw [List.take_append_of_le_length (by omega), List.drop_left' hlen, List.take_take,
        Nat.min_eq_left (by omega), splice, ← List.append_assoc, ← List.append_assoc]
      have hsplit : text.take start.toNat ++ (text.take e.pos.toNat).drop start.toNat =
          text.take e.pos.toNat := by
        have := List.take_append_drop start.toNat (text.take e.pos.toNat)
        rw [List.take_take, Nat.min_eq_left (by omega)] at this
        exact this
      rw [hsplit]
    · rw [List.length_append, hlen]
      omega

/-! ## the two agree -/

/-- **One pass over sorted edits.** Edits that are well formed, in the text and sorted are applied,
with the result of applying them from the last to the first; of lists whose edits are all well
formed no other is. -/
theorem applyBulkEdits_meets (text : Bytes) (edits : List TextChange) :
    (WellFormed edits → InBounds text edits → Sorted edits →
      ∃ result, applyBulkEdits text edits = .ok result ∧ applyEach text edits = .ok result) ∧
    (WellFormed edits →
      ((∃ result, applyBulkEdits text edits = .ok result) ↔ InBounds text edits ∧ Sorted edits)) := by
  have hlen : (0 : Int) ≤ text.length := Int.natCast_nonneg _
  have happly : WellFormed edits → InBounds text edits → Sorted edits →
      ∃ result, applyBulkEdits text edits = .ok result ∧ applyEach text edits = .ok result := by
    intro hform hbounds hsorted
    have hlies : Lies text 0 edits :=
      (lies_iff (Int.le_refl 0) hlen).2 ⟨hform, hbounds, hsorted, fun e he => (hbounds e he).1⟩
    exact ⟨splice text 0 edits, bulk_lies [] (Int.le_refl 0) hlies, applyEach_lies (Int.le_refl 0) hlies⟩
  refine ⟨happly, fun hform => ⟨?_, ?_⟩⟩
  · intro ⟨result, hresult⟩
    obtain ⟨-, hbounds, hsorted, -⟩ := (lies_iff (Int.le_refl 0) hlen).1 (lies_of_bulk hform hresult)
    exact ⟨hbounds, hsorted⟩
  · intro ⟨hbounds, hsorted⟩
    obtain ⟨result, hresult, -⟩ := happly hform hbounds hsorted
    exact ⟨result, hresult⟩

/-- an edit from 1 to 0 is taken, and the first byte of the text is there twice -/
theorem applyBulkEdits_backwards :
    ¬∀ (text : Bytes) (edits : List TextChange),
      ((∃ result, applyBulkEdits text edits = .ok result) ↔
        WellFormed edits ∧ InBounds text edits ∧ Sorted edits) := by
  intro h
  have hdone : applyBulkEdits [0x61, 0x62] [⟨⟨1, 0⟩, []⟩] = .ok [0x61, 0x61, 0x62] := by decide
  obtain ⟨hform, -⟩ := (h _ _).1 ⟨_, hdone⟩
  exact absurd (hform _ List.mem_cons_self) (by decide)

end Tsr.Core
