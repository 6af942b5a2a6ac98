import Tsr.Encoder.Decoder
import Tsr.Scanner.Literal

/-!
# Strings of a table are read back

* `addAll`                   a sequence of calls, and the indices they return;
* `getString_of_holds`       the decoder reads what a pair denotes;
* `string_table_round_trip`  every call returns an index at which its text is read, if no token is
                             longer than the file up to its end; such a token makes `add` panic;
* `add_exponent_panics`      the number `1e9` at the start of a file is one.
-/

namespace Tsr.Encoder
open Tsr.Json (Bytes)
open Tsr.Lib.Words

/-! ## a sequence of calls -/

def addAll (table : StringTable) : List Add → Option (StringTable × List Nat)
  | [] => some (table, [])
  | c :: cs =>
    (table.add c.text c.kind c.pos c.stop).bind fun (next, index) =>
      (addAll next cs).map fun (last, indices) => (last, index :: indices)

def enterAll (table : StringTable) (cs : List Add) : StringTable :=
  cs.foldl (fun table c => c.enter table) table

/-- the bytes stored apart from the file -/
def apartLength (file : Bytes) (cs : List Add) : Nat :=
  ((cs.filter fun c => c.apart file).map fun c => c.text.length).sum

/-- offsets and indices stay below `2^32` -/
def Small (file : Bytes) (cs : List Add) : Prop :=
  file.length + apartLength file cs < 2 ^ 32 ∧ 2 * cs.length ≤ 2 ^ 32

variable {file : Bytes} {table : StringTable} {cs : List Add}

theorem addAll_eq (h : ∀ c ∈ cs, c.fits table.text = true) : addAll table cs =
    some (enterAll table cs,
      (List.range cs.length).map fun k => wrap32 (table.offsets.length + 2 * k)) := by
  induction cs generalizing table with
  | nil => rfl
  | cons c cs ih =>
    have hrest := @ih (c.enter table) fun x hx => h x (List.mem_cons_of_mem _ hx)
    rw [addAll, add_eq, if_pos (h c List.mem_cons_self)]
    show (addAll (c.enter table) cs).map (fun r => (r.1, wrap32 table.offsets.length :: r.2)) = _
    rw [hrest, length_offsets_enter, List.length_cons, List.range_succ_eq_map, List.map_cons,
      List.map_map]
    refine congrArg some (congrArg (Prod.mk (enterAll (c.enter table) cs)) ?_)
    refine congrArg (List.cons _) (List.map_congr_left ?_)
    intro k hk
    show wrap32 (table.offsets.length + 2 + 2 * k) = wrap32 (table.offsets.length + 2 * (k + 1))
    rw [show table.offsets.length + 2 + 2 * k = table.offsets.length + 2 * (k + 1) by omega]

/-- a sequence that returns has no token that is too long -/
theorem fits_of_addAll (h : (addAll table cs).isSome = true) : ∀ c ∈ cs, c.fits table.text = true := by
  induction cs generalizing table with
  | nil =>
    intro c hc
    exact absurd hc List.not_mem_nil
  | cons c cs ih =>
    rw [addAll, add_eq] at h
    by_cases hfits : c.fits table.text = true
    · rw [if_pos hfits] at h
      have hrest : (addAll (c.enter table) cs).isSome = true := by
        rw [← Option.isSome_map]
        exact h
      intro x hx
      rcases List.mem_cons.1 hx with rfl | hx
      · exact hfits
      · exact ih hrest x hx
    · rw [if_neg hfits] at h
      cases h

theorem text_enterAll (table : StringTable) (cs : List Add) :
    (enterAll table cs).text = table.text := by
  induction cs generalizing table with
  | nil => rfl
  | cons c cs ih => exact ih (c.enter table)

theorem length_offsets_enterAll (table : StringTable) (cs : List Add) :
    (enterAll table cs).offsets.length = table.offsets.length + 2 * cs.length := by
  induction cs generalizing table with
  | nil => rfl
  | cons c cs ih =>
    show (enterAll (c.enter table) cs).offsets.length = _
    rw [ih, length_offsets_enter, List.length_cons]
    omega

theorem stringLength_enterAll (table : StringTable) (cs : List Add) :
    (enterAll table cs).stringLength = table.stringLength + apartLength table.text cs := by
  induction cs generalizing table with
  | nil => rfl
  | cons c cs ih =>
    show (enterAll (c.enter table) cs).stringLength = _
    rw [ih, text_enter, ← length_strings (c.enter table), strings_enter, List.length_append,
      length_strings, apartLength, apartLength, List.filter_cons]
    split
    · rw [List.map_cons, List.sum_cons]
      omega
    · rw [List.length_nil]
      omega

theorem holds_enterAll (index : Nat) (text : Bytes) (h : table.Holds index text) :
    (enterAll table cs).Holds index text := by
  induction cs generalizing table with
  | nil => exact h
  | cons c cs ih => exact ih (holds_enter c h)

/-- each call has its pair in the final table -/
theorem enterAll_holds (hvalid : ∀ c ∈ cs, c.Valid table.text)
    (hfits : ∀ c ∈ cs, c.fits table.text = true) (hsize : (enterAll table cs).stringLength < 2 ^ 32)
    (k : Nat) (c : Add) (hk : cs[k]? = some c) :
    (enterAll table cs).Holds (table.offsets.length + 2 * k) c.text := by
  obtain ⟨hlt, rfl⟩ := List.getElem?_eq_some_iff.1 hk
  have hmem := List.getElem_mem hlt
  have hsplit : enterAll table cs = enterAll (cs[k].enter (enterAll table (cs.take k)))
      (cs.drop (k + 1)) := by
    have hlist : cs = cs.take k ++ cs[k] :: cs.drop (k + 1) := by
      rw [← List.drop_eq_getElem_cons hlt, List.take_append_drop]
    conv_lhs => rw [hlist]
    rw [enterAll, List.foldl_append]
    rfl
  have htext := text_enterAll table (cs.take k)
  have hlen := length_offsets_enterAll table (cs.take k)
  rw [List.length_take, Nat.min_eq_left (by omega)] at hlen
  rw [hsplit] at hsize ⊢
  rw [stringLength_enterAll] at hsize
  apply holds_enterAll
  rw [← hlen]
  apply enter_holds
  · rw [htext]
    exact hvalid _ hmem
  · rw [htext]
    exact hfits _ hmem
  · omega

/-! ## reading -/

/-- the decoder's input holds the table -/
structure Decoder.Reads (d : Decoder) (table : StringTable) : Prop where
  placed : ∃ front back, d.raw = front ++ table.encode ++ back ∧ d.strTable = front.length ∧
    d.allStrings = d.raw.drop (front.length + 4 * table.offsets.length)

/-- **The decoder reads what a pair denotes.** -/
theorem getString_of_holds (d : Decoder) (hreads : d.Reads table) (index : Nat) (text : Bytes)
    (hsize : table.stringLength < 2 ^ 32) (h : table.Holds index text) :
    d.getString index = some text := by
  obtain ⟨front, back, hraw, htable, hall⟩ := hreads.placed
  obtain ⟨first, last, hfirst, hlast, hle, hin, hslice⟩ := h
  obtain ⟨hlt, hfirst⟩ := List.getElem?_eq_some_iff.1 hfirst
  obtain ⟨hlt', hlast⟩ := List.getElem?_eq_some_iff.1 hlast
  rw [← length_strings] at hsize
  have hraw' : d.raw = front ++ words table.offsets ++ (table.strings ++ back) := by
    rw [hraw, StringTable.encode, StringTable.strings]
    simp only [List.append_assoc]
  have hstrings : d.allStrings = table.strings ++ back := by
    rw [hall, hraw', List.drop_left' (by rw [List.length_append, length_words])]
  have h1 : readWord d.raw (d.strTable + index * 4) = first := by
    rw [hraw', htable, Nat.mul_comm, readWord_words _ _ _ _ hlt, hfirst, Nat.mod_eq_of_lt (by omega)]
  have h2 : readWord d.raw (d.strTable + index * 4 + 4) = last := by
    rw [hraw', htable, show front.length + index * 4 + 4 = front.length + 4 * (index + 1) by omega,
      readWord_words _ _ _ _ hlt', hlast, Nat.mod_eq_of_lt (by omega)]
  unfold Decoder.getString
  simp only [h1, h2]
  rw [if_pos ⟨hle, by rw [hstrings, List.length_append]; omega⟩, hstrings,
    slice_append _ _ _ _ hin, hslice]

/-- every call returns, and its text is read at the index it returned -/
def ReadBack (file : Bytes) (cs : List Add) : Prop :=
  ∃ table indices, addAll (StringTable.start file) cs = some (table, indices) ∧
    indices.length = cs.length ∧ ∀ d : Decoder, d.Reads table →
      ∀ (k : Nat) (c : Add) (index : Nat), cs[k]? = some c → indices[k]? = some index →
        d.getString index = some c.text

/-- **Strings are read back unless a token is longer than the file up to its end.** -/
theorem string_table_round_trip (file : Bytes) (cs : List Add) (hvalid : ∀ c ∈ cs, c.Valid file) :
    (ReadBack file cs → ∀ c ∈ cs, c.fits file = true) ∧
    ((∀ c ∈ cs, c.fits file = true) → Small file cs → ReadBack file cs) := by
  constructor
  · intro h
    obtain ⟨table, indices, hall, -⟩ := h
    exact fits_of_addAll (Option.isSome_of_eq_some hall)
  · intro hfits hsmall
    obtain ⟨hbytes, hcount⟩ := hsmall
    have hsize : (enterAll (StringTable.start file) cs).stringLength < 2 ^ 32 := by
      rw [stringLength_enterAll]
      show file.length + 0 + apartLength file cs < 2 ^ 32
      omega
    refine ⟨_, _, @addAll_eq (StringTable.start file) cs hfits, ?_, ?_⟩
    · rw [List.length_map, List.length_range]
    · intro d hreads k c index hk hindex
      obtain ⟨hlt, -⟩ := List.getElem?_eq_some_iff.1 hk
      have hholds := @enterAll_holds (StringTable.start file) cs hvalid hfits hsize k c hk
      rw [List.getElem?_map, List.getElem?_range hlt, Option.map_some, Option.some.injEq] at hindex
      rw [← hindex, wrap32_of_lt]
      · exact getString_of_holds d hreads _ _ hsize hholds
      · show 0 + 2 * k < 2 ^ 32
        omega

/-- `const ten9= 1e9` -/
def laterFile : Bytes :=
  [0x63, 0x6F, 0x6E, 0x73, 0x74, 0x20, 0x74, 0x65, 0x6E, 0x39, 0x3D, 0x20, 0x31, 0x65, 0x39]

/-- an identifier that is spelled there, and a number that is not -/
def laterAdds : List Add :=
  [⟨[0x74, 0x65, 0x6E, 0x39], 79, 5, 10⟩,
    ⟨[0x31, 0x30, 0x30, 0x30, 0x30, 0x30, 0x30, 0x30, 0x30, 0x30], SyntaxKind.numericLiteral, 12, 15⟩]

theorem string_table_round_trip_later : ReadBack laterFile laterAdds := by
  have hvalid : ∀ c ∈ laterAdds, c.Valid laterFile := by
    intro c hc
    rcases List.mem_cons.1 hc with rfl | hc
    · exact ⟨by decide, by decide, by decide⟩
    · rw [List.mem_singleton.1 hc]
      exact ⟨by decide, by decide, by decide⟩
  exact (string_table_round_trip laterFile laterAdds hvalid).2 (by decide) ⟨by decide, by decide⟩

/-- a file with one statement -/
def exponentFile : Bytes := [0x31, 0x65, 0x39]

def exponentText : Bytes := [0x31, 0x30, 0x30, 0x30, 0x30, 0x30, 0x30, 0x30, 0x30, 0x30]

/-- the number of its literal is a thousand million -/
def exponentSource : Scanner.Source :=
  ⟨exponentFile, .standard, true, fun v => if v = exponentFile then exponentText else v⟩

def exponentAdd : Add := ⟨exponentText, SyntaxKind.numericLiteral, 0, 3⟩

/-- **The text of `1e9` reaches in front of the file.** -/
theorem add_exponent_panics :
    (Scanner.scanNumber exponentSource { pos := 0 }).1 = .numericLiteral ∧
    (Scanner.scanNumber exponentSource { pos := 0 }).2.pos = 3 ∧
    (Scanner.scanNumber exponentSource { pos := 0 }).2.tokenValue = exponentText ∧
    exponentAdd.Valid exponentFile ∧ ¬ ReadBack exponentFile [exponentAdd] := by
  refine ⟨by decide +kernel, by decide +kernel, by decide +kernel, ?_, ?_⟩
  · exact ⟨by decide, by decide, by decide⟩
  · intro h
    obtain ⟨table, indices, hall, -⟩ := h
    have hnone : addAll (StringTable.start exponentFile) [exponentAdd] = none := by decide +kernel
    rw [hnone] at hall
    cases hall

end Tsr.Encoder
