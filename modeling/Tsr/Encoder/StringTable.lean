import Tsr.Json.State
import Tsr.Json.Utf8
import Tsr.Lib.Words

/-!
# The string table

The strings of an encoded tree are pairs of offsets into one text: the text of the file, followed by
the strings that are not found in it.  A token is looked for at the end of its range.

* `add`           enters a string and returns its index; `none` stands for a panic;
* `Add.apart`     the string is stored apart from the file;
* `add_eq`        what `add` does where it does not panic;
* `Holds`         the pair at an index denotes a text;
* `enter_holds`   the new string has its pair, and the pairs before keep their texts.
-/

set_option linter.unusedVariables false

namespace Tsr.Encoder
open Tsr.Json (Bytes)
open Tsr.Lib.Words

/-- kinds of nodes are open: any 16-bit number -/
abbrev NodeKind := Int16

namespace SyntaxKind

def numericLiteral : NodeKind := 8
def stringLiteral : NodeKind := 10
def noSubstitutionTemplateLiteral : NodeKind := 14
def templateTail : NodeKind := 17
def sourceFile : NodeKind := 307

end SyntaxKind

/-- a word of 32 bits -/
def wrap32 (n : Nat) : Nat := n % 2 ^ 32

structure StringTable where
  text : Bytes
  other : Bytes
  offsets : List Nat
deriving DecidableEq

def slice (bytes : Bytes) (start stop : Nat) : Bytes := (bytes.take stop).drop start

/-- literals that end with a quote -/
def endsWithQuote (kind : NodeKind) : Bool :=
  kind = SyntaxKind.stringLiteral || kind = SyntaxKind.templateTail ||
    kind = SyntaxKind.noSubstitutionTemplateLiteral

namespace StringTable

def start (text : Bytes) : StringTable := ⟨text, [], []⟩

/-- a capacity below zero panics -/
def new (text : Bytes) (stringCount : Int64) : Option StringTable :=
  if stringCount * 2 < 0 then none else some (start text)

def pair (table : StringTable) (first last : Nat) : StringTable :=
  { table with offsets := table.offsets ++ [wrap32 first, wrap32 last] }

def append (table : StringTable) (text : Bytes) : StringTable :=
  let offset := table.text.length + table.other.length
  { table with other := table.other ++ text }.pair offset (offset + text.length)

/-- the start of a token is inferred from the end of its range -/
def add (table : StringTable) (text : Bytes) (kind : NodeKind) (pos stop : Nat) :
    Option (StringTable × Nat) :=
  let index := wrap32 table.offsets.length
  if kind = SyntaxKind.sourceFile then some (table.pair pos stop, index)
  else if pos < stop ∧ stop ≤ table.text.length then
    let stop := if endsWithQuote kind then stop - 1 else stop
    -- a negative start is out of range as an index
    if stop < text.length then none
    else if slice table.text (stop - text.length) stop = text then
      some (table.pair (stop - text.length) stop, index)
    else some (table.append text, index)
  else some (table.append text, index)

def stringLength (table : StringTable) : Nat := table.text.length + table.other.length

def encodedLength (table : StringTable) : Nat := table.offsets.length * 4 + table.stringLength

def encode (table : StringTable) : Bytes := words table.offsets ++ table.text ++ table.other

theorem length_encode (table : StringTable) : table.encode.length = table.encodedLength := by
  rw [encode, List.length_append, List.length_append, length_words, encodedLength, stringLength]
  omega

end StringTable

/-! ## the calls -/

/-- the arguments of a call -/
structure Add where
  text : Bytes
  kind : NodeKind
  pos : Nat
  stop : Nat
deriving DecidableEq

/-- the end of the token, without a closing quote -/
def Add.tokenEnd (c : Add) : Nat := if endsWithQuote c.kind then c.stop - 1 else c.stop

/-- the token is looked for in the file -/
def Add.sought (c : Add) (file : Bytes) : Bool :=
  decide (c.kind ≠ SyntaxKind.sourceFile ∧ c.pos < c.stop ∧ c.stop ≤ file.length)

/-- the token is no longer than the file up to its end -/
def Add.fits (c : Add) (file : Bytes) : Bool := !c.sought file || decide (c.text.length ≤ c.tokenEnd)

/-- the token is spelled in the file as its text is -/
def Add.spelled (c : Add) (file : Bytes) : Bool :=
  c.sought file && decide (slice file (c.tokenEnd - c.text.length) c.tokenEnd = c.text)

/-- the text is stored apart from the file -/
def Add.apart (c : Add) (file : Bytes) : Bool :=
  decide (c.kind ≠ SyntaxKind.sourceFile) && !c.spelled file

/-- the range lies in the file, and that of a file holds its text -/
structure Add.Valid (c : Add) (file : Bytes) : Prop where
  pos_le : c.pos ≤ c.stop
  stop_le : c.stop ≤ file.length
  sourceFile : c.kind = SyntaxKind.sourceFile → slice file c.pos c.stop = c.text

/-- where the string of a call starts and ends once it is entered -/
def Add.bounds (c : Add) (table : StringTable) : Nat × Nat :=
  if c.kind = SyntaxKind.sourceFile then (c.pos, c.stop)
  else if c.spelled table.text then (c.tokenEnd - c.text.length, c.tokenEnd)
  else (table.stringLength, table.stringLength + c.text.length)

/-- the table with the string of a call -/
def Add.enter (c : Add) (table : StringTable) : StringTable :=
  { table with
    other := if c.apart table.text then table.other ++ c.text else table.other
    offsets := table.offsets ++ [wrap32 (c.bounds table).1, wrap32 (c.bounds table).2] }

/-- **What `add` does.**  It panics on a token that is longer than the file up to its end. -/
theorem add_eq (table : StringTable) (c : Add) : table.add c.text c.kind c.pos c.stop =
    if c.fits table.text then some (c.enter table, wrap32 table.offsets.length) else none := by
  by_cases hfile : c.kind = SyntaxKind.sourceFile
  · have hsought : c.sought table.text = false := decide_eq_false fun h => h.1 hfile
    have hfits : c.fits table.text = true := by rw [Add.fits, hsought]; rfl
    have hapart : c.apart table.text = false := by
      rw [Add.apart, decide_eq_false (not_not.2 hfile)]
      rfl
    rw [StringTable.add, if_pos hfile, if_pos hfits, Add.enter, Add.bounds, if_pos hfile, hapart]
    rfl
  · rw [StringTable.add, if_neg hfile]
    by_cases hrange : c.pos < c.stop ∧ c.stop ≤ table.text.length
    · have hsought : c.sought table.text = true := decide_eq_true ⟨hfile, hrange⟩
      have hfits : c.fits table.text = decide (c.text.length ≤ c.tokenEnd) := by
        rw [Add.fits, hsought]
        rfl
      rw [if_pos hrange]
      show (if c.tokenEnd < c.text.length then none
        else if slice table.text (c.tokenEnd - c.text.length) c.tokenEnd = c.text then
          some (table.pair (c.tokenEnd - c.text.length) c.tokenEnd, wrap32 table.offsets.length)
        else some (table.append c.text, wrap32 table.offsets.length)) = _
      by_cases hlong : c.tokenEnd < c.text.length
      · rw [if_pos hlong, hfits, if_neg (by rw [decide_eq_true_eq]; omega)]
      · rw [if_neg hlong, hfits, if_pos (decide_eq_true (by omega))]
        by_cases hsame : slice table.text (c.tokenEnd - c.text.length) c.tokenEnd = c.text
        · have hspelled : c.spelled table.text = true := by
            rw [Add.spelled, hsought, decide_eq_true hsame]
            rfl
          rw [if_pos hsame, Add.enter, Add.bounds, if_neg hfile, if_pos hspelled, Add.apart, hspelled,
            Bool.not_true, Bool.and_false]
          rfl
        · have hspelled : c.spelled table.text = false := by
            rw [Add.spelled, decide_eq_false hsame, Bool.and_false]
          rw [if_neg hsame, Add.enter, Add.bounds, if_neg hfile, hspelled, Add.apart, hspelled,
            decide_eq_true hfile]
          rfl
    · have hsought : c.sought table.text = false := decide_eq_false fun h => hrange h.2
      have hspelled : c.spelled table.text = false := by rw [Add.spelled, hsought]; rfl
      rw [if_neg hrange, Add.fits, hsought, Add.enter, Add.bounds, if_neg hfile, hspelled, Add.apart,
        hspelled, decide_eq_true hfile]
      rfl

/-! ## what the pairs denote -/

/-- the file and the strings apart from it, one after the other -/
def StringTable.strings (table : StringTable) : Bytes := table.text ++ table.other

/-- the pair at an index denotes a text -/
def StringTable.Holds (table : StringTable) (index : Nat) (text : Bytes) : Prop :=
  ∃ first last, table.offsets[index]? = some first ∧ table.offsets[index + 1]? = some last ∧
    first ≤ last ∧ last ≤ table.strings.length ∧ slice table.strings first last = text

variable {table : StringTable} {c : Add} {index : Nat} {text : Bytes}

theorem slice_append (bytes more : Bytes) (start stop : Nat) (h : stop ≤ bytes.length) :
    slice (bytes ++ more) start stop = slice bytes start stop := by
  rw [slice, slice, List.take_append_of_le_length h]

theorem slice_behind (bytes text : Bytes) :
    slice (bytes ++ text) bytes.length (bytes.length + text.length) = text := by
  rw [slice, List.take_of_length_le (by rw [List.length_append]), List.drop_left]

theorem wrap32_of_lt {n : Nat} (h : n < 2 ^ 32) : wrap32 n = n := Nat.mod_eq_of_lt h

theorem length_strings (table : StringTable) : table.strings.length = table.stringLength :=
  List.length_append

theorem text_enter (c : Add) (table : StringTable) : (c.enter table).text = table.text := rfl

theorem length_offsets_enter (c : Add) (table : StringTable) :
    (c.enter table).offsets.length = table.offsets.length + 2 := List.length_append

/-- strings are only added at the end -/
theorem strings_enter (c : Add) (table : StringTable) : (c.enter table).strings =
    table.strings ++ (if c.apart table.text then c.text else []) := by
  show table.text ++ (if c.apart table.text then table.other ++ c.text else table.other) =
    table.text ++ table.other ++ (if c.apart table.text then c.text else [])
  split
  · rw [List.append_assoc]
  · rw [List.append_nil]

/-- the pairs before keep their texts -/
theorem holds_enter (c : Add) (h : table.Holds index text) : (c.enter table).Holds index text := by
  obtain ⟨first, last, hfirst, hlast, hle, hin, hslice⟩ := h
  obtain ⟨hlt, -⟩ := List.getElem?_eq_some_iff.1 hlast
  refine ⟨first, last, ?_, ?_, hle, ?_, ?_⟩
  · show (table.offsets ++ _)[index]? = some first
    rw [List.getElem?_append_left (by omega), hfirst]
  · show (table.offsets ++ _)[index + 1]? = some last
    rw [List.getElem?_append_left hlt, hlast]
  · rw [strings_enter, List.length_append]
    omega
  · rw [strings_enter, slice_append _ _ _ _ hin, hslice]

/-- **The new pair denotes the text of the call.** -/
theorem enter_holds (hvalid : c.Valid table.text) (hfits : c.fits table.text = true)
    (hsize : (c.enter table).stringLength < 2 ^ 32) :
    (c.enter table).Holds table.offsets.length c.text := by
  rw [← length_strings] at hsize
  have hlen := congrArg List.length (strings_enter c table)
  rw [List.length_append] at hlen
  have htext : table.text.length ≤ table.strings.length := by
    rw [length_strings, StringTable.stringLength]
    omega
  have hbounds : (c.bounds table).1 ≤ (c.bounds table).2 ∧
      (c.bounds table).2 ≤ (c.enter table).strings.length ∧
      slice (c.enter table).strings (c.bounds table).1 (c.bounds table).2 = c.text := by
    rw [strings_enter] at hsize ⊢
    rw [List.length_append] at hsize ⊢
    by_cases hfile : c.kind = SyntaxKind.sourceFile
    · rw [Add.bounds, if_pos hfile]
      have hstop := hvalid.stop_le
      refine ⟨hvalid.pos_le, by omega, ?_⟩
      rw [StringTable.strings, List.append_assoc, slice_append _ _ _ _ hstop,
        hvalid.sourceFile hfile]
    · rw [Add.bounds, if_neg hfile]
      by_cases hspelled : c.spelled table.text = true
      · rw [if_pos hspelled]
        rw [Add.spelled, Bool.and_eq_true, decide_eq_true_eq] at hspelled
        obtain ⟨hsought, hslice⟩ := hspelled
        have hend : c.tokenEnd ≤ table.text.length := by
          have := hvalid.stop_le
          rw [Add.tokenEnd]
          split <;> omega
        refine ⟨Nat.sub_le _ _, by omega, ?_⟩
        rw [StringTable.strings, List.append_assoc, slice_append _ _ _ _ hend, hslice]
      · have hapart : c.apart table.text = true := by
          rw [Add.apart, decide_eq_true hfile, Bool.eq_false_iff.2 hspelled]
          rfl
        rw [if_neg hspelled, if_pos hapart, ← length_strings]
        refine ⟨Nat.le_add_right _ _, Nat.le_refl _, ?_⟩
        exact slice_behind _ _
  obtain ⟨hle, hin, hslice⟩ := hbounds
  refine ⟨(c.bounds table).1, (c.bounds table).2, ?_, ?_, hle, hin, hslice⟩
  · show (table.offsets ++ _)[table.offsets.length]? = _
    rw [List.getElem?_append_right (Nat.le_refl _), Nat.sub_self]
    exact congrArg some (wrap32_of_lt (by omega))
  · show (table.offsets ++ _)[table.offsets.length + 1]? = _
    rw [List.getElem?_append_right (Nat.le_succ _), Nat.succ_sub (Nat.le_refl _), Nat.sub_self]
    exact congrArg some (wrap32_of_lt (by omega))

end Tsr.Encoder
