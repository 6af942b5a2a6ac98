import Tsr.Jsstring.Lsp
import Tsr.Jsstring.Wtf8

/-!
# Lines of ECMAScript

Lines end behind LF, CR, CRLF, U+2028 and U+2029.  The offsets of the table are signed words of 32
bits: the length of the text is cast before the scan and the offset wraps in it, whereas the
conversions count in the words of the machine.

* `ecmaLineStarts`                        the table; `none` stands for a panic;
* `computeLineOfPosition`                 the binary search for the line of an offset;
* `getEcmaLineAndUtf16CharacterOfPosition`, `computePositionOfLineAndUtf16Character`
                                          there and back;
* `ecmaLineStarts_table`                  the table, unless a character crosses `2^31`;
* `ecma_position_round_trip`              a boundary between two characters is found again;
* `ecmaLineStarts_giant`                  a text of six GiB for which there is no table.
-/

set_option linter.unusedVariables false

namespace Tsr.Jsstring
open Tsr.Json (Bytes decodeUtf8 decodeUtf8_ascii decodeUtf8_high decodeUtf8_sequence
  runeError)
open Tsr.Lib.Loop

/-! ## the table -/

def isLineBreak (rune : Nat) : Bool := rune = 0x0A || rune = 0x0D || rune = 0x2028 || rune = 0x2029

/-- an index that is negative or behind the end panics -/
def at? {α : Type} (xs : List α) (i : Int) : Option α := if i < 0 then none else xs[i.toNat]?

structure EcmaScan where
  byteOffset : Int
  lineStart : Int
  starts : List Int
deriving DecidableEq

def ecmaPass (text : Bytes) (textLen : Int) (s : EcmaScan) : Pass EcmaScan (Option (List Int)) :=
  if s.byteOffset < textLen then
    match at? text s.byteOffset with
    | none => .leave none
    | some byte =>
      let (lineBreak, byteOffset) :=
        if byte < 0x80 then
          let byteOffset := wrap32 (s.byteOffset + 1)
          let crlf := byte = 0x0D ∧ byteOffset < textLen ∧ at? text byteOffset = some 0x0A
          (byte = 0x0D || byte = 0x0A, if crlf then wrap32 (byteOffset + 1) else byteOffset)
        else
          let (rune, width) := decodeUtf8 (text.drop s.byteOffset.toNat)
          (isLineBreak rune, wrap32 (s.byteOffset + width))
      .again (if lineBreak then ⟨byteOffset, byteOffset, s.starts ++ [s.lineStart]⟩
        else { s with byteOffset := byteOffset })
  else .leave (some (s.starts ++ [s.lineStart]))

/-- nothing is ahead of an offset that has wrapped -/
def ahead (textLen : Int) (s : EcmaScan) : Nat :=
  if s.byteOffset < 0 then 0 else (textLen - s.byteOffset).toNat

def ecmaLineStarts (text : Bytes) : Option (List Int) :=
  let textLen := wrap32 text.length
  loop (ecmaPass text textLen) (fun _ => none) (ahead textLen) ⟨0, 0, []⟩

/-! ## the conversions -/

/-- `low` and `high`; the result is a line -/
def linePass (lineStarts : List Int) (position : Int) (s : Int × Int) : Pass (Int × Int) (Option Int) :=
  if s.1 ≤ s.2 then
    let middle := s.1 + (s.2 - s.1) / 2
    match at? lineStarts middle with
    | none => .leave none
    | some value =>
      if value < position then .again (middle + 1, s.2)
      else if position < value then .again (s.1, middle - 1)
      else .leave (some middle)
  else .leave (some (s.1 - 1))

def computeLineOfPosition (lineStarts : List Int) (position : Int) : Option Int :=
  loop (linePass lineStarts position) (fun _ => none) (fun s => (s.2 - s.1 + 1).toNat)
    (0, (lineStarts.length : Int) - 1)

def getEcmaLineAndUtf16CharacterOfPosition (text : Bytes) (position : Int) : Option (Int × Int) := do
  let lineStarts ← ecmaLineStarts text
  let line ← computeLineOfPosition lineStarts position
  let start ← at? lineStarts line
  if 0 ≤ start ∧ start ≤ position ∧ position ≤ text.length then
    some (line, utf16Len ((text.take position.toNat).drop start.toNat))
  else none

/-- offset and units so far -/
def unitPass (text : Bytes) (lineEnd character : Int) (s : Int × Int) :
    Pass (Int × Int) (Option (Int × Int)) :=
  if s.1 < lineEnd ∧ s.2 < character then
    if s.1 < 0 ∨ (text.length : Int) < s.1 then .leave none
    else
      let (rune, width) := decodeUtf8 (text.drop s.1.toNat)
      .again (s.1 + width, s.2 + utf16RuneLen rune)
  else .leave (some s)

/-- a line of the table; with edits allowed the nearest one is taken -/
def validLine (lineStarts : List Int) (line : Int) (allowEdits : Bool) : Option Int :=
  if 0 ≤ line ∧ line < lineStarts.length then some line
  else if !allowEdits then none
  else if line < 0 then some 0
  else some (lineStarts.length - 1)

def computePositionOfLineAndUtf16Character (lineStarts : List Int) (line character : Int) (text : Bytes)
    (allowEdits : Bool) : Option Int := do
  let line ← validLine lineStarts line allowEdits
  let lineStart ← at? lineStarts line
  if 0 < character then
    let lineEnd := (at? lineStarts (line + 1)).getD text.length
    let (byteOffset, count) ← loop (unitPass text lineEnd character) some
      (fun s => (character - s.2).toNat) (lineStart, 0)
    if allowEdits then some (min byteOffset text.length)
    else if byteOffset = lineEnd ∧ count < character then none
    else if byteOffset ≤ text.length then some byteOffset
    else none
  else if allowEdits then some (min lineStart text.length)
  else if lineStart ≤ text.length then some lineStart
  else none

/-! ## small facts -/

theorem wrap32_spec (n : Int) : ∃ k, wrap32 n = n - 2 ^ 32 * k ∧ -2 ^ 31 ≤ wrap32 n ∧ wrap32 n < 2 ^ 31 := by
  have hsum : Int.bmod n 4294967296 + 4294967296 * Int.bdiv n 4294967296 = n :=
    Int.bmod_add_bdiv n 4294967296
  have hlow : -(4294967296 / 2) ≤ Int.bmod n 4294967296 := Int.le_bmod (by decide)
  have hhigh : Int.bmod n 4294967296 < (4294967296 + 1) / 2 := Int.bmod_lt (by decide)
  show ∃ k, Int.bmod n 4294967296 = n - 2 ^ 32 * k ∧ -2 ^ 31 ≤ Int.bmod n 4294967296 ∧
    Int.bmod n 4294967296 < 2 ^ 31
  refine ⟨Int.bdiv n 4294967296, ?_, ?_, ?_⟩
  · omega
  · omega
  · omega

theorem wrap32_eq (n : Int) (hlow : -2 ^ 31 ≤ n) (hhigh : n < 2 ^ 31) : wrap32 n = n := by
  obtain ⟨k, hk, hl, hh⟩ := wrap32_spec n
  omega

theorem at?_natCast {α : Type} (xs : List α) (i : Nat) : at? xs (i : Int) = xs[i]? := by
  rw [at?, if_neg (by omega), Int.toNat_natCast]

/-! ## the table is a table of lines -/

/-- the state of the scan, by the lines that are found -/
def LineScan.ecma (c : LineScan) : EcmaScan := ⟨c.offset, c.lineStart, c.lineStarts.map Nat.cast⟩

/-- texts that are long enough for a character to cross `2^31` in them -/
def Giant (text : Bytes) : Prop := 2 ^ 32 + 2 ^ 31 - 3 ≤ text.length

def EcmaScanned (text : Bytes) (s : EcmaScan) : Prop :=
  (s.byteOffset < 0 ∧ Giant text ∧ 0 ≤ wrap32 text.length) ∨ ∃ c : LineScan, Scanned text c ∧ s = c.ecma

variable {text : Bytes}

/-- no character has more than four bytes -/
theorem next_le (p : Nat) : next text p ≤ p + 4 := by
  rw [next]
  cases hdrop : text.drop p with
  | nil => exact Nat.le_add_right p 4
  | cons first rest =>
    by_cases hascii : first < 0x80
    · rw [decodeUtf8_ascii rest hascii]
      show p + 1 ≤ p + 4
      omega
    · rcases decodeUtf8_high rest hascii with he | ⟨seq, rune, post, hs, -, hd⟩
      · rw [he]
        show p + 1 ≤ p + 4
        omega
      · have := hs.length_bounds
        rw [hd]
        show p + seq.length ≤ p + 4
        omega

/-- the state behind a character, with or without a line break in it -/
theorem ecmaScanned_move {c : LineScan} (h : Scanned text c) {offset : Nat} (hb : Boundary text offset)
    (hlt : c.offset < offset) (lineBreak : Bool) :
    ∃ c' : LineScan, Scanned text c' ∧
      (if lineBreak then ⟨offset, offset, c.ecma.starts ++ [c.ecma.lineStart]⟩
        else { c.ecma with byteOffset := offset }) = c'.ecma := by
  cases lineBreak with
  | true =>
    refine ⟨c.newLine offset, h.newLine hb hlt, ?_⟩
    show EcmaScan.mk offset offset (c.lineStarts.map Nat.cast ++ [(c.lineStart : Int)]) =
      ⟨offset, offset, (c.lineStarts ++ [c.lineStart]).map Nat.cast⟩
    rw [List.map_append]
    rfl
  | false =>
    refine ⟨{ c with offset := offset }, ⟨h.table, hb, ?_⟩, rfl⟩
    exact h.le.trans hlt.le

theorem ahead_lt {textLen : Int} {s s' : EcmaScan} (hs : 0 ≤ s.byteOffset) (hlt : s.byteOffset < textLen)
    (h : s'.byteOffset < 0 ∨ s.byteOffset < s'.byteOffset) : ahead textLen s' < ahead textLen s := by
  rw [ahead, ahead, if_neg (not_lt.2 hs)]
  split
  · omega
  · omega

theorem byteOffset_move (s : EcmaScan) (offset : Int) (lineBreak : Bool) :
    (if lineBreak then (⟨offset, offset, s.starts ++ [s.lineStart]⟩ : EcmaScan)
      else { s with byteOffset := offset }).byteOffset = offset := by
  cases lineBreak with
  | true => rfl
  | false => rfl

theorem ecmaPass_spec {s s' : EcmaScan} (h : EcmaScanned text s)
    (hpass : ecmaPass text (wrap32 text.length) s = .again s') :
    EcmaScanned text s' ∧ ahead (wrap32 text.length) s' < ahead (wrap32 text.length) s := by
  unfold EcmaScanned at h ⊢
  obtain ⟨k, hk, hlow, hhigh⟩ := wrap32_spec text.length
  generalize wrap32 (text.length : Int) = textLen at h hpass hk hlow hhigh ⊢
  unfold ecmaPass at hpass
  by_cases hlt : s.byteOffset < textLen
  · rw [if_pos hlt] at hpass
    rcases h with ⟨hneg, -⟩ | ⟨c, hc, rfl⟩
    · -- an offset that has wrapped
      rw [at?, if_pos hneg] at hpass
      cases hpass
    · change (c.offset : Int) < textLen at hlt
      have hlen : c.offset < text.length := by omega
      have hbyte := List.getElem?_eq_getElem hlen
      have hnext := next_bounds hlen
      have hat : at? text c.ecma.byteOffset = some text[c.offset] := (at?_natCast text c.offset).trans hbyte
      rw [hat] at hpass
      dsimp only at hpass
      by_cases hascii : text[c.offset] < 0x80
      · have hone : Boundary text (c.offset + 1) := next_ascii hbyte hascii ▸ hc.offset.next
        have hwrap : wrap32 (c.ecma.byteOffset + 1) = ((c.offset + 1 : Nat) : Int) :=
          wrap32_eq _ (by show -2 ^ 31 ≤ (c.offset : Int) + 1; omega)
            (by show (c.offset : Int) + 1 < 2 ^ 31; omega)
        have hmove : ∃ offset : Nat, (c.offset < offset ∧ Boundary text offset) ∧
            (if text[c.offset] = 0x0D ∧ ((c.offset + 1 : Nat) : Int) < textLen ∧
              text[c.offset + 1]? = some 0x0A then wrap32 ((c.offset + 1 : Nat) + 1)
            else ((c.offset + 1 : Nat) : Int)) = offset := by
          split
          · next hcrlf =>
            obtain ⟨-, hmore, hlf⟩ := hcrlf
            have htwo : Boundary text (c.offset + 2) := next_ascii hlf (by decide) ▸ hone.next
            exact ⟨c.offset + 2, ⟨by omega, htwo⟩, wrap32_eq _ (by omega) (by omega)⟩
          · exact ⟨c.offset + 1, ⟨by omega, hone⟩, rfl⟩
        obtain ⟨offset, ⟨hafter, hboundary⟩, hmove⟩ := hmove
        rw [if_pos hascii, hwrap, at?_natCast] at hpass
        dsimp only at hpass
        rw [hmove] at hpass
        rw [← Pass.again.inj hpass]
        refine ⟨Or.inr (ecmaScanned_move hc hboundary hafter _), ahead_lt (Int.natCast_nonneg _) hlt (Or.inr ?_)⟩
        rw [byteOffset_move]
        show (c.offset : Int) < (offset : Int)
        omega
      · have hoffset : c.ecma.byteOffset + ((decodeUtf8 (text.drop c.ecma.byteOffset.toNat)).2 : Int) =
            ((next text c.offset : Nat) : Int) := by
          show ((c.offset : Nat) : Int) + _ = ((c.offset + _ : Nat) : Int)
          rw [Int.natCast_add]
          rfl
        rw [if_neg hascii] at hpass
        dsimp only at hpass
        rw [hoffset] at hpass
        by_cases hcross : next text c.offset < 2 ^ 31
        · rw [wrap32_eq _ (by omega) (by omega)] at hpass
          cases hpass
          refine ⟨Or.inr (ecmaScanned_move hc hc.offset.next hnext.1 _),
            ahead_lt (Int.natCast_nonneg _) hlt (Or.inr ?_)⟩
          rw [byteOffset_move]
          show (c.offset : Int) < (next text c.offset : Int)
          omega
        · -- the character crosses `2^31`
          have hwidth : next text c.offset ≤ c.offset + 4 := next_le c.offset
          obtain ⟨m, hm, hl, hh⟩ := wrap32_spec (next text c.offset)
          have hneg : wrap32 (next text c.offset) < 0 := by omega
          have hgiant : Giant text := by
            show 2 ^ 32 + 2 ^ 31 - 3 ≤ text.length
            omega
          rw [← Pass.again.inj hpass]
          refine ⟨Or.inl ⟨?_, hgiant, ?_⟩, ahead_lt (Int.natCast_nonneg _) hlt (Or.inl ?_)⟩
          · rw [byteOffset_move]
            exact hneg
          · omega
          · rw [byteOffset_move]
            exact hneg
  · rw [if_neg hlt] at hpass
    cases hpass

/-- **The table is a table of lines**; it fails in giant texts only. -/
theorem ecmaLineStarts_table (text : Bytes) :
    (ecmaLineStarts text = none ∧ Giant text) ∨
      ∃ starts, ecmaLineStarts text = some (starts.map Nat.cast) ∧ LineTable text starts := by
  have hstart : EcmaScanned text ⟨0, 0, []⟩ := by
    refine Or.inr ⟨⟨0, 0, [], true⟩, ⟨⟨rfl, List.pairwise_singleton _ _, ?_⟩, Boundary.zero, Nat.le_refl _⟩, rfl⟩
    intro start hs
    rw [List.mem_singleton.1 hs]
    exact Boundary.zero
  refine loop_rule (ecmaPass text (wrap32 text.length)) (fun _ => none) _ (EcmaScanned text)
    (fun s s' hs hp => ecmaPass_spec hs hp)
    (fun r => (r = none ∧ Giant text) ∨ ∃ starts, r = some (starts.map Nat.cast) ∧ LineTable text starts)
    ?_ _ hstart
  intro s r hs hpass
  unfold ecmaPass at hpass
  rcases hs with ⟨hneg, hgiant, hlen⟩ | ⟨c, hc, rfl⟩
  · rw [if_pos (by omega), at?, if_pos hneg] at hpass
    cases hpass
    exact Or.inl ⟨rfl, hgiant⟩
  · split at hpass
    · next hlt =>
      obtain ⟨k, hk, hlow, hhigh⟩ := wrap32_spec text.length
      have hlen : c.offset < text.length := by
        change (c.offset : Int) < _ at hlt
        omega
      have hat : at? text c.ecma.byteOffset = some text[c.offset] :=
        (at?_natCast text c.offset).trans (List.getElem?_eq_getElem hlen)
      rw [hat] at hpass
      cases hpass
    · cases hpass
      refine Or.inr ⟨c.lineStarts ++ [c.lineStart], ?_, hc.table⟩
      rw [List.map_append]
      rfl

/-! ## the line of an offset -/

variable {starts : List Nat} {p q n : Nat}

/-- the lines in front of `low` start in front of the offset, those behind `high` behind it -/
structure Searching (starts : List Nat) (p : Nat) (s : Int × Int) : Prop where
  low : 0 ≤ s.1
  high : s.2 < starts.length
  le : s.1 ≤ s.2 + 1
  before : ∀ (i : Nat) a, (i : Int) < s.1 → starts[i]? = some a → a < p
  behind : ∀ (i : Nat) a, s.2 < (i : Int) → starts[i]? = some a → p < a

/-- the line that is found starts at the offset or in front of it, the next line behind it -/
def Finds (starts : List Nat) (p : Nat) (line : Option Int) : Prop :=
  ∃ (i : Nat) (start : Nat), line = some (i : Int) ∧ starts[i]? = some start ∧ start ≤ p ∧
    ∀ b, starts[i + 1]? = some b → p < b

theorem linePass_spec (h : LineTable text starts) {s : Int × Int} (hs : Searching starts p s) :
    (∀ s', linePass (starts.map Nat.cast) p s = .again s' →
      Searching starts p s' ∧ (s'.2 - s'.1 + 1).toNat < (s.2 - s.1 + 1).toNat) ∧
    (∀ r, linePass (starts.map Nat.cast) p s = .leave r → Finds starts p r) := by
  obtain ⟨hlow, hhigh, hle, hbefore, hbehind⟩ := hs
  unfold linePass
  by_cases hopen : s.1 ≤ s.2
  · obtain ⟨m, hm⟩ : ∃ m : Nat, s.1 + (s.2 - s.1) / 2 = m :=
      ⟨(s.1 + (s.2 - s.1) / 2).toNat, (Int.toNat_of_nonneg (by omega)).symm⟩
    have hlen : m < starts.length := by omega
    have hvalue := List.getElem?_eq_getElem hlen
    have hat : at? (starts.map Nat.cast) (m : Int) = some ((starts[m] : Nat) : Int) := by
      rw [at?_natCast, List.getElem?_map, hvalue]
      rfl
    rw [if_pos hopen]
    dsimp only
    rw [hm, hat]
    dsimp only
    by_cases hless : ((starts[m] : Nat) : Int) < p
    · rw [if_pos hless]
      refine ⟨?_, fun r hr => by cases hr⟩
      intro s' hs'
      cases hs'
      refine ⟨⟨by dsimp only; omega, hhigh, by dsimp only; omega, ?_, hbehind⟩, by dsimp only; omega⟩
      intro i a hi ha
      change (i : Int) < m + 1 at hi
      rcases Nat.lt_or_eq_of_le (show i ≤ m by omega) with hlt | rfl
      · have := h.lt hlt ha hvalue
        omega
      · rw [hvalue] at ha
        cases ha
        omega
    · rw [if_neg hless]
      by_cases hgreater : (p : Int) < ((starts[m] : Nat) : Int)
      · rw [if_pos hgreater]
        refine ⟨?_, fun r hr => by cases hr⟩
        intro s' hs'
        cases hs'
        refine ⟨⟨hlow, by dsimp only; omega, by dsimp only; omega, hbefore, ?_⟩, by dsimp only; omega⟩
        intro i a hi ha
        change (m : Int) - 1 < i at hi
        rcases Nat.lt_or_eq_of_le (show m ≤ i by omega) with hlt | rfl
        · have := h.lt hlt hvalue ha
          omega
        · rw [hvalue] at ha
          cases ha
          omega
      · rw [if_neg hgreater]
        refine ⟨fun s' hs' => (by cases hs'), ?_⟩
        intro r hr
        cases hr
        refine ⟨m, starts[m], rfl, hvalue, by omega, ?_⟩
        intro b hb
        have := h.lt (Nat.lt_succ_self m) hvalue hb
        omega
  · rw [if_neg hopen]
    refine ⟨fun s' hs' => (by cases hs'), ?_⟩
    intro r hr
    cases hr
    -- the first line is not behind the offset
    have hpos : 0 < s.1 := by
      by_contra hzero
      have := hbehind 0 0 (by omega) h.head
      omega
    obtain ⟨i, hi⟩ : ∃ i : Nat, s.1 - 1 = i := ⟨(s.1 - 1).toNat, (Int.toNat_of_nonneg (by omega)).symm⟩
    have hlen : i < starts.length := by omega
    have hvalue := List.getElem?_eq_getElem hlen
    refine ⟨i, starts[i], congrArg some hi, hvalue, (hbefore i _ (by omega) hvalue).le, ?_⟩
    intro b hb
    exact hbehind (i + 1) b (by omega) hb

theorem computeLineOfPosition_spec (h : LineTable text starts) (p : Nat) :
    Finds starts p (computeLineOfPosition (starts.map Nat.cast) p) := by
  have hne : 0 < starts.length := (List.getElem?_eq_some_iff.1 h.head).1
  have hstart : Searching starts p (0, ((starts.map (Nat.cast : Nat → Int)).length : Int) - 1) := by
    rw [List.length_map]
    refine ⟨Int.le_refl 0, by dsimp only; omega, by dsimp only; omega, ?_, ?_⟩
    · intro i a hi
      change (i : Int) < 0 at hi
      omega
    · intro i a hi ha
      have := (List.getElem?_eq_some_iff.1 ha).1
      change (starts.length : Int) - 1 < i at hi
      omega
  exact loop_rule (linePass (starts.map Nat.cast) p) (fun _ => none) _ (Searching starts p)
    (fun s s' hs hp => (linePass_spec h hs).1 s' hp) (Finds starts p)
    (fun s r hs hp => (linePass_spec h hs).2 r hp) _ hstart

/-! ## there and back -/

theorem Units.eq_of_zero (h : Units text p q n) (hn : n = 0) : q = p := by
  cases h with
  | refl p => rfl
  | next hp h =>
    have : 0 < utf16RuneLen (runeAt text p) := by
      rw [utf16RuneLen]
      split <;> omega
    omega

theorem unitPass_down (text : Bytes) (lineEnd character : Int) (s s' : Int × Int)
    (h : unitPass text lineEnd character s = .again s') :
    (character - s'.2).toNat < (character - s.2).toNat := by
  unfold unitPass at h
  split at h
  · next hopen =>
    split at h
    · cases h
    · have hone : 0 < utf16RuneLen (decodeUtf8 (text.drop s.1.toNat)).1 := by
        rw [utf16RuneLen]
        split <;> omega
      rw [← Pass.again.inj h]
      show (character - (s.2 + (utf16RuneLen (decodeUtf8 (text.drop s.1.toNat)).1 : Int))).toNat < _
      omega
  · cases h

/-- the walk ends behind as many units as are asked for -/
theorem unitPass_units (h : Units text p q n) {lineEnd : Nat} (hq : q ≤ lineEnd)
    (hend : lineEnd ≤ text.length) (count : Nat) :
    loop (unitPass text lineEnd (count + n : Nat)) some (fun s => (((count + n : Nat) : Int) - s.2).toNat)
      (p, count) = some ((q : Int), ((count + n : Nat) : Int)) := by
  induction h generalizing count with
  | refl p =>
    apply loop_leave
    rw [unitPass, if_neg]
    · rfl
    · rintro ⟨-, hcount⟩
      change (count : Int) < ((count + 0 : Nat) : Int) at hcount
      omega
  | @next p q n hp h ih =>
    have hle := h.le
    have hlt := (next_bounds hp).1
    have hpos : 0 < utf16RuneLen (runeAt text p) := by
      rw [utf16RuneLen]
      split <;> omega
    have hpass : unitPass text lineEnd (count + (utf16RuneLen (runeAt text p) + n) : Nat)
        ((p : Int), (count : Int)) =
          .again ((next text p : Nat), (count + utf16RuneLen (runeAt text p) : Nat)) := by
      rw [unitPass, if_pos ⟨by dsimp only; omega, by dsimp only; omega⟩,
        if_neg (by dsimp only; omega)]
      dsimp only
      rw [Int.toNat_natCast, ← Int.natCast_add, ← Int.natCast_add]
      rfl
    have hrest := ih hq (count + utf16RuneLen (runeAt text p))
    rw [Nat.add_assoc] at hrest
    rw [loop_again _ _ _ (fun _ => True) (always _ _ (unitPass_down text _ _)) trivial hpass, hrest]

/-- with edits allowed every line and character have an offset in the text -/
theorem computePosition_edits (h : LineTable text starts) (line character : Int) :
    ∃ p : Nat, p ≤ text.length ∧ computePositionOfLineAndUtf16Character (starts.map Nat.cast) line
      character text true = some (p : Int) := by
  have hne : 0 < starts.length := (List.getElem?_eq_some_iff.1 h.head).1
  have hlen : (starts.map (Nat.cast : Nat → Int)).length = starts.length := List.length_map _
  obtain ⟨i, hi, hline⟩ : ∃ i : Nat, i < starts.length ∧
      validLine (starts.map Nat.cast) line true = some (i : Int) := by
    unfold validLine
    rw [hlen]
    by_cases hvalid : 0 ≤ line ∧ line < (starts.length : Int)
    · rw [if_pos hvalid]
      exact ⟨line.toNat, by omega, congrArg some (Int.toNat_of_nonneg hvalid.1).symm⟩
    · rw [if_neg hvalid, if_neg (by decide)]
      by_cases hneg : line < 0
      · rw [if_pos hneg]
        exact ⟨0, hne, rfl⟩
      · rw [if_neg hneg]
        exact ⟨starts.length - 1, by omega, congrArg some (by omega)⟩
  have hstart : at? (starts.map (Nat.cast : Nat → Int)) (i : Int) = some ((starts[i] : Nat) : Int) := by
    rw [at?_natCast, List.getElem?_map, List.getElem?_eq_getElem hi]
    rfl
  have hend : (at? (starts.map (Nat.cast : Nat → Int)) ((i : Int) + 1)).getD text.length ≤ text.length := by
    rw [← Int.natCast_succ, at?_natCast, List.getElem?_map]
    cases hnext : starts[i + 1]? with
    | none => exact Int.le_refl _
    | some b =>
      have := (h.boundary b (List.mem_of_getElem? hnext)).le
      show (b : Int) ≤ text.length
      omega
  unfold computePositionOfLineAndUtf16Character
  rw [hline, Option.bind_eq_bind, Option.bind_some, hstart, Option.bind_eq_bind, Option.bind_some]
  generalize (at? (starts.map (Nat.cast : Nat → Int)) ((i : Int) + 1)).getD text.length = lineEnd at hend ⊢
  by_cases hpos : 0 < character
  · obtain ⟨s, hs, hnonneg⟩ := loop_rule (unitPass text lineEnd character) some
      (fun s => (character - s.2).toNat) (fun s => 0 ≤ s.1)
      (by
        intro s s' hs hpass
        refine ⟨?_, unitPass_down text lineEnd character s s' hpass⟩
        unfold unitPass at hpass
        split at hpass
        · split at hpass
          · cases hpass
          · rw [← Pass.again.inj hpass]
            show 0 ≤ s.1 + ((decodeUtf8 (text.drop s.1.toNat)).2 : Int)
            omega
        · cases hpass)
      (fun r => ∃ s : Int × Int, r = some s ∧ 0 ≤ s.1)
      (by
        intro s r hs hpass
        unfold unitPass at hpass
        split at hpass
        · next hopen =>
          rw [if_neg (by omega)] at hpass
          cases hpass
        · cases hpass
          exact ⟨s, rfl, hs⟩)
      ((starts[i] : Nat), 0) (Int.natCast_nonneg _)
    refine ⟨(min s.1 text.length).toNat, by omega, ?_⟩
    rw [if_pos hpos]
    dsimp only
    rw [hs, Option.bind_some]
    exact congrArg some (Int.toNat_of_nonneg (by omega)).symm
  · refine ⟨min starts[i] text.length, Nat.min_le_right _ _, ?_⟩
    rw [if_neg hpos]
    exact congrArg some (Nat.cast_min _ _).symm

/-- **A position that is a boundary between two characters is found again** from its line and
character, in every text that has a table of lines, and all but giant ones have. -/
theorem ecma_position_round_trip (text : Bytes) (p : Nat) (hp : Boundary text p) :
    (¬ Giant text → ecmaLineStarts text ≠ none) ∧
    ∀ lineStarts, ecmaLineStarts text = some lineStarts → ∀ allowEdits, ∃ line character,
      getEcmaLineAndUtf16CharacterOfPosition text p = some (line, character) ∧
      computePositionOfLineAndUtf16Character lineStarts line character text allowEdits = some (p : Int) := by
  rcases ecmaLineStarts_table text with ⟨hnone, hgiant⟩ | ⟨starts, hsome, htable⟩
  · refine ⟨fun h => absurd hgiant h, ?_⟩
    intro lineStarts h
    rw [hnone] at h
    cases h
  · refine ⟨fun _ => by rw [hsome]; exact Option.some_ne_none _, ?_⟩
    intro lineStarts hstarts allowEdits
    rw [hsome] at hstarts
    cases hstarts
    have hle := hp.le
    obtain ⟨i, start, hline, hstart, hsp, hnext⟩ := computeLineOfPosition_spec htable p
    have hi := (List.getElem?_eq_some_iff.1 hstart).1
    have hat : at? (starts.map (Nat.cast : Nat → Int)) (i : Int) = some (start : Int) := by
      rw [at?_natCast, List.getElem?_map, hstart]
      rfl
    have hatNext : (at? (starts.map (Nat.cast : Nat → Int)) ((i : Int) + 1)).getD text.length =
        ((starts[i + 1]?.getD text.length : Nat) : Int) := by
      rw [← Int.natCast_succ, at?_natCast, List.getElem?_map]
      cases starts[i + 1]? with
      | none => rfl
      | some b => rfl
    obtain ⟨hpe, hel⟩ := lineEnd_spec htable hle hnext
    -- the units between the start of the line and the position
    have hboundary := htable.boundary start (List.mem_of_getElem? hstart)
    obtain ⟨k, rfl⟩ := hboundary.reach hp hsp
    obtain ⟨n, hn⟩ : ∃ n, Units text start ((next text)^[k] start) n := exists_units k start
    refine ⟨i, n, ?_, ?_⟩
    · unfold getEcmaLineAndUtf16CharacterOfPosition
      simp only [hsome, hline, hat, Option.bind_eq_bind, Option.bind_some]
      rw [if_pos ⟨by omega, by omega, by omega⟩, Int.toNat_natCast, Int.toNat_natCast,
        utf16Len_units hn hle]
    · unfold computePositionOfLineAndUtf16Character
      have hvalid : validLine (starts.map Nat.cast) (i : Int) allowEdits = some (i : Int) := by
        unfold validLine
        rw [List.length_map, if_pos (by omega)]
      simp only [hvalid, hat, hatNext, Option.bind_eq_bind, Option.bind_some]
      by_cases hzero : 0 < (n : Int)
      · have hwalk := unitPass_units hn hpe hel 0
        rw [Nat.zero_add] at hwalk
        rw [if_pos hzero]
        change (loop _ _ _ (_, (0 : Int))) = _ at hwalk
        rw [hwalk, Option.bind_some]
        dsimp only
        cases allowEdits with
        | true => exact congrArg some (min_eq_left (Int.ofNat_le.2 hle))
        | false =>
          rw [if_neg Bool.false_ne_true, if_neg (by omega), if_pos (by omega)]
      · -- no unit in front of the position: it starts the line
        have hsame : (next text)^[k] start = start := hn.eq_of_zero (by omega)
        rw [hsame] at hle ⊢
        rw [if_neg hzero]
        cases allowEdits with
        | true => exact congrArg some (min_eq_left (Int.ofNat_le.2 hle))
        | false =>
          rw [if_neg Bool.false_ne_true, if_pos (by omega)]

/-- LF, CR, CRLF, U+2028 and U+2029, an astral character and a lone surrogate -/
def allBreaks : Bytes :=
  [0x61, 0x0D, 0x0D, 0x0A, 0xE2, 0x80, 0xA8, 0xF0, 0x9F, 0x98, 0x80, 0xED, 0xA0, 0x80, 0xE2, 0x80, 0xA9,
    0x0A, 0x62]

/-- between CR and LF, and at the end -/
theorem ecma_position_round_trip_allBreaks :
    ecmaLineStarts allBreaks = some [0, 2, 4, 7, 17, 18] ∧
    (∃ line character,
      getEcmaLineAndUtf16CharacterOfPosition allBreaks (3 : Nat) = some (line, character) ∧
      computePositionOfLineAndUtf16Character [0, 2, 4, 7, 17, 18] line character allBreaks false =
        some ((3 : Nat) : Int)) ∧
    ∃ line character,
      getEcmaLineAndUtf16CharacterOfPosition allBreaks (19 : Nat) = some (line, character) ∧
      computePositionOfLineAndUtf16Character [0, 2, 4, 7, 17, 18] line character allBreaks false =
        some ((19 : Nat) : Int) := by
  have hstarts : ecmaLineStarts allBreaks = some [0, 2, 4, 7, 17, 18] := by decide +kernel
  have h3 : Boundary allBreaks 3 := ⟨3, by decide +kernel⟩
  have h19 : Boundary allBreaks 19 := ⟨12, by decide +kernel⟩
  exact ⟨hstarts, (ecma_position_round_trip allBreaks 3 h3).2 _ hstarts false,
    (ecma_position_round_trip allBreaks 19 h19).2 _ hstarts false⟩

/-! ## characters with surrogates -/

theorem decodeUtf8_continuation {first : UInt8} (rest : Bytes) (hlow : 0x80 ≤ first)
    (hhigh : first ≤ 0xBF) : decodeUtf8 (first :: rest) = (runeError, 1) := by
  have hlow' : 0x80 ≤ first.toNat := hlow
  have hhigh' : first.toNat ≤ 0xBF := hhigh
  have hascii : ¬ first < 0x80 := by
    intro hlt
    have hlt' : first.toNat < 0x80 := hlt
    omega
  rcases decodeUtf8_high rest hascii with he | ⟨seq, rune, post, hs, hbytes, -⟩
  · exact he
  · cases hs with
    | two a b ha hb =>
      obtain ⟨rfl, -⟩ := List.cons.inj hbytes
      omega
    | three a b c ha hb hc hl hh =>
      obtain ⟨rfl, -⟩ := List.cons.inj hbytes
      omega
    | four a b c d ha hb hc hd hl hh =>
      obtain ⟨rfl, -⟩ := List.cons.inj hbytes
      omega

/-- the lead of a lone surrogate is invalid -/
theorem decodeUtf8_surrogate {second : UInt8} (rest : Bytes) (hsecond : 0xA0 ≤ second) :
    decodeUtf8 (0xED :: second :: rest) = (runeError, 1) := by
  have hsecond' : 0xA0 ≤ second.toNat := hsecond
  have hascii : ¬ (0xED : UInt8) < 0x80 := by decide
  rcases decodeUtf8_high (second :: rest) hascii with he | ⟨seq, rune, post, hs, hbytes, -⟩
  · exact he
  · cases hs with
    | two a b ha hb =>
      obtain ⟨rfl, -⟩ := List.cons.inj hbytes
      exact absurd ha.2 (by decide)
    | three a b c ha hb hc hl hh =>
      obtain ⟨hfirst, hrest⟩ := List.cons.inj hbytes
      obtain ⟨rfl, -⟩ := List.cons.inj hrest
      have := hh (congrArg UInt8.toNat hfirst.symm)
      omega
    | four a b c d ha hb hc hd hl hh =>
      obtain ⟨rfl, -⟩ := List.cons.inj hbytes
      exact absurd ha.1 (by decide)

theorem boundary_rune (hp : Boundary text p) : Boundary text (p + (decodeRune (text.drop p)).2) := by
  rcases decodeRune_cases (text.drop p) with heq | ⟨second, third, rest, hbytes, heq, hsecond, hthird⟩
  · rw [heq]
    exact hp.next
  · -- three invalid bytes
    have hstep : ∀ i b bs, text.drop (p + i) = b :: bs → text.drop (p + (i + 1)) = bs := by
      intro i b bs h
      rw [← Nat.add_assoc, ← List.drop_drop, h]
      rfl
    have hdrop1 := hstep 0 _ _ hbytes
    have hdrop2 := hstep 1 _ _ hdrop1
    have h1 : next text p = p + 1 := by
      rw [next, hbytes, decodeUtf8_surrogate _ hsecond.1]
    have h2 : next text (p + 1) = p + 2 := by
      have hlow : (0x80 : UInt8) ≤ second := UInt8.le_trans (by decide) hsecond.1
      rw [next, hdrop1, decodeUtf8_continuation _ hlow hsecond.2]
      rfl
    have h3 : next text (p + 2) = p + 3 := by
      rw [next]
      show p + 2 + (decodeUtf8 (text.drop (p + (1 + 1)))).2 = p + 3
      rw [hdrop2, decodeUtf8_continuation _ hthird.1 hthird.2]
      rfl
    rw [heq]
    show Boundary text (p + 3)
    rw [← h3, ← h2, ← h1]
    exact hp.next.next.next

/-- the characters in which a lone surrogate is one have such boundaries too -/
theorem boundary_characters (text : Bytes) (n : Nat) :
    Boundary text (byteLength ((characters text).take n)) := by
  have hfrom : ∀ p, Boundary text p →
      Boundary text (p + byteLength ((characters (text.drop p)).take n)) := by
    induction n with
    | zero =>
      intro p hp
      rw [List.take_zero]
      exact hp
    | succ n ih =>
      intro p hp
      cases hdrop : text.drop p with
      | nil =>
        rw [characters, List.take_nil]
        exact hp
      | cons first rest =>
        have hnext : Boundary text (p + (firstCharacter first rest).width) := by
          have := boundary_rune hp
          rwa [hdrop] at this
        have hrest := ih _ hnext
        rw [← List.drop_drop, hdrop, Nat.add_assoc] at hrest
        rw [characters, List.take_succ_cons]
        exact hrest
  have := hfrom 0 Boundary.zero
  rwa [Nat.zero_add] at this

/-! ## a giant text -/

/-- a character of four bytes crosses `2^31` -/
def giantText (n m : Nat) : Bytes :=
  List.replicate n 0x61 ++ ([0xF0, 0x9F, 0x98, 0x80] ++ List.replicate m 0x61)

variable {m : Nat} {textLen : Int}

theorem ecmaPass_letter (htext : textLen < 2 ^ 31) (hn : (n : Int) < textLen) {i : Nat} (hi : i < n) :
    ecmaPass (giantText n m) textLen ⟨i, 0, []⟩ = .again ⟨(i + 1 : Nat), 0, []⟩ := by
  have hletter : (giantText n m)[i]? = some 0x61 := by
    rw [giantText, List.getElem?_append_left (by rwa [List.length_replicate]), List.getElem?_replicate,
      if_pos hi]
  have hwrap : wrap32 ((i : Int) + 1) = ((i + 1 : Nat) : Int) := wrap32_eq _ (by omega) (by omega)
  have hascii : (0x61 : UInt8) < 0x80 := by decide
  have hcr : ¬ (0x61 : UInt8) = 0x0D := by decide
  have hlf : ¬ (0x61 : UInt8) = 0x0A := by decide
  unfold ecmaPass
  simp only [at?_natCast, hletter, hwrap, hascii, hcr, hlf, if_true, false_and, if_false, decide_false,
    Bool.or_false, Bool.false_eq_true]
  rw [if_pos (by omega)]

theorem ecmaPass_crossing (htext : textLen < 2 ^ 31) (hn : (n : Int) < textLen) (hcross : 2 ^ 31 ≤ n + 4) :
    ∃ offset : Int, offset < 0 ∧ ecmaPass (giantText n m) textLen ⟨n, 0, []⟩ = .again ⟨offset, 0, []⟩ := by
  obtain ⟨k, hk, hlow, hhigh⟩ := wrap32_spec ((n : Int) + 4)
  refine ⟨wrap32 ((n : Int) + 4), by omega, ?_⟩
  have hlength : (List.replicate n (0x61 : UInt8)).length = n := List.length_replicate
  have hlead : (giantText n m)[n]? = some 0xF0 := by
    rw [giantText, List.getElem?_append_right (by omega), hlength, Nat.sub_self]
    rfl
  have hdrop : (giantText n m).drop n = [0xF0, 0x9F, 0x98, 0x80] ++ List.replicate m 0x61 := by
    rw [giantText, List.drop_left' hlength]
  have hdecode : decodeUtf8 ((giantText n m).drop n) = (0x1F600, 4) := by
    have hseq := Json.Sequence.four 0xF0 0x9F 0x98 0x80 (by decide) (by decide) (by decide) (by decide)
      (by decide) (by decide)
    rw [hdrop]
    exact decodeUtf8_sequence hseq _
  have hascii : ¬ (0xF0 : UInt8) < 0x80 := by decide
  have hbreak : isLineBreak 0x1F600 = false := by decide
  unfold ecmaPass
  simp only [at?_natCast, hlead, hascii, if_false, Int.toNat_natCast, hdecode, hbreak, Bool.false_eq_true]
  rw [if_pos hn]
  rfl

theorem ecmaLineStarts_crossing (hn : (n : Int) < wrap32 (giantText n m).length) (hcross : 2 ^ 31 ≤ n + 4) :
    ecmaLineStarts (giantText n m) = none := by
  obtain ⟨k, hk, hlow, hhigh⟩ := wrap32_spec (giantText n m).length
  unfold ecmaLineStarts
  dsimp only
  generalize wrap32 ((giantText n m).length : Int) = textLen at hn hk hlow hhigh
  refine loop_rule (ecmaPass (giantText n m) textLen) (fun _ => none) _
    (fun s => s.byteOffset < 0 ∨ ∃ i : Nat, i ≤ n ∧ s = ⟨i, 0, []⟩) ?_ (fun r => r = none) ?_ _
    (Or.inr ⟨0, Nat.zero_le n, rfl⟩)
  · intro s s' hs hpass
    rcases hs with hneg | ⟨i, hi, rfl⟩
    · unfold ecmaPass at hpass
      rw [if_pos (by omega), at?, if_pos hneg] at hpass
      cases hpass
    · rcases Nat.lt_or_eq_of_le hi with hlt | rfl
      · rw [ecmaPass_letter hhigh hn hlt] at hpass
        cases hpass
        refine ⟨Or.inr ⟨i + 1, hlt, rfl⟩, ahead_lt (Int.natCast_nonneg i) (by dsimp only; omega) (Or.inr ?_)⟩
        dsimp only
        omega
      · obtain ⟨offset, hneg, hagain⟩ := ecmaPass_crossing (m := m) hhigh hn hcross
        rw [hagain] at hpass
        cases hpass
        exact ⟨Or.inl hneg, ahead_lt (Int.natCast_nonneg i) hn (Or.inl hneg)⟩
  · intro s r hs hpass
    rcases hs with hneg | ⟨i, hi, rfl⟩
    · unfold ecmaPass at hpass
      rw [if_pos (by omega), at?, if_pos hneg] at hpass
      cases hpass
      rfl
    · rcases Nat.lt_or_eq_of_le hi with hlt | rfl
      · rw [ecmaPass_letter hhigh hn hlt] at hpass
        cases hpass
      · obtain ⟨offset, -, hagain⟩ := ecmaPass_crossing (m := m) hhigh hn hcross
        rw [hagain] at hpass
        cases hpass

/-- **A text of six GiB has no table of lines**: its length is cast to `2^31 - 1`, and the offset wraps
in front of it. -/
theorem ecmaLineStarts_giant :
    Boundary (giantText (2 ^ 31 - 2) (2 ^ 32 - 3)) 0 ∧
    ecmaLineStarts (giantText (2 ^ 31 - 2) (2 ^ 32 - 3)) = none ∧
    getEcmaLineAndUtf16CharacterOfPosition (giantText (2 ^ 31 - 2) (2 ^ 32 - 3)) (0 : Nat) = none := by
  have hlength : (giantText (2 ^ 31 - 2) (2 ^ 32 - 3)).length = 6442450943 := by
    rw [giantText, List.length_append, List.length_append, List.length_replicate, List.length_replicate]
    rfl
  have hwrap : wrap32 ((6442450943 : Nat) : Int) = 2147483647 := by decide
  have hnone : ecmaLineStarts (giantText (2 ^ 31 - 2) (2 ^ 32 - 3)) = none := by
    refine ecmaLineStarts_crossing ?_ (by omega)
    rw [hlength, hwrap]
    decide
  refine ⟨Boundary.zero, hnone, ?_⟩
  unfold getEcmaLineAndUtf16CharacterOfPosition
  rw [hnone]
  rfl

end Tsr.Jsstring
