import Tsr.Json.Utf8
import Tsr.Lib.Loop

/-!
# Positions of the language server protocol

A position in a text is a byte offset, or a line and a character in it; characters are bytes or
UTF-16 units.  Texts are shorter than `2^31` bytes, so that no byte offset wraps.

* `LspLineMap.new`                      where the lines start, each behind LF, CR or CRLF;
* `lspPositionToLineAndCharacter`       the line of an offset, and the units in front of it there;
* `lspLineAndCharacterToPosition`       the offset, no further than the end of the line; `none` is the
                                        panic of a line from `2^31` on.

`lsp_position_round_trip`: a boundary between two characters is found again.
-/

namespace Tsr.Jsstring
open Tsr.Json (Bytes decodeUtf8 decodeUtf8_ascii decodeUtf8_high decodeUtf8_sequence decodeUtf8_width
  runeError)
open Tsr.Lib.Loop

inductive PositionEncoding where
  | utf8
  | utf16
deriving DecidableEq

/-- both numbers are unsigned words of 32 bits -/
structure LspPosition where
  line : Nat
  character : Nat
deriving DecidableEq

structure LspLineMap where
  lineStarts : List Nat
  asciiOnly : Bool
deriving DecidableEq

/-- a signed word of 32 bits -/
def wrap32 (n : Int) : Int := Int.bmod n (2 ^ 32)

/-- the unsigned word of a signed one -/
def unsigned (n : Int) : Nat := (n % 2 ^ 32).toNat

/-! ## the lines of a text -/

structure LineScan where
  offset : Nat
  lineStart : Nat
  lineStarts : List Nat
  asciiOnly : Bool

def LineScan.newLine (s : LineScan) (offset : Nat) : LineScan :=
  { s with offset := offset, lineStarts := s.lineStarts ++ [s.lineStart], lineStart := offset }

/-- one character of the text -/
def scanLinePass (text : Bytes) (s : LineScan) : Pass LineScan LineScan :=
  match text[s.offset]? with
  | none => .leave s
  | some byte =>
    if byte < 0x80 then
      if byte = 0x0D then
        .again (s.newLine (if text[s.offset + 1]? = some 0x0A then s.offset + 2 else s.offset + 1))
      else if byte = 0x0A then .again (s.newLine (s.offset + 1))
      else .again { s with offset := s.offset + 1 }
    else
      .again { s with offset := s.offset + (decodeUtf8 (text.drop s.offset)).2, asciiOnly := false }

def scanLines (text : Bytes) (s : LineScan) : LineScan :=
  loop (scanLinePass text) id (fun s => text.length - s.offset) s

def LspLineMap.new (text : Bytes) : LspLineMap :=
  let s := scanLines text ⟨0, 0, [], true⟩
  ⟨s.lineStarts ++ [s.lineStart], s.asciiOnly⟩

/-- the number of elements in front of the first that fails; the list is partitioned by the test -/
def partitionPoint {α : Type} (p : α → Bool) (xs : List α) : Nat := (xs.takeWhile p).length

def LspLineMap.computeIndexOfLineStart (lineMap : LspLineMap) (target : Nat) : Nat :=
  let index := partitionPoint (fun start => start < target) lineMap.lineStarts
  if lineMap.lineStarts[index]? ≠ some target ∧ 0 < index then index - 1 else index

/-! ## UTF-16 units -/

def utf16RuneLen (rune : Nat) : Nat := if 0x10000 ≤ rune then 2 else 1

/-- offset and units so far -/
def utf16Pass (text : Bytes) (s : Nat × Nat) : Pass (Nat × Nat) Nat :=
  if s.1 < text.length then
    let (rune, width) := decodeUtf8 (text.drop s.1)
    .again (s.1 + width, s.2 + utf16RuneLen rune)
  else .leave s.2

def utf16Len (text : Bytes) : Nat :=
  match text.findIdx? (fun b => 0x80 ≤ b) with
  | none => text.length
  | some first => loop (utf16Pass text) Prod.snd (fun s => text.length - s.1) (first, first)

/-- offset and units so far; the walk stops in front of the unit that is one too many -/
def characterPass (text : Bytes) (stop : Nat) (character : Int) (s : Nat × Nat) :
    Pass (Nat × Nat) Nat :=
  if s.1 < stop then
    let (rune, width) := decodeUtf8 (text.drop s.1)
    if character < (s.2 + utf16RuneLen rune : Nat) then .leave s.1
    else .again (s.1 + width, s.2 + utf16RuneLen rune)
  else .leave s.1

/-! ## the conversions -/

def lspLineAndCharacterToPosition (text : Bytes) (lineMap : LspLineMap) (position : LspPosition)
    (encoding : PositionEncoding) : Option Int :=
  let line := wrap32 position.line
  let character := wrap32 position.character
  if (lineMap.lineStarts.length : Int) ≤ line then some text.length
  else if line < 0 then none
  else match lineMap.lineStarts[line.toNat]? with
    | none => none
    | some start =>
      let lineEnd := lineMap.lineStarts[line.toNat + 1]?.getD text.length
      if lineMap.asciiOnly ∨ encoding = .utf8 then
        some (max (start : Int) (min (wrap32 (start + character)) lineEnd))
      else
        some (loop (characterPass text lineEnd character) Prod.fst (fun s => lineEnd - s.1)
          (start, 0) : Nat)

/-- the offset is clamped first; `none` where the line map has no line -/
def lspPositionToLineAndCharacter (text : Bytes) (lineMap : LspLineMap) (position : Int)
    (encoding : PositionEncoding) : Option LspPosition :=
  let position := (max (min position text.length) 0).toNat
  let line := lineMap.computeIndexOfLineStart position
  match lineMap.lineStarts[line]? with
  | none => none
  | some start =>
    let character : Int :=
      if lineMap.asciiOnly ∨ encoding = .utf8 then wrap32 ((position : Int) - start)
      else utf16Len ((text.take position).drop start)
    some ⟨line % 2 ^ 32, unsigned character⟩

/-! ## boundaries between characters -/

/-- the start of the next character -/
def next (text : Bytes) (p : Nat) : Nat := p + (decodeUtf8 (text.drop p)).2

/-- what is reached from the start of the text, character by character; a surrogate is three invalid
bytes -/
def Boundary (text : Bytes) (p : Nat) : Prop := ∃ n, (next text)^[n] 0 = p

variable {text : Bytes} {p q s n : Nat}

theorem next_bounds (hp : p < text.length) : p < next text p ∧ next text p ≤ text.length := by
  have hne : text.drop p ≠ [] := by simpa using hp
  have hw := decodeUtf8_width hne
  rw [List.length_drop] at hw
  rw [next]
  omega

theorem next_end (hp : text.length ≤ p) : next text p = p := by
  rw [next, List.drop_eq_nil_of_le hp]
  rfl

theorem le_iterate (k p : Nat) : p ≤ (next text)^[k] p := by
  induction k generalizing p with
  | zero => exact Nat.le_refl _
  | succ k ih => exact (Nat.le_add_right p _).trans (ih (next text p))

theorem iterate_end (hp : text.length ≤ p) (k : Nat) : (next text)^[k] p = p := by
  induction k with
  | zero => rfl
  | succ k ih => rw [Function.iterate_succ_apply, next_end hp, ih]

theorem Boundary.zero : Boundary text 0 := ⟨0, rfl⟩

theorem Boundary.next (h : Boundary text p) : Boundary text (next text p) := by
  obtain ⟨n, rfl⟩ := h
  exact ⟨n + 1, Function.iterate_succ_apply' _ _ _⟩

theorem Boundary.le (h : Boundary text p) : p ≤ text.length := by
  obtain ⟨n, rfl⟩ := h
  induction n with
  | zero => exact Nat.zero_le _
  | succ n ih =>
    rw [Function.iterate_succ_apply']
    rcases Nat.lt_or_eq_of_le ih with hlt | heq
    · exact (next_bounds hlt).2
    · rw [heq, next_end (Nat.le_refl _)]

/-- the later of two boundaries is reached from the other one -/
theorem Boundary.reach (hp : Boundary text p) (hq : Boundary text q) (hle : p ≤ q) :
    ∃ k, (Jsstring.next text)^[k] p = q := by
  obtain ⟨m, rfl⟩ := hp
  obtain ⟨n, rfl⟩ := hq
  rcases Nat.le_total m n with hmn | hnm
  · refine ⟨n - m, ?_⟩
    rw [← Function.iterate_add_apply, Nat.sub_add_cancel hmn]
  · refine ⟨0, Nat.le_antisymm hle ?_⟩
    rw [← Nat.sub_add_cancel hnm, Function.iterate_add_apply]
    exact le_iterate _ _

/-! ## units between two boundaries -/

/-- the rune at a position -/
def runeAt (text : Bytes) (p : Nat) : Nat := (decodeUtf8 (text.drop p)).1

/-- `Units text p q n`: the characters from `p` up to `q` have `n` units -/
inductive Units (text : Bytes) : Nat → Nat → Nat → Prop
  | refl (p : Nat) : Units text p p 0
  | next {p q n : Nat} (hp : p < text.length) (h : Units text (next text p) q n) :
      Units text p q (utf16RuneLen (runeAt text p) + n)

theorem Units.le (h : Units text p q n) : p ≤ q := by
  induction h with
  | refl p => exact Nat.le_refl _
  | next hp h ih => exact (next_bounds hp).1.le.trans ih

theorem exists_units (k p : Nat) : ∃ n, Units text p ((next text)^[k] p) n := by
  induction k generalizing p with
  | zero => exact ⟨0, .refl p⟩
  | succ k ih =>
    by_cases hp : p < text.length
    · obtain ⟨n, hn⟩ := ih (next text p)
      exact ⟨_, .next hp hn⟩
    · rw [iterate_end (Nat.not_lt.1 hp)]
      exact ⟨0, .refl p⟩

theorem utf16RuneLen_le (hp : p < text.length) : utf16RuneLen (runeAt text p) ≤ next text p - p := by
  rw [next, Nat.add_sub_cancel_left, runeAt]
  obtain ⟨first, rest, hdrop⟩ := List.exists_cons_of_ne_nil (l := text.drop p) (by simpa using hp)
  rw [hdrop]
  by_cases hf : first < 0x80
  · rw [decodeUtf8_ascii rest hf]
    have hlt : first.toNat < 0x80 := hf
    rw [utf16RuneLen, if_neg (by dsimp only; omega)]
  · rcases decodeUtf8_high rest hf with he | ⟨seq, rune, post, hs, -, hd⟩
    · rw [he]
      decide
    · rw [hd, utf16RuneLen]
      have := hs.length_bounds
      split <;> omega

theorem Units.count_le (h : Units text p q n) : n ≤ q - p := by
  induction h with
  | refl p => exact Nat.zero_le _
  | @next p q n hp h ih =>
    have h1 := utf16RuneLen_le hp
    have h2 := (next_bounds hp).1
    have h3 := h.le
    omega

/-- bytes of ASCII are one unit each -/
theorem Units.ascii (i : Nat) (h : Units text p q n) (hi : p + i ≤ q)
    (hascii : ∀ j < i, ∃ b, text[p + j]? = some b ∧ b < 0x80) :
    ∃ m, n = i + m ∧ Units text (p + i) q m := by
  induction i generalizing p n with
  | zero => exact ⟨n, (Nat.zero_add n).symm, h⟩
  | succ i ih =>
    obtain ⟨b, hb, hlt⟩ := hascii 0 (Nat.succ_pos i)
    rw [Nat.add_zero] at hb
    obtain ⟨hlen, hget⟩ := List.getElem?_eq_some_iff.1 hb
    have hdecode : decodeUtf8 (text.drop p) = (b.toNat, 1) := by
      rw [List.drop_eq_getElem_cons hlen, hget, decodeUtf8_ascii _ hlt]
    have hnext : Jsstring.next text p = p + 1 := by rw [Jsstring.next, hdecode]
    have hrune : utf16RuneLen (runeAt text p) = 1 := by
      have hlt' : b.toNat < 0x80 := hlt
      rw [runeAt, hdecode, utf16RuneLen, if_neg (by dsimp only; omega)]
    cases h with
    | refl p => omega
    | @next _ _ n _ h =>
      rw [hnext] at h
      obtain ⟨m, hm, hrest⟩ := ih h (by omega) (by
        intro j hj
        obtain ⟨b', hb', hlt'⟩ := hascii (j + 1) (by omega)
        exact ⟨b', by rwa [Nat.add_right_comm, Nat.add_assoc], hlt'⟩)
      refine ⟨m, by omega, ?_⟩
      rwa [Nat.add_right_comm, Nat.add_assoc] at hrest

/-! ## counting the units of a prefix -/

/-- a character that ends within a part of the text is read there as in the whole text -/
theorem decodeUtf8_take {bytes : Bytes} (hn : 0 < n) (hw : (decodeUtf8 bytes).2 ≤ n) :
    decodeUtf8 (bytes.take n) = decodeUtf8 bytes := by
  obtain _ | ⟨first, rest⟩ := bytes
  · rw [List.take_nil]
  obtain ⟨n, rfl⟩ : ∃ m, n = m + 1 := ⟨n - 1, by omega⟩
  rw [List.take_succ_cons]
  by_cases hf : first < 0x80
  · rw [decodeUtf8_ascii _ hf, decodeUtf8_ascii _ hf]
  · rcases decodeUtf8_high rest hf with he | ⟨seq, rune, post, hs, hb, hd⟩
    · rw [he]
      rcases decodeUtf8_high (rest.take n) hf with he' | ⟨seq, rune, post, hs, hb, -⟩
      · exact he'
      · -- a sequence in the part is one in the whole
        have hwhole : first :: rest = seq ++ (post ++ rest.drop n) := by
          rw [← List.append_assoc, ← hb, List.cons_append, List.take_append_drop]
        have hlen := hs.length_bounds
        rw [hwhole, decodeUtf8_sequence hs] at he
        have := congrArg Prod.snd he
        dsimp only at this
        omega
    · rw [hd] at hw ⊢
      rw [← List.take_succ_cons, hb, List.take_append, List.take_of_length_le hw, decodeUtf8_sequence hs]

/-- offsets of a part of the text that begins at `s` and ends at `q` -/
theorem utf16Pass_units (h : Units text p q n) (hs : s ≤ p) (hq : q ≤ text.length) (count : Nat) :
    loop (utf16Pass ((text.take q).drop s)) Prod.snd
      (fun c => ((text.take q).drop s).length - c.1) (p - s, count) = count + n := by
  have hlen : ((text.take q).drop s).length = q - s := by
    rw [List.length_drop, List.length_take, Nat.min_eq_left hq]
  induction h generalizing count with
  | refl p =>
    apply loop_leave
    rw [utf16Pass, if_neg (by rw [hlen]; exact Nat.lt_irrefl _)]
    rfl
  | @next p q n hp h ih =>
    have hle := h.le
    have hlt := (next_bounds hp).1
    have hdrop : ((text.take q).drop s).drop (p - s) = (text.drop p).take (q - p) := by
      rw [List.drop_drop, Nat.add_sub_cancel' hs, List.drop_take]
    have hdecode : decodeUtf8 (((text.take q).drop s).drop (p - s)) = decodeUtf8 (text.drop p) := by
      rw [hdrop]
      rw [next] at hle hlt
      exact decodeUtf8_take (by omega) (by omega)
    have hpass : utf16Pass ((text.take q).drop s) (p - s, count) =
        .again (next text p - s, count + utf16RuneLen (runeAt text p)) := by
      rw [utf16Pass, if_pos (by rw [hlen]; dsimp only; omega)]
      dsimp only
      rw [hdecode, next, Nat.sub_add_comm hs]
      rfl
    rw [loop_again _ _ _ (fun _ => True) ?_ trivial hpass, ih (by omega) hq _ hlen]
    · omega
    · rintro ⟨o, c⟩ c' - hc
      rw [utf16Pass] at hc
      split at hc
      next ho =>
        cases hc
        have hb := (next_bounds ho).1
        rw [next] at hb
        exact ⟨trivial, Nat.sub_lt_sub_left ho hb⟩
      next => cases hc

theorem utf16Len_units (h : Units text s q n) (hq : q ≤ text.length) :
    utf16Len ((text.take q).drop s) = n := by
  have hlen : ((text.take q).drop s).length = q - s := by
    rw [List.length_drop, List.length_take, Nat.min_eq_left hq]
  have hget : ∀ j, s + j < q → ((text.take q).drop s)[j]? = text[s + j]? := by
    intro j hj
    rw [List.getElem?_drop, List.getElem?_take_of_lt hj]
  rw [utf16Len]
  cases hfirst : ((text.take q).drop s).findIdx? (fun b => 0x80 ≤ b) with
  | none =>
    -- all bytes are ASCII
    dsimp only
    rw [hlen]
    rw [List.findIdx?_eq_none_iff] at hfirst
    have hle := h.le
    obtain ⟨m, hm, hrest⟩ := h.ascii (q - s) (by omega) (by
      intro j hj
      have hj' : s + j < text.length := by omega
      refine ⟨text[s + j], List.getElem?_eq_getElem hj', ?_⟩
      have hmem := List.mem_of_getElem? ((hget j (by omega)).trans (List.getElem?_eq_getElem hj'))
      have := hfirst _ hmem
      simpa using this)
    have hzero := hrest.count_le
    omega
  | some first =>
    dsimp only
    obtain ⟨hlt, -, hbefore⟩ := List.findIdx?_eq_some_iff_getElem.1 hfirst
    rw [hlen] at hlt
    obtain ⟨m, hm, hrest⟩ := h.ascii first (by omega) (by
      intro j hj
      have hj' : s + j < text.length := by omega
      refine ⟨text[s + j], List.getElem?_eq_getElem hj', ?_⟩
      have hb := hbefore j hj
      have heq := (hget j (by omega)).trans (List.getElem?_eq_getElem hj')
      rw [(List.getElem?_eq_some_iff.1 heq).2] at hb
      simpa using hb)
    have hloop := utf16Pass_units hrest (Nat.le_add_right s first) hq first
    rw [Nat.add_sub_cancel_left] at hloop
    rw [hloop, hm]

/-! ## finding the offset of a character -/

/-- the walk ends behind as many units as are asked for -/
theorem characterPass_units (h : Units text p q n) (stop : Nat) (hq : q ≤ stop)
    (hstop : stop ≤ text.length) (count : Nat) :
    loop (characterPass text stop (count + n : Nat)) Prod.fst (fun c => stop - c.1) (p, count) = q := by
  induction h generalizing count with
  | refl p =>
    apply loop_leave
    rw [characterPass]
    by_cases hp : p < stop
    · rw [if_pos hp]
      dsimp only
      rw [if_pos]
      have : 0 < utf16RuneLen (decodeUtf8 (text.drop p)).1 := by
        rw [utf16RuneLen]
        split <;> omega
      omega
    · rw [if_neg hp]
  | @next p q n hp h ih =>
    have hle := h.le
    have hlt := (next_bounds hp).1
    have hpass : characterPass text stop (count + (utf16RuneLen (runeAt text p) + n) : Nat) (p, count) =
        .again (next text p, count + utf16RuneLen (runeAt text p)) := by
      rw [characterPass, if_pos (by dsimp only; omega)]
      dsimp only
      rw [if_neg (by rw [runeAt]; omega)]
      rfl
    rw [loop_again _ _ _ (fun _ => True) ?_ trivial hpass]
    · have := ih hq (count + utf16RuneLen (runeAt text p))
      rwa [Nat.add_assoc] at this
    · rintro ⟨o, c⟩ c' - hc
      rw [characterPass] at hc
      split at hc
      next ho =>
        dsimp only at hc ho
        split at hc
        next => cases hc
        next =>
          cases hc
          have hb := (next_bounds (Nat.lt_of_lt_of_le ho hstop)).1
          rw [next] at hb
          refine ⟨trivial, ?_⟩
          dsimp only
          omega
      next => cases hc

/-! ## the line of a position -/

/-- a table of lines: the first starts the text, each starts at a boundary behind the one before -/
structure LineTable (text : Bytes) (starts : List Nat) : Prop where
  head : starts[0]? = some 0
  sorted : starts.Pairwise (· < ·)
  boundary : ∀ start ∈ starts, Boundary text start

/-- the lines found so far, and the one that is read -/
structure Scanned (text : Bytes) (c : LineScan) : Prop where
  table : LineTable text (c.lineStarts ++ [c.lineStart])
  offset : Boundary text c.offset
  le : c.lineStart ≤ c.offset

theorem Scanned.newLine {c : LineScan} (h : Scanned text c) {offset : Nat} (hb : Boundary text offset)
    (hlt : c.offset < offset) : Scanned text (c.newLine offset) := by
  have hle := h.le
  refine ⟨⟨?_, ?_, ?_⟩, hb, Nat.le_refl _⟩
  · show (c.lineStarts ++ [c.lineStart] ++ [offset])[0]? = some 0
    rw [List.getElem?_append_left (by simp)]
    exact h.table.head
  · show (c.lineStarts ++ [c.lineStart] ++ [offset]).Pairwise (· < ·)
    refine List.pairwise_append.2 ⟨h.table.sorted, List.pairwise_singleton _ _, ?_⟩
    intro a ha b hb'
    rw [List.mem_singleton.1 hb']
    rcases List.mem_append.1 ha with ha | ha
    · have := (List.pairwise_append.1 h.table.sorted).2.2 a ha c.lineStart List.mem_cons_self
      omega
    · rw [List.mem_singleton.1 ha]
      omega
  · show ∀ start ∈ c.lineStarts ++ [c.lineStart] ++ [offset], Boundary text start
    intro start hstart
    rcases List.mem_append.1 hstart with hstart | hstart
    · exact h.table.boundary start hstart
    · rw [List.mem_singleton.1 hstart]
      exact hb

theorem next_ascii {b : UInt8} (hb : text[p]? = some b) (hlt : b < 0x80) : next text p = p + 1 := by
  obtain ⟨hlen, hget⟩ := List.getElem?_eq_some_iff.1 hb
  rw [next, List.drop_eq_getElem_cons hlen, hget, decodeUtf8_ascii _ hlt]

theorem scanLinePass_spec {c c' : LineScan} (h : Scanned text c)
    (hpass : scanLinePass text c = .again c') :
    Scanned text c' ∧ text.length - c'.offset < text.length - c.offset := by
  rw [scanLinePass] at hpass
  cases hbyte : text[c.offset]? with
  | none =>
    rw [hbyte] at hpass
    cases hpass
  | some byte =>
    rw [hbyte] at hpass
    dsimp only at hpass
    have hlen := (List.getElem?_eq_some_iff.1 hbyte).1
    have hle := h.le
    by_cases hascii : byte < 0x80
    · have hone : Boundary text (c.offset + 1) := next_ascii hbyte hascii ▸ h.offset.next
      rw [if_pos hascii] at hpass
      by_cases hcr : byte = 0x0D
      · rw [if_pos hcr] at hpass
        cases hpass
        by_cases hlf : text[c.offset + 1]? = some 0x0A
        · rw [if_pos hlf]
          have htwo : Boundary text (c.offset + 2) := next_ascii hlf (by decide) ▸ hone.next
          refine ⟨h.newLine htwo (by omega), ?_⟩
          show text.length - (c.offset + 2) < _
          omega
        · rw [if_neg hlf]
          refine ⟨h.newLine hone (by omega), ?_⟩
          show text.length - (c.offset + 1) < _
          omega
      · rw [if_neg hcr] at hpass
        by_cases hlf : byte = 0x0A
        · rw [if_pos hlf] at hpass
          cases hpass
          refine ⟨h.newLine hone (by omega), ?_⟩
          show text.length - (c.offset + 1) < _
          omega
        · rw [if_neg hlf] at hpass
          cases hpass
          refine ⟨⟨h.table, hone, by dsimp only; omega⟩, ?_⟩
          dsimp only
          omega
    · rw [if_neg hascii] at hpass
      cases hpass
      have hb := next_bounds hlen
      rw [next] at hb
      refine ⟨⟨h.table, h.offset.next, by dsimp only; omega⟩, ?_⟩
      dsimp only
      omega

/-- **The lines of a text are a table of lines.** -/
theorem lineTable_new (text : Bytes) : LineTable text (LspLineMap.new text).lineStarts := by
  have hstart : Scanned text ⟨0, 0, [], true⟩ := by
    refine ⟨⟨rfl, List.pairwise_singleton _ _, ?_⟩, Boundary.zero, Nat.le_refl _⟩
    intro start hs
    rw [List.mem_singleton.1 hs]
    exact Boundary.zero
  refine loop_rule (scanLinePass text) id _ (Scanned text) (fun c c' hc hp => scanLinePass_spec hc hp)
    (fun c => LineTable text (c.lineStarts ++ [c.lineStart])) ?_ _ hstart
  intro c c' hc hpass
  rw [scanLinePass] at hpass
  split at hpass
  next =>
    cases hpass
    exact hc.table
  next =>
    split_ifs at hpass

variable {starts : List Nat}

theorem LineTable.lt (h : LineTable text starts) {i j a b : Nat} (hij : i < j)
    (ha : starts[i]? = some a) (hb : starts[j]? = some b) : a < b := by
  obtain ⟨hi, rfl⟩ := List.getElem?_eq_some_iff.1 ha
  obtain ⟨hj, rfl⟩ := List.getElem?_eq_some_iff.1 hb
  exact List.pairwise_iff_getElem.1 h.sorted i j hi hj hij

/-- no line starts in front of its number -/
theorem LineTable.le (h : LineTable text starts) {i a : Nat} (ha : starts[i]? = some a) : i ≤ a := by
  induction i generalizing a with
  | zero => exact Nat.zero_le _
  | succ i ih =>
    obtain ⟨hi, -⟩ := List.getElem?_eq_some_iff.1 ha
    have hprev := List.getElem?_eq_getElem (Nat.lt_of_succ_lt hi)
    exact Nat.lt_of_le_of_lt (ih hprev) (h.lt (Nat.lt_succ_self i) hprev ha)

theorem partitionPoint_spec {α : Type} (test : α → Bool) (xs : List α) :
    (∀ i x, i < partitionPoint test xs → xs[i]? = some x → test x = true) ∧
      ∀ x, xs[partitionPoint test xs]? = some x → test x = false := by
  induction xs with
  | nil =>
    refine ⟨?_, ?_⟩
    · intro i x hi
      exact absurd hi (Nat.not_lt_zero _)
    · intro x hx
      cases hx
  | cons y ys ih =>
    by_cases hy : test y = true
    · have hpoint : partitionPoint test (y :: ys) = partitionPoint test ys + 1 := by
        rw [partitionPoint, List.takeWhile_cons_of_pos hy]
        rfl
      rw [hpoint]
      refine ⟨?_, ?_⟩
      · intro i x hi hx
        cases i with
        | zero =>
          cases hx
          exact hy
        | succ i => exact ih.1 i x (by omega) hx
      · intro x hx
        exact ih.2 x hx
    · have hpoint : partitionPoint test (y :: ys) = 0 := by
        rw [partitionPoint, List.takeWhile_cons_of_neg hy]
        rfl
      rw [hpoint]
      refine ⟨?_, ?_⟩
      · intro i x hi
        exact absurd hi (Nat.not_lt_zero _)
      · intro x hx
        cases hx
        exact Bool.eq_false_iff.2 hy

/-- the line that is found starts at the target or in front of it, the next line behind it -/
theorem computeIndexOfLineStart_spec (h : LineTable text starts) (ascii : Bool) (target : Nat) :
    ∃ start, starts[(LspLineMap.mk starts ascii).computeIndexOfLineStart target]? = some start ∧
      start ≤ target ∧
      ∀ b, starts[(LspLineMap.mk starts ascii).computeIndexOfLineStart target + 1]? = some b →
        target < b := by
  obtain ⟨hbefore, hhere⟩ := partitionPoint_spec (fun start => decide (start < target)) starts
  have hcount : partitionPoint (fun start => decide (start < target)) starts ≤ starts.length :=
    (List.takeWhile_prefix _).length_le
  rw [LspLineMap.computeIndexOfLineStart]
  dsimp only
  generalize partitionPoint (fun start => decide (start < target)) starts = k at hbefore hhere hcount
  by_cases heq : starts[k]? = some target
  · rw [if_neg (by simp [heq])]
    refine ⟨target, heq, Nat.le_refl _, ?_⟩
    intro b hb
    exact h.lt (Nat.lt_succ_self k) heq hb
  · by_cases hk : 0 < k
    · rw [if_pos ⟨heq, hk⟩, Nat.sub_add_cancel hk]
      have hlen : k - 1 < starts.length := by omega
      have hget := List.getElem?_eq_getElem hlen
      have htest := hbefore (k - 1) _ (by omega) hget
      refine ⟨starts[k - 1], hget, ?_, ?_⟩
      · have := of_decide_eq_true htest
        omega
      · intro b hb
        have hfail := of_decide_eq_false (hhere b hb)
        have hne : b ≠ target := fun h' => heq (h' ▸ hb)
        omega
    · obtain rfl : k = 0 := by omega
      have hfail := of_decide_eq_false (hhere 0 h.head)
      have hzero : target = 0 := by omega
      exact absurd (hzero ▸ h.head) heq

/-! ## there and back -/

/-- the last line ends the text -/
theorem lineEnd_spec (h : LineTable text starts) {i : Nat} (hp : p ≤ text.length)
    (hnext : ∀ b, starts[i + 1]? = some b → p < b) :
    p ≤ starts[i + 1]?.getD text.length ∧ starts[i + 1]?.getD text.length ≤ text.length := by
  cases hb : starts[i + 1]? with
  | none => exact ⟨hp, Nat.le_refl _⟩
  | some b =>
    have hmem := h.boundary b (List.mem_of_getElem? hb)
    exact ⟨(hnext b hb).le, hmem.le⟩

/-- a number of at most 31 bits survives both casts -/
theorem wrap32_unsigned (n : Nat) (h : n < 2 ^ 31) : wrap32 (unsigned (n : Int)) = n := by
  rw [unsigned, Int.emod_eq_of_lt (by omega) (by omega), Int.toNat_natCast, wrap32]
  exact Int.bmod_eq_of_le (by omega) (by omega)

theorem wrap32_of_lt (n : Nat) (h : n < 2 ^ 31) : wrap32 (n : Int) = n :=
  Int.bmod_eq_of_le (by omega) (by omega)

/-- a line of the table, by its number as it is sent, is looked at from its start -/
theorem position_of_line {lineMap : LspLineMap} {i start n : Nat}
    (hstart : lineMap.lineStarts[i]? = some start) (hi : i < 2 ^ 31) (hn : n < 2 ^ 31)
    (encoding : PositionEncoding) :
    lspLineAndCharacterToPosition text lineMap ⟨i % 2 ^ 32, unsigned n⟩ encoding =
      let lineEnd := lineMap.lineStarts[i + 1]?.getD text.length
      if lineMap.asciiOnly ∨ encoding = .utf8 then
        some (max (start : Int) (min (wrap32 (start + n)) lineEnd))
      else
        some (loop (characterPass text lineEnd n) Prod.fst (fun s => lineEnd - s.1) (start, 0) : Nat) := by
  have hline : wrap32 ((i % 2 ^ 32 : Nat) : Int) = i := by
    rw [Nat.mod_eq_of_lt (by omega)]
    exact wrap32_of_lt i hi
  have hlen := (List.getElem?_eq_some_iff.1 hstart).1
  rw [lspLineAndCharacterToPosition]
  dsimp only
  rw [hline, wrap32_unsigned n hn, if_neg (by omega), if_neg (by omega), Int.toNat_natCast, hstart]

/-- **A position that is a boundary between two characters is found again from its line and
character**, whatever ends the lines. -/
theorem lsp_position_round_trip (text : Bytes) (hlen : text.length < 2 ^ 31)
    (encoding : PositionEncoding) (p : Nat) (hp : Boundary text p) :
    ((lspPositionToLineAndCharacter text (.new text) p encoding).bind fun position =>
      lspLineAndCharacterToPosition text (.new text) position encoding) = some (p : Int) := by
  have htable := lineTable_new text
  have hle := hp.le
  obtain ⟨start, hstart, hsp, hnext⟩ :=
    computeIndexOfLineStart_spec htable (LspLineMap.new text).asciiOnly p
  change (LspLineMap.new text).lineStarts[(LspLineMap.new text).computeIndexOfLineStart p]? =
    some start at hstart
  have hi := htable.le hstart
  obtain ⟨hpe, hel⟩ := lineEnd_spec htable hle hnext
  have hclamp : (max (min (p : Int) text.length) 0).toNat = p := by omega
  rw [lspPositionToLineAndCharacter, hclamp]
  dsimp only
  rw [hstart]
  dsimp only
  rw [Option.bind_some]
  by_cases hbytes : (LspLineMap.new text).asciiOnly = true ∨ encoding = .utf8
  · -- a character is a byte
    have hwrap : wrap32 ((p : Int) - start) = ((p - start : Nat) : Int) := by
      rw [← Int.ofNat_sub hsp]
      exact wrap32_of_lt _ (by omega)
    rw [if_pos hbytes, hwrap, position_of_line hstart (by omega) (by omega), if_pos hbytes]
    have hsum : wrap32 ((start : Int) + (p - start : Nat)) = p := by
      rw [← Int.natCast_add, Nat.add_sub_cancel' hsp]
      exact wrap32_of_lt p (by omega)
    have hinside : max (start : Int) (min (p : Int)
        ((LspLineMap.new text).lineStarts[(LspLineMap.new text).computeIndexOfLineStart p + 1]?.getD
          text.length : Nat)) = p := by
      rw [min_eq_left (Int.ofNat_le.2 hpe), max_eq_right (Int.ofNat_le.2 hsp)]
    rw [hsum]
    exact congrArg some hinside
  · -- the units between the start of the line and the position are counted again
    have hboundary := htable.boundary start (List.mem_of_getElem? hstart)
    obtain ⟨k, rfl⟩ := hboundary.reach hp hsp
    obtain ⟨n, hn⟩ : ∃ n, Units text start ((next text)^[k] start) n := exists_units k start
    have hcount := hn.count_le
    rw [if_neg hbytes, utf16Len_units hn hle, position_of_line hstart (by omega) (by omega),
      if_neg hbytes]
    have hback := characterPass_units hn _ hpe hel 0
    rw [Nat.zero_add] at hback
    rw [hback]

/-- CR, CRLF and LF, an astral character and a lone surrogate -/
def mixedLines : Bytes :=
  [0x61, 0x0D, 0x0D, 0x0A, 0xF0, 0x9F, 0x98, 0x80, 0xED, 0xA0, 0x80, 0x0A, 0x62]

theorem lsp_position_round_trip_mixedLines :
    Boundary mixedLines 11 ∧
      lspPositionToLineAndCharacter mixedLines (.new mixedLines) 11 .utf16 = some ⟨2, 5⟩ ∧
      ((lspPositionToLineAndCharacter mixedLines (.new mixedLines) (11 : Nat) .utf16).bind
        fun position => lspLineAndCharacterToPosition mixedLines (.new mixedLines) position .utf16) =
          some ((11 : Nat) : Int) := by
  have hb : Boundary mixedLines 11 := ⟨8, by decide +kernel⟩
  exact ⟨hb, by decide +kernel, lsp_position_round_trip mixedLines (by decide) .utf16 11 hb⟩

end Tsr.Jsstring
