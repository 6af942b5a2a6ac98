import Tsr.Jsstring.Lsp

/-!
# Positions outside a line

The numbers of a position are 32-bit words of the client.  They are read as signed words, and the
offset they ask for is clamped to the line.

* `characterPass_between`   the walk over UTF-16 units ends inside the line;
* `characterPass_ascii`     over ASCII it ends where a clamped addition ends;
* `asciiOnly_bytes`         the line map knows that a text is ASCII;
* `clamps_iff`              when a position is clamped, and the fast path agrees with the walk;
* `clamps_fails`            a line from `2^31` on, and a sum that wraps around.
-/

namespace Tsr.Jsstring
open Tsr.Json (Bytes decodeUtf8 decodeUtf8_ascii)
open Tsr.Lib.Loop

variable {text : Bytes} {start stop p q : Nat}

/-! ## the walk over the units -/

/-- no character reaches over a boundary -/
theorem Boundary.next_le (hp : Boundary text p) (hq : Boundary text q) (h : p < q) :
    Jsstring.next text p ≤ q := by
  obtain ⟨k, hk⟩ := hp.reach hq (by omega)
  cases k with
  | zero =>
    have hk : p = q := hk
    omega
  | succ k =>
    rw [Function.iterate_succ_apply] at hk
    rw [← hk]
    exact le_iterate k _

/-- the walk goes forward, up to the end of the line -/
theorem characterPass_down (hstop : Boundary text stop) (character : Int) (s s' : Nat × Nat)
    (h : Boundary text s.1 ∧ start ≤ s.1 ∧ s.1 ≤ stop)
    (hpass : characterPass text stop character s = .again s') :
    (Boundary text s'.1 ∧ start ≤ s'.1 ∧ s'.1 ≤ stop) ∧ stop - s'.1 < stop - s.1 := by
  obtain ⟨o, c⟩ := s
  obtain ⟨hb, hlow, hhigh⟩ := h
  rw [characterPass] at hpass
  by_cases ho : o < stop
  · have hlt := (next_bounds (Nat.lt_of_lt_of_le ho hstop.le)).1
    have hle := hb.next_le hstop ho
    have hstart : start ≤ o := hlow
    rw [if_pos ho] at hpass
    dsimp only at hpass
    split_ifs at hpass
    cases hpass
    refine ⟨⟨hb.next, ?_, hle⟩, ?_⟩
    · show start ≤ Jsstring.next text o
      omega
    · show stop - Jsstring.next text o < stop - o
      omega
  · rw [if_neg ho] at hpass
    cases hpass

/-- **The walk ends inside the line.** -/
theorem characterPass_between (hstart : Boundary text start) (hstop : Boundary text stop)
    (hle : start ≤ stop) (character : Int) :
    start ≤ loop (characterPass text stop character) Prod.fst (fun s => stop - s.1) (start, 0) ∧
    loop (characterPass text stop character) Prod.fst (fun s => stop - s.1) (start, 0) ≤ stop := by
  refine loop_rule (characterPass text stop character) Prod.fst _
    (fun s => Boundary text s.1 ∧ start ≤ s.1 ∧ s.1 ≤ stop)
    (fun s s' h hpass => characterPass_down hstop character s s' h hpass)
    (fun r => start ≤ r ∧ r ≤ stop) ?_ (start, 0) ⟨hstart, Nat.le_refl _, hle⟩
  intro s r h hpass
  rw [characterPass] at hpass
  split at hpass
  · dsimp only at hpass
    split_ifs at hpass
    cases hpass
    exact h.2
  · cases hpass
    exact h.2

theorem runeAt_ascii {b : UInt8} (hb : text[p]? = some b) (hlt : b < 0x80) :
    utf16RuneLen (runeAt text p) = 1 := by
  obtain ⟨hlen, hget⟩ := List.getElem?_eq_some_iff.1 hb
  have hsmall : b.toNat < 0x80 := hlt
  rw [runeAt, List.drop_eq_getElem_cons hlen, hget, decodeUtf8_ascii _ hlt, utf16RuneLen,
    if_neg (by dsimp only; omega)]

/-- **Over ASCII the walk ends where a clamped addition ends.** -/
theorem characterPass_ascii (hascii : ∀ b ∈ text, b < 0x80) (hstop : stop ≤ text.length)
    (hle : start ≤ stop) (character : Int) :
    ((loop (characterPass text stop character) Prod.fst (fun s => stop - s.1) (start, 0) : Nat) : Int) =
      max (start : Int) (min (start + character) stop) := by
  have hone : ∀ o, o < stop → next text o = o + 1 ∧ utf16RuneLen (runeAt text o) = 1 := by
    intro o ho
    have hget := List.getElem?_eq_getElem (Nat.lt_of_lt_of_le ho hstop)
    have hlt := hascii _ (List.getElem_mem (Nat.lt_of_lt_of_le ho hstop))
    exact ⟨next_ascii hget hlt, runeAt_ascii hget hlt⟩
  refine loop_rule (characterPass text stop character) Prod.fst _
    (fun s => start ≤ s.1 ∧ s.1 ≤ stop ∧ s.2 = s.1 - start ∧ (s.2 = 0 ∨ (s.2 : Int) ≤ character))
    ?_ (fun r => (r : Int) = max (start : Int) (min (start + character) stop)) ?_ (start, 0)
    ⟨Nat.le_refl _, hle, (Nat.sub_self _).symm, Or.inl rfl⟩
  · intro s s' h hpass
    obtain ⟨o, c⟩ := s
    obtain ⟨hlow, hhigh, hc, hcount⟩ := h
    dsimp only at hlow hhigh hc hcount
    rw [characterPass] at hpass
    by_cases ho : o < stop
    · obtain ⟨hnext, hunit⟩ := hone o ho
      rw [if_pos ho] at hpass
      change (if character < ((c + utf16RuneLen (runeAt text o) : Nat) : Int) then Pass.leave o
        else Pass.again (next text o, c + utf16RuneLen (runeAt text o))) = _ at hpass
      rw [hnext, hunit] at hpass
      split_ifs at hpass
      cases hpass
      dsimp only
      omega
    · rw [if_neg ho] at hpass
      cases hpass
  · intro s r h hpass
    obtain ⟨o, c⟩ := s
    obtain ⟨hlow, hhigh, hc, hcount⟩ := h
    dsimp only at hlow hhigh hc hcount
    rw [characterPass] at hpass
    by_cases ho : o < stop
    · obtain ⟨hnext, hunit⟩ := hone o ho
      rw [if_pos ho] at hpass
      change (if character < ((c + utf16RuneLen (runeAt text o) : Nat) : Int) then Pass.leave o
        else Pass.again (next text o, c + utf16RuneLen (runeAt text o))) = _ at hpass
      rw [hnext, hunit] at hpass
      split_ifs at hpass
      cases hpass
      omega
    · rw [if_neg ho] at hpass
      cases hpass
      omega

/-! ## ASCII texts -/

/-- what has been scanned is ASCII while the flag says so -/
theorem scanLinePass_ascii (c c' : LineScan)
    (h : c.asciiOnly = true → ∀ j < c.offset, ∀ b : UInt8, text[j]? = some b → b < 0x80)
    (hpass : scanLinePass text c = .again c') :
    c'.asciiOnly = true → ∀ j < c'.offset, ∀ b, text[j]? = some b → b < 0x80 := by
  rw [scanLinePass] at hpass
  split at hpass
  next => cases hpass
  next byte hbyte =>
    have hone : ∀ off, (∀ j, c.offset ≤ j → j < off → ∀ b, text[j]? = some b → b < 0x80) →
        c.asciiOnly = true → ∀ j < off, ∀ b, text[j]? = some b → b < 0x80 := by
      intro off hnew hflag j hj b hb
      by_cases hlt : j < c.offset
      · exact h hflag j hlt b hb
      · exact hnew j (by omega) hj b hb
    have hhere : byte < 0x80 → ∀ j, c.offset ≤ j → j < c.offset + 1 → ∀ b, text[j]? = some b →
        b < 0x80 := by
      intro hsmall j hj hj' b hb
      have hjo : j = c.offset := by omega
      rw [hjo, hbyte] at hb
      rwa [← Option.some.inj hb]
    split_ifs at hpass with hsmall hcr hcrlf hlf
    · cases hpass
      refine hone (c.offset + 2) ?_
      intro j hj hj' b hb
      by_cases hjo : j < c.offset + 1
      · exact hhere hsmall j hj hjo b hb
      · have hjn : j = c.offset + 1 := by omega
        rw [hjn, hcrlf] at hb
        rw [← Option.some.inj hb]
        decide
    · cases hpass
      exact hone _ (hhere hsmall)
    · cases hpass
      exact hone _ (hhere hsmall)
    · cases hpass
      exact hone _ (hhere hsmall)
    · cases hpass
      intro hflag
      cases hflag

/-- **The line map knows that a text is ASCII.** -/
theorem asciiOnly_bytes (text : Bytes) (h : (LspLineMap.new text).asciiOnly = true) :
    ∀ b ∈ text, b < 0x80 := by
  have hscan : (scanLines text ⟨0, 0, [], true⟩).asciiOnly = true →
      ∀ (j : Nat) (b : UInt8), text[j]? = some b → b < 0x80 := by
    refine loop_rule (scanLinePass text) id _
      (fun c => Scanned text c ∧
        (c.asciiOnly = true → ∀ j < c.offset, ∀ b : UInt8, text[j]? = some b → b < 0x80)) ?_
      (fun c => c.asciiOnly = true → ∀ (j : Nat) (b : UInt8), text[j]? = some b → b < 0x80) ?_ _ ?_
    · intro c c' hc hpass
      obtain ⟨hs, hm⟩ := scanLinePass_spec hc.1 hpass
      exact ⟨⟨hs, scanLinePass_ascii c c' hc.2 hpass⟩, hm⟩
    · intro c c' hc hpass hflag j b hb
      rw [scanLinePass] at hpass
      split at hpass
      next hend =>
        cases hpass
        have hlen := List.getElem?_eq_none_iff.1 hend
        obtain ⟨hj, -⟩ := List.getElem?_eq_some_iff.1 hb
        exact hc.2 hflag j (by omega) b hb
      next => split_ifs at hpass
    · refine ⟨⟨⟨rfl, List.pairwise_singleton _ _, ?_⟩, Boundary.zero, Nat.le_refl _⟩, ?_⟩
      · intro start hs
        rw [List.mem_singleton.1 hs]
        exact Boundary.zero
      · intro hflag j hj
        exact absurd hj (Nat.not_lt_zero j)
  intro b hb
  obtain ⟨j, hj⟩ := List.getElem?_of_mem hb
  exact hscan h j b hj

/-! ## clamping -/

/-- a line past the end is the last one -/
def LspLineMap.lineOf (lineMap : LspLineMap) (line : Nat) : Nat := min line (lineMap.lineStarts.length - 1)

def LspLineMap.lineStart (lineMap : LspLineMap) (line : Nat) : Nat := lineMap.lineStarts[line]?.getD 0

def LspLineMap.lineEnd (lineMap : LspLineMap) (text : Bytes) (line : Nat) : Nat :=
  lineMap.lineStarts[line + 1]?.getD text.length

/-- the walk over UTF-16 units, for ASCII too -/
def generalPosition (text : Bytes) (lineMap : LspLineMap) (position : LspPosition) : Option Int :=
  lspLineAndCharacterToPosition text { lineMap with asciiOnly := false } position .utf16

/-- the position is found inside its line, and the fast path agrees with the walk -/
def Clamps (text : Bytes) (position : LspPosition) : Prop :=
  let lineMap := LspLineMap.new text
  let line := lineMap.lineOf position.line
  ∀ encoding, ∃ r : Int,
    lspLineAndCharacterToPosition text lineMap position encoding = some r ∧
    lineMap.lineStart line ≤ r ∧ r ≤ lineMap.lineEnd text line ∧
    (lineMap.asciiOnly = true → generalPosition text lineMap position = some r)

/-- the line is no negative number, and no sum wraps around on the fast path -/
def Fits (text : Bytes) (position : LspPosition) : Prop :=
  let lineMap := LspLineMap.new text
  position.line < 2 ^ 31 ∧
    (lineMap.asciiOnly = true → position.line < lineMap.lineStarts.length →
      lineMap.lineStart position.line + position.character < 2 ^ 31 ∨ 2 ^ 31 ≤ position.character ∨
        lineMap.lineStart position.line = lineMap.lineEnd text position.line)

theorem lineStarts_ne_nil (text : Bytes) : 0 < (LspLineMap.new text).lineStarts.length := by
  have hhead := (lineTable_new text).head
  exact (List.getElem?_eq_some_iff.1 hhead).1

/-- a line of the table starts and ends at boundaries -/
theorem line_bounds (text : Bytes) (line : Nat) (h : line < (LspLineMap.new text).lineStarts.length) :
    (LspLineMap.new text).lineStarts[line]? = some ((LspLineMap.new text).lineStart line) ∧
    Boundary text ((LspLineMap.new text).lineStart line) ∧
    (LspLineMap.new text).lineStart line ≤ (LspLineMap.new text).lineEnd text line ∧
    (LspLineMap.new text).lineEnd text line ≤ text.length ∧
    (Boundary text text.length → Boundary text ((LspLineMap.new text).lineEnd text line)) := by
  have htable := lineTable_new text
  have hget := List.getElem?_eq_getElem h
  have hstart : (LspLineMap.new text).lineStart line = (LspLineMap.new text).lineStarts[line] := by
    rw [LspLineMap.lineStart, hget, Option.getD_some]
  have hb := htable.boundary _ (List.getElem_mem h)
  rw [hstart]
  refine ⟨hget, hb, ?_⟩
  rw [LspLineMap.lineEnd]
  cases hnext : (LspLineMap.new text).lineStarts[line + 1]? with
  | none => exact ⟨hb.le, Nat.le_refl _, id⟩
  | some b =>
    have hbb := htable.boundary b (List.mem_of_getElem? hnext)
    exact ⟨(htable.lt (Nat.lt_succ_self line) hget hnext).le, hbb.le, fun _ => hbb⟩

/-- the end of the text is a boundary -/
theorem boundary_end (text : Bytes) : Boundary text text.length := by
  have hstep : ∀ n, Boundary text ((next text)^[n] 0) ∧
      (min n text.length ≤ (next text)^[n] 0) := by
    intro n
    refine ⟨⟨n, rfl⟩, ?_⟩
    induction n with
    | zero => exact Nat.zero_le _
    | succ n ih =>
      rw [Function.iterate_succ_apply']
      by_cases hlt : (next text)^[n] 0 < text.length
      · have := (next_bounds hlt).1
        omega
      · rw [next_end (Nat.not_lt.1 hlt)]
        omega
  obtain ⟨hb, hle⟩ := hstep text.length
  rw [Nat.min_self] at hle
  rwa [Nat.le_antisymm hb.le hle] at hb

/-- what is computed for a line of the table -/
theorem position_in_table (text : Bytes) (position : LspPosition) (encoding : PositionEncoding)
    (ascii : Bool) (hline : position.line < 2 ^ 31)
    (h : position.line < (LspLineMap.new text).lineStarts.length) :
    let lineMap : LspLineMap := { LspLineMap.new text with asciiOnly := ascii }
    lspLineAndCharacterToPosition text lineMap position encoding =
      if ascii = true ∨ encoding = .utf8 then
        some (max ((LspLineMap.new text).lineStart position.line : Int)
          (min (wrap32 ((LspLineMap.new text).lineStart position.line + wrap32 position.character))
            ((LspLineMap.new text).lineEnd text position.line)))
      else
        some (loop (characterPass text ((LspLineMap.new text).lineEnd text position.line)
          (wrap32 position.character)) Prod.fst
          (fun s => (LspLineMap.new text).lineEnd text position.line - s.1)
          ((LspLineMap.new text).lineStart position.line, 0) : Nat) := by
  have hwrap := wrap32_of_lt position.line hline
  obtain ⟨hget, -⟩ := line_bounds text position.line h
  dsimp only
  rw [lspLineAndCharacterToPosition]
  dsimp only
  rw [hwrap, if_neg (by omega), if_neg (by omega), Int.toNat_natCast, hget]
  rfl

theorem wrap32_word (n : Nat) (h : n < 2 ^ 32) :
    wrap32 (n : Int) = if n < 2 ^ 31 then (n : Int) else (n : Int) - 2 ^ 32 := by
  rw [wrap32, Int.bmod_def]
  split
  · omega
  · omega

theorem wrap32_sum (a : Nat) (b : Int) (ha : a < 2 ^ 31) (hb : -2 ^ 31 ≤ b) (hb' : b < 2 ^ 31) :
    wrap32 ((a : Int) + b) = if (a : Int) + b < 2 ^ 31 then (a : Int) + b else (a : Int) + b - 2 ^ 32 := by
  rw [wrap32, Int.bmod_def]
  split
  · omega
  · omega

/-- **When a position is clamped**, and the fast path agrees with the walk. -/
theorem clamps_iff (text : Bytes) (hlen : text.length < 2 ^ 31) (position : LspPosition)
    (hl : position.line < 2 ^ 32) (hc : position.character < 2 ^ 32) :
    Clamps text position ↔ Fits text position := by
  have hpos := lineStarts_ne_nil text
  have hlast := line_bounds text ((LspLineMap.new text).lineStarts.length - 1) (by omega)
  have hcount : (LspLineMap.new text).lineStarts.length - 1 ≤ text.length := by
    have := (lineTable_new text).le hlast.1
    omega
  by_cases hline : position.line < 2 ^ 31
  · by_cases hin : position.line < (LspLineMap.new text).lineStarts.length
    · -- a line of the table
      have hof : (LspLineMap.new text).lineOf position.line = position.line := by
        rw [LspLineMap.lineOf]
        omega
      obtain ⟨hget, hstart, hle, hend, hstop⟩ := line_bounds text position.line hin
      have hstop := hstop (boundary_end text)
      have hbetween := characterPass_between hstart hstop hle (wrap32 position.character)
      have hword := wrap32_word position.character hc
      have hsum := wrap32_sum ((LspLineMap.new text).lineStart position.line)
        (wrap32 position.character) (by omega) (by rw [hword]; split <;> omega)
        (by rw [hword]; split <;> omega)
      have hgeneral := position_in_table text position .utf16 false hline hin
      have hfast := fun encoding =>
        position_in_table text position encoding (LspLineMap.new text).asciiOnly hline hin
      dsimp only at hgeneral hfast
      rw [if_neg (by decide)] at hgeneral
      have hwhole : ({ LspLineMap.new text with asciiOnly := (LspLineMap.new text).asciiOnly } :
          LspLineMap) = LspLineMap.new text := rfl
      rw [hwhole] at hfast
      unfold Clamps Fits generalPosition
      simp only [hof]
      by_cases hascii : (LspLineMap.new text).asciiOnly = true
      · have hwalk := characterPass_ascii (asciiOnly_bytes text hascii) hend hle
          (wrap32 position.character)
        constructor
        · intro h
          refine ⟨hline, fun _ _ => ?_⟩
          obtain ⟨r, hr, -, -, hsame⟩ := h .utf16
          have hsame := hsame hascii
          rw [hfast .utf16, if_pos (Or.inl hascii), Option.some.injEq] at hr
          rw [hgeneral, Option.some.injEq, hwalk] at hsame
          rw [hsum, hword] at hr
          rw [hword] at hsame
          split_ifs at hr hsame <;> omega
        · intro h encoding
          obtain ⟨-, hfits⟩ := h
          have hfits := hfits hascii hin
          refine ⟨_, (hfast encoding).trans (if_pos (Or.inl hascii)), ?_, ?_, fun _ => ?_⟩
          · exact le_max_left _ _
          · exact max_le (Int.ofNat_le.2 hle) (min_le_right _ _)
          · rw [hgeneral, Option.some.injEq, hwalk, hsum, hword]
            split_ifs <;> omega
      · constructor
        · intro h
          exact ⟨hline, fun hflag => absurd hflag hascii⟩
        · intro h encoding
          have hfast := hfast encoding
          by_cases hutf8 : encoding = .utf8
          · rw [if_pos (Or.inr hutf8)] at hfast
            refine ⟨_, hfast, le_max_left _ _, max_le (Int.ofNat_le.2 hle) (min_le_right _ _), ?_⟩
            intro hflag
            exact absurd hflag hascii
          · rw [if_neg (not_or.2 ⟨hascii, hutf8⟩)] at hfast
            refine ⟨_, hfast, Int.ofNat_le.2 hbetween.1, Int.ofNat_le.2 hbetween.2, ?_⟩
            intro hflag
            exact absurd hflag hascii
    · -- a line past the end
      have hof : (LspLineMap.new text).lineOf position.line =
          (LspLineMap.new text).lineStarts.length - 1 := by
        rw [LspLineMap.lineOf]
        omega
      have hpast : ∀ ascii encoding, lspLineAndCharacterToPosition text
          { LspLineMap.new text with asciiOnly := ascii } position encoding = some (text.length : Int) := by
        intro ascii encoding
        rw [lspLineAndCharacterToPosition]
        dsimp only
        rw [wrap32_of_lt position.line hline, if_pos (by omega)]
      have hend : (LspLineMap.new text).lineEnd text ((LspLineMap.new text).lineStarts.length - 1) =
          text.length := by
        rw [LspLineMap.lineEnd, List.getElem?_eq_none (by omega)]
        rfl
      unfold Clamps Fits generalPosition
      simp only [hof, hend]
      constructor
      · intro h
        exact ⟨hline, fun _ hlt => absurd hlt hin⟩
      · intro h encoding
        refine ⟨text.length, hpast _ encoding, ?_, Int.le_refl _, fun _ => hpast _ _⟩
        have := hlast.2.2.1
        rw [hend] at this
        exact Int.ofNat_le.2 this
  · -- a negative number
    have hneg : ∀ encoding, lspLineAndCharacterToPosition text (LspLineMap.new text) position encoding =
        none := by
      intro encoding
      have hword := wrap32_word position.line hl
      rw [if_neg hline] at hword
      rw [lspLineAndCharacterToPosition]
      dsimp only
      rw [hword, if_neg (by omega), if_pos (by omega)]
    constructor
    · intro h
      obtain ⟨r, hr, -⟩ := h .utf16
      rw [hneg] at hr
      cases hr
    · intro h
      exact absurd h.1 hline

/-- an empty line, and a letter -/
def letterLine : Bytes := [0x0A, 0x61]

theorem clamps_letterLine : Clamps letterLine ⟨1, 2 ^ 32 - 1⟩ :=
  (clamps_iff letterLine (by decide) ⟨1, 2 ^ 32 - 1⟩ (by decide) (by decide)).2
    ⟨by decide, fun _ _ => Or.inr (Or.inl (by decide))⟩

/-- **A line from `2^31` on panics**, and a character that wraps around is not the end of its line. -/
theorem clamps_fails : ¬ Clamps letterLine ⟨2 ^ 31, 0⟩ ∧
    lspLineAndCharacterToPosition letterLine (.new letterLine) ⟨2 ^ 31, 0⟩ .utf16 = none ∧
    lspLineAndCharacterToPosition letterLine (.new letterLine) ⟨1, 2 ^ 31 - 1⟩ .utf16 = some 1 ∧
    generalPosition letterLine (.new letterLine) ⟨1, 2 ^ 31 - 1⟩ = some 2 := by
  have hpanic : lspLineAndCharacterToPosition letterLine (.new letterLine) ⟨2 ^ 31, 0⟩ .utf16 = none := by
    decide +kernel
  refine ⟨?_, hpanic, by decide +kernel, by decide +kernel⟩
  intro h
  obtain ⟨r, hr, -⟩ := h .utf16
  rw [hpanic] at hr
  cases hr

end Tsr.Jsstring
