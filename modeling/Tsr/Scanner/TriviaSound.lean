import Tsr.Scanner.Scan

/-!
# Scanner: where a token starts

Node positions are computed with `skipTrivia`, tokens with `scan`.  `Agrees` compares one pass of the
two loops: a pass of `scan` over trivia keeps what `skipTrivia` finds from the position on, and a pass
that returns a token returns it where `skipTrivia` stops.  `skipTrivia_eq_tokenStart` is the result for
whole runs.
-/

namespace Tsr.Scanner
open Tsr.Json (Bytes decodeUtf8 runeError)
open Tsr.Lib.Loop

section
variable (src : Source)

theorem size_eq_zero (pos : Nat) :
    (decodeUtf8 (src.text.drop pos)).2 = 0 ↔ src.text.length ≤ pos := by
  constructor
  · intro h
    by_contra hlt
    have := decode_bounds src.text (show pos < src.text.length by omega)
    omega
  · intro h
    rw [List.drop_eq_nil_of_le h]
    rfl

/-! ## comments and shebang lines -/

/-- where a line ends, by bytes and runes -/
def lineEnd (pos : Nat) : Nat := loop (restOfLine src.text) id (ahead src.text) pos

/-- where a block comment ends -/
def blockEnd (pos : Nat) : Nat := loop (blockComment src.text) id (ahead src.text) pos

theorem lineEnd_again {pos : Nat} (hlt : pos < src.text.length)
    (h : isLineBreak (decodeUtf8 (src.text.drop pos)).1 = false) :
    lineEnd src pos = lineEnd src (pos + (decodeUtf8 (src.text.drop pos)).2) := by
  refine loop_pass src.text (restOfLine src.text) (fun _ _ => restOfLine_down src.text) ?_
  simp [restOfLine, hlt, h]

theorem lineEnd_leave {pos : Nat}
    (h : src.text.length ≤ pos ∨ isLineBreak (decodeUtf8 (src.text.drop pos)).1 = true) :
    lineEnd src pos = pos := by
  refine loop_leave (restOfLine src.text) id (ahead src.text) ?_
  rw [restOfLine]
  split_ifs with hlt
  · rcases h with h | h
    · omega
    · simp [h]
  · rfl

theorem lineEnd_byte {pos : Nat} {b : UInt8} (hb : src.text[pos]? = some b) (hascii : b < 0x80)
    (h : (b ≠ 0x0A && b ≠ 0x0D) = true) : lineEnd src pos = lineEnd src (pos + 1) := by
  have hd := decode_ascii src.text hb hascii
  have hno : isLineBreak (decodeUtf8 (src.text.drop pos)).1 = false := by
    rw [hd]
    simp only [Bool.and_eq_true, decide_eq_true_eq, ne_eq, ← UInt8.toNat_inj, UInt8.reduceToNat,
      UInt8.lt_iff_toNat_lt] at h hascii
    simp only [isLineBreak, Bool.or_eq_false_iff, decide_eq_false_iff_not]
    omega
  have := lineEnd_again src (byte_lt src.text hb) hno
  rwa [hd] at this

/-- the line comment of `scan` ends where `skipTrivia` ends it -/
theorem pos_lineLoop (c : Cursor) : (scanLoop src (linePass src) c).pos = lineEnd src c.pos := by
  have hrun : ∀ d : Cursor, lineEnd src d.pos =
      lineEnd src (d.pos + asciiRun src (fun b => b ≠ 0x0A && b ≠ 0x0D) d.pos) := fun d =>
    asciiRun_eq src (lineEnd src) _ (fun p b hb ha hp => lineEnd_byte src hb ha hp) d.pos
  refine loop_rule (linePass src) Cursor.panic (Cursor.ahead src)
    (fun d => lineEnd src d.pos = lineEnd src c.pos) ?_ (fun d => d.pos = lineEnd src c.pos) ?_ c rfl
  · intro d d' hd h
    simp only [linePass, charAndSize_eq, pos_scanAsciiWhile] at h
    split_ifs at h with hstop
    rw [not_or, size_eq_zero] at hstop
    cases h
    have hw := decode_bounds src.text (not_le.1 hstop.1)
    simp only [Cursor.pos_move, pos_charAndSize, pos_scanAsciiWhile, Cursor.ahead]
    refine ⟨?_, by omega⟩
    rw [← hd, hrun d]
    exact (lineEnd_again src (not_le.1 hstop.1) (by simpa using hstop.2)).symm
  · intro d d' hd h
    simp only [linePass, charAndSize_eq, pos_scanAsciiWhile] at h
    split_ifs at h with hstop
    rw [size_eq_zero] at hstop
    cases h
    rw [pos_charAndSize, pos_scanAsciiWhile, ← hd, hrun d]
    exact (lineEnd_leave src hstop).symm

/-- a shebang line is read rune by rune on both sides -/
theorem pos_shebangLoop (c : Cursor) :
    (scanRunesWhile src (fun rune size => size ≠ 0 && !isLineBreak rune) c).pos =
      lineEnd src c.pos := by
  refine loop_rule (runePass src fun rune size => size ≠ 0 && !isLineBreak rune) Cursor.panic
    (Cursor.ahead src) (fun d => lineEnd src d.pos = lineEnd src c.pos) ?_
    (fun d => d.pos = lineEnd src c.pos) ?_ c rfl
  · intro d d' hd h
    simp only [runePass, charAndSize_eq] at h
    split_ifs at h with hgo
    simp only [Bool.and_eq_true, decide_eq_true_eq, ne_eq, size_eq_zero, Bool.not_eq_true'] at hgo
    cases h
    have hw := decode_bounds src.text (not_le.1 hgo.1)
    simp only [Cursor.pos_move, pos_charAndSize, Cursor.ahead]
    refine ⟨?_, by omega⟩
    rw [← hd]
    exact (lineEnd_again src (not_le.1 hgo.1) hgo.2).symm
  · intro d d' hd h
    simp only [runePass, charAndSize_eq] at h
    split_ifs at h with hgo
    cases h
    rw [pos_charAndSize, ← hd]
    refine (lineEnd_leave src ?_).symm
    by_contra hcon
    rw [not_or] at hcon
    simp [size_eq_zero, hcon.1, hcon.2] at hgo

theorem blockEnd_again {pos : Nat} (hlt : pos < src.text.length)
    (h : ¬ (src.text[pos]? = some 0x2A ∧ src.text[pos + 1]? = some 0x2F)) :
    blockEnd src pos = blockEnd src (pos + (decodeUtf8 (src.text.drop pos)).2) := by
  refine loop_pass src.text (blockComment src.text) (fun _ _ => blockComment_down src.text) ?_
  rw [blockComment, if_pos hlt, if_neg h]

theorem blockEnd_close {pos : Nat} (h1 : src.text[pos]? = some 0x2A)
    (h2 : src.text[pos + 1]? = some 0x2F) : blockEnd src pos = pos + 2 := by
  refine loop_leave (blockComment src.text) id (ahead src.text) ?_
  rw [blockComment, if_pos (byte_lt src.text h1), if_pos ⟨h1, h2⟩]

theorem blockEnd_end {pos : Nat} (h : src.text.length ≤ pos) : blockEnd src pos = pos := by
  refine loop_leave (blockComment src.text) id (ahead src.text) ?_
  rw [blockComment, if_neg (by omega)]

theorem blockEnd_byte {pos : Nat} {b : UInt8} (hb : src.text[pos]? = some b) (hascii : b < 0x80)
    (h : (!(b = 0x2A || b = 0x0A || b = 0x0D)) = true) :
    blockEnd src pos = blockEnd src (pos + 1) := by
  have hstar : b ≠ 0x2A := by
    rintro rfl
    simp at h
  have := blockEnd_again src (byte_lt src.text hb) (by simp [hb, hstar])
  rwa [decode_ascii src.text hb hascii] at this

/-- the asterisk that `scan` decodes is a byte of the text -/
theorem star_iff {pos : Nat} (hlt : pos < src.text.length) :
    (decodeUtf8 (src.text.drop pos)).1 = 0x2A ↔ src.text[pos]? = some 0x2A := by
  constructor
  · intro h
    exact byte_of_rune src.text hlt h (by decide)
  · intro h
    rw [decode_ascii src.text h (by decide)]
    rfl

/-- the block comment of `scan` ends where `skipTrivia` ends it -/
theorem pos_blockLoop (b : Block) :
    (blockLoop src b).2.cursor.pos = blockEnd src b.cursor.pos := by
  have hrun : ∀ d : Block, blockEnd src d.cursor.pos = blockEnd src (d.cursor.pos +
      asciiRun src (fun b => !(b = 0x2A || b = 0x0A || b = 0x0D)) d.cursor.pos) := fun d =>
    asciiRun_eq src (blockEnd src) _ (fun p b hb ha hp => blockEnd_byte src hb ha hp) d.cursor.pos
  refine loop_rule (blockPass src) _ (fun b => b.cursor.ahead src)
    (fun d => blockEnd src d.cursor.pos = blockEnd src b.cursor.pos) ?_
    (fun r => r.2.cursor.pos = blockEnd src b.cursor.pos) ?_ b rfl
  · intro d d' hd h
    simp only [blockPass, charAndSize_eq, pos_scanAsciiWhile, charAt, pos_charAndSize,
      size_eq_zero] at h
    split_ifs at h with hend hclose hbreak
    all_goals
      have hlt := not_le.1 hend
      rw [star_iff src hlt] at hclose
      have hw := decode_bounds src.text hlt
      cases h
      simp only [Cursor.pos_flag, Cursor.pos_move, pos_charAndSize, pos_scanAsciiWhile, Cursor.ahead]
      refine ⟨?_, by omega⟩
      rw [← hd, hrun d]
      exact (blockEnd_again src hlt hclose).symm
  · intro d r hd h
    simp only [blockPass, charAndSize_eq, pos_scanAsciiWhile, charAt, pos_charAndSize,
      size_eq_zero] at h
    split_ifs at h with hend hclose
    · cases h
      rw [pos_charAndSize, pos_scanAsciiWhile, ← hd, hrun d]
      exact (blockEnd_end src hend).symm
    · have hlt := not_le.1 hend
      rw [star_iff src hlt] at hclose
      cases h
      rw [Cursor.pos_move, pos_charAndSize, pos_scanAsciiWhile, ← hd, hrun d]
      exact (blockEnd_close src hclose.1 hclose.2).symm

/-! ## one pass of `skipTrivia` by the byte at the position -/

theorem skipPass_ascii {pos : Nat} {b : UInt8} (hb : src.text[pos]? = some b) (hascii : b < 0x80) :
    skipPass src.text {} (pos, false) = skipRune src.text {} pos false b.toNat 1 := by
  have hlt := byte_lt src.text hb
  rw [skipPass, if_neg (by dsimp only; omega), decode_ascii src.text hb hascii]

theorem skipTrivia_end {pos : Nat} (h : src.text.length ≤ pos) : skipTrivia src.text pos = pos := by
  refine skipTrivia_leave src.text ?_
  rw [skipPass, if_pos h]

theorem isAsciiSpace_cases {b : UInt8} (h : isAsciiSpace b = true) :
    b = 0x09 ∨ b = 0x0A ∨ b = 0x0B ∨ b = 0x0C ∨ b = 0x0D ∨ b = 0x20 := by
  simp only [isAsciiSpace, Bool.or_eq_true, Bool.and_eq_true, decide_eq_true_eq,
    UInt8.le_iff_toNat_le, ← UInt8.toNat_inj, UInt8.reduceToNat] at h ⊢
  omega

/-- a line feed is moved over, whatever follows -/
theorem skipTrivia_lineFeed {pos : Nat} (hb : src.text[pos]? = some 0x0A) :
    skipTrivia src.text pos = skipTrivia src.text (pos + 1) := by
  refine skipTrivia_again src.text ?_
  rw [skipPass_ascii src hb (by decide)]
  simp [skipRune, skipNewLine]

/-- a byte of ASCII white space is moved over, also the first of a line break of two bytes -/
theorem skipTrivia_space {pos : Nat} {b : UInt8} (hb : src.text[pos]? = some b)
    (h : isAsciiSpace b = true) : skipTrivia src.text pos = skipTrivia src.text (pos + 1) := by
  by_cases hpair : b = 0x0D ∧ src.text[pos + 1]? = some 0x0A
  · obtain ⟨rfl, hnext⟩ := hpair
    have h1 : skipTrivia src.text pos = skipTrivia src.text (pos + 2) := by
      refine skipTrivia_again src.text ?_
      rw [skipPass_ascii src hb (by decide)]
      simp [skipRune, skipNewLine, hnext]
    rw [h1, skipTrivia_lineFeed src hnext]
  · refine skipTrivia_again src.text ?_
    rcases isAsciiSpace_cases h with rfl | rfl | rfl | rfl | rfl | rfl
    all_goals rw [skipPass_ascii src hb (by decide)]
    all_goals simp_all [skipRune, skipNewLine]

/-! ## one pass of both -/

/-- a pass of `scan` from `s` on, compared with `skipTrivia` -/
def Agrees (s : ScannerState) : Pass ScannerState ScannerState → Prop
  | .again s' =>
    s'.cursor.ahead src < s.cursor.ahead src ∧ s'.skipJsdocLeadingAsterisks = 0 ∧
      skipTrivia src.text s.cursor.pos = skipTrivia src.text s'.cursor.pos
  | .leave s' =>
    s'.tokenStart = s.cursor.pos ∧ skipTrivia src.text s.cursor.pos = s.cursor.pos

variable {src}

/-- the bytes that may start trivia -/
def startsTrivia (b : UInt8) : Prop :=
  (b = 0x0A ∨ b = 0x0D) ∨ (b = 0x09 ∨ b = 0x0B ∨ b = 0x0C ∨ b = 0x20) ∨ b = 0x2F ∨
    (b = 0x3C ∨ b = 0x7C ∨ b = 0x3D ∨ b = 0x3E) ∨ b = 0x23 ∨ b = 0x2A

theorem skipRune_leave {pos : Nat} {b : UInt8} (hascii : b < 0x80) (h : ¬ startsTrivia b) :
    skipRune src.text {} pos false b.toNat 1 = .leave pos := by
  simp only [startsTrivia, not_or, ← UInt8.toNat_inj, UInt8.reduceToNat] at h
  obtain ⟨⟨h1, h2⟩, ⟨h3, h4, h5, h6⟩, h7, ⟨h8, h9, h10, h11⟩, h12, h13⟩ := h
  have hle : ¬ 127 < b.toNat := by
    have := UInt8.lt_iff_toNat_lt.1 hascii
    simp only [UInt8.reduceToNat] at this
    omega
  simp [skipRune, h1, h2, h3, h4, h5, h6, h7, h8, h9, h10, h11, h12, h13, hle]

/-- a token whose first byte is no trivia -/
theorem Agrees.token {s s' : ScannerState} {b : UInt8} (hb : src.text[s.cursor.pos]? = some b)
    (hascii : b < 0x80) (h : ¬ startsTrivia b) (hstart : s'.tokenStart = s.cursor.pos) :
    Agrees src s (.leave s') := by
  refine ⟨hstart, skipTrivia_leave src.text ?_⟩
  rw [skipPass_ascii src hb hascii, skipRune_leave hascii h]

section
variable {s : ScannerState} (hskip : src.skipTrivia = true) (hstar : s.skipJsdocLeadingAsterisks = 0)
variable (hstart : s.tokenStart = s.cursor.pos)

include hskip hstar in
theorem whiteSpacePass_agrees {b : UInt8} (hb : src.text[s.cursor.pos]? = some b)
    (h : isAsciiSpace b = true) : Agrees src s (whiteSpacePass src s) := by
  have hlt := byte_lt src.text hb
  rw [whiteSpacePass, if_pos hskip]
  refine ⟨?_, hstar, skipTrivia_space src hb h⟩
  simp only [Cursor.ahead, ScannerState.onCursor, Cursor.pos_move]
  omega

include hskip hstar in
theorem newLinePass_agrees {b : UInt8} (hb : src.text[s.cursor.pos]? = some b)
    (h : isAsciiSpace b = true) : Agrees src s (newLinePass src b s) := by
  have hlt := byte_lt src.text hb
  rw [newLinePass, if_pos hskip]
  have hpos : (scanAsciiWhile src isAsciiSpace ((s.cursor.flag fun f =>
      { f with precedingLineBreak := true }).move 1)).pos =
      s.cursor.pos + 1 + asciiRun src isAsciiSpace (s.cursor.pos + 1) := by simp
  refine ⟨?_, hstar, ?_⟩
  · simp only [Cursor.ahead, ScannerState.onCursor, hpos]
    omega
  · simp only [ScannerState.onCursor, hpos]
    rw [skipTrivia_space src hb h]
    exact asciiRun_eq src (skipTrivia src.text) isAsciiSpace
      (fun p b hb _ hp => skipTrivia_space src hb hp) (s.cursor.pos + 1)

theorem pos_scanLineComment (s : ScannerState) :
    (scanLineComment src s).cursor.pos = lineEnd src (s.cursor.pos + 2) ∧
      (scanLineComment src s).skipJsdocLeadingAsterisks = s.skipJsdocLeadingAsterisks := by
  rw [scanLineComment]
  obtain ⟨directives, h⟩ := processCommentDirective_eq src
    (s.onCursor fun c => scanLoop src (linePass src) (c.move 2)).tokenStart
    (s.onCursor fun c => scanLoop src (linePass src) (c.move 2)).cursor.pos false
    (s.onCursor fun c => scanLoop src (linePass src) (c.move 2))
  rw [h]
  exact ⟨(Cursor.pos_require _ _).trans (pos_lineLoop src (s.cursor.move 2)), rfl⟩

theorem pos_markJsdoc (start : Nat) (c : Cursor) : (markJsdoc src start c).pos = c.pos := by
  rw [markJsdoc]
  exact pos_slice src _ _ _

theorem pos_scanBlockComment (s : ScannerState) :
    (scanBlockComment src s).2.cursor.pos = blockEnd src (s.cursor.pos + 2) ∧
      (scanBlockComment src s).2.skipJsdocLeadingAsterisks = s.skipJsdocLeadingAsterisks := by
  have hloop := pos_blockLoop src ⟨s.cursor.move 2, s.tokenStart⟩
  rw [scanBlockComment]
  generalize blockLoop src ⟨s.cursor.move 2, s.tokenStart⟩ = r at hloop ⊢
  obtain ⟨closed, b⟩ := r
  dsimp only at hloop ⊢
  have hjsdoc : ∀ (jsdoc : Prop) [Decidable jsdoc],
      (if jsdoc then markJsdoc src s.tokenStart b.cursor else b.cursor).pos = b.cursor.pos := by
    intro jsdoc _
    split_ifs
    · exact pos_markJsdoc s.tokenStart b.cursor
    · rfl
  have hpos := hjsdoc (char src (s.cursor.move 2) = some 0x2A ∧
    charAt src (s.cursor.move 2) 1 ≠ some 0x2F)
  revert hpos
  generalize (if char src (s.cursor.move 2) = some 0x2A ∧ charAt src (s.cursor.move 2) 1 ≠ some 0x2F
    then markJsdoc src s.tokenStart b.cursor else b.cursor) = c
  intro hpos
  obtain ⟨directives, h⟩ := processCommentDirective_eq src b.lastLineStart c.pos true
    { s with cursor := c }
  rw [h]
  have hend : (c.require (c.pos ≤ src.text.length)).pos = blockEnd src (s.cursor.pos + 2) :=
    (Cursor.pos_require _ _).trans (hpos.trans hloop)
  split_ifs
  · exact ⟨hend, rfl⟩
  · exact ⟨hend, rfl⟩

include hskip hstar hstart in
theorem slashPass_agrees (hb : src.text[s.cursor.pos]? = some 0x2F) :
    Agrees src s (slashPass src s) := by
  have hlt := byte_lt src.text hb
  have hpass : skipPass src.text {} (s.cursor.pos, false) = skipComment src.text {} s.cursor.pos := by
    rw [skipPass_ascii src hb (by decide)]
    rfl
  simp only [slashPass, hskip, if_true]
  by_cases h1 : charAt src s.cursor 1 = some 0x2F
  · rw [if_pos h1]
    rw [charAt] at h1
    obtain ⟨hpos, hsame⟩ := pos_scanLineComment s
    have hnext := byte_lt src.text h1
    have hfwd := restOfLine_forward src.text (show s.cursor.pos + 2 ≤ src.text.length by omega)
    refine ⟨?_, hsame.trans hstar, ?_⟩
    · simp only [Cursor.ahead, hpos, lineEnd]
      omega
    · rw [hpos]
      refine skipTrivia_again src.text ?_
      simp [hpass, skipComment, h1, lineEnd]
  rw [if_neg h1]
  by_cases h2 : charAt src s.cursor 1 = some 0x2A
  · rw [if_pos h2]
    rw [charAt] at h2
    obtain ⟨hpos, hsame⟩ := pos_scanBlockComment s
    have hnext := byte_lt src.text h2
    have hfwd := blockComment_forward src.text (show s.cursor.pos + 2 ≤ src.text.length by omega)
    refine ⟨?_, hsame.trans hstar, ?_⟩
    · simp only [Cursor.ahead, hpos, blockEnd]
      omega
    · rw [hpos]
      refine skipTrivia_again src.text ?_
      simp [hpass, skipComment, h2, blockEnd]
  rw [if_neg h2]
  have hleave : skipTrivia src.text s.cursor.pos = s.cursor.pos := by
    refine skipTrivia_leave src.text ?_
    rw [charAt] at h1 h2
    simp [hpass, skipComment, h1, h2]
  by_cases h3 : charAt src s.cursor 1 = some 0x3D
  · rw [if_pos h3]
    exact ⟨hstart, hleave⟩
  · rw [if_neg h3]
    exact ⟨hstart, hleave⟩

include hstar hstart in
theorem hashPass_agrees (hb : src.text[s.cursor.pos]? = some 0x23) :
    Agrees src s (hashPass src s) := by
  have hlt := byte_lt src.text hb
  have hpass : skipPass src.text {} (s.cursor.pos, false) = skipShebang src.text s.cursor.pos := by
    rw [skipPass_ascii src hb (by decide)]
    rfl
  have hshebang : s.cursor.pos = 0 → (isShebangTrivia src.text = true ↔ src.text[1]? = some 0x21) := by
    intro h0
    rw [h0] at hb
    rw [isShebangTrivia, decide_eq_true_eq]
    generalize src.text = text at hb ⊢
    obtain _ | ⟨a, _ | ⟨b, rest⟩⟩ := text
    · simp
    · simp
    · have ha : a = 0x23 := by simpa using hb
      simp [ha]
  simp only [hashPass]
  by_cases h1 : charAt src s.cursor 1 = some 0x21
  · rw [if_pos h1]
    rw [charAt] at h1
    by_cases h0 : s.cursor.pos = 0
    · rw [if_pos h0]
      have hnext := byte_lt src.text h1
      have hfwd := restOfLine_forward src.text (show s.cursor.pos + 2 ≤ src.text.length by omega)
      have hpos := pos_shebangLoop src (s.cursor.move 2)
      refine ⟨?_, hstar, ?_⟩
      · simp only [Cursor.ahead, ScannerState.onCursor, hpos, lineEnd, Cursor.pos_move]
        omega
      · simp only [ScannerState.onCursor, hpos, Cursor.pos_move]
        refine skipTrivia_again src.text ?_
        rw [hpass, skipShebang, if_pos ⟨h0, (hshebang h0).2 (by simpa [h0] using h1)⟩]
        rfl
    · rw [if_neg h0]
      refine ⟨hstart, skipTrivia_leave src.text ?_⟩
      rw [hpass, skipShebang, if_neg (by tauto)]
  · rw [if_neg h1]
    refine ⟨hstart, skipTrivia_leave src.text ?_⟩
    rw [hpass, skipShebang, if_neg]
    rintro ⟨h0, h2⟩
    rw [charAt, h0] at h1
    exact h1 ((hshebang h0).1 h2)

include hskip hstar hstart in
theorem markerPass_agrees {b : UInt8} (hb : src.text[s.cursor.pos]? = some b)
    (h : b = 0x3C ∨ b = 0x7C ∨ b = 0x3D ∨ b = 0x3E) : Agrees src s (markerPass src b s) := by
  have hlt := byte_lt src.text hb
  have hpass : skipPass src.text {} (s.cursor.pos, false) = skipMarker src.text s.cursor.pos := by
    rcases h with rfl | rfl | rfl | rfl
    all_goals
      rw [skipPass_ascii src hb (by decide)]
      rfl
  simp only [markerPass, hskip, if_true]
  by_cases hmarker : isConflictMarkerTrivia src.text s.cursor.pos = true
  · -- the bytes that `scan` compares first are compared by the test itself
    have hnext : charAt src s.cursor 1 = some b := by
      rw [isConflictMarkerTrivia] at hmarker
      split_ifs at hmarker with h1
      simp only [not_or, not_not] at h1
      exact h1.2.trans hb
    rw [if_pos ⟨hnext, hmarker⟩]
    have hfwd := scanConflictMarkerTrivia_forward src.text hb h
    refine ⟨?_, hstar, ?_⟩
    · simp only [Cursor.ahead, ScannerState.onCursor, consumeConflictMarker, Cursor.pos_errorAt]
      omega
    · refine skipTrivia_again src.text ?_
      rw [hpass, skipMarker, if_pos hmarker]
      rfl
  · rw [if_neg (fun hcon => hmarker hcon.2)]
    refine ⟨hstart, skipTrivia_leave src.text ?_⟩
    rw [hpass, skipMarker, if_neg hmarker]

include hstar hstart in
theorem asteriskPass_agrees (hb : src.text[s.cursor.pos]? = some 0x2A) :
    Agrees src s (asteriskPass src s) := by
  rw [asteriskPass]
  simp only [hstar, ne_eq, not_true_eq_false, false_and, and_false, if_false]
  refine ⟨hstart, skipTrivia_leave src.text ?_⟩
  rw [skipPass_ascii src hb (by decide)]
  rfl

/-- an identifier is found by its first rune; without one the cursor stays -/
theorem scanIdentifier_start (src : Source) {c : Cursor} {b : UInt8} (hb : char src c = some b)
    (hslash : b ≠ 0x5C) :
    (scanIdentifier src 0 .standard c).1 = isIdentifierStart (decodeUtf8 (src.text.drop c.pos)).1 ∧
      (isIdentifierStart (decodeUtf8 (src.text.drop c.pos)).1 = false →
        (scanIdentifier src 0 .standard c).2.pos = c.pos) := by
  have hmove : c.move 0 = c := rfl
  have hrune : (decodeUtf8 (src.text.drop c.pos)).1 ≠ 0x5C := by
    intro h
    have := byte_of_rune src.text (byte_lt src.text hb) h (by decide)
    rw [char] at hb
    rw [hb] at this
    exact hslash (Option.some.inj this)
  rw [scanIdentifier]
  simp only [hmove]
  cases hascii : scanAsciiIdentifier src .standard c.pos c with
  | some c' =>
    have hstart : isIdentifierStart (decodeUtf8 (src.text.drop c.pos)).1 = true := by
      rw [scanAsciiIdentifier] at hascii
      split_ifs at hascii with h1
      simp only [hb, Option.any_some, Bool.or_eq_true, decide_eq_true_eq] at h1
      have hlt : b < 0x80 := by
        simp only [isAsciiLetter, Bool.or_eq_true, Bool.and_eq_true, decide_eq_true_eq,
          ← UInt8.toNat_inj, UInt8.reduceToNat] at h1
        simp only [UInt8.lt_iff_toNat_lt, UInt8.reduceToNat]
        omega
      rw [decode_ascii src.text hb hlt]
      simp only [isIdentifierStart, Bool.or_eq_true, decide_eq_true_eq, ← UInt8.toNat_inj,
        UInt8.reduceToNat] at h1 ⊢
      tauto
    simp [hstart]
  | none =>
    simp only [charAndSize_eq]
    cases hstart : isIdentifierStart (decodeUtf8 (src.text.drop c.pos)).1 with
    | true => simp
    | false => simp [hrune]

/-- outside of what starts trivia in ASCII, white space decides -/
theorem skipPass_other {pos : Nat} {b : UInt8} (hb : src.text[pos]? = some b)
    (h : ¬ startsTrivia b) :
    skipPass src.text {} (pos, false) =
      if isWhiteSpaceLike (decodeUtf8 (src.text.drop pos)).1 then
        .again (pos + (decodeUtf8 (src.text.drop pos)).2, false)
      else .leave pos := by
  have hlt := byte_lt src.text hb
  by_cases hascii : b < 0x80
  · have hno : isWhiteSpaceLike b.toNat = false := by
      simp only [startsTrivia, not_or, ← UInt8.toNat_inj, UInt8.reduceToNat,
        UInt8.lt_iff_toNat_lt] at h hascii
      simp only [isWhiteSpaceLike, isWhiteSpaceSingleLine, isLineBreak, Bool.or_eq_false_iff,
        Bool.and_eq_false_iff, decide_eq_false_iff_not]
      omega
    rw [skipPass_ascii src hb hascii, skipRune_leave hascii h, decode_ascii src.text hb hascii]
    simp [hno]
  · have hge := decode_high src.text hb hascii
    rw [skipPass, if_neg (by dsimp only; omega)]
    generalize (decodeUtf8 (src.text.drop pos)).1 = ch at hge ⊢
    have h1 : ¬ (ch = 0x0A ∨ ch = 0x0D) := by omega
    have h2 : ¬ (ch = 0x09 ∨ ch = 0x0B ∨ ch = 0x0C ∨ ch = 0x20) := by omega
    have h3 : ¬ (ch = 0x3C ∨ ch = 0x7C ∨ ch = 0x3D ∨ ch = 0x3E) := by omega
    have h4 : 127 < ch := by omega
    rw [skipRune, if_neg h1, if_neg h2, if_neg (by omega), if_neg h3, if_neg (by omega),
      if_neg (by omega)]
    simp [h4]

include hskip hstar hstart in
theorem otherPass_agrees {b : UInt8} (hb : src.text[s.cursor.pos]? = some b) (hslash : b ≠ 0x5C)
    (h : ¬ startsTrivia b) : Agrees src s (otherPass src s) := by
  have hlt := byte_lt src.text hb
  have hw := decode_bounds src.text hlt
  have hpass := skipPass_other hb h
  have hleave : isWhiteSpaceLike (decodeUtf8 (src.text.drop s.cursor.pos)).1 = false →
      skipTrivia src.text s.cursor.pos = s.cursor.pos := by
    intro hno
    refine skipTrivia_leave src.text ?_
    rw [hpass, hno, if_neg (by decide)]
  have hagain : isWhiteSpaceLike (decodeUtf8 (src.text.drop s.cursor.pos)).1 = true →
      skipTrivia src.text s.cursor.pos =
        skipTrivia src.text (s.cursor.pos + (decodeUtf8 (src.text.drop s.cursor.pos)).2) := by
    intro hyes
    refine skipTrivia_again src.text ?_
    rw [hpass, if_pos hyes]
  obtain ⟨hfound, hstay⟩ := scanIdentifier_start src hb hslash
  rw [otherPass]
  generalize scanIdentifier src 0 .standard s.cursor = r at hfound hstay
  obtain ⟨found, c⟩ := r
  dsimp only at hfound hstay ⊢
  by_cases hf : found = true
  · rw [if_pos hf]
    refine ⟨hstart, hleave ?_⟩
    by_contra hspace
    rw [Bool.not_eq_false] at hspace
    rw [hf, whiteSpace_not_start hspace] at hfound
    cases hfound
  rw [if_neg hf]
  have hpos := hstay (by rw [← hfound]; simpa using hf)
  rw [← hpos] at hleave hagain hw hlt
  simp only [charAndSize_eq]
  generalize hr : (decodeUtf8 (src.text.drop c.pos)).1 = rune at hleave hagain
  by_cases h1 : rune = runeError
  · rw [if_pos h1]
    rw [hpos] at hleave
    exact ⟨hstart, hleave (by rw [h1]; decide)⟩
  rw [if_neg h1]
  by_cases h2 : isWhiteSpaceSingleLine rune = true
  · rw [if_pos h2, if_pos (Or.inr hskip)]
    refine ⟨?_, hstar, ?_⟩
    · simp only [Cursor.ahead, Cursor.pos_move, pos_charAndSize, ← hpos]
      omega
    · simp only [Cursor.pos_move, pos_charAndSize, ← hpos]
      exact hagain (by simp [isWhiteSpaceLike, h2])
  rw [if_neg h2]
  by_cases h3 : isLineBreak rune = true
  · rw [if_pos h3]
    refine ⟨?_, hstar, ?_⟩
    · simp only [Cursor.ahead, Cursor.pos_move, Cursor.pos_flag, pos_charAndSize, ← hpos]
      omega
    · simp only [Cursor.pos_move, Cursor.pos_flag, pos_charAndSize, ← hpos]
      exact hagain (by simp [isWhiteSpaceLike, h3])
  rw [if_neg h3]
  rw [hpos] at hleave
  exact ⟨hstart, hleave (by simp [isWhiteSpaceLike, h2, h3])⟩

end

/-- the bytes of an operator are ASCII and start no trivia -/
theorem isPunctuationByte_spec {b : UInt8} (h : isPunctuationByte b = true) :
    b < 0x80 ∧ ¬ startsTrivia b := by
  simp only [isPunctuationByte, Bool.or_eq_true, decide_eq_true_eq, ← UInt8.toNat_inj,
    UInt8.reduceToNat] at h
  simp only [startsTrivia, UInt8.lt_iff_toNat_lt, ← UInt8.toNat_inj, UInt8.reduceToNat]
  omega

theorem isDigit_spec {b : UInt8} (h : isDigit b.toNat = true) : b < 0x80 ∧ ¬ startsTrivia b := by
  simp only [isDigit, Bool.and_eq_true, decide_eq_true_eq] at h
  simp only [startsTrivia, UInt8.lt_iff_toNat_lt, ← UInt8.toNat_inj, UInt8.reduceToNat]
  omega

theorem dispatch_agrees (hskip : src.skipTrivia = true) {s : ScannerState}
    (hstar : s.skipJsdocLeadingAsterisks = 0) (hstart : s.tokenStart = s.cursor.pos) {b : UInt8}
    (hb : src.text[s.cursor.pos]? = some b) : Agrees src s (dispatch src b s) := by
  have hconst : ∀ s', b < 0x80 ∧ ¬ startsTrivia b → s'.tokenStart = s.cursor.pos →
      Agrees src s (.leave s') := fun s' h hs' => Agrees.token hb h.1 h.2 hs'
  rw [dispatch]
  by_cases h1 : b = 0x09 ∨ b = 0x0B ∨ b = 0x0C ∨ b = 0x20
  · rw [if_pos h1]
    refine whiteSpacePass_agrees hskip hstar hb ?_
    rcases h1 with rfl | rfl | rfl | rfl <;> decide
  rw [if_neg h1]
  by_cases h2 : b = 0x0A ∨ b = 0x0D
  · rw [if_pos h2]
    refine newLinePass_agrees hskip hstar hb ?_
    rcases h2 with rfl | rfl <;> decide
  rw [if_neg h2]
  by_cases h3 : b = 0x27 ∨ b = 0x22
  · rw [if_pos h3]
    refine hconst _ ?_ hstart
    rcases h3 with rfl | rfl <;> simp [startsTrivia]
  rw [if_neg h3]
  by_cases h4 : b = 0x60
  · rw [if_pos h4]
    refine hconst _ ?_ hstart
    subst h4
    simp [startsTrivia]
  rw [if_neg h4]
  by_cases h5 : b = 0x2F
  · rw [if_pos h5]
    exact slashPass_agrees hskip hstar hstart (h5 ▸ hb)
  rw [if_neg h5]
  by_cases h6 : isDigit b.toNat = true
  · rw [if_pos h6]
    exact hconst _ (isDigit_spec h6) hstart
  rw [if_neg h6]
  by_cases h7 : b = 0x2E
  · rw [if_pos h7]
    refine hconst _ ?_ hstart
    subst h7
    simp [startsTrivia]
  rw [if_neg h7]
  by_cases h8 : b = 0x23
  · rw [if_pos h8]
    exact hashPass_agrees hstar hstart (h8 ▸ hb)
  rw [if_neg h8]
  by_cases h9 : b = 0x3C ∨ b = 0x7C ∨ b = 0x3D ∨ b = 0x3E
  · rw [if_pos h9]
    exact markerPass_agrees hskip hstar hstart hb h9
  rw [if_neg h9]
  by_cases h10 : b = 0x2A
  · rw [if_pos h10]
    exact asteriskPass_agrees hstar hstart (h10 ▸ hb)
  rw [if_neg h10]
  by_cases h11 : isPunctuationByte b = true
  · rw [if_pos h11]
    exact hconst _ (isPunctuationByte_spec h11) hstart
  rw [if_neg h11]
  have hno : ¬ startsTrivia b := by
    rw [startsTrivia]
    tauto
  by_cases h12 : b = 0x5C
  · rw [if_pos h12]
    exact hconst _ ⟨by rw [h12]; decide, hno⟩ hstart
  rw [if_neg h12]
  exact otherPass_agrees hskip hstar hstart hb h12 hno

/-- every pass of `scan` agrees with `skipTrivia` -/
theorem scanPass_agrees (hskip : src.skipTrivia = true) (s : ScannerState)
    (hstar : s.skipJsdocLeadingAsterisks = 0) : Agrees src s (scanPass src s) := by
  have hstart : ({ s with tokenStart := s.cursor.pos } : ScannerState).tokenStart = s.cursor.pos := rfl
  rw [scanPass]
  dsimp only
  cases hb : char src s.cursor with
  | none =>
    rw [char] at hb
    exact ⟨hstart, skipTrivia_end src (List.getElem?_eq_none_iff.1 hb)⟩
  | some b => exact dispatch_agrees (s := { s with tokenStart := s.cursor.pos }) hskip hstar rfl hb

end

/-- **`skipTrivia` finds the start of the next token.**  A scan with trivia skipping on, from any
position of any text, reports its token where `skipTrivia` stops. -/
theorem skipTrivia_eq_tokenStart (src : Source) (s : ScannerState) (hskip : src.skipTrivia = true)
    (hstar : s.skipJsdocLeadingAsterisks = 0) :
    skipTrivia src.text s.cursor.pos = (scan src s).tokenStart := by
  refine (loop_rule (scanPass src) ScannerState.hang (fun s => s.cursor.ahead src)
    (fun d => d.skipJsdocLeadingAsterisks = 0 ∧
      skipTrivia src.text d.cursor.pos = skipTrivia src.text s.cursor.pos) ?_
    (fun d => skipTrivia src.text s.cursor.pos = d.tokenStart) ?_ _ ⟨hstar, rfl⟩)
  · rintro d d' ⟨hd, hsame⟩ h
    have hpass := scanPass_agrees hskip d hd
    rw [h] at hpass
    obtain ⟨hdown, hd', hkeep⟩ := hpass
    exact ⟨⟨hd', hkeep.symm.trans hsame⟩, hdown⟩
  · rintro d d' ⟨hd, hsame⟩ h
    have hpass := scanPass_agrees hskip d hd
    rw [h] at hpass
    exact hsame.symm.trans (hpass.2.trans hpass.1.symm)

/-- a closed comment, a blank and an identifier -/
def commented : Source := ⟨[0x2F, 0x2A, 0x61, 0x2A, 0x2F, 0x20, 0x78], .standard, true, id⟩

theorem skipTrivia_eq_tokenStart_commented :
    skipTrivia commented.text 0 = (scan commented { cursor := { pos := 0 } }).tokenStart ∧
      skipTrivia commented.text 0 = 6 :=
  ⟨skipTrivia_eq_tokenStart commented { cursor := { pos := 0 } } rfl rfl, by decide +kernel⟩

end Tsr.Scanner
