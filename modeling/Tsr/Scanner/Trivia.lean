import Tsr.Lib.Loop
import Tsr.Scanner.Classify

/-!
# Scanner: trivia over source bytes

`skipTriviaEx` moves a position over what stands between two tokens: white space, comments, conflict
markers and a shebang.

* `decodeLastUtf8`            the last rune of a byte string and its width;
* `isConflictMarkerTrivia`    seven equal bytes at the start of a line;
* `scanConflictMarkerTrivia`  the line of a marker, or all up to the next marker;
* `skipTrivia`                `skipTriviaEx` without options.

Positions are byte indices.  Each loop has the bytes ahead of its position as its measure;
`skipTrivia_again` and `skipTrivia_leave` are the passes of the main loop.
-/

set_option linter.unusedVariables false

namespace Tsr.Scanner
open Tsr.Json (Bytes decodeUtf8 runeError)
open Tsr.Lib.Loop

/-- the first byte of the sequence that ends the string, at most three continuation bytes back -/
def lastStart (bytes : Bytes) (lower : Nat) : Nat → Nat
  | 0 => 0
  | start + 1 =>
    if lower < start + 1 ∧ bytes[start + 1]?.any (fun b => b &&& 0xC0 = 0x80) = true then
      lastStart bytes lower start
    else start + 1

def decodeLastUtf8 (bytes : Bytes) : Nat × Nat :=
  match bytes.getLast? with
  | none => (runeError, 0)
  | some last =>
    if last < 0x80 then (last.toNat, 1)
    else
      let start := lastStart bytes (bytes.length - 4) (bytes.length - 1)
      let (rune, width) := decodeUtf8 (bytes.drop start)
      if start + width = bytes.length then (rune, width) else (runeError, 1)

section
variable (text : Bytes)

/-- the decoder sees the text up to two bytes before the position, as in the source -/
def atLineStart (pos : Nat) : Bool :=
  pos = 0 || text[pos - 1]?.any (fun b => isLineBreak b.toNat) ||
    (2 ≤ pos && isLineBreak (decodeLastUtf8 (text.take (pos - 2))).1)

def isConflictMarkerTrivia (pos : Nat) : Bool :=
  if text.length ≤ pos + 1 ∨ text[pos + 1]? ≠ text[pos]? then false
  else if atLineStart text pos = true ∧ pos + 7 < text.length then
    (List.range 7).all (fun offset => text[pos + offset]? = text[pos]?) &&
      (text[pos]? = some 0x3D || text[pos + 7]? = some 0x20)
  else false

/-- bytes ahead of a position -/
def ahead (pos : Nat) : Nat := text.length - pos

/-- up to the next line break -/
def restOfLine (pos : Nat) : Pass Nat Nat :=
  if pos < text.length then
    let (ch, width) := decodeUtf8 (text.drop pos)
    if isLineBreak ch then .leave pos else .again (pos + width)
  else .leave pos

/-- up to the next marker of another kind -/
def toNextMarker (ch : UInt8) (pos : Nat) : Pass Nat Nat :=
  match text[pos]? with
  | none => .leave pos
  | some current =>
    if (current = 0x3D ∨ current = 0x3E) ∧ current ≠ ch ∧ isConflictMarkerTrivia text pos = true then
      .leave pos
    else .again (pos + 1)

def scanConflictMarkerTrivia (pos : Nat) : Nat :=
  match text[pos]? with
  | none => pos
  | some ch =>
    if ch = 0x3C ∨ ch = 0x3E then loop (restOfLine text) id (ahead text) pos
    else loop (toNextMarker text ch) id (ahead text) pos

def isShebangTrivia : Bool := text.take 2 = [0x23, 0x21]

def scanShebangTrivia (pos : Nat) : Nat := loop (restOfLine text) id (ahead text) (pos + 2)

/-- up to the end of a block comment or of the text -/
def blockComment (pos : Nat) : Pass Nat Nat :=
  if pos < text.length then
    if text[pos]? = some 0x2A ∧ text[pos + 1]? = some 0x2F then .leave (pos + 2)
    else .again (pos + (decodeUtf8 (text.drop pos)).2)
  else .leave pos

structure SkipTriviaOptions where
  stopAfterLineBreak : Bool := false
  stopAtComments : Bool := false
  inJsdoc : Bool := false
deriving DecidableEq

def skipNewLine (options : SkipTriviaOptions) (pos ch : Nat) : Pass (Nat × Bool) Nat :=
  let pos := if ch = 0x0D ∧ text[pos + 1]? = some 0x0A then pos + 2 else pos + 1
  if options.stopAfterLineBreak then .leave pos else .again (pos, options.inJsdoc)

def skipComment (options : SkipTriviaOptions) (pos : Nat) : Pass (Nat × Bool) Nat :=
  if options.stopAtComments then .leave pos
  else if text[pos + 1]? = some 0x2F then
    .again (loop (restOfLine text) id (ahead text) (pos + 2), false)
  else if text[pos + 1]? = some 0x2A then
    .again (loop (blockComment text) id (ahead text) (pos + 2), false)
  else .leave pos

def skipMarker (pos : Nat) : Pass (Nat × Bool) Nat :=
  if isConflictMarkerTrivia text pos then .again (scanConflictMarkerTrivia text pos, false)
  else .leave pos

def skipShebang (pos : Nat) : Pass (Nat × Bool) Nat :=
  if pos = 0 ∧ isShebangTrivia text = true then .again (scanShebangTrivia text pos, false)
  else .leave pos

/-- what the rune at a position decides -/
def skipRune (options : SkipTriviaOptions) (pos : Nat) (canConsumeStar : Bool) (ch width : Nat) :
    Pass (Nat × Bool) Nat :=
  if ch = 0x0A ∨ ch = 0x0D then skipNewLine text options pos ch
  else if ch = 0x09 ∨ ch = 0x0B ∨ ch = 0x0C ∨ ch = 0x20 then .again (pos + 1, canConsumeStar)
  else if ch = 0x2F then skipComment text options pos
  else if ch = 0x3C ∨ ch = 0x7C ∨ ch = 0x3D ∨ ch = 0x3E then skipMarker text pos
  else if ch = 0x23 then skipShebang text pos
  else if ch = 0x2A then
    if canConsumeStar then .again (pos + 1, false) else .leave pos
  else if 127 < ch ∧ isWhiteSpaceLike ch = true then .again (pos + width, canConsumeStar)
  else .leave pos

/-- one pass of the loop of `skip_trivia_ex` over the position and `can_consume_star` -/
def skipPass (options : SkipTriviaOptions) (s : Nat × Bool) : Pass (Nat × Bool) Nat :=
  if text.length ≤ s.1 then .leave s.1
  else skipRune text options s.1 s.2 (decodeUtf8 (text.drop s.1)).1 (decodeUtf8 (text.drop s.1)).2

def skipTriviaEx (pos : Nat) (options : Option SkipTriviaOptions) : Nat :=
  loop (skipPass text (options.getD {})) Prod.fst (fun s => ahead text s.1) (pos, false)

def skipTrivia (pos : Nat) : Nat := skipTriviaEx text pos none

/-! ## the rune at a position -/

theorem drop_of_byte {pos : Nat} {b : UInt8} (h : text[pos]? = some b) :
    text.drop pos = b :: text.drop (pos + 1) := by
  obtain ⟨hlt, rfl⟩ := List.getElem?_eq_some_iff.1 h
  exact List.drop_eq_getElem_cons hlt

theorem byte_lt {pos : Nat} {b : UInt8} (h : text[pos]? = some b) : pos < text.length :=
  (List.getElem?_eq_some_iff.1 h).1

/-- an ASCII byte is its own rune -/
theorem decode_ascii {pos : Nat} {b : UInt8} (h : text[pos]? = some b) (hb : b < 0x80) :
    decodeUtf8 (text.drop pos) = (b.toNat, 1) := by
  rw [drop_of_byte text h]
  exact Tsr.Json.decodeUtf8_ascii _ hb

/-- another byte is the start of a rune from `0x80` on -/
theorem decode_high {pos : Nat} {b : UInt8} (h : text[pos]? = some b) (hb : ¬ b < 0x80) :
    0x80 ≤ (decodeUtf8 (text.drop pos)).1 := by
  rw [drop_of_byte text h]
  rcases Tsr.Json.decodeUtf8_high (text.drop (pos + 1)) hb with herr | ⟨seq, rune, post, hseq, -, heq⟩
  · rw [herr]
    decide
  · rw [heq]
    exact hseq.rune_ge

theorem decode_bounds {pos : Nat} (h : pos < text.length) :
    0 < (decodeUtf8 (text.drop pos)).2 ∧ pos + (decodeUtf8 (text.drop pos)).2 ≤ text.length := by
  have hne : text.drop pos ≠ [] := by simpa using h
  have hw := Tsr.Json.decodeUtf8_width hne
  rw [List.length_drop] at hw
  omega

/-! ## passes of the inner loops -/

theorem restOfLine_down {p p' : Nat} (h : restOfLine text p = .again p') :
    p < p' ∧ p' ≤ text.length := by
  simp only [restOfLine] at h
  split_ifs at h with hlt
  cases h
  have hw := decode_bounds text hlt
  omega

theorem blockComment_down {p p' : Nat} (h : blockComment text p = .again p') :
    p < p' ∧ p' ≤ text.length := by
  simp only [blockComment] at h
  split_ifs at h with hlt
  cases h
  have hw := decode_bounds text hlt
  omega

theorem toNextMarker_down {ch : UInt8} {p p' : Nat} (h : toNextMarker text ch p = .again p') :
    p < p' ∧ p' ≤ text.length := by
  rw [toNextMarker] at h
  cases hb : text[p]? with
  | none => simp [hb] at h
  | some current =>
    have hlt := byte_lt text hb
    simp only [hb] at h
    split_ifs at h
    cases h
    omega

/-- a loop over positions that moves forward inside the text -/
theorem ahead_lt {p p' : Nat} (h : p < p' ∧ p' ≤ text.length) : ahead text p' < ahead text p := by
  simp only [ahead]
  omega

theorem loop_pass (body : Nat → Pass Nat Nat)
    (hdown : ∀ p p', body p = .again p' → p < p' ∧ p' ≤ text.length) {p p' : Nat}
    (h : body p = .again p') : loop body id (ahead text) p = loop body id (ahead text) p' :=
  loop_again body id (ahead text) (fun _ => True)
    (always body (ahead text) fun q q' hq => ahead_lt text (hdown q q' hq)) trivial h

/-- the result of such a loop is not before its start, nor behind the text -/
theorem loop_forward (body : Nat → Pass Nat Nat)
    (hdown : ∀ p p', body p = .again p' → p < p' ∧ p' ≤ text.length)
    (hleave : ∀ p a, p ≤ text.length → body p = .leave a → p ≤ a ∧ a ≤ text.length) (p : Nat)
    (hp : p ≤ text.length) :
    p ≤ loop body id (ahead text) p ∧ loop body id (ahead text) p ≤ text.length := by
  refine loop_rule body id (ahead text) (fun q => p ≤ q ∧ q ≤ text.length) ?_
    (fun a => p ≤ a ∧ a ≤ text.length) ?_ p ⟨le_rfl, hp⟩
  · intro q q' hq h
    have h1 := hdown q q' h
    exact ⟨by omega, ahead_lt text h1⟩
  · intro q a hq h
    have h1 := hleave q a hq.2 h
    omega

theorem restOfLine_forward {p : Nat} (hp : p ≤ text.length) :
    p ≤ loop (restOfLine text) id (ahead text) p ∧
      loop (restOfLine text) id (ahead text) p ≤ text.length := by
  refine loop_forward text _ (fun _ _ => restOfLine_down text) ?_ p hp
  intro q a hq h
  simp only [restOfLine] at h
  split_ifs at h <;> cases h <;> exact ⟨le_rfl, hq⟩

theorem blockComment_forward {p : Nat} (hp : p ≤ text.length) :
    p ≤ loop (blockComment text) id (ahead text) p ∧
      loop (blockComment text) id (ahead text) p ≤ text.length := by
  refine loop_forward text _ (fun _ _ => blockComment_down text) ?_ p hp
  intro q a hq h
  simp only [blockComment] at h
  split_ifs at h with hlt hend
  · cases h
    have := byte_lt text hend.2
    omega
  · cases h
    exact ⟨le_rfl, hq⟩

theorem toNextMarker_forward (ch : UInt8) {p : Nat} (hp : p ≤ text.length) :
    p ≤ loop (toNextMarker text ch) id (ahead text) p ∧
      loop (toNextMarker text ch) id (ahead text) p ≤ text.length := by
  refine loop_forward text _ (fun _ _ => toNextMarker_down text) ?_ p hp
  intro q a hq h
  rw [toNextMarker] at h
  cases hb : text[q]? with
  | none =>
    simp only [hb, Pass.leave.injEq] at h
    omega
  | some current =>
    simp only [hb] at h
    split_ifs at h
    cases h
    exact ⟨le_rfl, hq⟩

/-- the first byte of a marker does not end it -/
theorem scanConflictMarkerTrivia_forward {p : Nat} {ch : UInt8} (h : text[p]? = some ch)
    (hch : ch = 0x3C ∨ ch = 0x7C ∨ ch = 0x3D ∨ ch = 0x3E) :
    p < scanConflictMarkerTrivia text p ∧ scanConflictMarkerTrivia text p ≤ text.length := by
  have hlt := byte_lt text h
  have hascii : ch < 0x80 := by rcases hch with rfl | rfl | rfl | rfl <;> decide
  rw [scanConflictMarkerTrivia, h]
  simp only
  split_ifs with hangle
  · have hpass : restOfLine text p = .again (p + 1) := by
      have hno : isLineBreak ch.toNat = false := by rcases hangle with rfl | rfl <;> decide
      simp [restOfLine, hlt, decode_ascii text h hascii, hno]
    rw [loop_pass text (restOfLine text) (fun _ _ => restOfLine_down text) hpass]
    have := restOfLine_forward text (show p + 1 ≤ text.length from hlt)
    omega
  · have hpass : toNextMarker text ch p = .again (p + 1) := by
      simp [toNextMarker, h]
    rw [loop_pass text (toNextMarker text ch) (fun _ _ => toNextMarker_down text) hpass]
    have := toNextMarker_forward text ch (show p + 1 ≤ text.length from hlt)
    omega

/-! ## passes of the main loop -/

/-- an ASCII rune is the byte at the position -/
theorem byte_of_rune {pos ch : Nat} (hlt : pos < text.length)
    (h : (decodeUtf8 (text.drop pos)).1 = ch) (hch : ch < 0x80) :
    text[pos]? = some (UInt8.ofNat ch) := by
  obtain ⟨b, hb⟩ : ∃ b, text[pos]? = some b := ⟨_, List.getElem?_eq_getElem hlt⟩
  by_cases hascii : b < 0x80
  · rw [decode_ascii text hb hascii] at h
    rw [hb, ← h, UInt8.ofNat_toNat]
  · have := decode_high text hb hascii
    omega

theorem skipComment_down {options : SkipTriviaOptions} {pos : Nat} {s' : Nat × Bool}
    (h : skipComment text options pos = .again s') : pos < s'.1 ∧ s'.1 ≤ text.length := by
  rw [skipComment] at h
  split_ifs at h with h1 h2 h3
  · cases h
    have := byte_lt text h2
    have := restOfLine_forward text (show pos + 2 ≤ text.length by omega)
    dsimp only
    omega
  · cases h
    have := byte_lt text h3
    have := blockComment_forward text (show pos + 2 ≤ text.length by omega)
    dsimp only
    omega

theorem skipShebang_down {pos : Nat} {s' : Nat × Bool} (h : skipShebang text pos = .again s') :
    pos < s'.1 ∧ s'.1 ≤ text.length := by
  rw [skipShebang] at h
  split_ifs at h with h1
  cases h
  have hlen : 2 ≤ text.length := by
    have := congrArg List.length (of_decide_eq_true h1.2)
    simp only [List.length_take, List.length_cons, List.length_nil] at this
    omega
  have := restOfLine_forward text (show pos + 2 ≤ text.length by omega)
  simp only [scanShebangTrivia]
  omega

theorem skipRune_down {options : SkipTriviaOptions} {pos : Nat} {star : Bool} {s' : Nat × Bool}
    (hlt : pos < text.length)
    (h : skipRune text options pos star (decodeUtf8 (text.drop pos)).1
      (decodeUtf8 (text.drop pos)).2 = .again s') : pos < s'.1 ∧ s'.1 ≤ text.length := by
  have hw := decode_bounds text hlt
  generalize hr : (decodeUtf8 (text.drop pos)).1 = ch at h
  generalize (decodeUtf8 (text.drop pos)).2 = width at h hw
  rw [skipRune] at h
  split_ifs at h with h1 h2 h3 h4 h5 h6 h7 h8
  · simp only [skipNewLine] at h
    split_ifs at h with h9 h10
    · cases h
      have := byte_lt text h10.2
      dsimp only
      omega
    · cases h
      dsimp only
      omega
  · cases h
    dsimp only
    omega
  · exact skipComment_down text h
  · rw [skipMarker] at h
    split_ifs at h with h9
    cases h
    have hb := byte_of_rune text hlt hr (by omega)
    refine scanConflictMarkerTrivia_forward text hb ?_
    rcases h4 with rfl | rfl | rfl | rfl <;> decide
  · exact skipShebang_down text h
  · cases h
    dsimp only
    omega
  · cases h
    dsimp only
    omega

theorem skipPass_down (options : SkipTriviaOptions) {s s' : Nat × Bool}
    (h : skipPass text options s = .again s') : s.1 < s'.1 ∧ s'.1 ≤ text.length := by
  rw [skipPass] at h
  split_ifs at h with hend
  exact skipRune_down text (by omega) h

theorem skipTrivia_again {pos pos' : Nat} (h : skipPass text {} (pos, false) = .again (pos', false)) :
    skipTrivia text pos = skipTrivia text pos' :=
  loop_again (skipPass text {}) Prod.fst (fun s => ahead text s.1) (fun _ => True)
    (always (skipPass text {}) (fun s => ahead text s.1)
      fun s s' hs => ahead_lt text (skipPass_down text {} hs)) trivial h

theorem skipTrivia_leave {pos : Nat} (h : skipPass text {} (pos, false) = .leave pos) :
    skipTrivia text pos = pos :=
  loop_leave (skipPass text {}) Prod.fst (fun s => ahead text s.1) h

end

end Tsr.Scanner
