import Tsr.Json.StreamingWire
import Tsr.Json.Decoder

/-!
# Json: a decoder over a reader and one over the complete slice

The relation of the scanners carried up to tokens (`CursorStreams`) and to the decoder
(`Tracks`).  Only `compact` changes the offset between the two buffers; every other step of a call
runs under a fixed offset, and `absoluteError` removes it from the errors.

* `next_moves`          one token;
* `perform_tracks`      one call of the decoder;
* `run_tracks`          a sequence of calls;
* `streaming_refines`   **over a reader that only splits and interrupts, every sequence of calls has
                        the answers it has over the complete slice**.
-/

set_option linter.unusedVariables false

namespace Tsr.Json
open Tsr.Lib Tsr.Lib.Fallible

variable {base kept : Nat}

theorem within_moveBy (p : String) (e : Error) :
    (e.moveBy base).within p = (e.within p).moveBy base := by
  cases e <;> rfl

/-! ## delimiters -/

theorem moves_delimiter (f : Frame) (i : Nat) :
    Moves base kept (Input.Upto i) (base + ·) (delimiter f i) (delimiter f (base + i))
      Input.Upto := by
  rw [delimiter, delimiter]
  refine simulates_bind (Input.moves_atIndex i i) ?_
  intro ch
  dsimp only [id]
  split
  · cases ch with
    | none => exact simulates_fail _
    | some b =>
      dsimp only
      split
      · exact (Input.moves_space (i + 1)).weaken (fun _ hs => hs.upto_succ) fun _ _ h => h
      · exact Input.moves_invalid i _ _ fun _ hs => hs.upto_succ
  split
  · cases ch with
    | none => exact simulates_fail _
    | some b =>
      dsimp only
      split
      · refine simulates_bind ((Input.moves_space (i + 1)).weaken (fun _ hs => hs.upto_succ)
          fun _ _ h => h) ?_
        intro j
        refine simulates_bind (Input.moves_atIndex j j) ?_
        intro ch
        dsimp only [id]
        split
        · next hch =>
          refine Input.moves_invalid j _ _ ?_
          intro s hs
          rcases hch with rfl | rfl
          · exact hs.upto_succ
          · exact hs.upto_succ
        · exact simulates_pure _ fun _ hs => hs.upto
      · exact Input.moves_invalid i _ _ fun _ hs => hs.upto_succ
  · exact simulates_pure _ fun _ hs => hs.upto

theorem moves_prepareInner (pos : Nat) (stack : Stack) :
    Moves base kept (Input.Upto pos) (base + ·) (prepareInner pos stack)
      (prepareInner (base + pos) stack) Input.Upto := by
  rw [prepareInner, prepareInner]
  refine simulates_bind (Input.moves_space pos) ?_
  intro i
  cases stack with
  | nil => exact simulates_pure _ fun _ hs => hs
  | cons f outer => exact moves_delimiter f i

theorem moves_prepare (pos : Nat) (stack : Stack) :
    Moves base kept (Input.Upto pos) (base + ·) (prepare pos stack) (prepare (base + pos) stack)
      Input.Upto :=
  simulates_mapError (moves_prepareInner pos stack) fun _ _ e _ => within_moveBy _ e

/-! ## one token -/

/-- two cursors at the same place of the same text, which is buffered up to there -/
structure CursorStreams (base kept : Nat) (c d : Cursor) : Prop where
  input : Streams base (max kept c.pos) c.input d.input
  pos : d.pos = base + c.pos
  stack : d.stack = c.stack

abbrev Tokens {α β : Type} (base kept : Nat) (P : Cursor → Prop) (f : α → β) (x : Scanner α)
    (y : Scanner β) (Q : α → Cursor → Prop) : Prop :=
  Simulates (CursorStreams base kept) (Error.moveBy base) P f x y Q

theorem tokens_onInput {α β : Type} {f : α → β} {x : Lex α} {y : Lex β} {P : Input → Prop}
    {Q : α → Input → Prop} (h : ∀ kept, Moves base kept P f x y Q) :
    Tokens base kept (fun c => P c.input) f (onInput x) (onInput y) (fun a c => Q a c.input) := by
  intro c d hR hP
  obtain ⟨h1, h2, h3⟩ := h (max kept c.pos) c.input d.input hR.input hP
  exact ⟨h1, ⟨h2, hR.pos, hR.stack⟩, h3⟩

namespace CursorStreams

theorem buffered {c d : Cursor} (h : CursorStreams base kept c d) : Input.Upto c.pos c.input :=
  (le_max_right _ _).trans h.input.buffered

theorem kept_le {c d : Cursor} (h : CursorStreams base kept c d) : kept ≤ c.input.bytes.length :=
  (le_max_left _ _).trans h.input.buffered

end CursorStreams

/-- a change of the stack alone -/
theorem tokens_stack (g : Stack → Stack) {P : Input → Prop} :
    Tokens base kept (fun c => P c.input) id (change fun c => { c with stack := g c.stack })
      (change fun c => { c with stack := g c.stack }) (fun _ c => P c.input) :=
  simulates_change (fun c d hR _ => ⟨hR.input, hR.pos, congrArg g hR.stack⟩) fun _ h => h

theorem tokens_scanToken (kind : Kind) (start : Nat) (options : Options) (decode : Bool) :
    Moves base kept (Input.Upto (start + 1)) (fun r => (r.1, base + r.2))
      (scanToken kind start options decode) (scanToken kind (base + start) options decode)
      (fun r => Input.Upto r.2) := by
  have hliteral : ∀ (word : Bytes) (token : Token), Moves base kept (Input.Upto (start + 1))
      (fun r => (r.1, base + r.2))
      (do let stop ← Input.literal start word ""; pure (token, stop))
      (do let stop ← Input.literal (base + start) word ""; pure (token, stop))
      (fun r => Input.Upto r.2) := by
    intro word token
    refine simulates_bind ((Input.moves_literalLoop word "" word start).weaken
      (fun s hs => Nat.le_of_succ_le hs) fun _ _ h => h) ?_
    intro stop
    exact simulates_pure _ fun _ hs => hs
  cases kind with
  | string =>
    simp only [scanToken]
    split
    · refine simulates_bind (Input.moves_string start "" options.invalidUtf8) ?_
      rintro ⟨value, stop⟩
      exact simulates_pure _ fun _ hs => hs
    · refine simulates_bind (Input.moves_stringInto start "" options.invalidUtf8 none) ?_
      rintro ⟨stop, out⟩
      exact simulates_pure _ fun _ hs => hs
  | number =>
    refine simulates_bind ((Input.moves_number start "").weaken
      (fun s hs => Nat.le_of_succ_le hs) fun _ _ h => h) ?_
    intro stop
    refine simulates_bind (Input.moves_slice start stop fun _ hs => .inl hs) ?_
    intro text
    exact simulates_pure _ fun _ hs => hs
  | null => exact hliteral nullText .null
  | true => exact hliteral trueText (.boolean Bool.true)
  | false => exact hliteral falseText (.boolean Bool.false)
  | beginObject => exact simulates_pure _ fun _ hs => hs
  | beginArray => exact simulates_pure _ fun _ hs => hs
  | invalid => exact Input.moves_invalid start _ _ fun _ hs => hs
  | endObject => exact Input.moves_invalid start _ _ fun _ hs => hs
  | endArray => exact Input.moves_invalid start _ _ fun _ hs => hs

/-- a token and the index where it starts, `base` bytes further on -/
def moveToken (base : Nat) (r : Token × Nat) : Token × Nat := (r.1, base + r.2)

theorem tokens_closeContainer (kind : Kind) (start : Nat) :
    Tokens base kept (fun c => Input.Upto (start + 1) c.input) (moveToken base)
      (closeContainer kind start) (closeContainer kind (base + start)) (fun _ _ => True) := by
  rw [closeContainer, closeContainer]
  refine simulates_bind (f := id) (Q := fun _ c => Input.Upto (start + 1) c.input)
    (simulates_read (fun c d hR _ => hR.stack) fun _ _ _ h => h) ?_
  intro stack
  dsimp only [id]
  split
  · refine simulates_bind (f := id) (Q := fun _ _ => True) (simulates_change ?_
      fun _ _ => trivial) ?_
    · intro c d hR hs
      exact ⟨hR.input.keep (max_le hR.kept_le hs), rfl, congrArg List.tail hR.stack⟩
    · intro _
      exact simulates_pure _ fun _ _ => trivial
  · exact tokens_onInput (Q := fun _ _ => True)
      fun kept => Input.moves_invalid start _ _ fun _ hs => hs

theorem tokens_enterName (options : Options) (start : Nat) (name : Bytes) {P : Input → Prop} :
    Tokens base kept (fun c => P c.input) id (enterName options start name)
      (enterName options (base + start) name) (fun _ c => P c.input) := by
  rw [enterName, enterName]
  refine simulates_bind (f := id) (Q := fun _ c => P c.input) (simulates_read ?_
    fun _ _ _ h => h) ?_
  · intro c d hR _
    rw [hR.stack]
    rfl
  intro checked
  refine simulates_bind (tokens_stack fun _ => checked.2) ?_
  intro _
  dsimp only [id]
  split
  · exact tokens_stack fun stack => stack.setName name
  · exact simulates_fail _

theorem tokens_advance (kind : Kind) (stop : Nat) :
    Tokens base kept (fun c => Input.Upto stop c.input) id (change (advance kind stop))
      (change (advance kind (base + stop))) (fun _ _ => True) := by
  refine simulates_change ?_ fun _ _ => trivial
  intro c d hR hs
  refine ⟨hR.input.keep (max_le hR.kept_le hs), rfl, ?_⟩
  simp only [advance, hR.stack]

theorem tokens_nextInner (options : Options) (baseDepth : Nat) (keep : Bool) :
    Tokens base kept (fun _ => True) (moveToken base) (nextInner options baseDepth keep)
      (nextInner options baseDepth keep) (fun _ _ => True) := by
  rw [nextInner]
  refine simulates_bind (f := (base + ·)) (Q := fun pos (c : Cursor) => Input.Upto pos c.input)
    (simulates_read (fun c d hR _ => hR.pos) fun c d hR _ => hR.buffered) ?_
  intro pos
  refine simulates_bind (f := id) (Q := fun _ c => Input.Upto pos c.input)
    (simulates_read (fun c d hR _ => hR.stack) fun _ _ _ h => h) ?_
  intro stack
  refine simulates_bind (tokens_onInput fun kept => moves_prepareInner pos stack) ?_
  intro start
  refine simulates_bind (tokens_onInput fun kept => Input.moves_at start) ?_
  intro r
  cases r with
  | none =>
    dsimp only [id]
    split
    · exact simulates_fail Error.eof
    · exact simulates_fail (Error.truncated start "")
  | some b =>
    dsimp only [id]
    split
    · exact (tokens_closeContainer (Kind.fromByte b) start).weaken (fun _ hs => hs.upto_succ)
        fun _ _ h => h
    split
    · exact simulates_fail _
    split
    · exact simulates_fail _
    refine simulates_bind ((tokens_onInput fun kept =>
      tokens_scanToken (Kind.fromByte b) start options (keep || stack.expectsName)).weaken
      (fun _ hs => hs.upto_succ) fun _ _ h => h) ?_
    rintro ⟨token, stop⟩
    dsimp only
    split
    · refine simulates_bind (tokens_enterName options start token.text) ?_
      intro _
      refine simulates_bind (tokens_advance (Kind.fromByte b) stop) ?_
      intro _
      exact simulates_pure _ fun _ _ => trivial
    · refine simulates_bind (tokens_advance (Kind.fromByte b) stop) ?_
      intro _
      exact simulates_pure _ fun _ _ => trivial

/-- **one token of the stream is the token of the slice** -/
theorem next_moves (options : Options) (baseDepth : Nat) (keep : Bool) :
    Tokens base kept (fun _ => True) (moveToken base) (next options baseDepth keep)
      (next options baseDepth keep) (fun _ _ => True) := by
  refine simulates_mapError (tokens_nextInner options baseDepth keep) ?_
  intro c d e hR
  rw [hR.stack]
  exact within_moveBy _ e

/-! ## the decoder -/

/-- the decoder over the reader, `base` bytes dropped, and the one over the slice -/
structure Tracks (base : Nat) (d e : Decoder) : Prop where
  offset : d.base = base
  whole : e.base = 0
  input : Streams base d.pos d.input e.input
  pos : e.pos = base + d.pos
  stack : e.stack = d.stack
  options : e.options = d.options
  rootCount : e.rootCount = d.rootCount
  previousStart : e.previousStart = d.previousStart
  baseDepth : e.baseDepth = d.baseDepth

namespace Decoder

/-- in step, with errors as they are found in the buffers -/
abbrev Near {α β : Type} (base : Nat) (P : Decoder → Prop) (f : α → β) (x : Op α) (y : Op β)
    (Q : α → Decoder → Prop) : Prop :=
  Simulates (Tracks base) (Error.moveBy base) P f x y Q

/-- in step, with the same errors -/
abbrev Same {α β : Type} (base : Nat) (P : Decoder → Prop) (f : α → β) (x : Op α) (y : Op β)
    (Q : α → Decoder → Prop) : Prop :=
  Simulates (Tracks base) id P f x y Q

theorem same_absoluteError {α β : Type} {P : Decoder → Prop} {f : α → β} {x : Op α} {y : Op β}
    {Q : α → Decoder → Prop} (h : Near base P f x y Q) :
    Same base P f (absoluteError x) (absoluteError y) Q := by
  refine simulates_mapError h ?_
  intro d e err hR
  rw [hR.whole, hR.offset]
  cases err with
  | malformed s => simp [Error.moveBy]
  | eof => rfl
  | io action message => rfl
  | invalidIndent => rfl

theorem near_lex {α β : Type} {f : α → β} {x : Lex α} {y : Lex β} {P : Input → Prop}
    {Q : α → Input → Prop} (h : ∀ kept, Moves base kept P f x y Q) :
    Near base (fun d => P d.input) f (lex x) (lex y) (fun a d => Q a d.input) := by
  intro d e hR hP
  obtain ⟨h1, h2, h3⟩ := h d.pos d.input e.input hR.input hP
  exact ⟨h1, { hR with input := h2 }, h3⟩

theorem near_scan {α β : Type} {f : α → β} {x : Scanner α} {y : Scanner β}
    (h : ∀ kept, Tokens base kept (fun _ => True) f x y fun _ _ => True) :
    Near base (fun _ => True) f (scan x) (scan y) fun _ _ => True := by
  intro d e hR hP
  obtain ⟨h1, h2, h3⟩ := h 0 ⟨d.input, d.pos, d.stack⟩ ⟨e.input, e.pos, e.stack⟩
    ⟨hR.input.keep (max_le (Nat.zero_le _) hR.input.buffered), hR.pos, hR.stack⟩ trivial
  exact ⟨h1, { hR with input := h2.input.keep h2.buffered, pos := h2.pos, stack := h2.stack },
    fun _ _ => trivial⟩

/-- `compact` moves the offset between the buffers, and nothing else -/
theorem tracks_compact {d e : Decoder} (h : Tracks base d e) :
    ∃ base', Tracks base' d.compact e.compact := by
  have he : e.compact = e := by
    rw [compact, if_neg]
    rintro ⟨_, hn⟩
    rw [h.input.ended] at hn
    exact absurd hn (by decide)
  rw [he, compact]
  split
  · next hc =>
    have ht : d.input.bytes ++ d.input.ahead = e.input.bytes.drop base := h.input.text
    have hlen : d.pos ≤ d.input.bytes.length := h.input.buffered
    refine ⟨base + d.pos, ?_⟩
    refine { h with offset := by rw [h.offset], input := ?_, pos := h.pos }
    refine { h.input with text := ?_, buffered := Nat.zero_le _, reaches := ?_, exhausted := ?_ }
    · show d.input.bytes.drop d.pos ++ d.input.ahead = e.input.bytes.drop (base + d.pos)
      rw [← List.drop_drop, ← ht, List.drop_append_of_le_length hlen]
    · have hl := congrArg List.length ht
      rw [List.length_append, List.length_drop] at hl
      have := h.input.reaches
      omega
    · intro hn
      exact absurd hn (by rw [hc.2]; decide)
  · exact ⟨base, h⟩

theorem same_readStack {P : Decoder → Prop} :
    Same base P id (read Decoder.stack) (read Decoder.stack) (fun _ => P) :=
  simulates_read (fun d e hR _ => hR.stack) fun _ _ _ h => h

theorem same_readOptions {P : Decoder → Prop} :
    Same base P id (read Decoder.options) (read Decoder.options) (fun _ => P) :=
  simulates_read (fun d e hR _ => hR.options) fun _ _ _ h => h

/-- the position, which is buffered -/
theorem same_readPos {P : Decoder → Prop} :
    Same base P (base + ·) (read Decoder.pos) (read Decoder.pos)
      (fun pos d => Input.Upto pos d.input) :=
  simulates_read (fun d e hR _ => hR.pos) fun d e hR _ => hR.input.buffered

/-! ## the calls -/

theorem same_tokenHere :
    Same base (fun _ => True) id tokenHere tokenHere fun _ _ => True := by
  rw [tokenHere]
  refine simulates_bind same_readStack ?_
  intro stack
  refine simulates_bind same_readOptions ?_
  intro options
  refine simulates_bind (f := id) (Q := fun _ _ => True)
    (simulates_read (fun d e hR _ => hR.baseDepth) fun _ _ _ _ => trivial) ?_
  intro baseDepth
  refine simulates_bind (same_absoluteError (near_scan fun kept => next_moves options baseDepth true)) ?_
  rintro ⟨token, start⟩
  dsimp only [id, moveToken]
  refine simulates_bind (f := id) (Q := fun _ _ => True) (simulates_change ?_
    fun _ _ => trivial) ?_
  · intro d e hR _
    refine { hR with previousStart := ?_, rootCount := ?_ }
    · simp only [afterToken, hR.rootCount]
    · simp only [afterToken, hR.whole, hR.offset, Nat.zero_add]
  · intro _
    exact simulates_pure _ fun _ _ => trivial

theorem tokens_skipLoop (options : Options) (depth fuel : Nat) :
    Tokens base kept (fun _ => True) id (skipLoop options depth fuel) (skipLoop options depth fuel)
      fun _ _ => True := by
  induction fuel with
  | zero => exact simulates_pure _ fun _ _ => trivial
  | succ fuel ih =>
    rw [skipLoop]
    refine simulates_bind (f := id) (Q := fun _ _ => True)
      (simulates_read (fun c d hR _ => hR.stack) fun _ _ _ _ => trivial) ?_
    intro stack
    dsimp only [id]
    split
    · exact simulates_pure _ fun _ _ => trivial
    · refine simulates_bind (next_moves options depth false) ?_
      intro _
      exact ih

theorem tokens_valueTokens (options : Options) (depth : Nat) :
    Tokens base kept (fun _ => True) (moveToken base) (valueTokens options depth)
      (valueTokens options depth) (fun r c => Input.Upto r.2 c.input) := by
  rw [valueTokens]
  refine simulates_bind (next_moves options depth true) ?_
  rintro ⟨first, start⟩
  dsimp only [moveToken]
  refine simulates_bind (f := id) (Q := fun _ _ => True) (simulates_read ?_
    fun _ _ _ _ => trivial) ?_
  · intro c d hR _
    rw [hR.input.total_eq, hR.pos]
    show base + c.input.total + 1 - (base + c.pos) = c.input.total + 1 - c.pos
    omega
  intro fuel
  refine simulates_bind (tokens_skipLoop options depth fuel) ?_
  intro _
  refine simulates_bind (f := (base + ·)) (Q := fun stop (c : Cursor) => Input.Upto stop c.input)
    (simulates_read (fun c d hR _ => hR.pos) fun c d hR _ => hR.buffered) ?_
  intro stop
  exact simulates_pure _ fun _ hs => hs

/-- a value read on a cursor of its own -/
theorem near_scanFrom {α β : Type} {f : α → β} {x : Scanner α} {y : Scanner β}
    {Q : α → Input → Prop} (start : Nat)
    (h : ∀ kept, Tokens base kept (fun _ => True) f x y fun a c => Q a c.input) :
    Near base (fun d => Input.Upto start d.input) f (scanFrom start x)
      (scanFrom (base + start) y) (fun a d => Q a d.input) := by
  intro d e hR hP
  obtain ⟨h1, h2, h3⟩ := h d.pos ⟨d.input, start, []⟩ ⟨e.input, base + start, []⟩
    ⟨hR.input.keep (max_le hR.input.buffered hP), rfl, rfl⟩ trivial
  exact ⟨h1, { hR with input := h2.input.keep h2.kept_le }, h3⟩

theorem same_valueName (start : Nat) (first : Token) {P : Input → Prop} :
    Same base (fun d => P d.input) id (valueName start first) (valueName (base + start) first)
      (fun _ d => P d.input) := by
  rw [valueName, valueName]
  refine simulates_bind same_readStack ?_
  intro stack
  dsimp only [id]
  -- the offset of an error is the one in the whole input on both sides
  refine simulates_bind (f := fun _ => 0) (Q := fun b d => b = base ∧ P d.input)
    (simulates_read (fun d e hR _ => hR.whole) fun d e hR h => ⟨hR.offset, h⟩) ?_
  intro b
  by_cases hb : b = base
  swap
  · intro d e _ h
    exact absurd h.1 hb
  subst hb
  have hoff : 0 + (b + start) = b + start := Nat.zero_add _
  cases first with
  | string name =>
    dsimp only
    refine simulates_bind same_readOptions ?_
    intro options
    refine simulates_bind (f := id) (Q := fun _ d => P d.input) (simulates_read ?_
      fun _ _ _ h => h.2) ?_
    · intro d e hR _
      rw [hR.stack]
      rfl
    intro checked
    refine simulates_bind (f := id) (Q := fun _ d => P d.input) (simulates_change
      (fun d e hR _ => { hR with stack := rfl }) fun _ h => h) ?_
    intro _
    dsimp only [id]
    split
    · refine simulates_change ?_ fun _ h => h
      intro d e hR _
      exact { hR with stack := by rw [hR.stack] }
    · rw [hoff]
      exact simulates_fail _
  | _ =>
    dsimp only
    rw [hoff]
    exact simulates_fail _

theorem valueError_moveBy (start : Nat) (stack : Stack) (e : Error) :
    valueError (base + start) stack (e.moveBy base) = (valueError start stack e).moveBy base := by
  cases e with
  | malformed s => rfl
  | eof =>
    by_cases h : stack = []
    · simp only [valueError, Error.moveBy, h, ne_eq, not_true_eq_false, and_false, if_false]
      rfl
    · simp only [valueError, Error.moveBy, h, ne_eq, not_false_eq_true, and_true, if_true]
      rfl
  | io action message => rfl
  | invalidIndent => rfl

theorem same_rangeHere :
    Same base (fun _ => True) (fun r => (base + r.1, base + r.2)) rangeHere rangeHere
      (fun r d => Input.Upto r.2 d.input) := by
  rw [rangeHere]
  refine simulates_bind same_readPos ?_
  intro pos
  refine simulates_bind same_readStack ?_
  intro stack
  refine simulates_bind (same_absoluteError (near_lex fun kept => moves_prepare pos stack)) ?_
  intro start
  refine simulates_bind same_readOptions ?_
  intro options
  refine simulates_bind (f := id) (Q := fun _ d => Input.Upto start d.input) (simulates_read ?_
    fun _ _ _ h => h) ?_
  · intro d e hR _
    rw [hR.baseDepth, hR.stack]
    rfl
  intro depth
  refine simulates_bind (Q := fun r d => Input.Upto r.2 d.input) (same_absoluteError
    (simulates_mapError (near_scanFrom (Q := fun (r : Token × Nat) => Input.Upto r.2) start
      fun kept => tokens_valueTokens options depth)
      fun _ _ e _ => valueError_moveBy start stack e)) ?_
  rintro ⟨first, stop⟩
  dsimp only [id, moveToken]
  have hend : Same base (fun d => Input.Upto stop d.input) (fun r => (base + r.1, base + r.2))
      (do change (afterValue start stop); pure (start, stop))
      (do change (afterValue (base + start) (base + stop)); pure (base + start, base + stop))
      (fun r d => Input.Upto r.2 d.input) := by
    refine simulates_bind (f := id) (Q := fun _ d => Input.Upto stop d.input)
      (simulates_change ?_ fun _ h => h) ?_
    · intro d e hR hs
      refine { hR with input := hR.input.keep hs, pos := rfl, previousStart := ?_ }
      simp only [afterValue, hR.whole, hR.offset, Nat.zero_add]
    · intro _
      exact simulates_pure _ fun _ h => h
  split
  · refine simulates_bind (same_valueName start first) ?_
    intro _
    exact hend
  · refine simulates_bind (f := id) (Q := fun _ d => Input.Upto stop d.input)
      (simulates_change ?_ fun _ h => h) ?_
    · intro d e hR _
      refine { hR with stack := ?_, rootCount := ?_ }
      · simp only [countValue, hR.stack]
      · simp only [countValue, hR.stack, hR.rootCount]
    · intro _
      exact hend

theorem same_lex {α β : Type} {f : α → β} {x : Lex α} {y : Lex β} {P : Input → Prop}
    {Q : α → Input → Prop} (h : ∀ kept, Simulates (Streams base kept) id P f x y Q) :
    Same base (fun d => P d.input) f (lex x) (lex y) (fun a d => Q a d.input) := by
  intro d e hR hP
  obtain ⟨h1, h2, h3⟩ := h d.pos d.input e.input hR.input hP
  exact ⟨h1, { hR with input := h2 }, h3⟩

theorem same_valueHere :
    Same base (fun _ => True) id
      (do let (start, stop) ← rangeHere; lex (Input.slice start stop))
      (do let (start, stop) ← rangeHere; lex (Input.slice start stop)) fun _ _ => True := by
  refine simulates_bind same_rangeHere ?_
  rintro ⟨start, stop⟩
  refine Simulates.weaken (same_lex (Q := fun _ _ => True) fun kept => ?_) (fun _ h => h)
    fun _ _ h => h
  exact simulates_read (fun s t hR hs => hR.slice_eq (.inl hs)) fun _ _ _ _ => trivial

theorem same_finish : Same base (fun _ => True) id finish finish fun _ _ => True := by
  rw [finish]
  refine simulates_bind same_readPos ?_
  intro pos
  refine simulates_bind (same_lex fun kept => Input.moves_space pos) ?_
  intro p
  refine simulates_bind (same_lex fun kept => Input.moves_at p) ?_
  intro b
  cases b with
  | none => exact simulates_pure _ fun _ _ => trivial
  | some b =>
    refine Simulates.weaken (same_absoluteError (near_lex (Q := fun _ _ => True) fun kept =>
      Input.moves_invalid p _ _ fun _ hs => hs)) (fun _ hs => hs.upto_succ) fun _ _ h => h

theorem same_peekKind : Same base (fun _ => True) id peekKind peekKind fun _ _ => True := by
  rw [peekKind]
  refine simulates_bind (f := id) (Q := fun _ _ => True) (simulates_change
    (fun d e hR _ => { hR with previousStart := rfl }) fun _ _ => trivial) ?_
  intro _
  refine simulates_bind same_readPos ?_
  intro pos
  refine simulates_bind same_readStack ?_
  intro stack
  have hat : Near base (fun d => Input.Upto pos d.input) id
      (lex (prepare pos stack >>= Input.atIndex))
      (lex (prepare (base + pos) stack >>= Input.atIndex)) fun _ _ => True :=
    near_lex fun kept => simulates_bind (moves_prepare pos stack) fun i =>
      (Input.moves_at i).weaken (fun _ h => h) fun _ _ _ => trivial
  refine simulates_bind (f := Option.map id) (@simulates_attempt _ _ _ _ _ _ _ _ _ _ _ _ _ _ (fun _ _ => True) hat
    (fun _ _ _ => trivial) fun _ => trivial) ?_
  intro r
  rw [Option.map_id]
  dsimp only [id]
  split
  · exact simulates_pure _ fun _ _ => trivial
  · exact simulates_pure _ fun _ _ => trivial

/-! ## sequences of calls -/

/-- behind `compact` both sides go on in step -/
theorem tracks_of_same {α : Type} {x : Op α} {d e : Decoder} {Q : α → Decoder → Prop}
    (hx : ∀ base, Same base (fun _ => True) id x x Q) (h : Tracks base d e) :
    (x d.compact).1 = (x e.compact).1 ∧ ∃ base', Tracks base' (x d.compact).2 (x e.compact).2 := by
  obtain ⟨base', h'⟩ := tracks_compact h
  obtain ⟨h1, h2, -⟩ := hx base' _ _ h' trivial
  refine ⟨?_, base', h2⟩
  rw [h1]
  cases (x d.compact).1 <;> rfl

/-- **a call answers alike over the reader and over the slice** -/
theorem perform_tracks (call : Call) {d e : Decoder} (h : Tracks base d e) :
    (perform call d).1 = (perform call e).1 ∧
      ∃ base', Tracks base' (perform call d).2 (perform call e).2 := by
  -- without `compact` the two sides go on from where they are
  have here : ∀ {α : Type} {x : Op α} {Q : α → Decoder → Prop},
      Same base (fun _ => True) id x x Q →
        (x d).1 = (x e).1 ∧ ∃ base', Tracks base' (x d).2 (x e).2 := by
    intro α x Q hx
    obtain ⟨h1, h2, -⟩ := hx d e h trivial
    refine ⟨?_, base, h2⟩
    rw [h1]
    cases (x d).1 <;> rfl
  cases call with
  | readToken =>
    obtain ⟨h1, h2⟩ := tracks_of_same (x := tokenHere) (fun base => same_tokenHere) h
    exact ⟨congrArg Answer.token h1, h2⟩
  | readValue =>
    obtain ⟨h1, h2⟩ := tracks_of_same (fun base => same_valueHere) h
    exact ⟨congrArg Answer.value h1, h2⟩
  | skipValue =>
    have hskip : ∀ base, Same base (fun _ => True) id
        (do let _ ← rangeHere; pure ()) (do let _ ← rangeHere; pure ()) fun _ _ => True :=
      fun base => simulates_bind same_rangeHere fun _ => simulates_pure () fun _ _ => trivial
    obtain ⟨h1, h2⟩ := tracks_of_same hskip h
    exact ⟨congrArg Answer.done h1, h2⟩
  | peekKind =>
    obtain ⟨h1, h2⟩ := here same_peekKind
    exact ⟨congrArg Answer.kind h1, h2⟩
  | finish =>
    obtain ⟨h1, h2⟩ := here same_finish
    exact ⟨congrArg Answer.done h1, h2⟩

theorem run_tracks (calls : List Call) {d e : Decoder} (h : Tracks base d e) :
    run calls d = run calls e := by
  induction calls generalizing base d e with
  | nil => rfl
  | cons call calls ih =>
    obtain ⟨h1, base', h2⟩ := perform_tracks call h
    have hoff : (perform call d).2.inputOffset = (perform call e).2.inputOffset := by
      simp only [inputOffset, h2.offset, h2.whole, h2.pos, Nat.zero_add]
    rw [run, run, h1, hoff, ih h2]

/-- a reader that delivers the bytes in pieces, with interruptions, and does not fail -/
structure Splits (reader : List ReadResult) (bytes : Bytes) : Prop where
  text : reader.flatMap ReadResult.bytes = bytes
  steady : ∀ r ∈ reader, r.isFailed = false

theorem tracks_start {reader : List ReadResult} {bytes : Bytes} (h : Splits reader bytes)
    (options : Options) :
    Tracks 0 (withOptions reader options) (fromSliceWithOptions bytes options) where
  offset := rfl
  whole := rfl
  input :=
    { text := h.text
      buffered := Nat.zero_le _
      reaches := Nat.zero_le _
      ended := rfl
      empty := rfl
      exhausted := nofun
      steady := h.steady }
  pos := rfl
  stack := rfl
  options := rfl
  rootCount := rfl
  previousStart := rfl
  baseDepth := rfl

/-- **every sequence of calls has the same answers, errors and offsets over a reader as over the
complete slice**, however the reader splits its bytes -/
theorem streaming_refines (reader : List ReadResult) (bytes : Bytes) (options : Options)
    (calls : List Call) (h : Splits reader bytes) :
    run calls (withOptions reader options) = run calls (fromSliceWithOptions bytes options) :=
  run_tracks calls (tracks_start h options)

/-- `[1]` in two pieces around an interruption, the number split from its array -/
def pieces : List ReadResult :=
  [.chunk ⟨[0x5B], by decide, by decide⟩, .interrupted, .chunk ⟨[0x31, 0x5D], by decide, by decide⟩]

theorem streaming_refines_pieces :
    Splits pieces [0x5B, 0x31, 0x5D] ∧
      run [.readToken, .peekKind, .readValue, .readToken, .finish]
          (withOptions pieces ⟨none, none, none, none⟩)
        = run [.readToken, .peekKind, .readValue, .readToken, .finish]
          (fromSliceWithOptions [0x5B, 0x31, 0x5D] ⟨none, none, none, none⟩) := by
  have h : Splits pieces [0x5B, 0x31, 0x5D] := ⟨rfl, by simp [pieces, ReadResult.isFailed]⟩
  exact ⟨h, streaming_refines pieces _ _ _ h⟩

end Decoder

end Tsr.Json
