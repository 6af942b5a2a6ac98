import Tsr.Json.Spelling

/-!
# Json: decoding what was encoded

Encoder and decoder keep the same stack, so they go through a sequence of tokens in step: the text
that `writeToken` adds is a token in its place, and `readToken` reads it (`reads_tokens`, by
induction on the tokens).  A top-level value is read up to its last byte; the newline behind it is
space in front of the next one.

`round_trip`: **decoding the output gives back the tokens, and then the end of the input**.
-/

namespace Tsr.Json
open Tsr.Lib Tsr.Lib.Fallible

/-! ## valid text is unchanged -/

/-- well-formed UTF-8 -/
inductive Utf8 : Bytes → Prop where
  | nil : Utf8 []
  | ascii {b : UInt8} {t : Bytes} (hb : b < 0x80) (h : Utf8 t) : Utf8 (b :: t)
  | sequence {q t : Bytes} {rune : Nat} (hq : Sequence q rune) (h : Utf8 t) : Utf8 (q ++ t)

namespace Decoder

variable {whole : Bytes} {options : Options}

/-- a decoder over a complete slice, at `pos` with the containers of `stack` open -/
structure At (options : Options) (whole : Bytes) (pos : Nat) (stack : Stack) (d : Decoder) :
    Prop where
  input : Slice whole d.input
  pos : d.pos = pos
  base : d.base = 0
  stack : d.stack = stack
  options : d.options = options
  baseDepth : d.baseDepth = 0

theorem gives_compact {pos : Nat} {stack : Stack} :
    Gives (At options whole pos stack) (change compact : Op Unit) (.ok ())
      (At options whole pos stack) := by
  refine gives_change ?_
  intro d h
  have hc : d.compact = d := by
    rw [compact, if_neg]
    rintro ⟨-, he⟩
    rw [h.input.2.1] at he
    exact absurd he (by decide)
  rw [hc]
  exact h

/-- a token of the scanner is a token of the decoder -/
theorem gives_readToken {token : Token} {pos pos' start : Nat} {stack stack' : Stack}
    (h : Gives (Cursor.At whole pos stack) (next options 0 true) (.ok (token, start))
      (Cursor.At whole pos' stack')) :
    Gives (At options whole pos stack) readToken (.ok token) (At options whole pos' stack') := by
  refine gives_bind gives_compact ?_
  refine gives_bind (a := stack) (gives_read fun d hd => hd.stack) ?_
  refine gives_bind (a := options) (gives_read fun d hd => hd.options) ?_
  refine gives_bind (a := 0) (gives_read fun d hd => hd.baseDepth) ?_
  have hscan : Gives (At options whole pos stack) (scan (next options 0 true)) (.ok (token, start))
      (At options whole pos' stack') := by
    intro d hd
    obtain ⟨h1, h2, h3, h4⟩ := h ⟨d.input, d.pos, d.stack⟩ ⟨hd.input, hd.pos, hd.stack⟩
    exact ⟨h1, { hd with input := h2, pos := h3, stack := h4 }⟩
  refine gives_bind (gives_mapError_ok hscan) ?_
  refine gives_bind (a := ()) ?_ (gives_pure _)
  exact gives_change fun d hd => { hd with }

/-- an error of the scanner is an error of the decoder -/
theorem gives_readToken_error {e : Error} {pos : Nat} {stack : Stack}
    (h : Gives (Cursor.At whole pos stack) (next options 0 true) (.error e)
      (Cursor.At whole pos stack)) :
    Gives (At options whole pos stack) readToken (.error (e.moveBy 0))
      (At options whole pos stack) := by
  refine gives_bind gives_compact ?_
  refine gives_bind (a := stack) (gives_read fun d hd => hd.stack) ?_
  refine gives_bind (a := options) (gives_read fun d hd => hd.options) ?_
  refine gives_bind (a := 0) (gives_read fun d hd => hd.baseDepth) ?_
  have hscan : Gives (At options whole pos stack) (scan (next options 0 true)) (.error e)
      (At options whole pos stack) := by
    intro d hd
    obtain ⟨h1, h2, h3, h4⟩ := h ⟨d.input, d.pos, d.stack⟩ ⟨hd.input, hd.pos, hd.stack⟩
    exact ⟨h1, { hd with input := h2, pos := h3, stack := h4 }⟩
  refine gives_bind_error (gives_mapError_error hscan ?_)
  intro d hd
  rw [hd.base]

/-! ## the end of the input -/

/-- what `readToken` reports at the end: inside a container the input is truncated -/
def endError (length : Nat) (stack : Stack) : Error :=
  if stack = [] then .eof else Error.truncated length (pointer true stack)

theorem gives_space_end {pos : Nat} {sep : Bytes} (h : whole.drop pos = sep) (hs : Spaces sep)
    (hp : pos ≤ whole.length) :
    Gives (Slice whole) (Input.space pos) (.ok whole.length) (Slice whole) := by
  have hlen := Input.length_of_drop (by rw [h, List.append_nil])
  have hsp := @Input.gives_space _ _ sep [] (by rw [h, List.append_nil]) hs rfl hp
  have hend : pos + sep.length = whole.length := by
    simp only [List.length_nil] at hlen
    omega
  rw [hend] at hsp
  exact hsp

theorem gives_at_end : Gives (Slice whole) (Input.atIndex whole.length) (.ok none) (Slice whole) := by
  have := @Input.gives_atIndex whole whole.length
  rw [List.getElem?_eq_none (le_refl _)] at this
  exact this

/-- in a container the end of the input is an error wherever it is found -/
theorem gives_nextInner_end {pos : Nat} {stack : Stack} {sep : Bytes} (h : whole.drop pos = sep)
    (hs : Spaces sep) (hp : pos ≤ whole.length) :
    Gives (Cursor.At whole pos stack) (nextInner options 0 true)
      (.error (if stack = [] then .eof else Error.truncated whole.length ""))
      (Cursor.At whole pos stack) := by
  refine gives_place pos stack ?_
  have hat : Gives (Cursor.At whole pos stack) (onInput (Input.atIndex whole.length)) (.ok none)
      (Cursor.At whole pos stack) := gives_onInput gives_at_end
  cases stack with
  | nil =>
    refine gives_bind (gives_onInput (gives_bind (gives_space_end h hs hp) (gives_pure _))) ?_
    exact gives_bind hat (gives_fail _)
  | cons f outer =>
    rw [if_neg (List.cons_ne_nil f outer)]
    by_cases h1 : f.kind = .beginObject ∧ ¬ f.expectsName
    · refine gives_bind_error (gives_onInput (gives_bind (gives_space_end h hs hp) ?_))
      show Gives _ (delimiter f whole.length) _ _
      rw [delimiter]
      refine gives_bind gives_at_end ?_
      rw [if_pos h1]
      exact gives_fail _
    by_cases h2 : 0 < f.count
    · refine gives_bind_error (gives_onInput (gives_bind (gives_space_end h hs hp) ?_))
      show Gives _ (delimiter f whole.length) _ _
      rw [delimiter]
      refine gives_bind gives_at_end ?_
      rw [if_neg h1, if_pos ⟨h2, by simp⟩]
      exact gives_fail _
    · refine gives_bind (a := whole.length)
        (gives_onInput (gives_bind (gives_space_end h hs hp) ?_)) ?_
      · show Gives _ (delimiter f whole.length) _ _
        rw [delimiter]
        refine gives_bind gives_at_end ?_
        rw [if_neg h1, if_neg (by simp [h2])]
        exact gives_pure _
      · refine gives_bind hat ?_
        exact gives_fail _

theorem gives_readToken_end {pos : Nat} {stack : Stack} {sep : Bytes} (h : whole.drop pos = sep)
    (hs : Spaces sep) (hp : pos ≤ whole.length) :
    Gives (At options whole pos stack) readToken (.error (endError whole.length stack))
      (At options whole pos stack) := by
  have hnext : Gives (Cursor.At whole pos stack) (next options 0 true)
      (.error (endError whole.length stack)) (Cursor.At whole pos stack) := by
    refine gives_mapError_error (gives_nextInner_end h hs hp) ?_
    intro c hc
    rw [hc.2.2, endError]
    split
    · rfl
    · simp [Error.truncated, Error.within]
  have := gives_readToken_error hnext
  have hmove : (endError whole.length stack).moveBy 0 = endError whole.length stack := by
    rw [endError]
    split
    · rfl
    · simp [Error.truncated, Error.moveBy]
  rw [hmove] at this
  exact this

theorem gives_finish_end {pos : Nat} {stack : Stack} {sep : Bytes} (h : whole.drop pos = sep)
    (hs : Spaces sep) (hp : pos ≤ whole.length) :
    Gives (At options whole pos stack) finish (.ok ()) (At options whole pos stack) := by
  have hlex : ∀ {α : Type} {x : Lex α} {r : Except Error α},
      Gives (Slice whole) x r (Slice whole) →
      Gives (At options whole pos stack) (lex x) r (At options whole pos stack) := by
    intro α x r hx d hd
    obtain ⟨h1, h2⟩ := hx d.input hd.input
    exact ⟨h1, { hd with input := h2 }⟩
  refine gives_bind (a := pos) (gives_read fun d hd => hd.pos) ?_
  refine gives_bind (hlex (gives_space_end h hs hp)) ?_
  exact gives_bind (hlex gives_at_end) (gives_pure _)

end Decoder

/-! ## what follows a number -/

theorem stops_nil : Input.Stops [] := by
  intro b hb
  cases hb

theorem stops_cons {b : UInt8} (rest : Bytes)
    (h : isDigit b = false ∧ b ≠ 0x2E ∧ b ≠ 0x65 ∧ b ≠ 0x45) : Input.Stops (b :: rest) := by
  intro c hc
  cases hc
  exact h

theorem stops_of_space {b : UInt8} (rest : Bytes) (h : Input.isSpace b = true) :
    Input.Stops (b :: rest) := by
  simp only [Input.isSpace, Bool.or_eq_true, decide_eq_true_eq] at h
  apply stops_cons
  rcases h with ((rfl | rfl) | rfl) | rfl <;> decide

/-- the innermost container has a token already -/
def Stack.Begun : Stack → Prop
  | [] => False
  | f :: _ => 0 < f.count

/-- in a container that has a token, a further one is an end token or has a delimiter -/
theorem delimiter_of_begun {stack : Stack} {kind : Kind} (h : stack.Begun) :
    kind.isEnd = true ∨ stack.delimiterOf kind = some 0x3A ∨ stack.delimiterOf kind = some 0x2C := by
  cases stack with
  | nil => exact absurd h id
  | cons f outer =>
    have hc : 0 < f.count := h
    by_cases hend : kind.isEnd = true
    · exact .inl hend
    · right
      show f.delimiter kind = _ ∨ f.delimiter kind = _
      rw [Frame.delimiter, if_neg hend]
      split_ifs
      · exact .inl rfl
      · exact .inr rfl

/-- behind a value, no token starts with a byte that could continue a number -/
theorem stops_token {allow : Bool} {stack : Stack} {token : Token} {lead body : Bytes} (rest : Bytes)
    (hb : stack.Begun) (hlead : Lead stack token.kind lead) (hbody : BodyText allow token body) :
    Input.Stops (lead ++ (body ++ rest)) := by
  obtain ⟨v, w, hv, hw, rfl⟩ := hlead
  cases v with
  | cons b v => exact stops_of_space _ (hv b List.mem_cons_self)
  | nil =>
    rcases delimiter_of_begun hb with hend | hd | hd
    · cases hd : stack.delimiterOf token.kind with
      | some c =>
        cases stack with
        | nil => simp [Stack.delimiterOf] at hd
        | cons f outer =>
          have hdf : f.delimiter token.kind = some c := hd
          rw [Frame.delimiter, if_pos hend] at hdf
          cases hdf
      | none =>
        cases w with
        | cons b w => exact stops_of_space _ (hw b List.mem_cons_self)
        | nil =>
          cases token with
          | boolean value => cases value <;> simp [Token.kind, Kind.isEnd] at hend
          | endObject =>
            rw [show body = [0x7D] from hbody]
            exact stops_cons _ (by decide)
          | endArray =>
            rw [show body = [0x5D] from hbody]
            exact stops_cons _ (by decide)
          | _ => simp [Token.kind, Kind.isEnd] at hend
    · rw [hd]
      exact stops_cons _ (by decide)
    · rw [hd]
      exact stops_cons _ (by decide)

/-- a number leaves its container begun -/
theorem begun_of_number {options : Options} {depth : Nat} {stack stack' : Stack} {token : Token}
    (hk : token.kind = .number) (h : stepStack options depth stack token = some stack') :
    stack' = [] ∨ stack'.Begun := by
  rw [stepStack, hk] at h
  simp only [Kind.isEnd, Kind.isBegin, Bool.false_eq_true, if_false, false_and] at h
  split_ifs at h with h1 h2 h3
  · exact absurd ⟨h2, by decide⟩ h1
  · cases h
    cases stack with
    | nil => exact .inl rfl
    | cons f outer =>
      right
      exact Nat.succ_pos f.count

/-! ## the two sides in step -/

namespace Encoder

/-- the output only grows, and behind a value it goes on with a byte that ends a number -/
theorem writeTokens_output {tokens : List Token} {e e' : Encoder} (hr : Ready e)
    (h : writeTokens tokens e = (.ok (), e')) :
    ∃ rest, e'.output = e.output ++ rest ∧ (e.stack.Begun → Input.Stops rest) := by
  induction tokens generalizing e with
  | nil =>
    cases h
    exact ⟨[], by simp, fun _ => stops_nil⟩
  | cons token tokens ih =>
    obtain ⟨_, e1, h1, h⟩ := bind_eq_ok h
    obtain ⟨hr1, hopt, hstep, body, hbody, hout⟩ := writeToken_writes hr h1
    obtain ⟨rest, hrest, -⟩ := ih hr1 h
    obtain ⟨w, hw, hlead⟩ := tokenPrefix_lead e token.kind hr.blank
    refine ⟨_, by rw [hrest, hout, List.append_assoc], ?_⟩
    intro hbegun
    have hl : Lead e.stack (token.readBack e.options).kind (e.tokenPrefix token.kind).bytes := by
      rw [readBack_kind, hlead]
      exact ⟨[], w, nofun, hw, rfl⟩
    have := stops_token ((if e1.stack = [] then [0x0A] else []) ++ rest) hbegun hl
      (hbody.text false)
    simpa using this

end Encoder

namespace Decoder

variable {whole : Bytes} {options : Options}

/-- **the tokens that were written are read, one after the other** -/
theorem reads_tokens {tokens : List Token} {e e' : Encoder} (hr : e.Ready)
    (ho : e.options = options) (h : Encoder.writeTokens tokens e = (.ok (), e'))
    {rest sep : Bytes} {pos : Nat} (hout : e'.output = e.output ++ rest)
    (hdrop : whole.drop pos = sep ++ rest) (hsep : Spaces sep) (hp : pos ≤ whole.length)
    (last : List Call) (d : Decoder) (hd : At options whole pos e.stack d) :
    ∃ pos' sep' d', whole.drop pos' = sep' ∧ Spaces sep' ∧ pos' ≤ whole.length ∧
      At options whole pos' e'.stack d' ∧
      (run (List.replicate tokens.length .readToken ++ last) d).map Prod.fst
        = tokens.map (fun t => Answer.token (.ok (t.readBack options)))
          ++ (run last d').map Prod.fst := by
  induction tokens generalizing e rest sep pos d with
  | nil =>
    cases h
    have hnil : rest = [] := by simpa using hout
    refine ⟨pos, sep, d, ?_, hsep, hp, hd, rfl⟩
    rw [hdrop, hnil, List.append_nil]
  | cons token tokens ih =>
    obtain ⟨_, e1, h1, h⟩ := bind_eq_ok h
    obtain ⟨hr1, hopt, hstep, body, hbody, hout1⟩ := Encoder.writeToken_writes hr h1
    obtain ⟨rest1, hrest1, hstops⟩ := Encoder.writeTokens_output hr1 h
    obtain ⟨w, hw, hlead⟩ := tokenPrefix_lead e token.kind hr.blank
    obtain ⟨nl, hnl⟩ : ∃ nl : Bytes, nl = if e1.stack = [] then [0x0A] else [] := ⟨_, rfl⟩
    rw [← hnl] at hout1
    have hk := readBack_kind e.options token
    -- the text of this token, and what follows it
    have hrest : rest = (e.tokenPrefix token.kind).bytes ++ (body ++ (nl ++ rest1)) := by
      rw [hrest1, hout1, List.append_assoc] at hout
      simpa using (List.append_cancel_left hout).symm
    have htext : whole.drop pos
        = (sep ++ (e.tokenPrefix token.kind).bytes) ++ (body ++ (nl ++ rest1)) := by
      rw [hdrop, hrest, List.append_assoc]
    have hl : Lead e.stack (token.readBack e.options).kind
        (sep ++ (e.tokenPrefix token.kind).bytes) := by
      rw [hk, hlead]
      exact ⟨sep, w, hsep, hw, rfl⟩
    have hstop : (token.readBack e.options).kind = .number → Input.Stops (nl ++ rest1) := by
      intro hnum
      rcases begun_of_number hnum hstep with hempty | hbegun
      · rw [hnl, if_pos hempty]
        exact stops_of_space _ rfl
      · have hne : e1.stack ≠ [] := by
          intro hc
          rw [hc] at hbegun
          exact hbegun
        rw [hnl, if_neg hne, List.nil_append]
        exact hstops hbegun
    rw [ho] at hl hbody hstop hstep
    have hread := gives_readToken
      (gives_next options true htext hl (hbody.text _) hstop hstep)
    rw [Bool.true_or, if_pos rfl] at hread
    obtain ⟨hans, hd1⟩ := hread d hd
    have hdrop1 := Input.drop_add (Input.drop_add htext)
    have hsp : Spaces nl := by
      rw [hnl]
      split
      · intro b hb
        rw [List.mem_singleton.1 hb]
        rfl
      · intro b hb
        cases hb
    have hlen := Input.length_of_drop htext
    obtain ⟨pos', sep', d', h2, h3, h4, h5, h6⟩ := ih hr1 (hopt.trans ho) h hrest1 hdrop1 hsp
      (by simp only [List.length_append] at hlen ⊢; omega) (readToken d).2 hd1
    refine ⟨pos', sep', d', h2, h3, h4, h5, ?_⟩
    rw [List.length_cons, List.replicate_succ, List.cons_append, run, List.map_cons, List.map_cons,
      List.cons_append]
    have hp' : perform .readToken d = (.token (readToken d).1, (readToken d).2) := rfl
    rw [hp', hans]
    exact congrArg _ h6

end Decoder

theorem ready_of_new {options : Options} {e : Encoder} (h : Encoder.new options = .ok e) :
    e.Ready ∧ e.options = options ∧ e.output = [] ∧ e.stack = [] := by
  rw [Encoder.new] at h
  split_ifs at h with hb
  cases h
  rw [Bool.and_eq_true] at hb
  refine ⟨⟨le_refl _, rfl, hb.1, ?_⟩, rfl, rfl, rfl⟩
  intro indent hi
  have h2 := hb.2
  dsimp only at hi
  rw [hi] at h2
  simpa using h2

theorem ready_of_withWriter {options : Options} {script : List WriteResult} {e : Encoder}
    (h : Encoder.withWriter script options = .ok e) :
    e.Ready ∧ e.options = options ∧ e.output = [] ∧ e.stack = [] := by
  rw [Encoder.withWriter] at h
  cases hn : Encoder.new options with
  | error err =>
    rw [hn] at h
    cases h
  | ok e0 =>
    rw [hn] at h
    cases h
    obtain ⟨hr, ho, hout, hs⟩ := ready_of_new hn
    have hbytes : e0.bytes = [] := by
      rw [Encoder.new] at hn
      split_ifs at hn
      cases hn
      rfl
    exact ⟨⟨hr.flushed, hr.newline, hr.blank⟩, ho, by simp [Encoder.output, hbytes], hs⟩

/-- **every sequence of tokens that an encoder accepts is what a decoder reads from its output, and
then the input ends**: the tokens are the same up to the replacement of invalid UTF-8, and a
container left open makes the end of the input an unexpected one -/
theorem round_trip (options : Options) (tokens : List Token) (e e' : Encoder)
    (hnew : Encoder.new options = .ok e ∨ ∃ script, Encoder.withWriter script options = .ok e)
    (h : Encoder.writeTokens tokens e = (.ok (), e')) :
    (Decoder.run (List.replicate tokens.length .readToken ++ [.readToken, .finish])
        (Decoder.fromSliceWithOptions e'.output options)).map Prod.fst
      = tokens.map (fun t => Decoder.Answer.token (.ok (t.readBack options)))
        ++ [.token (.error (Decoder.endError e'.output.length e'.stack)), .done (.ok ())] := by
  obtain ⟨hr, ho, hout, hs⟩ : e.Ready ∧ e.options = options ∧ e.output = [] ∧ e.stack = [] := by
    rcases hnew with hn | ⟨script, hn⟩
    · exact ready_of_new hn
    · exact ready_of_withWriter hn
  have hstart : Decoder.At options e'.output 0 e.stack
      (Decoder.fromSliceWithOptions e'.output options) :=
    ⟨⟨rfl, rfl, rfl⟩, rfl, rfl, hs.symm, rfl, rfl⟩
  obtain ⟨pos, sep, d, h1, h2, h3, h4, h5⟩ := @Decoder.reads_tokens e'.output
    _ _ _ _ hr ho h e'.output [] 0 (by rw [hout, List.nil_append]) rfl
    (fun b hb => (nomatch hb))
    (Nat.zero_le _) [.readToken, .finish] _ hstart
  obtain ⟨hend, hd1⟩ := Decoder.gives_readToken_end h1 h2 h3 d h4
  obtain ⟨hfin, -⟩ := Decoder.gives_finish_end h1 h2 h3 (Decoder.readToken d).2 hd1
  rw [h5]
  congr 1
  show [Decoder.Answer.token (Decoder.readToken d).1,
    .done (Decoder.finish (Decoder.readToken d).2).1] = _
  rw [hend, hfin]

/-- two top-level values, indented by two spaces -/
def sampleTokens : List Token :=
  [.beginObject, .string [0x61, 0x0A], .beginArray, .number [0x2D, 0x31, 0x65, 0x32], .null,
    .endArray, .endObject, .number [0x30]]

def sampleOptions : Options := ⟨some [0x20, 0x20], none, none, none⟩

def sampleEncoder : Encoder where
  bytes := []
  base := 0
  rootCount := 0
  flushed := 0
  stack := []
  options := sampleOptions
  sink := none
  omitTopLevelNewline := false

theorem round_trip_sample :
    Encoder.new sampleOptions = .ok sampleEncoder ∧
    (Encoder.writeTokens sampleTokens sampleEncoder).1 = .ok () ∧
    (Decoder.run (List.replicate 8 .readToken ++ [.readToken, .finish])
        (Decoder.fromSliceWithOptions
          (Encoder.writeTokens sampleTokens sampleEncoder).2.output sampleOptions)).map Prod.fst
      = sampleTokens.map (fun t => Decoder.Answer.token (.ok (t.readBack sampleOptions)))
        ++ [.token (.error (Decoder.endError
          (Encoder.writeTokens sampleTokens sampleEncoder).2.output.length
          (Encoder.writeTokens sampleTokens sampleEncoder).2.stack)), .done (.ok ())] := by
  have hnew : Encoder.new sampleOptions = .ok sampleEncoder := rfl
  have hok : (Encoder.writeTokens sampleTokens sampleEncoder).1 = .ok () := rfl
  exact ⟨hnew, hok, round_trip sampleOptions sampleTokens sampleEncoder _ (.inl hnew)
    (Prod.ext hok rfl)⟩

end Tsr.Json
