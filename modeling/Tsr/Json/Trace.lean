import Tsr.Json.RoundTrip

/-!
# Json: accepted tokens

`next` succeeds exactly on a token of the grammar in its place (`gives_next`, `next_reads`); `Trace` is a run of tokens inside a container, each with
the text in front of it.

* `next_reads`     what a successful `next` has consumed, and its step on the stack;
* `gives_token`    such a token is read.
-/

set_option linter.unusedVariables false

namespace Tsr.Json
open Tsr.Lib Tsr.Lib.Fallible

variable {whole : Bytes} {p : Prop}
variable {b : UInt8} {piece : Bytes} {options : Options} {c c' : Cursor} {depth : Nat}
  {stack stack' : Stack} {token : Token} {text : Bytes} {tokens : List Token}

/-- the text that the encoder would choose -/
def CanonBody : Token → Bytes → Prop
  | .string d, body => ∃ t, body = 0x22 :: (t ++ [0x22]) ∧ CanonText t d
  | _, _ => True

/-! ## the text in front of a token -/

/-- in front of the byte at `start` stands what a token with that first byte needs -/
def LeadTo (whole : Bytes) (p : Prop) (stack : Stack) (pos start : Nat) : Prop :=
  ∃ lead, Reads whole pos lead start ∧ ∀ b, some b = whole[start]? →
    ((Kind.fromByte b).isEnd = true → closes (Kind.fromByte b) stack = true) →
    Lead stack (Kind.fromByte b) lead ∧
      (p → lead = (stack.delimiterOf (Kind.fromByte b)).toList)

theorem spaces_nil : Spaces [] := fun b hb => (nomatch hb)

/-- no object is closed between a name and its value -/
theorem closes_cons {kind : Kind} {f : Frame} {outer : Stack} (hend : kind.isEnd = true)
    (h : closes kind (f :: outer) = true) : ¬ (f.kind = .beginObject ∧ ¬ f.expectsName) := by
  rintro ⟨h1, h2⟩
  rcases closes_cases hend h with ⟨-, -, h3⟩ | ⟨-, h3⟩
  · exact h2 h3
  · rw [h1] at h3
    cases h3

theorem fromByte_closer (f : Frame) : (Kind.fromByte f.closer).isEnd = true := by
  rw [Frame.closer]
  split <;> rfl

theorem fromByte_isEnd (h : (Kind.fromByte b).isEnd = true) : b = 0x7D ∨ b = 0x5D := by
  cases hk : Kind.fromByte b with
  | endObject => exact .inl (fromByte_endObject hk)
  | endArray => exact .inr (fromByte_endArray hk)
  | _ => rw [hk] at h; simp [Kind.isEnd] at h

theorem finds_delimiter (f : Frame) (outer : Stack) (i : Nat) (v : Bytes) (hv : Spaces v) :
    Finds whole p (delimiter f i) (fun start => ∀ pos, Reads whole pos v i → (p → v = []) →
      LeadTo whole p (f :: outer) pos start) := by
  rw [delimiter]
  refine finds_bind (Input.finds_atIndex i) ?_
  intro ch
  split
  · next hname =>
    cases ch with
    | none => exact finds_fail _
    | some c =>
      dsimp only
      split
      · next hc =>
        subst hc
        refine (Input.finds_space (i + 1)).weaken ?_
        rintro start ⟨w, h1, h2, h3⟩ hat pos hpos hnil
        refine ⟨v ++ 0x3A :: w, hpos.append (h1.cons hat), ?_⟩
        intro b hb hend
        have hk : (Kind.fromByte b).isEnd = false := by
          by_contra hc
          rw [Bool.not_eq_false] at hc
          exact closes_cons hc (hend hc) hname
        have hd : Stack.delimiterOf (f :: outer) (Kind.fromByte b) = some 0x3A := by
          show f.delimiter _ = _
          rw [Frame.delimiter, hk, if_neg (by decide), if_pos hname]
        rw [Lead, hd]
        refine ⟨⟨v, w, hv, h2, rfl⟩, fun hp => ?_⟩
        rw [hnil hp, h3 hp]
        rfl
      · exact Input.finds_invalid i _ _
  · next hname =>
    split
    · next hcount =>
      cases ch with
      | none => exact finds_fail _
      | some c =>
        dsimp only
        split
        · next hc =>
          subst hc
          refine finds_bind (Input.finds_space (i + 1)) ?_
          intro start
          refine finds_bind (Input.finds_atIndex start) ?_
          intro ch'
          split
          · exact Input.finds_invalid start _ _
          · next hch =>
            refine finds_pure _ ?_
            rintro hb' ⟨w, h1, h2, h3⟩ hat pos hpos hnil
            refine ⟨v ++ 0x2C :: w, hpos.append (h1.cons hat), ?_⟩
            intro b hb hend
            have hk : (Kind.fromByte b).isEnd = false := by
              by_contra hc
              rw [Bool.not_eq_false] at hc
              apply hch
              rw [hb', ← hb]
              rcases fromByte_isEnd hc with rfl | rfl
              · exact .inl rfl
              · exact .inr rfl
            have hd : Stack.delimiterOf (f :: outer) (Kind.fromByte b) = some 0x2C := by
              show f.delimiter _ = _
              rw [Frame.delimiter, hk, if_neg (by decide), if_neg hname, if_pos hcount.1]
            rw [Lead, hd]
            refine ⟨⟨v, w, hv, h2, rfl⟩, fun hp => ?_⟩
            rw [hnil hp, h3 hp]
            rfl
        · exact Input.finds_invalid i _ _
    · next hcount =>
      refine finds_pure _ ?_
      intro hat pos hpos hnil
      refine ⟨v, hpos, ?_⟩
      intro b hb hend
      have hd : Stack.delimiterOf (f :: outer) (Kind.fromByte b) = none := by
        show f.delimiter _ = _
        rw [Frame.delimiter]
        by_cases hk : (Kind.fromByte b).isEnd = true
        · rw [if_pos hk]
        · rw [if_neg hk, if_neg hname, if_neg]
          intro hc
          -- the container has a token, so the byte is its closer
          have hcl : ch = some f.closer := by
            by_contra hne
            exact hcount ⟨hc, hne⟩
          rw [hcl, ← hb] at hat
          cases hat
          exact hk (fromByte_closer f)
      rw [Lead, hd]
      exact ⟨⟨v, [], hv, spaces_nil, by simp⟩, fun hp => by rw [hnil hp]; rfl⟩

theorem finds_prepareInner (pos : Nat) (stack : Stack) :
    Finds whole p (prepareInner pos stack) (fun start => LeadTo whole p stack pos start) := by
  rw [prepareInner]
  refine finds_bind (Input.finds_space pos) ?_
  intro i
  cases stack with
  | nil =>
    refine finds_pure _ ?_
    rintro ⟨w, h1, h2, h3⟩
    refine ⟨w, h1, ?_⟩
    intro b hb hend
    exact ⟨⟨w, [], h2, spaces_nil, by simp [Stack.delimiterOf]⟩, fun hp => by rw [h3 hp]; rfl⟩
  | cons f outer =>
    intro s hs
    obtain ⟨h1, h2, -⟩ := finds_delimiter (p := p) f outer i [] spaces_nil s hs
    refine ⟨h1, h2, ?_⟩
    rintro start hok hp ⟨w, h3, h4, h5⟩
    obtain ⟨-, -, h6⟩ := finds_delimiter f outer i w h4 s hs
    exact h6 start hok hp pos h3 h5

/-! ## the token itself -/

theorem fromByte_string (h : Kind.fromByte b = .string) : b = 0x22 := by
  unfold Kind.fromByte at h
  split_ifs at h
  assumption

theorem fromByte_beginObject (h : Kind.fromByte b = .beginObject) : b = 0x7B := by
  unfold Kind.fromByte at h
  split_ifs at h
  assumption

theorem fromByte_beginArray (h : Kind.fromByte b = .beginArray) : b = 0x5B := by
  unfold Kind.fromByte at h
  split_ifs at h
  assumption

theorem Reads.slice {i j : Nat} (h : Reads whole i piece j) :
    (whole.take j).drop i = piece := by
  rw [List.drop_take, h.1, h.2, Nat.add_sub_cancel_left, List.take_left]

/-- what `scanToken` has found -/
def Scanned (whole : Bytes) (p : Prop) (allow decode : Bool) (kind : Kind) (start : Nat)
    (r : Token × Nat) : Prop :=
  ∃ token body, Reads whole start body r.2 ∧ BodyText allow token body ∧ token.kind = kind ∧
    r.1 = (if decode then token else token.bare) ∧ (p → CanonBody token body)

theorem finds_word (start : Nat) (word : Bytes) (token : Token) (allow decode : Bool)
    (hword : token.text = word) (hbare : token.bare = token)
    (hbody : BodyText allow token word) (hcanon : CanonBody token word) :
    Finds whole p (do let stop ← Input.literal start word ""; pure (token, stop))
      (Scanned whole p allow decode token.kind start) := by
  refine finds_bind (Input.finds_literal start word "") ?_
  intro stop
  refine finds_pure _ ?_
  intro h
  refine ⟨token, word, h, hbody, rfl, ?_, fun _ => hcanon⟩
  rw [hbare]
  split <;> rfl

theorem finds_scanToken {start : Nat} (options : Options) (decode : Bool)
    (hb : some b = whole[start]?) :
    Finds whole p (scanToken (Kind.fromByte b) start options decode)
      (Scanned whole p options.invalidUtf8 decode (Kind.fromByte b) start) := by
  have hlt : start < whole.length := (List.getElem?_eq_some_iff.1 hb.symm).1
  cases hk : Kind.fromByte b with
  | string =>
    obtain rfl := fromByte_string hk
    cases decode with
    | true =>
      show Finds whole p (Input.string start "" options.invalidUtf8 >>= fun r =>
        pure (Token.string r.1, r.2)) _
      refine finds_bind (Q := fun (r : Bytes × Nat) => ∃ t,
        Reads whole (start + 1) (t ++ [0x22]) r.2 ∧ SpelledText options.invalidUtf8 t r.1 ∧
          (p → CanonText t r.1)) ?_ ?_
      · rw [Input.string]
        refine finds_bind (Input.finds_stringInto start "" options.invalidUtf8 (some []) hlt) ?_
        rintro ⟨stop, out⟩
        refine finds_pure _ ?_
        rintro ⟨t, d, h1, rfl, h3, h4⟩
        exact ⟨t, h1, h3, h4⟩
      · rintro ⟨d, stop⟩
        refine finds_pure _ ?_
        rintro ⟨t, h1, h2, h3⟩
        exact ⟨.string d, _, h1.cons hb, ⟨t, rfl, h2⟩, rfl, rfl, fun hp => ⟨t, rfl, h3 hp⟩⟩
    | false =>
      show Finds whole p (Input.stringInto start "" options.invalidUtf8 none >>= fun r =>
        pure (Token.string [], r.1)) _
      refine finds_bind (Input.finds_stringInto start "" options.invalidUtf8 none hlt) ?_
      rintro ⟨stop, out⟩
      refine finds_pure _ ?_
      rintro ⟨t, d, h1, -, h3, h4⟩
      exact ⟨.string d, _, h1.cons hb, ⟨t, rfl, h3⟩, rfl, rfl, fun hp => ⟨t, rfl, h4 hp⟩⟩
  | number =>
    show Finds whole p (Input.number start "" >>= fun stop => Input.slice start stop >>= fun text =>
      pure (Token.number text, stop)) _
    refine finds_bind (Input.finds_number start "") ?_
    intro stop
    refine finds_bind (Q := fun text => text = (whole.take stop).drop start)
      (finds_read fun s hs => by rw [hs.1]) ?_
    intro text
    refine finds_pure _ ?_
    rintro htext ⟨t, h1, h2⟩
    rw [h1.slice] at htext
    subst htext
    refine ⟨.number text, text, h1, ⟨rfl, h2⟩, rfl, ?_, fun _ => trivial⟩
    cases decode <;> rfl
  | null => exact finds_word start nullText .null _ _ rfl rfl rfl trivial
  | true => exact finds_word start trueText (.boolean true) _ _ rfl rfl rfl trivial
  | false => exact finds_word start falseText (.boolean false) _ _ rfl rfl rfl trivial
  | beginObject =>
    obtain rfl := fromByte_beginObject hk
    refine finds_pure _ ⟨.beginObject, [0x7B], reads_one hb, rfl, rfl, ?_, fun _ => trivial⟩
    cases decode <;> rfl
  | beginArray =>
    obtain rfl := fromByte_beginArray hk
    refine finds_pure _ ⟨.beginArray, [0x5B], reads_one hb, rfl, rfl, ?_, fun _ => trivial⟩
    cases decode <;> rfl
  | endObject => exact Input.finds_invalid start _ _
  | endArray => exact Input.finds_invalid start _ _
  | invalid => exact Input.finds_invalid start _ _

/-! ## one token -/

/-- what a successful `next` tells about the text and the stack; `c` is the cursor before it -/
structure Took (whole : Bytes) (p : Prop) (options : Options) (depth : Nat) (keep : Bool)
    (c c' : Cursor) (r : Token × Nat) (token : Token) (lead body : Bytes) : Prop where
  slice : Slice whole c'.input
  flag : c'.input.noncanonical = false → c.input.noncanonical = false
  value : r.1 = (if keep || c.stack.expectsName then token else token.bare)
  start : Reads whole c.pos lead r.2
  stop : Reads whole r.2 body c'.pos
  before : Lead c.stack token.kind lead
  text : BodyText options.invalidUtf8 token body
  step : stepStack options depth c.stack token = some c'.stack
  canon : p → lead = (c.stack.delimiterOf token.kind).toList ∧ CanonBody token body

theorem endToken_text (allow : Bool) (h : (Kind.fromByte b).isEnd = true) :
    (endToken (Kind.fromByte b)).kind = Kind.fromByte b ∧
      BodyText allow (endToken (Kind.fromByte b)) [b] ∧
      CanonBody (endToken (Kind.fromByte b)) [b] ∧
      (endToken (Kind.fromByte b)).bare = endToken (Kind.fromByte b) := by
  rcases fromByte_isEnd h with rfl | rfl
  · exact ⟨rfl, rfl, trivial, rfl⟩
  · exact ⟨rfl, rfl, trivial, rfl⟩

/-- the end of `next`: the input is left alone, the stack takes its step -/
theorem enter_ok {kind : Kind} {start : Nat} {scanned r : Token × Nat} {stack : Stack}
    (h : (if stack.expectsName then do
        enterName options start scanned.1.text
        change (advance kind scanned.2)
        pure (scanned.1, start)
      else do
        change (advance kind scanned.2)
        pure (scanned.1, start) : Scanner (Token × Nat)) c = (.ok r, c'))
    (hstack : c.stack = stack) :
    c'.input = c.input ∧ r = (scanned.1, start) ∧ c'.pos = scanned.2 ∧
      if stack.expectsName then (stack.checkName options scanned.1.text).1 = true ∧
        c'.stack = (((stack.checkName options scanned.1.text).2.setName
          scanned.1.text).countOne.pushKind kind)
      else c'.stack = stack.countOne.pushKind kind := by
  subst hstack
  by_cases hexp : c.stack.expectsName = true
  · rw [if_pos hexp] at h ⊢
    obtain ⟨_, c1, h1, h⟩ := bind_eq_ok h
    obtain ⟨_, _, h2, h1⟩ := bind_eq_ok h1
    cases h2
    obtain ⟨_, _, h2, h1⟩ := bind_eq_ok h1
    cases h2
    split_ifs at h1 with hfresh
    · cases h1
      cases h
      exact ⟨rfl, rfl, rfl, hfresh, rfl⟩
    · cases h1
  · rw [if_neg hexp] at h ⊢
    cases h
    exact ⟨rfl, rfl, rfl, rfl⟩

/-- **a token that `next` accepts is one of the grammar, in its place** -/
theorem next_reads {keep : Bool}
    {r : Token × Nat} (hs : Slice whole c.input)
    (h : next options depth keep c = (.ok r, c')) (hp : p → c'.input.noncanonical = false) :
    ∃ token lead body, Took whole p options depth keep c c' r token lead body := by
  have h := mapError_eq_ok h
  obtain ⟨_, _, h1, h⟩ := bind_eq_ok h
  cases h1
  obtain ⟨_, _, h1, h⟩ := bind_eq_ok h
  cases h1
  obtain ⟨start, c1, h1, h⟩ := bind_eq_ok h
  obtain ⟨inp1, hprep, rfl⟩ := onPart_eq_ok h1
  obtain ⟨b, c2, h2, h⟩ := bind_eq_ok h
  obtain ⟨inp2, hbyte, rfl⟩ := onPart_eq_ok h2
  obtain ⟨s1, m1, f1⟩ := (finds_prepareInner (p := p) c.pos c.stack).of_ok hs hprep
  obtain ⟨s2, m2, f2⟩ := (Input.finds_atIndex (p := False) start).of_ok s1 hbyte
  have hat := f2 (fun hc => absurd hc id)
  cases b with
  | none => cases h
  | some b =>
    dsimp only at h
    by_cases hend : (Kind.fromByte b).isEnd = true
    · rw [if_pos hend] at h
      obtain ⟨_, _, h3, h⟩ := bind_eq_ok h
      cases h3
      dsimp only at h
      split_ifs at h with hcl
      · cases h
        obtain ⟨lead, hlead, hl⟩ := f1 fun hc => m2 (hp hc)
        obtain ⟨hl1, hl2⟩ := hl b hat fun _ => hcl
        obtain ⟨hk, hbody, hcanon, hbare⟩ := endToken_text options.invalidUtf8 hend
        refine ⟨endToken (Kind.fromByte b), lead, [b], s2, fun hn => m1 (m2 hn), ?_, hlead,
          reads_one hat, by rw [hk]; exact hl1, hbody, ?_, ?_⟩
        · rw [hbare]
          split <;> rfl
        · rw [stepStack, hk, if_pos hend, if_pos hcl]
        · intro hc
          rw [hk]
          exact ⟨hl2 hc, hcanon⟩
      · obtain ⟨inp3, h4, -⟩ := onPart_eq_ok h
        cases h4
    rw [if_neg hend] at h
    by_cases hname : c.stack.expectsName = true ∧ Kind.fromByte b ≠ .string
    · rw [if_pos hname] at h
      cases h
    rw [if_neg hname] at h
    by_cases hdepth : (Kind.fromByte b).isBegin = true ∧ 10000 ≤ depth + c.stack.length
    · rw [if_pos hdepth] at h
      cases h
    rw [if_neg hdepth] at h
    obtain ⟨scanned, c3, h3, h⟩ := bind_eq_ok h
    obtain ⟨inp3, hscan, rfl⟩ := onPart_eq_ok h3
    obtain ⟨s3, m3, f3⟩ := (finds_scanToken (p := p) options _ hat).of_ok s2 hscan
    obtain ⟨hin, rfl, hpos, hstack⟩ := enter_ok h rfl
    rw [hin] at hp
    obtain ⟨lead, hlead, hl⟩ := f1 fun hc => m2 (m3 (hp hc))
    obtain ⟨hl1, hl2⟩ := hl b hat fun hc => absurd hc hend
    obtain ⟨token, body, hread, hbody, hk, hval, hcanon⟩ := f3 hp
    refine ⟨token, lead, body, by rw [hin]; exact s3, ?_, hval, hlead,
      by rw [hpos]; exact hread, by rw [hk]; exact hl1, hbody, ?_, ?_⟩
    · intro hn
      rw [hin] at hn
      exact m1 (m2 (m3 hn))
    · rw [stepStack, hk, if_neg hend, if_neg hname, if_neg hdepth]
      by_cases hexp : c.stack.expectsName = true
      · rw [if_pos hexp] at hstack ⊢
        have htoken : scanned.1 = token := by
          rw [hval, hexp, Bool.or_true, if_pos rfl]
        rw [htoken] at hstack
        rw [if_pos hstack.1, hstack.2]
      · rw [if_neg hexp] at hstack ⊢
        rw [hstack]
    · intro hc
      rw [hk]
      exact ⟨hl2 hc, hcanon hc⟩

/-! ## runs of tokens -/

/-- a token in its place; `piece` is its text with what stands in front of it -/
def TokenStep (p : Prop) (options : Options) (depth : Nat) (stack : Stack) (token : Token)
    (piece : Bytes) (stack' : Stack) : Prop :=
  ∃ lead body, piece = lead ++ body ∧ Lead stack token.kind lead ∧
    BodyText options.invalidUtf8 token body ∧ stepStack options depth stack token = some stack' ∧
    (p → lead = (stack.delimiterOf token.kind).toList ∧ CanonBody token body)

/-- tokens one after the other, as long as a container is open -/
inductive Trace (p : Prop) (options : Options) (depth : Nat) :
    Stack → Bytes → List Token → Stack → Prop where
  | nil (stack : Stack) : Trace p options depth stack [] [] stack
  | cons {stack stack1 stack2 : Stack} {token : Token} {piece text : Bytes} {tokens : List Token}
      (hopen : stack ≠ []) (hstep : TokenStep p options depth stack token piece stack1)
      (h : Trace p options depth stack1 text tokens stack2) :
      Trace p options depth stack (piece ++ text) (token :: tokens) stack2

/-- a complete value: its first token, and the others while a container is open -/
def ValueTrace (p : Prop) (options : Options) (depth : Nat) (text : Bytes) (tokens : List Token) :
    Prop :=
  ∃ token piece stack rest more, text = piece ++ rest ∧ tokens = token :: more ∧
    TokenStep p options depth [] token piece stack ∧ Trace p options depth stack rest more []

theorem TokenStep.length_pos (h : TokenStep p options depth stack token piece stack') :
    0 < piece.length := by
  obtain ⟨lead, body, rfl, -, hbody, -⟩ := h
  obtain ⟨b, tail, rfl, -⟩ := body_head hbody
  simp

theorem Took.tokenStep {keep : Bool}
    {r : Token × Nat} {lead body : Bytes}
    (h : Took whole p options depth keep c c' r token lead body) :
    TokenStep p options depth c.stack token (lead ++ body) c'.stack ∧
      Reads whole c.pos (lead ++ body) c'.pos :=
  ⟨⟨lead, body, rfl, h.before, h.text, h.step, h.canon⟩, h.start.append h.stop⟩

theorem Reads.le {i j : Nat} (h : Reads whole i piece j) (hne : 0 < piece.length) :
    j ≤ whole.length := by
  have h1 := congrArg List.length h.1
  have h2 := h.2
  rw [List.length_append, List.length_drop, List.length_drop] at h1
  omega

theorem Trace.length_le (h : Trace p options depth stack text tokens stack') :
    tokens.length ≤ text.length := by
  induction h with
  | nil => exact le_refl _
  | cons hopen hstep h ih =>
    have := hstep.length_pos
    rw [List.length_cons, List.length_append]
    omega

theorem stepStack_shallow
    (h : stepStack options depth stack token = some stack') :
    stepStack options 0 stack token = some stack' := by
  rw [stepStack] at h ⊢
  by_cases hb : token.kind.isBegin = true ∧ 10000 ≤ depth + stack.length
  · rw [if_pos hb] at h
    split_ifs at h with h1 h2
    rw [if_pos h1, if_pos h2]
    exact h
  · have hb' : ¬ (token.kind.isBegin = true ∧ 10000 ≤ 0 + stack.length) :=
      fun hc => hb ⟨hc.1, by omega⟩
    rw [if_neg hb] at h
    rw [if_neg hb']
    exact h

/-- a run of tokens under other containers is one at the top level -/
theorem Trace.shallow (h : Trace p options depth stack text tokens stack') :
    Trace p options 0 stack text tokens stack' := by
  induction h with
  | nil stack => exact .nil stack
  | cons hopen hstep h ih =>
    obtain ⟨lead, body, hpiece, hlead, hbody, hst, hcanon⟩ := hstep
    exact .cons hopen ⟨lead, body, hpiece, hlead, hbody, stepStack_shallow hst, hcanon⟩ ih

/-- a run of tokens, whatever its spelling -/
theorem Trace.forget (h : Trace p options depth stack text tokens stack') :
    Trace False options depth stack text tokens stack' := by
  induction h with
  | nil stack => exact .nil stack
  | cons hopen hstep h ih =>
    obtain ⟨lead, body, hpiece, hlead, hbody, hst, -⟩ := hstep
    exact .cons hopen ⟨lead, body, hpiece, hlead, hbody, hst, fun hc => absurd hc id⟩ ih

/-- **the tokens that `skipLoop` consumes**; its fuel does not run out -/
theorem skipLoop_reads {depth fuel : Nat}
    (hs : Slice whole c.input) (hpos : c.pos ≤ whole.length) (hfuel : whole.length < c.pos + fuel)
    (h : Decoder.skipLoop options depth fuel c = (.ok (), c'))
    (hp : p → c'.input.noncanonical = false) :
    Slice whole c'.input ∧ (c'.input.noncanonical = false → c.input.noncanonical = false) ∧
      c'.stack = [] ∧ c'.pos ≤ whole.length ∧
      ∃ text tokens, Trace p options depth c.stack text tokens [] ∧
        Reads whole c.pos text c'.pos := by
  induction fuel generalizing c with
  | zero => omega
  | succ fuel ih =>
    rw [Decoder.skipLoop] at h
    obtain ⟨_, _, h1, h⟩ := bind_eq_ok h
    cases h1
    split_ifs at h with hempty
    · have hnil : c.stack = [] := List.isEmpty_iff.1 hempty
      cases h
      refine ⟨hs, id, hnil, hpos, [], [], ?_, reads_nil _⟩
      rw [hnil]
      exact .nil []
    · obtain ⟨r, c1, h1, h⟩ := bind_eq_ok h
      obtain ⟨token, lead, body, ht⟩ := next_reads (p := False) hs h1 (fun hc => absurd hc id)
      obtain ⟨hstep, hread⟩ := ht.tokenStep
      have hlen := hstep.length_pos
      have h2 := hread.2
      obtain ⟨h3, h4, h5, h6, text, tokens, h7, h8⟩ := ih ht.slice (hread.le hlen) (by omega) h
      obtain ⟨token', lead', body', ht'⟩ := next_reads hs h1 (fun hc => h4 (hp hc))
      obtain ⟨hstep', hread'⟩ := ht'.tokenStep
      refine ⟨h3, fun hn => ht.flag (h4 hn), h5, h6, _, _, .cons ?_ hstep' h7, hread'.append h8⟩
      intro hnil
      rw [hnil] at hempty
      exact hempty rfl

/-- what follows a number inside a value -/
theorem Trace.stops {stack : Stack} {text rest : Bytes} (h : Trace p options depth stack text tokens [])
    (hstack : stack = [] ∨ stack.Begun) (hrest : Input.Stops rest) : Input.Stops (text ++ rest) := by
  cases h with
  | nil => exact hrest
  | @cons _ _ _ _ _ text _ hopen hstep h =>
    obtain ⟨lead, body, rfl, hlead, hbody, -⟩ := hstep
    rcases hstack with hnil | hbegun
    · exact absurd hnil hopen
    · have := stops_token (text ++ rest) hbegun hlead hbody
      simpa using this

/-- a token of a run is read, whatever is kept of it -/
theorem gives_step {depth pos : Nat}
    {piece text rest : Bytes} (keep : Bool)
    (hstep : TokenStep p options depth stack token piece stack')
    (h : Trace p options depth stack' text tokens [])
    (hdrop : whole.drop pos = piece ++ (text ++ rest)) (hrest : Input.Stops rest) :
    ∃ start, Gives (Cursor.At whole pos stack) (next options depth keep)
      (.ok (if keep || stack.expectsName then token else token.bare, start))
      (Cursor.At whole (pos + piece.length) stack') := by
  obtain ⟨lead, body, rfl, hlead, hbody, hst, -⟩ := hstep
  rw [List.append_assoc] at hdrop
  have hnext := gives_next options keep hdrop hlead hbody
    (fun hk => h.stops (begun_of_number hk hst) hrest) hst
  rw [List.length_append, ← Nat.add_assoc]
  exact ⟨_, hnext⟩

/-- **a run of tokens is skipped** -/
theorem gives_skipLoop {options : Options} {depth fuel pos : Nat} {stack : Stack}
    {text rest : Bytes} {tokens : List Token} (h : Trace p options depth stack text tokens [])
    (hdrop : whole.drop pos = text ++ rest) (hrest : Input.Stops rest)
    (hfuel : text.length < fuel) :
    Gives (Cursor.At whole pos stack) (Decoder.skipLoop options depth fuel) (.ok ())
      (Cursor.At whole (pos + text.length) []) := by
  obtain ⟨final, hfinal⟩ : ∃ final : Stack, final = [] := ⟨[], rfl⟩
  rw [← hfinal] at h
  induction h generalizing fuel pos with
  | nil stack =>
    obtain ⟨fuel, rfl⟩ : ∃ n, fuel = n + 1 := ⟨fuel - 1, by omega⟩
    subst hfinal
    rw [Decoder.skipLoop]
    refine gives_bind (a := []) (gives_read fun c hc => hc.2.2) ?_
    exact gives_pure _
  | @cons stack stack1 stack2 token piece text tokens hopen hstep h ih =>
    obtain ⟨fuel, rfl⟩ : ∃ n, fuel = n + 1 := ⟨fuel - 1, by omega⟩
    subst hfinal
    rw [List.append_assoc] at hdrop
    obtain ⟨start, hnext⟩ := gives_step false hstep h hdrop hrest
    have hlen := hstep.length_pos
    have hloop := @ih fuel _ (Input.drop_add hdrop)
      (by rw [List.length_append] at hfuel; omega) rfl
    rw [Decoder.skipLoop]
    refine gives_bind (a := stack) (gives_read fun c hc => hc.2.2) ?_
    rw [if_neg (by simpa using hopen), List.length_append, ← Nat.add_assoc]
    exact gives_bind hnext hloop

end Tsr.Json
