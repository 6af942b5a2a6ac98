import Tsr.Json.Inversion
import Tsr.Json.Encoder

/-!
# Json: one token on a complete slice

The grammar of a token in its place: `Lead` is the space and the delimiter in front of it, `Body`
its own text, `stepStack` what it does to the open containers.  `gives_next` is the scanner on such
a token.
-/

namespace Tsr.Json
open Tsr.Lib Tsr.Lib.Fallible

/-! ## the grammar of tokens -/

namespace Stack

/-- the delimiter in front of a token of this kind -/
def delimiterOf (stack : Stack) (kind : Kind) : Option UInt8 :=
  stack.head?.bind fun f => f.delimiter kind

end Stack

/-- what may stand in front of a token: space, the delimiter it needs, and space -/
def Lead (stack : Stack) (kind : Kind) (lead : Bytes) : Prop :=
  ∃ v w, Spaces v ∧ Spaces w ∧ lead = v ++ ((stack.delimiterOf kind).toList ++ w)

/-- the text of a token -/
def Body : Token → Bytes → Prop
  | .string d, body => ∃ t, body = 0x22 :: (t ++ [0x22]) ∧ StringText t d
  | .number t, body => body = t ∧ NumberText t
  | token, body => body = token.text

/-- the text of a token under either policy for invalid strings -/
def BodyText (allow : Bool) : Token → Bytes → Prop
  | .string d, body => ∃ t, body = 0x22 :: (t ++ [0x22]) ∧ SpelledText allow t d
  | .number t, body => body = t ∧ NumberText t
  | token, body => body = token.text

theorem Body.text {token : Token} {body : Bytes} (allow : Bool) (h : Body token body) :
    BodyText allow token body := by
  cases token with
  | string d =>
    obtain ⟨t, h1, h2⟩ := h
    exact ⟨t, h1, h2.spelled allow⟩
  | _ => exact h

/-- a new container is opened on the stack -/
def Stack.pushKind (kind : Kind) (stack : Stack) : Stack :=
  if kind.isBegin then Frame.new kind :: stack else stack

/-- the open containers after a token, if it can stand here -/
def stepStack (options : Options) (depth : Nat) (stack : Stack) (token : Token) : Option Stack :=
  if token.kind.isEnd then
    if closes token.kind stack then some stack.tail else none
  else if stack.expectsName ∧ token.kind ≠ .string then none
  else if token.kind.isBegin ∧ 10000 ≤ depth + stack.length then none
  else if stack.expectsName then
    if (stack.checkName options token.text).1 then
      some (((stack.checkName options token.text).2.setName token.text).countOne.pushKind token.kind)
    else none
  else some (stack.countOne.pushKind token.kind)

/-! ## first bytes -/

theorem fromByte_space {b : UInt8} (h : Kind.fromByte b ≠ .invalid) : Input.isSpace b = false := by
  by_contra hs
  apply h
  simp only [Input.isSpace, Bool.not_eq_false, Bool.or_eq_true, decide_eq_true_eq] at hs
  rcases hs with ((rfl | rfl) | rfl) | rfl
  · rfl
  · rfl
  · rfl
  · rfl

theorem fromByte_endObject {b : UInt8} (h : Kind.fromByte b = .endObject) : b = 0x7D := by
  unfold Kind.fromByte at h
  split_ifs at h
  assumption

theorem fromByte_endArray {b : UInt8} (h : Kind.fromByte b = .endArray) : b = 0x5D := by
  unfold Kind.fromByte at h
  split_ifs at h
  assumption

theorem fromByte_digit {b : UInt8} (h : isDigit b = true) : Kind.fromByte b = .number := by
  simp only [isDigit, Bool.and_eq_true, decide_eq_true_eq, UInt8.le_iff_toNat_le,
    UInt8.reduceToNat] at h
  simp only [Kind.fromByte, ← UInt8.toNat_inj, UInt8.reduceToNat, isDigit, Bool.and_eq_true,
    decide_eq_true_eq, UInt8.le_iff_toNat_le]
  rw [if_neg (by omega), if_neg (by omega), if_neg (by omega), if_neg (by omega), if_pos (by omega)]

theorem numberText_head {t : Bytes} (h : NumberText t) :
    ∃ b rest, t = b :: rest ∧ Kind.fromByte b = .number := by
  obtain ⟨sign, int, frac, exp, rfl, hsign, hint, -, -⟩ := h
  rcases hsign with rfl | rfl
  · obtain _ | ⟨b, ds⟩ := int
    · exact absurd rfl hint.ne_nil
    · exact ⟨b, _, rfl, fromByte_digit (hint.digit b List.mem_cons_self)⟩
  · exact ⟨0x2D, _, rfl, rfl⟩

/-- the first byte of a token tells its kind -/
theorem body_head {allow : Bool} {token : Token} {body : Bytes} (h : BodyText allow token body) :
    ∃ b rest, body = b :: rest ∧ Kind.fromByte b = token.kind := by
  cases token with
  | null => exact ⟨_, _, h, rfl⟩
  | boolean value =>
    cases value with
    | false => exact ⟨_, _, h, rfl⟩
    | true => exact ⟨_, _, h, rfl⟩
  | string d =>
    obtain ⟨t, h, -⟩ := h
    exact ⟨_, _, h, rfl⟩
  | number t =>
    obtain ⟨h, ht⟩ := h
    rw [h]
    exact numberText_head ht
  | beginObject => exact ⟨_, _, h, rfl⟩
  | endObject => exact ⟨_, _, h, rfl⟩
  | beginArray => exact ⟨_, _, h, rfl⟩
  | endArray => exact ⟨_, _, h, rfl⟩

theorem token_kind_ne_invalid (token : Token) : token.kind ≠ .invalid := by
  cases token with
  | boolean value => cases value <;> simp [Token.kind]
  | _ => simp [Token.kind]

/-! ## delimiters -/

variable {whole : Bytes}

/-- space up to a byte that is none -/
theorem gives_space_to {pos : Nat} {w rest : Bytes} {b : UInt8}
    (h : whole.drop pos = w ++ b :: rest) (hw : Spaces w) (hb : Input.isSpace b = false) :
    Gives (Slice whole) (Input.space pos) (.ok (pos + w.length)) (Slice whole) := by
  have hlen := Input.length_of_drop h
  simp only [List.length_cons] at hlen
  exact Input.gives_space h hw (by simpa using hb) (by omega)

/-- an end token closes a container of its kind, an object only before a name -/
theorem closes_cases {kind : Kind} {f : Frame} {outer : Stack} (hend : kind.isEnd = true)
    (h : closes kind (f :: outer) = true) :
    (kind = .endObject ∧ f.kind = .beginObject ∧ f.expectsName = true) ∨
      (kind = .endArray ∧ f.kind = .beginArray) := by
  cases kind with
  | endObject =>
    simp only [closes, Stack.topKind, Stack.expectsName, if_true, List.head?_cons, Option.map_some,
      Option.any_some, Bool.and_eq_true, decide_eq_true_eq, Option.some.injEq] at h
    exact .inl ⟨rfl, h⟩
  | endArray =>
    simp only [closes, Stack.topKind, List.head?_cons, Option.map_some] at h
    exact .inr ⟨rfl, by simpa using h⟩
  | _ => simp [Kind.isEnd] at hend

/-- an end token needs no delimiter, when it closes the container -/
theorem gives_delimiter_end {f : Frame} {outer : Stack} {kind : Kind} {i : Nat} {b : UInt8}
    {rest : Bytes} (h : whole.drop i = b :: rest) (hk : Kind.fromByte b = kind)
    (hend : kind.isEnd = true) (hc : closes kind (f :: outer) = true) :
    Gives (Slice whole) (delimiter f i) (.ok i) (Slice whole) := by
  rw [delimiter]
  refine gives_bind (Input.gives_head h) ?_
  rw [List.head?_cons]
  have hcase : (f.kind = .beginObject ∧ f.expectsName = true ∧ b = 0x7D) ∨
      (f.kind = .beginArray ∧ b = 0x5D) := by
    rcases closes_cases hend hc with ⟨rfl, h1, h2⟩ | ⟨rfl, h1⟩
    · exact .inl ⟨h1, h2, fromByte_endObject hk⟩
    · exact .inr ⟨h1, fromByte_endArray hk⟩
  rcases hcase with ⟨h1, h2, rfl⟩ | ⟨h1, rfl⟩
  · rw [if_neg (by simp [h2]), if_neg (by simp [Frame.closer, h1])]
    exact gives_pure _
  · rw [if_neg (by simp [h1]), if_neg (by simp [Frame.closer, h1])]
    exact gives_pure _

/-- the delimiter of a token that is no end token -/
theorem gives_delimiter {f : Frame} {kind : Kind} {i : Nat} {b : UInt8} {w rest : Bytes}
    (h : whole.drop i = (f.delimiter kind).toList ++ (w ++ b :: rest))
    (hw : Spaces w) (hnone : f.delimiter kind = none → w = []) (hk : Kind.fromByte b = kind)
    (hend : kind.isEnd = false) (hv : kind ≠ .invalid) :
    Gives (Slice whole) (delimiter f i)
      (.ok (i + ((f.delimiter kind).toList ++ w).length)) (Slice whole) := by
  have hsp : Input.isSpace b = false := fromByte_space (by rw [hk]; exact hv)
  have hb1 : b ≠ 0x7D := by rintro rfl; rw [← hk] at hend; exact absurd hend (by decide)
  have hb2 : b ≠ 0x5D := by rintro rfl; rw [← hk] at hend; exact absurd hend (by decide)
  rw [delimiter]
  by_cases hname : f.kind = .beginObject ∧ ¬ f.expectsName
  · have hd : f.delimiter kind = some 0x3A := by
      rw [Frame.delimiter, hend, if_neg (by decide), if_pos hname]
    rw [hd] at h ⊢
    refine gives_bind (Input.gives_head h) ?_
    rw [if_pos hname]
    have := gives_space_to (Input.drop_succ h) hw hsp
    simpa [Nat.add_comm, Nat.add_left_comm] using this
  by_cases hcount : 0 < f.count
  · have hd : f.delimiter kind = some 0x2C := by
      rw [Frame.delimiter, hend, if_neg (by decide), if_neg hname, if_pos hcount]
    have hcl : (some 0x2C : Option UInt8) ≠ some f.closer := by
      rw [Frame.closer]
      split <;> decide
    rw [hd] at h ⊢
    refine gives_bind (Input.gives_head h) ?_
    rw [if_neg hname, if_pos ⟨hcount, hcl⟩]
    refine gives_bind (gives_space_to (Input.drop_succ h) hw hsp) ?_
    have hnext := @Input.drop_add _ _ w _ (Input.drop_succ h)
    refine gives_bind (Input.gives_head hnext) ?_
    rw [List.head?_cons, if_neg (by simp [hb1, hb2])]
    have hlen : i + ((some (0x2C : UInt8)).toList ++ w).length = i + 1 + w.length := by
      simp only [Option.toList_some, List.length_append, List.length_singleton]
      omega
    rw [hlen]
    exact gives_pure _
  · have hd : f.delimiter kind = none := by
      rw [Frame.delimiter, hend, if_neg (by decide), if_neg hname, if_neg hcount]
    rw [hd] at h ⊢
    rw [hnone hd] at h ⊢
    refine gives_bind (Input.gives_head h) ?_
    rw [if_neg hname, if_neg (by simp [hcount])]
    exact gives_pure _

/-- **the text in front of a token is consumed** -/
theorem gives_prepareInner {stack : Stack} {kind : Kind} {pos : Nat} {lead rest : Bytes} {b : UInt8}
    (h : whole.drop pos = lead ++ b :: rest) (hlead : Lead stack kind lead)
    (hk : Kind.fromByte b = kind) (hv : kind ≠ .invalid)
    (hend : kind.isEnd = true → closes kind stack = true) :
    Gives (Slice whole) (prepareInner pos stack) (.ok (pos + lead.length)) (Slice whole) := by
  obtain ⟨v, w, hsv, hsw, rfl⟩ := hlead
  have hsp : Input.isSpace b = false := fromByte_space (by rw [hk]; exact hv)
  rw [prepareInner]
  cases hd : stack.delimiterOf kind with
  | none =>
    -- without a delimiter the two runs of space are one
    have hall : whole.drop pos = (v ++ w) ++ b :: rest := by simpa [hd] using h
    refine gives_bind (gives_space_to hall (hsv.append hsw) hsp) ?_
    cases stack with
    | nil => exact gives_pure _
    | cons f outer =>
      have hdf : f.delimiter kind = none := hd
      have hnext := Input.drop_add hall
      cases he : kind.isEnd with
      | true => exact gives_delimiter_end hnext hk he (hend he)
      | false =>
        have := gives_delimiter (f := f) (w := []) (by rw [hdf]; exact hnext)
          (fun b hb => (nomatch hb)) (fun _ => rfl) hk he hv
        simpa [hdf] using this
  | some c =>
    cases stack with
    | nil => simp [Stack.delimiterOf] at hd
    | cons f outer =>
      have hdf : f.delimiter kind = some c := hd
      have he : kind.isEnd = false := by
        by_contra he
        rw [Bool.not_eq_false] at he
        rw [Frame.delimiter, if_pos he] at hdf
        exact absurd hdf (by simp)
      have hc : Input.isSpace c = false := by
        rw [Frame.delimiter, he, if_neg (by decide)] at hdf
        split_ifs at hdf
        · cases hdf
          rfl
        · cases hdf
          rfl
      have hfirst : whole.drop pos = v ++ c :: (w ++ b :: rest) := by simpa [hd] using h
      refine gives_bind (gives_space_to hfirst hsv hc) ?_
      have hnext : whole.drop (pos + v.length) = (f.delimiter kind).toList ++ (w ++ b :: rest) := by
        rw [hdf]
        exact Input.drop_add hfirst
      have := gives_delimiter hnext hsw (by simp [hdf]) hk he hv
      rw [hdf] at this
      rw [List.length_append, ← Nat.add_assoc]
      exact this

/-! ## the token itself -/

/-- a token as the scanner returns it when it does not decode strings -/
def Token.bare : Token → Token
  | .string _ => .string []
  | token => token

theorem gives_scanToken {token : Token} {start : Nat} {body rest : Bytes} (options : Options)
    (decode : Bool) (h : whole.drop start = body ++ rest)
    (hbody : BodyText options.invalidUtf8 token body)
    (hstop : token.kind = .number → Input.Stops rest) (hend : token.kind.isEnd = false) :
    Gives (Slice whole) (scanToken token.kind start options decode)
      (.ok (if decode then token else token.bare, start + body.length)) (Slice whole) := by
  have hsame : ∀ token' : Token, token'.bare = token' →
      (if decode then token' else token'.bare) = token' := by
    intro token' ht
    split
    · rfl
    · exact ht
  cases token with
  | null =>
    rw [hsame .null rfl, show body = nullText from hbody]
    rw [show body = nullText from hbody] at h
    exact gives_bind (Input.gives_literal "" h) (gives_pure _)
  | boolean value =>
    rw [hsame (.boolean value) rfl]
    cases value with
    | false =>
      rw [show body = falseText from hbody]
      rw [show body = falseText from hbody] at h
      exact gives_bind (Input.gives_literal "" h) (gives_pure _)
    | true =>
      rw [show body = trueText from hbody]
      rw [show body = trueText from hbody] at h
      exact gives_bind (Input.gives_literal "" h) (gives_pure _)
  | string d =>
    obtain ⟨t, rfl, ht⟩ := hbody
    have h' : whole.drop start = 0x22 :: (t ++ 0x22 :: rest) := by simpa using h
    have hlen : start + (0x22 :: (t ++ [0x22])).length = start + t.length + 2 := by
      simp only [List.length_cons, List.length_append, List.length_nil]
      omega
    rw [hlen]
    cases decode with
    | true => exact gives_bind (Input.gives_string "" ht h') (gives_pure _)
    | false => exact gives_bind (Input.gives_stringInto "" none ht h') (gives_pure _)
  | number t =>
    obtain ⟨rfl, ht⟩ := hbody
    rw [hsame (.number body) rfl]
    refine gives_bind (Input.gives_number "" h ht (hstop rfl)) ?_
    refine gives_bind (a := body) ?_ (gives_pure _)
    refine gives_read ?_
    intro s hs
    rw [hs.1, List.drop_take, h, Nat.add_sub_cancel_left, List.take_left]
  | beginObject =>
    rw [hsame .beginObject rfl, show body = [0x7B] from hbody]
    exact gives_pure _
  | beginArray =>
    rw [hsame .beginArray rfl, show body = [0x5B] from hbody]
    exact gives_pure _
  | endObject => exact absurd hend (by decide)
  | endArray => exact absurd hend (by decide)

/-! ## one token -/

/-- a cursor at `pos`, with the containers of `stack` open -/
def Cursor.At (whole : Bytes) (pos : Nat) (stack : Stack) (c : Cursor) : Prop :=
  Slice whole c.input ∧ c.pos = pos ∧ c.stack = stack

theorem gives_onInput {α : Type} {x : Lex α} {r : Except Error α} {pos : Nat} {stack : Stack}
    (h : Gives (Slice whole) x r (Slice whole)) :
    Gives (Cursor.At whole pos stack) (onInput x) r (Cursor.At whole pos stack) := by
  rintro c ⟨h1, h2, h3⟩
  obtain ⟨h4, h5⟩ := h c.input h1
  exact ⟨h4, h5, h2, h3⟩

/-- the state before a token -/
theorem gives_place (pos : Nat) (stack : Stack) {α : Type} {k : Nat → Stack → Scanner α}
    {r : Except Error α} {P : Cursor → Prop}
    (h : Gives (Cursor.At whole pos stack) (k pos stack) r P) :
    Gives (Cursor.At whole pos stack)
      (do let pos ← read Cursor.pos; let stack ← read Cursor.stack; k pos stack) r P := by
  refine gives_bind (a := pos) (gives_read fun c hc => hc.2.1) ?_
  exact gives_bind (a := stack) (gives_read fun c hc => hc.2.2) h

/-- the stack and the position move on -/
theorem gives_advance {pos stop : Nat} {stack : Stack} (kind : Kind) :
    Gives (Cursor.At whole pos stack) (change (advance kind stop) : Scanner Unit) (.ok ())
      (Cursor.At whole stop (stack.countOne.pushKind kind)) := by
  refine gives_change ?_
  rintro c ⟨h1, h2, h3⟩
  refine ⟨h1, rfl, ?_⟩
  simp only [advance, h3, Stack.pushKind]

theorem gives_enterName {pos : Nat} {stack : Stack} (options : Options) (start : Nat) (name : Bytes)
    (h : (stack.checkName options name).1 = true) :
    Gives (Cursor.At whole pos stack) (enterName options start name) (.ok ())
      (Cursor.At whole pos ((stack.checkName options name).2.setName name)) := by
  rw [enterName]
  refine gives_bind (a := stack.checkName options name) (gives_read fun c hc => by rw [hc.2.2]) ?_
  refine @gives_bind _ _ _ _ _ (Cursor.At whole pos (stack.checkName options name).2) _ _ _ _ _
    (gives_change fun c hc => ⟨hc.1, hc.2.1, rfl⟩) ?_
  rw [h, if_pos rfl]
  exact gives_change fun c hc => ⟨hc.1, hc.2.1, by rw [hc.2.2]⟩

theorem endToken_kind {token : Token} (h : token.kind.isEnd = true) : endToken token.kind = token := by
  cases token with
  | boolean value => cases value <;> simp [Token.kind, Kind.isEnd] at h
  | endObject => rfl
  | endArray => rfl
  | _ => simp [Token.kind, Kind.isEnd] at h

/-- the text of an end token -/
theorem endBody_length {allow : Bool} {token : Token} {body : Bytes} (h : token.kind.isEnd = true)
    (hbody : BodyText allow token body) : body.length = 1 := by
  cases token with
  | boolean value => cases value <;> simp [Token.kind, Kind.isEnd] at h
  | endObject => rw [show body = [0x7D] from hbody]; rfl
  | endArray => rw [show body = [0x5D] from hbody]; rfl
  | _ => simp [Token.kind, Kind.isEnd] at h

/-- **one token in its place is read, and does to the stack what the grammar says** -/
theorem gives_next {token : Token} {pos depth : Nat} {stack stack' : Stack} {lead body rest : Bytes}
    (options : Options) (keep : Bool) (h : whole.drop pos = lead ++ (body ++ rest))
    (hlead : Lead stack token.kind lead) (hbody : BodyText options.invalidUtf8 token body)
    (hstop : token.kind = .number → Input.Stops rest)
    (hstep : stepStack options depth stack token = some stack') :
    Gives (Cursor.At whole pos stack) (next options depth keep)
      (.ok (if keep || stack.expectsName then token else token.bare, pos + lead.length))
      (Cursor.At whole (pos + lead.length + body.length) stack') := by
  refine gives_mapError_ok ?_
  obtain ⟨b, tail, hb, hk⟩ := body_head hbody
  have hfirst : whole.drop pos = lead ++ b :: (tail ++ rest) := by rw [h, hb, List.cons_append]
  have hnext := Input.drop_add h
  have hv := token_kind_ne_invalid token
  rw [stepStack] at hstep
  refine gives_place pos stack ?_
  refine gives_bind (gives_onInput (gives_prepareInner hfirst hlead hk hv ?_)) ?_
  · intro he
    rw [if_pos he] at hstep
    by_contra hc
    rw [if_neg hc] at hstep
    exact absurd hstep (by simp)
  refine gives_bind (gives_onInput (Input.gives_head (Input.drop_add hfirst))) ?_
  rw [List.head?_cons]
  dsimp only
  rw [hk]
  by_cases hend : token.kind.isEnd = true
  · rw [if_pos hend] at hstep ⊢
    split_ifs at hstep with hc
    cases hstep
    have hbare : (if keep || stack.expectsName then token else token.bare) = token := by
      cases token with
      | string d => simp [Token.kind, Kind.isEnd] at hend
      | _ => simp [Token.bare]
    rw [closeContainer]
    refine gives_bind (a := stack) (gives_read fun c hcr => hcr.2.2) ?_
    rw [if_pos hc, endToken_kind hend, endBody_length hend hbody, hbare]
    refine gives_bind (a := ()) ?_
      (gives_pure _)
    exact gives_change fun c hcr => ⟨hcr.1, rfl, by rw [hcr.2.2]⟩
  · rw [if_neg hend] at hstep ⊢
    rw [Bool.not_eq_true] at hend
    split_ifs at hstep with h1 h2 h3 h4
    · -- a member name
      rw [if_neg h1, if_neg h2]
      cases hstep
      refine gives_bind (gives_onInput (gives_scanToken options _ hnext hbody hstop hend)) ?_
      rw [h3, Bool.or_true, if_pos rfl, if_pos rfl]
      refine gives_bind (gives_enterName options (pos + lead.length) token.text h4) ?_
      exact gives_bind (gives_advance token.kind) (gives_pure _)
    · rw [if_neg h1, if_neg h2]
      cases hstep
      refine gives_bind (gives_onInput (gives_scanToken options _ hnext hbody hstop hend)) ?_
      rw [if_neg h3]
      exact gives_bind (gives_advance token.kind) (gives_pure _)

end Tsr.Json
