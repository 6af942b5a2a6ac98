import Tsr.Json.Trace

/-!
# Json: accepted values

Both ways to consume a value accept the same texts, those with a `ValueTrace` and space behind it:

* `readValue_accepts`    `readValue` and then `finish`;
* `readTokens_accepts`   `readToken` until the value ends, and then `finish`.
-/

namespace Tsr.Json
open Tsr.Lib Tsr.Lib.Fallible

variable {whole : Bytes} {p : Prop}

namespace Decoder

/-! ## what is consumed -/

theorem compact_slice {d : Decoder} (h : Slice whole d.input) : d.compact = d := by
  rw [compact, if_neg]
  rintro ⟨-, he⟩
  rw [h.2.1] at he
  exact absurd he (by decide)

theorem finds_prepareRoot (pos : Nat) :
    Finds whole p (prepareInner pos []) (fun start => ∃ w, Reads whole pos w start ∧ Spaces w ∧
      (p → w = [])) := by
  rw [prepareInner]
  refine finds_bind (Input.finds_space pos) ?_
  intro i
  exact finds_pure _ id

/-- space in front of a value belongs to its first token -/
theorem ValueTrace.space {options : Options} {depth : Nat} {w text : Bytes} {tokens : List Token}
    (hw : Spaces w) (hp : p → w = []) (h : ValueTrace p options depth text tokens) :
    ValueTrace p options depth (w ++ text) tokens := by
  obtain ⟨token, piece, stack, rest, more, rfl, rfl, hstep, h⟩ := h
  obtain ⟨lead, body, rfl, ⟨v, v', hv, hv', rfl⟩, hbody, hst, hcanon⟩ := hstep
  have hl : Lead [] token.kind (w ++ (v ++ ((Stack.delimiterOf [] token.kind).toList ++ v'))) :=
    ⟨w ++ v, v', hw.append hv, hv', by simp⟩
  refine ⟨token, _, stack, rest, more, by rw [← List.append_assoc], rfl,
    ⟨_, body, by simp, hl, hbody, hst, ?_⟩, h⟩
  intro hc
  rw [hp hc]
  exact hcanon hc

/-- the tokens of one value, from a cursor of its own -/
theorem valueTokens_reads {options : Options} {depth pos : Nat} {inp : Input} {c' : Cursor}
    {r : Token × Nat} (hs : Slice whole inp)
    (h : valueTokens options depth ⟨inp, pos, []⟩ = (.ok r, c'))
    (hp : p → c'.input.noncanonical = false) :
    Slice whole c'.input ∧ (c'.input.noncanonical = false → inp.noncanonical = false) ∧
      r.2 ≤ whole.length ∧
      ∃ text tokens, ValueTrace p options depth text tokens ∧ Reads whole pos text r.2 := by
  obtain ⟨r1, c1, h1, h⟩ := bind_eq_ok h
  obtain ⟨_, _, h2, h⟩ := bind_eq_ok h
  cases h2
  obtain ⟨_, c2, h2, h⟩ := bind_eq_ok h
  obtain ⟨_, _, h3, h⟩ := bind_eq_ok h
  cases h3
  cases h
  obtain ⟨token, lead, body, ht⟩ := next_reads (p := False) hs h1 (fun hc => absurd hc id)
  obtain ⟨hstep, hread⟩ := ht.tokenStep
  have hle := hread.le hstep.length_pos
  obtain ⟨h3, h4, h5, h6, text, tokens, h7, h8⟩ := skipLoop_reads ht.slice hle
    (by dsimp only; rw [Input.Slice.total ht.slice]; omega) h2 hp
  obtain ⟨token', lead', body', ht'⟩ := next_reads hs h1 (fun hc => h4 (hp hc))
  obtain ⟨hstep', hread'⟩ := ht'.tokenStep
  exact ⟨h3, fun hn => ht.flag (h4 hn), h6, _, _, ⟨_, _, _, _, _, rfl, rfl, hstep', h7⟩,
    hread'.append h8⟩

/-- **the text of an accepted value is a run of tokens** -/
theorem readValueRange_reads {d d' : Decoder} {r : Nat × Nat} (hs : Slice whole d.input)
    (hstack : d.stack = []) (h : readValueRange d = (.ok r, d'))
    (hp : p → d'.input.noncanonical = false) :
    Slice whole d'.input ∧ (d'.input.noncanonical = false → d.input.noncanonical = false) ∧
      d'.pos ≤ whole.length ∧
      ∃ text tokens, ValueTrace p d.options d.baseDepth text tokens ∧
        Reads whole d.pos text d'.pos := by
  obtain ⟨_, _, h1, h⟩ := bind_eq_ok h
  cases h1
  rw [compact_slice hs] at h
  obtain ⟨_, _, h1, h⟩ := bind_eq_ok h
  cases h1
  obtain ⟨_, _, h1, h⟩ := bind_eq_ok h
  cases h1
  obtain ⟨start, d1, h1, h⟩ := bind_eq_ok h
  obtain ⟨inp1, hprep, rfl⟩ := onPart_eq_ok (mapError_eq_ok h1)
  obtain ⟨_, _, h2, h⟩ := bind_eq_ok h
  cases h2
  obtain ⟨_, _, h2, h⟩ := bind_eq_ok h
  cases h2
  obtain ⟨first, d2, h2, h⟩ := bind_eq_ok h
  obtain ⟨c2, hval, rfl⟩ := onPart_eq_ok (mapError_eq_ok (mapError_eq_ok h2))
  rw [hstack] at hprep
  obtain ⟨s1, m1, f1⟩ := (finds_prepareRoot (p := p) d.pos).of_ok hs (mapError_eq_ok hprep)
  dsimp only at h hval
  rw [if_neg (by simp [hstack, Stack.expectsName])] at h
  cases h
  rw [hstack] at hval
  obtain ⟨s2, m2, h3, text, tokens, h4, h5⟩ := valueTokens_reads s1 hval hp
  obtain ⟨w, h6, h7, h8⟩ := f1 fun hc => m2 (hp hc)
  exact ⟨s2, fun hn => m1 (m2 hn), h3, _, _, ValueTrace.space h7 h8 h4, h6.append h5⟩

theorem finish_reads {d d' : Decoder} (hs : Slice whole d.input)
    (h : finish d = (.ok (), d')) (hp : p → d'.input.noncanonical = false) :
    (d'.input.noncanonical = false → d.input.noncanonical = false) ∧
      ∃ w, whole.drop d.pos = w ∧ Spaces w ∧ (p → w = []) := by
  obtain ⟨_, _, h1, h⟩ := bind_eq_ok h
  cases h1
  obtain ⟨stop, d1, h1, h⟩ := bind_eq_ok h
  obtain ⟨inp1, hspace, rfl⟩ := onPart_eq_ok h1
  obtain ⟨b, d2, h2, h⟩ := bind_eq_ok h
  obtain ⟨inp2, hbyte, rfl⟩ := onPart_eq_ok h2
  obtain ⟨s1, m1, f1⟩ := (Input.finds_space (p := p) d.pos).of_ok hs hspace
  obtain ⟨s2, m2, f2⟩ := (Input.finds_atIndex (p := False) stop).of_ok s1 hbyte
  have hat := f2 (fun hc => absurd hc id)
  cases b with
  | some b =>
    rw [if_pos (show (some b).isSome = true from rfl)] at h
    obtain ⟨inp3, h3, -⟩ := onPart_eq_ok (mapError_eq_ok h)
    cases h3
  | none =>
    cases h
    obtain ⟨w, h3, h4, h5⟩ := f1 fun hc => m2 (hp hc)
    refine ⟨fun hn => m1 (m2 hn), w, ?_, h4, h5⟩
    have hnil : whole.drop stop = [] := by
      rw [List.drop_eq_nil_iff]
      exact List.getElem?_eq_none_iff.1 hat.symm
    rw [h3.1, hnil, List.append_nil]

/-! ## what is accepted -/

variable {options : Options}

theorem gives_lex {α : Type} {x : Lex α} {r : Except Error α} {pos : Nat} {stack : Stack}
    (h : Gives (Slice whole) x r (Slice whole)) :
    Gives (At options whole pos stack) (lex x) r (At options whole pos stack) := by
  intro d hd
  obtain ⟨h1, h2⟩ := h d.input hd.input
  exact ⟨h1, { hd with input := h2 }⟩

theorem gives_valueTokens {pos : Nat} {text rest : Bytes} {tokens : List Token}
    (h : ValueTrace p options 0 text tokens) (hdrop : whole.drop pos = text ++ rest)
    (hrest : Input.Stops rest) :
    ∃ first, Gives (Cursor.At whole pos []) (valueTokens options 0) (.ok (first, pos + text.length))
      (Cursor.At whole (pos + text.length) []) := by
  obtain ⟨token, piece, stack, text, more, rfl, rfl, hstep, h⟩ := h
  rw [List.append_assoc] at hdrop
  obtain ⟨start, hnext⟩ := gives_step true hstep h hdrop hrest
  have hlen := Input.length_of_drop hdrop
  rw [List.length_append] at hlen
  have hpos := hstep.length_pos
  have hskip := @gives_skipLoop _ _ _ _ (whole.length + 1 - (pos + piece.length)) _ _ _ _ _ h
    (Input.drop_add hdrop) hrest (by omega)
  rw [List.length_append, ← Nat.add_assoc]
  refine ⟨_, gives_bind hnext (gives_bind (gives_read ?_) (gives_bind hskip
    (gives_bind (gives_read fun c hc => hc.2.1) (gives_pure _))))⟩
  intro c hc
  rw [Input.Slice.total hc.1, hc.2.1]

theorem gives_scanFrom {α : Type} {x : Scanner α} {r : Except Error α} {pos start stop : Nat}
    {stack : Stack}
    (h : Gives (Cursor.At whole start []) x r (Cursor.At whole stop [])) :
    Gives (At options whole pos stack) (scanFrom start x) r (At options whole pos stack) := by
  intro d hd
  obtain ⟨h1, h2, -, -⟩ := h ⟨d.input, start, []⟩ ⟨hd.input, rfl, rfl⟩
  exact ⟨h1, { hd with input := h2 }⟩

/-- space in front of a value is skipped before its first token -/
theorem ValueTrace.afterSpace {text : Bytes} {tokens : List Token}
    (h : ValueTrace p options 0 text tokens) :
    ∃ w b rest, text = w ++ b :: rest ∧ Spaces w ∧ Input.isSpace b = false ∧
      ValueTrace False options 0 (b :: rest) tokens := by
  obtain ⟨token, piece, stack, rest, more, rfl, rfl, hstep, h⟩ := h
  obtain ⟨lead, body, rfl, ⟨v, w, hv, hw, hlead⟩, hbody, hst, -⟩ := hstep
  obtain ⟨b, tail, rfl, hk⟩ := body_head hbody
  have hl : lead = v ++ w := by simpa [Stack.delimiterOf] using hlead
  refine ⟨lead, b, tail ++ rest, by simp, ?_, ?_, ?_⟩
  · rw [hl]
    exact hv.append hw
  · exact fromByte_space (by rw [hk]; exact token_kind_ne_invalid token)
  · refine ⟨token, b :: tail, stack, rest, more, rfl, rfl, ?_, h.forget⟩
    exact ⟨[], b :: tail, rfl, ⟨[], [], spaces_nil, spaces_nil, rfl⟩, hbody, hst,
      fun hc => absurd hc id⟩

/-- **a value is read, with the bytes it stands for** -/
theorem gives_readValue {text rest : Bytes} {tokens : List Token}
    (h : ValueTrace p options 0 text tokens) (hdrop : whole = text ++ rest)
    (hrest : Input.Stops rest) :
    ∃ value, Gives (At options whole 0 []) readValue (.ok value)
      (At options whole text.length []) := by
  obtain ⟨w, b, text', rfl, hw, hb, h⟩ := ValueTrace.afterSpace h
  have hfirst : whole.drop 0 = w ++ b :: (text' ++ rest) := by
    rw [List.drop_zero, hdrop, List.append_assoc, List.cons_append]
  have hprep := gives_space_to hfirst hw hb
  obtain ⟨first, hval⟩ := gives_valueTokens h (Input.drop_add hfirst) hrest
  rw [Nat.zero_add] at hprep hval
  rw [← List.length_append] at hval
  refine ⟨(whole.take (w ++ b :: text').length).drop w.length, ?_⟩
  refine gives_bind (a := (w.length, (w ++ b :: text').length)) ?_
    (gives_lex (gives_read fun s hs => by rw [hs.1]))
  refine gives_bind gives_compact ?_
  refine gives_bind (a := 0) (gives_read fun d hd => hd.pos) ?_
  refine gives_bind (a := []) (gives_read fun d hd => hd.stack) ?_
  refine gives_bind (a := w.length) (gives_mapError_ok (gives_lex (gives_mapError_ok
    (gives_bind hprep (gives_pure _))))) ?_
  refine gives_bind (a := options) (gives_read fun d hd => hd.options) ?_
  refine gives_bind (a := 0) (gives_read fun d hd => by rw [hd.baseDepth, hd.stack]; rfl) ?_
  refine gives_bind (gives_mapError_ok (gives_mapError_ok (gives_scanFrom hval))) ?_
  refine @gives_bind _ _ _ _ _ (At options whole 0 []) _ _ _ () _ ?_ ?_
  · refine gives_change ?_
    intro d hd
    refine { hd with stack := ?_ }
    show d.stack.countOne = []
    rw [hd.stack]
    rfl
  · refine gives_bind (a := ()) ?_
      (gives_pure _)
    exact gives_change fun d hd => { hd with pos := rfl }

/-! ## tokens one by one -/

/-- tokens until the value that was begun is complete -/
def readTokens : Nat → Op (List Token)
  | 0 => fail .eof
  | fuel + 1 => do
    let token ← readToken
    let stack ← read Decoder.stack
    if stack.isEmpty then pure [token]
    else do
      let tokens ← readTokens fuel
      pure (token :: tokens)

theorem readToken_reads {d d' : Decoder} {token : Token} (hs : Slice whole d.input)
    (h : readToken d = (.ok token, d')) :
    Slice whole d'.input ∧ d'.options = d.options ∧ d'.baseDepth = d.baseDepth ∧
      ∃ piece, TokenStep False d.options d.baseDepth d.stack token piece d'.stack ∧
        Reads whole d.pos piece d'.pos := by
  obtain ⟨_, _, h1, h⟩ := bind_eq_ok h
  cases h1
  rw [compact_slice hs] at h
  obtain ⟨_, _, h1, h⟩ := bind_eq_ok h
  cases h1
  obtain ⟨_, _, h1, h⟩ := bind_eq_ok h
  cases h1
  obtain ⟨_, _, h1, h⟩ := bind_eq_ok h
  cases h1
  obtain ⟨r, d1, h1, h⟩ := bind_eq_ok h
  obtain ⟨c1, hnext, rfl⟩ := onPart_eq_ok (mapError_eq_ok h1)
  cases h
  obtain ⟨token', lead, body, ht⟩ := next_reads (p := False) (c := ⟨d.input, d.pos, d.stack⟩) hs hnext
    (fun hc => absurd hc id)
  obtain ⟨hstep, hread⟩ := ht.tokenStep
  have hval := ht.value
  rw [Bool.true_or, if_pos rfl] at hval
  subst hval
  exact ⟨ht.slice, rfl, rfl, _, hstep, hread⟩

/-- the tokens read one by one, from wherever the decoder stands -/
theorem readTokens_reads {fuel : Nat} {d d' : Decoder} {tokens : List Token}
    (hs : Slice whole d.input) (h : readTokens fuel d = (.ok tokens, d')) :
    Slice whole d'.input ∧ d'.pos ≤ whole.length ∧
      ∃ token more piece text stack, tokens = token :: more ∧
        TokenStep False d.options d.baseDepth d.stack token piece stack ∧
        Trace False d.options d.baseDepth stack text more [] ∧
        Reads whole d.pos (piece ++ text) d'.pos := by
  induction fuel generalizing d tokens with
  | zero => cases h
  | succ fuel ih =>
    obtain ⟨token, d1, h1, h⟩ := bind_eq_ok h
    obtain ⟨s1, ho, hb, piece, hstep, hread⟩ := readToken_reads hs h1
    obtain ⟨_, _, h2, h⟩ := bind_eq_ok h
    cases h2
    by_cases hempty : d1.stack.isEmpty = true
    · have hnil : d1.stack = [] := List.isEmpty_iff.1 hempty
      rw [if_pos hempty] at h
      cases h
      rw [hnil] at hstep
      refine ⟨s1, hread.le hstep.length_pos, token, [], piece, [], [], rfl, hstep, .nil _, ?_⟩
      rw [List.append_nil]
      exact hread
    · rw [if_neg hempty] at h
      obtain ⟨tokens', d2, h2, h⟩ := bind_eq_ok h
      cases h
      obtain ⟨s2, hle, token', more, piece', text, stack, rfl, hstep', htrace, hread'⟩ := ih s1 h2
      rw [ho, hb] at hstep' htrace
      refine ⟨s2, hle, token, token' :: more, piece, piece' ++ text, d1.stack, rfl, hstep, ?_,
        hread.append hread'⟩
      exact .cons (by intro hc; rw [hc] at hempty; exact hempty rfl) hstep' htrace

theorem gives_readTokens {fuel pos : Nat} {stack stack' : Stack} {token : Token}
    {piece text rest : Bytes} {more : List Token}
    (hstep : TokenStep p options 0 stack token piece stack')
    (h : Trace p options 0 stack' text more []) (hdrop : whole.drop pos = piece ++ (text ++ rest))
    (hrest : Input.Stops rest) (hfuel : more.length < fuel) :
    Gives (At options whole pos stack) (readTokens fuel) (.ok (token :: more))
      (At options whole (pos + piece.length + text.length) []) := by
  induction more generalizing fuel pos stack stack' token piece text with
  | nil =>
    obtain ⟨fuel, rfl⟩ : ∃ n, fuel = n + 1 := ⟨fuel - 1, by omega⟩
    obtain ⟨start, hnext⟩ := gives_step true hstep h hdrop hrest
    cases h
    refine gives_bind (gives_readToken hnext) ?_
    refine gives_bind (a := []) (gives_read fun d hd => hd.stack) ?_
    exact gives_pure _
  | cons token' more ih =>
    obtain ⟨fuel, rfl⟩ : ∃ n, fuel = n + 1 := ⟨fuel - 1, by omega⟩
    obtain ⟨start, hnext⟩ := gives_step true hstep h hdrop hrest
    cases h with
    | @cons _ stack1 _ _ piece' text' _ hopen hstep' h =>
      have hdrop' : whole.drop (pos + piece.length) = piece' ++ (text' ++ rest) := by
        have := Input.drop_add hdrop
        rw [List.append_assoc] at this
        exact this
      have hrec := ih hstep' h hdrop' (by simpa using hfuel)
      refine gives_bind (gives_readToken hnext) ?_
      refine gives_bind (a := stack') (gives_read fun d hd => hd.stack) ?_
      rw [if_neg (by simpa using hopen), List.length_append, ← Nat.add_assoc]
      exact gives_bind hrec (gives_pure _)

/-! ## acceptance -/

/-- a run of tokens from a first value to its end, and space -/
def Accepted (options : Options) (bytes : Bytes) : Prop :=
  ∃ text tokens w, bytes = text ++ w ∧ ValueTrace False options 0 text tokens ∧ Spaces w

theorem stops_spaces {w : Bytes} (h : Spaces w) : Input.Stops w := by
  cases w with
  | nil => exact stops_nil
  | cons b w => exact stops_of_space w (h b List.mem_cons_self)

theorem start_at (bytes : Bytes) (options : Options) :
    At options bytes 0 [] (fromSliceWithOptions bytes options) :=
  ⟨⟨rfl, rfl, rfl⟩, rfl, rfl, rfl, rfl, rfl⟩

/-- both paths end with `finish` -/
theorem gives_finish {text w : Bytes} {stack : Stack} (hw : Spaces w) (hwhole : whole = text ++ w) :
    Gives (At options whole text.length stack) finish (.ok ())
      (At options whole text.length stack) := by
  refine gives_finish_end ?_ hw ?_
  · rw [hwhole, List.drop_left]
  · rw [hwhole, List.length_append]
    exact Nat.le_add_right _ _

/-- **`readValue` and then `finish`** -/
theorem readValue_accepts (options : Options) (bytes : Bytes) :
    (∃ d, (do let _ ← readValue; finish : Op Unit) (fromSliceWithOptions bytes options)
      = (.ok (), d)) ↔ Accepted options bytes := by
  constructor
  · rintro ⟨d, h⟩
    obtain ⟨value, d1, h1, h⟩ := bind_eq_ok h
    obtain ⟨r, d2, h2, h1⟩ := bind_eq_ok h1
    obtain ⟨inp, h3, rfl⟩ := onPart_eq_ok h1
    cases h3
    obtain ⟨s1, -, hle, text, tokens, htrace, hread⟩ := readValueRange_reads
      (p := False) (start_at bytes options).input rfl h2 (fun hc => absurd hc id)
    obtain ⟨-, w, hw, hsp, -⟩ := finish_reads (p := False) s1 h (fun hc => absurd hc id)
    have hsplit : bytes = text ++ bytes.drop d2.pos := hread.1
    refine ⟨text, tokens, w, ?_, htrace, hsp⟩
    have hw' : bytes.drop d2.pos = w := hw
    rw [← hw']
    exact hsplit
  · rintro ⟨text, tokens, w, rfl, htrace, hw⟩
    obtain ⟨value, hval⟩ := gives_readValue htrace rfl (stops_spaces hw)
    obtain ⟨h1, -⟩ := gives_bind (k := fun _ => finish) hval (gives_finish hw rfl) _
      (start_at (text ++ w) options)
    exact ⟨_, Prod.ext h1 rfl⟩

/-- **`readToken` until the value ends, and then `finish`** -/
theorem readTokens_accepts (options : Options) (bytes : Bytes) :
    (∃ d, (do let _ ← readTokens (bytes.length + 1); finish : Op Unit)
      (fromSliceWithOptions bytes options) = (.ok (), d)) ↔ Accepted options bytes := by
  constructor
  · rintro ⟨d, h⟩
    obtain ⟨tokens, d1, h1, h⟩ := bind_eq_ok h
    obtain ⟨s1, hle, token, more, piece, text, stack, rfl, hstep, htrace, hread⟩ :=
      readTokens_reads (start_at bytes options).input h1
    obtain ⟨-, w, hw, hsp, -⟩ := finish_reads (p := False) s1 h (fun hc => absurd hc id)
    refine ⟨piece ++ text, token :: more, w, ?_, ⟨_, _, _, _, _, rfl, rfl, hstep, htrace⟩, hsp⟩
    have hsplit : bytes = (piece ++ text) ++ bytes.drop d1.pos := hread.1
    rw [← hw]
    exact hsplit
  · rintro ⟨text, tokens, w, rfl, ⟨token, piece, stack, rest, more, rfl, rfl, hstep, htrace⟩, hw⟩
    have hlen := htrace.length_le
    have hread := @gives_readTokens ((piece ++ rest) ++ w) _ _
      (((piece ++ rest) ++ w).length + 1) 0 _ _ _ _ _ _ _ hstep htrace (by simp) (stops_spaces hw)
      (by simp only [List.length_append]; omega)
    rw [Nat.zero_add, ← List.length_append] at hread
    obtain ⟨h1, -⟩ := gives_bind (k := fun _ => finish) hread (gives_finish hw rfl) _
      (start_at _ options)
    exact ⟨_, Prod.ext h1 rfl⟩

end Decoder

end Tsr.Json
