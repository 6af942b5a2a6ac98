import Tsr.Json.Grammar

/-!
# Json: values that are copied

`writeValue` copies the bytes of a value when the scan has found nothing that the encoder would
spell otherwise.  Then writing its tokens one by one gives the same bytes: each token writes its
piece of the text (`appendToken_canon`), so the whole run adds the text of the value
(`copyTokens_adds`).  The two paths differ in when the output is committed, and so in what a failing
writer leaves behind.

* `appendString_canon`, `validNumber_of_text`   the encoder spells a canonical token as it was;
* `writeValue_tokens`                           **the same output and the same stack on both paths**.
-/

namespace Tsr.Json
open Tsr.Lib Tsr.Lib.Fallible

/-! ## strings -/

theorem escape_special {e byte : UInt8} (he : Input.simpleEscape e = some byte) (hne : e ≠ 0x2F) :
    Input.isSpecial byte = true ∧ byte < 0x80 ∧ escapeRune byte.toNat = [0x5C, e] := by
  unfold Input.simpleEscape at he
  split_ifs at he with h1 h2 h3 h4 h5 h6
  · cases he
    rcases h1 with rfl | rfl | rfl
    · decide
    · decide
    · exact absurd rfl hne
  · subst h2; cases he; decide
  · subst h3; cases he; decide
  · subst h4; cases he; decide
  · subst h5; cases he; decide
  · subst h6; cases he; decide

theorem sequence_special {q : Bytes} {rune : Nat} (h : Sequence q rune) :
    ∃ b rest, q = b :: rest ∧ Input.isSpecial b = true := by
  have hb : ∀ b : UInt8, 0x80 ≤ b.toNat → Input.isSpecial b = true := by
    intro b hb
    have : (0x80 : UInt8) ≤ b := UInt8.le_iff_toNat_le.2 hb
    simp [Input.isSpecial, this]
  cases h with
  | two a b ha => exact ⟨a, [b], rfl, hb a (by omega)⟩
  | three a b c ha => exact ⟨a, [b, c], rfl, hb a (by omega)⟩
  | four a b c d ha => exact ⟨a, [b, c, d], rfl, hb a (by omega)⟩

/-- the plain bytes in front are spelled as they are -/
theorem canon_run {t d : Bytes} (h : CanonText t d) :
    ∃ t', t = (d.takeWhile fun b => !Input.isSpecial b) ++ t' ∧
      CanonText t' (d.drop (d.takeWhile fun b => !Input.isSpecial b).length) := by
  cases h with
  | nil => exact ⟨[], rfl, .nil⟩
  | @plain b t d hb h =>
    obtain ⟨t', h1, h2⟩ := canon_run h
    refine ⟨t', ?_, ?_⟩
    · rw [List.takeWhile_cons_of_pos (by simp [hb]), List.cons_append, ← h1]
    · rw [List.takeWhile_cons_of_pos (by simp [hb])]
      exact h2
  | @simple e byte t d he hne h =>
    obtain ⟨hs, -, -⟩ := escape_special he hne
    refine ⟨0x5C :: e :: t, ?_, ?_⟩
    · rw [List.takeWhile_cons_of_neg (by simp [hs])]
      rfl
    · rw [List.takeWhile_cons_of_neg (by simp [hs])]
      exact .simple he hne h
  | @sequence q t d rune hq h =>
    obtain ⟨b, rest, hb, hs⟩ := sequence_special hq
    have hnil : ((q ++ d).takeWhile fun b => !Input.isSpecial b) = [] := by
      rw [hb, List.cons_append, List.takeWhile_cons_of_neg (by simp [hs])]
    rw [hnil]
    exact ⟨q ++ t, rfl, .sequence hq h⟩

theorem canon_nil {t d : Bytes} (h : CanonText t d) (hd : d = []) : t = [] := by
  cases h with
  | nil => rfl
  | plain => cases hd
  | simple => cases hd
  | sequence hq h =>
    have := hq.length_bounds
    rw [List.append_eq_nil_iff] at hd
    rw [hd.1] at this
    simp at this

/-- **the loop of `appendString` spells a canonical text back** -/
theorem appendStringLoop_canon (allow : Bool) (fuel offset : Nat) (t d out decoded : Bytes)
    (h : CanonText t d) (hfuel : d.length ≤ fuel) :
    appendStringLoop allow fuel offset d out decoded = .ok (out ++ t, decoded ++ d) := by
  induction fuel generalizing offset t d out decoded with
  | zero =>
    obtain rfl : d = [] := List.length_eq_zero_iff.1 (by omega)
    rw [canon_nil h rfl]
    simp [appendStringLoop]
  | succ fuel ih =>
    rw [appendStringLoop]
    by_cases hnil : d = []
    · rw [if_pos hnil, canon_nil h hnil, hnil]
      simp
    rw [if_neg hnil]
    dsimp only
    by_cases hrun : (d.takeWhile fun b => !Input.isSpecial b) ≠ []
    · rw [if_pos hrun]
      obtain ⟨t', h1, h2⟩ := canon_run h
      obtain ⟨run, hr⟩ : ∃ run, run = d.takeWhile fun b => !Input.isSpecial b := ⟨_, rfl⟩
      rw [← hr] at h1 h2 hrun ⊢
      have hpos : 0 < run.length := List.length_pos_iff.2 hrun
      have hsplit : run ++ d.drop run.length = d := by
        have hpre : run <+: d := by
          rw [hr]
          exact List.takeWhile_prefix _
        obtain ⟨post, hpost⟩ := hpre
        rw [← hpost, List.drop_left]
      rw [ih _ t' _ _ _ h2 (by rw [List.length_drop]; omega), h1, List.append_assoc,
        List.append_assoc, hsplit]
    rw [if_neg hrun]
    cases h with
    | nil => exact absurd rfl hnil
    | @plain b t d hb h =>
      rw [List.takeWhile_cons_of_pos (by simp [hb])] at hrun
      exact absurd (List.cons_ne_nil _ _) hrun
    | @simple e byte t d he hne h =>
      obtain ⟨-, hlt, hesc⟩ := escape_special he hne
      have herr : ¬ (byte.toNat = runeError ∧ 1 = 1) := by
        rintro ⟨h1, -⟩
        have h2 := byte.toNat_lt
        rw [h1] at h2
        exact absurd h2 (by decide)
      rw [decodeUtf8_ascii d hlt]
      dsimp only
      rw [if_neg herr, hesc, List.drop_one, List.tail_cons,
        ih _ t d _ _ h (by simpa using hfuel)]
      simp
    | @sequence q t d rune hq h =>
      have hlen := hq.length_bounds
      rw [decodeUtf8_sequence hq d]
      dsimp only
      rw [if_neg (by omega), escapeRune_high hq.rune_ge, appendRune_sequence hq, List.drop_left,
        List.take_left, ih _ t d _ _ h (by rw [List.length_append] at hfuel; omega)]
      simp

theorem appendString_canon {t d : Bytes} (allow : Bool) (out : Bytes) (h : CanonText t d) :
    appendString out d allow = .ok (out ++ 0x22 :: (t ++ [0x22]), d) := by
  rw [appendString, appendStringLoop_canon allow d.length 0 t d _ _ h (le_refl _)]
  show Except.ok _ = _
  simp

/-! ## numbers -/

theorem afterDigits_append {ds rest : Bytes} (hd : Digits ds)
    (hrest : rest.head?.any isDigit = false) : afterDigits (ds ++ rest) = some rest := by
  obtain ⟨hne, hds⟩ := hd
  have hhead : (ds ++ rest).head?.any isDigit = true := by
    obtain _ | ⟨b, ds⟩ := ds
    · exact absurd rfl hne
    · simpa using hds b List.mem_cons_self
  rw [afterDigits, if_pos hhead, List.dropWhile_append_of_pos hds]
  congr 1
  cases rest with
  | nil => rfl
  | cons b rest => rw [List.dropWhile_cons_of_neg (by simpa using hrest)]

theorem digits_head {ds rest : Bytes} (hd : Digits ds) {b : UInt8} (hb : isDigit b = false) :
    (ds ++ rest).head? ≠ some b := by
  obtain ⟨hne, hds⟩ := hd
  obtain _ | ⟨c, ds⟩ := ds
  · exact absurd rfl hne
  · intro hc
    cases hc
    rw [hds b List.mem_cons_self] at hb
    cases hb

theorem integer_digits {int : Bytes} (h : IntegerText int) : Digits int := ⟨h.ne_nil, h.digit⟩

theorem integerStage {int rest : Bytes} (h : IntegerText int)
    (hrest : rest.head?.any isDigit = false) :
    (if (int ++ rest).head? = some 0x30 then some ((int ++ rest).drop 1)
      else afterDigits (int ++ rest)) = some rest := by
  rcases h with rfl | ⟨hd, hz⟩
  · rfl
  · have hz' : (int ++ rest).head? ≠ some 0x30 := by
      obtain _ | ⟨c, ds⟩ := int
      · exact absurd rfl hd.1
      · exact hz
    rw [if_neg hz']
    exact afterDigits_append hd hrest

theorem fractionStage {frac rest : Bytes} (h : FractionText frac)
    (hrest : rest.head?.any isDigit = false) (hdot : rest.head? ≠ some 0x2E) :
    (if (frac ++ rest).head? = some 0x2E then afterDigits ((frac ++ rest).drop 1)
      else some (frac ++ rest)) = some rest := by
  rcases h with rfl | ⟨ds, rfl, hd⟩
  · rw [List.nil_append, if_neg hdot]
  · exact afterDigits_append hd hrest

theorem exponentStage {exp : Bytes} (h : ExponentText exp) :
    (if exp.head? = some 0x65 ∨ exp.head? = some 0x45 then
      afterDigits (if (exp.drop 1).head? = some 0x2B ∨ (exp.drop 1).head? = some 0x2D then
        (exp.drop 1).drop 1 else exp.drop 1)
      else some exp) = some [] := by
  rcases h with rfl | ⟨m, sign, ds, rfl, hm, hsign, hd⟩
  · rfl
  have hdigits : afterDigits ds = some [] := by
    have := @afterDigits_append _ [] hd rfl
    rw [List.append_nil] at this
    exact this
  rw [if_pos (by rcases hm with rfl | rfl <;> simp), List.drop_one, List.tail_cons]
  rcases hsign with rfl | rfl | rfl
  · have h1 := @digits_head _ [] hd 0x2B (by decide)
    have h2 := @digits_head _ [] hd 0x2D (by decide)
    rw [List.append_nil] at h1 h2
    rw [List.nil_append, if_neg (by rintro (h | h); exacts [h1 h, h2 h])]
    exact hdigits
  · exact hdigits
  · exact hdigits

/-- **a number of the grammar is accepted** -/
theorem validNumber_of_text {t : Bytes} (h : NumberText t) : validNumber t = true := by
  obtain ⟨sign, int, frac, exp, rfl, hsign, hint, hfrac, hexp⟩ := h
  have hdigit := Input.noDigit_fraction hfrac hexp stops_nil
  have hdigit' := Input.noDigit_fraction (.inl rfl) hexp stops_nil
  rw [List.append_nil] at hdigit hdigit'
  rw [List.nil_append] at hdigit'
  have hdot : exp.head? ≠ some 0x2E := by
    rcases hexp with rfl | ⟨m, s, ds, rfl, hm, -, -⟩
    · simp
    · rcases hm with rfl | rfl <;> simp
  have hstart : (if (sign ++ (int ++ (frac ++ exp))).head? = some 0x2D
      then (sign ++ (int ++ (frac ++ exp))).drop 1 else sign ++ (int ++ (frac ++ exp)))
      = int ++ (frac ++ exp) := by
    rcases hsign with rfl | rfl
    · rw [List.nil_append, if_neg (digits_head (integer_digits hint) (by decide))]
    · rfl
  rw [validNumber]
  dsimp only
  rw [hstart, integerStage hint hdigit, Option.bind_some, fractionStage hfrac hdigit' hdot,
    Option.bind_some, exponentStage hexp]
  rfl

/-! ## what the output gains -/

namespace Encoder

variable {e : Encoder} {Q R : Encoder → Prop} {x : Op Unit} {options : Options} {token : Token}
  {piece : Bytes} {bytes : Bytes}

/-- a writer that takes something of whatever it is offered -/
def Reliable (e : Encoder) : Prop :=
  ∀ sink, e.sink = some sink → ∀ r ∈ sink.script, r = .interrupted ∨ ∃ n, r = .accepted (n + 1)

/-- `text` is added to the output; how much of it is committed is left open -/
structure Adds (e e' : Encoder) (text : Bytes) : Prop where
  output : e'.output = e.output ++ text
  offset : e'.outputOffset = e.outputOffset + text.length
  flushed : e'.flushed ≤ e'.bytes.length
  options : e'.options = e.options
  newline : e'.omitTopLevelNewline = e.omitTopLevelNewline
  reliable : e.Reliable → e'.Reliable

theorem Adds.trans {e e' e'' : Encoder} {a b : Bytes} (h : Adds e e' a) (h' : Adds e' e'' b) :
    Adds e e'' (a ++ b) where
  output := by rw [h'.output, h.output, List.append_assoc]
  offset := by rw [h'.offset, h.offset, List.length_append, Nat.add_assoc]
  flushed := h'.flushed
  options := h'.options.trans h.options
  newline := h'.newline.trans h.newline
  reliable := fun hr => h'.reliable (h.reliable hr)

/-- text appended, whatever else becomes of the stack -/
theorem adds_append (text : Bytes) (stack : Stack) (rootCount : Nat)
    (h : e.flushed ≤ e.bytes.length) :
    Adds e { e with bytes := e.bytes ++ text, stack := stack, rootCount := rootCount } text where
  output := output_append text h
  offset := by
    simp only [outputOffset, List.length_append]
    omega
  flushed := by
    simp only [List.length_append]
    exact h.trans (Nat.le_add_right _ _)
  options := rfl
  newline := rfl
  reliable := id

/-- either way the writes of a flush can end: all is delivered, or the script has a failure -/
def DrainEnds (script : List WriteResult) (delivered pending : Bytes)
    (r : Except Error Unit × Sink × Bytes) : Prop :=
  (∃ rest, r = (.ok (), ⟨rest, delivered ++ pending⟩, []) ∧ rest ⊆ script) ∨
    (∃ err sink left, r = (.error err, sink, left) ∧
      ∃ x ∈ script, x ≠ .interrupted ∧ ∀ n, x ≠ .accepted (n + 1))

/-- a write that takes part of the pending bytes leaves the rest to the next ones -/
theorem DrainEnds.cons {script : List WriteResult} {delivered pending delivered' pending' : Bytes}
    {r : Except Error Unit × Sink × Bytes} (x : WriteResult)
    (h : DrainEnds script delivered' pending' r)
    (hsum : delivered' ++ pending' = delivered ++ pending) :
    DrainEnds (x :: script) delivered pending r := by
  rcases h with ⟨rest, h1, h2⟩ | ⟨err, sink, left, h1, y, hy, hy'⟩
  · exact .inl ⟨rest, by rw [h1, hsum], fun z hz => List.mem_cons_of_mem x (h2 hz)⟩
  · exact .inr ⟨err, sink, left, h1, y, List.mem_cons_of_mem x hy, hy'⟩

theorem drain_ends (script : List WriteResult) (delivered pending : Bytes) :
    DrainEnds script delivered pending (drain script delivered pending) := by
  induction script generalizing delivered pending with
  | nil =>
    cases pending with
    | nil => exact .inl ⟨[], by simp [drain], List.Subset.refl _⟩
    | cons b pending => exact .inl ⟨[], rfl, List.Subset.refl _⟩
  | cons r script ih =>
    cases pending with
    | nil => exact .inl ⟨r :: script, by simp [drain], List.Subset.refl _⟩
    | cons b pending =>
      cases r with
      | interrupted => exact (ih delivered (b :: pending)).cons _ rfl
      | failed message =>
        exact .inr ⟨_, _, _, rfl, .failed message, List.mem_cons_self, by simp, by simp⟩
      | accepted count =>
        cases count with
        | zero => exact .inr ⟨_, _, _, rfl, .accepted 0, List.mem_cons_self, by simp, by simp⟩
        | succ count =>
          refine (ih (delivered ++ (b :: pending).take (count + 1))
            ((b :: pending).drop (count + 1))).cons _ ?_
          rw [List.append_assoc, List.take_append_drop]

/-- an operation that fails only where the writer does -/
def Commits (x : Op Unit) (e : Encoder) (Q : Encoder → Prop) : Prop :=
  (∃ e', x e = (.ok (), e') ∧ Q e') ∨ (∃ err e', x e = (.error err, e') ∧ ¬ e.Reliable)

theorem flush_commits :
    Commits flush e (fun e' => Adds e e' [] ∧ e'.stack = e.stack ∧ e'.rootCount = e.rootCount) := by
  rw [Commits]
  unfold flush
  cases hs : e.sink with
  | none =>
    refine .inl ⟨_, rfl, ⟨?_, rfl, le_refl _, rfl, rfl, ?_⟩, rfl, rfl⟩
    · simp [output, hs]
    · intro hr sink hsink
      cases hsink
  | some sink =>
    dsimp only
    rcases drain_ends sink.script sink.delivered (e.bytes.drop e.flushed) with
      ⟨rest, hd, hsub⟩ | ⟨err, sink', pending, hd, r, hr, hr1, hr2⟩
    · rw [hd]
      refine .inl ⟨_, rfl, ⟨?_, ?_, Nat.zero_le _, rfl, rfl, ?_⟩, rfl, rfl⟩
      · simp [output, hs]
      · simp [outputOffset]
      · intro hrel sink' hsink
        cases hsink
        intro r hr
        exact hrel sink hs r (hsub hr)
    · rw [hd]
      refine .inr ⟨_, _, rfl, ?_⟩
      intro hrel
      rcases hrel sink hs r hr with h1 | ⟨n, h1⟩
      · exact hr1 h1
      · exact hr2 n h1

/-- the newline of a completed top-level value -/
def lineEnd (e : Encoder) : Bytes :=
  if e.stack = [] ∧ e.omitTopLevelNewline = false then [0x0A] else []

/-- one operation after another -/
theorem Commits.bind {x y : Op Unit} (hx : Commits x e Q)
    (hy : ∀ e', Q e' → Commits y e' R ∧ (e.Reliable → e'.Reliable)) :
    Commits (x >>= fun _ => y) e R := by
  rcases hx with ⟨e', h1, hQ⟩ | ⟨err, e', h1, hr⟩
  · obtain ⟨h2, hrel⟩ := hy e' hQ
    rcases h2 with ⟨e'', h3, hR⟩ | ⟨err, e'', h3, hr⟩
    · exact .inl ⟨e'', by rw [bind_run_ok h1, h3], hR⟩
    · exact .inr ⟨err, e'', by rw [bind_run_ok h1, h3], fun hc => hr (hrel hc)⟩
  · exact .inr ⟨err, e', bind_run_error h1, hr⟩

theorem Commits.of_ok {e e' : Encoder} {Q : Encoder → Prop} (h : Commits x e Q)
    (hx : x e = (.ok (), e')) : Q e' := by
  rcases h with ⟨e1, h1, h2⟩ | ⟨err, e1, h1, -⟩
  · rw [hx] at h1
    cases h1
    exact h2
  · rw [hx] at h1
    cases h1

theorem Commits.succeeds {Q : Encoder → Prop} (h : Commits x e Q)
    (hr : e.Reliable) : ∃ e', x e = (.ok (), e') := by
  rcases h with ⟨e1, h1, -⟩ | ⟨err, e1, h1, hn⟩
  · exact ⟨e1, h1⟩
  · exact absurd hr hn

theorem Commits.weaken (h : Commits x e Q)
    (hR : ∀ e', Q e' → R e') : Commits x e R := by
  rcases h with ⟨e', h1, h2⟩ | h
  · exact .inl ⟨e', h1, hR e' h2⟩
  · exact .inr h

theorem commit_commits (h : e.flushed ≤ e.bytes.length) :
    Commits commit e
      (fun e' => Adds e e' e.lineEnd ∧ e'.stack = e.stack ∧ e'.rootCount = e.rootCount) := by
  have hnone : Adds e e [] := ⟨by simp, rfl, h, rfl, rfl, id⟩
  by_cases hs : e.stack = []
  · -- the newline, and then all is flushed
    obtain ⟨e1, he1, hadds, hstack, hroot⟩ : ∃ e1,
        (if e.omitTopLevelNewline then e else e.append [0x0A]) = e1 ∧ Adds e e1 e.lineEnd ∧
          e1.stack = e.stack ∧ e1.rootCount = e.rootCount := by
      cases hn : e.omitTopLevelNewline with
      | true =>
        refine ⟨e, rfl, ?_, rfl, rfl⟩
        rw [lineEnd, if_neg (by simp [hn])]
        exact hnone
      | false =>
        refine ⟨e.append [0x0A], rfl, ?_, rfl, rfl⟩
        rw [lineEnd, if_pos ⟨hs, hn⟩]
        exact adds_append [0x0A] e.stack e.rootCount h
    have hrun : commit e = flush e1 := by
      rw [← he1]
      show (if e.stack.isEmpty = true then _ else _ : Op Unit) e = _
      rw [if_pos (show e.stack.isEmpty = true by rw [hs]; rfl)]
      rfl
    have hflush := flush_commits (e := e1)
    rw [Commits, ← hrun] at hflush
    rcases hflush with ⟨e', h1, h2, h3, h4⟩ | ⟨err, e', h1, hr⟩
    · refine .inl ⟨e', h1, ?_, h3.trans hstack, h4.trans hroot⟩
      have := hadds.trans h2
      rw [List.append_nil] at this
      exact this
    · exact .inr ⟨err, e', h1, fun hc => hr (hadds.reliable hc)⟩
  · have hline : e.lineEnd = [] := by rw [lineEnd, if_neg (fun hc => hs hc.1)]
    rw [hline]
    have hrun : commit e
        = (if decide (4096 ≤ e.bytes.length - e.flushed) = true then flush else pure () : Op Unit) e := by
      show (if e.stack.isEmpty = true then _ else _ : Op Unit) e = _
      rw [if_neg (show ¬ e.stack.isEmpty = true by simpa using hs)]
      rfl
    rw [Commits, hrun]
    split
    · exact flush_commits
    · exact .inl ⟨e, rfl, hnone, rfl, rfl⟩

/-! ## one token -/

theorem tokenPrefix_plain (h : e.options.indent = none) (kind : Kind) :
    (e.tokenPrefix kind).bytes = (e.stack.delimiterOf kind).toList := by
  rw [tokenPrefix]
  cases hs : e.stack with
  | nil => rfl
  | cons f outer =>
    rw [h]
    simp [TokenPrefix.bytes, Stack.delimiterOf]

/-- a token of the grammar in its place is not refused -/
theorem refusal_step {stack stack' : Stack}
    (h : stepStack options 0 stack token = some stack') : refusal stack token.kind = none := by
  rw [refusal]
  rw [stepStack] at h
  by_cases hend : token.kind.isEnd = true
  · rw [if_pos hend] at h ⊢
    split_ifs at h with hcl
    cases stack with
    | nil =>
      rw [closes] at hcl
      split at hcl <;> simp [Stack.topKind] at hcl
    | cons f outer =>
      rcases closes_cases hend hcl with ⟨hk, hf, hexp⟩ | ⟨hk, hf⟩
      · simp [hk, Stack.topKind, hf, Stack.expectsName, hexp]
      · simp [hk, Stack.topKind, hf]
  · rw [if_neg hend] at h ⊢
    split_ifs at h with h1 h2 h3 h4
    · rw [if_neg h1, if_neg (by simpa using h2)]
    · rw [if_neg h1, if_neg (by simpa using h2)]

theorem appendBody_canon {body : Bytes} (offset : Nat)
    (hbody : BodyText e.options.invalidUtf8 token body) (hcanon : CanonBody token body) :
    appendBody offset token e
      = (.ok (if token.kind = .string then token.text else []), e.append body) := by
  cases token with
  | string d =>
    obtain ⟨t, rfl, ht⟩ := hcanon
    have hs := appendString_canon e.options.invalidUtf8 e.bytes ht
    rw [appendBody, bind_run_ok (x := read id) (a := e) (s := e) rfl]
    simp only [hs]
    rfl
  | number t =>
    obtain ⟨rfl, ht⟩ := hbody
    show (if validNumber body = true then _ else _ : Op Bytes) e = _
    rw [if_pos (validNumber_of_text ht)]
    rfl
  | boolean value =>
    rw [show body = (Token.boolean value).text from hbody]
    cases value <;> rfl
  | null => rw [show body = nullText from hbody]; rfl
  | beginObject => rw [show body = [0x7B] from hbody]; rfl
  | endObject => rw [show body = [0x7D] from hbody]; rfl
  | beginArray => rw [show body = [0x5B] from hbody]; rfl
  | endArray => rw [show body = [0x5D] from hbody]; rfl

/-- **a canonical token writes its piece of the text** -/
theorem appendToken_canon {stack' : Stack}
    (hindent : e.options.indent = none)
    (hstep : TokenStep True e.options 0 e.stack token piece stack') :
    appendToken token e = (.ok (), { e with
      bytes := e.bytes ++ piece
      stack := stack'
      rootCount := e.rootsAfter token.kind }) := by
  obtain ⟨lead, body, rfl, -, hbody, hst, hcanon⟩ := hstep
  obtain ⟨hlead, hcanon⟩ := hcanon trivial
  have hr := refusal_step hst
  have hfront := tokenPrefix_plain hindent token.kind
  rw [← hlead] at hfront
  rw [appendToken, bind_run_ok (show (read id : Op Encoder) e = (.ok e, e) from rfl)]
  rw [hr]
  dsimp only
  rw [bind_run_ok (show (change (append (e.tokenPrefix token.kind).bytes) : Op Unit) e
    = (.ok (), e.append lead) by rw [hfront]; rfl)]
  rw [bind_run_ok (appendBody_canon (e := e.append lead) _ hbody hcanon)]
  rw [stepStack] at hst
  by_cases hend : token.kind.isEnd = true
  · rw [if_pos hend] at hst
    split_ifs at hst with hcl
    cases hst
    rw [if_neg (by simp [hend])]
    show (Except.ok (), advance token.kind _) = _
    simp [advance, hend, append, rootsAfter]
  · rw [if_neg hend] at hst
    rw [Bool.not_eq_true] at hend
    split_ifs at hst with h1 h2 h3 h4
    · cases hst
      have hstring : token.kind = .string := by
        by_contra hk
        exact h1 ⟨h3, hk⟩
      rw [if_pos (by simp [h3, hend]), if_pos hstring]
      have henter : ∀ offset, enterName offset token.text ((e.append lead).append body) = (.ok (),
          { (e.append lead).append body with
            stack := (e.stack.checkName e.options token.text).2.setName token.text }) := by
        intro offset
        rw [enterName]
        show (if (e.stack.checkName e.options token.text).1 = true then _ else _ : Op Unit) _ = _
        rw [if_pos h4]
        rfl
      rw [bind_run_ok (henter _)]
      show (Except.ok (), advance token.kind _) = _
      simp [advance, hend, append, Stack.pushKind, rootsAfter, checkName_isEmpty]
    · cases hst
      rw [Bool.not_eq_true] at h3
      rw [if_neg (by simp [h3])]
      show (Except.ok (), advance token.kind _) = _
      simp [advance, hend, append, Stack.pushKind, rootsAfter]

/-- a canonical token adds its piece, and the newline when it completes a top-level value -/
theorem writeToken_commits {stack' : Stack}
    (hindent : e.options.indent = none) (hflushed : e.flushed ≤ e.bytes.length)
    (hstep : TokenStep True e.options 0 e.stack token piece stack') :
    Commits (writeToken token) e (fun e' => Adds e e'
        (piece ++ (if stack' = [] ∧ e.omitTopLevelNewline = false then [0x0A] else [])) ∧
      e'.stack = stack' ∧ e'.rootCount = e.rootsAfter token.kind) := by
  have hwrite : orTruncate (appendToken token) e = (.ok (), { e with
      bytes := e.bytes ++ piece
      stack := stack'
      rootCount := e.rootsAfter token.kind }) := by
    rw [orTruncate, appendToken_canon hindent hstep]
  have hadds := adds_append piece stack' (e.rootsAfter token.kind) hflushed
  have hcommit := commit_commits hadds.flushed
  rw [Commits, writeToken, bind_run_ok hwrite]
  rcases hcommit with ⟨e', h1, h2, h3, h4⟩ | ⟨err, e', h1, hr⟩
  · exact .inl ⟨e', h1, hadds.trans h2, h3, h4⟩
  · exact .inr ⟨err, e', h1, fun hc => hr (hadds.reliable hc)⟩

/-! ## the run of a value -/

/-- a new container is opened above the ones below -/
theorem pushKind_append (kind : Kind) (stack base : Stack) :
    Stack.pushKind kind (stack ++ base) = stack.pushKind kind ++ base := by
  rw [Stack.pushKind, Stack.pushKind]
  split <;> rfl

/-- the step of a local stack is the same above other open containers, which count for the depth -/
theorem stepStack_under {f : Frame} {stack stack' base : Stack}
    (h : stepStack options base.length (f :: stack) token = some stack') :
    stepStack options 0 (f :: (stack ++ base)) token = some (stack' ++ base) ∧
      stepStack options 0 (f :: stack) token = some stack' := by
  cases hend : token.kind.isEnd with
  | true =>
    obtain ⟨hcl, htail⟩ := (step_end hend).1 h
    have hcl' : closes token.kind (f :: (stack ++ base)) = true := hcl
    refine ⟨(step_end hend).2 ⟨hcl', ?_⟩, (step_end hend).2 ⟨hcl, htail⟩⟩
    rw [htail]
    rfl
  | false =>
    cases hexp : f.expectsName with
    | true =>
      obtain ⟨name, rfl, hfresh, rfl⟩ := (step_name hend hexp).1 h
      exact ⟨(step_name hend hexp).2 ⟨name, rfl, hfresh, rfl⟩,
        (step_name hend hexp).2 ⟨name, rfl, hfresh, rfl⟩⟩
    | false =>
      have hexp1 : Stack.expectsName (f :: stack) = false := hexp
      have hexp2 : Stack.expectsName (f :: (stack ++ base)) = false := hexp
      obtain ⟨hdepth, rfl⟩ := (step_value hend hexp1).1 h
      refine ⟨(step_value hend hexp2).2 ⟨?_, ?_⟩, (step_value hend hexp1).2 ⟨?_, rfl⟩⟩
      · intro hk
        have := hdepth hk
        simp only [List.length_cons, List.length_append] at this ⊢
        omega
      · exact (pushKind_append token.kind (f.counted :: stack) base).symm
      · intro hk
        have := hdepth hk
        omega

/-- the piece of a token is the same above other open containers -/
theorem TokenStep.under {p : Prop} {stack stack' base : Stack} (hopen : stack ≠ [])
    (h : TokenStep p options base.length stack token piece stack') :
    TokenStep p options 0 (stack ++ base) token piece (stack' ++ base) ∧
      TokenStep p options 0 stack token piece stack' := by
  obtain ⟨lead, body, hpiece, hlead, hbody, hst, hcanon⟩ := h
  cases stack with
  | nil => exact absurd rfl hopen
  | cons f stack =>
    obtain ⟨h1, h2⟩ := stepStack_under hst
    exact ⟨⟨lead, body, hpiece, hlead, hbody, h1, hcanon⟩, ⟨lead, body, hpiece, hlead, hbody, h2, hcanon⟩⟩

/-- one token is read and written, and then the others -/
theorem copyTokens_cons {fuel : Nat} {d d1 : Decoder} (hread : Decoder.readToken d = (.ok token, d1))
    (hwrite : Commits (writeToken token) e Q)
    (hrest : ∀ e1, Q e1 → Commits (copyTokens fuel d1) e1 R ∧ (e.Reliable → e1.Reliable)) :
    Commits (copyTokens (fuel + 1) d) e R := by
  have hrun : copyTokens (fuel + 1) d = (writeToken token >>= fun _ => copyTokens fuel d1) := by
    rw [copyTokens, hread]
  rw [hrun]
  exact hwrite.bind hrest

/-- the newline behind a value with the containers of `base` around it -/
def valueEnd (e : Encoder) (base : Stack) : Bytes :=
  if base = [] ∧ e.omitTopLevelNewline = false then [0x0A] else []

/-- **the tokens of a canonical value, read and written one by one, add its text**; `base` are the
containers that were open before it -/
theorem copyTokens_commits {options : Options} {whole text : Bytes} {tokens : List Token}
    {pos fuel : Nat} {stack base : Stack} {e : Encoder} {d : Decoder}
    (h : Trace True options base.length stack text tokens []) (hd : d.At options whole pos stack)
    (hdrop : whole.drop pos = text) (hpos : pos ≤ whole.length) (he : e.stack = stack ++ base)
    (ho : e.options = options) (hindent : options.indent = none)
    (hflushed : e.flushed ≤ e.bytes.length) (hfuel : tokens.length < fuel) :
    Commits (copyTokens fuel d) e (fun e' =>
      Adds e e' (text ++ (if stack = [] then [] else valueEnd e base)) ∧
      e'.stack = base ∧ e'.rootCount = e.rootCount) := by
  obtain ⟨final, hfinal⟩ : ∃ final : Stack, final = [] := ⟨[], rfl⟩
  rw [← hfinal] at h
  induction h generalizing pos fuel e d with
  | nil stack =>
    subst hfinal
    obtain ⟨fuel, rfl⟩ : ∃ n, fuel = n + 1 := ⟨fuel - 1, by omega⟩
    obtain ⟨hread, -⟩ := Decoder.gives_readToken_end hdrop spaces_nil hpos d hd
    have hrun : copyTokens (fuel + 1) d e = (.ok (), e) := by
      rw [copyTokens, show Decoder.readToken d = (.error .eof, (Decoder.readToken d).2) from
        Prod.ext hread rfl]
      rfl
    refine .inl ⟨e, hrun, ?_, he, rfl⟩
    rw [if_pos rfl, List.append_nil]
    exact ⟨by simp, rfl, hflushed, rfl, rfl, id⟩
  | @cons stack stack1 stack2 token piece text tokens hopen hstep h ih =>
    subst hfinal
    obtain ⟨fuel, rfl⟩ : ∃ n, fuel = n + 1 := ⟨fuel - 1, by omega⟩
    obtain ⟨hunder, hlocal⟩ := TokenStep.under hopen hstep
    have htext : whole.drop pos = piece ++ (text ++ []) := by rw [hdrop, List.append_nil]
    obtain ⟨start, hnext⟩ := gives_step true hlocal h.shallow htext stops_nil
    obtain ⟨hread, hd1⟩ := Decoder.gives_readToken hnext d hd
    rw [← ho, ← he] at hunder
    refine copyTokens_cons (Prod.ext hread rfl)
      (writeToken_commits (by rw [ho]; exact hindent) hflushed hunder) ?_
    rintro e1 ⟨hadds, hstack, hroot⟩
    refine ⟨?_, hadds.reliable⟩
    have hlen := Input.length_of_drop hdrop
    have hrest := ih (e := e1) hd1 (Input.drop_add hdrop) (by omega)
      hstack (hadds.options.trans ho) hadds.flushed (by simpa using hfuel) rfl
    refine hrest.weaken ?_
    rintro e2 ⟨hadds2, hstack2, hroot2⟩
    refine ⟨?_, hstack2, ?_⟩
    · -- the newline stands behind the token that closes the value
      have hline : (if stack1 ++ base = [] ∧ e.omitTopLevelNewline = false then [0x0A] else [])
            ++ (text ++ (if stack1 = [] then [] else valueEnd e1 base))
          = text ++ valueEnd e base := by
        cases h with
        | nil => simp [valueEnd]
        | cons hopen1 hstep1 h1 => simp [valueEnd, hopen1, hadds.newline]
      have := hadds.trans hadds2
      rw [List.append_assoc, hline, ← List.append_assoc] at this
      rw [if_neg hopen]
      exact this
    · have hne : e.stack.isEmpty = false := by
        rw [he]
        cases stack with
        | nil => exact absurd rfl hopen
        | cons f stack => rfl
      rw [hroot2, hroot, rootsAfter, hne, Bool.and_false]
      rfl

/-- what both paths do with a canonical value -/
structure Wrote (e e' : Encoder) (bytes : Bytes) : Prop where
  adds : Adds e e'
    ((e.stack.delimiterOf (Kind.fromByte (bytes.headD 0))).toList ++ (bytes ++ e.lineEnd))
  stack : e'.stack = e.stack.countOne
  rootCount : e'.rootCount = if e.stack.isEmpty then e.rootCount + 1 else e.rootCount

theorem countOne_eq_nil {stack : Stack} : stack.countOne = [] ↔ stack = [] := by
  cases stack <;> simp [Stack.countOne, Stack.modifyTop]

/-- the value is copied -/
theorem appendValue_commits (hindent : e.options.indent = none)
    (hflushed : e.flushed ≤ e.bytes.length) :
    Commits (appendValue bytes) e (fun e' => Wrote e e' bytes) := by
  obtain ⟨lead, hlead⟩ : ∃ lead, (e.tokenPrefix (Kind.fromByte (bytes.headD 0))).bytes = lead :=
    ⟨_, rfl⟩
  have hadds := adds_append (lead ++ bytes) e.stack.countOne
    (if e.stack.isEmpty then e.rootCount + 1 else e.rootCount) hflushed
  have hrun : appendValue bytes e = commit
      { e with bytes := e.bytes ++ (lead ++ bytes), stack := e.stack.countOne
               rootCount := if e.stack.isEmpty then e.rootCount + 1 else e.rootCount } := by
    rw [← hlead]
    rfl
  have hcommit := commit_commits hadds.flushed
  rw [Commits, hrun]
  rcases hcommit with ⟨e', h1, h2, h3, h4⟩ | ⟨err, e', h1, hr⟩
  · refine .inl ⟨e', h1, ?_, h3, h4⟩
    have hsum := hadds.trans h2
    rw [tokenPrefix_plain hindent] at hlead
    have hline : lineEnd { e with
        bytes := e.bytes ++ (lead ++ bytes), stack := e.stack.countOne
        rootCount := if e.stack.isEmpty then e.rootCount + 1 else e.rootCount } = e.lineEnd := by
      simp [lineEnd, countOne_eq_nil]
    rw [hline, ← hlead, List.append_assoc] at hsum
    exact hsum
  · exact .inr ⟨err, e', h1, fun hc => hr (hadds.reliable hc)⟩

/-- the value is written token by token -/
theorem copyValue_commits {tokens : List Token}
    (h : ValueTrace True e.options e.stack.length bytes tokens) (hindent : e.options.indent = none)
    (hname : e.stack.expectsName = false) (hflushed : e.flushed ≤ e.bytes.length) :
    Commits (copyTokens (bytes.length + 1) (Decoder.fromSliceWithOptions bytes e.options)) e
      (fun e' => Wrote e e' bytes) := by
  obtain ⟨token, piece, stack, text, more, rfl, rfl, hstep, h⟩ := h
  have hd := Decoder.start_at (piece ++ text) e.options
  have hlocal : TokenStep True e.options 0 [] token piece stack := by
    obtain ⟨lead, body, hpiece, hlead, hbody, hst, hcanon⟩ := hstep
    exact ⟨lead, body, hpiece, hlead, hbody, stepStack_shallow hst, hcanon⟩
  have htext : (piece ++ text).drop 0 = piece ++ (text ++ []) := by simp
  obtain ⟨start, hnext⟩ := gives_step true hlocal h.shallow htext stops_nil
  obtain ⟨hread, hd1⟩ := Decoder.gives_readToken hnext _ hd
  rw [Bool.true_or, if_pos rfl] at hread
  -- the first token stands in the container of the encoder
  obtain ⟨lead, body, hpiece, -, hbody, hst, hcanon⟩ := hstep
  obtain ⟨hlead, hcanon⟩ := hcanon trivial
  have hend : token.kind.isEnd = false := by
    by_contra hc
    rw [Bool.not_eq_false] at hc
    have hcl := ((step_end hc).1 hst).1
    rw [closes] at hcl
    split at hcl <;> simp [Stack.topKind] at hcl
  obtain ⟨hdepth, hstack⟩ := (step_value hend rfl).1 hst
  have hunder : TokenStep True e.options 0 e.stack token
      ((e.stack.delimiterOf token.kind).toList ++ body) (stack ++ e.stack.countOne) := by
    refine ⟨_, body, rfl, ⟨[], [], spaces_nil, spaces_nil, by simp⟩, hbody,
      (step_value hend hname).2 ⟨?_, ?_⟩, fun _ => ⟨rfl, hcanon⟩⟩
    · intro hk
      have := hdepth hk
      simpa using this
    · rw [hstack]
      exact (pushKind_append token.kind [] e.stack.countOne).symm
  have hbytes : piece = body := by rw [hpiece, hlead]; rfl
  obtain ⟨b, tail, hb, hk⟩ := body_head hbody
  have hkind : Kind.fromByte ((piece ++ text).headD 0) = token.kind := by
    rw [hbytes, hb]
    exact hk
  have hlen := h.length_le
  refine copyTokens_cons (Prod.ext hread rfl) (writeToken_commits hindent hflushed hunder) ?_
  rintro e1 ⟨hadds, hstack1, hroot1⟩
  refine ⟨?_, hadds.reliable⟩
  rw [← length_countOne e.stack] at h
  have hrest := @copyTokens_commits _ _ _ _ _ (piece ++ text).length _ _ e1 _ h hd1
    (by rw [Nat.zero_add, List.drop_left]) (by rw [Nat.zero_add, List.length_append]; omega)
    hstack1 hadds.options hindent hadds.flushed
    (by
      have := hlocal.length_pos
      rw [List.length_append]
      omega)
  refine hrest.weaken ?_
  rintro e2 ⟨hadds2, hstack2, hroot2⟩
  refine ⟨?_, hstack2, ?_⟩
  · have hline : (if stack ++ e.stack.countOne = [] ∧ e.omitTopLevelNewline = false
          then [0x0A] else []) ++ (text ++ (if stack = [] then [] else valueEnd e1 e.stack.countOne))
        = text ++ e.lineEnd := by
      cases h with
      | nil => simp [lineEnd, countOne_eq_nil]
      | cons hopen => simp [valueEnd, lineEnd, hopen, hadds.newline, countOne_eq_nil]
    have hsum := hadds.trans hadds2
    rw [List.append_assoc, hline] at hsum
    rw [hkind, hbytes]
    simpa using hsum
  · rw [hroot2, hroot1, rootsAfter, hend]
    rfl

/-! ## both paths -/

/-- the same but for how much of the output is committed -/
structure Same (e e' : Encoder) : Prop where
  output : e.output = e'.output
  offset : e.outputOffset = e'.outputOffset
  stack : e.stack = e'.stack
  rootCount : e.rootCount = e'.rootCount
  options : e.options = e'.options
  newline : e.omitTopLevelNewline = e'.omitTopLevelNewline

theorem Wrote.same {e e1 e2 : Encoder} (h1 : Wrote e e1 bytes)
    (h2 : Wrote e e2 bytes) : Same e1 e2 where
  output := h1.adds.output.trans h2.adds.output.symm
  offset := h1.adds.offset.trans h2.adds.offset.symm
  stack := h1.stack.trans h2.stack.symm
  rootCount := h1.rootCount.trans h2.rootCount.symm
  options := h1.adds.options.trans h2.adds.options.symm
  newline := h1.adds.newline.trans h2.adds.newline.symm

/-- the tokens of a value, written one by one -/
def writeDecoded (bytes : Bytes) : Op Unit := fun e =>
  copyTokens (bytes.length + 1) (Decoder.fromSliceWithOptions bytes e.options) e

/-- the text that the validator accepts as canonical is a run of canonical tokens -/
theorem validator_trace {d : Decoder}
    (h : (do Decoder.skipValue; Decoder.finish : Decoder.Op Unit) (e.validator bytes) = (.ok (), d))
    (hcanon : d.input.noncanonical = false) :
    ∃ tokens, ValueTrace True e.options e.stack.length bytes tokens := by
  obtain ⟨_, d1, h1, h⟩ := bind_eq_ok h
  obtain ⟨r, d2, h2, h1⟩ := bind_eq_ok h1
  cases h1
  have hs : Slice bytes (e.validator bytes).input := ⟨rfl, rfl, rfl⟩
  obtain ⟨s1, -, -, -⟩ := Decoder.readValueRange_reads (p := False) hs rfl h2
    (fun hc => absurd hc id)
  obtain ⟨hflag, w, hw, -, hnil⟩ := Decoder.finish_reads (p := True) s1 h (fun _ => hcanon)
  obtain ⟨-, -, -, text, tokens, htrace, hread⟩ := Decoder.readValueRange_reads (p := True) hs rfl h2
    (fun _ => hflag hcanon)
  have hwhole : bytes = text ++ bytes.drop d1.pos := hread.1
  rw [hw, hnil trivial, List.append_nil] at hwhole
  subst hwhole
  exact ⟨tokens, htrace⟩

/-- **a valid value leaves the same output and the same encoder whether its bytes are copied or its
tokens are written one by one**, apart from how much of the output is committed; and a writer that
does not fail makes both succeed -/
theorem writeValue_tokens (e : Encoder) (bytes : Bytes) (d : Decoder)
    (hflushed : e.flushed ≤ e.bytes.length)
    (hvalid : (do Decoder.skipValue; Decoder.finish : Decoder.Op Unit) (e.validator bytes)
      = (.ok (), d)) :
    (∀ e1 e2, writeValue bytes e = (.ok (), e1) → writeDecoded bytes e = (.ok (), e2) →
      Same e1 e2) ∧
    (e.Reliable → ((writeValue bytes e).1 = .ok () ↔ (writeDecoded bytes e).1 = .ok ())) := by
  have hrun : writeValue bytes e
      = (if !d.input.noncanonical && e.options.indent.isNone && !e.stack.expectsName then
          appendValue bytes
        else copyTokens (bytes.length + 1) (Decoder.fromSliceWithOptions bytes e.options)) e := by
    rw [writeValue, bind_run_ok (show (read id : Op Encoder) e = (.ok e, e) from rfl)]
    rw [hvalid]
  rw [hrun]
  split
  · next hfast =>
    simp only [Bool.and_eq_true, Bool.not_eq_true', Option.isNone_iff_eq_none] at hfast
    obtain ⟨⟨hcanon, hindent⟩, hname⟩ := hfast
    obtain ⟨tokens, htrace⟩ := validator_trace hvalid hcanon
    have hcopy := @appendValue_commits _ bytes hindent hflushed
    have htokens := copyValue_commits htrace hindent hname hflushed
    constructor
    · intro e1 e2 h1 h2
      exact (hcopy.of_ok h1).same (htokens.of_ok h2)
    · intro hr
      obtain ⟨e1, h1⟩ := hcopy.succeeds hr
      obtain ⟨e2, h2⟩ := htokens.succeeds hr
      rw [h1, writeDecoded, h2]
  · refine ⟨?_, fun _ => Iff.rfl⟩
    intro e1 e2 h1 h2
    rw [writeDecoded, h1] at h2
    cases h2
    exact ⟨rfl, rfl, rfl, rfl, rfl, rfl⟩

/-- an encoder that has opened an array -/
def inArray (sink : Option Sink) : Encoder where
  bytes := [0x5B]
  base := 0
  rootCount := 1
  flushed := 0
  stack := [Frame.new .beginArray]
  options := ⟨none, none, none, none⟩
  sink := sink
  omitTopLevelNewline := false

theorem writeValue_tokens_copied :
    ((do Decoder.skipValue; Decoder.finish : Decoder.Op Unit)
      ((inArray none).validator [0x5B, 0x30, 0x5D])).1 = .ok () ∧
    (inArray none).Reliable ∧
    Same (writeValue [0x5B, 0x30, 0x5D] (inArray none)).2
      (writeDecoded [0x5B, 0x30, 0x5D] (inArray none)).2 := by
  have hvalid : ((do Decoder.skipValue; Decoder.finish : Decoder.Op Unit)
      ((inArray none).validator [0x5B, 0x30, 0x5D])).1 = .ok () := rfl
  have hr : (inArray none).Reliable := fun sink h => (nomatch h)
  have h := writeValue_tokens (inArray none) [0x5B, 0x30, 0x5D] _ (by decide) (Prod.ext hvalid rfl)
  exact ⟨hvalid, hr, h.1 _ _ rfl rfl⟩

/-- an array of a long string and a number -/
def longValue : Bytes := 0x5B :: 0x22 :: (List.replicate 4096 0x61 ++ [0x22, 0x2C, 0x30, 0x5D])

/-- the tokens are committed in the middle of the value, the copied bytes behind it; a writer that
fails is met inside the value on one path only -/
theorem writeValue_commits_later :
    ((writeValue longValue (inArray none)).1 = .ok () ∧
      (writeDecoded longValue (inArray none)).1 = .ok () ∧
      (writeValue longValue (inArray none)).2.flushed
        ≠ (writeDecoded longValue (inArray none)).2.flushed) ∧
    (writeValue longValue (inArray (some ⟨[.failed "closed"], []⟩))).2.stack
      ≠ (writeDecoded longValue (inArray (some ⟨[.failed "closed"], []⟩))).2.stack := by
  decide +kernel

end Encoder

end Tsr.Json
