import Tsr.Lib.Result
import Tsr.Json.Tokens

/-!
# Json: what the encoder writes is in the grammar

* `toValid`               a text with each invalid byte replaced by the replacement character;
* `appendString_text`     a string is spelled by the grammar, as the text it will be read as;
* `validNumber_text`      an accepted number is one of the grammar;
* `tokenPrefix_lead`      the text in front of a token is space and the delimiter it needs;
* `writeToken_writes`     all of it for one token, with the step of the stack.
-/

namespace Tsr.Json
open Tsr.Lib Tsr.Lib.Fallible

/-! ## texts as they are read back -/

/-- `skip` bytes of the current sequence are still to be copied -/
def toValidFrom : Nat → Bytes → Bytes
  | _, [] => []
  | skip + 1, b :: rest => b :: toValidFrom skip rest
  | 0, b :: rest =>
    if decodeUtf8 (b :: rest) = (runeError, 1) then appendRune runeError ++ toValidFrom 0 rest
    else b :: toValidFrom ((decodeUtf8 (b :: rest)).2 - 1) rest

def toValid (text : Bytes) : Bytes := toValidFrom 0 text

/-- what a text is read back as: invalid bytes are replaced when they are allowed -/
def readText (allowInvalid : Bool) (text : Bytes) : Bytes :=
  if allowInvalid then toValid text else text

theorem toValidFrom_skip (q post : Bytes) : toValidFrom q.length (q ++ post) = q ++ toValidFrom 0 post := by
  induction q with
  | nil => rfl
  | cons b q ih =>
    show b :: toValidFrom q.length (q ++ post) = _
    rw [ih]
    rfl

theorem toValid_ascii {b : UInt8} (rest : Bytes) (h : b < 0x80) :
    toValid (b :: rest) = b :: toValid rest := by
  have hne : (b.toNat, 1) ≠ (runeError, 1) := by
    intro hc
    have h1 : b.toNat = 0xFFFD := congrArg Prod.fst hc
    have h2 := b.toNat_lt
    omega
  rw [toValid, toValidFrom, decodeUtf8_ascii rest h, if_neg hne]
  rfl

theorem toValid_sequence {q : Bytes} {rune : Nat} (hq : Sequence q rune) (post : Bytes) :
    toValid (q ++ post) = q ++ toValid post := by
  have hd := decodeUtf8_sequence hq post
  have hlen := hq.length_bounds
  obtain _ | ⟨b, q'⟩ := q
  · simp at hlen
  have hne : (rune, (b :: q').length) ≠ (runeError, 1) := by
    intro hc
    have : (b :: q').length = 1 := congrArg Prod.snd hc
    omega
  rw [toValid, List.cons_append, toValidFrom]
  rw [List.cons_append] at hd
  rw [hd, if_neg hne]
  show b :: toValidFrom q'.length (q' ++ post) = _
  rw [toValidFrom_skip]
  rfl

theorem toValid_invalid {b : UInt8} {rest : Bytes} (h : decodeUtf8 (b :: rest) = (runeError, 1)) :
    toValid (b :: rest) = appendRune runeError ++ toValid rest := by
  rw [toValid, toValidFrom, if_pos h]
  rfl

theorem lt_of_not_special {b : UInt8} (h : Input.isSpecial b = false) : b < 0x80 := by
  simp only [Input.isSpecial, Bool.or_eq_false_iff, decide_eq_false_iff_not] at h
  exact UInt8.not_le.1 h.2

theorem toValid_run (run post : Bytes) (h : ∀ b ∈ run, Input.isSpecial b = false) :
    toValid (run ++ post) = run ++ toValid post := by
  induction run with
  | nil => rfl
  | cons b run ih =>
    rw [List.cons_append, toValid_ascii _ (lt_of_not_special (h b List.mem_cons_self)),
      ih fun c hc => h c (List.mem_cons_of_mem b hc)]
    rfl

/-! ## strings -/

theorem stringText_run {t d : Bytes} (run : Bytes) (h : ∀ b ∈ run, Input.isSpecial b = false)
    (ht : StringText t d) : StringText (run ++ t) (run ++ d) := by
  induction run with
  | nil => exact ht
  | cons b run ih =>
    exact .plain (h b List.mem_cons_self) (ih fun c hc => h c (List.mem_cons_of_mem b hc))

/-- the spelling of a control character, a quote or a backslash is an escape that stands for it -/
def spellsEscape (n : Nat) : Bool :=
  match escapeRune n with
  | [0x5C, e] => Input.simpleEscape e = some (UInt8.ofNat n)
  | [0x5C, 0x75, a, b, c, d] =>
    hexFold 0 [a, b, c, d] = some n && appendRune n = [UInt8.ofNat n]
      && !Input.isSurrogate n
  | _ => false

theorem spellsEscape_control : ∀ n : Fin 32, spellsEscape n.val = true := by decide +kernel

theorem stringText_escape {b : UInt8} {t d : Bytes} (hs : Input.isSpecial b = true) (hb : b < 0x80)
    (ht : StringText t d) : StringText (escapeRune b.toNat ++ t) (b :: d) := by
  have hspell : spellsEscape b.toNat = true := by
    simp only [Input.isSpecial, Bool.or_eq_true, decide_eq_true_eq] at hs
    rcases hs with ((rfl | rfl) | h) | h
    · decide
    · decide
    · rw [UInt8.le_iff_toNat_le] at h
      exact spellsEscape_control ⟨b.toNat, Nat.lt_succ_of_le h⟩
    · exact absurd hb (UInt8.not_lt.2 h)
  unfold spellsEscape at hspell
  split at hspell
  · next e he =>
    rw [he]
    rw [decide_eq_true_eq, UInt8.ofNat_toNat] at hspell
    exact .simple hspell ht
  · next w x y z he =>
    rw [he]
    simp only [Bool.and_eq_true, decide_eq_true_eq, Bool.not_eq_true', UInt8.ofNat_toNat] at hspell
    obtain ⟨⟨h1, h2⟩, h3⟩ := hspell
    have := StringText.unicode ⟨rfl, h1⟩ h3 ht
    rw [h2] at this
    exact this
  · exact absurd hspell (by decide)

theorem escapeRune_high {rune : Nat} (h : 0x80 ≤ rune) : escapeRune rune = appendRune rune := by
  unfold escapeRune
  rw [if_neg (by omega), if_neg (by omega), if_neg (by omega), if_neg (by omega),
    if_neg (by omega), if_neg (by omega), if_neg (by omega), if_neg (by omega)]

theorem sequence_replacement : Sequence (appendRune runeError) runeError := by
  have h : appendRune runeError = [0xEF, 0xBF, 0xBD] := by decide
  rw [h]
  exact .three 0xEF 0xBF 0xBD (by decide) (by decide) (by decide) (by decide) (by decide)

theorem readText_nil (allow : Bool) : readText allow [] = [] := by cases allow <;> rfl

/-- text that is kept as it is goes through `readText` -/
theorem readText_append (allow : Bool) (a post : Bytes) (h : toValid (a ++ post) = a ++ toValid post) :
    readText allow (a ++ post) = a ++ readText allow post := by
  cases allow with
  | false => rfl
  | true => exact h

/-- **the loop of `appendString` spells the text it gives back** -/
theorem appendStringLoop_text (allow : Bool) (fuel offset : Nat) (text out decoded out' decoded' : Bytes)
    (hfuel : text.length ≤ fuel)
    (h : appendStringLoop allow fuel offset text out decoded = .ok (out', decoded')) :
    ∃ t, out' = out ++ t ∧ decoded' = decoded ++ readText allow text ∧
      StringText t (readText allow text) := by
  induction fuel generalizing offset text out decoded with
  | zero =>
    obtain rfl : text = [] := List.length_eq_zero_iff.1 (by omega)
    cases h
    exact ⟨[], by simp, by simp [readText_nil], by rw [readText_nil]; exact .nil⟩
  | succ fuel ih =>
    -- what one turn of the loop adds, and the text it leaves
    have turn : ∀ (a post piece kept : Bytes) (offset : Nat), post.length ≤ fuel →
        appendStringLoop allow fuel offset post (out ++ piece) (decoded ++ kept)
          = .ok (out', decoded') →
        readText allow text = kept ++ readText allow post →
        (∀ t, StringText t (readText allow post) →
          StringText (piece ++ t) (kept ++ readText allow post)) →
        ∃ t, out' = out ++ t ∧ decoded' = decoded ++ readText allow text ∧
          StringText t (readText allow text) := by
      intro a post piece kept offset hlen hloop hread hspell
      obtain ⟨t, h1, h2, h3⟩ := ih offset post _ _ hlen hloop
      refine ⟨piece ++ t, by rw [h1, List.append_assoc], ?_, ?_⟩
      · rw [h2, hread, List.append_assoc]
      · rw [hread]
        exact hspell t h3
    rw [appendStringLoop] at h
    by_cases hnil : text = []
    · subst hnil
      cases h
      exact ⟨[], by simp, by simp [readText_nil], by rw [readText_nil]; exact .nil⟩
    rw [if_neg hnil] at h
    dsimp only at h
    by_cases hrun : (text.takeWhile fun b => !Input.isSpecial b) ≠ []
    · rw [if_pos hrun] at h
      obtain ⟨run, hr⟩ : ∃ run, run = text.takeWhile fun b => !Input.isSpecial b := ⟨_, rfl⟩
      have hsplit : text = run ++ text.drop run.length := by
        conv_lhs => rw [← List.takeWhile_append_dropWhile (p := fun b => !Input.isSpecial b) (l := text)]
        rw [← hr]
        congr 1
        conv_rhs => rw [← List.takeWhile_append_dropWhile (p := fun b => !Input.isSpecial b) (l := text)]
        rw [← hr, List.drop_left]
      have hplain : ∀ b ∈ run, Input.isSpecial b = false := by
        intro b hb
        rw [hr] at hb
        simpa using List.mem_takeWhile_imp hb
      rw [← hr] at h hrun
      have hpos : 0 < run.length := List.length_pos_iff.2 hrun
      refine turn run (text.drop run.length) run run _ ?_ h ?_ ?_
      · rw [List.length_drop]
        omega
      · conv_lhs => rw [hsplit]
        exact readText_append allow run _ (toValid_run run _ hplain)
      · intro t ht
        exact stringText_run run hplain ht
    · rw [if_neg hrun] at h
      obtain _ | ⟨b, rest⟩ := text
      · exact absurd rfl hnil
      have hspecial : Input.isSpecial b = true := by
        by_contra hs
        rw [Bool.not_eq_true] at hs
        simp [hs] at hrun
      rw [List.length_cons] at hfuel
      by_cases hb : b < 0x80
      · rw [decodeUtf8_ascii rest hb] at h
        have hne : ¬ (b.toNat = runeError ∧ 1 = 1) := by
          rintro ⟨h1, -⟩
          have h2 := b.toNat_lt
          rw [h1] at h2
          exact absurd h2 (by decide)
        dsimp only at h
        rw [if_neg hne] at h
        refine turn [b] rest _ [b] _ (by omega) h (readText_append allow [b] rest
          (toValid_ascii rest hb)) ?_
        intro t ht
        exact stringText_escape hspecial hb ht
      rcases decodeUtf8_high rest hb with herr | ⟨seq, rune, post, hseq, hsplit, hd⟩
      · rw [herr] at h
        dsimp only at h
        rw [if_pos ⟨rfl, rfl⟩] at h
        split_ifs at h with hallow
        subst hallow
        rw [escapeRune_high (by decide)] at h
        refine turn [b] rest _ _ _ (by omega) h (toValid_invalid herr) ?_
        intro t ht
        exact .sequence sequence_replacement ht
      · rw [hd] at h
        have hlen := hseq.length_bounds
        dsimp only at h
        rw [if_neg (by omega), hsplit, List.take_left, List.drop_left,
          escapeRune_high hseq.rune_ge, appendRune_sequence hseq] at h
        have hl := congrArg List.length hsplit
        rw [List.length_cons, List.length_append] at hl
        refine turn seq post _ _ _ (by omega) h ?_ ?_
        · rw [hsplit]
          exact readText_append allow seq post (toValid_sequence hseq post)
        · intro t ht
          exact .sequence hseq ht

/-- **a string is written as the grammar spells the text it will be read as** -/
theorem appendString_text {allow : Bool} {out text out' decoded : Bytes}
    (h : appendString out text allow = .ok (out', decoded)) :
    decoded = readText allow text ∧
      ∃ t, out' = out ++ 0x22 :: (t ++ [0x22]) ∧ StringText t decoded := by
  rw [appendString] at h
  obtain ⟨⟨out1, dec1⟩, h1, h2⟩ := (Tsr.Lib.Result.bind_eq_ok _ _ _).1 h
  obtain ⟨t, ho, hd, ht⟩ := appendStringLoop_text allow _ 0 text _ _ _ _ (le_refl _) h1
  cases h2
  rw [List.nil_append] at hd
  refine ⟨hd, t, ?_, by rw [hd]; exact ht⟩
  rw [ho]
  simp

/-! ## numbers -/

theorem afterDigits_spec {t rest : Bytes} (h : afterDigits t = some rest) :
    ∃ ds, t = ds ++ rest ∧ Digits ds := by
  unfold afterDigits at h
  split_ifs at h with hd
  cases h
  refine ⟨t.takeWhile isDigit, (List.takeWhile_append_dropWhile).symm, ?_, ?_⟩
  · intro hnil
    obtain _ | ⟨b, t⟩ := t
    · simp at hd
    · simp only [List.head?_cons, Option.any_some] at hd
      simp [hd] at hnil
  · intro b hb
    exact List.mem_takeWhile_imp hb

/-- **an accepted number is one of the grammar** -/
theorem validNumber_text {t : Bytes} (h : validNumber t = true) : NumberText t := by
  unfold validNumber at h
  rw [decide_eq_true_eq] at h
  obtain ⟨afterFraction, hfraction, hexponent⟩ := Option.bind_eq_some_iff.1 h
  obtain ⟨afterInteger, hinteger, hfraction⟩ := Option.bind_eq_some_iff.1 hfraction
  -- each part of the text, from the bytes left behind it
  have hexp : ExponentText afterFraction := by
    by_cases hm : afterFraction.head? = some 0x65 ∨ afterFraction.head? = some 0x45
    · rw [if_pos hm] at hexponent
      obtain ⟨ds, hds, hd⟩ := afterDigits_spec hexponent
      rw [List.append_nil] at hds
      obtain _ | ⟨m, r⟩ := afterFraction
      · simp at hm
      rw [List.drop_one, List.tail_cons] at hds
      have hm' : m = 0x65 ∨ m = 0x45 := by simpa using hm
      split_ifs at hds with hsign
      · obtain _ | ⟨sg, r⟩ := r
        · simp at hsign
        refine .inr ⟨m, [sg], ds, ?_, hm', .inr (by simpa using hsign), hd⟩
        rw [← hds]
        rfl
      · exact .inr ⟨m, [], ds, by rw [← hds]; rfl, hm', .inl rfl, hd⟩
    · rw [if_neg hm] at hexponent
      cases hexponent
      exact .inl rfl
  obtain ⟨frac, hf, hfrac⟩ : ∃ frac, afterInteger = frac ++ afterFraction ∧ FractionText frac := by
    split_ifs at hfraction with hdot
    · obtain ⟨ds, hds, hd⟩ := afterDigits_spec hfraction
      obtain _ | ⟨c, r⟩ := afterInteger
      · simp at hdot
      simp only [List.head?_cons, Option.some.injEq] at hdot
      subst hdot
      exact ⟨0x2E :: ds, by simpa using hds, .inr ⟨ds, rfl, hd⟩⟩
    · cases hfraction
      exact ⟨[], rfl, .inl rfl⟩
  obtain ⟨sign, body, hbody, hsign⟩ : ∃ sign body, t = sign ++ body ∧ (sign = [] ∨ sign = [0x2D]) ∧
      body = (if t.head? = some 0x2D then t.drop 1 else t) := by
    split_ifs with hm
    · obtain _ | ⟨c, r⟩ := t
      · simp at hm
      simp only [List.head?_cons, Option.some.injEq] at hm
      subst hm
      exact ⟨[0x2D], r, rfl, .inr rfl, rfl⟩
    · exact ⟨[], t, rfl, .inl rfl, rfl⟩
  obtain ⟨hsign, hb⟩ := hsign
  rw [← hb] at hinteger
  obtain ⟨int, hi, hint⟩ : ∃ int, body = int ++ afterInteger ∧ IntegerText int := by
    split_ifs at hinteger with hz
    · cases hinteger
      obtain _ | ⟨c, r⟩ := body
      · simp at hz
      simp only [List.head?_cons, Option.some.injEq] at hz
      subst hz
      exact ⟨[0x30], rfl, .inl rfl⟩
    · obtain ⟨ds, hds, hd⟩ := afterDigits_spec hinteger
      refine ⟨ds, hds, .inr ⟨hd, ?_⟩⟩
      intro hc
      apply hz
      rw [hds]
      obtain _ | ⟨c, r⟩ := ds
      · exact absurd rfl hd.1
      · simpa using hc
  exact ⟨sign, int, frac, afterFraction, by rw [hbody, hi, hf], hsign, hint, hfrac, hexp⟩

/-! ## the text in front of a token -/

/-- indentation and line prefix are spaces and tabs, as `Encoder.new` checks -/
def Options.Blank (options : Options) : Prop :=
  Encoder.isBlank (options.linePrefix.getD []) = true ∧
    ∀ indent, options.indent = some indent → Encoder.isBlank indent = true

theorem spaces_of_isBlank {w : Bytes} (h : Encoder.isBlank w = true) : Spaces w := by
  intro b hb
  have := List.all_eq_true.1 h b hb
  simp only [Bool.or_eq_true, decide_eq_true_eq] at this
  rcases this with rfl | rfl
  · rfl
  · rfl

theorem spaces_replicate {w : Bytes} (n : Nat) (h : Spaces w) :
    Spaces (List.replicate n w).flatten := by
  intro b hb
  obtain ⟨l, hl, hb⟩ := List.mem_flatten.1 hb
  rw [List.eq_of_mem_replicate hl] at hb
  exact h b hb

/-- **in front of a token stand its delimiter and space** -/
theorem tokenPrefix_lead (e : Encoder) (kind : Kind) (h : e.options.Blank) :
    ∃ w, Spaces w ∧ (e.tokenPrefix kind).bytes = (e.stack.delimiterOf kind).toList ++ w := by
  have hnil : Spaces [] := nofun
  have hspace : Spaces [0x20] := spaces_of_isBlank rfl
  rw [Encoder.tokenPrefix]
  cases hs : e.stack with
  | nil => exact ⟨[], hnil, rfl⟩
  | cons f outer =>
    have hd : Stack.delimiterOf (f :: outer) kind = f.delimiter kind := rfl
    rw [hd]
    cases hi : e.options.indent with
    | none => exact ⟨[], hnil, by simp [TokenPrefix.bytes]⟩
    | some indent =>
      dsimp only
      by_cases hvalue : f.kind = .beginObject ∧ ¬ f.expectsName ∧ ¬ kind.isEnd
      · rw [if_pos hvalue]
        exact ⟨[0x20], hspace, by simp [TokenPrefix.bytes]⟩
      rw [if_neg hvalue]
      by_cases hline : ¬ kind.isEnd ∨ 0 < f.count
      · rw [if_pos hline]
        refine ⟨0x0A :: (e.options.linePrefix.getD [] ++
          (List.replicate ((f :: outer).length - if kind.isEnd then 1 else 0) indent).flatten), ?_, ?_⟩
        · have h1 := spaces_replicate ((f :: outer).length - if kind.isEnd then 1 else 0)
            (spaces_of_isBlank (h.2 indent hi))
          have h2 := (spaces_of_isBlank h.1).append h1
          intro b hb
          rcases List.mem_cons.1 hb with rfl | hb
          · rfl
          · exact h2 b hb
        · simp [TokenPrefix.bytes]
      · rw [if_neg hline]
        exact ⟨[], hnil, by simp [TokenPrefix.bytes]⟩

/-! ## one token -/

/-- a token as it will be read back -/
def Token.readBack (options : Options) : Token → Token
  | .string text => .string (readText options.invalidUtf8 text)
  | token => token

theorem readBack_kind (options : Options) (token : Token) :
    (token.readBack options).kind = token.kind := by
  cases token <;> rfl

namespace Encoder

theorem appendBody_writes {offset : Nat} {token : Token} {e e' : Encoder} {decoded : Bytes}
    (h : appendBody offset token e = (.ok decoded, e')) :
    ∃ body, Body (token.readBack e.options) body ∧ e' = e.append body ∧
      (token.kind = .string → decoded = (token.readBack e.options).text) := by
  obtain ⟨_, _, h1, h⟩ := bind_eq_ok h
  cases h1
  have hconst : ∀ {text : Bytes}, (do change (append text); pure [] : Op Bytes) e = (.ok decoded, e') →
      e' = e.append text := by
    intro text h
    cases h
    rfl
  cases token with
  | string text =>
    dsimp only [id] at h
    cases ha : appendString e.bytes text e.options.invalidUtf8 with
    | error at_ =>
      rw [ha] at h
      cases h
    | ok r =>
      obtain ⟨out, dec⟩ := r
      rw [ha] at h
      cases h
      obtain ⟨hd, t, ho, ht⟩ := appendString_text ha
      refine ⟨0x22 :: (t ++ [0x22]), ⟨t, rfl, by rw [← hd]; exact ht⟩, ?_, fun _ => hd⟩
      rw [Encoder.append, ho]
  | number text =>
    dsimp only [id] at h
    split_ifs at h with hn
    · exact ⟨text, ⟨rfl, validNumber_text hn⟩, hconst h, nofun⟩
    · cases h
  | null => exact ⟨nullText, rfl, hconst h, nofun⟩
  | boolean value =>
    refine ⟨(Token.boolean value).text, rfl, hconst h, ?_⟩
    cases value <;> exact nofun
  | beginObject => exact ⟨[0x7B], rfl, hconst h, nofun⟩
  | endObject => exact ⟨[0x7D], rfl, hconst h, nofun⟩
  | beginArray => exact ⟨[0x5B], rfl, hconst h, nofun⟩
  | endArray => exact ⟨[0x5D], rfl, hconst h, nofun⟩

/-- a token that is not refused closes a container or stands where a value may -/
theorem refusal_none {stack : Stack} {kind : Kind} (h : refusal stack kind = none) :
    if kind.isEnd then closes kind stack = true
    else ¬ (stack.expectsName ∧ kind ≠ .string) ∧ ¬ (kind.isBegin ∧ 10000 ≤ stack.length) := by
  rw [refusal] at h
  by_cases hend : kind.isEnd = true
  · rw [if_pos hend] at h ⊢
    rw [closes]
    by_cases hk : kind = .endObject
    · rw [if_pos hk] at h ⊢
      dsimp only at h
      split_ifs at h with h1 h2
      rw [ne_eq, Decidable.not_not] at h1
      simp only [true_and, Bool.not_eq_true, Bool.not_eq_false] at h2
      simp [h1, h2]
    · rw [if_neg hk] at h ⊢
      dsimp only at h
      split_ifs at h with h1 h2
      · rw [ne_eq, Decidable.not_not] at h1
        simp [h1]
  · rw [if_neg hend] at h ⊢
    split_ifs at h with h1 h2
    exact ⟨h1, h2⟩

/-- top-level values after a token: a token at the top level starts one -/
def rootsAfter (e : Encoder) (kind : Kind) : Nat :=
  if !kind.isEnd && e.stack.isEmpty then e.rootCount + 1 else e.rootCount

theorem checkName_isEmpty (options : Options) (name name' : Bytes) (stack : Stack) :
    ((stack.checkName options name).2.setName name').isEmpty = stack.isEmpty := by
  cases stack with
  | nil =>
    rw [Stack.checkName]
    split <;> rfl
  | cons f outer =>
    rw [Stack.checkName]
    split <;> rfl

/-- **an accepted token appends its text and takes the step of the grammar** -/
theorem appendToken_writes {token : Token} {e e' : Encoder}
    (h : appendToken token e = (.ok (), e')) :
    ∃ body stack', Body (token.readBack e.options) body ∧
      stepStack e.options 0 e.stack (token.readBack e.options) = some stack' ∧
      e' = { e with bytes := e.bytes ++ ((e.tokenPrefix token.kind).bytes ++ body)
                    stack := stack', rootCount := e.rootsAfter token.kind } := by
  obtain ⟨_, _, h1, h⟩ := bind_eq_ok h
  cases h1
  dsimp only [id] at h
  cases hr : refusal e.stack token.kind with
  | some message =>
    rw [hr] at h
    cases h
  | none =>
    rw [hr] at h
    have hok := refusal_none hr
    obtain ⟨_, e1, h1, h⟩ := bind_eq_ok h
    cases h1
    obtain ⟨decoded, e2, h2, h⟩ := bind_eq_ok h
    obtain ⟨body, hbody, rfl, hdec⟩ := appendBody_writes h2
    have hkind : (token.readBack (e.append (e.tokenPrefix token.kind).bytes).options).kind
        = token.kind := readBack_kind _ _
    rw [stepStack, readBack_kind]
    by_cases hend : token.kind.isEnd = true
    · rw [if_pos hend] at hok
      rw [if_neg (by simp [hend])] at h
      cases h
      refine ⟨body, e.stack.tail, hbody, ?_, ?_⟩
      · rw [if_pos hend, if_pos hok]
      · simp [advance, hend, append, rootsAfter]
    · rw [if_neg hend] at hok ⊢
      rw [Bool.not_eq_true] at hend
      rw [if_neg hok.1, if_neg (by simpa using hok.2)]
      by_cases hname : e.stack.expectsName = true
      · rw [if_pos (by simp [hname, hend])] at h
        have hstring : token.kind = .string := by
          by_contra hk
          exact hok.1 ⟨hname, hk⟩
        have hd := hdec hstring
        rw [if_pos hname]
        obtain ⟨_, e3, h3, h⟩ := bind_eq_ok h
        obtain ⟨_, _, h4, h3⟩ := bind_eq_ok h3
        cases h4
        obtain ⟨_, _, h5, h3⟩ := bind_eq_ok h3
        cases h5
        split_ifs at h3 with hfresh
        · cases h3
          cases h
          rw [hd] at hfresh ⊢
          refine ⟨body, _, hbody, if_pos hfresh, ?_⟩
          simp [advance, hend, append, Stack.pushKind, rootsAfter, checkName_isEmpty]
        · cases h3
      · rw [Bool.not_eq_true] at hname
        rw [if_neg (by simp [hname])] at h
        cases h
        rw [if_neg (by simp [hname])]
        refine ⟨body, _, hbody, rfl, ?_⟩
        simp [advance, hend, append, Stack.pushKind, rootsAfter]

/-! ## committing -/

theorem drain_ok {script : List WriteResult} {delivered pending pending' : Bytes} {sink : Sink}
    (h : drain script delivered pending = (.ok (), sink, pending')) :
    sink.delivered = delivered ++ pending := by
  induction script generalizing delivered pending with
  | nil =>
    cases pending with
    | nil =>
      cases h
      simp
    | cons b pending =>
      cases h
      rfl
  | cons r script ih =>
    cases pending with
    | nil =>
      cases h
      simp
    | cons b pending =>
      cases r with
      | interrupted => exact ih h
      | failed message => cases h
      | accepted count =>
        cases count with
        | zero => cases h
        | succ count =>
          rw [ih h, List.append_assoc, List.take_append_drop]

/-- what the encoder relies on between tokens -/
structure Ready (e : Encoder) : Prop where
  flushed : e.flushed ≤ e.bytes.length
  newline : e.omitTopLevelNewline = false
  blank : e.options.Blank

theorem flush_output {e e' : Encoder} (h : flush e = (.ok (), e')) (hr : Ready e) :
    Ready e' ∧ e'.output = e.output ∧ e'.stack = e.stack ∧ e'.options = e.options := by
  unfold flush at h
  cases hs : e.sink with
  | none =>
    rw [hs] at h
    cases h
    refine ⟨⟨le_refl _, hr.newline, hr.blank⟩, ?_, rfl, rfl⟩
    simp [output, hs]
  | some sink =>
    rw [hs] at h
    dsimp only at h
    rcases hd : drain sink.script sink.delivered (e.bytes.drop e.flushed) with ⟨r, sink', pending⟩
    rw [hd] at h
    cases r with
    | error err => cases h
    | ok u =>
      cases h
      refine ⟨⟨Nat.zero_le _, hr.newline, hr.blank⟩, ?_, rfl, rfl⟩
      simp [output, hs, drain_ok hd]

theorem output_append {e : Encoder} (text : Bytes) (h : e.flushed ≤ e.bytes.length) :
    (e.append text).output = e.output ++ text := by
  unfold output append
  cases e.sink with
  | none => rfl
  | some sink =>
    dsimp only
    rw [List.drop_append_of_le_length h, List.append_assoc]

/-- a completed top-level value ends in a newline -/
theorem commit_output {e e' : Encoder} (h : commit e = (.ok (), e')) (hr : Ready e) :
    Ready e' ∧ e'.output = e.output ++ (if e.stack = [] then [0x0A] else []) ∧
      e'.stack = e.stack ∧ e'.options = e.options := by
  obtain ⟨_, _, h1, h⟩ := bind_eq_ok h
  cases h1
  by_cases hs : e.stack = []
  · rw [if_pos (show e.stack.isEmpty = true by rw [hs]; rfl)] at h
    obtain ⟨_, _, h2, h⟩ := bind_eq_ok h
    cases h2
    dsimp only at h
    rw [if_neg (by simp [hr.newline])] at h
    have hr' : Ready (e.append [0x0A]) := by
      refine ⟨?_, hr.newline, hr.blank⟩
      simp only [append, List.length_append]
      exact hr.flushed.trans (Nat.le_add_right _ _)
    obtain ⟨h3, h4, h5, h6⟩ := flush_output h hr'
    refine ⟨h3, ?_, h5, h6⟩
    rw [h4, output_append _ hr.flushed, if_pos hs]
  · have he : e.stack.isEmpty = false := by simpa using hs
    rw [if_neg (show ¬ e.stack.isEmpty = true by simp [he])] at h
    rw [if_neg hs, List.append_nil]
    obtain ⟨_, _, h2, h⟩ := bind_eq_ok h
    cases h2
    split_ifs at h with hf
    · exact flush_output h hr
    · cases h
      exact ⟨hr, rfl, rfl, rfl⟩

/-- **a written token**: its text in the grammar, behind a delimiter and space, and the newline of a
completed top-level value -/
theorem writeToken_writes {token : Token} {e e' : Encoder} (hr : Ready e)
    (h : writeToken token e = (.ok (), e')) :
    Ready e' ∧ e'.options = e.options ∧
      stepStack e.options 0 e.stack (token.readBack e.options) = some e'.stack ∧
      ∃ body, Body (token.readBack e.options) body ∧
        e'.output = e.output ++ ((e.tokenPrefix token.kind).bytes ++
          (body ++ (if e'.stack = [] then [0x0A] else []))) := by
  obtain ⟨_, e1, h1, h⟩ := bind_eq_ok h
  unfold orTruncate at h1
  rcases ends (appendToken token) e with ⟨_, e2, ha⟩ | ⟨err, e2, ha⟩
  · rw [ha] at h1
    cases h1
    obtain ⟨body, stack', hbody, hstep, rfl⟩ := appendToken_writes ha
    have hr' : Ready { e with
        bytes := e.bytes ++ ((e.tokenPrefix token.kind).bytes ++ body)
        stack := stack', rootCount := e.rootsAfter token.kind } := by
      refine ⟨?_, hr.newline, hr.blank⟩
      simp only [List.length_append]
      exact hr.flushed.trans (Nat.le_add_right _ _)
    obtain ⟨h2, h3, h4, h5⟩ := commit_output h hr'
    have hout := output_append (e := e) ((e.tokenPrefix token.kind).bytes ++ body) hr.flushed
    refine ⟨h2, h5, by rw [h4]; exact hstep, body, hbody, ?_⟩
    rw [h3, h4]
    rw [show Encoder.output { e with
        bytes := e.bytes ++ ((e.tokenPrefix token.kind).bytes ++ body)
        stack := stack'
        rootCount := e.rootsAfter token.kind }
        = (e.append ((e.tokenPrefix token.kind).bytes ++ body)).output from rfl, hout]
    simp
  · rw [ha] at h1
    cases h1

end Encoder

end Tsr.Json
