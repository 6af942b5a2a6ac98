import Tsr.Json.Slice

/-!
# Json: what the scanners accept

The other direction of `Tsr.Json.Slice`: when a scanner succeeds on a complete slice, the bytes it
consumed are in the grammar.  `Finds p x Q`: a value of `x` meets `Q`, where `Q` may use `p` for
"nothing was found that the encoder would spell otherwise".

* `Reads i piece j`      the bytes from `i` to `j` are `piece`;
* `Item`, `SpelledText`  the grammar of strings under either policy for invalid text, item by item;
* `finds_space`, `finds_literal`, `finds_number`, `finds_stringInto`   the scanners;
* `gives_stringInto`     a spelled text is read, so that both directions hold for strings.
-/

set_option linter.unusedVariables false

namespace Tsr.Json
open Tsr.Lib Tsr.Lib.Fallible

/-- the bytes from `i` up to `j` -/
def Reads (whole : Bytes) (i : Nat) (piece : Bytes) (j : Nat) : Prop :=
  whole.drop i = piece ++ whole.drop j ∧ j = i + piece.length

section
variable {whole : Bytes} {i j k : Nat}

theorem reads_nil (i : Nat) : Reads whole i [] i := ⟨rfl, rfl⟩

theorem reads_one {b : UInt8} (h : some b = whole[i]?) : Reads whole i [b] (i + 1) := by
  obtain ⟨hlt, hb⟩ := List.getElem?_eq_some_iff.1 h.symm
  refine ⟨?_, rfl⟩
  rw [List.drop_eq_getElem_cons hlt, hb]
  rfl

theorem Reads.append {a b : Bytes} (ha : Reads whole i a j) (hb : Reads whole j b k) :
    Reads whole i (a ++ b) k := by
  refine ⟨?_, ?_⟩
  · rw [ha.1, hb.1, List.append_assoc]
  · rw [hb.2, ha.2, List.length_append, Nat.add_assoc]

theorem Reads.cons {b : UInt8} {piece : Bytes} (h : some b = whole[i]?)
    (hp : Reads whole (i + 1) piece j) : Reads whole i (b :: piece) j :=
  (reads_one h).append hp

theorem Reads.of_drop {piece rest : Bytes} (h : whole.drop i = piece ++ rest) :
    Reads whole i piece (i + piece.length) :=
  ⟨by rw [Input.drop_add h, h], rfl⟩

end

/-! ## the judgement -/

variable {whole : Bytes} {p : Prop}

/-- a value of `x` meets `Q`, if under `p` the text is still canonical when `x` has ended -/
def Finds {α : Type} (whole : Bytes) (p : Prop) (x : Lex α) (Q : α → Prop) : Prop :=
  ∀ s, Slice whole s → Slice whole (x s).2 ∧
    ((x s).2.noncanonical = false → s.noncanonical = false) ∧
    ∀ a, (x s).1 = .ok a → (p → (x s).2.noncanonical = false) → Q a

section
variable {α β : Type} {x : Lex α} {Q Q' : α → Prop}

theorem Finds.weaken (h : Finds whole p x Q) (hQ : ∀ a, Q a → Q' a) : Finds whole p x Q' := by
  intro s hs
  obtain ⟨h1, h2, h3⟩ := h s hs
  exact ⟨h1, h2, fun a ha hp => hQ a (h3 a ha hp)⟩

theorem Finds.of_ok {s s' : Input} {a : α} (h : Finds whole p x Q) (hs : Slice whole s)
    (hx : x s = (.ok a, s')) : Slice whole s' ∧ (s'.noncanonical = false → s.noncanonical = false) ∧
      ((p → s'.noncanonical = false) → Q a) := by
  obtain ⟨h1, h2, h3⟩ := h s hs
  rw [hx] at h1 h2 h3
  exact ⟨h1, h2, h3 a rfl⟩

theorem finds_pure (a : α) (h : Q a) : Finds whole p (pure a : Lex α) Q := by
  intro s hs
  refine ⟨hs, id, ?_⟩
  intro b hb _
  cases hb
  exact h

theorem finds_fail (e : Error) : Finds whole p (fail e : Lex α) Q :=
  fun s hs => ⟨hs, id, nofun⟩

theorem finds_read {v : Input → α} (h : ∀ s, Slice whole s → Q (v s)) :
    Finds whole p (read v : Lex α) Q := by
  intro s hs
  refine ⟨hs, id, ?_⟩
  intro b hb _
  cases hb
  exact h s hs

/-- what the first part found is available only for the value at the end: the flag may be set in
between -/
theorem finds_bind {k : α → Lex β} {R : β → Prop} (hx : Finds whole p x Q)
    (hk : ∀ a, Finds whole p (k a) (fun b => Q a → R b)) : Finds whole p (x >>= k) R := by
  intro s hs
  obtain ⟨h1, h2, h3⟩ := hx s hs
  rcases ends x s with ⟨a, s', h⟩ | ⟨e, s', h⟩
  · rw [h] at h1 h2 h3
    rw [bind_run_ok h]
    obtain ⟨h4, h5, h6⟩ := hk a s' h1
    exact ⟨h4, fun hn => h2 (h5 hn), fun b hb hp => h6 b hb hp (h3 a rfl fun hp' => h5 (hp hp'))⟩
  · rw [h] at h1 h2
    rw [bind_run_error h]
    exact ⟨h1, h2, nofun⟩

theorem finds_attempt (hx : Finds whole p x Q) :
    Finds whole p (attempt x) (fun r => ∀ a, r = some a → Q a) := by
  intro s hs
  obtain ⟨h1, h2, h3⟩ := hx s hs
  rcases ends x s with ⟨a, s', h⟩ | ⟨e, s', h⟩
  · rw [h] at h1 h2 h3
    simp only [attempt, h]
    refine ⟨h1, h2, ?_⟩
    intro r hr hp b hb
    cases hr
    cases hb
    exact h3 a rfl hp
  · rw [h] at h1 h2
    simp only [attempt, h]
    refine ⟨h1, h2, ?_⟩
    intro r hr hp b hb
    cases hr
    cases hb

end

namespace Input

theorem finds_atIndex (i : Nat) : Finds whole p (atIndex i) (fun r => r = whole[i]?) := by
  intro s hs
  obtain ⟨h1, h2⟩ := gives_atIndex i s hs
  refine ⟨h2, ?_, ?_⟩
  · intro hn
    rw [atIndex] at hn
    split at hn
    · exact hn
    · rw [fill, if_pos hs.2.1] at hn
      exact hn
  · intro a ha _
    rw [h1] at ha
    cases ha
    rfl

theorem finds_markNoncanonical : Finds whole p markNoncanonical (fun _ => ¬ p) := by
  intro s hs
  refine ⟨hs, fun h => absurd h (by decide : ¬ true = false), ?_⟩
  intro _ _ hn hp
  exact absurd (hn hp) (by decide : ¬ true = false)

theorem finds_invalid {α : Type} {Q : α → Prop} (i : Nat) (pointer context : String) :
    Finds whole p (invalid i pointer context) Q :=
  finds_bind (Q := fun _ => True) (finds_read fun _ _ => trivial) fun _ => finds_fail _

theorem finds_fuelFrom (i : Nat) :
    Finds whole p (fuelFrom i) (fun fuel => fuel = whole.length + 1 - i) :=
  finds_read fun s hs => by rw [Slice.total hs]

/-! ## space -/

theorem finds_spaceLoop (fuel i : Nat) :
    Finds whole p (spaceLoop fuel i) (fun stop => ∃ w, Reads whole i w stop ∧ Spaces w) := by
  have hnil : ∃ w, Reads whole i w i ∧ Spaces w := ⟨[], reads_nil i, nofun⟩
  induction fuel generalizing i with
  | zero => exact finds_pure _ hnil
  | succ fuel ih =>
    rw [spaceLoop]
    refine finds_bind (finds_atIndex i) ?_
    intro b
    split
    · next hb =>
      refine (ih (i + 1) ⟨[], reads_nil _, nofun⟩).weaken ?_
      rintro stop ⟨w, h1, h2⟩ hat
      cases b with
      | none => simp at hb
      | some b =>
        refine ⟨b :: w, h1.cons hat, ?_⟩
        intro c hc
        rcases List.mem_cons.1 hc with rfl | hc
        · simpa using hb
        · exact h2 c hc
    · exact finds_pure _ fun _ => hnil

/-- **only space is skipped, and under `p` nothing** -/
theorem finds_space (i : Nat) :
    Finds whole p (space i) (fun stop => ∃ w, Reads whole i w stop ∧ Spaces w ∧ (p → w = [])) := by
  rw [space]
  refine finds_bind (finds_fuelFrom i) ?_
  intro fuel
  refine finds_bind (finds_spaceLoop fuel i) ?_
  intro stop
  split
  · refine finds_bind finds_markNoncanonical ?_
    intro _
    refine finds_pure _ ?_
    rintro hp ⟨w, h1, h2⟩ _
    exact ⟨w, h1, h2, fun hc => absurd hc hp⟩
  · next hne =>
    refine finds_pure _ ?_
    rintro ⟨w, h1, h2⟩ _
    refine ⟨w, h1, h2, fun _ => List.length_eq_zero_iff.1 ?_⟩
    have := h1.2
    rw [ne_eq, Decidable.not_not] at hne
    omega

/-! ## literals -/

theorem finds_literalLoop (word : Bytes) (pointer : String) (part : Bytes) (i : Nat) :
    Finds whole p (literalLoop word pointer part i) (fun stop => Reads whole i part stop) := by
  induction part generalizing i with
  | nil => exact finds_pure _ (reads_nil i)
  | cons b part ih =>
    rw [literalLoop]
    refine finds_bind (finds_atIndex i) ?_
    intro r
    cases r with
    | none => exact finds_fail _
    | some actual =>
      dsimp only
      split
      · next hb =>
        subst hb
        exact (ih (i + 1)).weaken fun stop h hat => h.cons hat
      · exact finds_invalid i pointer _

theorem finds_literal (i : Nat) (word : Bytes) (pointer : String) :
    Finds whole p (literal i word pointer) (fun stop => Reads whole i word stop) :=
  finds_literalLoop word pointer word i

/-! ## numbers -/

theorem finds_digitLoop (fuel i : Nat) :
    Finds whole p (digitLoop fuel i) (fun stop => whole.length < i + fuel →
      ∃ ds, Reads whole i ds stop ∧ (∀ b ∈ ds, isDigit b = true) ∧
        (whole.drop stop).head?.any isDigit = false) := by
  induction fuel generalizing i with
  | zero =>
    refine finds_pure _ ?_
    intro hlt
    refine ⟨[], reads_nil i, nofun, ?_⟩
    rw [List.drop_eq_nil_of_le (by omega)]
    rfl
  | succ fuel ih =>
    rw [digitLoop]
    refine finds_bind (finds_atIndex i) ?_
    intro b
    split
    · next hb =>
      refine (ih (i + 1)).weaken ?_
      intro stop h hat hlt
      obtain ⟨ds, h1, h2, h3⟩ := h (by omega)
      cases b with
      | none => simp at hb
      | some b =>
        refine ⟨b :: ds, h1.cons hat, ?_, h3⟩
        intro c hc
        rcases List.mem_cons.1 hc with rfl | hc
        · simpa using hb
        · exact h2 c hc
    · next hb =>
      refine finds_pure _ ?_
      intro hat hlt
      refine ⟨[], reads_nil i, nofun, ?_⟩
      rw [List.head?_drop, ← hat]
      simpa using hb

theorem finds_skipDigits (i : Nat) :
    Finds whole p (skipDigits i) (fun stop => ∃ ds, Reads whole i ds stop ∧
      (∀ b ∈ ds, isDigit b = true) ∧ (whole.drop stop).head?.any isDigit = false) := by
  rw [skipDigits]
  refine finds_bind (finds_fuelFrom i) ?_
  intro fuel
  exact (finds_digitLoop fuel i).weaken fun stop h hfuel => h (by omega)

theorem finds_digits (i : Nat) (pointer : String) :
    Finds whole p (digits i pointer) (fun stop => ∃ ds, Reads whole i ds stop ∧ Digits ds) := by
  rw [digits]
  refine finds_bind (finds_atIndex i) ?_
  intro r
  cases r with
  | none => exact finds_fail _
  | some b =>
    dsimp only
    split
    · next hb =>
      refine (finds_skipDigits i).weaken ?_
      intro stop h hat
      obtain ⟨ds, h1, h2, h3⟩ := h
      refine ⟨ds, h1, ?_, h2⟩
      -- the byte at `i` is a digit, so the run is not empty
      rintro rfl
      have hstop : stop = i := h1.2
      rw [hstop, List.head?_drop, ← hat] at h3
      simp [hb] at h3
    · exact finds_invalid i pointer _

theorem finds_signPart (i : Nat) :
    Finds whole p (signPart i) (fun stop => ∃ sign, Reads whole i sign stop ∧
      (sign = [] ∨ sign = [0x2D])) := by
  rw [signPart]
  refine finds_bind (finds_atIndex i) ?_
  intro b
  split
  · next hb =>
    subst hb
    exact finds_pure _ fun hat => ⟨[0x2D], reads_one hat, .inr rfl⟩
  · exact finds_pure _ fun hat => ⟨[], reads_nil i, .inl rfl⟩

theorem finds_integerPart (i : Nat) (pointer : String) :
    Finds whole p (integerPart i pointer) (fun stop => ∃ int, Reads whole i int stop ∧
      IntegerText int) := by
  rw [integerPart]
  refine finds_bind (finds_atIndex i) ?_
  intro r
  cases r with
  | none => exact finds_fail _
  | some b =>
    dsimp only
    split
    · next hb =>
      subst hb
      exact finds_pure _ fun hat => ⟨[0x30], reads_one hat, .inl rfl⟩
    · next hz =>
      split
      · next hb =>
        refine (finds_skipDigits (i + 1)).weaken ?_
        rintro stop ⟨ds, h1, h2, -⟩ hat
        refine ⟨b :: ds, h1.cons hat, .inr ⟨⟨by simp, ?_⟩, by simpa using hz⟩⟩
        intro c hc
        rcases List.mem_cons.1 hc with rfl | hc
        · exact hb
        · exact h2 c hc
      · exact finds_invalid i pointer _

theorem finds_fractionPart (i : Nat) (pointer : String) :
    Finds whole p (fractionPart i pointer) (fun stop => ∃ frac, Reads whole i frac stop ∧
      FractionText frac) := by
  rw [fractionPart]
  refine finds_bind (finds_atIndex i) ?_
  intro b
  split
  · next hb =>
    subst hb
    refine (finds_digits (i + 1) pointer).weaken ?_
    rintro stop ⟨ds, h1, h2⟩ hat
    exact ⟨0x2E :: ds, h1.cons hat, .inr ⟨ds, rfl, h2⟩⟩
  · exact finds_pure _ fun _ => ⟨[], reads_nil i, .inl rfl⟩

theorem finds_exponentPart (i : Nat) (pointer : String) :
    Finds whole p (exponentPart i pointer) (fun stop => ∃ exp, Reads whole i exp stop ∧
      ExponentText exp) := by
  rw [exponentPart]
  refine finds_bind (finds_atIndex i) ?_
  intro b
  split
  · next hb =>
    obtain ⟨m, rfl, hm⟩ : ∃ m, b = some m ∧ (m = 0x65 ∨ m = 0x45) := by
      rcases hb with rfl | rfl
      · exact ⟨_, rfl, .inl rfl⟩
      · exact ⟨_, rfl, .inr rfl⟩
    refine finds_bind (finds_atIndex (i + 1)) ?_
    intro sign
    split
    · next hs =>
      refine (finds_digits (i + 2) pointer).weaken ?_
      rintro stop ⟨ds, h1, h2⟩ hsign hat
      rcases hs with rfl | rfl
      · exact ⟨_, (h1.cons hsign).cons hat, .inr ⟨m, [0x2B], ds, rfl, hm, .inr (.inl rfl), h2⟩⟩
      · exact ⟨_, (h1.cons hsign).cons hat, .inr ⟨m, [0x2D], ds, rfl, hm, .inr (.inr rfl), h2⟩⟩
    · refine (finds_digits (i + 1) pointer).weaken ?_
      rintro stop ⟨ds, h1, h2⟩ _ hat
      exact ⟨_, h1.cons hat, .inr ⟨m, [], ds, rfl, hm, .inl rfl, h2⟩⟩
  · exact finds_pure _ fun _ => ⟨[], reads_nil i, .inl rfl⟩

/-- **a number is one of the grammar** -/
theorem finds_number (i : Nat) (pointer : String) :
    Finds whole p (number i pointer) (fun stop => ∃ t, Reads whole i t stop ∧ NumberText t) := by
  rw [number]
  refine finds_bind (finds_signPart i) ?_
  intro i1
  refine finds_bind (finds_integerPart i1 pointer) ?_
  intro i2
  refine finds_bind (finds_fractionPart i2 pointer) ?_
  intro i3
  refine (finds_exponentPart i3 pointer).weaken ?_
  rintro stop ⟨exp, h4, hexp⟩ ⟨frac, h3, hfrac⟩ ⟨int, h2, hint⟩ ⟨sign, h1, hsign⟩
  exact ⟨_, h1.append (h2.append (h3.append h4)), sign, int, frac, exp, rfl, hsign, hint, hfrac,
    hexp⟩

end Input

/-! ## the grammar of strings -/

/-- an escaped high surrogate is followed by the escape of a low one -/
def Paired (v : Nat) (rest : Bytes) : Prop :=
  v ≤ 0xDBFF ∧ ∃ ls w, 0x5C :: 0x75 :: ls <+: rest ∧ HexText ls w ∧ 0xDC00 ≤ w ∧ w ≤ 0xDFFF

/-- one item of a string in front of `rest`: its spelling and what it stands for.  Invalid bytes and
single surrogates are items only where they are allowed -/
inductive Item (allow : Bool) (rest : Bytes) : Bytes → Bytes → Prop where
  | plain {b : UInt8} (hb : Input.isSpecial b = false) : Item allow rest [b] [b]
  | simple {e byte : UInt8} (he : Input.simpleEscape e = some byte) :
      Item allow rest [0x5C, e] [byte]
  | unicode {hs : Bytes} {v : Nat} (hv : HexText hs v) (hn : Input.isSurrogate v = false) :
      Item allow rest (0x5C :: 0x75 :: hs) (appendRune v)
  | pair {hs ls : Bytes} {v w : Nat} (hv : HexText hs v) (hv' : 0xD800 ≤ v ∧ v ≤ 0xDBFF)
      (hw : HexText ls w) (hw' : 0xDC00 ≤ w ∧ w ≤ 0xDFFF) :
      Item allow rest (0x5C :: 0x75 :: (hs ++ 0x5C :: 0x75 :: ls)) (appendRune (pairRune v w))
  | sequence {q : Bytes} {rune : Nat} (hq : Sequence q rune) : Item allow rest q q
  | lone {hs : Bytes} {v : Nat} (ha : allow = true) (hv : HexText hs v)
      (hs' : Input.isSurrogate v = true) (hn : ¬ Paired v rest) :
      Item allow rest (0x5C :: 0x75 :: hs) (appendRune runeError)
  | invalid {b : UInt8} (ha : allow = true) (hb : 0x80 ≤ b)
      (hn : ∀ q rune, Sequence q rune → ¬ q <+: b :: rest) :
      Item allow rest [b] (appendRune runeError)

/-- between quotes, the first argument spells the second -/
inductive SpelledText (allow : Bool) : Bytes → Bytes → Prop where
  | nil : SpelledText allow [] []
  | item {q t d d' : Bytes} (h : Item allow t q d) (ht : SpelledText allow t d') :
      SpelledText allow (q ++ t) (d ++ d')

/-- the spelling that the encoder would choose -/
inductive CanonText : Bytes → Bytes → Prop where
  | nil : CanonText [] []
  | plain {b : UInt8} {t d : Bytes} (hb : Input.isSpecial b = false) (h : CanonText t d) :
      CanonText (b :: t) (b :: d)
  | simple {e byte : UInt8} {t d : Bytes} (he : Input.simpleEscape e = some byte)
      (hslash : e ≠ 0x2F) (h : CanonText t d) : CanonText (0x5C :: e :: t) (byte :: d)
  | sequence {q t d : Bytes} {rune : Nat} (hq : Sequence q rune) (h : CanonText t d) :
      CanonText (q ++ t) (q ++ d)

/-- a piece without a quote ends before the closing one -/
theorem starts_quote {q t : Bytes} (more : Bytes) (hq : (0x22 : UInt8) ∉ q) :
    q <+: t ++ 0x22 :: more ↔ q <+: t := by
  constructor
  · intro h
    induction q generalizing t with
    | nil => exact List.nil_prefix
    | cons b q ih =>
      rw [List.mem_cons, not_or] at hq
      cases t with
      | nil =>
        have := (List.cons_prefix_cons.1 h).1
        exact absurd this.symm hq.1
      | cons c t =>
        obtain ⟨h1, h2⟩ := List.cons_prefix_cons.1 h
        exact List.cons_prefix_cons.2 ⟨h1, ih hq.2 h2⟩
  · intro h
    exact h.trans (List.prefix_append t _)

theorem hexFold_quote {value v : Nat} {hs : Bytes} (h : hexFold value hs = some v) :
    (0x22 : UInt8) ∉ hs := by
  induction hs generalizing value with
  | nil => simp
  | cons b hs ih =>
    rw [hexFold] at h
    obtain ⟨digit, hb, h⟩ := Option.bind_eq_some_iff.1 h
    rw [List.mem_cons, not_or]
    refine ⟨?_, ih h⟩
    rintro rfl
    rw [show Input.hexValue 0x22 = none from rfl] at hb
    cases hb

theorem sequence_quote {q : Bytes} {rune : Nat} (h : Sequence q rune) : (0x22 : UInt8) ∉ q := by
  have hne : ∀ b : UInt8, 0x80 ≤ b.toNat → (0x22 : UInt8) ≠ b := by
    rintro b hb rfl
    exact absurd hb (by decide)
  cases h with
  | two a b ha hb =>
    simp [hne a (by omega), hne b (by omega)]
  | three a b c ha hb hc =>
    simp [hne a (by omega), hne b (by omega), hne c (by omega)]
  | four a b c d ha hb hc hd =>
    simp [hne a (by omega), hne b (by omega), hne c (by omega), hne d (by omega)]

/-- a pair does not reach beyond the closing quote -/
theorem paired_quote {v : Nat} {t : Bytes} (more : Bytes) :
    Paired v (t ++ 0x22 :: more) ↔ Paired v t := by
  have hq : ∀ {ls : Bytes} {w : Nat}, HexText ls w → (0x22 : UInt8) ∉ 0x5C :: 0x75 :: ls := by
    intro ls w hw
    have := hexFold_quote hw.2
    simp [this]
  constructor
  · rintro ⟨hv, ls, w, h, hw, hw'⟩
    exact ⟨hv, ls, w, (starts_quote more (hq hw)).1 h, hw, hw'⟩
  · rintro ⟨hv, ls, w, h, hw, hw'⟩
    exact ⟨hv, ls, w, (starts_quote more (hq hw)).2 h, hw, hw'⟩

/-- what an item is does not depend on the bytes behind the closing quote -/
theorem item_quote {allow : Bool} {t q d : Bytes} (more : Bytes) :
    Item allow (t ++ 0x22 :: more) q d ↔ Item allow t q d := by
  have hseq : ∀ {b : UInt8} {q : Bytes} {rune : Nat}, Sequence q rune →
      (q <+: b :: (t ++ 0x22 :: more) ↔ q <+: b :: t) :=
    fun {b} {q} {rune} hq => starts_quote (t := b :: t) more (sequence_quote hq)
  constructor
  · intro h
    cases h with
    | plain hb => exact .plain hb
    | simple he => exact .simple he
    | unicode hv hn => exact .unicode hv hn
    | pair hv hv' hw hw' => exact .pair hv hv' hw hw'
    | sequence hq => exact .sequence hq
    | lone ha hv hs' hn => exact .lone ha hv hs' fun hc => hn ((paired_quote more).2 hc)
    | invalid ha hb hn => exact .invalid ha hb fun q rune hq hc => hn q rune hq ((hseq hq).2 hc)
  · intro h
    cases h with
    | plain hb => exact .plain hb
    | simple he => exact .simple he
    | unicode hv hn => exact .unicode hv hn
    | pair hv hv' hw hw' => exact .pair hv hv' hw hw'
    | sequence hq => exact .sequence hq
    | lone ha hv hs' hn => exact .lone ha hv hs' fun hc => hn ((paired_quote more).1 hc)
    | invalid ha hb hn => exact .invalid ha hb fun q rune hq hc => hn q rune hq ((hseq hq).1 hc)

/-! ## the string scanner -/

theorem Finds.and {α : Type} {x : Lex α} {Q Q' : α → Prop} (h : Finds whole p x Q)
    (h' : ∀ s a, Slice whole s → (x s).1 = .ok a → Q' a) : Finds whole p x (fun a => Q a ∧ Q' a) := by
  intro s hs
  obtain ⟨h1, h2, h3⟩ := h s hs
  exact ⟨h1, h2, fun a ha hp => ⟨h3 a ha hp, h' s a hs ha⟩⟩

/-- what one item of the scan has found -/
def Found (whole : Bytes) (p : Prop) (allow : Bool) (i : Nat) (out : Option Bytes) :
    Input.Scan → Prop
  | .closed stop out' => some 0x22 = whole[i]? ∧ stop = i + 1 ∧ out' = out
  | .more j out' => ∃ q d, Reads whole i q j ∧ out' = Input.emit out d ∧
      Item allow (whole.drop j) q d ∧ (p → ∀ t d', CanonText t d' → CanonText (q ++ t) (d ++ d'))

namespace Input

theorem finds_hexDigits (slash : Nat) (pointer : String) (count i value : Nat) :
    Finds whole p (hexDigits slash pointer count i value) (fun v => ∃ hs,
      Reads whole i hs (i + count) ∧ hs.length = count ∧ hexFold value hs = some v) := by
  induction count generalizing i value with
  | zero => exact finds_pure _ ⟨[], reads_nil i, rfl, rfl⟩
  | succ count ih =>
    rw [hexDigits]
    refine finds_bind (finds_atIndex i) ?_
    intro r
    cases r with
    | none => exact finds_fail _
    | some b =>
      dsimp only
      cases hb : hexValue b with
      | none => exact finds_invalid i pointer _
      | some digit =>
        refine (ih (i + 1) (value * 16 + digit)).weaken ?_
        rintro v ⟨hs, h1, h2, h3⟩ hat
        rw [Nat.add_assoc, Nat.add_comm 1 count] at h1
        refine ⟨b :: hs, h1.cons hat, by rw [List.length_cons, h2], ?_⟩
        rw [hexFold, hb]
        exact h3

theorem finds_hex4 (i slash : Nat) (pointer : String) :
    Finds whole p (hex4 i slash pointer) (fun v => ∃ hs, Reads whole i hs (i + 4) ∧ HexText hs v) :=
  (finds_hexDigits slash pointer 4 i 0).weaken fun v ⟨hs, h1, h2, h3⟩ => ⟨hs, h1, h2, h3⟩

theorem finds_pairAt (i first : Nat) (pointer : String) :
    Finds whole p (pairAt i first pointer) (fun r => ∀ second, r = some second →
      first ≤ 0xDBFF ∧ 0xDC00 ≤ second ∧ second ≤ 0xDFFF ∧
        ∃ ls, Reads whole i (0x5C :: 0x75 :: ls) (i + 6) ∧ HexText ls second) := by
  have hnone : ∀ {Q : Option Nat → Prop}, Q none → Finds whole p (pure none : Lex (Option Nat)) Q :=
    fun h => finds_pure _ h
  rw [pairAt]
  split
  · next hfirst =>
    refine finds_bind (finds_atIndex i) ?_
    intro r
    split
    · next hr =>
      subst hr
      refine finds_bind (finds_atIndex (i + 1)) ?_
      intro r'
      split
      · next hr' =>
        subst hr'
        refine finds_bind (finds_attempt (finds_hex4 (i + 2) i pointer)) ?_
        intro second
        refine finds_pure _ ?_
        intro h hu hs v hv
        obtain ⟨hv1, hv2⟩ := Option.filter_eq_some_iff.1 hv
        obtain ⟨ls, h1, h2⟩ := h v hv1
        rw [decide_eq_true_eq] at hv2
        exact ⟨hfirst, hv2.1, hv2.2, ls, (h1.cons hu).cons hs, h2⟩
      · exact hnone fun _ _ v hv => (by cases hv)
    · exact hnone fun _ v hv => (by cases hv)
  · exact hnone fun v hv => (by cases hv)

/-- without a second half the text is no pair -/
theorem pairAt_none {i first : Nat} {pointer : String} {s : Input} (hs : Slice whole s)
    (h : (pairAt i first pointer s).1 = .ok none) : ¬ Paired first (whole.drop i) := by
  rintro ⟨hv, ls, w, ⟨post, hpre⟩, hw, hw'⟩
  have hd : whole.drop i = 0x5C :: 0x75 :: (ls ++ post) := hpre.symm
  have := (gives_pairAt pointer hd hv hw hw' s hs).1
  rw [h] at this
  cases this

/-- **an escape `\\u` is an item that no encoder writes** -/
theorem finds_unicodeEscape (slash : Nat) (pointer : String) (allow : Bool) :
    Finds whole p (unicodeEscape (slash + 2) slash pointer allow) (fun r => ¬ p ∧ ∃ u,
      Reads whole (slash + 2) u r.1 ∧
        Item allow (whole.drop r.1) (0x5C :: 0x75 :: u) (appendRune r.2)) := by
  rw [unicodeEscape]
  refine finds_bind finds_markNoncanonical ?_
  intro _
  refine finds_bind (finds_hex4 (slash + 2) slash pointer) ?_
  intro first
  split
  · next hsur =>
    have hrange : 0xD800 ≤ first ∧ first ≤ 0xDFFF := by simpa [isSurrogate] using hsur
    refine finds_bind (@Finds.and _ _ _ _ _ (fun r => r = none → ¬ Paired first (whole.drop (slash + 2 + 4)))
      (finds_pairAt (slash + 2 + 4) first pointer) fun s a hs ha hn => pairAt_none hs (by rw [ha, hn])) ?_
    intro r
    cases r with
    | some second =>
      refine finds_pure _ ?_
      rintro ⟨h, -⟩ ⟨hs, h1, h2⟩ hp
      obtain ⟨h3, h4, h5, ls, h6, h7⟩ := h second rfl
      refine ⟨hp, _, h1.append h6, ?_⟩
      exact .pair h2 ⟨hrange.1, h3⟩ h7 ⟨h4, h5⟩
    | none =>
      dsimp only
      split
      · next ha =>
        refine finds_pure _ ?_
        rintro ⟨-, h⟩ ⟨hs, h1, h2⟩ hp
        exact ⟨hp, hs, h1, .lone ha h2 hsur (h rfl)⟩
      · refine finds_bind (finds_atIndex _) ?_
        intro _
        refine finds_bind (Q := fun _ => True) (finds_read fun _ _ => trivial) ?_
        intro _
        exact finds_fail _
  · next hsur =>
    refine finds_pure _ ?_
    rintro ⟨hs, h1, h2⟩ hp
    exact ⟨hp, hs, h1, .unicode h2 (by simpa using hsur)⟩

theorem finds_escapeItem (slash : Nat) (pointer : String) (allow : Bool) (out : Option Bytes) :
    Finds whole p (escapeItem slash pointer allow out)
      (fun r => some 0x5C = whole[slash]? → Found whole p allow slash out r) := by
  rw [escapeItem]
  refine finds_bind (finds_atIndex (slash + 1)) ?_
  intro r
  cases r with
  | none => exact finds_fail _
  | some escape =>
    dsimp only
    split
    · next hu =>
      subst hu
      refine finds_bind (finds_unicodeEscape slash pointer allow) ?_
      rintro ⟨j, rune⟩
      refine finds_pure _ ?_
      rintro ⟨hp, u, h1, h2⟩ hat hslash
      exact ⟨_, _, (h1.cons hat).cons hslash, rfl, h2, fun hc => absurd hc hp⟩
    · cases he : simpleEscape escape with
      | none => exact finds_invalid _ pointer _
      | some byte =>
        dsimp only
        split
        · refine finds_bind finds_markNoncanonical ?_
          intro _
          refine finds_pure _ ?_
          intro hp hat hslash
          exact ⟨_, _, (reads_one hat).cons hslash, rfl, .simple he, fun hc => absurd hc hp⟩
        · next hne =>
          refine finds_pure _ ?_
          intro hat hslash
          exact ⟨_, _, (reads_one hat).cons hslash, rfl, .simple he, fun _ t d' h => .simple he hne h⟩

theorem finds_runeItem (i : Nat) (b : UInt8) (pointer : String) (allow : Bool)
    (out : Option Bytes) (hb : 0x80 ≤ b) :
    Finds whole p (runeItem i pointer allow out)
      (fun r => some b = whole[i]? → Found whole p allow i out r) := by
  rw [runeItem]
  refine finds_bind (finds_atIndex (i + 3)) ?_
  intro _
  refine finds_bind (Q := fun r => r = decodeUtf8 (whole.drop i))
    (finds_read fun s hs => by rw [hs.1]) ?_
  rintro ⟨rune, width⟩
  have hlt : ¬ b < 0x80 := UInt8.not_lt.2 hb
  dsimp only
  split
  · next herr =>
    split
    · next ha =>
      refine finds_bind finds_markNoncanonical ?_
      intro _
      refine finds_pure _ ?_
      intro hp hd _ hat
      obtain ⟨rfl, rfl⟩ := herr
      refine ⟨[b], _, reads_one hat, rfl, .invalid ha hb ?_, fun hc => absurd hc hp⟩
      rintro q rune hq ⟨post, hpre⟩
      have hdrop := (reads_one hat).1
      rw [List.singleton_append] at hdrop
      rw [hdrop, ← hpre, decodeUtf8_sequence hq] at hd
      have hlen := hq.length_bounds
      have hw := congrArg Prod.snd hd
      dsimp only at hw
      omega
    · exact finds_fail _
  · next herr =>
    refine finds_pure _ ?_
    intro hd _ hat
    have hdrop := (reads_one hat).1
    rw [List.singleton_append] at hdrop
    rw [hdrop] at hd
    rcases decodeUtf8_high (whole.drop (i + 1)) hlt with h | ⟨q, rune', post, hq, hsplit, hdec⟩
    · rw [h] at hd
      cases hd
      exact absurd ⟨rfl, rfl⟩ herr
    · rw [hdec] at hd
      cases hd
      refine ⟨q, _, Reads.of_drop (by rw [hdrop, hsplit]), rfl, ?_, ?_⟩
      · rw [appendRune_sequence hq]
        exact .sequence hq
      · intro _ t d' h
        rw [appendRune_sequence hq]
        exact .sequence hq h

/-- **one item of a string** -/
theorem finds_stringItem (i : Nat) (pointer : String) (allow : Bool) (out : Option Bytes) :
    Finds whole p (stringItem i pointer allow out) (Found whole p allow i out) := by
  rw [stringItem]
  refine finds_bind (finds_atIndex i) ?_
  intro r
  cases r with
  | none => exact finds_fail _
  | some b =>
    dsimp only
    split
    · next hb =>
      subst hb
      exact finds_pure _ fun hat => ⟨hat, rfl, rfl⟩
    · next h1 =>
      split
      · next hb =>
        subst hb
        exact finds_escapeItem i pointer allow out
      · next h2 =>
        split
        · exact finds_invalid i pointer _
        · next h3 =>
          split
          · next hb => exact finds_runeItem i b pointer allow out hb
          · next h4 =>
            have hs : isSpecial b = false := by simp [isSpecial, h1, h2, h3, h4]
            refine finds_pure _ ?_
            intro hat
            exact ⟨[b], [b], reads_one hat, rfl, .plain hs, fun _ t d' h => .plain hs h⟩

/-- **the items up to the closing quote** -/
theorem finds_byteLoop (pointer : String) (allow : Bool) (fuel i : Nat) (out : Option Bytes) :
    Finds whole p (byteLoop pointer allow fuel i out) (fun r => ∃ t d,
      Reads whole i (t ++ [0x22]) r.1 ∧ r.2 = emit out d ∧ SpelledText allow t d ∧
        (p → CanonText t d)) := by
  induction fuel generalizing i out with
  | zero => exact finds_fail _
  | succ fuel ih =>
    rw [byteLoop]
    refine finds_bind (finds_stringItem i pointer allow out) ?_
    intro r
    cases r with
    | closed stop out' =>
      refine finds_pure _ ?_
      rintro ⟨hat, rfl, rfl⟩
      exact ⟨[], [], reads_one hat, (emit_nil _).symm, .nil, fun _ => .nil⟩
    | more j out' =>
      refine (ih j out').weaken ?_
      rintro ⟨stop, out''⟩ ⟨t, d, h1, h2, h3, h4⟩ ⟨q, d', h5, rfl, h6, h7⟩
      have hj : whole.drop j = t ++ 0x22 :: whole.drop stop := by simpa using h1.1
      rw [hj, item_quote] at h6
      refine ⟨q ++ t, d' ++ d, ?_, ?_, .item h6 h3, fun hp => h7 hp t d (h4 hp)⟩
      · rw [List.append_assoc]
        exact h5.append h1
      · rw [← emit_emit]
        exact h2

theorem finds_stringInto (i : Nat) (pointer : String) (allow : Bool) (out : Option Bytes)
    (hi : i < whole.length) :
    Finds whole p (stringInto i pointer allow out) (fun r => ∃ t d,
      Reads whole (i + 1) (t ++ [0x22]) r.1 ∧ r.2 = emit out d ∧ SpelledText allow t d ∧
        (p → CanonText t d)) := by
  have hloop : Finds whole p
      (fuelFrom (i + 1) >>= fun fuel => byteLoop pointer allow fuel (i + 1) out) (fun r => ∃ t d,
        Reads whole (i + 1) (t ++ [0x22]) r.1 ∧ r.2 = emit out d ∧ SpelledText allow t d ∧
          (p → CanonText t d)) := by
    refine finds_bind (finds_fuelFrom (i + 1)) ?_
    intro fuel
    exact (finds_byteLoop pointer allow fuel (i + 1) out).weaken fun r h _ => h
  intro s hs
  rw [stringInto_eq i pointer allow out s (by rw [Slice.total hs]; exact hi)]
  exact hloop s hs

/-! ## spelled text is read -/

theorem pairAt_ends (i first : Nat) (pointer : String) {s : Input} (hs : Slice whole s) :
    ∃ r, (pairAt i first pointer s).1 = .ok r := by
  have hnone : ∀ s : Input, ∃ r, ((pure none : Lex (Option Nat)) s).1 = .ok r := fun s => ⟨none, rfl⟩
  have hat : ∀ (j : Nat) {s : Input}, Slice whole s → ∃ r s', atIndex j s = (.ok r, s') ∧
      Slice whole s' := by
    intro j s hs
    obtain ⟨h1, h2⟩ := gives_atIndex j s hs
    exact ⟨_, _, Prod.ext h1 rfl, h2⟩
  rw [pairAt]
  split
  · obtain ⟨r, s1, h1, hs1⟩ := hat i hs
    rw [bind_run_ok h1]
    split
    · obtain ⟨r', s2, h2, hs2⟩ := hat (i + 1) hs1
      rw [bind_run_ok h2]
      split
      · rcases ends (hex4 (i + 2) i pointer) s2 with ⟨v, s3, h3⟩ | ⟨e, s3, h3⟩
        · rw [bind_run_ok (show attempt (hex4 (i + 2) i pointer) s2 = (.ok (some v), s3) by
            rw [attempt, h3])]
          exact ⟨_, rfl⟩
        · rw [bind_run_ok (show attempt (hex4 (i + 2) i pointer) s2 = (.ok none, s3) by
            rw [attempt, h3])]
          exact ⟨_, rfl⟩
      · exact hnone _
    · exact hnone _
  · exact hnone _

theorem gives_pairAt_none {i v : Nat} (pointer : String) (h : ¬ Paired v (whole.drop i)) :
    Gives (Slice whole) (pairAt i v pointer) (.ok none) (Slice whole) := by
  intro s hs
  obtain ⟨h1, -, h3⟩ := finds_pairAt (p := False) i v pointer s hs
  refine ⟨?_, h1⟩
  obtain ⟨r, hr⟩ := pairAt_ends i v pointer hs
  rw [hr]
  cases r with
  | none => rfl
  | some w =>
    obtain ⟨hv, hw1, hw2, ls, h4, h5⟩ := h3 _ hr (fun hc => absurd hc id) w rfl
    exact absurd ⟨hv, ls, w, ⟨_, h4.1.symm⟩, h5, hw1, hw2⟩ h

theorem gives_loneEscape {i v : Nat} {hs rest : Bytes} (slash : Nat) (pointer : String)
    (h : whole.drop i = hs ++ rest) (hv : HexText hs v) (hsur : isSurrogate v = true)
    (hn : ¬ Paired v rest) :
    Gives (Slice whole) (unicodeEscape i slash pointer true) (.ok (i + 4, runeError))
      (Slice whole) := by
  have hnext := drop_add h
  rw [hv.1] at hnext
  rw [unicodeEscape]
  refine gives_bind gives_markNoncanonical ?_
  refine gives_bind (gives_hex4 slash pointer h hv) ?_
  rw [hsur, if_pos rfl]
  refine gives_bind (gives_pairAt_none pointer (by rw [hnext]; exact hn)) ?_
  exact gives_pure _

theorem gives_invalidByte {i : Nat} {b : UInt8} {rest : Bytes} (pointer : String)
    (out : Option Bytes) (h : whole.drop i = b :: rest) (hb : 0x80 ≤ b)
    (hn : ∀ q rune, Sequence q rune → ¬ q <+: b :: rest) :
    Gives (Slice whole) (stringItem i pointer true out)
      (.ok (.more (i + 1) (emit out (appendRune runeError)))) (Slice whole) := by
  have hdecode : decodeUtf8 (b :: rest) = (runeError, 1) := by
    rcases decodeUtf8_high rest (UInt8.not_lt.2 hb) with hd | ⟨q, rune, post, hq, hsplit, -⟩
    · exact hd
    · exact absurd ⟨post, hsplit.symm⟩ (hn q rune hq)
  have h1 : b ≠ 0x22 := by rintro rfl; exact absurd hb (by decide)
  have h2 : b ≠ 0x5C := by rintro rfl; exact absurd hb (by decide)
  have h3 : ¬ b ≤ 31 := by
    rw [UInt8.le_iff_toNat_le] at hb ⊢
    simp at hb ⊢
    omega
  rw [stringItem]
  refine gives_bind (gives_head h) ?_
  simp only [List.head?_cons, h1, h2, h3, hb, if_false, if_true]
  rw [runeItem]
  refine gives_bind (gives_atIndex (i + 3)) ?_
  refine @gives_bind _ _ _ _ _ (Slice whole) _ _ _ (runeError, 1) _ ?_ ?_
  · refine gives_read ?_
    intro s hs
    rw [hs.1, h, hdecode]
  · dsimp only
    rw [if_pos ⟨rfl, rfl⟩, if_pos rfl]
    exact gives_bind gives_markNoncanonical (gives_pure _)

/-- **every item is read as what it stands for** -/
theorem gives_item {i : Nat} {allow : Bool} {q d rest : Bytes} (pointer : String)
    (out : Option Bytes) (h : whole.drop i = q ++ rest) (hq : Item allow rest q d) :
    Gives (Slice whole) (stringItem i pointer allow out) (.ok (.more (i + q.length) (emit out d)))
      (Slice whole) := by
  cases hq with
  | plain hb => exact gives_plain pointer allow out h hb
  | simple he => exact gives_escape pointer allow out h he
  | @unicode hs v hv hn =>
    have := gives_unicode pointer allow out h
      (gives_unicodeEscape i pointer allow (drop_succ (drop_succ h)) hv hn)
    rw [List.length_cons, List.length_cons, hv.1]
    exact this
  | @pair hs ls v w hv hv' hw hw' =>
    have h' : whole.drop i = 0x5C :: 0x75 :: (hs ++ 0x5C :: 0x75 :: (ls ++ rest)) := by simpa using h
    have := gives_unicode pointer allow out h'
      (gives_pairEscape i pointer allow (drop_succ (drop_succ h')) hv hv' hw hw')
    rw [show i + (0x5C :: 0x75 :: (hs ++ 0x5C :: 0x75 :: ls)).length = i + 2 + 10 by
      simp only [List.length_cons, List.length_append, hv.1, hw.1]]
    exact this
  | sequence hq => exact gives_sequence pointer allow out h hq
  | @lone hs v ha hv hsur hn =>
    subst ha
    have := gives_unicode pointer true out h
      (gives_loneEscape i pointer (drop_succ (drop_succ h)) hv hsur hn)
    rw [List.length_cons, List.length_cons, hv.1]
    exact this
  | invalid ha hb hn =>
    subst ha
    exact gives_invalidByte pointer out h hb hn

theorem Item.length_pos {allow : Bool} {q d rest : Bytes} (h : Item allow rest q d) :
    0 < q.length := by
  cases h with
  | sequence hq =>
    have := hq.length_bounds
    omega
  | _ => exact Nat.succ_pos _

theorem gives_byteLoop (pointer : String) (allow : Bool) (t d rest : Bytes) (fuel i : Nat)
    (out : Option Bytes) (ht : SpelledText allow t d) (h : whole.drop i = t ++ 0x22 :: rest)
    (hfuel : t.length < fuel) :
    Gives (Slice whole) (byteLoop pointer allow fuel i out) (.ok (i + t.length + 1, emit out d))
      (Slice whole) := by
  induction ht generalizing i fuel out with
  | nil =>
    obtain ⟨fuel, rfl⟩ : ∃ n, fuel = n + 1 := ⟨fuel - 1, by omega⟩
    rw [byteLoop, emit_nil]
    exact gives_bind (gives_quote pointer allow out h) (gives_pure _)
  | @item q t d d' hq ht ih =>
    obtain ⟨fuel, rfl⟩ : ∃ n, fuel = n + 1 := ⟨fuel - 1, by omega⟩
    have h' : whole.drop i = q ++ (t ++ 0x22 :: rest) := by simpa using h
    have hpos := Item.length_pos hq
    have hrest := ih fuel (i + q.length) (emit out d) (drop_add h')
      (by simp only [List.length_append] at hfuel; omega)
    rw [emit_emit] at hrest
    rw [byteLoop, show i + (q ++ t).length + 1 = i + q.length + t.length + 1 by
      simp only [List.length_append]; omega]
    exact gives_bind (gives_item pointer out h' ((item_quote rest).2 hq)) hrest

theorem gives_stringInto {i : Nat} {allow : Bool} {t d rest : Bytes} (pointer : String)
    (out : Option Bytes) (ht : SpelledText allow t d)
    (h : whole.drop i = 0x22 :: (t ++ 0x22 :: rest)) :
    Gives (Slice whole) (stringInto i pointer allow out) (.ok (i + t.length + 2, emit out d))
      (Slice whole) := by
  intro s hs
  have hlen := @length_of_drop _ _ [] _ h
  simp only [List.length_nil, List.length_cons, List.length_append] at hlen
  rw [stringInto_eq i pointer allow out s (by rw [Slice.total hs]; omega)]
  have hloop := gives_byteLoop pointer allow t d rest (whole.length + 1 - (i + 1)) (i + 1) out ht
    (drop_succ h) (by omega)
  rw [show i + 1 + t.length + 1 = i + t.length + 2 by omega] at hloop
  exact gives_bind (gives_fuelFrom (i + 1)) hloop s hs

/-- **a string is read to its closing quote, and unescaped** -/
theorem gives_string {i : Nat} {allow : Bool} {t d rest : Bytes} (pointer : String)
    (ht : SpelledText allow t d) (h : whole.drop i = 0x22 :: (t ++ 0x22 :: rest)) :
    Gives (Slice whole) (string i pointer allow) (.ok (d, i + t.length + 2)) (Slice whole) := by
  rw [string]
  refine gives_bind (gives_stringInto pointer (some []) ht h) ?_
  exact gives_pure _

end Input

/-- valid text is spelled under either policy -/
theorem StringText.spelled {t d : Bytes} (allow : Bool) (h : StringText t d) :
    SpelledText allow t d := by
  induction h with
  | nil => exact .nil
  | plain hb h ih => exact .item (.plain hb) ih
  | simple he h ih => exact .item (.simple he) ih
  | unicode hv hn h ih => exact .item (.unicode hv hn) ih
  | @pair hs ls t d v w hv hv' hw hw' h ih =>
    have := SpelledText.item (.pair hv hv' hw hw') ih
    simpa using this
  | sequence hq h ih => exact .item (.sequence hq) ih

end Tsr.Json
