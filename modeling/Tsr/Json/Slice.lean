import Tsr.Json.StringScan

/-!
# Json: the scanners on a complete slice

What each scanner returns on well-formed text, whatever follows the text.  `Slice whole` are the
inputs that hold all bytes of `whole`; the place of a scan is given by the bytes from its index on.

* `Spaces`, `NumberText`, `StringText`   the lexical grammar; `StringText t d`: between quotes, `t`
                                         spells the text `d`;
* `gives_space`, `gives_literal`, `gives_number`   the scanners on such text;
* `gives_plain`, `gives_escape`, ..., `gives_quote`   the items of a string.
-/

namespace Tsr.Json
open Tsr.Lib Tsr.Lib.Fallible

/-- a complete input -/
def Slice (whole : Bytes) (s : Input) : Prop := s.bytes = whole ∧ s.eof = true ∧ s.reader = []

def Spaces (w : Bytes) : Prop := ∀ b ∈ w, Input.isSpace b = true

theorem Spaces.append {v w : Bytes} (hv : Spaces v) (hw : Spaces w) : Spaces (v ++ w) := by
  intro b hb
  rcases List.mem_append.1 hb with h | h
  · exact hv b h
  · exact hw b h

namespace Input

variable {whole : Bytes}

theorem Slice.total {s : Input} (h : Slice whole s) : s.total = whole.length := by
  rw [Input.total, Input.ahead, h.1, h.2.2]
  rfl

/-! ## one byte -/

theorem gives_atIndex (i : Nat) : Gives (Slice whole) (atIndex i) (.ok whole[i]?) (Slice whole) := by
  intro s h
  rw [atIndex]
  split
  · next b hb =>
    rw [h.1] at hb
    rw [hb]
    exact ⟨rfl, h⟩
  · rw [fill, if_pos h.2.1, h.1]
    exact ⟨rfl, h⟩

/-- the byte at the place of the scan -/
theorem gives_head {i : Nat} {rest : Bytes} (h : whole.drop i = rest) :
    Gives (Slice whole) (atIndex i) (.ok rest.head?) (Slice whole) := by
  rw [← h, List.head?_drop]
  exact gives_atIndex i

theorem drop_succ {i : Nat} {b : UInt8} {rest : Bytes} (h : whole.drop i = b :: rest) :
    whole.drop (i + 1) = rest := by
  rw [← List.drop_drop, h]
  rfl

theorem drop_add {i : Nat} {piece rest : Bytes} (h : whole.drop i = piece ++ rest) :
    whole.drop (i + piece.length) = rest := by
  rw [← List.drop_drop, h, List.drop_left]

theorem length_of_drop {i : Nat} {piece rest : Bytes} (h : whole.drop i = piece ++ rest) :
    piece.length + rest.length = whole.length - i := by
  have := congrArg List.length h
  rw [List.length_drop, List.length_append] at this
  exact this.symm

theorem gives_markNoncanonical :
    Gives (Slice whole) markNoncanonical (.ok ()) (Slice whole) :=
  gives_change fun _ h => h

theorem gives_fuelFrom (i : Nat) :
    Gives (Slice whole) (fuelFrom i) (.ok (whole.length + 1 - i)) (Slice whole) := by
  refine gives_read ?_
  intro s h
  rw [Slice.total h]

/-! ## space -/

theorem gives_spaceLoop (w rest : Bytes) (fuel i : Nat) (h : whole.drop i = w ++ rest)
    (hw : Spaces w) (hrest : rest.head?.any isSpace = false) (hfuel : w.length < fuel) :
    Gives (Slice whole) (spaceLoop fuel i) (.ok (i + w.length)) (Slice whole) := by
  induction w generalizing i fuel with
  | nil =>
    obtain ⟨fuel, rfl⟩ : ∃ n, fuel = n + 1 := ⟨fuel - 1, by simp at hfuel; omega⟩
    rw [spaceLoop]
    refine gives_bind (gives_head h) ?_
    rw [List.nil_append, hrest]
    exact gives_pure _
  | cons b w ih =>
    obtain ⟨fuel, rfl⟩ : ∃ n, fuel = n + 1 := ⟨fuel - 1, by simp at hfuel; omega⟩
    rw [spaceLoop]
    refine gives_bind (gives_head h) ?_
    have hb : (((b :: w) ++ rest).head?.any isSpace) = true := by
      simpa using hw b List.mem_cons_self
    rw [hb, if_pos rfl, List.length_cons, ← Nat.add_assoc, Nat.add_right_comm]
    exact ih fuel (i + 1) (drop_succ h) (fun c hc => hw c (List.mem_cons_of_mem b hc))
      (by simp at hfuel; omega)

theorem gives_space {i : Nat} {w rest : Bytes} (h : whole.drop i = w ++ rest) (hw : Spaces w)
    (hrest : rest.head?.any isSpace = false) (hi : i ≤ whole.length) :
    Gives (Slice whole) (space i) (.ok (i + w.length)) (Slice whole) := by
  have hlen := length_of_drop h
  rw [space]
  refine gives_bind (gives_fuelFrom i) ?_
  refine gives_bind (gives_spaceLoop w rest _ i h hw hrest (by omega)) ?_
  split
  · exact gives_bind gives_markNoncanonical (gives_pure _)
  · exact gives_pure _

/-! ## literals -/

theorem gives_literalLoop (word : Bytes) (p : String) (part rest : Bytes) (i : Nat)
    (h : whole.drop i = part ++ rest) :
    Gives (Slice whole) (literalLoop word p part i) (.ok (i + part.length)) (Slice whole) := by
  induction part generalizing i with
  | nil => exact gives_pure _
  | cons b part ih =>
    rw [literalLoop]
    refine gives_bind (gives_head h) ?_
    simp only [List.cons_append, List.head?_cons, if_true]
    rw [List.length_cons, ← Nat.add_assoc, Nat.add_right_comm]
    exact ih (i + 1) (drop_succ h)

theorem gives_literal {i : Nat} {word rest : Bytes} (p : String) (h : whole.drop i = word ++ rest) :
    Gives (Slice whole) (literal i word p) (.ok (i + word.length)) (Slice whole) :=
  gives_literalLoop word p word rest i h

/-! ## numbers -/

/-- what can follow a number without being read as part of it -/
def Stops (rest : Bytes) : Prop :=
  ∀ b, rest.head? = some b → isDigit b = false ∧ b ≠ 0x2E ∧ b ≠ 0x65 ∧ b ≠ 0x45

theorem gives_digitLoop (ds rest : Bytes) (fuel i : Nat) (h : whole.drop i = ds ++ rest)
    (hds : ∀ b ∈ ds, isDigit b = true) (hrest : rest.head?.any isDigit = false)
    (hfuel : ds.length < fuel) :
    Gives (Slice whole) (digitLoop fuel i) (.ok (i + ds.length)) (Slice whole) := by
  induction ds generalizing i fuel with
  | nil =>
    obtain ⟨fuel, rfl⟩ : ∃ n, fuel = n + 1 := ⟨fuel - 1, by simp at hfuel; omega⟩
    rw [digitLoop]
    refine gives_bind (gives_head h) ?_
    rw [List.nil_append, hrest]
    exact gives_pure _
  | cons b ds ih =>
    obtain ⟨fuel, rfl⟩ : ∃ n, fuel = n + 1 := ⟨fuel - 1, by simp at hfuel; omega⟩
    rw [digitLoop]
    refine gives_bind (gives_head h) ?_
    have hb : (((b :: ds) ++ rest).head?.any isDigit) = true := by
      simpa using hds b List.mem_cons_self
    rw [hb, if_pos rfl, List.length_cons, ← Nat.add_assoc, Nat.add_right_comm]
    exact ih fuel (i + 1) (drop_succ h) (fun c hc => hds c (List.mem_cons_of_mem b hc))
      (by simp at hfuel; omega)

theorem gives_skipDigits {i : Nat} {ds rest : Bytes} (h : whole.drop i = ds ++ rest)
    (hds : ∀ b ∈ ds, isDigit b = true) (hrest : rest.head?.any isDigit = false)
    (hi : i ≤ whole.length) :
    Gives (Slice whole) (skipDigits i) (.ok (i + ds.length)) (Slice whole) := by
  have hlen := length_of_drop h
  rw [skipDigits]
  refine gives_bind (gives_fuelFrom i) ?_
  exact gives_digitLoop ds rest _ i h hds hrest (by omega)

theorem gives_digits {i : Nat} {ds rest : Bytes} (p : String) (h : whole.drop i = ds ++ rest)
    (hne : ds ≠ []) (hds : ∀ b ∈ ds, isDigit b = true) (hrest : rest.head?.any isDigit = false) :
    Gives (Slice whole) (digits i p) (.ok (i + ds.length)) (Slice whole) := by
  obtain _ | ⟨b, ds⟩ := ds
  · exact absurd rfl hne
  have hi : i ≤ whole.length := by
    have := length_of_drop h
    simp only [List.length_cons] at this
    omega
  rw [digits]
  refine gives_bind (gives_head h) ?_
  simp only [List.cons_append, List.head?_cons, hds b List.mem_cons_self, if_true]
  exact gives_skipDigits h hds hrest hi

end Input

/-- digits, at least one -/
def Digits (ds : Bytes) : Prop := ds ≠ [] ∧ ∀ b ∈ ds, isDigit b = true

/-- `0`, or digits that do not start with it -/
def IntegerText (t : Bytes) : Prop := t = [0x30] ∨ (Digits t ∧ t.head? ≠ some 0x30)

def FractionText (t : Bytes) : Prop := t = [] ∨ ∃ ds, t = 0x2E :: ds ∧ Digits ds

def ExponentText (t : Bytes) : Prop :=
  t = [] ∨ ∃ m sign ds, t = m :: (sign ++ ds) ∧ (m = 0x65 ∨ m = 0x45) ∧
    (sign = [] ∨ sign = [0x2B] ∨ sign = [0x2D]) ∧ Digits ds

/-- the grammar of numbers -/
def NumberText (t : Bytes) : Prop :=
  ∃ sign int frac exp, t = sign ++ (int ++ (frac ++ exp)) ∧ (sign = [] ∨ sign = [0x2D]) ∧
    IntegerText int ∧ FractionText frac ∧ ExponentText exp

theorem IntegerText.ne_nil {t : Bytes} (h : IntegerText t) : t ≠ [] := by
  rcases h with rfl | h
  · simp
  · exact h.1.1

theorem IntegerText.digit {t : Bytes} (h : IntegerText t) : ∀ b ∈ t, isDigit b = true := by
  rcases h with rfl | h
  · intro b hb
    rw [List.mem_singleton.1 hb]
    decide
  · exact h.1.2

namespace Input

variable {whole : Bytes}

/-- no digit follows an integer part -/
theorem noDigit_fraction {frac exp rest : Bytes} (hf : FractionText frac) (he : ExponentText exp)
    (hr : Stops rest) : (frac ++ (exp ++ rest)).head?.any isDigit = false := by
  rcases hf with rfl | ⟨ds, rfl, -⟩
  · rcases he with rfl | ⟨m, sign, ds, rfl, hm, -, -⟩
    · cases h : rest.head? with
      | none => simp [h]
      | some b => simpa [h] using (hr b h).1
    · rcases hm with rfl | rfl
      · rfl
      · rfl
  · rfl

theorem gives_signPart {i : Nat} {sign rest : Bytes} (h : whole.drop i = sign ++ rest)
    (hs : sign = [] ∨ sign = [0x2D]) (hr : rest.head? ≠ some 0x2D) :
    Gives (Slice whole) (signPart i) (.ok (i + sign.length)) (Slice whole) := by
  rw [signPart]
  refine gives_bind (gives_head h) ?_
  rcases hs with rfl | rfl
  · rw [List.nil_append, if_neg hr]
    exact gives_pure _
  · exact gives_pure _

theorem gives_integerPart {i : Nat} {int rest : Bytes} (p : String)
    (h : whole.drop i = int ++ rest) (hi : IntegerText int)
    (hr : rest.head?.any isDigit = false) :
    Gives (Slice whole) (integerPart i p) (.ok (i + int.length)) (Slice whole) := by
  rw [integerPart]
  refine gives_bind (gives_head h) ?_
  rcases hi with rfl | ⟨⟨hne, hds⟩, hz⟩
  · exact gives_pure _
  · obtain _ | ⟨b, ds⟩ := int
    · exact absurd rfl hne
    have hb : b ≠ 0x30 := by simpa using hz
    simp only [List.cons_append, List.head?_cons, hb, if_false, hds b List.mem_cons_self, if_true]
    have hlen := length_of_drop h
    simp only [List.length_cons] at hlen
    rw [List.length_cons, ← Nat.add_assoc, Nat.add_right_comm]
    exact gives_skipDigits (drop_succ h) (fun c hc => hds c (List.mem_cons_of_mem b hc)) hr
      (by omega)

theorem gives_fractionPart {i : Nat} {frac rest : Bytes} (p : String)
    (h : whole.drop i = frac ++ rest) (hf : FractionText frac)
    (hr : rest.head?.any isDigit = false) (hdot : rest.head? ≠ some 0x2E) :
    Gives (Slice whole) (fractionPart i p) (.ok (i + frac.length)) (Slice whole) := by
  rw [fractionPart]
  refine gives_bind (gives_head h) ?_
  rcases hf with rfl | ⟨ds, rfl, hne, hds⟩
  · rw [List.nil_append, if_neg hdot]
    exact gives_pure _
  · simp only [List.cons_append, List.head?_cons, if_true]
    rw [List.length_cons, ← Nat.add_assoc, Nat.add_right_comm]
    exact gives_digits p (drop_succ h) hne hds hr

theorem gives_exponentPart {i : Nat} {exp rest : Bytes} (p : String)
    (h : whole.drop i = exp ++ rest) (he : ExponentText exp) (hr : Stops rest) :
    Gives (Slice whole) (exponentPart i p) (.ok (i + exp.length)) (Slice whole) := by
  have hdigit : rest.head?.any isDigit = false :=
    noDigit_fraction (.inl rfl) (.inl rfl) hr
  rw [exponentPart]
  refine gives_bind (gives_head h) ?_
  rcases he with rfl | ⟨m, sign, ds, rfl, hm, hsign, hne, hds⟩
  · rw [if_neg]
    · exact gives_pure _
    rintro (hb | hb)
    · exact (hr _ hb).2.2.1 rfl
    · exact (hr _ hb).2.2.2 rfl
  have hm' : ((m :: (sign ++ ds)) ++ rest).head? = some 0x65 ∨
      ((m :: (sign ++ ds)) ++ rest).head? = some 0x45 := by
    simpa using hm
  rw [if_pos hm']
  have hnext := drop_succ (b := m) (by simpa using h)
  refine gives_bind (gives_head hnext) ?_
  rcases hsign with rfl | rfl | rfl
  · -- no sign: a digit comes first
    have hd : ¬ (([] ++ (ds ++ rest)).head? = some 0x2B ∨ ([] ++ (ds ++ rest)).head? = some 0x2D) := by
      obtain _ | ⟨b, ds⟩ := ds
      · exact absurd rfl hne
      have hb := hds b List.mem_cons_self
      simp only [List.nil_append, List.cons_append, List.head?_cons, Option.some.injEq]
      rintro (rfl | rfl)
      · exact absurd hb (by decide)
      · exact absurd hb (by decide)
    rw [if_neg hd]
    have := @gives_digits _ _ ds rest p hnext hne hds hdigit
    simpa [Nat.add_comm, Nat.add_left_comm] using this
  · have := @gives_digits _ _ ds rest p (drop_succ hnext) hne hds hdigit
    simpa [Nat.add_comm, Nat.add_left_comm] using this
  · have := @gives_digits _ _ ds rest p (drop_succ hnext) hne hds hdigit
    simpa [Nat.add_comm, Nat.add_left_comm] using this

/-- **a number is read to its end** -/
theorem gives_number {i : Nat} {t rest : Bytes} (p : String) (h : whole.drop i = t ++ rest)
    (ht : NumberText t) (hr : Stops rest) :
    Gives (Slice whole) (number i p) (.ok (i + t.length)) (Slice whole) := by
  obtain ⟨sign, int, frac, exp, rfl, hsign, hint, hfrac, hexp⟩ := ht
  rw [List.append_assoc, List.append_assoc, List.append_assoc] at h
  have hdigit := noDigit_fraction hfrac hexp hr
  have hminus : (int ++ (frac ++ (exp ++ rest))).head? ≠ some 0x2D := by
    obtain _ | ⟨b, ds⟩ := int
    · exact absurd rfl hint.ne_nil
    have hb := hint.digit b List.mem_cons_self
    simp only [List.cons_append, List.head?_cons, ne_eq, Option.some.injEq]
    rintro rfl
    exact absurd hb (by decide)
  have hdot : (exp ++ rest).head? ≠ some 0x2E := by
    rcases hexp with rfl | ⟨m, s, ds, rfl, hm, -, -⟩
    · intro hb
      exact (hr _ hb).2.1 rfl
    · rcases hm with rfl | rfl <;> simp
  rw [number]
  refine gives_bind (gives_signPart h hsign hminus) ?_
  refine gives_bind (gives_integerPart p (drop_add h) hint hdigit) ?_
  refine gives_bind (gives_fractionPart p (drop_add (drop_add h)) hfrac
    (noDigit_fraction (.inl rfl) hexp hr) hdot) ?_
  have := gives_exponentPart p (drop_add (drop_add (drop_add h))) hexp hr
  simpa [Nat.add_assoc] using this

end Input

/-! ## strings -/

/-- the value of hexadecimal digits behind `value` -/
def hexFold : Nat → Bytes → Option Nat
  | value, [] => some value
  | value, b :: bs => (Input.hexValue b).bind fun digit => hexFold (value * 16 + digit) bs

/-- four hexadecimal digits -/
def HexText (hs : Bytes) (v : Nat) : Prop := hs.length = 4 ∧ hexFold 0 hs = some v

/-- the rune of a surrogate pair -/
def pairRune (first second : Nat) : Nat := 0x10000 + ((first - 0xD800) <<< 10) + (second - 0xDC00)

/-- the grammar of strings: between quotes, the first argument spells the second -/
inductive StringText : Bytes → Bytes → Prop where
  | nil : StringText [] []
  | plain {b : UInt8} {t d : Bytes} (hb : Input.isSpecial b = false) (h : StringText t d) :
      StringText (b :: t) (b :: d)
  | simple {e byte : UInt8} {t d : Bytes} (he : Input.simpleEscape e = some byte)
      (h : StringText t d) : StringText (0x5C :: e :: t) (byte :: d)
  | unicode {hs t d : Bytes} {v : Nat} (hv : HexText hs v) (hs' : Input.isSurrogate v = false)
      (h : StringText t d) : StringText (0x5C :: 0x75 :: (hs ++ t)) (appendRune v ++ d)
  | pair {hs ls t d : Bytes} {v w : Nat} (hv : HexText hs v) (hv' : 0xD800 ≤ v ∧ v ≤ 0xDBFF)
      (hw : HexText ls w) (hw' : 0xDC00 ≤ w ∧ w ≤ 0xDFFF) (h : StringText t d) :
      StringText (0x5C :: 0x75 :: (hs ++ 0x5C :: 0x75 :: (ls ++ t))) (appendRune (pairRune v w) ++ d)
  | sequence {q t d : Bytes} {rune : Nat} (hq : Sequence q rune) (h : StringText t d) :
      StringText (q ++ t) (q ++ d)

namespace Input

variable {whole : Bytes}

theorem gives_hexDigits (slash : Nat) (p : String) (hs rest : Bytes) (i value v : Nat)
    (h : whole.drop i = hs ++ rest) (hv : hexFold value hs = some v) :
    Gives (Slice whole) (hexDigits slash p hs.length i value) (.ok v) (Slice whole) := by
  induction hs generalizing i value with
  | nil =>
    cases hv
    exact gives_pure _
  | cons b hs ih =>
    rw [hexFold] at hv
    obtain ⟨digit, hb, hv⟩ := Option.bind_eq_some_iff.1 hv
    rw [List.length_cons, hexDigits]
    refine gives_bind (gives_head h) ?_
    simp only [List.cons_append, List.head?_cons, hb]
    exact ih (i + 1) _ (drop_succ h) hv

theorem gives_hex4 {i v : Nat} {hs rest : Bytes} (slash : Nat) (p : String)
    (h : whole.drop i = hs ++ rest) (hv : HexText hs v) :
    Gives (Slice whole) (hex4 i slash p) (.ok v) (Slice whole) := by
  have := gives_hexDigits slash p hs rest i 0 v h hv.2
  rw [hv.1] at this
  exact this

/-- an item that is not the closing quote -/
theorem gives_plain {i : Nat} {b : UInt8} {rest : Bytes} (p : String) (allow : Bool)
    (out : Option Bytes) (h : whole.drop i = b :: rest) (hb : isSpecial b = false) :
    Gives (Slice whole) (stringItem i p allow out) (.ok (.more (i + 1) (emit out [b])))
      (Slice whole) := by
  intro s hs
  have hat : s.bytes[i]? = some b := by rw [hs.1, ← List.head?_drop, h]; rfl
  rw [stringItem_plain p allow out hat hb]
  exact ⟨rfl, hs⟩

theorem gives_escape {i : Nat} {e byte : UInt8} {rest : Bytes} (p : String) (allow : Bool)
    (out : Option Bytes) (h : whole.drop i = 0x5C :: e :: rest) (he : simpleEscape e = some byte) :
    Gives (Slice whole) (stringItem i p allow out) (.ok (.more (i + 2) (emit out [byte])))
      (Slice whole) := by
  have hu : e ≠ 0x75 := by
    rintro rfl
    simp [simpleEscape] at he
  rw [stringItem]
  refine gives_bind (gives_head h) ?_
  show Gives _ (escapeItem i p allow out) _ _
  rw [escapeItem]
  refine gives_bind (gives_head (drop_succ h)) ?_
  simp only [List.head?_cons, hu, if_false, he]
  split
  · exact gives_bind gives_markNoncanonical (gives_pure _)
  · exact gives_pure _

/-- the escape `\u` around what `unicodeEscape` reads -/
theorem gives_unicode {i j rune : Nat} {rest : Bytes} (p : String) (allow : Bool)
    (out : Option Bytes) (h : whole.drop i = 0x5C :: 0x75 :: rest)
    (hu : Gives (Slice whole) (unicodeEscape (i + 2) i p allow) (.ok (j, rune)) (Slice whole)) :
    Gives (Slice whole) (stringItem i p allow out) (.ok (.more j (emit out (appendRune rune))))
      (Slice whole) := by
  rw [stringItem]
  refine gives_bind (gives_head h) ?_
  show Gives _ (escapeItem i p allow out) _ _
  rw [escapeItem]
  refine gives_bind (gives_head (drop_succ h)) ?_
  simp only [List.head?_cons, if_true]
  exact gives_bind hu (gives_pure _)

theorem gives_unicodeEscape {i v : Nat} {hs rest : Bytes} (slash : Nat) (p : String) (allow : Bool)
    (h : whole.drop i = hs ++ rest) (hv : HexText hs v) (hn : isSurrogate v = false) :
    Gives (Slice whole) (unicodeEscape i slash p allow) (.ok (i + 4, v)) (Slice whole) := by
  rw [unicodeEscape]
  refine gives_bind gives_markNoncanonical ?_
  refine gives_bind (gives_hex4 slash p h hv) ?_
  rw [hn, if_neg (by decide)]
  exact gives_pure _

theorem gives_pairAt {i v w : Nat} {ls rest : Bytes} (p : String)
    (h : whole.drop i = 0x5C :: 0x75 :: (ls ++ rest)) (hv : v ≤ 0xDBFF) (hw : HexText ls w)
    (hw' : 0xDC00 ≤ w ∧ w ≤ 0xDFFF) :
    Gives (Slice whole) (pairAt i v p) (.ok (some w)) (Slice whole) := by
  rw [pairAt, if_pos hv]
  refine gives_bind (gives_head h) ?_
  rw [List.head?_cons, if_pos rfl]
  refine gives_bind (gives_head (drop_succ h)) ?_
  rw [List.head?_cons, if_pos rfl]
  refine gives_bind (gives_attempt (gives_hex4 i p (drop_succ (drop_succ h)) hw)) ?_
  have hfilter : (some w).filter (fun second => decide (0xDC00 ≤ second ∧ second ≤ 0xDFFF))
      = some w := by
    simp [Option.filter, hw']
  rw [hfilter]
  exact gives_pure _

theorem gives_pairEscape {i v w : Nat} {hs ls rest : Bytes} (slash : Nat) (p : String)
    (allow : Bool) (h : whole.drop i = hs ++ 0x5C :: 0x75 :: (ls ++ rest)) (hv : HexText hs v)
    (hv' : 0xD800 ≤ v ∧ v ≤ 0xDBFF) (hw : HexText ls w) (hw' : 0xDC00 ≤ w ∧ w ≤ 0xDFFF) :
    Gives (Slice whole) (unicodeEscape i slash p allow) (.ok (i + 10, pairRune v w))
      (Slice whole) := by
  have hsur : isSurrogate v = true := by
    simp only [isSurrogate, Bool.and_eq_true, decide_eq_true_eq]
    omega
  have hnext := drop_add h
  rw [hv.1] at hnext
  rw [unicodeEscape]
  refine gives_bind gives_markNoncanonical ?_
  refine gives_bind (gives_hex4 slash p h hv) ?_
  rw [hsur, if_pos rfl]
  refine gives_bind (gives_pairAt p hnext hv'.2 hw hw') ?_
  exact gives_pure _

theorem gives_sequence {i rune : Nat} {q rest : Bytes} (p : String) (allow : Bool)
    (out : Option Bytes) (h : whole.drop i = q ++ rest) (hq : Sequence q rune) :
    Gives (Slice whole) (stringItem i p allow out) (.ok (.more (i + q.length) (emit out q)))
      (Slice whole) := by
  have hdecode := decodeUtf8_sequence hq rest
  have hrune : appendRune rune = q := appendRune_sequence hq
  have hwide : q.length ≠ 1 := by
    have := hq.length_bounds
    omega
  obtain _ | ⟨b, q'⟩ := q
  · exact absurd hq.length_bounds.1 (by decide)
  have hb : 0x80 ≤ b.toNat := by cases hq <;> omega
  have h1 : b ≠ 0x22 := by rintro rfl; exact absurd hb (by decide)
  have h2 : b ≠ 0x5C := by rintro rfl; exact absurd hb (by decide)
  have h3 : ¬ b ≤ 31 := by rw [UInt8.le_iff_toNat_le]; simp; omega
  have h4 : 0x80 ≤ b := by rw [UInt8.le_iff_toNat_le]; exact hb
  rw [stringItem]
  refine gives_bind (gives_head h) ?_
  simp only [List.cons_append, List.head?_cons, h1, h2, h3, h4, if_false, if_true]
  rw [runeItem]
  refine gives_bind (gives_atIndex (i + 3)) ?_
  refine @gives_bind _ _ _ _ _ (Slice whole) _ _ _ (rune, (b :: q').length) _ ?_ ?_
  · refine gives_read ?_
    intro s hs
    rw [hs.1, h, hdecode]
  · dsimp only
    rw [if_neg fun hc => hwide hc.2, hrune]
    exact gives_pure _

theorem gives_quote {i : Nat} {rest : Bytes} (p : String) (allow : Bool) (out : Option Bytes)
    (h : whole.drop i = 0x22 :: rest) :
    Gives (Slice whole) (stringItem i p allow out) (.ok (.closed (i + 1) out)) (Slice whole) := by
  rw [stringItem]
  refine gives_bind (gives_head h) ?_
  exact gives_pure _

end Input

end Tsr.Json
