import Tsr.Json.StringScan

/-!
# Json: the scanners over a reader and over the complete slice

`Streams base kept s t`: the input `s` holds the bytes of the complete input `t` from `base` on,
`kept` of them at least in its buffer and the others still to come from its reader.  Under it the
index `i` of `s` is the index `base + i` of `t`, and every scanner keeps the relation and ends alike
on both sides, with its indices and the offsets of its errors moved by `base` (`Moves`).

* `moves_atIndex`   one byte, with the refill it may take; afterwards the byte is buffered;
* `moves_space`, `moves_string`, `moves_number`, `moves_literalLoop`   the scanners; the index they
                    return is buffered.
-/

set_option linter.unusedVariables false

namespace Tsr.Json
open Tsr.Lib Tsr.Lib.Fallible

/-! ## related inputs -/

def ReadResult.isFailed : ReadResult → Bool
  | .failed _ => true
  | _ => false

structure Streams (base kept : Nat) (s t : Input) : Prop where
  text : Input.Holds (t.bytes.drop base) s
  buffered : kept ≤ s.bytes.length
  reaches : base ≤ t.bytes.length
  ended : t.eof = true
  empty : t.reader = []
  exhausted : s.eof = true → s.ahead = []
  steady : ∀ r ∈ s.reader, r.isFailed = false

/-- `x` and `y` end alike, with the indices of `y` moved by `base` -/
abbrev Moves {α β : Type} (base kept : Nat) (P : Input → Prop) (f : α → β) (x : Lex α) (y : Lex β)
    (Q : α → Input → Prop) : Prop :=
  Simulates (Streams base kept) (Error.moveBy base) P f x y Q

namespace Streams

variable {base kept : Nat} {s t : Input}

/-- as far as the input is buffered, or has ended, both sides hold the same bytes -/
theorem take_eq (h : Streams base kept s t) {n : Nat} (hn : n ≤ s.bytes.length ∨ s.ahead = []) :
    s.bytes.take n = (t.bytes.drop base).take n := by
  have ht : s.bytes ++ s.ahead = t.bytes.drop base := h.text
  rw [← ht]
  rcases hn with hn | hn
  · rw [List.take_append_of_le_length hn]
  · rw [hn, List.append_nil]

theorem slice_eq (h : Streams base kept s t) {start stop : Nat}
    (hn : stop ≤ s.bytes.length ∨ s.ahead = []) :
    (t.bytes.take (base + stop)).drop (base + start) = (s.bytes.take stop).drop start := by
  rw [h.take_eq hn, ← List.drop_drop, List.drop_take]
  congr 2
  omega

theorem getElem?_eq (h : Streams base kept s t) {i : Nat}
    (hi : i < s.bytes.length ∨ s.ahead = []) : t.bytes[base + i]? = s.bytes[i]? := by
  have h1 : (s.bytes.take (i + 1))[i]? = s.bytes[i]? := List.getElem?_take_of_lt (by omega)
  rw [← h1, h.take_eq hi, List.getElem?_take_of_lt (by omega), List.getElem?_drop]

theorem decode_eq (h : Streams base kept s t) {i : Nat} (hi : i + 3 < s.bytes.length ∨ s.ahead = []) :
    decodeUtf8 (t.bytes.drop (base + i)) = decodeUtf8 (s.bytes.drop i) := by
  apply decodeUtf8_congr
  have h1 := @slice_eq _ _ _ _ h i (i + 4) hi
  rw [List.drop_take, List.drop_take] at h1
  rw [show base + (i + 4) - (base + i) = 4 by omega, show i + 4 - i = 4 by omega] at h1
  exact h1

/-- less is known of the buffer, or more -/
theorem keep (h : Streams base kept s t) {n : Nat} (hn : n ≤ s.bytes.length) : Streams base n s t :=
  { h with buffered := hn }

theorem total_eq (h : Streams base kept s t) : t.total = base + s.total := by
  rw [h.text.total, Input.total, Input.ahead, h.empty, List.length_drop]
  have := h.reaches
  simp only [List.flatMap_nil, List.length_nil]
  omega

end Streams

/-! ## one byte -/

namespace Input

-- reads and changes do not fail over a steady reader, so the errors may be renamed by any `err`
variable {base kept : Nat} {err : Error → Error}

/-- a refill from a reader that does not fail -/
theorem fillFrom_steady (nc : Bool) (index : Nat) (reader : List ReadResult) (bytes : Bytes)
    (h : ∀ r ∈ reader, r.isFailed = false) :
    (fillFrom nc index reader bytes).1 = .ok (fillFrom nc index reader bytes).2.bytes[index]? ∧
    (index < (fillFrom nc index reader bytes).2.bytes.length ∨
      (fillFrom nc index reader bytes).2.ahead = []) ∧
    ((fillFrom nc index reader bytes).2.eof = true →
      (fillFrom nc index reader bytes).2.ahead = []) ∧
    ∀ r ∈ (fillFrom nc index reader bytes).2.reader, r.isFailed = false := by
  induction reader generalizing bytes with
  | nil =>
    simp only [fillFrom]
    split
    · exact ⟨rfl, .inr rfl, fun _ => rfl, h⟩
    · exact ⟨rfl, .inr rfl, fun _ => rfl, h⟩
  | cons r reader ih =>
    have hrest : ∀ r ∈ reader, r.isFailed = false := fun q hq => h q (List.mem_cons_of_mem r hq)
    simp only [fillFrom]
    split
    · next hlt => exact ⟨rfl, .inl hlt, fun he => (by cases he), h⟩
    cases r with
    | interrupted => exact ih bytes hrest
    | failed message => exact absurd (h _ List.mem_cons_self) (by simp [ReadResult.isFailed])
    | chunk c => exact ih (bytes ++ c.bytes) hrest

/-- what is known of a buffer after the byte at `i` was asked for -/
def Asked (n i : Nat) (r : Option UInt8) (s : Input) : Prop :=
  n ≤ s.bytes.length ∧ (i < s.bytes.length ∨ s.ahead = []) ∧ (r ≠ none → i < s.bytes.length)

theorem atIndex_ended {t : Input} (i : Nat) (h : t.eof = true) :
    atIndex i t = (.ok t.bytes[i]?, t) := by
  rw [atIndex]
  split
  · next b hb => rw [hb]
  · rw [fill, if_pos h]

theorem asked_of_some {s : Input} {n i : Nat} (hn : n ≤ s.bytes.length)
    (hi : i < s.bytes.length ∨ s.ahead = []) : Asked n i s.bytes[i]? s := by
  refine ⟨hn, hi, ?_⟩
  intro hne
  by_contra hlt
  exact hne (List.getElem?_eq_none (by omega))

/-- **a byte of the stream is the byte of the slice** -/
theorem moves_atIndex (n i : Nat) :
    Simulates (Streams base kept) err (fun s => n ≤ s.bytes.length) id (atIndex i) (atIndex (base + i)) (Asked n i) := by
  intro s t hR hP
  rw [atIndex_ended (base + i) hR.ended]
  -- what the stream answers, and the state it is left in
  have key : ∃ s', atIndex i s = (.ok s'.bytes[i]?, s') ∧ Streams base kept s' t ∧
      n ≤ s'.bytes.length ∧ (i < s'.bytes.length ∨ s'.ahead = []) := by
    rw [atIndex]
    split
    · next b hb =>
      exact ⟨s, by rw [hb], hR, hP, .inl (List.getElem?_eq_some_iff.1 hb).1⟩
    rw [fill]
    split
    · next he => exact ⟨s, rfl, hR, hP, .inr (hR.exhausted he)⟩
    · next he =>
      obtain ⟨h1, h2, h3, h4⟩ := fillFrom_spec s.noncanonical i s.reader s.bytes
      obtain ⟨h5, h6, h7, h8⟩ := fillFrom_steady s.noncanonical i s.reader s.bytes hR.steady
      have ht : s.bytes ++ s.reader.flatMap ReadResult.bytes = t.bytes.drop base := hR.text
      rw [ht] at h1
      exact ⟨_, Prod.ext h5 rfl,
        ⟨h1, hR.buffered.trans h2, hR.reaches, hR.ended, hR.empty, h7, h8⟩, hP.trans h2, h6⟩
  obtain ⟨s', he, hR', hn, hi⟩ := key
  rw [he]
  refine ⟨?_, hR', ?_⟩
  · show Except.ok _ = Except.ok _
    rw [hR'.getElem?_eq hi]
    rfl
  · intro r hr
    cases hr
    exact asked_of_some hn hi

/-- the same with nothing known of the buffer before -/
theorem moves_at (i : Nat) {P : Input → Prop} :
    Simulates (Streams base kept) err P id (atIndex i) (atIndex (base + i)) (Asked 0 i) :=
  (moves_atIndex 0 i).weaken (fun _ _ => Nat.zero_le _) fun _ _ h => h

theorem moves_fuelFrom (i : Nat) {P : Input → Prop} {Q : Nat → Input → Prop}
    (hQ : ∀ a s, P s → Q a s) : Simulates (Streams base kept) err P id (fuelFrom i) (fuelFrom (base + i)) Q := by
  refine simulates_read ?_ fun s t _ hP => hQ _ s hP
  intro s t hR _
  rw [hR.total_eq]
  show base + s.total + 1 - (base + i) = s.total + 1 - i
  omega

theorem moves_markNoncanonical {P : Input → Prop} {Q : Unit → Input → Prop}
    (hQ : ∀ s, P s → Q () { s with noncanonical := true }) :
    Simulates (Streams base kept) err P id markNoncanonical markNoncanonical Q :=
  simulates_change (fun s t hR _ => { hR with }) hQ

theorem moves_slice (start stop : Nat) {P : Input → Prop}
    (hP : ∀ s, P s → stop ≤ s.bytes.length ∨ s.ahead = []) :
    Moves base kept P id (slice start stop) (slice (base + start) (base + stop)) (fun _ => P) :=
  simulates_read (fun s t hR hs => hR.slice_eq (hP s hs)) fun _ _ _ h => h

/-- an error about a byte that was asked for -/
theorem moves_invalid {α β : Type} {f : α → β} {P : Input → Prop} {Q : α → Input → Prop} (i : Nat)
    (p c : String) (hP : ∀ s, P s → i < s.bytes.length) :
    Moves base kept P f (invalid i p c) (invalid (base + i) p c) Q := by
  refine simulates_bind (f := id) (Q := fun _ _ => True) (simulates_read ?_ fun _ _ _ _ => trivial) ?_
  · intro s t hR hs
    rw [List.getD_eq_getElem?_getD, hR.getElem?_eq (.inl (hP s hs))]
    simp [List.getD_eq_getElem?_getD]
  · intro byte
    exact simulates_fail _

/-! ## space -/

/-- the index after a token is buffered -/
def Upto (stop : Nat) (s : Input) : Prop := stop ≤ s.bytes.length

theorem Asked.upto {n i : Nat} {r : Option UInt8} {s : Input} (h : Asked n i r s) : Upto n s := h.1

theorem Asked.upto_succ {n i : Nat} {b : UInt8} {s : Input} (h : Asked n i (some b) s) :
    Upto (i + 1) s := h.2.2 (by simp)

theorem moves_spaceLoop (fuel i : Nat) :
    Simulates (Streams base kept) err (Upto i) (base + ·) (spaceLoop fuel i) (spaceLoop fuel (base + i)) Upto := by
  induction fuel generalizing i with
  | zero => exact simulates_pure _ fun _ hs => hs
  | succ fuel ih =>
    rw [spaceLoop, spaceLoop]
    refine simulates_bind (moves_atIndex i i) ?_
    intro r
    cases r with
    | none => exact simulates_pure _ fun _ hs => hs.upto
    | some b =>
      show Simulates _ _ _ _ (if isSpace b then _ else _) (if isSpace b then _ else _) _
      split
      · exact (ih (i + 1)).weaken (fun _ hs => hs.upto_succ) fun _ _ h => h
      · exact simulates_pure _ fun _ hs => hs.upto

theorem moves_space (i : Nat) :
    Simulates (Streams base kept) err (Upto i) (base + ·) (space i) (space (base + i)) Upto := by
  rw [space, space]
  refine simulates_bind (moves_fuelFrom (Q := fun _ => Upto i) i fun _ _ h => h) ?_
  intro fuel
  refine simulates_bind (moves_spaceLoop fuel i) ?_
  intro stop
  have hiff : (stop ≠ i) ↔ (base + stop ≠ base + i) := by omega
  by_cases h : stop ≠ i
  · rw [if_pos h, if_pos (hiff.1 h)]
    refine simulates_bind (moves_markNoncanonical (Q := fun _ => Upto stop) fun _ hs => hs) ?_
    intro _
    exact simulates_pure _ fun _ hs => hs
  · rw [if_neg h, if_neg (mt hiff.2 h)]
    exact simulates_pure _ fun _ hs => hs

/-! ## strings -/

theorem moves_hexDigits (slash : Nat) (p : String) (count i value : Nat) {P : Input → Prop} :
    Moves base kept P id (hexDigits slash p count i value)
      (hexDigits (base + slash) p count (base + i) value) fun _ _ => True := by
  induction count generalizing i value P with
  | zero => exact simulates_pure _ fun _ _ => trivial
  | succ count ih =>
    rw [hexDigits, hexDigits]
    refine simulates_bind (moves_at i) ?_
    intro r
    cases r with
    | none => exact simulates_fail _
    | some b =>
      dsimp only [id]
      cases hexValue b with
      | none => exact moves_invalid i p _ fun s hs => hs.upto_succ
      | some digit => exact ih (i + 1) _

theorem moves_pairAt (i first : Nat) (p : String) {P : Input → Prop} :
    Moves base kept P id (pairAt i first p) (pairAt (base + i) first p) fun _ _ => True := by
  have hnone : ∀ (P : Input → Prop), Moves base kept P id (pure none : Lex (Option Nat)) (pure none)
      fun _ _ => True := fun P => simulates_pure _ fun _ _ => trivial
  rw [pairAt, pairAt]
  split
  · refine simulates_bind (moves_at i) ?_
    intro r
    show Moves base kept _ _ (if r = some 0x5C then _ else _) (if r = some 0x5C then _ else _) _
    split
    · refine simulates_bind (moves_at (i + 1)) ?_
      intro r'
      show Moves base kept _ _ (if r' = some 0x75 then _ else _) (if r' = some 0x75 then _ else _) _
      split
      · refine simulates_bind (f := Option.map id) (@simulates_attempt _ _ _ _ _ _ _ _ _ _ _ _ _ _ (fun _ _ => True)
          (moves_hexDigits i p 4 (i + 2) 0) (fun _ _ _ => trivial) fun _ => trivial) ?_
        intro second
        rw [Option.map_id]
        exact simulates_pure _ fun _ _ => trivial
      · exact hnone _
    · exact hnone _
  · exact hnone _

theorem moves_unicodeEscape (i slash : Nat) (p : String) (allow : Bool) {P : Input → Prop} :
    Moves base kept P (fun r => (base + r.1, r.2)) (unicodeEscape i slash p allow)
      (unicodeEscape (base + i) (base + slash) p allow) fun _ _ => True := by
  rw [unicodeEscape, unicodeEscape]
  refine simulates_bind (moves_markNoncanonical (Q := fun _ _ => True) fun _ _ => trivial) ?_
  intro _
  refine simulates_bind (moves_hexDigits slash p 4 i 0) ?_
  intro first
  show Moves base kept _ _ (if isSurrogate first then _ else _) (if isSurrogate first then _ else _) _
  split
  · refine simulates_bind (moves_pairAt (i + 4) first p) ?_
    intro r
    cases r with
    | some second => exact simulates_pure _ fun _ _ => trivial
    | none =>
      dsimp only [id]
      split
      · exact simulates_pure _ fun _ _ => trivial
      · refine simulates_bind (moves_at (slash + 11)) ?_
        intro _
        refine simulates_bind (moves_slice slash (slash + 12) fun s hs => hs.2.1) ?_
        intro text
        exact simulates_fail _
  · exact simulates_pure _ fun _ _ => trivial

/-- an item `base` bytes further on -/
def Scan.move (base : Nat) : Scan → Scan
  | .closed stop out => .closed (base + stop) out
  | .more i out => .more (base + i) out

/-- a closing quote is buffered -/
def Scan.Buffered : Scan → Input → Prop
  | .closed stop _, s => stop ≤ s.bytes.length
  | .more _ _, _ => True

theorem moves_more (i : Nat) (out : Option Bytes) {P : Input → Prop} :
    Moves base kept P (Scan.move base) (pure (.more i out)) (pure (.more (base + i) out))
      Scan.Buffered :=
  simulates_pure _ fun _ _ => trivial

theorem moves_escapeItem (i : Nat) (p : String) (allow : Bool) (out : Option Bytes)
    {P : Input → Prop} :
    Moves base kept P (Scan.move base) (escapeItem i p allow out) (escapeItem (base + i) p allow out)
      Scan.Buffered := by
  rw [escapeItem, escapeItem]
  refine simulates_bind (moves_at (i + 1)) ?_
  intro r
  cases r with
  | none => exact simulates_fail _
  | some escape =>
    dsimp only [id]
    split
    · refine simulates_bind (moves_unicodeEscape (i + 2) i p allow) ?_
      rintro ⟨j, rune⟩
      exact moves_more _ _
    · cases simpleEscape escape with
      | none => exact moves_invalid (i + 1) p _ fun s hs => hs.upto_succ
      | some byte =>
        dsimp only
        split
        · refine simulates_bind (moves_markNoncanonical (Q := fun _ _ => True)
            fun _ _ => trivial) ?_
          intro _
          exact moves_more _ _
        · exact moves_more _ _

theorem moves_runeItem (i : Nat) (p : String) (allow : Bool) (out : Option Bytes)
    {P : Input → Prop} :
    Moves base kept P (Scan.move base) (runeItem i p allow out) (runeItem (base + i) p allow out)
      Scan.Buffered := by
  rw [runeItem, runeItem]
  refine simulates_bind (moves_at (i + 3)) ?_
  intro _
  refine simulates_bind (f := id) (Q := fun _ _ => True)
    (simulates_read (fun s t hR hs => hR.decode_eq hs.2.1) fun _ _ _ _ => trivial) ?_
  rintro ⟨rune, width⟩
  dsimp only [id]
  have hmore : ∀ (P : Input → Prop), Moves base kept P (Scan.move base)
      (pure (.more (i + width) (emit out (appendRune rune))))
      (pure (.more (base + i + width) (emit out (appendRune rune)))) Scan.Buffered := by
    intro P
    rw [Nat.add_assoc]
    exact moves_more _ _
  split
  · split
    · refine simulates_bind (moves_markNoncanonical (Q := fun _ _ => True) fun _ _ => trivial) ?_
      intro _
      exact hmore _
    · exact simulates_fail _
  · exact hmore _

theorem moves_stringItem (i : Nat) (p : String) (allow : Bool) (out : Option Bytes)
    {P : Input → Prop} :
    Moves base kept P (Scan.move base) (stringItem i p allow out) (stringItem (base + i) p allow out)
      Scan.Buffered := by
  rw [stringItem, stringItem]
  refine simulates_bind (moves_at i) ?_
  intro r
  cases r with
  | none => exact simulates_fail _
  | some b =>
    dsimp only [id]
    split_ifs
    · exact simulates_pure _ fun s hs => hs.upto_succ
    · exact moves_escapeItem i p allow out
    · exact moves_invalid i p _ fun s hs => hs.upto_succ
    · exact moves_runeItem i p allow out
    · exact moves_more _ _

theorem moves_byteLoop (p : String) (allow : Bool) (fuel i : Nat) (out : Option Bytes)
    {P : Input → Prop} :
    Moves base kept P (fun r => (base + r.1, r.2)) (byteLoop p allow fuel i out)
      (byteLoop p allow fuel (base + i) out) (fun r => Upto r.1) := by
  induction fuel generalizing i out P with
  | zero => exact simulates_fail _
  | succ fuel ih =>
    rw [byteLoop, byteLoop]
    refine simulates_bind (moves_stringItem i p allow out) ?_
    intro r
    cases r with
    | closed stop out => exact simulates_pure _ fun _ hs => hs
    | more j out => exact ih j out

/-- the loops differ in how they run, not in how they end -/
theorem moves_stringInto (start : Nat) (p : String) (allow : Bool) (out : Option Bytes) :
    Moves base kept (Upto (start + 1)) (fun r => (base + r.1, r.2)) (stringInto start p allow out)
      (stringInto (base + start) p allow out) (fun r => Upto r.1) := by
  intro s t hR hP
  have hs : start < s.total := by
    have : s.bytes.length ≤ s.total := Nat.le_add_right _ _
    exact Nat.lt_of_succ_le (hP.trans this)
  have ht : base + start < t.total := by
    rw [hR.total_eq]
    omega
  rw [stringInto_eq start p allow out s hs, stringInto_eq (base + start) p allow out t ht]
  refine simulates_bind (moves_fuelFrom (Q := fun _ _ => True) (start + 1) fun _ _ _ => trivial) ?_
    s t hR hP
  intro fuel
  exact moves_byteLoop p allow fuel (start + 1) out

theorem moves_string (start : Nat) (p : String) (allow : Bool) :
    Moves base kept (Upto (start + 1)) (fun r => (r.1, base + r.2)) (string start p allow)
      (string (base + start) p allow) (fun r => Upto r.2) := by
  rw [string, string]
  refine simulates_bind (moves_stringInto start p allow (some [])) ?_
  rintro ⟨stop, out⟩
  exact simulates_pure _ fun _ hs => hs

/-! ## numbers and literals -/

theorem moves_digitLoop (fuel i : Nat) :
    Moves base kept (Upto i) (base + ·) (digitLoop fuel i) (digitLoop fuel (base + i)) Upto := by
  induction fuel generalizing i with
  | zero => exact simulates_pure _ fun _ hs => hs
  | succ fuel ih =>
    rw [digitLoop, digitLoop]
    refine simulates_bind (moves_atIndex i i) ?_
    intro r
    cases r with
    | none => exact simulates_pure _ fun _ hs => hs.upto
    | some b =>
      show Moves base kept _ _ (if isDigit b then _ else _) (if isDigit b then _ else _) _
      split
      · exact (ih (i + 1)).weaken (fun _ hs => hs.upto_succ) fun _ _ h => h
      · exact simulates_pure _ fun _ hs => hs.upto

theorem moves_skipDigits (i : Nat) :
    Moves base kept (Upto i) (base + ·) (skipDigits i) (skipDigits (base + i)) Upto := by
  rw [skipDigits, skipDigits]
  refine simulates_bind (moves_fuelFrom (Q := fun _ => Upto i) i fun _ _ h => h) ?_
  intro fuel
  exact moves_digitLoop fuel i

theorem moves_digits (i : Nat) (p : String) {P : Input → Prop} :
    Moves base kept P (base + ·) (digits i p) (digits (base + i) p) Upto := by
  rw [digits, digits]
  refine simulates_bind (moves_at i) ?_
  intro r
  cases r with
  | none => exact simulates_fail _
  | some b =>
    dsimp only [id]
    split
    · refine (moves_skipDigits i).weaken ?_ fun _ _ h => h
      intro s hs
      exact Nat.le_of_succ_le hs.upto_succ
    · exact moves_invalid i p _ fun s hs => hs.upto_succ

theorem moves_signPart (i : Nat) :
    Moves base kept (Upto i) (base + ·) (signPart i) (signPart (base + i)) Upto := by
  rw [signPart, signPart]
  refine simulates_bind (moves_atIndex i i) ?_
  intro r
  show Moves base kept _ _ (if r = some 0x2D then _ else _) (if r = some 0x2D then _ else _) _
  split
  · next hr =>
    subst hr
    exact simulates_pure _ fun _ hs => hs.upto_succ
  · exact simulates_pure _ fun _ hs => hs.upto

theorem moves_integerPart (i : Nat) (p : String) {P : Input → Prop} :
    Moves base kept P (base + ·) (integerPart i p) (integerPart (base + i) p) Upto := by
  rw [integerPart, integerPart]
  refine simulates_bind (moves_at i) ?_
  intro r
  cases r with
  | none => exact simulates_fail _
  | some b =>
    dsimp only [id]
    split
    · exact simulates_pure _ fun _ hs => hs.upto_succ
    split
    · exact (moves_skipDigits (i + 1)).weaken (fun _ hs => hs.upto_succ) fun _ _ h => h
    · exact moves_invalid i p _ fun s hs => hs.upto_succ

theorem moves_fractionPart (i : Nat) (p : String) :
    Moves base kept (Upto i) (base + ·) (fractionPart i p) (fractionPart (base + i) p) Upto := by
  rw [fractionPart, fractionPart]
  refine simulates_bind (moves_atIndex i i) ?_
  intro r
  show Moves base kept _ _ (if r = some 0x2E then _ else _) (if r = some 0x2E then _ else _) _
  split
  · exact moves_digits (i + 1) p
  · exact simulates_pure _ fun _ hs => hs.upto

theorem moves_exponentPart (i : Nat) (p : String) :
    Moves base kept (Upto i) (base + ·) (exponentPart i p) (exponentPart (base + i) p) Upto := by
  rw [exponentPart, exponentPart]
  refine simulates_bind (moves_atIndex i i) ?_
  intro r
  show Moves base kept _ _ (if r = some 0x65 ∨ r = some 0x45 then _ else _)
    (if r = some 0x65 ∨ r = some 0x45 then _ else _) _
  split
  · refine simulates_bind (moves_at (i + 1)) ?_
    intro sign
    dsimp only [id]
    split
    · exact moves_digits (i + 2) p
    · exact moves_digits (i + 1) p
  · exact simulates_pure _ fun _ hs => hs.upto

theorem moves_number (start : Nat) (p : String) :
    Moves base kept (Upto start) (base + ·) (number start p) (number (base + start) p) Upto := by
  rw [number, number]
  refine simulates_bind (moves_signPart start) ?_
  intro i
  refine simulates_bind (moves_integerPart i p) ?_
  intro i
  refine simulates_bind (moves_fractionPart i p) ?_
  intro i
  exact moves_exponentPart i p

theorem moves_literalLoop (word : Bytes) (p : String) (rest : Bytes) (i : Nat) :
    Moves base kept (Upto i) (base + ·) (literalLoop word p rest i)
      (literalLoop word p rest (base + i)) Upto := by
  induction rest generalizing i with
  | nil => exact simulates_pure _ fun _ hs => hs
  | cons b rest ih =>
    rw [literalLoop, literalLoop]
    refine simulates_bind (moves_at i) ?_
    intro r
    cases r with
    | none => exact simulates_fail _
    | some actual =>
      dsimp only [id]
      split
      · exact (ih (i + 1)).weaken (fun _ hs => hs.upto_succ) fun _ _ h => h
      · exact moves_invalid i p _ fun s hs => hs.upto_succ

end Input

end Tsr.Json
