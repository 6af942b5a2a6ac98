import Tsr.Json.Wire

/-!
# Json: the string scanner, byte by byte

`stringLoop` copies the plain bytes that are buffered as one slice, so how it proceeds depends on
the refills.  `byteLoop` takes one item at a time.  Both agree on every input (`stringInto_eq`):
a plain byte that is buffered is an item which changes nothing but the index and the text.

The scan makes progress (`keeps_stringItem`): an item ends after it starts and within the input,
so the fuel never runs out.
-/

set_option linter.unusedVariables false

namespace Tsr.Json.Input
open Tsr.Lib Tsr.Lib.Fallible

/-! ## the input keeps its bytes -/

/-- the bytes of the input, buffered or still to come, do not change -/
def Holds (text : Bytes) (inp : Input) : Prop :=
  inp.bytes ++ inp.ahead = text

theorem Holds.total {text : Bytes} {inp : Input} (h : Holds text inp) : inp.total = text.length := by
  rw [← h, List.length_append]
  rfl

theorem Holds.length_le {text : Bytes} {inp : Input} (h : Holds text inp) :
    inp.bytes.length ≤ text.length := by
  rw [← h, List.length_append]
  omega

/-- what a refill leaves: the same text, at least as much of it buffered -/
theorem fillFrom_spec (nc : Bool) (index : Nat) (reader : List ReadResult) (bytes : Bytes) :
    Holds (bytes ++ reader.flatMap ReadResult.bytes) (fillFrom nc index reader bytes).2 ∧
    bytes.length ≤ (fillFrom nc index reader bytes).2.bytes.length ∧
    (fillFrom nc index reader bytes).2.noncanonical = nc ∧
    ∀ r, (fillFrom nc index reader bytes).1 = .ok r →
      r = (fillFrom nc index reader bytes).2.bytes[index]? := by
  induction reader generalizing bytes with
  | nil =>
    simp only [fillFrom]
    split
    · exact ⟨rfl, le_refl _, rfl, fun r hr => by cases hr; rfl⟩
    · exact ⟨rfl, le_refl _, rfl, fun r hr => by cases hr; rfl⟩
  | cons r reader ih =>
    simp only [fillFrom]
    split
    · exact ⟨rfl, le_refl _, rfl, fun r hr => by cases hr; rfl⟩
    cases r with
    | interrupted =>
      simpa [ReadResult.bytes] using ih bytes
    | failed message =>
      refine ⟨?_, le_refl _, rfl, fun r hr => (nomatch hr)⟩
      simp [Holds, ahead, ReadResult.bytes]
    | chunk c =>
      obtain ⟨h1, h2, h3, h4⟩ := ih (bytes ++ c.bytes)
      refine ⟨?_, ?_, h3, h4⟩
      · simpa [ReadResult.bytes] using h1
      · rw [List.length_append] at h2
        exact (Nat.le_add_right _ _).trans h2

variable {text : Bytes}

/-- one byte: the text stays, the buffer only grows -/
theorem keeps_atIndex (n i : Nat) :
    Keeps (Holds text) (fun s => n ≤ s.bytes.length) (atIndex i)
      (fun r s => n ≤ s.bytes.length ∧ r = s.bytes[i]?) := by
  intro s hI hP
  rw [atIndex]
  split
  · next b hb =>
    refine ⟨hI, ?_⟩
    intro r hr
    cases hr
    exact ⟨hP, hb.symm⟩
  · rw [fill]
    split
    · refine ⟨hI, ?_⟩
      intro r hr
      cases hr
      exact ⟨hP, rfl⟩
    · obtain ⟨h1, h2, h3, h4⟩ := fillFrom_spec s.noncanonical i s.reader s.bytes
      have hI' : s.bytes ++ s.reader.flatMap ReadResult.bytes = text := hI
      rw [hI'] at h1
      exact ⟨h1, fun r hr => ⟨hP.trans h2, h4 r hr⟩⟩

/-- the bytes found so far bound the index -/
theorem index_lt_of_some {bytes : Bytes} {i : Nat} {b : UInt8} (h : some b = bytes[i]?) :
    i < bytes.length := (List.getElem?_eq_some_iff.1 h.symm).1

theorem keeps_markNoncanonical {P : Input → Prop}
    (h : ∀ s, P s → P { s with noncanonical := true }) :
    Keeps (Holds text) P markNoncanonical (fun _ => P) :=
  keeps_change (fun _ hI _ => hI) (fun s _ hP => h s hP)

theorem keeps_invalid {α : Type} {P : Input → Prop} (i : Nat) (p c : String)
    (Q : α → Input → Prop) : Keeps (Holds text) P (invalid i p c) Q :=
  keeps_bind (keeps_read (Q := fun _ _ => True) fun _ _ _ => trivial) fun _ => keeps_fail _

/-! ## progress of one item -/

theorem keeps_hexDigits (slash : Nat) (p : String) (count i value : Nat) :
    Keeps (Holds text) (fun s => i ≤ s.bytes.length) (hexDigits slash p count i value)
      (fun _ s => i + count ≤ s.bytes.length) := by
  induction count generalizing i value with
  | zero => exact keeps_pure _ fun s _ hs => hs
  | succ count ih =>
    rw [hexDigits]
    refine keeps_bind (keeps_atIndex i i) ?_
    intro r
    cases r with
    | none => exact keeps_fail _
    | some b =>
      dsimp only
      cases hexValue b with
      | none => exact keeps_invalid i p _ _
      | some digit =>
        refine (ih (i + 1) _).weaken ?_ ?_
        · rintro s ⟨_, hs⟩
          exact index_lt_of_some hs
        · intro _ s hs
          omega

theorem keeps_pairAt (i first : Nat) (p : String) :
    Keeps (Holds text) (fun s => True) (pairAt i first p)
      (fun r s => r ≠ none → i + 6 ≤ s.bytes.length) := by
  have hnone : ∀ (P : Input → Prop), Keeps (Holds text) P (pure none : Lex (Option Nat))
      (fun r s => r ≠ none → i + 6 ≤ s.bytes.length) :=
    fun P => keeps_pure _ fun s _ _ h => absurd rfl h
  rw [pairAt]
  split
  · refine keeps_bind ((keeps_atIndex 0 i).weaken (fun _ _ => Nat.zero_le _) fun _ _ h => h) ?_
    intro r
    split
    · refine keeps_bind ((keeps_atIndex 0 (i + 1)).weaken (fun _ _ => Nat.zero_le _)
        fun _ _ h => h) ?_
      intro r'
      split
      · next h' =>
        subst h'
        refine keeps_bind (@keeps_attempt _ _ _ _ _ _ _ (fun r s => r ≠ none → i + 6 ≤ s.bytes.length)
          ((keeps_hexDigits i p 4 (i + 2) 0).weaken ?_ fun _ _ h => h) (fun a s h _ => h)
          fun s h => absurd rfl h) ?_
        · rintro s ⟨_, hs⟩
          exact index_lt_of_some hs
        · intro second
          refine keeps_pure _ ?_
          intro s _ hs h
          exact hs (fun hn => h (by rw [hn]; rfl))
      · exact hnone _
    · exact hnone _
  · exact hnone _

/-- the index after an escape lies behind its digits, within the buffer or among plain bytes -/
theorem keeps_unicodeEscape (i slash : Nat) (p : String) (allow : Bool) :
    Keeps (Holds text) (fun s => i ≤ s.bytes.length) (unicodeEscape i slash p allow)
      (fun r _ => i ≤ r.1 ∧ r.1 ≤ text.length) := by
  rw [unicodeEscape]
  refine keeps_bind (keeps_markNoncanonical fun _ h => h) ?_
  intro _
  refine keeps_bind (Q := fun _ s => i + 4 ≤ text.length) ?_ ?_
  · intro s hI hP
    obtain ⟨h1, h2⟩ := keeps_hexDigits slash p 4 i 0 s hI hP
    exact ⟨h1, fun a ha => (h2 a ha).trans h1.length_le⟩
  intro first
  split
  · refine keeps_bind (Q := fun r s => i + 4 ≤ text.length ∧ (r ≠ none → i + 10 ≤ text.length))
      ?_ ?_
    · intro s hI hP
      obtain ⟨h1, h2⟩ := keeps_pairAt (i + 4) first p s hI trivial
      exact ⟨h1, fun a ha => ⟨hP, fun hn => (h2 a ha hn).trans h1.length_le⟩⟩
    intro r
    cases r with
    | some second =>
      refine keeps_pure _ ?_
      rintro s _ ⟨_, hs⟩
      exact ⟨Nat.le_add_right _ _, hs (by simp)⟩
    | none =>
      dsimp only
      split
      · refine keeps_pure _ ?_
        rintro s _ ⟨hs, _⟩
        exact ⟨Nat.le_add_right _ _, hs⟩
      · refine keeps_bind ((keeps_atIndex 0 (slash + 11)).weaken (fun _ _ => Nat.zero_le _)
          fun _ _ _ => trivial) ?_
        intro _
        exact keeps_bind (keeps_read (Q := fun _ _ => True) fun _ _ _ => trivial)
          fun _ => keeps_fail _
  · refine keeps_pure _ ?_
    intro s _ hs
    exact ⟨Nat.le_add_right _ _, hs⟩

/-- where an item leaves the scan -/
def Scan.Within (text : Bytes) (i : Nat) : Scan → Prop
  | .closed stop _ => True
  | .more j _ => i < j ∧ j ≤ text.length

theorem keeps_escapeItem (i : Nat) (p : String) (allow : Bool) (out : Option Bytes) :
    Keeps (Holds text) (fun s => True) (escapeItem i p allow out)
      (fun r _ => r.Within text i) := by
  rw [escapeItem]
  refine keeps_bind (Q := fun r s => r ≠ none → i + 2 ≤ s.bytes.length)
    ((keeps_atIndex 0 (i + 1)).weaken (fun _ _ => Nat.zero_le _) ?_) ?_
  · rintro r s ⟨_, hr⟩ hn
    obtain ⟨b, rfl⟩ := Option.ne_none_iff_exists'.1 hn
    exact index_lt_of_some hr
  intro r
  cases r with
  | none => exact keeps_fail _
  | some escape =>
    dsimp only
    split
    · refine keeps_bind ((keeps_unicodeEscape (i + 2) i p allow).weaken (fun s hs => hs (by simp))
        fun _ _ h => h) ?_
      rintro ⟨j, rune⟩
      refine keeps_pure _ ?_
      rintro s _ ⟨h1, h2⟩
      exact ⟨by show i < j; dsimp only at h1; omega, h2⟩
    · cases simpleEscape escape with
      | none => exact keeps_invalid _ _ _ _
      | some byte =>
        have hend : ∀ s : Input, Holds text s →
            (some escape ≠ none → i + 2 ≤ s.bytes.length) →
            (Scan.more (i + 2) (emit out [byte])).Within text i :=
          fun s hI hs => ⟨by omega, (hs (by simp)).trans hI.length_le⟩
        dsimp only
        split
        · refine keeps_bind (keeps_markNoncanonical fun _ h => h) ?_
          intro _
          exact keeps_pure _ hend
        · exact keeps_pure _ hend

theorem keeps_runeItem (i : Nat) (p : String) (allow : Bool) (out : Option Bytes) :
    Keeps (Holds text) (fun s => i + 1 ≤ s.bytes.length) (runeItem i p allow out)
      (fun r _ => r.Within text i) := by
  rw [runeItem]
  refine keeps_bind (keeps_atIndex (i + 1) (i + 3)) ?_
  intro _
  refine keeps_bind (Q := fun r s => 1 ≤ r.2 ∧ i + r.2 ≤ text.length) (keeps_read ?_) ?_
  · rintro s hI ⟨hs, _⟩
    have hne : s.bytes.drop i ≠ [] := by
      intro h
      have := List.drop_eq_nil_iff.1 h
      omega
    obtain ⟨h1, h2⟩ := decodeUtf8_width hne
    rw [List.length_drop] at h2
    have := hI.length_le
    exact ⟨h1, by omega⟩
  rintro ⟨rune, width⟩
  have hend : ∀ s : Input, Holds text s → 1 ≤ width ∧ i + width ≤ text.length →
      (Scan.more (i + width) (emit out (appendRune rune))).Within text i :=
    fun s _ hs => ⟨by omega, hs.2⟩
  dsimp only
  split
  · split
    · refine keeps_bind (keeps_markNoncanonical fun _ h => h) ?_
      intro _
      exact keeps_pure _ hend
    · exact keeps_fail _
  · exact keeps_pure _ hend

/-- **an item ends after it starts, and within the input** -/
theorem keeps_stringItem (i : Nat) (p : String) (allow : Bool) (out : Option Bytes) :
    Keeps (Holds text) (fun s => True) (stringItem i p allow out) (fun r _ => r.Within text i) := by
  rw [stringItem]
  refine keeps_bind (Q := fun r s => r ≠ none → i + 1 ≤ s.bytes.length)
    ((keeps_atIndex 0 i).weaken (fun _ _ => Nat.zero_le _) ?_) ?_
  · rintro r s ⟨_, hr⟩ hn
    obtain ⟨b, rfl⟩ := Option.ne_none_iff_exists'.1 hn
    exact index_lt_of_some hr
  intro r
  cases r with
  | none => exact keeps_fail _
  | some b =>
    dsimp only
    split_ifs
    · exact keeps_pure _ fun _ _ _ => trivial
    · exact (keeps_escapeItem i p allow out).weaken (fun _ _ => trivial) fun _ _ h => h
    · exact keeps_invalid _ _ _ _
    · exact (keeps_runeItem i p allow out).weaken (fun s hs => hs (by simp)) fun _ _ h => h
    · exact keeps_pure _ fun s hI hs => ⟨by omega, (hs (by simp)).trans hI.length_le⟩

/-! ## one item at a time -/

def byteLoop (pointer : String) (allowInvalid : Bool) :
    Nat → Nat → Option Bytes → Lex (Nat × Option Bytes)
  | 0, i, _ => fail (Error.truncated i pointer)
  | fuel + 1, i, out => do
    match ← stringItem i pointer allowInvalid out with
    | .closed stop out => pure (stop, out)
    | .more i out => byteLoop pointer allowInvalid fuel i out

theorem emit_nil (out : Option Bytes) : emit out [] = out := by
  cases out with
  | none => rfl
  | some o => simp [emit]

theorem emit_emit (out : Option Bytes) (a b : Bytes) : emit (emit out a) b = emit out (a ++ b) := by
  cases out with
  | none => rfl
  | some o => simp [emit]

/-- a plain byte in the buffer is an item of its own -/
theorem stringItem_plain {s : Input} {i : Nat} {b : UInt8} (p : String) (allow : Bool)
    (out : Option Bytes) (hb : s.bytes[i]? = some b) (hs : isSpecial b = false) :
    stringItem i p allow out s = (.ok (.more (i + 1) (emit out [b])), s) := by
  have hat : atIndex i s = (.ok (some b), s) := by
    rw [atIndex, hb]
  rw [stringItem, bind_run_ok hat]
  simp only [isSpecial, Bool.or_eq_false_iff, decide_eq_false_iff_not] at hs
  obtain ⟨⟨⟨h1, h2⟩, h3⟩, h4⟩ := hs
  dsimp only
  rw [if_neg h1, if_neg h2, if_neg h3, if_neg h4]
  rfl

theorem byteLoop_run {s : Input} (p : String) (allow : Bool) (run rest : Bytes) (fuel i : Nat)
    (out : Option Bytes) (h : s.bytes.drop i = run ++ rest)
    (hrun : ∀ b ∈ run, isSpecial b = false) :
    byteLoop p allow (run.length + fuel) i out s
      = byteLoop p allow fuel (i + run.length) (emit out run) s := by
  induction run generalizing i out with
  | nil => rw [emit_nil, List.length_nil, Nat.zero_add, Nat.add_zero]
  | cons b run ih =>
    have hb : s.bytes[i]? = some b := by
      rw [← List.head?_drop, h]
      rfl
    have hdrop : s.bytes.drop (i + 1) = run ++ rest := by
      rw [← List.drop_drop, h]
      rfl
    rw [List.length_cons, Nat.add_right_comm, byteLoop,
      bind_run_ok (stringItem_plain p allow out hb (hrun b List.mem_cons_self))]
    dsimp only
    rw [ih (i + 1) (emit out [b]) hdrop fun c hc => hrun c (List.mem_cons_of_mem b hc), emit_emit,
      List.singleton_append]
    congr 1
    omega

/-- **runs of plain bytes change nothing**: with fuel for the bytes ahead, both loops agree -/
theorem stringLoop_eq (p : String) (allow : Bool) (f g i : Nat) (out : Option Bytes) (s : Input)
    (hs : Holds text s) (hi : i ≤ text.length) (hf : text.length + 1 ≤ f + i)
    (hg : text.length + 1 ≤ g + i) :
    stringLoop p allow f i out s = byteLoop p allow g i out s := by
  induction f generalizing g i out s with
  | zero => omega
  | succ f ih =>
    obtain ⟨run, hrun⟩ : ∃ run, run = (s.bytes.drop i).takeWhile fun b => !isSpecial b := ⟨_, rfl⟩
    have hsplit : s.bytes.drop i = run ++ (s.bytes.drop i).dropWhile fun b => !isSpecial b := by
      rw [hrun, List.takeWhile_append_dropWhile]
    have hplain : ∀ b ∈ run, isSpecial b = false := by
      intro b hb
      rw [hrun] at hb
      simpa using List.mem_takeWhile_imp hb
    have hlen : i + run.length ≤ text.length := by
      have h1 := congrArg List.length hsplit
      rw [List.length_drop, List.length_append] at h1
      have := hs.length_le
      omega
    have hread : plainRun i s = (.ok run, s) := by rw [hrun]; rfl
    obtain ⟨g', rfl⟩ : ∃ g', g = run.length + (g' + 1) := ⟨g - run.length - 1, by omega⟩
    rw [byteLoop_run p allow run _ (g' + 1) i out hsplit hplain, stringLoop, bind_run_ok hread,
      byteLoop]
    obtain ⟨h1, h2⟩ := keeps_stringItem (i + run.length) p allow (emit out run) s hs
      trivial
    rcases ends (stringItem (i + run.length) p allow (emit out run)) s with ⟨r, s', h⟩ | ⟨e, s', h⟩
    · rw [h] at h1 h2
      rw [bind_run_ok h, bind_run_ok h]
      cases r with
      | closed stop out' => rfl
      | more j out' =>
        obtain ⟨h3, h4⟩ := h2 _ rfl
        exact ih g' j out' s' h1 h4 (by omega) (by omega)
    · rw [bind_run_error h, bind_run_error h]

/-- **`stringInto` reads its string one item at a time** -/
theorem stringInto_eq (start : Nat) (p : String) (allow : Bool) (out : Option Bytes) (s : Input)
    (hs : start < s.total) :
    stringInto start p allow out s
      = (fuelFrom (start + 1) >>= fun fuel => byteLoop p allow fuel (start + 1) out) s := by
  have hread : fuelFrom (start + 1) s = (.ok (s.total + 1 - (start + 1)), s) := rfl
  have htotal : s.total = (s.bytes ++ s.ahead).length := Holds.total rfl
  rw [stringInto, bind_run_ok hread, bind_run_ok hread]
  exact stringLoop_eq p allow _ _ (start + 1) out s rfl (by omega) (by omega) (by omega)

end Tsr.Json.Input
