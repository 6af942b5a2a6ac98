import Tsr.Lib.Fallible

/-!
# Reading a stream of bytes

A stream answers each call with some of the bytes that are left, in pieces of its own choice, and may
be interrupted in between.  Two loops on top of it do not depend on the pieces: `readFull` fills a
buffer, `readUntil` reads up to a delimiter.

`Expects x w a` says that `x` reads exactly `w`, for the value `a`, and fails on a stream that ends
inside `w`.  It composes with the monad, and `drain_expects` follows a whole sequence of records
through a stream that is cut anywhere.
-/

namespace Tsr.Lib.Stream
open Tsr.Lib.Fallible

variable {ι ε ε' α β : Type}

/-- what the stream does at one call: nothing yet, or at most `extra + 1` bytes -/
inductive Offer where
  | interrupted
  | upTo (extra : Nat)
deriving DecidableEq

/-- at the end of its bytes a stream reports the end, or an error -/
structure Source (ι : Type) where
  ahead : List UInt8
  offers : List Offer
  ending : Option ι

inductive Stop (ι : Type) where
  | interrupted
  | failed (error : ι)

/-- some of the bytes ahead, none only at the end; once the offers are used up, all that are left -/
def fillBuf (s : Source ι) : Except (Stop ι) (List UInt8) × Source ι :=
  match s.offers with
  | .interrupted :: offers => (.error .interrupted, { s with offers := offers })
  | offers =>
    match s.ahead, s.ending with
    | [], some error => (.error (.failed error), s)
    | [], none => (.ok [], s)
    | ahead, _ =>
      match offers with
      | .upTo extra :: offers => (.ok (ahead.take (extra + 1)), { s with offers := offers })
      | _ => (.ok ahead, s)

/-- the stream ended before the first byte, inside, or with an error -/
inductive Short (ι : Type) where
  | atStart
  | inside
  | failed (error : ι)
deriving DecidableEq

/-- `filled` holds what has been read of the `size` bytes -/
def readFullLoop (size : Nat) :
    Nat → List UInt8 → Source ι → Except (Short ι) (List UInt8) × Source ι
  | 0, filled, s => (.ok filled, s)
  | fuel + 1, filled, s =>
    if filled.length < size then
      match fillBuf s with
      | (.ok available, t) =>
        let got := available.take (size - filled.length)
        if got = [] then (.error (if filled = [] then .atStart else .inside), t)
        else readFullLoop size fuel (filled ++ got) { t with ahead := t.ahead.drop got.length }
      | (.error .interrupted, t) => readFullLoop size fuel filled t
      | (.error (.failed error), t) => (.error (.failed error), t)
    else (.ok filled, s)

/-- each turn uses up an offer or a byte -/
def Source.turns (s : Source ι) : Nat := s.offers.length + s.ahead.length + 1

def readFull (size : Nat) : Fallible (Source ι) (Short ι) (List UInt8) := fun s =>
  readFullLoop size s.turns [] s

def readUntilLoop (delim : UInt8) : Nat → List UInt8 → Source ι → Except ι (List UInt8) × Source ι
  | 0, line, s => (.ok line, s)
  | fuel + 1, line, s =>
    match fillBuf s with
    | (.ok available, t) =>
      match available.idxOf? delim with
      | some i => (.ok (line ++ available.take (i + 1)), { t with ahead := t.ahead.drop (i + 1) })
      | none =>
        if available = [] then (.ok line, t)
        else
          readUntilLoop delim fuel (line ++ available) { t with ahead := t.ahead.drop available.length }
    | (.error .interrupted, t) => readUntilLoop delim fuel line t
    | (.error (.failed error), t) => (.error error, t)

/-- up to and with the delimiter, or up to the end of the stream -/
def readUntil (delim : UInt8) : Fallible (Source ι) ι (List UInt8) := fun s =>
  readUntilLoop delim s.turns [] s

/-! ## the pieces do not matter -/

/-- one call: interrupted, at the end, or a piece -/
theorem fillBuf_cases (s : Source ι) :
    (∃ o, o.length < s.offers.length ∧
      fillBuf s = (.error .interrupted, { s with offers := o })) ∨
    (s.ahead = [] ∧ s.ending = none ∧ fillBuf s = (.ok [], s)) ∨
    (∃ error, s.ahead = [] ∧ s.ending = some error ∧ fillBuf s = (.error (.failed error), s)) ∨
    ∃ k o, 0 < k ∧ k ≤ s.ahead.length ∧ o.length ≤ s.offers.length ∧
      fillBuf s = (.ok (s.ahead.take k), { s with offers := o }) := by
  obtain ⟨ahead, offers, ending⟩ := s
  rcases offers with _ | ⟨_ | extra, offers⟩
  · rcases ahead with _ | ⟨b, ahead⟩
    · cases ending with
      | none => exact .inr (.inl ⟨rfl, rfl, rfl⟩)
      | some error => exact .inr (.inr (.inl ⟨error, rfl, rfl, rfl⟩))
    · refine .inr (.inr (.inr ⟨(b :: ahead).length, [], by simp, le_rfl, le_rfl, ?_⟩))
      rw [List.take_length]
      rfl
  · exact .inl ⟨offers, by simp, rfl⟩
  · rcases ahead with _ | ⟨b, ahead⟩
    · cases ending with
      | none => exact .inr (.inl ⟨rfl, rfl, rfl⟩)
      | some error => exact .inr (.inr (.inl ⟨error, rfl, rfl, rfl⟩))
    · refine .inr (.inr (.inr ⟨min (extra + 1) (b :: ahead).length, offers, by simp, by simp, by simp,
        ?_⟩))
      rw [← List.take_eq_take_min]
      rfl

/-- how a read of `got` fails when the stream ends -/
def shortAt (got : List UInt8) : Option ι → Short ι
  | some error => .failed error
  | none => if got = [] then .atStart else .inside

theorem readFullLoop_enough (size fuel : Nat) (filled : List UInt8) (s : Source ι)
    (hfuel : s.turns ≤ fuel) (hsize : filled.length ≤ size)
    (h : size ≤ filled.length + s.ahead.length) :
    ∃ o, readFullLoop size fuel filled s = (.ok (filled ++ s.ahead.take (size - filled.length)),
      { s with ahead := s.ahead.drop (size - filled.length), offers := o }) := by
  induction fuel generalizing filled s with
  | zero => simp [Source.turns] at hfuel
  | succ fuel ih =>
    rw [readFullLoop]
    by_cases hlt : filled.length < size
    · rw [if_pos hlt]
      simp only [Source.turns] at hfuel ih
      rcases fillBuf_cases s with ⟨o, ho, hb⟩ | ⟨ha, he, hb⟩ | ⟨e, ha, he, hb⟩ | ⟨k, o, hk, hk', ho, hb⟩
      · simp only [hb]
        exact ih filled { s with offers := o } (by dsimp only; omega) hsize h
      · rw [ha, List.length_nil] at h
        omega
      · rw [ha, List.length_nil] at h
        omega
      · simp only [hb, List.take_take]
        set n := min (size - filled.length) k with hn
        have hlen : (s.ahead.take n).length = n := by
          rw [List.length_take]
          omega
        rw [if_neg fun h0 => by rw [h0, List.length_nil] at hlen; omega, hlen]
        obtain ⟨o', ho'⟩ := ih (filled ++ s.ahead.take n)
          { ahead := s.ahead.drop n, offers := o, ending := s.ending }
          (by simp only [List.length_drop]; omega)
          (by rw [List.length_append, hlen]; omega)
          (by simp only [List.length_append, hlen, List.length_drop]; omega)
        refine ⟨o', ho'.trans ?_⟩
        have hsplit : size - filled.length = n + (size - (filled ++ s.ahead.take n).length) := by
          rw [List.length_append, hlen]
          omega
        rw [hsplit, List.take_add, List.append_assoc, List.drop_drop]
    · rw [if_neg hlt]
      refine ⟨s.offers, ?_⟩
      rw [Nat.sub_eq_zero_of_le (by omega), List.take_zero, List.append_nil]
      rfl

theorem readFullLoop_short (size fuel : Nat) (filled : List UInt8) (s : Source ι)
    (hfuel : s.turns ≤ fuel) (h : filled.length + s.ahead.length < size) :
    ∃ o, readFullLoop size fuel filled s = (.error (shortAt (filled ++ s.ahead) s.ending),
      { s with ahead := [], offers := o }) := by
  induction fuel generalizing filled s with
  | zero => simp [Source.turns] at hfuel
  | succ fuel ih =>
    rw [readFullLoop, if_pos (by omega)]
    simp only [Source.turns] at hfuel ih
    rcases fillBuf_cases s with ⟨o, ho, hb⟩ | ⟨ha, he, hb⟩ | ⟨e, ha, he, hb⟩ | ⟨k, o, hk, hk', ho, hb⟩
    · simp only [hb]
      exact ih filled { s with offers := o } (by dsimp only; omega) h
    · obtain ⟨_, offers, _⟩ := s
      cases ha
      cases he
      refine ⟨offers, ?_⟩
      simp only [hb, List.take_nil, if_true, List.append_nil, shortAt]
    · obtain ⟨_, offers, _⟩ := s
      cases ha
      cases he
      refine ⟨offers, ?_⟩
      simp only [hb, shortAt]
    · simp only [hb]
      rw [List.take_of_length_le (by rw [List.length_take]; omega)]
      have hlen : (s.ahead.take k).length = k := by
        rw [List.length_take]
        omega
      rw [if_neg fun h0 => by rw [h0, List.length_nil] at hlen; omega, hlen]
      obtain ⟨o', ho'⟩ := ih (filled ++ s.ahead.take k)
        { ahead := s.ahead.drop k, offers := o, ending := s.ending }
        (by simp only [List.length_drop]; omega)
        (by simp only [List.length_append, hlen, List.length_drop]; omega)
      refine ⟨o', ho'.trans ?_⟩
      rw [List.append_assoc, List.take_append_drop]

theorem idxOf_first {delim : UInt8} {w : List UInt8} (hw : delim ∉ w) (rest : List UInt8) :
    (w ++ delim :: rest).idxOf? delim = some w.length := by
  induction w with
  | nil => simp [List.idxOf?_cons]
  | cons b w ih =>
    rw [List.mem_cons, not_or] at hw
    rw [List.cons_append, List.idxOf?_cons, if_neg (by simpa using fun h => hw.1 h.symm), ih hw.2]
    rfl

theorem readUntilLoop_found (delim : UInt8) (fuel : Nat) (line w rest : List UInt8) (s : Source ι)
    (hfuel : s.turns ≤ fuel) (ha : s.ahead = w ++ delim :: rest) (hw : delim ∉ w) :
    ∃ o, readUntilLoop delim fuel line s = (.ok (line ++ (w ++ [delim])),
      { s with ahead := rest, offers := o }) := by
  induction fuel generalizing line w s with
  | zero => simp [Source.turns] at hfuel
  | succ fuel ih =>
    simp only [Source.turns] at hfuel ih
    rw [readUntilLoop]
    rcases fillBuf_cases s with ⟨o, ho, hb⟩ | ⟨ha', he, hb⟩ | ⟨e, ha', he, hb⟩ | ⟨k, o, hk, hk', ho, hb⟩
    · simp only [hb]
      exact ih line w { s with offers := o } (by dsimp only; omega) ha hw
    · rw [ha'] at ha
      exact absurd ha.symm (by simp)
    · rw [ha'] at ha
      exact absurd ha.symm (by simp)
    · simp only [hb]
      by_cases hfound : w.length < k
      -- the piece holds the delimiter
      · have hpiece : s.ahead.take k = w ++ delim :: rest.take (k - w.length - 1) := by
          rw [ha, List.take_append, List.take_of_length_le (by omega),
            show k - w.length = k - w.length - 1 + 1 from by omega, List.take_succ_cons]
          simp
        refine ⟨o, ?_⟩
        rw [hpiece, idxOf_first hw, ha]
        simp [List.take_append, List.drop_append]
      -- it does not
      · have hpiece : s.ahead.take k = w.take k := by
          rw [ha, List.take_append_of_le_length (by omega)]
        have hnone : (w.take k).idxOf? delim = none :=
          List.idxOf?_eq_none_iff.2 fun hm => hw (List.mem_of_mem_take hm)
        have hlen : (w.take k).length = k := by
          rw [List.length_take]
          omega
        rw [hpiece, hnone]
        simp only
        rw [if_neg fun h0 => by rw [h0, List.length_nil] at hlen; omega, hlen]
        obtain ⟨o', ho'⟩ := ih (line ++ w.take k) (w.drop k)
          { ahead := s.ahead.drop k, offers := o, ending := s.ending }
          (by simp only [List.length_drop]; omega)
          (by rw [ha, List.drop_append_of_le_length (by omega)])
          (fun hm => hw (List.mem_of_mem_drop hm))
        refine ⟨o', ho'.trans ?_⟩
        rw [List.append_assoc, ← List.append_assoc (w.take k), List.take_append_drop]

theorem readUntilLoop_ends (delim : UInt8) (fuel : Nat) (line : List UInt8) (s : Source ι)
    (hfuel : s.turns ≤ fuel) (hw : delim ∉ s.ahead) :
    ∃ o, readUntilLoop delim fuel line s =
      ((match s.ending with | none => .ok (line ++ s.ahead) | some error => .error error),
        { s with ahead := [], offers := o }) := by
  induction fuel generalizing line s with
  | zero => simp [Source.turns] at hfuel
  | succ fuel ih =>
    simp only [Source.turns] at hfuel ih
    rw [readUntilLoop]
    rcases fillBuf_cases s with ⟨o, ho, hb⟩ | ⟨ha, he, hb⟩ | ⟨e, ha, he, hb⟩ | ⟨k, o, hk, hk', ho, hb⟩
    · simp only [hb]
      exact ih line { s with offers := o } (by dsimp only; omega) hw
    · obtain ⟨_, offers, _⟩ := s
      cases ha
      cases he
      refine ⟨offers, ?_⟩
      simp only [hb, List.idxOf?_nil, if_true, List.append_nil]
    · obtain ⟨_, offers, _⟩ := s
      cases ha
      cases he
      refine ⟨offers, ?_⟩
      simp only [hb]
    · simp only [hb]
      have hnone : (s.ahead.take k).idxOf? delim = none :=
        List.idxOf?_eq_none_iff.2 fun hm => hw (List.mem_of_mem_take hm)
      have hlen : (s.ahead.take k).length = k := by
        rw [List.length_take]
        omega
      rw [hnone]
      simp only
      rw [if_neg fun h0 => by rw [h0, List.length_nil] at hlen; omega, hlen]
      obtain ⟨o', ho'⟩ := ih (line ++ s.ahead.take k)
        { ahead := s.ahead.drop k, offers := o, ending := s.ending }
        (by simp only [List.length_drop]; omega)
        (fun hm => hw (List.mem_of_mem_drop hm))
      refine ⟨o', ho'.trans ?_⟩
      rw [List.append_assoc, List.take_append_drop]

/-! ## records -/

/-- `x` reads exactly `w`, for the value `a`; a stream that ends inside `w` is read to its end, in
vain -/
structure Expects (x : Fallible (Source ι) ε α) (w : List UInt8) (a : α) : Prop where
  whole : ∀ s rest, s.ahead = w ++ rest →
    ∃ o, x s = (.ok a, { s with ahead := rest, offers := o })
  short : ∀ s, s.ahead <+: w → s.ahead ≠ w →
    ∃ e o, x s = (.error e, { s with ahead := [], offers := o })

theorem expects_pure (a : α) : Expects (pure a : Fallible (Source ι) ε α) [] a where
  whole := by
    intro s rest h
    refine ⟨s.offers, ?_⟩
    rw [← show s.ahead = rest from h]
    rfl
  short := fun s h hne => absurd (List.prefix_nil.1 h) hne

theorem Expects.bind {x : Fallible (Source ι) ε α} {k : α → Fallible (Source ι) ε β}
    {w v : List UInt8} {a : α} {b : β} (hx : Expects x w a) (hk : Expects (k a) v b) :
    Expects (x >>= k) (w ++ v) b where
  whole := by
    intro s rest h
    obtain ⟨o, ho⟩ := hx.whole s (v ++ rest) (by rw [h, List.append_assoc])
    obtain ⟨o', ho'⟩ := hk.whole { s with ahead := v ++ rest, offers := o } rest rfl
    exact ⟨o', (bind_run_ok ho).trans ho'⟩
  short := by
    intro s h hne
    by_cases hw : w <+: s.ahead
    · obtain ⟨q, hq⟩ := hw
      obtain ⟨o, ho⟩ := hx.whole s q hq.symm
      obtain ⟨e, o', ho'⟩ := hk.short { s with ahead := q, offers := o }
        ((List.prefix_append_right_inj w).1 (hq ▸ h)) (fun hv => hne (hq.symm.trans (congrArg (w ++ ·) hv)))
      exact ⟨e, o', (bind_run_ok ho).trans ho'⟩
    · have hp : s.ahead <+: w :=
        (List.prefix_or_prefix_of_prefix h (List.prefix_append w v)).resolve_right hw
      obtain ⟨e, o, ho⟩ := hx.short s hp fun he => hw (he ▸ List.prefix_rfl)
      exact ⟨e, o, bind_run_error ho⟩

/-- a function of the value -/
theorem Expects.value {x : Fallible (Source ι) ε α} {w : List UInt8} {a : α} (hx : Expects x w a)
    (f : α → β) : Expects (x >>= fun a => pure (f a)) w (f a) := by
  have := hx.bind (k := fun a => pure (f a)) (expects_pure (f a))
  rwa [List.append_nil] at this

theorem Expects.mapError {x : Fallible (Source ι) ε α} {w : List UInt8} {a : α}
    (g : Source ι → ε → ε') (h : Expects x w a) : Expects (Fallible.mapError g x) w a where
  whole := by
    intro s rest hs
    obtain ⟨o, ho⟩ := h.whole s rest hs
    exact ⟨o, by rw [Fallible.mapError, ho]⟩
  short := by
    intro s hp hne
    obtain ⟨e, o, ho⟩ := h.short s hp hne
    exact ⟨g { s with ahead := [], offers := o } e, o, by rw [Fallible.mapError, ho]⟩

theorem expects_readFull (w : List UInt8) :
    Expects (readFull w.length : Fallible (Source ι) (Short ι) (List UInt8)) w w where
  whole := by
    intro s rest h
    obtain ⟨o, ho⟩ := readFullLoop_enough w.length s.turns [] s le_rfl (Nat.zero_le _)
      (by rw [h]; simp)
    refine ⟨o, ho.trans ?_⟩
    simp [h]
  short := by
    intro s hp hne
    have hlt : s.ahead.length < w.length :=
      lt_of_le_of_ne hp.length_le fun he => hne (hp.eq_of_length he)
    obtain ⟨o, ho⟩ := readFullLoop_short w.length s.turns [] s le_rfl (by simpa using hlt)
    exact ⟨_, o, ho⟩

theorem expects_readFull_of_length {w : List UInt8} {n : Nat} (h : w.length = n) :
    Expects (readFull n : Fallible (Source ι) (Short ι) (List UInt8)) w w := h ▸ expects_readFull w

/-! ## a whole stream -/

/-- the values read up to the first failure, the failure, and the stream after it -/
def drain (x : Fallible (Source ι) ε α) : Nat → Source ι → List α × Option ε × Source ι
  | 0, s => ([], none, s)
  | fuel + 1, s =>
    match x s with
    | (.error e, t) => ([], some e, t)
    | (.ok a, t) => (a :: (drain x fuel t).1, (drain x fuel t).2)

section
variable {ρ : Type} (record : ρ → List UInt8)

def written (rs : List ρ) : List UInt8 := rs.flatMap record

/-- the records that the first `k` bytes hold whole -/
def complete : Nat → List ρ → List ρ
  | _, [] => []
  | k, r :: rs =>
    if (record r).length ≤ k then r :: complete (k - (record r).length) rs else []

theorem complete_written {k : Nat} {rs : List ρ} (h : (written record rs).length ≤ k) :
    complete record k rs = rs := by
  induction rs generalizing k with
  | nil => rfl
  | cons r rs ih =>
    rw [written, List.flatMap_cons, List.length_append] at h
    rw [complete, if_pos (by omega), ih (by rw [written]; omega)]

variable {x : Fallible (Source ι) ε α} {value : ρ → α}

/-- **a stream cut after `k` bytes** gives the records it holds whole, then an error; the whole stream
gives every record, then what `x` says at the end -/
theorem drain_expects (hx : ∀ r, Expects x (record r) (value r)) (hpos : ∀ r, record r ≠ []) {eof : ε}
    (hend : ∀ s : Source ι, s.ahead = [] →
      ∃ e o, x s = (.error e, { s with offers := o }) ∧ (s.ending = none → e = eof))
    (rs : List ρ) (k fuel : Nat) (s : Source ι) (h : s.ahead = (written record rs).take k)
    (hfuel : s.ahead.length < fuel) :
    ∃ e o, drain x fuel s =
        ((complete record k rs).map value, some e, { s with ahead := [], offers := o }) ∧
      ((written record rs).length ≤ k → s.ending = none → e = eof) := by
  induction rs generalizing k fuel s with
  | nil =>
    obtain ⟨fuel, rfl⟩ : ∃ n, fuel = n + 1 := ⟨fuel - 1, by omega⟩
    have ha : s.ahead = [] := h.trans (List.take_nil)
    obtain ⟨e, o, ho, he⟩ := hend s ha
    refine ⟨e, o, ?_, fun _ => he⟩
    rw [drain, ho, ← ha]
    rfl
  | cons r rs ih =>
    obtain ⟨fuel, rfl⟩ : ∃ n, fuel = n + 1 := ⟨fuel - 1, by omega⟩
    rw [written, List.flatMap_cons] at h ⊢
    have hlen : 0 < (record r).length := List.length_pos_iff.2 (hpos r)
    by_cases hk : (record r).length ≤ k
    · rw [List.take_append, List.take_of_length_le hk] at h
      obtain ⟨o, ho⟩ := (hx r).whole s _ h
      obtain ⟨e, o', ho', he⟩ := ih (k - (record r).length) fuel
        { s with ahead := (rs.flatMap record).take (k - (record r).length), offers := o } rfl
        (by
          rw [h, List.length_append] at hfuel
          dsimp only
          omega)
      refine ⟨e, o', ?_, fun hlast => he ?_⟩
      · rw [drain, ho, complete, if_pos hk]
        simp only [ho', List.map_cons]
      · rw [List.length_append] at hlast
        rw [written]
        omega
    · rw [List.take_append_of_le_length (by omega)] at h
      obtain ⟨e, o, ho⟩ := (hx r).short s (h ▸ List.take_prefix _ _)
        (fun he => by
          have := congrArg List.length (h.symm.trans he)
          rw [List.length_take] at this
          omega)
      refine ⟨e, o, ?_, fun hlast => absurd hlast ?_⟩
      · rw [drain, ho, complete, if_neg hk]
        rfl
      · rw [List.length_append]
        omega

end

end Tsr.Lib.Stream
