import Tsr.Ast.TextPool

/-!
# The words of a pool stand for their texts

* `Stands`            what a word stands for: a text in front of the end, a range in a slot, or a text that
                      its field keeps;
* `Inv`               the words of all fields, the free slots and the texts that are kept;
* `insertPool_inv`, `release_inv`   what the writes do to it;
* `pool_runs`         no call panics, and each field reads its own text.

A field has its slot alone (`apart`), so that a slot that changes hands is read by its new field only.
-/

set_option linter.unusedSectionVars false

namespace Tsr.Ast.TextPool

variable {source : List UInt8}

/-! ## entries and words -/

theorem fromRange_eq_some {start stop : Nat} {entry : TextEntry} (h : TextEntry.fromRange start stop = some entry) :
    entry ≠ .owned ∧ entry ≠ .vacant ∧ entry.start = start ∧ entry.start + entry.len = stop := by
  unfold TextEntry.fromRange at h
  split at h
  next hfits =>
    obtain ⟨hstart, hle, -⟩ := hfits
    obtain rfl := Option.some.inj h
    have hne : start ≠ 2 ^ 32 - 1 := by omega
    exact ⟨fun e => hne (congrArg TextEntry.start e), fun e => hne (congrArg TextEntry.start e), rfl,
      Nat.add_sub_cancel' hle⟩
  next => cases h

/-- the slot that an odd word names -/
def slotOf (word : Nat) : Option Nat := if word % 2 = 1 ∧ word ≠ extended then some (word / 2) else none

theorem word_ne_extended {i : Nat} (h : i < poolLimit) : i * 2 + 1 ≠ extended := by
  have hlimit : i < 2 ^ 31 - 1 := h
  show i * 2 + 1 ≠ 2 ^ 32 - 1
  omega

theorem slotOf_slot {i : Nat} (h : i < poolLimit) : slotOf (i * 2 + 1) = some i := by
  have hodd : (i * 2 + 1) % 2 = 1 := by omega
  have hhalf : (i * 2 + 1) / 2 = i := by omega
  rw [slotOf, if_pos ⟨hodd, word_ne_extended h⟩, hhalf]

theorem slotOf_raw {word : Nat} (h : word % 2 = 0) : slotOf word = none := if_neg fun hodd => by omega

theorem slotOf_extended : slotOf extended = none := if_neg fun h => h.2 rfl

/-- the text in front of the end -/
def rawText (source : List UInt8) (word : Nat) (stop : Int) : Option (List UInt8) :=
  (rawRange source word stop).bind fun range => sourceGet source range.1 range.2

theorem sourceGet_text {start stop : Nat} {text : List UInt8} (h : sourceGet source start stop = some text) :
    (start ≤ stop ∧ stop ≤ source.length) ∧ (source.take stop).drop start = text := by
  unfold sourceGet at h
  split at h
  next hin => exact ⟨hin, Option.some.inj h⟩
  next => cases h

theorem matchingRaw_eq_some {text : List UInt8} {stop : Int} {word : Nat}
    (h : matchingRaw source text stop = some word) : word % 2 = 0 ∧ rawText source word stop = some text := by
  unfold matchingRaw at h
  split at h
  next hmatch =>
    obtain ⟨hnonneg, hlength, -, hget⟩ := hmatch
    obtain rfl := Option.some.inj h
    have hhalf : text.length * 2 / 2 = text.length := by omega
    have hin := (sourceGet_text hget).1
    refine ⟨by omega, ?_⟩
    rw [rawText, rawRange, hhalf, if_pos ⟨hnonneg, hlength, hin.2⟩]
    exact hget
  next => cases h

/-! ## what a word stands for -/

inductive Stands (source : List UInt8) (p : Pool) (key : FieldKey) (h : Held) : Prop
  | raw (hkey : key.isIdentifier = true) (hword : h.word % 2 = 0) (htext : rawText source h.word h.stop = some h.text)
  | extended {value : Value} (hword : h.word = extended) (hkept : p.kept key = some value)
      (htext : value.text source = h.text)
  | owned {i : Nat} {value : Value} (hword : h.word = i * 2 + 1) (hentry : p.entries[i]? = some .owned)
      (hkept : p.kept key = some value) (htext : value.text source = h.text)
  | source {i start stop : Nat} {entry : TextEntry} (hword : h.word = i * 2 + 1) (hentry : p.entries[i]? = some entry)
      (hrange : TextEntry.fromRange start stop = some entry) (htext : sourceGet source start stop = some h.text)

/-- the field of the word keeps its text -/
def Keeps (p : Pool) (word : Nat) : Prop :=
  word = extended ∨ ∃ i, slotOf word = some i ∧ p.entries[i]? = some .owned

structure Inv (source : List UInt8) (p : Pool) (held : FieldKey → Option Held) : Prop where
  nodup : p.free.Nodup
  vacant : ∀ i, i ∈ p.free ↔ p.entries[i]? = some .vacant
  size : p.entries.length ≤ poolLimit
  stands : ∀ key h, held key = some h → Stands source p key h
  apart : ∀ key key' h h' i, held key = some h → held key' = some h' → slotOf h.word = some i →
    slotOf h'.word = some i → key = key'
  kept : ∀ key, (p.kept key).isSome = true ↔ ∃ h, held key = some h ∧ Keeps p h.word

section
variable {p : Pool} {key : FieldKey} {h : Held}

/-- a slot of the pool is below the limit, and its word names it -/
theorem Inv.slot {held : FieldKey → Option Held} (hinv : Inv source p held) {i : Nat} {entry : TextEntry}
    (hentry : p.entries[i]? = some entry) : i < p.entries.length ∧ i < poolLimit ∧ slotOf (i * 2 + 1) = some i := by
  have hlt := (List.getElem?_eq_some_iff.1 hentry).1
  have hlimit := Nat.lt_of_lt_of_le hlt hinv.size
  exact ⟨hlt, hlimit, slotOf_slot hlimit⟩

/-- **A slot that is named** is not vacant. -/
theorem Stands.entry {held : FieldKey → Option Held} (hinv : Inv source p held) (hstands : Stands source p key h)
    {i : Nat} (hslot : slotOf h.word = some i) : ∃ entry, p.entries[i]? = some entry ∧ entry ≠ .vacant := by
  cases hstands with
  | raw _ hword =>
    rw [slotOf_raw hword] at hslot
    cases hslot
  | extended hword =>
    rw [hword, slotOf_extended] at hslot
    cases hslot
  | owned hword hentry =>
    rw [hword, (hinv.slot hentry).2.2] at hslot
    cases hslot
    exact ⟨_, hentry, by decide⟩
  | source hword hentry hrange =>
    rw [hword, (hinv.slot hentry).2.2] at hslot
    cases hslot
    exact ⟨_, hentry, (fromRange_eq_some hrange).2.1⟩

/-- what a word stands for rests on its slot and on what its field keeps -/
theorem Stands.frame {held : FieldKey → Option Held} (hinv : Inv source p held) (hstands : Stands source p key h)
    {p' : Pool} (hkept : p'.kept key = p.kept key)
    (hentries : ∀ i, slotOf h.word = some i → p'.entries[i]? = p.entries[i]?) : Stands source p' key h := by
  cases hstands with
  | raw hkey hword htext => exact .raw hkey hword htext
  | extended hword hvalue htext => exact .extended hword (hkept.trans hvalue) htext
  | @owned i value hword hentry hvalue htext =>
    have hsame := hentries i (by rw [hword, (hinv.slot hentry).2.2])
    exact .owned hword (hsame.trans hentry) (hkept.trans hvalue) htext
  | @source i start stop entry hword hentry hrange htext =>
    have hsame := hentries i (by rw [hword, (hinv.slot hentry).2.2])
    exact .source hword (hsame.trans hentry) hrange htext

/-- an odd word that is no escape, in the pool -/
theorem pooled_slot {held : FieldKey → Option Held} (hinv : Inv source p held) {i : Nat} {entry : TextEntry}
    (hentry : p.entries[i]? = some entry) (hne : entry ≠ .vacant) :
    p.pooled key (i * 2 + 1) =
      if entry = .owned then (p.kept key).map .owned else some (.source entry.start (entry.start + entry.len)) := by
  have hhalf : (i * 2 + 1) / 2 = i := by omega
  have hword := word_ne_extended (hinv.slot hentry).2.1
  unfold Pool.pooled
  rw [if_neg hword, hhalf, hentry]
  exact if_neg hne

theorem sliceOf_text {start stop : Nat} {text : List UInt8} (hget : sourceGet source start stop = some text) :
    ∃ value, Pool.sliceOf source start stop = some value ∧ value.text source = text := by
  obtain ⟨hin, htext⟩ := sourceGet_text hget
  exact ⟨.slice start stop, if_pos hin, htext⟩

/-- **Reads** give the text that the word stands for. -/
theorem Stands.reads {held : FieldKey → Option Held} (hinv : Inv source p held) (hstands : Stands source p key h) :
    p.bytes source key h.word h.stop = some h.text ∧
      ∃ value, p.owned source key h.word h.stop = some value ∧ value.text source = h.text := by
  have hodd : ∀ {i : Nat}, (i * 2 + 1) % 2 ≠ 0 := by omega
  unfold Pool.bytes Pool.owned
  cases hstands with
  | raw _ hword htext =>
    rw [if_pos hword, if_pos hword]
    obtain ⟨range, hrange, hget⟩ := Option.bind_eq_some_iff.1 htext
    rw [hrange]
    exact ⟨hget, sliceOf_text hget⟩
  | @extended value hword hkept htext =>
    have hpooled : p.pooled key TextPool.extended = some (.owned value) := by
      unfold Pool.pooled
      rw [if_pos rfl, hkept]
      rfl
    rw [hword, if_neg (by decide), if_neg (by decide), hpooled]
    exact ⟨congrArg some htext, value, rfl, htext⟩
  | @owned i value hword hentry hkept htext =>
    have hpooled : p.pooled key (i * 2 + 1) = _ := pooled_slot hinv hentry (by decide)
    rw [if_pos rfl, hkept] at hpooled
    rw [hword, if_neg hodd, if_neg hodd, hpooled]
    exact ⟨congrArg some htext, value, rfl, htext⟩
  | @source i start stop entry hword hentry hrange htext =>
    obtain ⟨howned, hvacant, hstart, hstop⟩ := fromRange_eq_some hrange
    have hpooled : p.pooled key (i * 2 + 1) = _ := pooled_slot hinv hentry hvacant
    rw [if_neg howned, hstart] at hpooled
    rw [hstart] at hstop
    rw [hstop] at hpooled
    rw [hword, if_neg hodd, if_neg hodd, hpooled]
    exact ⟨htext, sliceOf_text htext⟩

end

/-! ## writes -/

section
variable {p p' : Pool} {held : FieldKey → Option Held} {key : FieldKey}

theorem keeps_raw {word : Nat} (h : word % 2 = 0) : ¬Keeps p word := by
  rintro (rfl | ⟨i, hslot, -⟩)
  · exact absurd h (by decide)
  · rw [slotOf_raw h] at hslot
    cases hslot

theorem keeps_congr {word : Nat} (h : ∀ i, slotOf word = some i → p'.entries[i]? = p.entries[i]?) :
    Keeps p' word ↔ Keeps p word := by
  refine or_congr Iff.rfl (exists_congr fun i => and_congr_right fun hslot => ?_)
  rw [h i hslot]

/-- the free slots of a pool -/
structure Tidy (p : Pool) : Prop where
  nodup : p.free.Nodup
  vacant : ∀ i, i ∈ p.free ↔ p.entries[i]? = some .vacant
  size : p.entries.length ≤ poolLimit

theorem Inv.tidy (hinv : Inv source p held) : Tidy p := ⟨hinv.nodup, hinv.vacant, hinv.size⟩

/-- all other fields have what they had -/
structure Spares (p p' : Pool) (held : FieldKey → Option Held) (key : FieldKey) : Prop where
  kept : ∀ k, k ≠ key → p'.kept k = p.kept k
  entries : ∀ k h i, k ≠ key → held k = some h → slotOf h.word = some i → p'.entries[i]? = p.entries[i]?

theorem Spares.refl : Spares p p held key := ⟨fun _ _ => rfl, fun _ _ _ _ _ _ => rfl⟩

theorem Inv.stands_spared (hinv : Inv source p held) (hspares : Spares p p' held key) {k : FieldKey} {h : Held}
    (hne : k ≠ key) (hk : held k = some h) : Stands source p' k h :=
  (hinv.stands k h hk).frame hinv (hspares.kept k hne) fun i => hspares.entries k h i hne hk

theorem Inv.kept_spared (hinv : Inv source p held) (hspares : Spares p p' held key) {k : FieldKey} (hne : k ≠ key) :
    (p'.kept k).isSome = true ↔ ∃ h, held k = some h ∧ Keeps p' h.word := by
  rw [hspares.kept k hne, hinv.kept k]
  refine exists_congr fun h => and_congr_right fun hk => ?_
  exact (keeps_congr fun i => hspares.entries k h i hne hk).symm

/-- **A field loses its word.** -/
theorem Inv.drop (hinv : Inv source p held) (htidy : Tidy p') (hspares : Spares p p' held key)
    (hnone : p'.kept key = none) : Inv source p' (Function.update held key none) := by
  have hbefore : ∀ k h, Function.update held key none k = some h → k ≠ key ∧ held k = some h := by
    intro k h hk
    by_cases hkey : k = key
    · rw [hkey, Function.update_self] at hk
      cases hk
    · rw [Function.update_of_ne hkey] at hk
      exact ⟨hkey, hk⟩
  refine ⟨htidy.nodup, htidy.vacant, htidy.size, ?_, ?_, ?_⟩
  · intro k h hk
    obtain ⟨hne, hheld⟩ := hbefore k h hk
    exact hinv.stands_spared hspares hne hheld
  · intro k k' h h' i hk hk'
    exact hinv.apart k k' h h' i (hbefore k h hk).2 (hbefore k' h' hk').2
  · intro k
    by_cases hkey : k = key
    · rw [hkey, hnone, Function.update_self]
      exact iff_of_false (by decide) fun ⟨h, hh, _⟩ => by cases hh
    · rw [Function.update_of_ne hkey]
      exact hinv.kept_spared hspares hkey

/-- **A field is given a word** that names no slot of another field. -/
theorem Inv.give (hinv : Inv source p held) (htidy : Tidy p') (hspares : Spares p p' held key) {h : Held}
    (hstands : Stands source p' key h) (hself : (p'.kept key).isSome = true ↔ Keeps p' h.word)
    (hapart : ∀ k h' i, k ≠ key → held k = some h' → slotOf h'.word = some i → slotOf h.word ≠ some i) :
    Inv source p' (Function.update held key (some h)) := by
  have hcases : ∀ k h', Function.update held key (some h) k = some h' →
      (k = key ∧ h' = h) ∨ (k ≠ key ∧ held k = some h') := by
    intro k h' hk
    by_cases hkey : k = key
    · rw [hkey, Function.update_self] at hk
      exact Or.inl ⟨hkey, (Option.some.inj hk).symm⟩
    · rw [Function.update_of_ne hkey] at hk
      exact Or.inr ⟨hkey, hk⟩
  refine ⟨htidy.nodup, htidy.vacant, htidy.size, ?_, ?_, ?_⟩
  · intro k h' hk
    obtain ⟨hkey, hh⟩ | ⟨hne, hheld⟩ := hcases k h' hk
    · rw [hkey, hh]
      exact hstands
    · exact hinv.stands_spared hspares hne hheld
  · intro k k' h1 h2 i hk hk' hslot hslot'
    obtain ⟨hkey, hh⟩ | ⟨hne, hheld⟩ := hcases k h1 hk
    · obtain ⟨hkey', -⟩ | ⟨hne', hheld'⟩ := hcases k' h2 hk'
      · rw [hkey, hkey']
      · rw [hh] at hslot
        exact absurd hslot (hapart k' h2 i hne' hheld' hslot')
    · obtain ⟨-, hh'⟩ | ⟨-, hheld'⟩ := hcases k' h2 hk'
      · rw [hh'] at hslot'
        exact absurd hslot' (hapart k h1 i hne hheld hslot)
      · exact hinv.apart k k' h1 h2 i hheld hheld' hslot hslot'
  · intro k
    by_cases hkey : k = key
    · rw [hkey, Function.update_self, hself]
      constructor
      · intro hkeeps
        exact ⟨h, rfl, hkeeps⟩
      · intro ⟨h', hh, hkeeps⟩
        rw [Option.some.inj hh]
        exact hkeeps
    · rw [Function.update_of_ne hkey]
      exact hinv.kept_spared hspares hkey

/-- a field that holds no word keeps nothing -/
theorem Inv.kept_none (hinv : Inv source p held) (hnone : held key = none) : p.kept key = none := by
  rw [← Option.not_isSome_iff_eq_none, hinv.kept key]
  intro ⟨h, hk, _⟩
  rw [hnone] at hk
  cases hk

/-- a word for the text in front of the end needs nothing of the pool -/
theorem Inv.giveRaw (hinv : Inv source p held) (hnone : held key = none) {h : Held} (hword : h.word % 2 = 0)
    (hstands : Stands source p key h) : Inv source p (Function.update held key (some h)) := by
  refine hinv.give hinv.tidy Spares.refl hstands ?_ ?_
  · rw [hinv.kept_none hnone]
    exact iff_of_false (by decide) (keeps_raw hword)
  · intro k h' i _ _ _ hslot
    rw [slotOf_raw hword] at hslot
    cases hslot

/-- a slot that was vacant or new holds an entry -/
structure Filled (p p' : Pool) (i : Nat) (entry : TextEntry) : Prop where
  slot : i < poolLimit
  entry : p'.entries[i]? = some entry
  other : ∀ j, j ≠ i → p'.entries[j]? = p.entries[j]?
  before : ∀ e, p.entries[i]? = some e → e = .vacant
  nodup : p'.free.Nodup
  vacant : ∀ j, j ∈ p'.free ↔ p'.entries[j]? = some .vacant
  size : p'.entries.length ≤ poolLimit

/-- the next slot, filled -/
theorem filled_nextSlot (hinv : Inv source p held) {limit i : Nat} (hnext : p.nextSlot limit = some (i, p'))
    {entry : TextEntry} (hne : entry ≠ .vacant) :
    Filled p (p'.store i entry) i entry ∧ p'.kept = p.kept := by
  unfold Pool.nextSlot at hnext
  split at hnext
  next index free hfree =>
    obtain ⟨rfl, rfl⟩ := Prod.mk.inj (Option.some.inj hnext)
    have hin : index ∈ p.free := by
      rw [hfree]
      exact List.mem_cons_self
    have hvacant := (hinv.vacant index).1 hin
    obtain ⟨hlt, hlimit, -⟩ := hinv.slot hvacant
    have hnodup := hinv.nodup
    rw [hfree, List.nodup_cons] at hnodup
    have hstore : ({ p with free := free } : Pool).store index entry =
        { p with free := free, entries := p.entries.set index entry } := by
      unfold Pool.store
      rw [if_neg (Nat.ne_of_lt hlt)]
    have hself : (p.entries.set index entry)[index]? = some entry := List.getElem?_set_self hlt
    have hother : ∀ j, j ≠ index → (p.entries.set index entry)[j]? = p.entries[j]? :=
      fun j hj => List.getElem?_set_ne (Ne.symm hj)
    rw [hstore]
    refine ⟨⟨hlimit, hself, hother, ?_, hnodup.2, ?_, ?_⟩, rfl⟩
    · intro e he
      rw [hvacant] at he
      exact (Option.some.inj he).symm
    · intro j
      by_cases hj : j = index
      · subst hj
        refine iff_of_false hnodup.1 ?_
        rw [hself]
        exact fun e => hne (Option.some.inj e)
      · rw [hother j hj, ← hinv.vacant j, hfree, List.mem_cons, or_iff_right hj]
    · rw [List.length_set]
      exact hinv.size
  next hfree =>
    split at hnext
    next hlt =>
      obtain ⟨rfl, rfl⟩ := Prod.mk.inj (Option.some.inj hnext)
      have hlimit : p.entries.length < poolLimit := Nat.lt_of_lt_of_le hlt (Nat.min_le_right _ _)
      have hstore : p.store p.entries.length entry = { p with entries := p.entries ++ [entry] } := by
        unfold Pool.store
        rw [if_pos rfl]
      have hother : ∀ j, j ≠ p.entries.length → (p.entries ++ [entry])[j]? = p.entries[j]? := by
        intro j hj
        rcases Nat.lt_or_ge j p.entries.length with h | h
        · exact List.getElem?_append_left h
        · rw [List.getElem?_eq_none h, List.getElem?_eq_none]
          rw [List.length_append]
          exact Nat.lt_of_le_of_ne h (Ne.symm hj)
      rw [hstore]
      refine ⟨⟨hlimit, List.getElem?_concat_length, hother, ?_, hinv.nodup, ?_, ?_⟩, rfl⟩
      · intro e he
        rw [List.getElem?_eq_none (Nat.le_refl _)] at he
        cases he
      · intro j
        by_cases hj : j = p.entries.length
        · subst hj
          refine iff_of_false ?_ ?_
          · rw [hfree]
            exact List.not_mem_nil
          · rw [List.getElem?_concat_length]
            exact fun e => hne (Option.some.inj e)
        · rw [hother j hj]
          exact hinv.vacant j
      · rw [List.length_append]
        exact hlimit
    next => cases hnext

/-- **A slot that is filled** belongs to its new field alone. -/
theorem Inv.fill (hinv : Inv source p held) {i : Nat} {entry : TextEntry} (hfilled : Filled p p' i entry) (hkept : ∀ k, k ≠ key → p'.kept k = p.kept k)
    (hself : (p'.kept key).isSome = true ↔ entry = .owned) {h : Held} (hword : h.word = i * 2 + 1)
    (hstands : Stands source p' key h) : Inv source p' (Function.update held key (some h)) := by
  have hslot : slotOf h.word = some i := by rw [hword, slotOf_slot hfilled.slot]
  -- no other field names the slot, since it named an entry that is not vacant
  have hapart : ∀ k h' j, held k = some h' → slotOf h'.word = some j → j ≠ i := by
    intro k h' j hk hslot' hj
    obtain ⟨e, he, hne⟩ := (hinv.stands k h' hk).entry hinv hslot'
    rw [hj] at he
    exact hne (hfilled.before e he)
  refine hinv.give ⟨hfilled.nodup, hfilled.vacant, hfilled.size⟩ ⟨hkept, ?_⟩ hstands ?_ ?_
  · intro k h' j _ hk hj
    exact hfilled.other j (hapart k h' j hk hj)
  · rw [hself]
    constructor
    · intro howned
      refine Or.inr ⟨i, hslot, ?_⟩
      rw [hfilled.entry, howned]
    · intro hkeeps
      obtain hextended | ⟨j, hj, howned⟩ := hkeeps
      · rw [hextended, slotOf_extended] at hslot
        cases hslot
      · rw [hslot] at hj
        cases hj
        rw [hfilled.entry] at howned
        exact Option.some.inj howned
  · intro k h' j _ hk hj hslot'
    rw [hslot] at hslot'
    exact hapart k h' j hk hj (Option.some.inj hslot').symm

theorem source_eq_some {value : Value} {entry : TextEntry} (h : TextEntry.source source value = some entry) :
    ∃ start stop, TextEntry.fromRange start stop = some entry ∧
      sourceGet source start stop = some (value.text source) := by
  cases value with
  | separate text => cases h
  | slice start stop =>
    change (if start ≤ stop ∧ stop ≤ source.length then TextEntry.fromRange start stop else none) = some entry at h
    by_cases hin : start ≤ stop ∧ stop ≤ source.length
    · rw [if_pos hin] at h
      exact ⟨start, stop, h, if_pos hin⟩
    · rw [if_neg hin] at h
      cases h

/-- **A text that goes to the pool.** -/
theorem insertPool_inv (hinv : Inv source p held) (hnone : held key = none) (value : Value) (limit : Nat) (stop : Int) :
    Inv source (p.insertPool source key value limit).2
      (Function.update held key (some ⟨(p.insertPool source key value limit).1, stop, value.text source⟩)) := by
  have hempty := hinv.kept_none hnone
  have hkeep : ∀ (p : Pool) (k : FieldKey), k ≠ key → (p.keep key value).kept k = p.kept k :=
    fun p k hk => Function.update_of_ne hk ..
  have hself : ∀ p : Pool, (p.keep key value).kept key = some value := fun p => Function.update_self ..
  unfold Pool.insertPool
  split
  next hfull =>
    -- the field keeps its text itself
    have htidy : Tidy (p.keep key value) := ⟨hinv.nodup, hinv.vacant, hinv.size⟩
    have hspares : Spares p (p.keep key value) held key := ⟨hkeep p, fun _ _ _ _ _ _ => rfl⟩
    refine hinv.give htidy hspares (.extended rfl (hself p) rfl) ?_ ?_
    · rw [hself]
      exact iff_of_true rfl (Or.inl rfl)
    · intro k h' i _ _ _ hslot
      rw [slotOf_extended] at hslot
      cases hslot
  next i p1 hnext =>
    split
    next entry hentry =>
      obtain ⟨start, stop', hrange, htext⟩ := source_eq_some hentry
      obtain ⟨howned, hvacant, -⟩ := fromRange_eq_some hrange
      obtain ⟨hfilled, hkept⟩ := filled_nextSlot hinv hnext hvacant
      refine hinv.fill hfilled (fun k _ => congrFun hkept k) ?_ rfl (.source rfl hfilled.entry hrange htext)
      show (p1.kept key).isSome = true ↔ _
      rw [hkept, hempty]
      exact iff_of_false (by decide) howned
    next =>
      have hne : TextEntry.owned ≠ .vacant := by decide
      obtain ⟨hfilled, hkept⟩ := filled_nextSlot hinv hnext hne
      have hfilled' : Filled p ((p1.keep key value).store i .owned) i .owned :=
        ⟨hfilled.slot, hfilled.entry, hfilled.other, hfilled.before, hfilled.nodup, hfilled.vacant, hfilled.size⟩
      refine hinv.fill hfilled' ?_ (iff_of_true ?_ rfl) rfl (.owned rfl hfilled'.entry (hself p1) rfl)
      · intro k hk
        exact (hkeep p1 k hk).trans (congrFun hkept k)
      · show ((p1.keep key value).kept key).isSome = true
        rw [hself]
        rfl

/-- a field that changes the end of its odd word reads the same -/
theorem Inv.move (hinv : Inv source p held) {h : Held} (hheld : held key = some h) (hword : h.word % 2 ≠ 0)
    (stop : Int) : Inv source p (Function.update held key (some { h with stop := stop })) := by
  refine hinv.give hinv.tidy Spares.refl ?_ ?_ ?_
  · cases hinv.stands key h hheld with
    | raw _ hraw => exact absurd hraw hword
    | extended hextended hkept htext => exact .extended hextended hkept htext
    | owned hslot hentry hkept htext => exact .owned hslot hentry hkept htext
    | source hslot hentry hrange htext => exact .source hslot hentry hrange htext
  · rw [hinv.kept key]
    constructor
    · intro ⟨h', hh, hkeeps⟩
      rw [hheld] at hh
      rw [Option.some.inj hh]
      exact hkeeps
    · intro hkeeps
      exact ⟨h, hheld, hkeeps⟩
  · intro k h' i hne hk hslot hslot'
    exact hne (hinv.apart k key h' h i hk hheld hslot hslot')

/-- a slot that its field gives back -/
theorem Inv.vacate (hinv : Inv source p held) {h : Held} (hheld : held key = some h) {i : Nat} {entry : TextEntry}
    (hslot : slotOf h.word = some i) (hentry : p.entries[i]? = some entry) (hne : entry ≠ .vacant)
    {kept : FieldKey → Option Value} (hkept : ∀ k, k ≠ key → kept k = p.kept k) (hnone : kept key = none) :
    Inv source ⟨p.entries.set i .vacant, i :: p.free, kept⟩ (Function.update held key none) := by
  have hlt := (hinv.slot hentry).1
  have hself : (p.entries.set i .vacant)[i]? = some .vacant := List.getElem?_set_self hlt
  have hother : ∀ j, j ≠ i → (p.entries.set i .vacant)[j]? = p.entries[j]? :=
    fun j hj => List.getElem?_set_ne (Ne.symm hj)
  have hnotin : i ∉ p.free := by
    intro hin
    rw [(hinv.vacant i).1 hin] at hentry
    exact hne (Option.some.inj hentry).symm
  refine hinv.drop ⟨List.nodup_cons.2 ⟨hnotin, hinv.nodup⟩, ?_, ?_⟩ ⟨hkept, ?_⟩ hnone
  · intro j
    by_cases hj : j = i
    · rw [hj]
      exact iff_of_true List.mem_cons_self hself
    · show j ∈ i :: p.free ↔ (p.entries.set i .vacant)[j]? = some .vacant
      rw [hother j hj, ← hinv.vacant j, List.mem_cons, or_iff_right hj]
  · show (p.entries.set i .vacant).length ≤ poolLimit
    rw [List.length_set]
    exact hinv.size
  · intro k h' j hk hheld' hslot'
    refine hother j fun hj => hk ?_
    rw [hj] at hslot'
    exact hinv.apart k key h' h i hheld' hheld hslot' hslot

/-- **A field gives back its word.** -/
theorem release_inv (hinv : Inv source p held) {h : Held} (hheld : held key = some h) :
    ∃ p', p.release key h.word = some p' ∧ Inv source p' (Function.update held key none) := by
  have hforget : ∀ k, k ≠ key → (p.forget key).kept k = p.kept k := fun k hk => Function.update_of_ne hk ..
  have hgone : (p.forget key).kept key = none := Function.update_self ..
  have hodd : ∀ {i : Nat}, (i * 2 + 1) % 2 ≠ 0 := by omega
  have hhalf : ∀ {i : Nat}, (i * 2 + 1) / 2 = i := by omega
  have hstands := hinv.stands key h hheld
  -- a word that keeps nothing
  have hempty : ¬Keeps p h.word → p.kept key = none := by
    intro hkeeps
    rw [← Option.not_isSome_iff_eq_none, hinv.kept key]
    intro ⟨h', hh, hkeeps'⟩
    rw [hheld] at hh
    cases hh
    exact hkeeps hkeeps'
  unfold Pool.release
  cases hstands with
  | raw _ hword =>
    rw [if_pos hword]
    exact ⟨p, rfl, hinv.drop hinv.tidy Spares.refl (hempty (keeps_raw hword))⟩
  | extended hword =>
    rw [hword, if_neg (by decide), if_pos rfl]
    exact ⟨_, rfl, hinv.drop ⟨hinv.nodup, hinv.vacant, hinv.size⟩ ⟨hforget, fun _ _ _ _ _ _ => rfl⟩ hgone⟩
  | owned hword hentry =>
    obtain ⟨-, hlimit, hslot⟩ := hinv.slot hentry
    have hne := word_ne_extended hlimit
    rw [← hword] at hslot
    rw [hword, if_neg hodd, if_neg hne, hhalf, hentry]
    exact ⟨_, rfl, hinv.vacate hheld hslot hentry (by decide) hforget hgone⟩
  | source hword hentry hrange =>
    obtain ⟨-, hlimit, hslot⟩ := hinv.slot hentry
    have hne := word_ne_extended hlimit
    obtain ⟨howned, hvacant, -⟩ := fromRange_eq_some hrange
    rw [← hword] at hslot
    have hkeeps : ¬Keeps p h.word := by
      intro hkeeps
      obtain hextended | ⟨j, hj, hentry'⟩ := hkeeps
      · rw [hextended, slotOf_extended] at hslot
        cases hslot
      · rw [hslot] at hj
        cases hj
        rw [hentry] at hentry'
        exact howned (Option.some.inj hentry')
    rw [hword, if_neg hodd, if_neg hne, hhalf, hentry]
    simp only [if_neg hvacant, if_neg howned]
    exact ⟨_, rfl, hinv.vacate hheld hslot hentry hvacant (fun _ _ => rfl) (hempty hkeeps)⟩

theorem insert_inv (hinv : Inv source p held) (hnone : held key = none) (value : Value) (stop : Int) :
    Inv source (p.insert source key value stop).2
      (Function.update held key (some ⟨(p.insert source key value stop).1, stop, value.text source⟩)) := by
  unfold Pool.insert
  cases hmatch : if key.isIdentifier then matchingRaw source (value.text source) stop else none with
  | none => exact insertPool_inv hinv hnone value poolLimit stop
  | some word =>
    by_cases hkey : key.isIdentifier = true
    · rw [if_pos hkey] at hmatch
      obtain ⟨hword, htext⟩ := matchingRaw_eq_some hmatch
      exact hinv.giveRaw hnone hword (.raw hkey hword htext)
    · rw [if_neg hkey] at hmatch
      cases hmatch

/-- a field that is no identifier has an odd word -/
theorem Stands.odd {h : Held} (hstands : Stands source p key h) (hkey : key.isIdentifier = false) : h.word % 2 ≠ 0 := by
  cases hstands with
  | raw hidentifier =>
    rw [hkey] at hidentifier
    cases hidentifier
  | extended hword =>
    rw [hword]
    decide
  | owned hword => omega
  | source hword => omega

/-- **A field moves its end.** -/
theorem changeEnd_inv (hinv : Inv source p held) {h : Held} (hheld : held key = some h) (newEnd : Int) :
    ∃ word p', p.changeEnd source key h.word h.stop newEnd = some (word, p') ∧
      Inv source p' (Function.update held key (some ⟨word, newEnd, h.text⟩)) := by
  have hstands := hinv.stands key h hheld
  obtain ⟨hbytes, value, howned, htext⟩ := hstands.reads hinv
  have hgone : ∀ held : FieldKey → Option Held, Function.update held key none key = none :=
    fun held => Function.update_self ..
  unfold Pool.changeEnd
  by_cases hkey : key.isIdentifier = false
  · rw [if_pos hkey]
    exact ⟨h.word, p, rfl, hinv.move hheld (hstands.odd hkey) newEnd⟩
  rw [if_neg hkey, hbytes]
  cases hmatch : matchingRaw source h.text newEnd with
  | some raw =>
    simp only [hmatch]
    -- the text stands in front of the new end
    obtain ⟨hword, hraw⟩ := matchingRaw_eq_some hmatch
    obtain ⟨p', hrelease, hinv'⟩ := release_inv hinv hheld
    refine ⟨raw, p', by rw [hrelease]; rfl, ?_⟩
    have hgiven := hinv'.giveRaw (hgone held) (h := ⟨raw, newEnd, h.text⟩) hword
      (.raw (Bool.eq_true_of_not_eq_false hkey) hword hraw)
    rw [Function.update_idem] at hgiven
    exact hgiven
  | none =>
    simp only [hmatch]
    by_cases hword : h.word % 2 ≠ 0
    · exact ⟨h.word, p, if_pos hword, hinv.move hheld hword newEnd⟩
    · -- the text no longer stands in front of the end and goes to the pool
      obtain ⟨p', hrelease, hinv'⟩ := release_inv hinv hheld
      have hsame : p' = p := by
        unfold Pool.release at hrelease
        rw [if_pos (not_not.1 hword)] at hrelease
        exact (Option.some.inj hrelease).symm
      rw [hsame] at hinv'
      have hgiven := insertPool_inv hinv' (hgone held) value poolLimit newEnd
      rw [Function.update_idem, htext] at hgiven
      refine ⟨_, _, ?_, hgiven⟩
      rw [if_neg hword, howned]
      rfl

end

/-! ## runs -/

theorem start_inv : Inv source Client.start.pool Client.start.held where
  nodup := List.nodup_nil
  vacant i := by
    refine iff_of_false List.not_mem_nil ?_
    show ([] : List TextEntry)[i]? ≠ _
    rw [List.getElem?_nil]
    intro h
    cases h
  size := Nat.zero_le _
  stands _ _ h := by cases h
  apart _ _ _ _ _ h := by cases h
  kept key := iff_of_false Bool.false_ne_true fun ⟨_, h, _⟩ => by cases h

/-- **A call that is allowed** does not panic. -/
theorem perform_inv {c : Client} {op : Op} (hinv : Inv source c.pool c.held) (hallowed : c.Allowed source op) :
    ∃ c', c.perform source op = some c' ∧ Inv source c'.pool c'.held := by
  cases op with
  | insert key value stop => exact ⟨_, rfl, insert_inv hinv hallowed.1 value stop⟩
  | changeEnd key newEnd =>
    obtain ⟨h, hheld⟩ := Option.isSome_iff_exists.1 hallowed
    obtain ⟨word, p', hchange, hinv'⟩ := changeEnd_inv hinv hheld newEnd
    refine ⟨c.hold key (some { h with word := word, stop := newEnd }) p', ?_, hinv'⟩
    show (c.held key).bind _ = _
    rw [hheld, Option.bind_some, hchange]
    rfl
  | release key =>
    obtain ⟨h, hheld⟩ := Option.isSome_iff_exists.1 hallowed
    obtain ⟨p', hrelease, hinv'⟩ := release_inv hinv hheld
    refine ⟨c.hold key none p', ?_, hinv'⟩
    show (c.held key).bind _ = _
    rw [hheld, Option.bind_some, hrelease]
    rfl

theorem reached_inv {c : Client} (h : Client.Reached source c) : Inv source c.pool c.held := by
  induction h with
  | start => exact start_inv
  | step _ hallowed hstep ih =>
    obtain ⟨c', hc', hinv⟩ := perform_inv ih hallowed
    rw [hstep] at hc'
    cases hc'
    exact hinv

/-- **Calls in any order**: the next call does not panic, each field reads its own text, the free list holds the
vacant slots once each, and exactly the fields whose word says so keep their text. -/
theorem pool_runs {source : List UInt8} {c : Client} (hreached : Client.Reached source c) :
    (∀ op, c.Allowed source op → (c.perform source op).isSome = true) ∧
    (∀ key h, c.held key = some h → c.pool.bytes source key h.word h.stop = some h.text ∧
      ∃ value, c.pool.owned source key h.word h.stop = some value ∧ value.text source = h.text) ∧
    (c.pool.free.Nodup ∧ ∀ i, i ∈ c.pool.free ↔ c.pool.entries[i]? = some .vacant) ∧
    ∀ key, (c.pool.kept key).isSome = true ↔ ∃ h, c.held key = some h ∧ Keeps c.pool h.word := by
  have hinv := reached_inv hreached
  refine ⟨?_, ?_, ⟨hinv.nodup, hinv.vacant⟩, hinv.kept⟩
  · intro op hallowed
    obtain ⟨c', hc', -⟩ := perform_inv hinv hallowed
    rw [hc']
    rfl
  · intro key h hheld
    exact (hinv.stands key h hheld).reads hinv

/-- the name of a node -/
def nameKey : FieldKey := ⟨1, 0, 0⟩

/-- a name in its place -/
def placedName : Client := Client.start.hold nameKey (some ⟨4, 2, [97, 98]⟩) Pool.empty

/-- the name moved away from its text, with the first slot -/
def movedName : Client := placedName.hold nameKey (some ⟨1, 3, [97, 98]⟩) ⟨[⟨0, 2⟩], [], fun _ => none⟩

theorem pool_runs_moved : Client.Reached [97, 98, 99] movedName ∧
    movedName.pool.bytes [97, 98, 99] nameKey 1 3 = some [97, 98] := by
  have hallowed : Client.start.Allowed [97, 98, 99] (.insert nameKey (.slice 0 2) 2) := ⟨rfl, by decide, by decide⟩
  have hplaced : Client.Reached [97, 98, 99] placedName := .step .start hallowed rfl
  have hheld : placedName.Allowed [97, 98, 99] (.changeEnd nameKey 3) := rfl
  have hmoved : Client.Reached [97, 98, 99] movedName := .step hplaced hheld rfl
  exact ⟨hmoved, ((pool_runs hmoved).2.1 nameKey ⟨1, 3, [97, 98]⟩ rfl).1⟩

end Tsr.Ast.TextPool
