import Tsr.Checker.Key

/-!
# Cache keys are told apart

* `bytes_write`        the bytes of a key are its writes, one after the other;
* `Written`            what a union key says before the alias, and `aliasBytes` what the alias adds;
* `written_append_inj` the cases are told apart by the length of the key, and two of them by a tag;
* `keys_inj`           union keys, template keys and the writes themselves.

The bytes of an alias are one more than a multiple of four, those of a list of types a multiple of four.
A tag adds one, and an origin with its tags six.
-/

namespace Tsr.Checker.Key

open Tsr.Lib.Bytes

/-! ## the bytes of the writes -/

namespace KeyBuilder

def bytes (b : KeyBuilder) : List UInt8 := b.buffer.asRef

@[simp] theorem bytes_new : new.bytes = [] := rfl

@[simp] theorem bytes_finish (b : KeyBuilder) : b.finish.bytes = b.bytes := rfl

theorem bytes_extend (b : KeyBuilder) (input : List UInt8) : (b.extend input).bytes = b.bytes ++ input :=
  asRef_extend b.buffer input

@[simp] theorem bytes_writeByte (b : KeyBuilder) (byte : UInt8) : (b.writeByte byte).bytes = b.bytes ++ [byte] :=
  bytes_extend b [byte]

@[simp] theorem bytes_writeString (b : KeyBuilder) (text : List UInt8) :
    (b.writeString text).bytes = b.bytes ++ text := bytes_extend b text

@[simp] theorem bytes_writeType (b : KeyBuilder) (t : UInt32) :
    (b.writeType t).bytes = b.bytes ++ le 4 t.toNat := bytes_extend b _

@[simp] theorem bytes_writeSymbol (b : KeyBuilder) (id : UInt64) :
    (b.writeSymbol id).bytes = b.bytes ++ le 8 id.toNat := bytes_extend b _

theorem bytes_writeInt (b : KeyBuilder) {n : Nat} (h : n < 2 ^ 64) : (b.writeInt n).bytes = b.bytes ++ le 8 n := by
  have hn : (UInt64.ofNat n).toNat = n := UInt64.toNat_ofNat_of_lt' h
  have hwrite : (b.writeInt n).bytes = b.bytes ++ le 8 (UInt64.ofNat n).toNat := bytes_extend b _
  rw [hwrite, hn]

/-- **The bytes of a key** are its writes, wherever they are kept and however they are split. -/
theorem bytes_write (b : KeyBuilder) (writes : List (List UInt8)) :
    (writes.foldl extend b).bytes = b.bytes ++ writes.flatten := by
  induction writes generalizing b with
  | nil => exact (List.append_nil _).symm
  | cons input writes ih => rw [List.foldl_cons, ih, bytes_extend, List.flatten_cons, List.append_assoc]

/-- writes that each add the bytes of an item -/
theorem bytes_foldl {α : Type} (write : KeyBuilder → α → KeyBuilder) (f : α → List UInt8) (items : List α)
    (h : ∀ a ∈ items, ∀ b, (write b a).bytes = b.bytes ++ f a) (b : KeyBuilder) :
    (items.foldl write b).bytes = b.bytes ++ items.flatMap f := by
  induction items generalizing b with
  | nil => exact (List.append_nil _).symm
  | cons a items ih =>
    obtain ⟨ha, hitems⟩ := List.forall_mem_cons.1 h
    rw [List.foldl_cons, ih hitems, ha, List.flatMap_cons, List.append_assoc]

end KeyBuilder

/-! ## lists of types -/

def typeBytes (t : UInt32) : List UInt8 := le 4 t.toNat

theorem typeBytes_inj (t u : UInt32) (h : typeBytes t = typeBytes u) : t = u :=
  UInt32.toNat_inj.1 (le_inj 4 _ _ t.toNat_lt u.toNat_lt h)

def typesBytes (types : Slice UInt32) : List UInt8 := le 8 types.items.length ++ types.items.flatMap typeBytes

theorem KeyBuilder.bytes_writeTypes (b : KeyBuilder) (types : Slice UInt32) :
    (b.writeTypes types).bytes = b.bytes ++ typesBytes types := by
  have hfold := bytes_foldl writeType typeBytes types.items (fun t _ b => bytes_writeType b t)
    (b.writeInt types.items.length)
  rw [bytes_writeInt b types.short, List.append_assoc] at hfold
  exact hfold

theorem length_typesBytes (types : Slice UInt32) : (typesBytes types).length = 8 + 4 * types.items.length := by
  have hitems : (types.items.flatMap typeBytes).length = 4 * types.items.length := by
    rw [List.length_flatMap, List.map_congr_left (fun t _ => length_le 4 t.toNat), List.map_const',
      List.sum_replicate_nat, Nat.mul_comm]
  rw [typesBytes, List.length_append, length_le, hitems]

theorem typesBytes_append_inj {types types' : Slice UInt32} {r s : List UInt8}
    (h : typesBytes types ++ r = typesBytes types' ++ s) : types = types' ∧ r = s := by
  rw [typesBytes, typesBytes, List.append_assoc, List.append_assoc] at h
  obtain ⟨hlength, hitems⟩ := le_append_inj 8 _ _ types.short types'.short _ _ h
  obtain ⟨heq, hrest⟩ := flatMap_append_inj (fun t => length_le 4 t.toNat) typeBytes_inj hlength hitems
  exact ⟨Slice.ext_items heq, hrest⟩

/-! ## union keys -/

/-- what a union key says about the union and its origin -/
inductive Written where
  | plain (types : Slice UInt32)
  | union (types : Slice UInt32)
  | intersection (types : Slice UInt32)
  | index (origin : UInt32) (types : Slice UInt32)

def Written.bytes : Written → List UInt8
  | .plain types => typesBytes types
  | .union types => 0x7C :: typesBytes types
  | .intersection types => 0x26 :: typesBytes types
  | .index origin types => 0x23 :: (typeBytes origin ++ 0x7C :: typesBytes types)

/-- the case of a union key -/
def written (types : Types) (constituents : Slice UInt32) : Option UInt32 → Except Error Written
  | none => .ok (.plain constituents)
  | some origin => do
    let flags ← types.flags origin
    if flags &&& flagUnion ≠ 0 then
      let parts ← types.typesOf origin
      .ok (.union parts)
    else if flags &&& flagIntersection ≠ 0 then
      let parts ← types.typesOf origin
      .ok (.intersection parts)
    else if flags &&& flagIndex ≠ 0 then .ok (.index origin constituents)
    else .error .unsupported

/-- the symbol of an alias by its runtime id -/
def aliasBytes : Option (UInt64 × Slice UInt32) → List UInt8
  | some (symbol, typeArguments) => 1 :: (le 8 symbol.toNat ++ typesBytes typeArguments)
  | none => [0]

theorem KeyBuilder.bytes_writeAlias (b : KeyBuilder) (parts : Option (UInt64 × Slice UInt32)) :
    (b.writeAlias parts).bytes = b.bytes ++ aliasBytes parts := by
  cases parts with
  | none => exact bytes_writeByte b 0
  | some parts =>
    obtain ⟨symbol, typeArguments⟩ := parts
    show (((b.writeByte 1).writeSymbol symbol).writeTypes typeArguments).bytes = _
    rw [bytes_writeTypes, bytes_writeSymbol, bytes_writeByte]
    simp [aliasBytes]

theorem writeOrigin_written {types : Types} {constituents : Slice UInt32} {origin : Option UInt32} {b : KeyBuilder}
    (h : writeOrigin types constituents origin = .ok b) :
    ∃ w, written types constituents origin = .ok w ∧ b.bytes = w.bytes := by
  cases origin with
  | none =>
    cases h
    exact ⟨_, rfl, KeyBuilder.bytes_writeTypes _ _⟩
  | some origin =>
    cases hflags : types.flags origin with
    | error e =>
      simp [writeOrigin, hflags, bind, Except.bind] at h
    | ok flags =>
      simp only [writeOrigin, hflags, bind, Except.bind] at h
      simp only [written, hflags, bind, Except.bind]
      split at h
      next hunion =>
        cases hparts : types.typesOf origin with
        | error e => simp [hparts] at h
        | ok parts =>
          rw [hparts] at h
          cases h
          refine ⟨.union parts, by rw [if_pos hunion], ?_⟩
          rw [KeyBuilder.bytes_writeTypes, KeyBuilder.bytes_writeByte]
          rfl
      next hunion =>
        rw [if_neg hunion]
        split at h
        next hinter =>
          cases hparts : types.typesOf origin with
          | error e => simp [hparts] at h
          | ok parts =>
            rw [hparts] at h
            cases h
            refine ⟨.intersection parts, by rw [if_pos hinter], ?_⟩
            rw [KeyBuilder.bytes_writeTypes, KeyBuilder.bytes_writeByte]
            rfl
        next hinter =>
          rw [if_neg hinter]
          split at h
          next hindex =>
            cases h
            refine ⟨.index origin constituents, by rw [if_pos hindex], ?_⟩
            rw [KeyBuilder.bytes_writeTypes, KeyBuilder.bytes_writeByte, KeyBuilder.bytes_writeType,
              KeyBuilder.bytes_writeByte]
            simp [Written.bytes, typeBytes]
          next => cases h

/-! ## cases and aliases -/

theorem length_aliasBytes (parts : Option (UInt64 × Slice UInt32)) : (aliasBytes parts).length % 4 = 1 := by
  cases parts with
  | none => rfl
  | some parts =>
    rw [aliasBytes, List.length_cons, List.length_append, length_le, length_typesBytes]
    omega

theorem aliasBytes_inj {parts parts' : Option (UInt64 × Slice UInt32)} (h : aliasBytes parts = aliasBytes parts') :
    parts = parts' := by
  cases parts with
  | none =>
    cases parts' with
    | none => rfl
    | some _ => exact absurd (List.cons.inj h).1 (by decide)
  | some parts =>
    cases parts' with
    | none => exact absurd (List.cons.inj h).1 (by decide)
    | some parts' =>
      obtain ⟨hsymbol, htypes⟩ := le_append_inj 8 _ _ parts.1.toNat_lt parts'.1.toNat_lt _ _ (List.cons.inj h).2
      rw [← List.append_nil (typesBytes parts.2), ← List.append_nil (typesBytes parts'.2)] at htypes
      rw [Prod.ext (UInt64.toNat_inj.1 hsymbol) (typesBytes_append_inj htypes).1]

/-- the rest of the length of a key by four, without the alias -/
def Written.residue : Written → Nat
  | .plain _ => 0
  | .union _ => 1
  | .intersection _ => 1
  | .index _ _ => 2

theorem residue_le (w : Written) : w.residue ≤ 2 := by
  cases w with
  | plain => exact Nat.zero_le 2
  | union => exact Nat.le_succ 1
  | intersection => exact Nat.le_succ 1
  | index => exact Nat.le_refl 2

theorem length_written (w : Written) : w.bytes.length % 4 = w.residue := by
  cases w with
  | plain types =>
    rw [Written.bytes, length_typesBytes, Written.residue]
    omega
  | union types =>
    rw [Written.bytes, List.length_cons, length_typesBytes, Written.residue]
    omega
  | intersection types =>
    rw [Written.bytes, List.length_cons, length_typesBytes, Written.residue]
    omega
  | index origin types =>
    rw [Written.bytes, List.length_cons, List.length_append, List.length_cons, length_typesBytes, typeBytes,
      length_le, Written.residue]
    omega

/-- **The case of a key, and its alias**, from its bytes. -/
theorem written_append_inj {w w' : Written} {parts parts' : Option (UInt64 × Slice UInt32)}
    (h : w.bytes ++ aliasBytes parts = w'.bytes ++ aliasBytes parts') : w = w' ∧ parts = parts' := by
  have hresidue : w.residue = w'.residue := by
    have hlength := congrArg List.length h
    rw [List.length_append, List.length_append] at hlength
    have h1 := length_written w
    have h2 := length_written w'
    have h3 := length_aliasBytes parts
    have h4 := length_aliasBytes parts'
    have hle := residue_le w
    have hle' := residue_le w'
    omega
  -- a list of types behind equal tags
  have hsame : ∀ {types types' : Slice UInt32},
      typesBytes types ++ aliasBytes parts = typesBytes types' ++ aliasBytes parts' →
        types = types' ∧ parts = parts' := by
    intro types types' heq
    obtain ⟨htypes, hrest⟩ := typesBytes_append_inj heq
    exact ⟨htypes, aliasBytes_inj hrest⟩
  cases w with
  | plain types =>
    cases w' with
    | plain types' =>
      obtain ⟨rfl, hparts⟩ := hsame h
      exact ⟨rfl, hparts⟩
    | union | intersection | index => cases hresidue
  | union types =>
    cases w' with
    | union types' =>
      obtain ⟨rfl, hparts⟩ := hsame (List.cons.inj h).2
      exact ⟨rfl, hparts⟩
    | intersection types' => exact absurd (List.cons.inj h).1 (by decide)
    | plain | index => cases hresidue
  | intersection types =>
    cases w' with
    | intersection types' =>
      obtain ⟨rfl, hparts⟩ := hsame (List.cons.inj h).2
      exact ⟨rfl, hparts⟩
    | union types' => exact absurd (List.cons.inj h).1 (by decide)
    | plain | index => cases hresidue
  | index origin types =>
    cases w' with
    | index origin' types' =>
      have hbody : typeBytes origin ++ 0x7C :: typesBytes types ++ aliasBytes parts =
          typeBytes origin' ++ 0x7C :: typesBytes types' ++ aliasBytes parts' := (List.cons.inj h).2
      rw [List.append_assoc, List.append_assoc] at hbody
      obtain ⟨horigin, hrest⟩ := le_append_inj 4 _ _ origin.toNat_lt origin'.toNat_lt _ _ hbody
      obtain ⟨rfl, hparts⟩ := hsame (List.cons.inj hrest).2
      rw [UInt32.toNat_inj.1 horigin]
      exact ⟨rfl, hparts⟩
    | plain | union | intersection => cases hresidue

/-- what a union key is made of -/
theorem unionKey_written {symbols : Symbols} {types : Types} {constituents : Slice UInt32} {origin : Option UInt32}
    {id : Option Nat} {key : CacheKey} (h : unionKey symbols types constituents origin id = .ok key) :
    ∃ w parts, written types constituents origin = .ok w ∧ aliasKeyParts symbols types id = .ok parts ∧
      key.bytes = w.bytes ++ aliasBytes parts := by
  cases hbuilder : writeOrigin types constituents origin with
  | error e => simp [unionKey, hbuilder, bind, Except.bind] at h
  | ok b =>
    cases hparts : aliasKeyParts symbols types id with
    | error e => simp [unionKey, hbuilder, hparts, bind, Except.bind] at h
    | ok parts =>
      simp only [unionKey, hbuilder, hparts, bind, Except.bind] at h
      cases h
      obtain ⟨w, hw, hbytes⟩ := writeOrigin_written hbuilder
      refine ⟨w, parts, hw, rfl, ?_⟩
      rw [← hbytes]
      exact KeyBuilder.bytes_writeAlias b parts

/-- the alias of a key as the checker has it: no alias, or its symbol and type arguments -/
def aliasOf (types : Types) : Option Nat → Except Error (Option Alias)
  | none => .ok none
  | some id => do
    let a ← types.alias? id
    .ok (some a)

/-- the parts of two aliases are equal only if the aliases are -/
theorem aliasKeyParts_inj {symbols : Symbols} {types types' : Types} {id id' : Option Nat}
    {parts : Option (UInt64 × Slice UInt32)} (h : aliasKeyParts symbols types id = .ok parts)
    (h' : aliasKeyParts symbols types' id' = .ok parts) :
    ∃ a, aliasOf types id = .ok a ∧ aliasOf types' id' = .ok a := by
  have hshape : ∀ {types : Types} {id : Option Nat}, aliasKeyParts symbols types id = .ok parts →
      (parts = none ∧ aliasOf types id = .ok none) ∨ ∃ a n, symbols.runtimeId a.symbol = .ok n ∧
        parts = some (n, a.typeArguments) ∧ aliasOf types id = .ok (some a) := by
    intro types id h
    cases id with
    | none =>
      cases h
      exact Or.inl ⟨rfl, rfl⟩
    | some id =>
      cases ha : types.alias? id with
      | error e => simp [aliasKeyParts, ha, bind, Except.bind] at h
      | ok a =>
        cases hn : symbols.runtimeId a.symbol with
        | error e => simp [aliasKeyParts, ha, hn, bind, Except.bind] at h
        | ok n =>
          simp only [aliasKeyParts, ha, hn, bind, Except.bind] at h
          cases h
          exact Or.inr ⟨a, n, hn, rfl, by simp only [aliasOf, ha, bind, Except.bind]⟩
  rcases hshape h with ⟨hnone, ha⟩ | ⟨a, n, hn, hparts, ha⟩
  · rcases hshape h' with ⟨-, ha'⟩ | ⟨a', n', -, hparts', -⟩
    · exact ⟨none, ha, ha'⟩
    · rw [hnone] at hparts'
      cases hparts'
  · rcases hshape h' with ⟨hnone, -⟩ | ⟨a', n', hn', hparts', ha'⟩
    · rw [hparts] at hnone
      cases hnone
    · rw [hparts] at hparts'
      obtain ⟨rfl, harguments⟩ := Prod.mk.inj (Option.some.inj hparts')
      have hsymbol := symbols.inj _ _ n hn hn'
      refine ⟨some a, ha, ?_⟩
      rw [ha']
      cases a
      cases a'
      cases hsymbol
      cases harguments
      rfl

/-- **Union keys**: two that are equal were written in one case, with the same types and alias. -/
theorem unionKey_inj {symbols : Symbols} {types types' : Types} {constituents constituents' : Slice UInt32}
    {origin origin' : Option UInt32} {id id' : Option Nat} {key key' : CacheKey}
    (h : unionKey symbols types constituents origin id = .ok key)
    (h' : unionKey symbols types' constituents' origin' id' = .ok key') (hbytes : key.bytes = key'.bytes) :
    (∃ w, written types constituents origin = .ok w ∧ written types' constituents' origin' = .ok w) ∧
      ∃ a, aliasOf types id = .ok a ∧ aliasOf types' id' = .ok a := by
  obtain ⟨w, parts, hw, hparts, hkey⟩ := unionKey_written h
  obtain ⟨w', parts', hw', hparts', hkey'⟩ := unionKey_written h'
  rw [hkey, hkey'] at hbytes
  obtain ⟨rfl, rfl⟩ := written_append_inj hbytes
  exact ⟨⟨w, hw, hw'⟩, aliasKeyParts_inj hparts hparts'⟩

/-! ## template keys -/

def textLengths (texts : List (Slice UInt8)) : List UInt8 := texts.flatMap fun text => le 8 text.items.length

def textBytes (texts : List (Slice UInt8)) : List UInt8 := texts.flatMap Slice.items

theorem bytes_templateTypeKey (texts : List (Slice UInt8)) (types : Slice UInt32) :
    (templateTypeKey texts types).bytes =
      typesBytes types ++ 0x7C :: (textLengths texts ++ 0x7C :: textBytes texts) := by
  have hlengths := KeyBuilder.bytes_foldl (fun b (text : Slice UInt8) => b.writeInt text.items.length)
    (fun text => le 8 text.items.length) texts (fun text _ b => KeyBuilder.bytes_writeInt b text.short)
  have htexts := KeyBuilder.bytes_foldl (fun b (text : Slice UInt8) => b.writeString text.items)
    Slice.items texts (fun text _ b => KeyBuilder.bytes_writeString b text.items)
  rw [templateTypeKey, KeyBuilder.bytes_finish, htexts, KeyBuilder.bytes_writeByte, hlengths,
    KeyBuilder.bytes_writeByte, KeyBuilder.bytes_writeTypes]
  simp [textLengths, textBytes]

/-- as many texts, of the same lengths -/
theorem texts_inj {texts texts' : List (Slice UInt8)} (hcount : texts.length = texts'.length)
    {r s : List UInt8} (h : textLengths texts ++ r = textLengths texts' ++ s) :
    texts.map (fun text => text.items.length) = texts'.map (fun text => text.items.length) ∧ r = s := by
  induction texts generalizing texts' with
  | nil =>
    rw [List.eq_nil_of_length_eq_zero hcount.symm] at h ⊢
    exact ⟨rfl, h⟩
  | cons text texts ih =>
    obtain ⟨text', texts', rfl⟩ := List.exists_cons_of_length_eq_add_one hcount.symm
    rw [textLengths, textLengths, List.flatMap_cons, List.flatMap_cons, List.append_assoc, List.append_assoc] at h
    obtain ⟨hlength, hrest⟩ := le_append_inj 8 _ _ text.short text'.short _ _ h
    obtain ⟨hmap, hrest⟩ := ih (Nat.succ.inj hcount) hrest
    exact ⟨by rw [List.map_cons, List.map_cons, hlength, hmap], hrest⟩

theorem textBytes_inj {texts texts' : List (Slice UInt8)}
    (hlengths : texts.map (fun text => text.items.length) = texts'.map (fun text => text.items.length))
    (h : textBytes texts = textBytes texts') : texts = texts' := by
  induction texts generalizing texts' with
  | nil => exact (List.map_eq_nil_iff.1 hlengths.symm).symm
  | cons text texts ih =>
    cases texts' with
    | nil => cases hlengths
    | cons text' texts' =>
      obtain ⟨hlength, hlengths⟩ := List.cons.inj hlengths
      obtain ⟨htext, hrest⟩ := List.append_inj h hlength
      rw [Slice.ext_items htext, ih hlengths hrest]

/-- **Template keys**: equal ones have the same texts and types, if there is one more text than types. -/
theorem templateTypeKey_inj {texts texts' : List (Slice UInt8)} {types types' : Slice UInt32}
    (hcount : texts.length = types.items.length + 1) (hcount' : texts'.length = types'.items.length + 1)
    (h : (templateTypeKey texts types).bytes = (templateTypeKey texts' types').bytes) :
    texts = texts' ∧ types = types' := by
  rw [bytes_templateTypeKey, bytes_templateTypeKey] at h
  obtain ⟨rfl, hrest⟩ := typesBytes_append_inj h
  obtain ⟨hlengths, hrest⟩ := texts_inj (hcount.trans hcount'.symm) (List.cons.inj hrest).2
  exact ⟨textBytes_inj hlengths (List.cons.inj hrest).2, rfl⟩

/-- **Cache keys.** Equal union keys were written in one case, with the same types and alias; equal
template keys have the same texts and types; the writes matter only joined. -/
theorem keys_inj :
    (∀ (symbols : Symbols) (types types' : Types) (constituents constituents' : Slice UInt32)
      (origin origin' : Option UInt32) (id id' : Option Nat) (key key' : CacheKey),
      unionKey symbols types constituents origin id = .ok key →
      unionKey symbols types' constituents' origin' id' = .ok key' → key.bytes = key'.bytes →
        (∃ w, written types constituents origin = .ok w ∧ written types' constituents' origin' = .ok w) ∧
          ∃ a, aliasOf types id = .ok a ∧ aliasOf types' id' = .ok a) ∧
    (∀ (texts texts' : List (Slice UInt8)) (types types' : Slice UInt32),
      texts.length = types.items.length + 1 → texts'.length = types'.items.length + 1 →
      (templateTypeKey texts types).bytes = (templateTypeKey texts' types').bytes →
        texts = texts' ∧ types = types') ∧
    ∀ writes writes' : List (List UInt8), writes.flatten = writes'.flatten →
      (writes.foldl KeyBuilder.extend KeyBuilder.new).finish.bytes =
        (writes'.foldl KeyBuilder.extend KeyBuilder.new).finish.bytes := by
  refine ⟨?_, ?_, ?_⟩
  · intro symbols types types' constituents constituents' origin origin' id id' key key' h h' hbytes
    exact unionKey_inj h h' hbytes
  · intro texts texts' types types' hcount hcount' h
    exact templateTypeKey_inj hcount hcount' h
  · intro writes writes' hsame
    rw [KeyBuilder.bytes_finish, KeyBuilder.bytes_finish, KeyBuilder.bytes_write, KeyBuilder.bytes_write, hsame]

/-- one symbol and one `keyof` type -/
def sampleSymbols : Symbols where
  runtimeId := fun s => if s = 7 then .ok 7 else .error .invalid
  inj := by
    intro s s' n h h'
    split at h
    next e =>
      split at h'
      next e' => rw [e, e']
      next => cases h'
    next => cases h

def sampleTypes : Types where
  flags := fun _ => .ok flagIndex
  typesOf := fun _ => .error .invalid
  alias? := fun _ => .ok ⟨7, ⟨[3], by decide⟩⟩

def sampleUnion : Slice UInt32 := ⟨[1, 2], by decide⟩

def sampleKey : CacheKey :=
  (((((KeyBuilder.new.writeByte 0x23).writeType 5).writeByte 0x7C).writeTypes sampleUnion).writeAlias
    (some (7, ⟨[3], by decide⟩))).finish

theorem keys_inj_sample :
    (∃ w, written sampleTypes sampleUnion (some 5) = .ok w ∧ written sampleTypes sampleUnion (some 5) = .ok w) ∧
      (templateTypeKey [⟨[0x61], by decide⟩] ⟨[], by decide⟩).bytes.length = 19 :=
  ⟨(keys_inj.1 sampleSymbols sampleTypes sampleTypes sampleUnion sampleUnion (some 5) (some 5) (some 0) (some 0)
    sampleKey sampleKey rfl rfl rfl).1, by decide⟩

end Tsr.Checker.Key
