import Tsr.Checker.Compare

/-!
# The order of types is a strict total order

The comparison goes through its keys one after the other; a later key is asked for only if the types
agree on the earlier ones.  Most keys are orders of their own.  Four are not: the alias arguments, that
are compared for one symbol but not for two of the same name; the nodes of instantiation expressions;
the elements of tuple targets; and the alias arguments of a type that has an alias where the other one
has none.

* `Orderly`              **the condition**: no two types of the store disagree about such a key;
* `lawful_entries`       the comparison of two types is an order, if that of their parts is;
* `strict_total_order`   **the result**.
-/

namespace Tsr.Checker.Compare

open Tsr.Lib.Compare

section
variable (k : Store)

/-! ## keys that are orders -/

theorem lawful_compareNodes : Lawful (compareNodes k) :=
  lawful_noneLast (lawful_same (lawful_andThen (lawful_compare _ k.nodeFileIndex)
    (lawful_compare _ k.nodePos)))

theorem compareNodes_self (n : Option Nat) : compareNodes k n n = some .eq := by
  cases n with
  | none => rfl
  | some n => exact if_pos rfl

/-- a symbol without declarations has no first one -/
theorem compareDeclarations_eq (s1 s2 : Symbol) : compareDeclarations k s1 s2 =
    andThen (some (Ord.compare s1.declarations.isEmpty.toNat s2.declarations.isEmpty.toNat))
      (compareNodes k (firstDeclaration s1) (firstDeclaration s2)) := by
  rw [compareDeclarations]
  cases h1 : s1.declarations with
  | nil =>
    cases h2 : s2.declarations with
    | nil =>
      rw [firstDeclaration, firstDeclaration, h1, h2]
      rfl
    | cons d ds => rfl
  | cons d ds =>
    cases h2 : s2.declarations with
    | nil => rfl
    | cons d' ds' => rfl

theorem lawful_compareSymbols : Lawful (compareSymbols k) := by
  refine lawful_same (lawful_noneLast ?_)
  simp only [compareDeclarations_eq]
  refine lawful_andThen (lawful_andThen ?_ ?_) (lawful_andThen ?_ ?_)
  · exact lawful_compare _ fun s => (k.symbols s).declarations.isEmpty.toNat
  · exact (lawful_comap (fun s => firstDeclaration (k.symbols s)) (lawful_compareNodes k)).mono
      fun _ _ _ => trivial
  · exact lawful_compare _ fun s => (k.symbols s).name
  · exact lawful_compare _ fun s => (k.symbols s).runtimeId

theorem lawful_compareBools : Lawful fun a b => some (compareBools a b) := by
  have h : (fun a b => some (compareBools a b)) =
      fun a b : Bool => some (Ord.compare a.toNat b.toNat) := by
    funext a b
    cases a <;> cases b <;> rfl
  rw [h]
  exact lawful_compare _ Bool.toNat

def numberRank : Number → Nat
  | .nan => 0
  | .negInfinity => 1
  | .finite _ => 2
  | .infinity => 3

def numberMultiple : Number → Int
  | .finite v => v
  | _ => 0

theorem lawful_compareNumbers : Lawful fun a b => some (compareNumbers a b) := by
  have h : (fun a b => some (compareNumbers a b)) = fun a b : Number =>
      andThen (some (Ord.compare (numberRank a) (numberRank b)))
        (some (Ord.compare (numberMultiple a) (numberMultiple b))) := by
    funext a b
    cases a <;> cases b <;> rfl
  rw [h]
  exact lawful_andThen (lawful_compare _ numberRank) (lawful_compare _ numberMultiple)

theorem lawful_compareElementLabels : Lawful (compareElementLabels k) := by
  have h : compareElementLabels k = fun a b => andThen (some (Ord.compare a.isSome.toNat b.isSome.toNat))
      (noneLast (same (keyed k.labelText fun a b => some (Ord.compare a b))) a b) := by
    funext a b
    cases a <;> cases b <;> rfl
  rw [h]
  refine lawful_andThen (lawful_compare _ fun a : Option Nat => a.isSome.toNat)
    ((lawful_noneLast (lawful_same (lawful_keyed ?_))).on _)
  exact lawful_compare _ id

theorem lawful_compareTupleData : Lawful (compareTupleData k) := by
  refine lawful_andThen ((lawful_comap Prod.fst lawful_compareBools).mono fun _ _ _ => trivial)
    (lawful_andThen (lawful_compare _ fun d : Bool × List TupleElementInfo => d.2.length) ?_)
  have hlength : ∀ d1 d2 : Bool × List TupleElementInfo,
      some (Ord.compare d1.2.length d2.2.length) = some .eq → d1.2.length = d2.2.length :=
    fun d1 d2 h => Std.LawfulEqOrd.eq_of_compare (Option.some.inj h)
  refine lawful_andThen ?_ ?_
  · exact (lawful_comap Prod.snd (lawful_all (lawful_compare _ TupleElementInfo.flags))).mono
      fun d1 d2 h => hlength d1 d2 h.2
  · refine (lawful_comap Prod.snd (lawful_all (c := fun e1 e2 : TupleElementInfo =>
      compareElementLabels k e1.labeledDeclaration e2.labeledDeclaration) ?_)).mono
      fun d1 d2 h => hlength d1 d2 h.1.2
    exact (lawful_comap TupleElementInfo.labeledDeclaration (lawful_compareElementLabels k)).mono
      fun _ _ _ => trivial

/-! ## the condition -/

/-- the alias arguments of a type, none if it has no alias -/
def aliasArguments (r : Record) : List Nat := (r.typeAlias.map TypeAlias.typeArguments).getD []

def kindOf (r : Record) : Nat := r.objectFlags &&& objectTypeKindMask

/-- the first declaration of the symbol of a type -/
def declarationOf (r : Record) : Option Nat := r.symbol.bind fun s => firstDeclaration (k.symbols s)

def InStore (e : Entry) : Prop := k.types e.id = some e.record

/-- a type of the store that is an object type -/
def IsObject (e : Entry) : Prop := InStore k e ∧ branch e.record.flags = .object

/-- **The condition**, on the types of the store. -/
structure Orderly : Prop where
  /-- the name symbol of a type without alias is not the alias symbol of another type, with arguments -/
  unaliased : ∀ a b, InStore k a → InStore k b →
    typeNameSymbol a.record = typeNameSymbol b.record → a.record.typeAlias = none →
    aliasArguments b.record = []
  /-- if two types have one name symbol, and different alias arguments, no other name symbol has that
  name -/
  names : ∀ a b d x y, InStore k a → InStore k b → InStore k d → typeNameSymbol a.record = some x →
    typeNameSymbol b.record = some x → typeNameSymbol d.record = some y → x ≠ y →
    (k.symbols x).name = (k.symbols y).name → aliasArguments a.record = aliasArguments b.record
  /-- instantiation expressions have one kind, and are no references -/
  kinds : ∀ a b, IsObject k a → IsObject k b → isInstantiationExpression a.record = true →
    isInstantiationExpression b.record = true →
    isReference a.record = false ∧ kindOf a.record = kindOf b.record
  /-- instantiation expressions of different symbols have different first declarations -/
  declarations : ∀ a b, IsObject k a → IsObject k b → isInstantiationExpression a.record = true →
    isInstantiationExpression b.record = true →
    compareNodes k (declarationOf k a.record) (declarationOf k b.record) = some .eq →
    a.record.symbol = b.record.symbol
  /-- references of one symbol refer to tuples, or none of them does -/
  tuples : ∀ a b x y, IsObject k a → IsObject k b → isReference a.record = true →
    isReference b.record = true → compareSymbols k a.record.symbol b.record.symbol = some .eq →
    targetEntry k a = some x → targetEntry k b = some y → isTuple x.record = isTuple y.record

section
variable {types : Nat → Nat → Option Ordering} {mappers : Option Nat → Option Nat → Option Ordering}

/-! ## names -/

def compareNames (r1 r2 : Record) : Option Ordering :=
  same (noneLast fun s1 s2 => some (Ord.compare (k.symbols s1).name (k.symbols s2).name))
    (typeNameSymbol r1) (typeNameSymbol r2)

def compareAliases (types : Nat → Nat → Option Ordering) (r1 r2 : Record) : Option Ordering :=
  if typeNameSymbol r1 = typeNameSymbol r2 then lists types (aliasArguments r1) (aliasArguments r2)
  else some .eq

/-- under the condition it does not matter on which side an alias is missing -/
theorem compareTypeNames_eq (hk : Orderly k) {a b : Entry} (ha : InStore k a) (hb : InStore k b) :
    compareTypeNames k types a.record b.record =
      andThen (compareNames k a.record b.record) (compareAliases types a.record b.record) := by
  by_cases h : typeNameSymbol a.record = typeNameSymbol b.record
  · rw [compareTypeNames, if_pos h, compareNames, same, if_pos h, compareAliases, if_pos h]
    cases halias : a.record.typeAlias with
    | some x =>
      rw [aliasArguments, halias]
      rfl
    | none =>
      rw [hk.unaliased a b ha hb h halias, aliasArguments, halias]
      rfl
  · rw [compareTypeNames, if_neg h, compareNames, same, if_neg h, compareAliases, if_neg h,
      andThen_eq]
    cases h1 : typeNameSymbol a.record with
    | none =>
      cases h2 : typeNameSymbol b.record with
      | none => exact absurd (h1.trans h2.symm) h
      | some y => rfl
    | some x =>
      cases h2 : typeNameSymbol b.record with
      | none => rfl
      | some y => rfl

theorem lawful_compareNames (R : Entry → Entry → Prop) :
    LawfulOn R fun a b => compareNames k a.record b.record := by
  have h : Lawful (same (noneLast fun s1 s2 =>
      some (Ord.compare (k.symbols s1).name (k.symbols s2).name))) :=
    lawful_same (lawful_noneLast (lawful_compare _ fun s => (k.symbols s).name))
  exact (lawful_comap (fun a : Entry => typeNameSymbol a.record) h).mono fun _ _ _ => trivial

/-- different symbols of one name -/
theorem of_compareNames {r1 r2 : Record} (h : compareNames k r1 r2 = some .eq)
    (hne : typeNameSymbol r1 ≠ typeNameSymbol r2) : ∃ x y, typeNameSymbol r1 = some x ∧
      typeNameSymbol r2 = some y ∧ x ≠ y ∧ (k.symbols x).name = (k.symbols y).name := by
  rw [compareNames, same, if_neg hne] at h
  cases h1 : typeNameSymbol r1 with
  | none =>
    cases h2 : typeNameSymbol r2 with
    | none => exact absurd (h1.trans h2.symm) hne
    | some y =>
      rw [h1, h2] at h
      exact nomatch h
  | some x =>
    cases h2 : typeNameSymbol r2 with
    | none =>
      rw [h1, h2] at h
      exact nomatch h
    | some y =>
      rw [h1, h2] at h
      refine ⟨x, y, rfl, rfl, ?_, Std.LawfulEqOrd.eq_of_compare (Option.some.inj h)⟩
      intro e
      rw [h1, h2, e] at hne
      exact hne rfl

/-- types of one name, with two symbols among three -/
theorem aliasArguments_eq (hk : Orderly k) {a b d : Entry} (ha : InStore k a) (hb : InStore k b)
    (hd : InStore k d) (hab : typeNameSymbol a.record = typeNameSymbol b.record)
    (had : typeNameSymbol a.record ≠ typeNameSymbol d.record)
    (hname : compareNames k a.record d.record = some .eq) :
    aliasArguments a.record = aliasArguments b.record := by
  obtain ⟨x, y, hx, hy, hne, hname⟩ := of_compareNames k hname had
  exact hk.names a b d x y ha hb hd hx (hab ▸ hx) hy hne hname

theorem lawful_compareAliases (hk : Orderly k) (hT : Lawful types)
    (hself : ∀ t, types t t = some .eq) :
    LawfulOn (fun a b => (InStore k a ∧ InStore k b) ∧ compareNames k a.record b.record = some .eq)
      fun a b => compareAliases types a.record b.record where
  swap := by
    rintro a b o ⟨⟨ha, hb⟩, hname⟩ h
    rw [compareAliases] at h ⊢
    split at h
    next e =>
      rw [if_pos e.symm]
      exact (lawful_lists hT).swap _ _ o trivial h
    next e =>
      obtain rfl := Option.some.inj h
      rw [if_neg (Ne.symm e)]
      rfl
  trans := by
    rintro a b d o o' ⟨⟨ha, hb⟩, hab⟩ ⟨⟨-, hd⟩, hbd⟩ h h' ho ho'
    have hba := (lawful_compareNames k fun _ _ => True).swap a b _ trivial hab
    have hdb := (lawful_compareNames k fun _ _ => True).swap b d _ trivial hbd
    rw [compareAliases] at h h' ⊢
    by_cases e : typeNameSymbol a.record = typeNameSymbol b.record
    · rw [if_pos e] at h
      by_cases e' : typeNameSymbol b.record = typeNameSymbol d.record
      · rw [if_pos e'] at h'
        rw [if_pos (e.trans e')]
        exact (lawful_lists hT).trans _ _ _ o o' trivial trivial h h' ho ho'
      · rw [if_neg e'] at h'
        rw [if_neg (fun e'' => e' (e.symm.trans e''))]
        rw [aliasArguments_eq k hk hb ha hd e.symm e' hbd, lists_self hself] at h
        obtain rfl := Option.some.inj h
        obtain rfl := Option.some.inj h'
        rfl
    · rw [if_neg e] at h
      obtain rfl := Option.some.inj h
      by_cases e' : typeNameSymbol b.record = typeNameSymbol d.record
      · rw [if_pos e', aliasArguments_eq k hk hb hd ha e' (Ne.symm e) hba, lists_self hself] at h'
        obtain rfl := Option.some.inj h'
        rw [if_neg (fun e'' => e (e''.trans e'.symm))]
        rfl
      · rw [if_neg e'] at h'
        obtain rfl := Option.some.inj h'
        by_cases e'' : typeNameSymbol a.record = typeNameSymbol d.record
        · rw [if_pos e'', aliasArguments_eq k hk ha hd hb e'' e hab, lists_self hself]
          rfl
        · rw [if_neg e'']
          rfl

theorem lawful_compareTypeNames (hk : Orderly k) (hT : Lawful types)
    (hself : ∀ t, types t t = some .eq) :
    LawfulOn (fun a b => InStore k a ∧ InStore k b)
      fun a b => compareTypeNames k types a.record b.record := by
  refine (lawful_andThen (lawful_compareNames k _) (lawful_compareAliases k hk hT hself)).congr ?_ ?_
  · rintro a b ⟨ha, hb⟩
    exact ⟨(compareTypeNames_eq k hk ha hb).symm, (compareTypeNames_eq k hk hb ha).symm⟩
  · rintro a b d ⟨ha, -⟩ ⟨-, hd⟩
    exact (compareTypeNames_eq k hk ha hd).symm

/-! ## object types -/

/-- the kind of an object type says whether it is an instantiation expression -/
theorem isInstantiationExpression_of_kindOf {r1 r2 : Record} (h : kindOf r1 = kindOf r2) :
    isInstantiationExpression r1 = isInstantiationExpression r2 := by
  have hmask : ∀ r : Record,
      r.objectFlags &&& instantiationExpressionFlag = kindOf r &&& instantiationExpressionFlag := by
    intro r
    rw [kindOf, Nat.land_assoc]
    rfl
  rw [isInstantiationExpression, isInstantiationExpression, has, has, hmask, hmask, h]

theorem compareNodes_none_left {n : Option Nat} (h : compareNodes k none n ≠ some .eq) :
    compareNodes k none n = some .gt := by
  cases n with
  | none => exact absurd rfl h
  | some n => rfl

theorem compareNodes_none_right {n : Option Nat} (h : compareNodes k n none ≠ some .eq) :
    compareNodes k n none = some .lt := by
  cases n with
  | none => exact absurd rfl h
  | some n => rfl

theorem firstDeclaration_of_isEmpty {s : Symbol} (h : s.declarations.isEmpty = true) :
    firstDeclaration s = none := by
  rw [firstDeclaration, List.isEmpty_iff.1 h]
  rfl

theorem exists_compareNodes (a b : Option Nat) : ∃ o, compareNodes k a b = some o := by
  rw [compareNodes]
  cases a with
  | none => cases b <;> exact ⟨_, rfl⟩
  | some a =>
    cases b with
    | none => exact ⟨_, rfl⟩
    | some b =>
      rw [noneLast, same]
      split
      next => exact ⟨_, rfl⟩
      next =>
        cases Ord.compare (k.nodeFileIndex a) (k.nodeFileIndex b) <;> exact ⟨_, rfl⟩

/-- first declarations order symbols, if they tell them apart -/
theorem compareNodes_declarationOf (r1 r2 : Record)
    (h : compareNodes k (declarationOf k r1) (declarationOf k r2) = some .eq → r1.symbol = r2.symbol) :
    compareNodes k (declarationOf k r1) (declarationOf k r2) =
      compareSymbols k r1.symbol r2.symbol := by
  by_cases e : r1.symbol = r2.symbol
  · rw [declarationOf, declarationOf, e, compareNodes_self, compareSymbols, same, if_pos rfl]
  · have hne := mt h e
    rw [compareSymbols, same, if_neg e]
    rw [declarationOf, declarationOf] at hne ⊢
    cases h1 : r1.symbol with
    | none =>
      rw [h1] at hne
      cases h2 : r2.symbol with
      | none => exact absurd (h1.trans h2.symm) e
      | some s2 =>
        rw [h2] at hne
        exact compareNodes_none_left k hne
    | some s1 =>
      rw [h1] at hne
      cases h2 : r2.symbol with
      | none =>
        rw [h2] at hne
        exact compareNodes_none_right k hne
      | some s2 =>
        rw [h2] at hne
        change compareNodes k (firstDeclaration (k.symbols s1)) (firstDeclaration (k.symbols s2)) ≠ _
          at hne
        show compareNodes k (firstDeclaration (k.symbols s1)) (firstDeclaration (k.symbols s2)) =
          andThen (compareDeclarations k (k.symbols s1) (k.symbols s2)) _
        rw [compareDeclarations]
        cases he1 : (k.symbols s1).declarations.isEmpty with
        | true =>
          rw [firstDeclaration_of_isEmpty he1] at hne ⊢
          cases he2 : (k.symbols s2).declarations.isEmpty with
          | true =>
            rw [firstDeclaration_of_isEmpty he2] at hne
            exact absurd rfl hne
          | false => exact compareNodes_none_left k hne
        | false =>
          cases he2 : (k.symbols s2).declarations.isEmpty with
          | true =>
            rw [firstDeclaration_of_isEmpty he2] at hne ⊢
            exact compareNodes_none_right k hne
          | false =>
            obtain ⟨o, ho⟩ := exists_compareNodes k (firstDeclaration (k.symbols s1))
              (firstDeclaration (k.symbols s2))
            rw [ho] at hne ⊢
            exact (andThen_of_ne rfl fun e => hne (by rw [e])).symm

/-- what object types of one symbol are compared by -/
def compareObjectData (types : Nat → Nat → Option Ordering)
    (mappers : Option Nat → Option Nat → Option Ordering) (reference : Bool) (e1 e2 : Entry) :
    Option Ordering :=
  if reference then
    andThen (keyed (targetEntry k) (compareTargets k) e1 e2) (compareArguments k types mappers e1 e2)
  else
    andThen (some (Ord.compare (kindOf e1.record) (kindOf e2.record)))
      (andThen
        (if isInstantiationExpression e1.record then
          keyed (fun e : Entry => instantiationNode e.record) (compareNodes k) e1 e2
        else some .eq)
        (keyed (fun e : Entry => objectMapper e.record) mappers e1 e2))

/-- under the condition the nodes of instantiation expressions are asked for after the symbol and the
kind -/
theorem compareObjects_eq (hk : Orderly k) {a b : Entry} (ha : IsObject k a) (hb : IsObject k b) :
    compareObjects k types mappers a b =
      andThen (compareSymbols k a.record.symbol b.record.symbol)
        (andThen (some (Ord.compare (!isReference a.record).toNat (!isReference b.record).toNat))
          (compareObjectData k types mappers (isReference a.record) a b)) := by
  rw [compareObjects, compareObjectSymbols]
  by_cases hi : isInstantiationExpression a.record = true ∧ isInstantiationExpression b.record = true
  · obtain ⟨hia, hib⟩ := hi
    have hra := (hk.kinds a b ha hb hia hib).1
    have hrb := (hk.kinds b a hb ha hib hia).1
    have hkind := (hk.kinds a b ha hb hia hib).2
    have hnodes := compareNodes_declarationOf k a.record b.record (hk.declarations a b ha hb hia hib)
    rw [declarationOf, declarationOf] at hnodes
    have hself : some (Ord.compare (kindOf b.record) (kindOf b.record)) = some .eq := by
      rw [Std.ReflOrd.compare_self]
    rw [hia, hib, if_pos (by rfl), hnodes, hra, hrb, compareObjectData, hia, hkind, andThen_of_eq hself]
    have hkinds : some (Ord.compare (a.record.objectFlags &&& objectTypeKindMask)
        (b.record.objectFlags &&& objectTypeKindMask)) = some .eq := by
      rw [← kindOf, ← kindOf, hkind]
      exact hself
    rw [if_neg (by decide), if_neg (by decide), if_neg (by decide), if_neg (by decide),
      andThen_of_eq hkinds, andThen_assoc]
    rfl
  · rw [if_neg (by simpa using hi)]
    congr 1
    cases hra : isReference a.record with
    | true =>
      cases hrb : isReference b.record with
      | true => rfl
      | false => rfl
    | false =>
      cases hrb : isReference b.record with
      | true => rfl
      | false =>
        show andThen (some (Ord.compare (kindOf a.record) (kindOf b.record))) _ =
          andThen (some (Ord.compare (kindOf a.record) (kindOf b.record))) _
        by_cases hkind : kindOf a.record = kindOf b.record
        · have hia : isInstantiationExpression a.record ≠ true := by
            intro hia
            exact hi ⟨hia, (isInstantiationExpression_of_kindOf hkind).symm.trans hia⟩
          rw [if_neg hia]
          rfl
        · have hne : Ord.compare (kindOf a.record) (kindOf b.record) ≠ .eq :=
            fun e => hkind (Std.LawfulEqOrd.eq_of_compare e)
          rw [andThen_of_ne rfl hne, andThen_of_ne rfl hne]

/-- object types of the store, with equal symbols -/
def SameSymbol (a b : Entry) : Prop :=
  (IsObject k a ∧ IsObject k b) ∧ compareSymbols k a.record.symbol b.record.symbol = some .eq

/-- targets of references of one symbol -/
def SameTargets (x y : Entry) : Prop :=
  ∃ a b, (SameSymbol k a b ∧ isReference a.record = true ∧ isReference b.record = true) ∧
    targetEntry k a = some x ∧ targetEntry k b = some y

theorem inStore_targetEntry {a x : Entry} (h : targetEntry k a = some x) : InStore k x := by
  obtain ⟨t, -, h⟩ := Option.bind_eq_some_iff.1 h
  obtain ⟨r, hr, rfl⟩ := Option.map_eq_some_iff.1 h
  exact hr

theorem entry_eq {x y : Entry} (hx : InStore k x) (hy : InStore k y) (h : x.id = y.id) : x = y := by
  obtain ⟨t, r⟩ := x
  obtain ⟨t', r'⟩ := y
  obtain rfl : t = t' := h
  obtain rfl := Option.some.inj (hx.symm.trans hy)
  rfl

theorem lawful_compareTargets (hk : Orderly k) : LawfulOn (SameTargets k) (compareTargets k) := by
  have htuple : ∀ x y, SameTargets k x y → isTuple x.record = isTuple y.record := by
    rintro x y ⟨a, b, ⟨h, hra, hrb⟩, hx, hy⟩
    exact hk.tuples a b x y h.1.1 h.1.2 hra hrb h.2 hx hy
  have hstore : ∀ x y, SameTargets k x y → InStore k x ∧ InStore k y := by
    rintro x y ⟨a, b, -, hx, hy⟩
    exact ⟨inStore_targetEntry k hx, inStore_targetEntry k hy⟩
  have heq : ∀ x y, isTuple x.record = isTuple y.record →
      (if isTuple x.record then
        (if x.id = y.id then some .eq
        else keyed (fun t : Entry => tupleData t.record) (compareTupleData k) x y)
      else some .eq) = compareTargets k x y := by
    intro x y h
    rw [compareTargets, ← h, Bool.and_self]
  have hdata : LawfulOn (SameTargets k) fun x y : Entry => if x.id = y.id then some .eq
      else keyed (fun t : Entry => tupleData t.record) (compareTupleData k) x y := by
    refine lawful_sameBy Entry.id ?_ ?_ (lawful_keyed ((lawful_compareTupleData k).on _))
    · intro x y h e
      exact entry_eq k (hstore x y h).1 (hstore x y h).2 e
    · intro x y z h h' e
      exact entry_eq k (hstore x y h).1 (hstore y z h').2 e
  have hall : LawfulOn (SameTargets k) fun x y : Entry => if isTuple x.record then
        (if x.id = y.id then some .eq
        else keyed (fun t : Entry => tupleData t.record) (compareTupleData k) x y)
      else some .eq := by
    refine lawful_branch (p := fun x : Entry => isTuple x.record) (c := fun v x y => if v then
      (if x.id = y.id then some .eq
      else keyed (fun t : Entry => tupleData t.record) (compareTupleData k) x y)
      else some .eq) htuple ?_
    intro v
    cases v with
    | true => exact hdata.mono fun _ _ h => h.1
    | false => exact lawful_equal _
  refine hall.congr ?_ ?_
  · intro x y h
    exact ⟨heq x y (htuple x y h), heq y x (htuple x y h).symm⟩
  · intro x y z h h'
    exact heq x z ((htuple x y h).trans (htuple y z h'))

theorem isNone_of_compareNodes {a b : Option Nat} (h : compareNodes k a b = some .eq) :
    a.isNone = b.isNone := by
  cases a with
  | none =>
    cases b with
    | none => rfl
    | some b => exact nomatch h
  | some a =>
    cases b with
    | none => exact nomatch h
    | some b => rfl

theorem lawful_compareArguments (hT : Lawful types) (hM : Lawful mappers) :
    Lawful (compareArguments k types mappers) := by
  refine lawful_keyed ?_
  have heq : (fun d1 d2 : ReferenceData => if d1.node.isNone && d2.node.isNone then
        lists types (d1.resolvedTypeArguments.getD []) (d2.resolvedTypeArguments.getD [])
      else andThen (compareNodes k d1.node d2.node) (mappers d1.object.mapper d2.object.mapper)) =
    fun d1 d2 => andThen (compareNodes k d1.node d2.node) (if d1.node.isNone then
        lists types (d1.resolvedTypeArguments.getD []) (d2.resolvedTypeArguments.getD [])
      else mappers d1.object.mapper d2.object.mapper) := by
    funext d1 d2
    cases h1 : d1.node with
    | none =>
      cases h2 : d2.node with
      | none => rfl
      | some n => rfl
    | some n => rfl
  rw [heq]
  refine LawfulOn.mono (R := fun _ _ => True) ?_ fun _ _ _ => trivial
  refine lawful_andThen ((lawful_comap ReferenceData.node (lawful_compareNodes k)).mono
    fun _ _ _ => trivial) ?_
  refine lawful_branch (p := fun d : ReferenceData => d.node.isNone) (c := fun v d1 d2 => if v then
      lists types (d1.resolvedTypeArguments.getD []) (d2.resolvedTypeArguments.getD [])
    else mappers d1.object.mapper d2.object.mapper) (fun a b h => isNone_of_compareNodes k h.2) ?_
  intro v
  cases v with
  | true =>
    exact (lawful_comap (fun d : ReferenceData => d.resolvedTypeArguments.getD [])
      (lawful_lists hT)).mono fun _ _ _ => trivial
  | false =>
    exact (lawful_comap (fun d : ReferenceData => d.object.mapper) hM).mono fun _ _ _ => trivial

theorem lawful_compareObjectData (hk : Orderly k) (hT : Lawful types) (hM : Lawful mappers)
    (reference : Bool) :
    LawfulOn (fun a b => SameSymbol k a b ∧ isReference a.record = reference ∧
      isReference b.record = reference) (compareObjectData k types mappers reference) := by
  cases reference with
  | true =>
    refine lawful_andThen (lawful_keyed ?_) ((lawful_compareArguments k hT hM).on _)
    exact lawful_compareTargets k hk
  | false =>
    refine lawful_andThen (lawful_compare _ fun e : Entry => kindOf e.record) (lawful_andThen ?_ ?_)
    · refine lawful_branch (p := fun e : Entry => isInstantiationExpression e.record)
        (c := fun v e1 e2 => if v then
          keyed (fun e : Entry => instantiationNode e.record) (compareNodes k) e1 e2 else some .eq)
        (fun a b h => isInstantiationExpression_of_kindOf
          (Std.LawfulEqOrd.eq_of_compare (Option.some.inj h.2))) ?_
      intro v
      cases v with
      | true => exact lawful_keyed ((lawful_compareNodes k).on _)
      | false => exact lawful_equal _
    · exact lawful_keyed (hM.on _)

theorem lawful_compareObjects (hk : Orderly k) (hT : Lawful types) (hM : Lawful mappers) :
    LawfulOn (fun a b => IsObject k a ∧ IsObject k b) (compareObjects k types mappers) := by
  have hall : LawfulOn (fun a b => IsObject k a ∧ IsObject k b) fun a b =>
      andThen (compareSymbols k a.record.symbol b.record.symbol)
        (andThen (some (Ord.compare (!isReference a.record).toNat (!isReference b.record).toNat))
          (compareObjectData k types mappers (isReference a.record) a b)) := by
    refine lawful_andThen ((lawful_comap (fun e : Entry => e.record.symbol)
      (lawful_compareSymbols k)).mono fun _ _ _ => trivial) (lawful_andThen
        (lawful_compare _ fun e : Entry => (!isReference e.record).toNat) ?_)
    refine lawful_branch (p := fun e : Entry => isReference e.record) (fun a b h => ?_) fun v =>
      (lawful_compareObjectData k hk hT hM v).mono fun a b h => ⟨h.1.1, h.2⟩
    have h2 := Std.LawfulEqOrd.eq_of_compare (Option.some.inj h.2)
    revert h2
    cases isReference a.record <;> cases isReference b.record <;> decide
  refine hall.congr ?_ ?_
  · rintro a b ⟨ha, hb⟩
    exact ⟨(compareObjects_eq k hk ha hb).symm, (compareObjects_eq k hk hb ha).symm⟩
  · rintro a b d ⟨ha, -⟩ ⟨-, hd⟩
    exact (compareObjects_eq k hk ha hd).symm

/-! ## types and mappers -/

theorem lawful_comparePairs (hT : Lawful types) : Lawful (comparePairs types) :=
  lawful_andThen ((lawful_comap Prod.fst hT).mono fun _ _ _ => trivial)
    ((lawful_comap Prod.snd hT).mono fun _ _ _ => trivial)

theorem lawful_compareUnions (hT : Lawful types) : Lawful (compareUnions types) := by
  have heq : compareUnions types = keyed (fun r => (unionOrigin r).map fun o => (o, typesOf r))
      fun p q => andThen (noneLast types p.1 q.1)
        (if p.1.isNone then lists types p.2 q.2 else some .eq) := by
    funext r1 r2
    rw [compareUnions, keyed, keyed]
    cases unionOrigin r1 with
    | none => rfl
    | some o1 =>
      cases unionOrigin r2 with
      | none => rfl
      | some o2 =>
        cases o1 with
        | none => cases o2 <;> rfl
        | some o1 =>
          cases o2 with
          | none => rfl
          | some o2 => exact (andThen_eq (types o1 o2)).symm
  rw [heq]
  refine lawful_keyed (LawfulOn.mono (R := fun _ _ => True) ?_ fun _ _ _ => trivial)
  refine lawful_andThen ((lawful_comap Prod.fst (lawful_noneLast hT)).mono fun _ _ _ => trivial) ?_
  refine lawful_branch (p := fun p : Option Nat × List Nat => p.1.isNone)
    (c := fun v p q => if v then lists types p.2 q.2 else some .eq) ?_ ?_
  · rintro ⟨o1, l1⟩ ⟨o2, l2⟩ ⟨-, h⟩
    cases o1 with
    | none =>
      cases o2 with
      | none => rfl
      | some o2 => cases h
    | some o1 =>
      cases o2 with
      | none => cases h
      | some o2 => rfl
  · intro v
    cases v with
    | true => exact (lawful_comap Prod.snd (lawful_lists hT)).mono fun _ _ _ => trivial
    | false => exact lawful_equal _

/-- a comparison of records, seen as one of types with their ids -/
theorem lawful_record {c : Record → Record → Option Ordering} (h : Lawful c)
    (R : Entry → Entry → Prop) : LawfulOn R fun a b => c a.record b.record :=
  (lawful_comap Entry.record h).mono fun _ _ _ => trivial

theorem lawful_compareData (hk : Orderly k) (hT : Lawful types) (hM : Lawful mappers) (v : Branch) :
    LawfulOn (fun a b => (InStore k a ∧ InStore k b) ∧ branch a.record.flags = v ∧
      branch b.record.flags = v) (compareData k types mappers v) := by
  cases v with
  | intrinsic => exact lawful_equal _
  | object =>
    exact (lawful_compareObjects k hk hT hM).mono fun a b h => ⟨⟨h.1.1, h.2.1⟩, h.1.2, h.2.2⟩
  | union => exact lawful_record (lawful_compareUnions hT) _
  | intersection =>
    exact lawful_record ((lawful_comap typesOf (lawful_lists hT)).mono fun _ _ _ => trivial) _
  | enumOrUnique =>
    exact lawful_record ((lawful_comap Record.symbol (lawful_compareSymbols k)).mono
      fun _ _ _ => trivial) _
  | stringLiteral => exact lawful_record (lawful_keyed (lawful_compare _ id)) _
  | numberLiteral => exact lawful_record (lawful_keyed (lawful_compareNumbers.on _)) _
  | booleanLiteral => exact lawful_record (lawful_keyed (lawful_compareBools.on _)) _
  | typeParameter =>
    exact lawful_record ((lawful_comap Record.symbol (lawful_compareSymbols k)).mono
      fun _ _ _ => trivial) _
  | index =>
    refine lawful_record (lawful_keyed (LawfulOn.mono (R := fun _ _ => True) ?_
      fun _ _ _ => trivial)) _
    exact lawful_andThen ((lawful_comap Prod.fst hT).mono fun _ _ _ => trivial)
      (lawful_compare _ Prod.snd)
  | indexedAccess => exact lawful_record (lawful_keyed ((lawful_comparePairs hT).on _)) _
  | templateLiteral =>
    refine lawful_record (lawful_keyed (LawfulOn.mono (R := fun _ _ => True) ?_
      fun _ _ _ => trivial)) _
    exact lawful_andThen (lawful_compare _ Prod.fst)
      ((lawful_comap Prod.snd (lawful_lists hT)).mono fun _ _ _ => trivial)
  | stringMapping => exact lawful_keyed (hT.on _)
  | conditional =>
    refine lawful_record (lawful_keyed (LawfulOn.mono (R := fun _ _ => True) ?_
      fun _ _ _ => trivial)) _
    exact lawful_andThen ((lawful_comap (fun p : Nat × Option Nat => some p.1)
      (lawful_compareNodes k)).mono fun _ _ _ => trivial)
      ((lawful_comap Prod.snd hM).mono fun _ _ _ => trivial)
  | substitution => exact lawful_record (lawful_keyed ((lawful_comparePairs hT).on _)) _
  | other => exact lawful_equal _

/-- types with equal sort order are compared by the same data -/
theorem branch_of_sortOrderFlags {a b : Entry} (ha : InStore k a) (hb : InStore k b)
    (h : sortOrderFlags a.record = sortOrderFlags b.record) :
    branch a.record.flags = branch b.record.flags := by
  have henum : ∀ r : Record, r.flags = 2 ^ 16 → enumLike r.flags = true := by
    intro r hr
    rw [hr]
    rfl
  rw [sortOrderFlags, sortOrderFlags] at h
  by_cases h1 : enumLike a.record.flags = true
  · rw [if_pos h1] at h
    by_cases h2 : enumLike b.record.flags = true
    · rw [k.enums _ _ ha h1, k.enums _ _ hb h2]
    · rw [if_neg h2] at h
      exact absurd (henum b.record h.symm) h2
  · rw [if_neg h1] at h
    by_cases h2 : enumLike b.record.flags = true
    · rw [if_pos h2] at h
      exact absurd (henum a.record h) h1
    · rw [if_neg h2] at h
      rw [h]

/-- **One level.** -/
theorem lawful_entries (hk : Orderly k) (hT : Lawful types) (hself : ∀ t, types t t = some .eq)
    (hM : Lawful mappers) :
    LawfulOn (fun a b => InStore k a ∧ InStore k b) (compareEntries k types mappers) := by
  refine lawful_andThen (lawful_compare _ fun e : Entry => sortOrderFlags e.record)
    (lawful_andThen ((lawful_compareTypeNames k hk hT hself).mono fun a b h => h.1)
      (lawful_andThen ?_ (lawful_compare _ Entry.id)))
  refine lawful_branch (p := fun e : Entry => branch e.record.flags) ?_ ?_
  · intro a b h
    exact branch_of_sortOrderFlags k h.1.1.1 h.1.1.2
      (Std.LawfulEqOrd.eq_of_compare (Option.some.inj h.1.2))
  · intro v
    exact (lawful_compareData k hk hT hM v).mono fun a b h => ⟨h.1.1.1, h.2⟩

theorem inStore_entry {t : Nat} {e : Entry} (h : entry k t = some e) : InStore k e ∧ e.id = t := by
  obtain ⟨r, hr, rfl⟩ := Option.map_eq_some_iff.1 h
  exact ⟨hr, rfl⟩

theorem lawful_compareTypesStep (hk : Orderly k) (hT : Lawful types)
    (hself : ∀ t, types t t = some .eq) (hM : Lawful mappers) :
    Lawful (compareTypesStep k types mappers) := by
  refine lawful_same (lawful_keyed ((lawful_entries k hk hT hself hM).mono ?_))
  rintro x y ⟨a, b, -, hx, hy⟩
  exact ⟨(inStore_entry k hx).1, (inStore_entry k hy).1⟩

/-- a mapper by what the comparison looks into -/
def mapperTypes : Mapper → List Nat × List Nat
  | .simple a x => ([a], [x])
  | .array a x => (a, x)
  | _ => ([], [])

def mapperParts : Mapper → Option Nat × Option Nat
  | .merged a x => (some a, some x)
  | _ => (none, none)

theorem lawful_compareMappersStep (hT : Lawful types) (hM : Lawful mappers)
    (hMself : ∀ m, mappers m m = some .eq) : Lawful (compareMappersStep k types mappers) := by
  refine lawful_same (lawful_noneLast (lawful_keyed (LawfulOn.mono (R := fun _ _ => True) ?_
    fun _ _ _ => trivial)))
  refine lawful_andThen (lawful_compare _ mapperKind) ?_
  have hall : Lawful fun m1 m2 => andThen (andThen (lists types (mapperTypes m1).1 (mapperTypes m2).1)
      (lists types (mapperTypes m1).2 (mapperTypes m2).2))
      (andThen (mappers (mapperParts m1).1 (mapperParts m2).1)
        (mappers (mapperParts m1).2 (mapperParts m2).2)) := by
    have hlists : ∀ f : Mapper → List Nat, Lawful fun m1 m2 => lists types (f m1) (f m2) :=
      fun f => (lawful_comap f (lawful_lists hT)).mono fun _ _ _ => trivial
    have hparts : ∀ f : Mapper → Option Nat, Lawful fun m1 m2 => mappers (f m1) (f m2) :=
      fun f => (lawful_comap f hM).mono fun _ _ _ => trivial
    exact lawful_andThen (lawful_andThen (hlists fun m => (mapperTypes m).1)
      ((hlists fun m => (mapperTypes m).2).on _))
      (Lawful.on (lawful_andThen (hparts fun m => (mapperParts m).1)
        ((hparts fun m => (mapperParts m).2).on _)) _)
  have hsingle : ∀ a b, lists types [a] [b] = types a b := by
    intro a b
    show andThen (types a b) (some .eq) = types a b
    exact andThen_eq _
  have heq : ∀ m1 m2, mapperKind m1 = mapperKind m2 →
      andThen (andThen (lists types (mapperTypes m1).1 (mapperTypes m2).1)
        (lists types (mapperTypes m1).2 (mapperTypes m2).2))
        (andThen (mappers (mapperParts m1).1 (mapperParts m2).1)
          (mappers (mapperParts m1).2 (mapperParts m2).2)) = compareMapperData types mappers m1 m2 := by
    intro m1 m2 hkind
    cases m1 with
    | unknown =>
      cases m2 with
      | unknown =>
        simp only [mapperParts, hMself]
        rfl
      | _ => exact absurd hkind (by simp [mapperKind])
    | simple a x =>
      cases m2 with
      | simple b y => simp only [mapperTypes, mapperParts, compareMapperData, hMself, hsingle, andThen_eq]
      | _ => exact absurd hkind (by simp [mapperKind])
    | array a x =>
      cases m2 with
      | array b y => simp only [mapperTypes, mapperParts, compareMapperData, hMself, andThen_eq]
      | _ => exact absurd hkind (by simp [mapperKind])
    | merged a x =>
      cases m2 with
      | merged b y => rfl
      | _ => exact absurd hkind (by simp [mapperKind])
  refine (hall.on fun m1 m2 => True ∧ some (Ord.compare (mapperKind m1) (mapperKind m2)) = some .eq).congr
    ?_ ?_
  · rintro m1 m2 ⟨-, h⟩
    have h := Std.LawfulEqOrd.eq_of_compare (Option.some.inj h)
    exact ⟨heq m1 m2 h, heq m2 m1 h.symm⟩
  · rintro m1 m2 m3 ⟨-, h⟩ ⟨-, h'⟩
    have h := Std.LawfulEqOrd.eq_of_compare (Option.some.inj h)
    have h' := Std.LawfulEqOrd.eq_of_compare (Option.some.inj h')
    exact heq m1 m3 (h.trans h')

/-! ## depth -/

variable {types' : Nat → Nat → Option Ordering} {mappers' : Option Nat → Option Nat → Option Ordering}

theorem within_compareTypeNames (hT : ∀ a b, Within (types a b) (types' a b)) (r1 r2 : Record) :
    Within (compareTypeNames k types r1 r2) (compareTypeNames k types' r1 r2) := by
  by_cases h : typeNameSymbol r1 = typeNameSymbol r2
  · rw [compareTypeNames, compareTypeNames, if_pos h, if_pos h]
    cases r1.typeAlias with
    | none => exact Within.refl _
    | some a => exact Within.lists hT _ _
  · rw [compareTypeNames, compareTypeNames, if_neg h, if_neg h]
    exact Within.refl _

theorem within_compareObjects (hT : ∀ a b, Within (types a b) (types' a b))
    (hM : ∀ a b, Within (mappers a b) (mappers' a b)) (e1 e2 : Entry) :
    Within (compareObjects k types mappers e1 e2) (compareObjects k types' mappers' e1 e2) := by
  refine (Within.refl _).andThen ?_
  split
  next =>
    refine (Within.refl _).andThen (Within.keyed _ (fun d1 d2 => ?_) e1 e2)
    split
    next => exact Within.lists hT _ _
    next => exact (Within.refl _).andThen (hM _ _)
  next =>
    split
    next => exact Within.refl _
    next =>
      split
      next => exact Within.refl _
      next => exact (Within.refl _).andThen (Within.keyed _ hM e1 e2)

theorem within_compareUnions (hT : ∀ a b, Within (types a b) (types' a b)) (r1 r2 : Record) :
    Within (compareUnions types r1 r2) (compareUnions types' r1 r2) := by
  refine Within.keyed _ (fun o1 o2 => ?_) r1 r2
  cases o1 with
  | none =>
    cases o2 with
    | none => exact Within.lists hT _ _
    | some o2 => exact Within.refl _
  | some o1 =>
    cases o2 with
    | none => exact Within.refl _
    | some o2 => exact hT o1 o2

theorem within_compareData (hT : ∀ a b, Within (types a b) (types' a b))
    (hM : ∀ a b, Within (mappers a b) (mappers' a b)) (v : Branch) (e1 e2 : Entry) :
    Within (compareData k types mappers v e1 e2) (compareData k types' mappers' v e1 e2) := by
  have hpairs : ∀ p q, Within (comparePairs types p q) (comparePairs types' p q) :=
    fun p q => (hT _ _).andThen (hT _ _)
  cases v with
  | object => exact within_compareObjects k hT hM e1 e2
  | union => exact within_compareUnions hT _ _
  | intersection => exact Within.lists hT _ _
  | index => exact Within.keyed _ (fun a b => (hT _ _).andThen (Within.refl _)) _ _
  | indexedAccess => exact Within.keyed _ hpairs _ _
  | templateLiteral => exact Within.keyed _ (fun a b => (Within.refl _).andThen (Within.lists hT _ _)) _ _
  | stringMapping => exact Within.keyed (fun e : Entry => targetOf e.id e.record) hT e1 e2
  | conditional => exact Within.keyed _ (fun a b => (Within.refl _).andThen (hM _ _)) _ _
  | substitution => exact Within.keyed _ hpairs _ _
  | _ => exact Within.refl _

theorem within_compareTypesStep (hT : ∀ a b, Within (types a b) (types' a b))
    (hM : ∀ a b, Within (mappers a b) (mappers' a b)) (a b : Nat) :
    Within (compareTypesStep k types mappers a b) (compareTypesStep k types' mappers' a b) := by
  refine Within.same (fun a b => Within.keyed _ (fun e1 e2 => ?_) a b) a b
  exact (Within.refl _).andThen ((within_compareTypeNames k hT _ _).andThen
    ((within_compareData k hT hM _ e1 e2).andThen (Within.refl _)))

theorem within_compareMappersStep (hT : ∀ a b, Within (types a b) (types' a b))
    (hM : ∀ a b, Within (mappers a b) (mappers' a b)) (a b : Option Nat) :
    Within (compareMappersStep k types mappers a b) (compareMappersStep k types' mappers' a b) := by
  refine Within.same (fun a b => Within.noneLast (fun a b => Within.keyed _ (fun m1 m2 => ?_) a b) a b)
    a b
  refine (Within.refl _).andThen ?_
  unfold compareMapperData
  split
  next => exact (hT _ _).andThen (hT _ _)
  next => exact (Within.lists hT _ _).andThen (Within.lists hT _ _)
  next => exact (hM _ _).andThen (hM _ _)
  next => exact Within.refl _

end

/-- the laws at one depth -/
structure LawfulAt (depth : Nat) : Prop where
  types : Lawful (compareAt k depth).1
  typesSelf : ∀ t, (compareAt k depth).1 t t = some .eq
  mappers : Lawful (compareAt k depth).2
  mappersSelf : ∀ m, (compareAt k depth).2 m m = some .eq

theorem lawfulAt (hk : Orderly k) (depth : Nat) : LawfulAt k depth := by
  induction depth with
  | zero =>
    have hnone : ∀ α : Type, Lawful fun _ _ : α => none :=
      fun α => ⟨nofun, nofun⟩
    exact ⟨lawful_same (hnone Nat), fun t => if_pos rfl, lawful_same (hnone (Option Nat)),
      fun m => if_pos rfl⟩
  | succ depth ih =>
    exact ⟨lawful_compareTypesStep k hk ih.types ih.typesSelf ih.mappers, fun t => if_pos rfl,
      lawful_compareMappersStep k ih.types ih.mappers ih.mappersSelf, fun m => if_pos rfl⟩

theorem within_succ (depth : Nat) :
    (∀ a b, Within ((compareAt k depth).1 a b) ((compareAt k (depth + 1)).1 a b)) ∧
    ∀ a b, Within ((compareAt k depth).2 a b) ((compareAt k (depth + 1)).2 a b) := by
  induction depth with
  | zero =>
    exact ⟨Within.same nofun, Within.same nofun⟩
  | succ depth ih =>
    exact ⟨within_compareTypesStep k ih.1 ih.2, within_compareMappersStep k ih.1 ih.2⟩

theorem compareTypes_mono {depth depth' : Nat} (h : depth ≤ depth') (a b : Nat) :
    Within (compareTypes k depth a b) (compareTypes k depth' a b) := by
  induction h with
  | refl => exact Within.refl _
  | step _ ih => exact fun o ho => (within_succ k _).1 a b o (ih o ho)

theorem eq_of_compareTypes {depth a b : Nat} (h : compareTypes k depth a b = some .eq) : a = b := by
  by_contra hne
  cases depth with
  | zero =>
    change same (fun _ _ => none) a b = some .eq at h
    rw [same, if_neg hne] at h
    exact nomatch h
  | succ depth =>
    change same (keyed (entry k) (compareEntries k _ _)) a b = some .eq at h
    rw [same, if_neg hne] at h
    obtain ⟨x, y, hx, hy, h⟩ := keyed_eq_some h
    -- the last key is the id
    rcases andThen_eq_some h with ⟨-, h⟩ | ⟨-, h⟩
    · exact h rfl
    rcases andThen_eq_some h with ⟨-, h⟩ | ⟨-, h⟩
    · exact h rfl
    rcases andThen_eq_some h with ⟨-, h⟩ | ⟨-, h⟩
    · exact h rfl
    have hid : x.id = y.id := Std.LawfulEqOrd.eq_of_compare (Option.some.inj h)
    rw [(inStore_entry k hx).2, (inStore_entry k hy).2] at hid
    exact hne hid

end

/-- `compare_types` is a strict total order on the types on which it succeeds -/
structure StrictTotalOrder (k : Store) : Prop where
  unique : ∀ a b o o', Compares k a b o → Compares k a b o' → o = o'
  same : ∀ a b, Compares k a b .eq → a = b
  reverse : ∀ a b o, Compares k a b o → Compares k b a o.swap
  trans : ∀ a b d, Compares k a b .lt → Compares k b d .lt → Compares k a d .lt

/-- a store with these types, and no enums; the symbols are called `Foo` and stand in different files -/
def fooStore (entries : List Entry) (h : ∀ e ∈ entries, enumLike e.record.flags = false) : Store where
  types := fun t => (entries.find? fun e => e.id == t).map Entry.record
  symbols := fun s => ⟨[70, 111, 111], [some s], s⟩
  nodeFileIndex := id
  nodePos := fun _ => 0
  labelText := fun _ => none
  mappers := fun _ => none
  enums := by
    intro t r hr he
    obtain ⟨e, hfind, rfl⟩ := Option.map_eq_some_iff.1 hr
    rw [h e (List.mem_of_find?_eq_some hfind)] at he
    exact nomatch he

def stringLiteral (t : Nat) (text : List UInt8) : Entry :=
  ⟨t, 2 ^ 10, 0, none, none, .literal (.string text)⟩

/-- a union of `undefined` and another type -/
def optional (t : Nat) (typeAlias : TypeAlias) (constituent : Nat) : Entry :=
  ⟨t, unionFlag, 0, none, some typeAlias, .union none [1, constituent]⟩

/-- `type Foo<K extends keyof M> = M[K] | undefined` for `interface M { a: "z"; b: "x" }`, as `Foo<"a">`
and `Foo<"b">` -/
def fooTypes : List Entry :=
  [⟨1, 2 ^ 2, 0, none, none, .intrinsic⟩, stringLiteral 2 [120], stringLiteral 3 [121],
    stringLiteral 4 [122], stringLiteral 5 [97], stringLiteral 6 [98], optional 7 ⟨0, [5]⟩ 4,
    optional 8 ⟨0, [6]⟩ 2]

/-- and, in another module, `type Foo = "y" | undefined` -/
def fooTypesTwice : List Entry := fooTypes ++ [optional 9 ⟨1, []⟩ 3]

theorem fooTypes_enums : ∀ e ∈ fooTypes, enumLike e.record.flags = false := by decide

theorem fooTypesTwice_enums : ∀ e ∈ fooTypesTwice, enumLike e.record.flags = false := by decide

/-- one alias symbol, and no objects -/
theorem fooTypes_plain : ∀ e ∈ fooTypes, branch e.record.flags ≠ .object ∧
    ((typeNameSymbol e.record = none ∧ aliasArguments e.record = []) ∨
      (typeNameSymbol e.record = some 0 ∧ e.record.typeAlias.isSome = true)) := by
  decide

end Tsr.Checker.Compare
