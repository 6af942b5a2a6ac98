import Tsr.Lib.Compare

/-!
# The order of types

`compare_types` orders the types of a checker: by flags, by name, by what they are made of, and at
last by their ids.  Union constituents are sorted in this order.

* `Record`, `Payload`    a type as the store holds it;
* `Store`                the tables that a comparison reads;
* `compareNodes`, `compareSymbols`, `compareTypeNames`, `compareTupleTypes`   the keys;
* `compareTypes`         the comparison, down to a depth; `Compares` at any depth.
-/

namespace Tsr.Checker.Compare

open Tsr.Lib.Compare

/-! ## types -/

/-- a number of JavaScript; a finite one is a multiple of `2 ^ -1074` -/
inductive Number where
  | nan
  | negInfinity
  | finite (multiple : Int)
  | infinity
deriving DecidableEq

inductive LiteralValue where
  | string (text : List UInt8)
  | number (value : Number)
  | boolean (value : Bool)
  | bigInt (negative : Bool) (digits : List UInt8)
  | computedEnum
deriving DecidableEq

structure ObjectData where
  target : Option Nat
  mapper : Option Nat

structure ReferenceData where
  object : ObjectData
  node : Option Nat
  resolvedTypeArguments : Option (List Nat)

structure TupleElementInfo where
  flags : Nat
  labeledDeclaration : Option Nat

inductive Payload where
  | intrinsic
  | literal (value : LiteralValue)
  | uniqueEsSymbol
  | anonymous (object : ObjectData)
  | instantiationExpression (object : ObjectData) (node : Option Nat)
  | evolvingArray (object : ObjectData)
  | mapped (object : ObjectData)
  | reverseMapped (object : ObjectData)
  | reference (reference : ReferenceData)
  | interface (reference : ReferenceData)
  | tuple (reference : ReferenceData) (readonly : Bool) (elementInfos : List TupleElementInfo)
  | union (origin : Option Nat) (types : List Nat)
  | intersection (types : List Nat)
  | typeParameter (target : Option Nat)
  | templateLiteral (texts : List (List UInt8)) (types : List Nat)
  | index (target : Nat) (indexFlags : Nat)
  | indexedAccess (objectType indexType : Nat)
  | stringMapping (target : Nat)
  | substitution (base constraint : Nat)
  | conditional (rootNode : Nat) (mapper : Option Nat)

structure TypeAlias where
  symbol : Nat
  typeArguments : List Nat

structure Record where
  flags : Nat
  objectFlags : Nat
  symbol : Option Nat
  typeAlias : Option TypeAlias
  payload : Payload

structure Symbol where
  name : List UInt8
  declarations : List (Option Nat)
  runtimeId : Nat

/-- mappers that the comparison does not look into are `unknown` -/
inductive Mapper where
  | unknown
  | simple (source target : Nat)
  | array (sources targets : List Nat)
  | merged (first second : Nat)

/-! ## flags -/

def has (flags mask : Nat) : Bool := flags &&& mask != 0

/-- any, unknown, undefined, null, void, string, number, bigint, boolean, symbol, object, never -/
def intrinsicFlags : Nat := 2 ^ 10 - 1 + 2 ^ 17 + 2 ^ 18

def enumLikeFlags : Nat := 2 ^ 15 + 2 ^ 16

def unionFlag : Nat := 2 ^ 27

def classOrInterfaceOrReference : Nat := 2 ^ 0 + 2 ^ 1 + 2 ^ 2

def typeParameterOrStringMapping : Nat := 2 ^ 19 + 2 ^ 23

def referenceFlag : Nat := 2 ^ 2

def tupleFlag : Nat := 2 ^ 3

def instantiationExpressionFlag : Nat := 2 ^ 24

/-- `OBJECT_TYPE_KIND_MASK` -/
def objectTypeKindMask : Nat :=
  2 ^ 0 + 2 ^ 1 + 2 ^ 2 + 2 ^ 3 + 2 ^ 4 + 2 ^ 5 + 2 ^ 8 + 2 ^ 10 + 2 ^ 24 + 2 ^ 25

/-- the data by which types with equal flags and names are compared -/
inductive Branch where
  | intrinsic
  | object
  | union
  | intersection
  | enumOrUnique
  | stringLiteral
  | numberLiteral
  | booleanLiteral
  | typeParameter
  | index
  | indexedAccess
  | templateLiteral
  | stringMapping
  | conditional
  | substitution
  | other
deriving DecidableEq

def branch (flags : Nat) : Branch :=
  if has flags intrinsicFlags then .intrinsic
  else if has flags (2 ^ 20) then .object
  else if has flags unionFlag then .union
  else if has flags (2 ^ 28) then .intersection
  else if has flags (enumLikeFlags + 2 ^ 14) then .enumOrUnique
  else if has flags (2 ^ 10) then .stringLiteral
  else if has flags (2 ^ 11) then .numberLiteral
  else if has flags (2 ^ 13) then .booleanLiteral
  else if has flags (2 ^ 19) then .typeParameter
  else if has flags (2 ^ 21) then .index
  else if has flags (2 ^ 25) then .indexedAccess
  else if has flags (2 ^ 22) then .templateLiteral
  else if has flags (2 ^ 23) then .stringMapping
  else if has flags (2 ^ 26) then .conditional
  else if has flags (2 ^ 24) then .substitution
  else .other

/-- enum members and computed enums, not the unions of the members -/
def enumLike (flags : Nat) : Bool := has flags enumLikeFlags && !has flags unionFlag

def sortOrderFlags (r : Record) : Nat := if enumLike r.flags then 2 ^ 16 else r.flags

/-! ## the tables -/

/-- an enum member is a literal type -/
structure Store where
  types : Nat → Option Record
  symbols : Nat → Symbol
  nodeFileIndex : Nat → Nat
  nodePos : Nat → Int
  /-- the text of the name of a labeled tuple element -/
  labelText : Nat → Option (List UInt8)
  mappers : Nat → Option Mapper
  enums : ∀ t r, types t = some r → enumLike r.flags = true → branch r.flags = .enumOrUnique

/-- `AsObjectType().mapper` -/
def objectMapper (r : Record) : Option (Option Nat) :=
  match r.payload with
  | .anonymous o => some o.mapper
  | .instantiationExpression o _ => some o.mapper
  | .evolvingArray o => some o.mapper
  | .mapped o => some o.mapper
  | .reverseMapped o => some o.mapper
  | .reference d => some d.object.mapper
  | .interface d => some d.object.mapper
  | .tuple d _ _ => some d.object.mapper
  | _ => none

def typeReference (r : Record) : Option ReferenceData :=
  match r.payload with
  | .reference d => some d
  | .interface d => some d
  | .tuple d _ _ => some d
  | _ => none

/-- `Type.Target()` of the type `t` -/
def targetOf (t : Nat) (r : Record) : Option Nat :=
  match r.payload with
  | .reference d => d.object.target
  | .interface d => d.object.target
  | .tuple d _ _ => d.object.target
  | .typeParameter target => target
  | .index target _ => some target
  | .stringMapping target => some target
  | _ => some t

/-- `Type.Types()` -/
def typesOf (r : Record) : List Nat :=
  match r.payload with
  | .union _ types => types
  | .intersection types => types
  | _ => []

def unionOrigin (r : Record) : Option (Option Nat) :=
  match r.payload with
  | .union origin _ => some origin
  | _ => none

def tupleData (r : Record) : Option (Bool × List TupleElementInfo) :=
  match r.payload with
  | .tuple _ readonly elementInfos => some (readonly, elementInfos)
  | _ => none

def instantiationNode (r : Record) : Option (Option Nat) :=
  match r.payload with
  | .instantiationExpression _ node => some node
  | _ => none

def literalString (r : Record) : Option (List UInt8) :=
  match r.payload with
  | .literal (.string text) => some text
  | _ => none

def literalNumber (r : Record) : Option Number :=
  match r.payload with
  | .literal (.number value) => some value
  | _ => none

def literalBoolean (r : Record) : Option Bool :=
  match r.payload with
  | .literal (.boolean value) => some value
  | _ => none

def indexType (r : Record) : Option (Nat × Nat) :=
  match r.payload with
  | .index target indexFlags => some (target, indexFlags)
  | _ => none

def indexedAccess (r : Record) : Option (Nat × Nat) :=
  match r.payload with
  | .indexedAccess objectType indexType => some (objectType, indexType)
  | _ => none

def templateLiteral (r : Record) : Option (List (List UInt8) × List Nat) :=
  match r.payload with
  | .templateLiteral texts types => some (texts, types)
  | _ => none

def substitution (r : Record) : Option (Nat × Nat) :=
  match r.payload with
  | .substitution base constraint => some (base, constraint)
  | _ => none

def conditional (r : Record) : Option (Nat × Option Nat) :=
  match r.payload with
  | .conditional rootNode mapper => some (rootNode, mapper)
  | _ => none

/-! ## nodes, symbols and names -/

section
variable (k : Store)

def compareNodes : Option Nat → Option Nat → Option Ordering :=
  noneLast (same fun a b =>
    andThen (some (Ord.compare (k.nodeFileIndex a) (k.nodeFileIndex b)))
      (some (Ord.compare (k.nodePos a) (k.nodePos b))))

def firstDeclaration (s : Symbol) : Option Nat := s.declarations.head?.join

def compareDeclarations (sym1 sym2 : Symbol) : Option Ordering :=
  match sym1.declarations.isEmpty, sym2.declarations.isEmpty with
  | false, false => compareNodes k (firstDeclaration sym1) (firstDeclaration sym2)
  | false, true => some .lt
  | true, false => some .gt
  | true, true => some .eq

/-- by first declaration, then by name, then by runtime id -/
def compareSymbols : Option Nat → Option Nat → Option Ordering :=
  same (noneLast fun s1 s2 =>
    let sym1 := k.symbols s1
    let sym2 := k.symbols s2
    andThen (compareDeclarations k sym1 sym2)
      (andThen (some (Ord.compare sym1.name sym2.name))
        (some (Ord.compare sym1.runtimeId sym2.runtimeId))))

def typeNameSymbol (r : Record) : Option Nat :=
  match r.typeAlias with
  | some a => some a.symbol
  | none =>
    if has r.flags typeParameterOrStringMapping || has r.objectFlags classOrInterfaceOrReference then
      r.symbol
    else none

/-- no difference between the values, or the sign of one -/
def compareBools (a b : Bool) : Ordering := if a = b then .eq else if a then .gt else .lt

/-- Go's `cmp.Compare`: NaN is first -/
def compareNumbers : Number → Number → Ordering
  | .nan, .nan => .eq
  | .nan, _ => .lt
  | _, .nan => .gt
  | .negInfinity, .negInfinity => .eq
  | .negInfinity, _ => .lt
  | _, .negInfinity => .gt
  | .infinity, .infinity => .eq
  | .infinity, _ => .gt
  | _, .infinity => .lt
  | .finite a, .finite b => Ord.compare a b

def compareElementLabels : Option Nat → Option Nat → Option Ordering
  | none, none => some .eq
  | none, some _ => some .lt
  | some _, none => some .gt
  | some a, some b => same (keyed k.labelText fun a b => some (Ord.compare a b)) a b

/-- tuple types have no symbol; they are compared by their elements -/
def compareTupleData (d1 d2 : Bool × List TupleElementInfo) : Option Ordering :=
  andThen (some (compareBools d1.1 d2.1))
    (andThen (some (Ord.compare d1.2.length d2.2.length))
      (andThen (all (fun e1 e2 => some (Ord.compare e1.flags e2.flags)) d1.2 d2.2)
        (all (fun e1 e2 => compareElementLabels k e1.labeledDeclaration e2.labeledDeclaration)
          d1.2 d2.2)))

/-! ## types -/

/-- a type with its id -/
structure Entry where
  id : Nat
  record : Record

section
variable (types : Nat → Nat → Option Ordering) (mappers : Option Nat → Option Nat → Option Ordering)

/-- by name, and aliases of one symbol by their type arguments -/
def compareTypeNames (r1 r2 : Record) : Option Ordering :=
  let s1 := typeNameSymbol r1
  let s2 := typeNameSymbol r2
  if s1 = s2 then
    match r1.typeAlias with
    | some a => lists types a.typeArguments ((r2.typeAlias.map TypeAlias.typeArguments).getD [])
    | none => some .eq
  else
    match s1, s2 with
    | some s1, some s2 => some (Ord.compare (k.symbols s1).name (k.symbols s2).name)
    | none, _ => some .gt
    | some _, none => some .lt

def isInstantiationExpression (r : Record) : Bool := has r.objectFlags instantiationExpressionFlag

def isReference (r : Record) : Bool := has r.objectFlags referenceFlag

def isTuple (r : Record) : Bool := has r.objectFlags tupleFlag

def compareObjectSymbols (r1 r2 : Record) : Option Ordering :=
  if isInstantiationExpression r1 && isInstantiationExpression r2 then
    andThen (compareNodes k (r1.symbol.bind fun s => firstDeclaration (k.symbols s))
        (r2.symbol.bind fun s => firstDeclaration (k.symbols s)))
      (keyed instantiationNode (compareNodes k) r1 r2)
  else compareSymbols k r1.symbol r2.symbol

/-- the target of a reference, as a type with its id -/
def targetEntry (e : Entry) : Option Entry :=
  (targetOf e.id e.record).bind fun t => (k.types t).map (Entry.mk t)

def compareTargets (t1 t2 : Entry) : Option Ordering :=
  if isTuple t1.record && isTuple t2.record then
    if t1.id = t2.id then some .eq
    else keyed (fun t : Entry => tupleData t.record) (compareTupleData k) t1 t2
  else some .eq

/-- references of one target by their arguments, deferred ones by location and mapper -/
def compareArguments (e1 e2 : Entry) : Option Ordering :=
  keyed (fun e : Entry => typeReference e.record) (fun d1 d2 =>
    if d1.node.isNone && d2.node.isNone then
      lists types (d1.resolvedTypeArguments.getD []) (d2.resolvedTypeArguments.getD [])
    else andThen (compareNodes k d1.node d2.node) (mappers d1.object.mapper d2.object.mapper)) e1 e2

def compareObjects (e1 e2 : Entry) : Option Ordering :=
  andThen (compareObjectSymbols k e1.record e2.record)
    (if isReference e1.record && isReference e2.record then
      andThen (keyed (targetEntry k) (compareTargets k) e1 e2) (compareArguments k types mappers e1 e2)
    else if isReference e1.record then some .lt
    else if isReference e2.record then some .gt
    else
      andThen (some (Ord.compare (e1.record.objectFlags &&& objectTypeKindMask)
          (e2.record.objectFlags &&& objectTypeKindMask)))
        (keyed (fun e : Entry => objectMapper e.record) mappers e1 e2))

/-- unions with an origin are first -/
def compareUnions (r1 r2 : Record) : Option Ordering :=
  keyed unionOrigin (fun o1 o2 =>
    match o1, o2 with
    | none, none => lists types (typesOf r1) (typesOf r2)
    | none, some _ => some .gt
    | some _, none => some .lt
    | some o1, some o2 => types o1 o2) r1 r2

def comparePairs (p1 p2 : Nat × Nat) : Option Ordering :=
  andThen (types p1.1 p2.1) (types p1.2 p2.2)

def compareData (b : Branch) (e1 e2 : Entry) : Option Ordering :=
  let r1 := e1.record
  let r2 := e2.record
  match b with
  | .intrinsic => some .eq
  | .object => compareObjects k types mappers e1 e2
  | .union => compareUnions types r1 r2
  | .intersection => lists types (typesOf r1) (typesOf r2)
  | .enumOrUnique => compareSymbols k r1.symbol r2.symbol
  | .stringLiteral => keyed literalString (fun a b => some (Ord.compare a b)) r1 r2
  | .numberLiteral => keyed literalNumber (fun a b => some (compareNumbers a b)) r1 r2
  | .booleanLiteral => keyed literalBoolean (fun a b => some (compareBools a b)) r1 r2
  | .typeParameter => compareSymbols k r1.symbol r2.symbol
  | .index =>
    keyed indexType (fun a b => andThen (types a.1 b.1) (some (Ord.compare a.2 b.2))) r1 r2
  | .indexedAccess => keyed indexedAccess (comparePairs types) r1 r2
  | .templateLiteral =>
    keyed templateLiteral (fun a b => andThen (some (Ord.compare a.1 b.1)) (lists types a.2 b.2)) r1 r2
  | .stringMapping => keyed (fun e : Entry => targetOf e.id e.record) types e1 e2
  | .conditional =>
    keyed conditional (fun a b => andThen (compareNodes k (some a.1) (some b.1)) (mappers a.2 b.2)) r1 r2
  | .substitution => keyed substitution (comparePairs types) r1 r2
  | .other => some .eq

/-- two types that are not the same -/
def compareEntries (e1 e2 : Entry) : Option Ordering :=
  andThen (some (Ord.compare (sortOrderFlags e1.record) (sortOrderFlags e2.record)))
    (andThen (compareTypeNames k types e1.record e2.record)
      (andThen (compareData k types mappers (branch e1.record.flags) e1 e2)
        (some (Ord.compare e1.id e2.id))))

def entry (t : Nat) : Option Entry := (k.types t).map (Entry.mk t)

def mapperKind : Mapper → Nat
  | .unknown => 0
  | .simple _ _ => 1
  | .array _ _ => 2
  | .merged _ _ => 3

def compareMapperData : Mapper → Mapper → Option Ordering
  | .simple a x, .simple b y => andThen (types a b) (types x y)
  | .array a x, .array b y => andThen (lists types a b) (lists types x y)
  | .merged a x, .merged b y =>
    andThen (mappers (some a) (some b)) (mappers (some x) (some y))
  | _, _ => some .eq

/-- one level of `compare_types` -/
def compareTypesStep : Nat → Nat → Option Ordering :=
  same (keyed (entry k) (compareEntries k types mappers))

/-- one level of `compare_type_mappers` -/
def compareMappersStep : Option Nat → Option Nat → Option Ordering :=
  same (noneLast (keyed k.mappers fun m1 m2 =>
    andThen (some (Ord.compare (mapperKind m1) (mapperKind m2))) (compareMapperData types mappers m1 m2)))

end

/-- the comparisons of types and of mappers down to a depth -/
def compareAt : Nat → (Nat → Nat → Option Ordering) × (Option Nat → Option Nat → Option Ordering)
  | 0 => (same fun _ _ => none, same fun _ _ => none)
  | depth + 1 =>
    (compareTypesStep k (compareAt depth).1 (compareAt depth).2,
      compareMappersStep k (compareAt depth).1 (compareAt depth).2)

def compareTypes (depth : Nat) (t1 t2 : Nat) : Option Ordering := (compareAt k depth).1 t1 t2

/-- `compare_types` succeeds with `o` -/
def Compares (t1 t2 : Nat) (o : Ordering) : Prop := ∃ depth, compareTypes k depth t1 t2 = some o

end

end Tsr.Checker.Compare
