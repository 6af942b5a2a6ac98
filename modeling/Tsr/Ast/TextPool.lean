import Mathlib

/-!
# A pool of texts

A word stands for the text of a field: the length of a text that ends where the node ends, a slot of the
pool, or an escape.  A slot holds a range of the source, or says that the text is kept by its field.

* `TextEntry`, `TextPool`    slots, the free ones, and the texts that are kept;
* `bytes`, `owned`           reads;
* `insert`, `release`, `changeEnd`   writes;
* `Client`, `perform`        fields that pass back the word and the end that they were given.

`none` is a panic.
-/

namespace Tsr.Ast.TextPool

/-- a number that stands for no length and no slot -/
def extended : Nat := 2 ^ 32 - 1

def poolLimit : Nat := 2 ^ 31 - 1

structure FieldKey where
  shape : Nat
  row : Nat
  field : Nat
  deriving DecidableEq

def isIdentifierText (shape field : Nat) : Bool := (shape = 1 || shape = 2) && field = 0

def FieldKey.isIdentifier (key : FieldKey) : Bool := isIdentifierText key.shape key.field

/-- a part of the source, from `start` up to `stop`, or a string of its own -/
inductive Value where
  | slice (start stop : Nat)
  | separate (text : List UInt8)

/-- the bytes of a range, if it lies in the source -/
def sourceGet (source : List UInt8) (start stop : Nat) : Option (List UInt8) :=
  if start ≤ stop ∧ stop ≤ source.length then some ((source.take stop).drop start) else none

/-- the bytes of a value; a slice lies in its source -/
def Value.text (source : List UInt8) : Value → List UInt8
  | .slice start stop => (source.take stop).drop start
  | .separate text => text

def Value.InSource (source : List UInt8) : Value → Prop
  | .slice start stop => start ≤ stop ∧ stop ≤ source.length
  | .separate _ => True

structure TextEntry where
  start : Nat
  len : Nat
  deriving DecidableEq

namespace TextEntry

def owned : TextEntry := ⟨2 ^ 32 - 1, 0⟩

def vacant : TextEntry := ⟨2 ^ 32 - 1, 1⟩

/-- start and length fit, and the start is not the one that is reserved -/
def fromRange (start stop : Nat) : Option TextEntry :=
  if start < 2 ^ 32 - 1 ∧ start ≤ stop ∧ stop - start < 2 ^ 32 then some ⟨start, stop - start⟩ else none

/-- only for a value that lies in the source -/
def source (source : List UInt8) : Value → Option TextEntry
  | .slice start stop => if start ≤ stop ∧ stop ≤ source.length then fromRange start stop else none
  | .separate _ => none

end TextEntry

structure Pool where
  entries : List TextEntry
  free : List Nat
  kept : FieldKey → Option Value

def Pool.empty : Pool := ⟨[], [], fun _ => none⟩

section
variable (source : List UInt8)

/-- where the text of a length ends at `stop` -/
def rawRange (word : Nat) (stop : Int) : Option (Nat × Nat) :=
  if 0 ≤ stop ∧ word / 2 ≤ stop.toNat ∧ stop.toNat ≤ source.length then
    some (stop.toNat - word / 2, stop.toNat)
  else none

/-- the length of a text that the source has in front of `stop` -/
def matchingRaw (text : List UInt8) (stop : Int) : Option Nat :=
  if 0 ≤ stop ∧ text.length ≤ stop.toNat ∧ text.length ≤ poolLimit ∧
      sourceGet source (stop.toNat - text.length) stop.toNat = some text then
    some (text.length * 2)
  else none

/-- what an odd word stands for -/
inductive PooledText where
  | source (start stop : Nat)
  | owned (value : Value)

namespace Pool

def pooled (p : Pool) (key : FieldKey) (word : Nat) : Option PooledText :=
  if word = extended then (p.kept key).map .owned
  else
    match p.entries[word / 2]? with
    | none => none
    | some entry =>
      if entry = .vacant then none
      else if entry = .owned then (p.kept key).map .owned
      else some (.source entry.start (entry.start + entry.len))

def bytes (p : Pool) (key : FieldKey) (word : Nat) (stop : Int) : Option (List UInt8) :=
  if word % 2 = 0 then
    match rawRange source word stop with
    | none => none
    | some (start, stop) => sourceGet source start stop
  else
    match p.pooled key word with
    | none => none
    | some (.source start stop) => sourceGet source start stop
    | some (.owned value) => some (value.text source)

/-- a slice that lies in the source -/
def sliceOf (start stop : Nat) : Option Value :=
  if start ≤ stop ∧ stop ≤ source.length then some (.slice start stop) else none

def owned (p : Pool) (key : FieldKey) (word : Nat) (stop : Int) : Option Value :=
  if word % 2 = 0 then
    match rawRange source word stop with
    | none => none
    | some (start, stop) => sliceOf source start stop
  else
    match p.pooled key word with
    | none => none
    | some (.source start stop) => sliceOf source start stop
    | some (.owned value) => some value

/-- the slot that the next text gets; `none` when the pool is full -/
def nextSlot (p : Pool) (limit : Nat) : Option (Nat × Pool) :=
  match p.free with
  | index :: free => some (index, { p with free := free })
  | [] => if p.entries.length < min limit poolLimit then some (p.entries.length, p) else none

def keep (p : Pool) (key : FieldKey) (value : Value) : Pool :=
  { p with kept := Function.update p.kept key (some value) }

def forget (p : Pool) (key : FieldKey) : Pool := { p with kept := Function.update p.kept key none }

/-- an entry in its slot, or behind all of them -/
def store (p : Pool) (index : Nat) (entry : TextEntry) : Pool :=
  { p with entries := if index = p.entries.length then p.entries ++ [entry] else p.entries.set index entry }

def insertPool (p : Pool) (key : FieldKey) (value : Value) (limit : Nat) : Nat × Pool :=
  match p.nextSlot limit with
  | none => (extended, p.keep key value)
  | some (index, p) =>
    match TextEntry.source source value with
    | some entry => (index * 2 + 1, p.store index entry)
    | none => (index * 2 + 1, (p.keep key value).store index .owned)

def insert (p : Pool) (key : FieldKey) (value : Value) (stop : Int) : Nat × Pool :=
  match if key.isIdentifier then matchingRaw source (value.text source) stop else none with
  | some word => (word, p)
  | none => p.insertPool source key value poolLimit

def release (p : Pool) (key : FieldKey) (word : Nat) : Option Pool :=
  if word % 2 = 0 then some p
  else if word = extended then some (p.forget key)
  else
    match p.entries[word / 2]? with
    | none => none
    | some entry =>
      if entry = .vacant then none
      else
        let p := if entry = .owned then p.forget key else p
        some { p with entries := p.entries.set (word / 2) .vacant, free := word / 2 :: p.free }

def changeEnd (p : Pool) (key : FieldKey) (word : Nat) (oldEnd newEnd : Int) : Option (Nat × Pool) :=
  if key.isIdentifier = false then some (word, p)
  else
    match p.bytes source key word oldEnd with
    | none => none
    | some text =>
      match matchingRaw source text newEnd with
      | some raw => (p.release key word).map fun p => (raw, p)
      | none =>
        if word % 2 ≠ 0 then some (word, p)
        else (p.owned source key word oldEnd).map fun value => p.insertPool source key value poolLimit

end Pool

/-! ## clients -/

/-- what a field passes back, and the text that it was given last -/
structure Held where
  word : Nat
  stop : Int
  text : List UInt8

structure Client where
  pool : Pool
  held : FieldKey → Option Held

inductive Op where
  | insert (key : FieldKey) (value : Value) (stop : Int)
  | changeEnd (key : FieldKey) (newEnd : Int)
  | release (key : FieldKey)

namespace Client

def start : Client := ⟨Pool.empty, fun _ => none⟩

def hold (c : Client) (key : FieldKey) (held : Option Held) (p : Pool) : Client :=
  ⟨p, Function.update c.held key held⟩

/-- a field without a word is given one, a field with a word changes it or gives it back -/
def Allowed (c : Client) : Op → Prop
  | .insert key value _ => c.held key = none ∧ value.InSource source
  | .changeEnd key _ => (c.held key).isSome = true
  | .release key => (c.held key).isSome = true

def perform (c : Client) : Op → Option Client
  | .insert key value stop =>
    let (word, p) := c.pool.insert source key value stop
    some (c.hold key (some ⟨word, stop, value.text source⟩) p)
  | .changeEnd key newEnd =>
    (c.held key).bind fun h => (c.pool.changeEnd source key h.word h.stop newEnd).map fun (word, p) =>
      c.hold key (some { h with word := word, stop := newEnd }) p
  | .release key =>
    (c.held key).bind fun h => (c.pool.release key h.word).map fun p => c.hold key none p

/-- calls in any order, each of them allowed -/
inductive Reached : Client → Prop
  | start : Reached start
  | step {c c' : Client} {op : Op} (h : Reached c) (hallowed : c.Allowed source op)
      (hstep : c.perform source op = some c') : Reached c'

end Client

end

end Tsr.Ast.TextPool
