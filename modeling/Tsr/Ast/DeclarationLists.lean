import Tsr.Lib.Fallible

/-!
# Declaration lists

The declarations of symbols are Go slices.  Their arrays lie one after the other in the pages of one store,
as words: a node of the store's namespace is its slot, any other node stands in a table of escapes.

* `EdgePages`          pages of words, and the nodes that no word can name;
* `DeclarationSlice`   headers; `slice` and `sliceWithCapacity` point into the same array;
* `DeclarationLists`   a store: `alloc`, `set`, `append` and their relatives;
* `declarationGrowthCapacity`   the capacity that Go's runtime gives an array that grows;
* `Call`, `perform`    the calls on any number of stores, and `Reached`, runs of them.

A panic ends a run.
-/

set_option linter.unusedSectionVars false

namespace Tsr.Ast.Declarations

open Tsr.Lib Tsr.Lib.Fallible

abbrev ArenaId := Nat

structure NodeId where
  arena : ArenaId
  slot : Nat
  nonzero : 0 < slot
  fits : slot < 2 ^ 32
  deriving DecidableEq

structure AuxId where
  arena : ArenaId
  slot : Nat
  nonzero : 0 < slot
  fits : slot < 2 ^ 32
  deriving DecidableEq

inductive Error where
  | invalidSlot
  | wrongOwner
  deriving DecidableEq

/-- how a call that returns no value ends -/
inductive Failure where
  | error (e : Error)
  | panic
  deriving DecidableEq

/-- a cell of a declaration slice -/
abbrev Cell := Option NodeId

instance : LawfulBEq Cell := inferInstance

/-- an error of a function that does not panic -/
def raise {α : Type} : Except Error α → Except Failure α
  | .ok a => .ok a
  | .error e => .error (.error e)

def NodeId.fromParts (arena : ArenaId) (slot : Nat) : Except Failure NodeId :=
  if h : 0 < slot ∧ slot < 2 ^ 32 then .ok ⟨arena, slot, h.1, h.2⟩ else .error .panic

/-! ## pages -/

def pageWords : Nat := 256

/-- the word of a node that stands in the table -/
def escape : Nat := 2 ^ 32 - 1

structure CompactNodes where
  start : Nat
  len : Nat

structure EdgePages where
  pages : List (Vector Nat pageWords)
  len : Nat
  escapes : Nat → Option NodeId

namespace EdgePages

def empty : EdgePages := ⟨[], 0, fun _ => none⟩

/-- the word at an index of the pages -/
def wordAt (p : EdgePages) (index : Nat) : Option Nat :=
  (p.pages[index / pageWords]?).map fun page => page.get ⟨index % pageWords, Nat.mod_lt index (by decide)⟩

/-- a stored word; `none` from the end on -/
def localWord (p : EdgePages) (index : Nat) : Except Failure (Option Nat) :=
  if p.len ≤ index then .ok none
  else
    match p.wordAt index with
    | none => .error .panic
    | some word => .ok (some word)

/-- the word of a node; one that is not local goes to the table -/
def encode (owner : ArenaId) (index : Nat) : Cell → Fallible EdgePages Failure Nat
  | none => pure 0
  | some node =>
    if node.arena = owner ∧ node.slot ≠ escape then pure node.slot
    else do
      change fun p => { p with escapes := Function.update p.escapes index (some node) }
      pure escape

def writeWord (index word : Nat) : Fallible EdgePages Failure Unit := fun p =>
  match p.pages[index / pageWords]? with
  | none => (.error .panic, p)
  | some page =>
    let written := page.set (index % pageWords) word (Nat.mod_lt index (by decide))
    (.ok (), { p with pages := List.set p.pages (index / pageWords) written })

/-- a cell is encoded and written -/
def put (owner : ArenaId) (index : Nat) (node : Cell) : Fallible EdgePages Failure Unit := do
  let word ← encode owner index node
  writeWord index word

/-- a page is made when the last one is full -/
def roomFor (index : Nat) (p : EdgePages) : EdgePages :=
  if index % pageWords = 0 then { p with pages := p.pages ++ [Vector.replicate pageWords 0] } else p

def longer (p : EdgePages) : EdgePages := { p with len := p.len + 1 }

/-- the entry of an index goes -/
def forget (index : Nat) (p : EdgePages) : EdgePages :=
  { p with escapes := Function.update p.escapes index none }

/-- one turn of the loop of `appendIter` -/
def appendCell (owner : ArenaId) (node : Cell) : Fallible EdgePages Failure PUnit := do
  let index ← read EdgePages.len
  change (roomFor index)
  put owner index node
  change longer

def appendIter (owner : ArenaId) (nodes : List Cell) : Fallible EdgePages Failure CompactNodes := do
  let start ← read EdgePages.len
  if 2 ^ 32 ≤ nodes.length ∨ 2 ^ 64 ≤ start + nodes.length then fail (.error .invalidSlot)
  else do
    nodes.forM (appendCell owner)
    pure ⟨start, nodes.length⟩

def append (owner : ArenaId) (nodes : List Cell) : Fallible EdgePages Failure CompactNodes :=
  appendIter owner nodes

/-- a stored cell; `none` from the end on -/
def get (p : EdgePages) (owner : ArenaId) (index : Nat) : Except Failure (Option Cell) :=
  match p.localWord index with
  | .error failure => .error failure
  | .ok none => .ok none
  | .ok (some word) =>
    if word = 0 then .ok (some none)
    else if word = escape then
      match p.escapes index with
      | none => .error .panic
      | some node => .ok (some (some node))
    else
      match NodeId.fromParts owner word with
      | .error failure => .error failure
      | .ok node => .ok (some (some node))

/-- a cell that is there; its callers panic on `none` -/
def expectCell (p : EdgePages) (owner : ArenaId) (index : Nat) : Except Failure Cell :=
  match p.get owner index with
  | .error failure => .error failure
  | .ok none => .error .panic
  | .ok (some node) => .ok node

/-- the cells of a range -/
def iter (p : EdgePages) (owner : ArenaId) (start stop : Nat) : Except Failure (List Cell) :=
  if start ≤ stop ∧ stop ≤ p.len then
    (List.range' start (stop - start)).mapM (p.expectCell owner)
  else .error .panic

def set (owner : ArenaId) (index : Nat) (node : Cell) : Fallible EdgePages Failure PUnit := do
  let len ← read EdgePages.len
  if len ≤ index then fail (.error .invalidSlot)
  else do
    change (forget index)
    put owner index node

end EdgePages

/-! ## headers -/

structure DeclarationSlice where
  backing : Option AuxId
  start : Nat
  len : Nat
  capacity : Nat
  deriving DecidableEq

namespace DeclarationSlice

def empty : DeclarationSlice := ⟨none, 0, 0, 0⟩

def sliceWithCapacity (s : DeclarationSlice) (start stop max : Nat) : Except Error DeclarationSlice :=
  if stop < start ∨ max < stop ∨ s.capacity < max then .error .invalidSlot
  else if 2 ^ 32 ≤ s.start + start then .error .invalidSlot
  else .ok ⟨s.backing, s.start + start, stop - start, max - start⟩

/-- up to the capacity, which may show cells that this header hid -/
def slice (s : DeclarationSlice) (start stop : Nat) : Except Error DeclarationSlice :=
  s.sliceWithCapacity start stop s.capacity

end DeclarationSlice

/-! ## growth -/

/-- the loop: by a quarter and 192 cells at a time; `fuel` turns at most -/
def growTo (len : Nat) : Nat → Nat → Except Error Nat
  | 0, capacity => .ok capacity
  | fuel + 1, capacity =>
    if capacity < len then
      if 2 ^ 64 ≤ capacity + (capacity + 3 * 256) / 4 then .error .invalidSlot
      else growTo len fuel (capacity + (capacity + 3 * 256) / 4)
    else .ok capacity

/-- the sizes in bytes in which the runtime hands out memory -/
def sizeClasses : List Nat :=
  [8, 16, 24, 32, 48, 64, 80, 96, 112, 128, 144, 160, 176, 192, 208, 224, 240, 256, 288,
    320, 352, 384, 416, 448, 480, 512, 576, 640, 704, 768, 896, 1024, 1152, 1280, 1408,
    1536, 1792, 2048, 2304, 2688, 3072, 3200, 3456, 4096, 4864, 5376, 6144, 6528, 6784,
    6912, 8192, 9472, 9728, 10240, 10880, 12288, 13568, 14336, 16384, 18432, 19072, 20480,
    21760, 24576, 27264, 28672, 32768]

/-- a size in bytes rounded up to what the runtime hands out for it -/
def roundUpSize (size : Nat) : Except Error Nat :=
  if size ≤ 32768 - 8 then
    match sizeClasses.find? (fun cls => decide (size + (if 512 < size then 8 else 0) ≤ cls)) with
    | none => .error .invalidSlot
    | some cls => .ok (cls - (if 512 < size then 8 else 0))
  else if 2 ^ 64 ≤ size + 8191 then .error .invalidSlot
  else .ok ((size + 8191) / 8192 * 8192)

/-- the capacity before it is rounded -/
def baseCapacity (len old : Nat) : Except Error Nat :=
  if 2 ^ 64 ≤ old * 2 then .error .invalidSlot
  else growTo len len (if old * 2 < len then len else if old < 256 then old * 2 else old)

def declarationGrowthCapacity (len old : Nat) : Except Error Nat :=
  match baseCapacity len old with
  | .error e => .error e
  | .ok capacity =>
    if 2 ^ 64 ≤ capacity * 8 then .error .invalidSlot
    else
      match roundUpSize (capacity * 8) with
      | .error e => .error e
      | .ok rounded => if 2 ^ 32 ≤ rounded / 8 then .error .invalidSlot else .ok (rounded / 8)

/-! ## stores -/

structure DeclarationBacking where
  start : Nat
  capacity : Nat

/-- the backings are an arena, whose slots are counted from 1 -/
structure DeclarationLists where
  id : ArenaId
  backings : List DeclarationBacking
  pages : EdgePages
  nodes : Option ArenaId

/-- a read of one header: the cells are decoded when they are asked for -/
structure DeclarationRead where
  pages : EdgePages
  owner : ArenaId
  start : Nat
  len : Nat

namespace DeclarationRead

def toVec (r : DeclarationRead) : Except Failure (List Cell) :=
  r.pages.iter r.owner r.start (r.start + r.len)

def contains (r : DeclarationRead) (node : Cell) : Except Failure Bool :=
  match r.toVec with
  | .error failure => .error failure
  | .ok values => .ok (decide (node ∈ values))

end DeclarationRead

namespace DeclarationLists

def new (id : ArenaId) : DeclarationLists := ⟨id, [], EdgePages.empty, none⟩

/-- the namespace of the words -/
def nodeArena (l : DeclarationLists) : ArenaId := l.nodes.getD l.id

/-- the first node fixes the namespace -/
def observed (l : DeclarationLists) (node : Cell) : DeclarationLists :=
  if l.nodes.isNone then { l with nodes := node.map NodeId.arena } else l

def observeNode (node : Cell) : Fallible DeclarationLists Failure PUnit := change (·.observed node)

def onPages {α : Type} (x : Fallible EdgePages Failure α) : Fallible DeclarationLists Failure α :=
  onPart DeclarationLists.pages (fun p l => { l with pages := p }) x

def backing (l : DeclarationLists) (id : AuxId) : Except Error DeclarationBacking :=
  if id.arena ≠ l.id then .error .wrongOwner
  else
    match l.backings[id.slot - 1]? with
    | none => .error .invalidSlot
    | some backing => .ok backing

/-- where the cells of a header start and stop -/
def range (l : DeclarationLists) (s : DeclarationSlice) : Except Error (Nat × Nat) :=
  match s.backing with
  | none => .ok (0, 0)
  | some id =>
    match l.backing id with
    | .error e => .error e
    | .ok backing =>
      if 2 ^ 32 ≤ s.start + s.len ∨ backing.capacity < s.start + s.len then .error .invalidSlot
      else if 2 ^ 64 ≤ backing.start + s.start + s.len then .error .invalidSlot
      else .ok (backing.start + s.start, backing.start + s.start + s.len)

def get (l : DeclarationLists) (s : DeclarationSlice) : Except Error DeclarationRead :=
  match l.range s with
  | .error e => .error e
  | .ok (start, stop) => .ok ⟨l.pages, l.nodeArena, start, stop - start⟩

/-- what a header shows -/
def contents (l : DeclarationLists) (s : DeclarationSlice) : Except Failure (List Cell) :=
  match l.get s with
  | .error e => .error (.error e)
  | .ok r => r.toVec

/-- panics when the arena of the backings has no slot left -/
def allocateHeader (start len capacity : Nat) : Fallible DeclarationLists Failure DeclarationSlice := fun l =>
  if h : l.backings.length + 1 < 2 ^ 32 then
    (.ok ⟨some ⟨l.id, l.backings.length + 1, Nat.succ_pos _, h⟩, 0, len, capacity⟩,
      { l with backings := l.backings ++ [⟨start, capacity⟩] })
  else (.error .panic, l)

/-- `capacity` cells of an iterator that may end before -/
def fill (values : List Cell) (capacity : Nat) : List Cell :=
  (List.range capacity).map fun i => (values[i]?).join

def allocWithCapacity (values : List Cell) (capacity : Nat) :
    Fallible DeclarationLists Failure DeclarationSlice :=
  if 2 ^ 32 ≤ values.length ∨ 2 ^ 32 ≤ capacity ∨ capacity < values.length then fail (.error .invalidSlot)
  else do
    observeNode (values.find? Option.isSome).join
    let arena ← read nodeArena
    let backing ← onPages (EdgePages.appendIter arena (fill values capacity))
    allocateHeader backing.start values.length capacity

def alloc (values : List Cell) : Fallible DeclarationLists Failure DeclarationSlice :=
  allocWithCapacity values values.length

def allocOne (node : Cell) : Fallible DeclarationLists Failure DeclarationSlice := do
  observeNode node
  let arena ← read nodeArena
  let backing ← onPages (EdgePages.append arena [node])
  allocateHeader backing.start 1 1

def set (s : DeclarationSlice) (index : Nat) (node : Cell) : Fallible DeclarationLists Failure PUnit := do
  let (start, stop) ← look fun l => raise (l.range s)
  if stop - start ≤ index then fail (.error .invalidSlot)
  else do
    observeNode node
    let arena ← read nodeArena
    onPages (EdgePages.set arena (start + index) node)

/-- values over the cells that start at an index, one after the other -/
def writeValues (index : Nat) (values : List Cell) : Fallible DeclarationLists Failure PUnit :=
  values.zipIdx.forM fun (node, offset) => do
    observeNode node
    let arena ← read nodeArena
    onPages (EdgePages.set arena (index + offset) node)

/-- the cells of an old array into a new one, at the same places -/
def copyCells (arena : ArenaId) (old new len : Nat) : Fallible DeclarationLists Failure PUnit :=
  (List.range len).forM fun index => do
    let value ← look fun l => l.pages.expectCell arena (old + index)
    onPages (EdgePages.set arena (new + index) value)

/-- values into a new array, from an index on -/
def placeValues (arena : ArenaId) (index : Nat) (values : List Cell) :
    Fallible DeclarationLists Failure PUnit :=
  values.zipIdx.forM fun (node, offset) => onPages (EdgePages.set arena (index + offset) node)

def observeAll (values : List Cell) : Fallible DeclarationLists Failure PUnit := values.forM observeNode

/-- the branch of `appendAll` for values that fit behind the header -/
def appendWithin (s : DeclarationSlice) (values : List Cell) :
    Fallible DeclarationLists Failure DeclarationSlice := do
  match s.backing with
  | none => fail .panic
  | some id => do
    let backing ← look fun l => raise (l.backing id)
    if backing.capacity < s.start + s.len + values.length then fail (.error .invalidSlot)
    else do
      writeValues (backing.start + (s.start + s.len)) values
      pure { s with len := s.len + values.length }

/-- the branch of `appendAll` for a new array -/
def appendGrown (s : DeclarationSlice) (old : Nat × Nat) (values : List Cell) :
    Fallible DeclarationLists Failure DeclarationSlice := do
  let capacity ← look fun _ => raise (declarationGrowthCapacity (s.len + values.length) s.capacity)
  observeAll values
  let arena ← read nodeArena
  let backing ← onPages (EdgePages.appendIter arena (List.replicate capacity none))
  copyCells arena old.1 backing.start (old.2 - old.1)
  placeValues arena (backing.start + (old.2 - old.1)) values
  allocateHeader backing.start (s.len + values.length) capacity

def appendAll (s : DeclarationSlice) (values : List Cell) :
    Fallible DeclarationLists Failure DeclarationSlice := do
  let old ← look fun l => raise (l.range s)
  if values = [] then pure s
  else if 2 ^ 32 ≤ values.length ∨ 2 ^ 32 ≤ s.len + values.length then fail (.error .invalidSlot)
  else if s.len + values.length ≤ s.capacity then appendWithin s values
  else appendGrown s old values

def append (s : DeclarationSlice) (node : Cell) : Fallible DeclarationLists Failure DeclarationSlice :=
  appendAll s [node]

/-- `existing` is what the store of the header reads for it -/
def appendImported (s : DeclarationSlice) (existing : DeclarationRead) (values : List Cell) :
    Fallible DeclarationLists Failure DeclarationSlice :=
  if existing.len ≠ s.len ∨ s.capacity ≠ s.len then fail (.error .invalidSlot)
  else if values = [] then pure s
  else if 2 ^ 64 ≤ s.len + values.length then fail (.error .invalidSlot)
  else do
    let capacity ← look fun _ => raise (declarationGrowthCapacity (s.len + values.length) s.capacity)
    let shown ← look fun _ => existing.toVec
    observeAll (shown ++ values)
    let arena ← read nodeArena
    let backing ← onPages (EdgePages.appendIter arena (fill (shown ++ values) capacity))
    allocateHeader backing.start (s.len + values.length) capacity

def appendIfUnique (s : DeclarationSlice) (node : Cell) :
    Fallible DeclarationLists Failure DeclarationSlice := do
  let r ← look fun l => raise (l.get s)
  let present ← look fun _ => r.contains node
  if present then pure s else append s node

end DeclarationLists

/-! ## calls -/

inductive Call where
  | alloc (store : ArenaId) (values : List Cell)
  | allocOne (store : ArenaId) (node : Cell)
  | allocWithCapacity (store : ArenaId) (values : List Cell) (capacity : Nat)
  | append (store : ArenaId) (s : DeclarationSlice) (node : Cell)
  | appendAll (store : ArenaId) (s : DeclarationSlice) (values : List Cell)
  | appendIfUnique (store : ArenaId) (s : DeclarationSlice) (node : Cell)
  | appendImported (target source : ArenaId) (s : DeclarationSlice) (values : List Cell)
  | set (store : ArenaId) (s : DeclarationSlice) (index : Nat) (node : Cell)
  | slice (s : DeclarationSlice) (start stop : Nat)
  | sliceWithCapacity (s : DeclarationSlice) (start stop max : Nat)

/-- the header that a call is given -/
def Call.header : Call → Option DeclarationSlice
  | .alloc _ _ => none
  | .allocOne _ _ => none
  | .allocWithCapacity _ _ _ => none
  | .append _ s _ => some s
  | .appendAll _ s _ => some s
  | .appendIfUnique _ s _ => some s
  | .appendImported _ _ s _ => some s
  | .set _ s _ _ => some s
  | .slice s _ _ => some s
  | .sliceWithCapacity s _ _ _ => some s

/-- the stores, by the arenas of their backings -/
abbrev World := ArenaId → DeclarationLists

/-- a header, or nothing from `set` -/
abbrev Outcome := Except Failure (Option DeclarationSlice)

def World.start : World := DeclarationLists.new

/-- a call on one store -/
def World.on {α : Type} (w : World) (store : ArenaId) (x : Fallible DeclarationLists Failure α) :
    Except Failure α × World :=
  ((x (w store)).1, Function.update w store (x (w store)).2)

def World.onHeader (w : World) (store : ArenaId) (x : Fallible DeclarationLists Failure DeclarationSlice) :
    Outcome × World :=
  ((w.on store x).1.map some, (w.on store x).2)

def perform (w : World) : Call → Outcome × World
  | .alloc store values => w.onHeader store (DeclarationLists.alloc values)
  | .allocOne store node => w.onHeader store (DeclarationLists.allocOne node)
  | .allocWithCapacity store values capacity =>
    w.onHeader store (DeclarationLists.allocWithCapacity values capacity)
  | .append store s node => w.onHeader store (DeclarationLists.append s node)
  | .appendAll store s values => w.onHeader store (DeclarationLists.appendAll s values)
  | .appendIfUnique store s node => w.onHeader store (DeclarationLists.appendIfUnique s node)
  | .appendImported target source s values =>
    match (w source).get s with
    | .error e => (.error (.error e), w)
    | .ok existing => w.onHeader target (DeclarationLists.appendImported s existing values)
  | .set store s index node =>
    ((w.on store (DeclarationLists.set s index node)).1.map fun _ => none,
      (w.on store (DeclarationLists.set s index node)).2)
  | .slice s start stop => ((raise (s.slice start stop)).map some, w)
  | .sliceWithCapacity s start stop max => ((raise (s.sliceWithCapacity start stop max)).map some, w)

/-- the headers that the calls of a run returned, and the nil header -/
def headers (trace : List (Call × Outcome)) : List DeclarationSlice :=
  DeclarationSlice.empty :: trace.filterMap fun entry => entry.2.toOption.join

/-- calls with headers that earlier ones returned -/
inductive Reached : List (Call × Outcome) → World → Prop
  | start : Reached [] World.start
  | step {trace : List (Call × Outcome)} {w : World} {call : Call} : Reached trace w →
      (∀ s, call.header = some s → s ∈ headers trace) → (perform w call).1 ≠ .error .panic →
      Reached (trace ++ [(call, (perform w call).1)]) (perform w call).2

end Tsr.Ast.Declarations
