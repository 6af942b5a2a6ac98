import Tsr.Json.Streaming
import Tsr.Json.Trace

/-!
# Json: calls that fail

A call of the decoder that fails leaves the grammar as it was: only the table of member names may have
changed its form, and bytes may have been read ahead.  So the same call fails again, with the same
error.  The encoder takes a refused token back; if the writer fails the token stays, and the bytes that
the writer has not taken stay with it.

* `Stack.Alike`           the same stack, up to the form of its tables of names;
* `Undoes`                a computation that takes back what it did, if it fails;
* `alike_next`            like stacks, like tokens;
* `retry_call`            a failed call fails again;
* `failures_unseen`       **over runs**: calls that fail can be left out;
* `failed_call_undone`    **the result**, for both sides.
-/

namespace Tsr.Json
open Tsr.Lib Tsr.Lib.Fallible

/-! ## tables of names -/

namespace Names

/-- the names in the order in which they came -/
def recorded (n : Names) : List Bytes := split n.bytes 0 n.ends

theorem enlarge_cases (n : Names) : n.enlarge = n ∨ n.enlarge.large ≠ none := by
  unfold enlarge
  split
  next => exact .inr (by simp)
  next => exact .inl rfl

theorem enlarge_enlarge (n : Names) : n.enlarge.enlarge = n.enlarge := by
  rcases enlarge_cases n with h | h
  · rw [h, h]
  · generalize n.enlarge = m at h
    unfold enlarge
    rw [if_neg fun hn => h hn.1]

theorem recorded_enlarge (n : Names) : n.enlarge.recorded = n.recorded := by
  unfold enlarge
  split <;> rfl

theorem insert_enlarge (n : Names) (name : Bytes) : n.enlarge.insert name = n.insert name := by
  rw [insert, insert, enlarge_enlarge]

/-- a name that is taken changes nothing but the form -/
theorem insert_taken {n : Names} {name : Bytes} (h : (n.insert name).1 = false) :
    (n.insert name).2 = n.enlarge := by
  unfold insert at h ⊢
  cases hl : n.enlarge.large with
  | some large =>
    simp only [hl] at h ⊢
    split at h
    next hm => rw [if_pos hm]
    next => exact nomatch h
  | none =>
    simp only [hl] at h ⊢
    split at h
    next hm => rw [if_pos hm]
    next => exact nomatch h

end Names

/-! ## like stacks -/

def Frame.Alike (f g : Frame) : Prop := g = f ∨ g = { f with names := f.names.enlarge }

/-- a frame without the form of its table -/
def Frame.shape (f : Frame) : Kind × Nat × Bytes × List Bytes :=
  (f.kind, f.count, f.name, f.names.recorded)

namespace Frame.Alike

variable {f g : Frame}

theorem refl (f : Frame) : Frame.Alike f f := .inl rfl

theorem shape (h : Frame.Alike f g) : g.shape = f.shape := by
  rcases h with rfl | rfl
  · rfl
  · rw [Frame.shape, Frame.shape, Names.recorded_enlarge]

theorem kind (h : Frame.Alike f g) : g.kind = f.kind := by rcases h with rfl | rfl <;> rfl

theorem expectsName (h : Frame.Alike f g) : g.expectsName = f.expectsName := by
  rcases h with rfl | rfl <;> rfl

theorem framePointer (h : Frame.Alike f g) (next : Bool) :
    framePointer next g = framePointer next f := by
  rcases h with rfl | rfl <;> rfl

end Frame.Alike

def Stack.Alike : Stack → Stack → Prop := List.Forall₂ Frame.Alike

namespace Stack.Alike

variable {s t : Stack}

theorem refl (s : Stack) : Stack.Alike s s := by
  induction s with
  | nil => exact .nil
  | cons f s ih => exact .cons (Frame.Alike.refl f) ih

theorem shapes (h : Stack.Alike s t) : t.map Frame.shape = s.map Frame.shape := by
  induction h with
  | nil => rfl
  | cons hf _ ih => rw [List.map_cons, List.map_cons, hf.shape, ih]

theorem length (h : Stack.Alike s t) : t.length = s.length := (List.Forall₂.length_eq h).symm

theorem isEmpty (h : Stack.Alike s t) : t.isEmpty = s.isEmpty := by cases h <;> rfl

theorem eq_nil (h : Stack.Alike s t) : t = [] ↔ s = [] := by
  cases h with
  | nil => exact Iff.rfl
  | cons hf hr => exact ⟨nofun, nofun⟩

theorem expectsName (h : Stack.Alike s t) : t.expectsName = s.expectsName := by
  cases h with
  | nil => rfl
  | cons hf hr => exact hf.expectsName

theorem topKind (h : Stack.Alike s t) : t.topKind = s.topKind := by
  cases h with
  | nil => rfl
  | cons hf hr => exact congrArg some hf.kind

theorem pointer (h : Stack.Alike s t) (next : Bool) : pointer next t = pointer next s := by
  cases h with
  | nil => rfl
  | cons hf hr =>
    rename_i f g s t
    have houter : t.map (framePointer false) = s.map (framePointer false) := by
      clear hf f g
      induction hr with
      | nil => rfl
      | cons hf _ ih => rw [List.map_cons, List.map_cons, hf.framePointer, ih]
    rw [Json.pointer, Json.pointer, hf.framePointer, List.map_reverse, List.map_reverse, houter]

theorem tail (h : Stack.Alike s t) : Stack.Alike s.tail t.tail := by
  cases h with
  | nil => exact .nil
  | cons hf hr => exact hr

theorem countOne (h : Stack.Alike s t) : Stack.Alike s.countOne t.countOne := by
  cases h with
  | nil => exact .nil
  | cons hf hr =>
    refine .cons ?_ hr
    rcases hf with rfl | rfl
    · exact .inl rfl
    · exact .inr rfl

theorem setName (h : Stack.Alike s t) (name : Bytes) :
    Stack.Alike (s.setName name) (t.setName name) := by
  cases h with
  | nil => exact .nil
  | cons hf hr =>
    refine .cons ?_ hr
    rcases hf with rfl | rfl
    · exact .inl rfl
    · exact .inr rfl

theorem checkName (h : Stack.Alike s t) (options : Options) (name : Bytes) :
    (t.checkName options name).1 = (s.checkName options name).1 ∧
      Stack.Alike (s.checkName options name).2 (t.checkName options name).2 := by
  unfold Stack.checkName
  split
  next => exact ⟨rfl, h⟩
  next =>
    cases h with
    | nil => exact ⟨rfl, .nil⟩
    | cons hf hr =>
      rcases hf with rfl | rfl
      · exact ⟨rfl, .cons (Frame.Alike.refl _) hr⟩
      · rw [Stack.insertName, Stack.insertName, Names.insert_enlarge]
        exact ⟨rfl, .cons (Frame.Alike.refl _) hr⟩

end Stack.Alike

/-- a name that is taken leaves the stack alike -/
theorem checkName_taken {options : Options} {name : Bytes} {s : Stack}
    (h : (s.checkName options name).1 = false) : Stack.Alike s (s.checkName options name).2 := by
  unfold Stack.checkName at h ⊢
  split
  next hd =>
    rw [if_pos hd] at h
    exact nomatch h
  next hd =>
    rw [if_neg hd] at h
    cases s with
    | nil => exact .nil
    | cons f outer =>
      rw [Stack.insertName] at h ⊢
      rw [Names.insert_taken h]
      exact .cons (.inr rfl) (Stack.Alike.refl outer)

/-! ## like stacks, like tokens -/

/-- two cursors at one place, with like stacks -/
structure CursorAlike (c d : Cursor) : Prop where
  input : d.input = c.input
  pos : d.pos = c.pos
  stack : Stack.Alike c.stack d.stack

abbrev InStep {α : Type} (x : Scanner α) : Prop :=
  Simulates CursorAlike id (fun _ => True) id x x fun _ _ => True

theorem alike_onInput {α : Type} (x : Lex α) : InStep (onInput x) := by
  intro c d hR _
  refine ⟨?_, ⟨?_, hR.pos, hR.stack⟩, fun _ _ => trivial⟩
  · show (x d.input).1 = both id id (x c.input).1
    rw [hR.input]
    cases (x c.input).1 <;> rfl
  · show (x d.input).2 = (x c.input).2
    rw [hR.input]

theorem alike_pure {α : Type} (a : α) : InStep (pure a) := simulates_pure a fun _ _ => trivial

theorem alike_fail {α : Type} (e : Error) : InStep (fail e : Scanner α) := simulates_fail e

theorem alike_bind {α β : Type} {x : Scanner α} {k : α → Scanner β} (hx : InStep x)
    (hk : ∀ a, InStep (k a)) : InStep (x >>= k) :=
  simulates_bind hx hk

theorem alike_change {g : Cursor → Cursor} (h : ∀ c d, CursorAlike c d → CursorAlike (g c) (g d)) :
    InStep (change g) :=
  simulates_change (fun c d hR _ => h c d hR) fun _ _ => trivial

/-- what goes on with the stack goes on alike for like stacks -/
theorem alike_stack {β : Type} {k : Stack → Scanner β} (hk : ∀ s t, Stack.Alike s t → k t = k s)
    (h : ∀ s, InStep (k s)) : InStep (read Cursor.stack >>= k) := by
  intro c d hR _
  show (k d.stack d).1 = both id id (k c.stack c).1 ∧ CursorAlike (k c.stack c).2 (k d.stack d).2 ∧ _
  rw [hk c.stack d.stack hR.stack]
  exact h c.stack c d hR trivial

theorem alike_closeContainer (kind : Kind) (start : Nat) : InStep (closeContainer kind start) := by
  refine alike_stack ?_ ?_
  · intro s t h
    rw [closes, closes, h.topKind, h.expectsName]
  · intro s
    split
    next =>
      refine alike_bind (alike_change fun c d hR => ?_) fun _ => alike_pure _
      exact ⟨hR.input, rfl, hR.stack.tail⟩
    next => exact alike_onInput _

theorem alike_enterName (options : Options) (start : Nat) (name : Bytes) :
    InStep (enterName options start name) := by
  intro c d hR _
  obtain ⟨hfree, halike⟩ := hR.stack.checkName options name
  have hrun : ∀ c : Cursor, enterName options start name c =
      if (c.stack.checkName options name).1 then
        (.ok (), { c with stack := ((c.stack.checkName options name).2).setName name })
      else (.error (Error.duplicate start (appendPointer "" name)),
        { c with stack := (c.stack.checkName options name).2 }) := by
    intro c
    show (if (c.stack.checkName options name).1 then _ else _ : Scanner Unit) _ = _
    split <;> rfl
  rw [hrun c, hrun d, hfree]
  split
  next => exact ⟨rfl, ⟨hR.input, hR.pos, halike.setName name⟩, fun _ _ => trivial⟩
  next => exact ⟨rfl, ⟨hR.input, hR.pos, halike⟩, fun _ _ => trivial⟩

theorem alike_advance (kind : Kind) (stop : Nat) : InStep (change (advance kind stop)) := by
  refine alike_change ?_
  intro c d hR
  refine ⟨hR.input, rfl, ?_⟩
  show Stack.Alike (if kind.isBegin then _ else _) (if kind.isBegin then _ else _)
  split
  next => exact .cons (Frame.Alike.refl _) hR.stack.countOne
  next => exact hR.stack.countOne

theorem delimiter_alike {f g : Frame} (h : Frame.Alike f g) (i : Nat) : delimiter g i = delimiter f i := by
  rcases h with rfl | rfl <;> rfl

theorem prepareInner_alike {s t : Stack} (h : Stack.Alike s t) (pos : Nat) :
    prepareInner pos t = prepareInner pos s := by
  cases h with
  | nil => rfl
  | cons hf hr =>
    unfold prepareInner
    simp only [delimiter_alike hf]

theorem prepare_alike {s t : Stack} (h : Stack.Alike s t) (pos : Nat) : prepare pos t = prepare pos s := by
  rw [prepare, prepare, prepareInner_alike h, h.pointer]

/-- what `next` does with the stack it has read -/
def nextWith (options : Options) (baseDepth : Nat) (keep : Bool) (pos : Nat) (stack : Stack) :
    Scanner (Token × Nat) := do
  let start ← onInput (prepareInner pos stack)
  match ← onInput (Input.atIndex start) with
  | none => fail (if stack = [] then .eof else Error.truncated start "")
  | some b =>
    let kind := Kind.fromByte b
    if kind.isEnd then closeContainer kind start
    else if stack.expectsName ∧ kind ≠ .string then
      fail (Error.syntaxAt start "" "object member name must be a string")
    else if kind.isBegin ∧ 10000 ≤ baseDepth + stack.length then
      fail (Error.syntaxAt start "" "exceeded max depth")
    else do
      let scanned ← onInput (scanToken kind start options (keep || stack.expectsName))
      if stack.expectsName then do
        enterName options start scanned.1.text
        change (advance kind scanned.2)
        pure (scanned.1, start)
      else do
        change (advance kind scanned.2)
        pure (scanned.1, start)

theorem nextWith_alike (options : Options) (baseDepth : Nat) (keep : Bool) (pos : Nat) {s t : Stack}
    (h : Stack.Alike s t) :
    nextWith options baseDepth keep pos t = nextWith options baseDepth keep pos s := by
  unfold nextWith
  rw [prepareInner_alike h]
  simp only [h.expectsName, h.length, h.eq_nil]

theorem alike_nextWith (options : Options) (baseDepth : Nat) (keep : Bool) (pos : Nat) (stack : Stack) :
    InStep (nextWith options baseDepth keep pos stack) := by
  refine alike_bind (alike_onInput _) fun start => alike_bind (alike_onInput _) fun r => ?_
  cases r with
  | none => exact alike_fail _
  | some b =>
    dsimp only
    split
    next => exact alike_closeContainer _ _
    split
    next => exact alike_fail _
    split
    next => exact alike_fail _
    refine alike_bind (alike_onInput _) fun scanned => ?_
    split
    next =>
      exact alike_bind (alike_enterName _ _ _) fun _ =>
        alike_bind (alike_advance _ _) fun _ => alike_pure _
    next => exact alike_bind (alike_advance _ _) fun _ => alike_pure _

theorem alike_next (options : Options) (baseDepth : Nat) (keep : Bool) :
    InStep (next options baseDepth keep) := by
  have hinner : InStep (nextInner options baseDepth keep) := by
    refine simulates_bind (f := id) (Q := fun _ _ => True)
      (simulates_read (fun c d hR _ => hR.pos) fun _ _ _ _ => trivial) fun pos => ?_
    exact alike_stack (fun s t h => nextWith_alike options baseDepth keep pos h)
      fun s => alike_nextWith options baseDepth keep pos s
  refine simulates_mapError hinner ?_
  intro c d e hR
  show e.within _ = e.within _
  rw [hR.stack.pointer]

/-! ## failed tokens -/

/-- a failure leaves the position, and the stack up to its tables -/
def Undoes {α : Type} (x : Scanner α) : Prop :=
  ∀ c e c', x c = (.error e, c') → c'.pos = c.pos ∧ Stack.Alike c.stack c'.stack

section
variable {α β : Type}

theorem undoes_fail (e : Error) : Undoes (fail e : Scanner α) := by
  intro c e c' h
  cases h
  exact ⟨rfl, Stack.Alike.refl _⟩

theorem undoes_onInput (x : Lex α) : Undoes (onInput x) := by
  intro c e c' h
  obtain ⟨inp, -, rfl⟩ := onPart_eq_error h
  exact ⟨rfl, Stack.Alike.refl _⟩

theorem undoes_read_bind {g : Cursor → α} {k : α → Scanner β} (hk : ∀ a, Undoes (k a)) :
    Undoes (read g >>= k) :=
  fun c e c' h => hk (g c) c e c' h

/-- reading ahead needs no undoing -/
theorem undoes_onInput_bind {x : Lex α} {k : α → Scanner β} (hk : ∀ a, Undoes (k a)) :
    Undoes (onInput x >>= k) := by
  intro c e c' h
  rcases bind_eq_error h with h | ⟨a, c1, h1, h2⟩
  · exact undoes_onInput x c e c' h
  · obtain ⟨inp, -, rfl⟩ := onPart_eq_ok h1
    exact hk a ⟨inp, c.pos, c.stack⟩ e c' h2

/-- the last step that can fail -/
theorem undoes_bind_of_ok {x : Scanner α} {k : α → Scanner β} (hx : Undoes x)
    (hk : ∀ a c e c', k a c ≠ (.error e, c')) : Undoes (x >>= k) := by
  intro c e c' h
  rcases bind_eq_error h with h | ⟨a, c1, -, h2⟩
  · exact hx c e c' h
  · exact absurd h2 (hk a c1 e c')

theorem undoes_enterName (options : Options) (start : Nat) (name : Bytes) :
    Undoes (enterName options start name) := by
  intro c e c' h
  change (if (c.stack.checkName options name).1 then _ else _ : Scanner Unit) _ = _ at h
  split at h
  next => exact nomatch h
  next hfree =>
    cases h
    exact ⟨rfl, checkName_taken (by simpa using hfree)⟩

theorem undoes_next (options : Options) (baseDepth : Nat) (keep : Bool) :
    Undoes (next options baseDepth keep) := by
  have hend : ∀ (f : Cursor → Cursor) (r : Token × Nat) c e c',
      (do change f; pure r : Scanner (Token × Nat)) c ≠ (.error e, c') :=
    nofun
  have hinner : Undoes (nextInner options baseDepth keep) := by
    refine undoes_read_bind fun pos => undoes_read_bind fun stack => ?_
    refine undoes_onInput_bind fun start => undoes_onInput_bind fun r => ?_
    cases r with
    | none => exact undoes_fail _
    | some b =>
      dsimp only
      split
      next =>
        refine undoes_read_bind fun stack => ?_
        split
        next => exact nofun
        next => exact undoes_onInput _
      split
      next => exact undoes_fail _
      split
      next => exact undoes_fail _
      refine undoes_onInput_bind fun scanned => ?_
      split
      next => exact undoes_bind_of_ok (undoes_enterName _ _ _) fun _ => hend _ _
      next => exact fun c e c' h => absurd h (hend _ _ c e c')
  intro c e c' h
  obtain ⟨e1, h1, -⟩ := mapError_eq_error h
  exact hinner c e1 c' h1

end

/-! ## the slice stays as it is -/

section
variable {whole : Bytes} {α : Type}

/-- the input is a slice with these bytes, after an error too -/
abbrev OnSlice {α : Type} (whole : Bytes) (P : Prop) (x : Scanner α) (Q : α → Prop) : Prop :=
  Keeps (fun c : Cursor => Slice whole c.input) (fun _ => P) x fun a _ => Q a

theorem onSlice_onInput {x : Lex α} {P : Prop} {Q : α → Prop} (h : P → Finds whole False x Q) :
    OnSlice whole P (onInput x) Q := by
  intro c hc hP
  obtain ⟨h1, -, h3⟩ := h hP c.input hc
  exact ⟨h1, fun a ha => h3 a ha fun hf => hf.elim⟩

theorem onSlice_change {P : Prop} {g : Cursor → Cursor} (h : ∀ c, (g c).input = c.input) :
    OnSlice whole P (change g) fun _ => True :=
  keeps_change (fun c hc _ => by rw [h c]; exact hc) fun _ _ _ => trivial

theorem onSlice_pure {P : Prop} (a : α) : OnSlice whole P (pure a) fun _ => True :=
  keeps_pure a fun _ _ _ => trivial

theorem onSlice_enterName {P : Prop} (options : Options) (start : Nat) (name : Bytes) :
    OnSlice whole P (enterName options start name) fun _ => True := by
  refine keeps_bind (Q := fun _ _ => True) (keeps_read fun _ _ _ => trivial) fun checked => ?_
  refine keeps_bind (Q := fun _ _ => True) (onSlice_change fun _ => rfl) fun _ => ?_
  split
  next => exact onSlice_change fun _ => rfl
  next => exact keeps_fail _

theorem onSlice_closeContainer {P : Prop} (kind : Kind) (start : Nat) :
    OnSlice whole P (closeContainer kind start) fun _ => True := by
  refine keeps_bind (Q := fun _ _ => True) (keeps_read fun _ _ _ => trivial) fun stack => ?_
  split
  next => exact keeps_bind (Q := fun _ _ => True) (onSlice_change fun _ => rfl) fun _ => onSlice_pure _
  next => exact onSlice_onInput fun _ => Input.finds_invalid _ _ _

theorem onSlice_next (options : Options) (baseDepth : Nat) (keep : Bool) :
    OnSlice whole True (next options baseDepth keep) fun _ => True := by
  have hinner : OnSlice whole True (nextInner options baseDepth keep) fun _ => True := by
    refine keeps_bind (Q := fun _ _ => True) (keeps_read fun _ _ _ => trivial) fun pos => ?_
    refine keeps_bind (Q := fun _ _ => True) (keeps_read fun _ _ _ => trivial) fun stack => ?_
    refine keeps_bind (onSlice_onInput fun _ => finds_prepareInner pos stack) fun start => ?_
    refine keeps_bind (onSlice_onInput fun _ => Input.finds_atIndex start) fun r => ?_
    cases r with
    | none => exact keeps_fail _
    | some b =>
      dsimp only
      split
      next => exact onSlice_closeContainer _ _
      split
      next => exact keeps_fail _
      split
      next => exact keeps_fail _
      refine keeps_bind (onSlice_onInput fun hb => finds_scanToken options _ hb) fun scanned => ?_
      split
      next =>
        refine keeps_bind (Q := fun _ _ => True) (onSlice_enterName _ _ _) fun _ => ?_
        exact keeps_bind (Q := fun _ _ => True) (onSlice_change fun _ => rfl) fun _ => onSlice_pure _
      next =>
        exact keeps_bind (Q := fun _ _ => True) (onSlice_change fun _ => rfl) fun _ => onSlice_pure _
  intro c hc hP
  obtain ⟨h1, -⟩ := hinner c hc hP
  refine ⟨?_, fun _ _ => trivial⟩
  show Slice whole (next options baseDepth keep c).2.input
  rw [next, mapError]
  rcases ends (nextInner options baseDepth keep) c with ⟨a, c', h⟩ | ⟨e, c', h⟩ <;> rw [h] at h1 ⊢ <;>
    exact h1

theorem onSlice_skipLoop (options : Options) (depth fuel : Nat) :
    OnSlice whole True (Decoder.skipLoop options depth fuel) fun _ => True := by
  induction fuel with
  | zero => exact onSlice_pure _
  | succ fuel ih =>
    refine keeps_bind (Q := fun _ _ => True) (keeps_read fun _ _ _ => trivial) fun stack => ?_
    split
    next => exact onSlice_pure _
    next => exact keeps_bind (onSlice_next options depth false) fun _ => ih

theorem onSlice_valueTokens (options : Options) (depth : Nat) :
    OnSlice whole True (Decoder.valueTokens options depth) fun _ => True := by
  refine keeps_bind (onSlice_next options depth true) fun first => ?_
  refine keeps_bind (Q := fun _ _ => True) (keeps_read fun _ _ _ => trivial) fun fuel => ?_
  refine keeps_bind (onSlice_skipLoop options depth fuel) fun _ => ?_
  exact keeps_bind (Q := fun _ _ => True) (keeps_read fun _ _ _ => trivial) fun stop => onSlice_pure _

end

/-! ## the decoder -/

namespace Decoder

/-- the same decoder, up to its tables of names -/
structure Alike (d e : Decoder) : Prop where
  input : e.input = d.input
  pos : e.pos = d.pos
  base : e.base = d.base
  stack : Stack.Alike d.stack e.stack
  options : e.options = d.options
  rootCount : e.rootCount = d.rootCount
  previousStart : e.previousStart = d.previousStart
  baseDepth : e.baseDepth = d.baseDepth

abbrev InStep {α : Type} (x : Op α) : Prop :=
  Simulates Alike id (fun _ => True) id x x fun _ _ => True

section
variable {α β : Type}

theorem inStep_pure (a : α) : InStep (pure a) := simulates_pure a fun _ _ => trivial

theorem inStep_bind {x : Op α} {k : α → Op β} (hx : InStep x) (hk : ∀ a, InStep (k a)) :
    InStep (x >>= k) :=
  simulates_bind hx hk

theorem inStep_read {g : Decoder → α} (h : ∀ d e, Alike d e → g e = g d) : InStep (read g) :=
  simulates_read (fun d e hR _ => h d e hR) fun _ _ _ _ => trivial

theorem inStep_change {g : Decoder → Decoder} (h : ∀ d e, Alike d e → Alike (g d) (g e)) :
    InStep (change g) :=
  simulates_change (fun d e hR _ => h d e hR) fun _ _ => trivial

theorem inStep_stack {k : Stack → Op β} (hk : ∀ s t, Stack.Alike s t → k t = k s)
    (h : ∀ s, InStep (k s)) : InStep (read Decoder.stack >>= k) := by
  intro d e hR _
  show (k e.stack e).1 = both id id (k d.stack d).1 ∧ Alike (k d.stack d).2 (k e.stack e).2 ∧ _
  rw [hk d.stack e.stack hR.stack]
  exact h d.stack d e hR trivial

theorem inStep_lex (x : Lex α) : InStep (lex x) := by
  intro d e hR _
  refine ⟨?_, { hR with input := ?_ }, fun _ _ => trivial⟩
  · show (x e.input).1 = both id id (x d.input).1
    rw [hR.input]
    cases (x d.input).1 <;> rfl
  · show (x e.input).2 = (x d.input).2
    rw [hR.input]

theorem inStep_scan {x : Scanner α} (h : Json.InStep x) : InStep (scan x) := by
  intro d e hR _
  obtain ⟨h1, h2, -⟩ := h ⟨d.input, d.pos, d.stack⟩ ⟨e.input, e.pos, e.stack⟩
    ⟨hR.input, hR.pos, hR.stack⟩ trivial
  exact ⟨h1, { hR with input := h2.input, pos := h2.pos, stack := h2.stack }, fun _ _ => trivial⟩

/-- a cursor of its own starts without a stack, so both sides do the same -/
theorem inStep_scanFrom (start : Nat) (x : Scanner α) : InStep (scanFrom start x) := by
  intro d e hR _
  refine ⟨?_, { hR with input := ?_ }, fun _ _ => trivial⟩
  · show (x ⟨e.input, start, []⟩).1 = both id id (x ⟨d.input, start, []⟩).1
    rw [hR.input]
    cases (x ⟨d.input, start, []⟩).1 <;> rfl
  · show (x ⟨e.input, start, []⟩).2.input = (x ⟨d.input, start, []⟩).2.input
    rw [hR.input]

theorem inStep_absoluteError {x : Op α} (h : InStep x) : InStep (absoluteError x) := by
  refine simulates_mapError h ?_
  intro d e err hR
  show err.moveBy e.base = err.moveBy d.base
  rw [hR.base]

theorem inStep_tokenHere : InStep tokenHere := by
  refine inStep_stack (fun s t h => ?_) fun stack => ?_
  · simp only [h.isEmpty]
  · refine inStep_bind (inStep_read fun _ _ hR => hR.options) fun options => ?_
    refine inStep_bind (inStep_read fun _ _ hR => hR.baseDepth) fun baseDepth => ?_
    refine inStep_bind (inStep_absoluteError (inStep_scan (alike_next options baseDepth true))) ?_
    rintro ⟨token, start⟩
    refine inStep_bind (inStep_change fun d e hR => ?_) fun _ => inStep_pure _
    refine { hR with rootCount := ?_, previousStart := ?_ }
    · simp only [afterToken, hR.rootCount]
    · simp only [afterToken, hR.base]

/-- what `valueName` does with the stack it has read -/
theorem inStep_valueName (start : Nat) (first : Token) : InStep (valueName start first) := by
  cases first with
  | string name =>
    intro d e hR _
    obtain ⟨hfree, halike⟩ := hR.stack.checkName d.options name
    have hrun : ∀ d : Decoder, valueName start (.string name) d =
        if (d.stack.checkName d.options name).1 then
          (.ok (), { d with stack := ((d.stack.checkName d.options name).2.setName name).countOne })
        else (.error (Error.duplicate (d.base + start)
            (appendPointer (pointer true (d.stack.checkName d.options name).2) name)),
          { d with stack := (d.stack.checkName d.options name).2 }) := by
      intro d
      show (if (d.stack.checkName d.options name).1 then _ else _ : Op Unit) _ = _
      split <;> rfl
    rw [hrun d, hrun e, hR.options, hfree, hR.base, halike.pointer]
    split
    next =>
      exact ⟨rfl, { hR with base := rfl, options := rfl, stack := (halike.setName name).countOne },
        fun _ _ => trivial⟩
    next =>
      exact ⟨rfl, { hR with base := rfl, options := rfl, stack := halike }, fun _ _ => trivial⟩
  | _ =>
    refine inStep_stack (fun s t h => ?_) fun stack => ?_
    · simp only [h.pointer]
    · exact inStep_bind (inStep_read fun _ _ hR => hR.base) fun base => simulates_fail _

theorem inStep_rangeHere : InStep rangeHere := by
  refine inStep_bind (inStep_read fun _ _ hR => hR.pos) fun pos => ?_
  refine inStep_stack (fun s t h => ?_) fun stack => ?_
  · have herror : ∀ start e, valueError start t e = valueError start s e := by
      intro start e
      rw [valueError, valueError, h.pointer]
      simp only [ne_eq, h.eq_nil]
    simp only [prepare_alike h, herror, h.expectsName]
  · refine inStep_bind (inStep_absoluteError (inStep_lex _)) fun start => ?_
    refine inStep_bind (inStep_read fun _ _ hR => hR.options) fun options => ?_
    refine inStep_bind (inStep_read fun _ _ hR => ?_) fun depth => ?_
    · rw [hR.baseDepth, hR.stack.length]
    refine inStep_bind (inStep_absoluteError (simulates_mapError (inStep_scanFrom start _)
      fun _ _ _ _ => rfl)) ?_
    rintro ⟨first, stop⟩
    have hend : InStep (do change (afterValue start stop); pure (start, stop)) := by
      refine inStep_bind (inStep_change fun d e hR => ?_) fun _ => inStep_pure _
      refine { hR with pos := rfl, previousStart := ?_ }
      simp only [afterValue, hR.base]
    dsimp only
    split
    next => exact inStep_bind (inStep_valueName start first) fun _ => hend
    next =>
      refine inStep_bind (inStep_change fun d e hR => ?_) fun _ => hend
      refine { hR with stack := hR.stack.countOne, rootCount := ?_ }
      simp only [countValue, hR.stack.isEmpty, hR.rootCount]

end

/-! ## failed calls -/

/-- what a failed call leaves behind `compact` -/
structure Left (d d' : Decoder) : Prop where
  pos : d'.pos = d.pos
  base : d'.base = d.base
  stack : Stack.Alike d.stack d'.stack
  options : d'.options = d.options
  rootCount : d'.rootCount = d.rootCount
  previousStart : d'.previousStart = d.previousStart
  baseDepth : d'.baseDepth = d.baseDepth

/-- a computation on the input leaves the rest -/
theorem left_input (d : Decoder) (inp : Input) : Left d { d with input := inp } :=
  ⟨rfl, rfl, Stack.Alike.refl _, rfl, rfl, rfl, rfl⟩

theorem left_tokenHere {d d' : Decoder} {e : Error} (h : tokenHere d = (.error e, d')) : Left d d' := by
  change (absoluteError (scan (next d.options d.baseDepth true)) >>= fun r => do
    change (afterToken r.2 d.stack.isEmpty)
    pure r.1 : Op Token) d = (.error e, d') at h
  rcases bind_eq_error h with h | ⟨r, d1, -, h2⟩
  · obtain ⟨e1, h, -⟩ := mapError_eq_error h
    obtain ⟨c, hc, rfl⟩ := onPart_eq_error h
    obtain ⟨hpos, hstack⟩ := undoes_next _ _ _ _ _ _ hc
    exact ⟨hpos, rfl, hstack, rfl, rfl, rfl, rfl⟩
  · exact nomatch h2

theorem left_valueName {start : Nat} {first : Token} {d d' : Decoder} {e : Error}
    (h : valueName start first d = (.error e, d')) : Left d d' := by
  cases first with
  | string name =>
    change (if (d.stack.checkName d.options name).1 then _ else _ : Op Unit) _ = _ at h
    split at h
    next => exact nomatch h
    next hfree =>
      cases h
      exact ⟨rfl, rfl, checkName_taken (by simpa using hfree), rfl, rfl, rfl, rfl⟩
  | _ =>
    cases h
    exact left_input d d.input

theorem left_rangeHere {d d' : Decoder} {e : Error} (h : rangeHere d = (.error e, d')) : Left d d' := by
  rw [rangeHere] at h
  rcases bind_eq_error h with h | ⟨pos, d1, h1, h⟩
  · cases h
  cases h1
  rcases bind_eq_error h with h | ⟨stack, d1, h1, h⟩
  · cases h
  cases h1
  rcases bind_eq_error h with h | ⟨start, d1, h1, h⟩
  · obtain ⟨e1, h, -⟩ := mapError_eq_error h
    obtain ⟨inp, -, rfl⟩ := onPart_eq_error h
    exact left_input d inp
  have h1 := mapError_eq_ok h1
  obtain ⟨inp, -, rfl⟩ := onPart_eq_ok h1
  rcases bind_eq_error h with h | ⟨options, d2, h2, h⟩
  · cases h
  cases h2
  rcases bind_eq_error h with h | ⟨depth, d3, h3, h⟩
  · cases h
  cases h3
  rcases bind_eq_error h with h | ⟨r, d4, h4, h⟩
  · obtain ⟨e1, h, -⟩ := mapError_eq_error h
    obtain ⟨e2, h, -⟩ := mapError_eq_error h
    obtain ⟨c, -, rfl⟩ := onPart_eq_error h
    exact left_input d c.input
  have h4 := mapError_eq_ok (mapError_eq_ok h4)
  obtain ⟨c, -, rfl⟩ := onPart_eq_ok h4
  obtain ⟨first, stop⟩ := r
  dsimp only at h
  split at h
  next =>
    rcases bind_eq_error h with h | ⟨u, d5, -, h⟩
    · have hleft := left_valueName h
      exact ⟨hleft.pos, hleft.base, hleft.stack, hleft.options, hleft.rootCount, hleft.previousStart,
        hleft.baseDepth⟩
    · cases h
  next => cases h

/-- `readValue` behind `compact` -/
def valueHere : Op Bytes := do
  let (start, stop) ← rangeHere
  lex (Input.slice start stop)

theorem left_valueHere {d d' : Decoder} {e : Error} (h : valueHere d = (.error e, d')) : Left d d' := by
  rcases bind_eq_error h with h | ⟨r, d1, -, h⟩
  · exact left_rangeHere h
  · exact nomatch h

theorem inStep_valueHere : InStep valueHere :=
  inStep_bind inStep_rangeHere fun _ => inStep_lex _

/-! ## failed calls over a slice -/

section
variable {whole : Bytes} {α : Type}

abbrev OnSlice (whole : Bytes) (x : Op α) : Prop :=
  Keeps (fun d : Decoder => Slice whole d.input) (fun _ => True) x fun _ _ => True

theorem onSlice_mapError {x : Op α} {g : Decoder → Error → Error} (h : OnSlice whole x) :
    OnSlice whole (mapError g x) := by
  intro d hd hP
  obtain ⟨h1, -⟩ := h d hd hP
  refine ⟨?_, fun _ _ => trivial⟩
  show Slice whole (mapError g x d).2.input
  rw [mapError]
  rcases ends x d with ⟨a, d', h⟩ | ⟨e, d', h⟩ <;> rw [h] at h1 ⊢ <;> exact h1

theorem onSlice_lex {x : Lex α} {Q : α → Prop} (h : Finds whole False x Q) : OnSlice whole (lex x) :=
  fun d hd _ => ⟨(h d.input hd).1, fun _ _ => trivial⟩

theorem onSlice_scan {x : Scanner α} (h : Json.OnSlice whole True x fun _ => True) :
    OnSlice whole (scan x) :=
  fun d hd _ => ⟨(h ⟨d.input, d.pos, d.stack⟩ hd trivial).1, fun _ _ => trivial⟩

theorem onSlice_scanFrom {x : Scanner α} (start : Nat) (h : Json.OnSlice whole True x fun _ => True) :
    OnSlice whole (scanFrom start x) :=
  fun d hd _ => ⟨(h ⟨d.input, start, []⟩ hd trivial).1, fun _ _ => trivial⟩

theorem onSlice_read (g : Decoder → α) : OnSlice whole (read g) := keeps_read fun _ _ _ => trivial

theorem onSlice_change {g : Decoder → Decoder} (h : ∀ d, (g d).input = d.input) :
    OnSlice whole (change g) :=
  keeps_change (fun d hd _ => by rw [h d]; exact hd) fun _ _ _ => trivial

theorem onSlice_tokenHere : OnSlice whole tokenHere := by
  refine keeps_bind (onSlice_read _) fun stack => keeps_bind (onSlice_read _) fun options =>
    keeps_bind (onSlice_read _) fun baseDepth => ?_
  refine keeps_bind (onSlice_mapError (onSlice_scan (onSlice_next options baseDepth true))) ?_
  rintro ⟨token, start⟩
  exact keeps_bind (onSlice_change fun _ => rfl) fun _ => keeps_pure _ fun _ _ _ => trivial

theorem onSlice_valueName (start : Nat) (first : Token) : OnSlice whole (valueName start first) := by
  refine keeps_bind (onSlice_read _) fun stack => keeps_bind (onSlice_read _) fun base => ?_
  cases first with
  | string name =>
    refine keeps_bind (onSlice_read _) fun options => keeps_bind (onSlice_read _) fun checked => ?_
    refine keeps_bind (onSlice_change fun _ => rfl) fun _ => ?_
    split
    next => exact onSlice_change fun _ => rfl
    next => exact keeps_fail _
  | _ => exact keeps_fail _

theorem onSlice_rangeHere : OnSlice whole rangeHere := by
  refine keeps_bind (onSlice_read _) fun pos => keeps_bind (onSlice_read _) fun stack => ?_
  have hprepare : OnSlice whole (lex (prepare pos stack)) := by
    intro d hd hP
    refine ⟨?_, fun _ _ => trivial⟩
    have h1 := (finds_prepareInner (p := False) pos stack d.input hd).1
    show Slice whole (prepare pos stack d.input).2
    rw [prepare, mapError]
    rcases ends (prepareInner pos stack) d.input with ⟨a, t, h⟩ | ⟨e, t, h⟩ <;> rw [h] at h1 ⊢ <;>
      exact h1
  refine keeps_bind (onSlice_mapError hprepare) fun start => ?_
  refine keeps_bind (onSlice_read _) fun options => keeps_bind (onSlice_read _) fun depth => ?_
  refine keeps_bind (onSlice_mapError (onSlice_mapError (onSlice_scanFrom start
    (onSlice_valueTokens options depth)))) ?_
  rintro ⟨first, stop⟩
  have hend : OnSlice whole (do change (afterValue start stop); pure (start, stop)) :=
    keeps_bind (onSlice_change fun _ => rfl) fun _ => keeps_pure _ fun _ _ _ => trivial
  dsimp only
  split
  next => exact keeps_bind (onSlice_valueName start first) fun _ => hend
  next => exact keeps_bind (onSlice_change fun _ => rfl) fun _ => hend

theorem onSlice_valueHere : OnSlice whole valueHere :=
  keeps_bind onSlice_rangeHere fun _ =>
    onSlice_lex (Q := fun _ => True) (finds_read fun _ _ => trivial)

end

/-- a failed call over the whole input, but for the tables of names -/
theorem Left.tracks {e e' : Decoder} (h : Left e e') (hbase : e.base = 0)
    (hs : Slice e.input.bytes e.input) (hs' : Slice e.input.bytes e'.input)
    (hpos : e.pos ≤ e.input.bytes.length) : Tracks 0 e { e' with stack := e.stack } := by
  obtain ⟨hbytes, heof, hreader⟩ := hs'
  obtain ⟨-, heof1, hreader1⟩ := hs
  exact
    { offset := hbase
      whole := h.base.trans hbase
      input :=
        { text := by
            show e.input.bytes ++ e.input.reader.flatMap ReadResult.bytes = e'.input.bytes.drop 0
            rw [hreader1, hbytes]
            simp
          buffered := hpos
          reaches := Nat.zero_le _
          ended := heof
          empty := hreader
          exhausted := fun _ => by rw [Input.ahead, hreader1]; rfl
          steady := fun r hr => by rw [hreader1] at hr; cases hr }
      pos := by rw [Nat.zero_add]; exact h.pos
      stack := rfl
      options := h.options
      rootCount := h.rootCount
      previousStart := h.previousStart
      baseDepth := h.baseDepth }

/-! ## failed calls over a reader -/

/-- a decoder as calls leave it, over a reader that does not fail -/
structure Steady (d : Decoder) : Prop where
  buffered : d.pos ≤ d.input.bytes.length
  exhausted : d.input.eof = true → d.input.ahead = []
  steady : ∀ r ∈ d.input.reader, r.isFailed = false

theorem Steady.of_tracks {base : Nat} {d e : Decoder} (h : Tracks base d e) : Steady d :=
  ⟨h.input.buffered, h.input.exhausted, h.input.steady⟩

/-- the decoder over the complete slice, at the same place -/
theorem Steady.tracks {d : Decoder} (h : Steady d) : ∃ e, Tracks d.base d e := by
  refine ⟨{ d with
    input := ⟨[], List.replicate d.base 0 ++ (d.input.bytes ++ d.input.ahead), true, false⟩
    pos := d.base + d.pos, base := 0 }, rfl, rfl, ?_, rfl, rfl, rfl, rfl, rfl, rfl⟩
  refine ⟨?_, h.buffered, ?_, rfl, rfl, h.exhausted, h.steady⟩
  · show _ = List.drop _ _
    rw [List.drop_left' (List.length_replicate)]
  · show d.base ≤ List.length _
    rw [List.length_append, List.length_replicate]
    exact Nat.le_add_right _ _

/-- calls keep it, and a new decoder is one -/
theorem Steady.perform {d : Decoder} (h : Steady d) (call : Call) : Steady (perform call d).2 := by
  obtain ⟨e, he⟩ := h.tracks
  obtain ⟨-, base', h'⟩ := perform_tracks call he
  exact Steady.of_tracks h'

theorem steady_start {reader : List ReadResult} (h : ∀ r ∈ reader, r.isFailed = false)
    (options : Options) : Steady (withOptions reader options) :=
  ⟨Nat.zero_le _, nofun, h⟩

theorem tracks_pos_le {base : Nat} {d e : Decoder} (h : Tracks base d e) :
    e.pos ≤ e.input.bytes.length := by
  have ht : d.input.bytes ++ d.input.ahead = e.input.bytes.drop base := h.input.text
  have hl := congrArg List.length ht
  rw [List.length_append, List.length_drop] at hl
  have h3 := h.pos
  have h4 := h.input.buffered
  have h5 := h.input.reaches
  omega

theorem compact_of_ended {e : Decoder} (h : e.input.eof = true) : e.compact = e := by
  rw [compact, if_neg]
  rintro ⟨-, hn⟩
  rw [h] at hn
  cases hn

/-- the decoder over the slice behind a failed call, which is alike to one that the call left alone -/
theorem tracks_failed {α : Type} {x : Op α} {Q : α → Decoder → Prop}
    (hsame : ∀ base, Same base (fun _ => True) id x x Q) (hslice : ∀ whole, OnSlice whole x)
    (hleft : ∀ {d d' e}, x d = (.error e, d') → Left d d') {base : Nat} {d d' e : Decoder} {err : Error}
    (he : Tracks base d e) (h : x d = (.error err, d')) :
    ∃ e', Tracks base d' e' ∧ Alike { e' with stack := e.stack } e' ∧
      Tracks 0 e { e' with stack := e.stack } := by
  obtain ⟨h1, h2, -⟩ := hsame base d e he trivial
  rw [h] at h1 h2
  have hl : Left e (x e).2 := hleft (Prod.ext h1 rfl)
  have hs : Slice e.input.bytes e.input := ⟨rfl, he.input.ended, he.input.empty⟩
  exact ⟨_, h2, ⟨rfl, rfl, rfl, hl.stack, rfl, rfl, rfl, rfl⟩,
    hl.tracks he.whole hs (hslice e.input.bytes e hs trivial).1 (tracks_pos_le he)⟩

/-- **A failed call fails again**, with the same error. -/
theorem retry_call {α : Type} {x : Op α} {Q : α → Decoder → Prop}
    (hsame : ∀ base, Same base (fun _ => True) id x x Q) (hstep : InStep x)
    (hslice : ∀ whole, OnSlice whole x) (hleft : ∀ {d d' e}, x d = (.error e, d') → Left d d')
    {d d' : Decoder} {err : Error} (hd : Steady d) (h : x d.compact = (.error err, d')) :
    (x d'.compact).1 = .error err := by
  obtain ⟨e, he⟩ := hd.tracks
  obtain ⟨base', hc⟩ := tracks_compact he
  rw [compact_of_ended he.input.ended] at hc
  obtain ⟨e', h1, halike, h2⟩ := tracks_failed hsame hslice hleft hc h
  obtain ⟨hagain, -⟩ := tracks_of_same hsame h1
  obtain ⟨h3, -⟩ := hstep _ _ halike trivial
  obtain ⟨h4, -⟩ := hsame 0 _ _ h2 trivial
  obtain ⟨h5, -⟩ := hsame base' _ _ hc trivial
  rw [hagain, compact_of_ended h1.input.ended, h3, h4, h5, h]
  rfl

/-- the grammar, the names and the position are as they were -/
structure Unmoved (d d' : Decoder) : Prop where
  stack : d'.stack.map Frame.shape = d.stack.map Frame.shape
  rootCount : d'.rootCount = d.rootCount
  inputOffset : d'.inputOffset = d.inputOffset

theorem unmoved_of_left {d d' : Decoder} (h : Left d.compact d') : Unmoved d d' := by
  have hoffset : d.compact.inputOffset = d.inputOffset := by
    unfold compact
    split <;> rfl
  have hstack : d.compact.stack = d.stack := by
    unfold compact
    split <;> rfl
  have hroot : d.compact.rootCount = d.rootCount := by
    unfold compact
    split <;> rfl
  refine ⟨?_, h.rootCount.trans hroot, ?_⟩
  · rw [h.stack.shapes, hstack]
  · rw [← hoffset, inputOffset, inputOffset, h.pos, h.base]

/-! ## runs with failed calls -/

/-- `skipValue` behind `compact` -/
def skipHere : Op Unit := do
  let _ ← rangeHere
  pure ()

theorem inStep_finish : InStep finish := by
  refine inStep_bind (inStep_read fun _ _ hR => hR.pos) fun pos =>
    inStep_bind (inStep_lex _) fun p => inStep_bind (inStep_lex _) fun b => ?_
  split
  next => exact inStep_absoluteError (inStep_lex _)
  next => exact inStep_pure _

theorem inStep_peekKind : InStep peekKind := by
  refine inStep_bind (inStep_change fun d e hR => { hR with previousStart := rfl }) fun _ =>
    inStep_bind (inStep_read fun _ _ hR => hR.pos) fun pos => inStep_stack (fun s t h => ?_) fun s => ?_
  · simp only [prepare_alike h]
  · refine simulates_bind (f := Option.map id) (@simulates_attempt _ _ _ _ _ _ _ _ _ _ _ _ _ _
      (fun _ _ => True) (inStep_lex (prepare pos s >>= Input.atIndex)) (fun _ _ _ => trivial)
      fun _ => trivial) fun b => ?_
    rw [Option.map_id]
    cases b with
    | none => exact inStep_pure _
    | some b => cases b <;> exact inStep_pure _

theorem Alike.compact {d e : Decoder} (h : Alike d e) : Alike d.compact e.compact := by
  unfold Decoder.compact
  rw [h.pos, h.input]
  split
  next => exact { h with input := rfl, base := by rw [h.base], pos := rfl }
  next => exact h

/-- like decoders answer alike -/
theorem perform_alike (call : Call) {d e : Decoder} (h : Alike d e) :
    (perform call e).1 = (perform call d).1 ∧ Alike (perform call d).2 (perform call e).2 := by
  have same : ∀ {α : Type} {x : Op α} {d e : Decoder}, InStep x → Alike d e →
      (x e).1 = (x d).1 ∧ Alike (x d).2 (x e).2 := by
    intro α x d e hx h
    obtain ⟨h1, h2, -⟩ := hx d e h trivial
    refine ⟨?_, h2⟩
    rw [h1]
    cases (x d).1 <;> rfl
  have hskip : InStep skipHere := inStep_bind inStep_rangeHere fun _ => inStep_pure _
  cases call with
  | readToken => exact (same inStep_tokenHere h.compact).imp_left (congrArg Answer.token)
  | readValue => exact (same inStep_valueHere h.compact).imp_left (congrArg Answer.value)
  | skipValue => exact (same hskip h.compact).imp_left (congrArg Answer.done)
  | peekKind => exact (same inStep_peekKind h).imp_left (congrArg Answer.kind)
  | finish => exact (same inStep_finish h).imp_left (congrArg Answer.done)

theorem run_alike (calls : List Call) {d e : Decoder} (h : Alike d e) : run calls e = run calls d := by
  induction calls generalizing d e with
  | nil => rfl
  | cons call calls ih =>
    obtain ⟨hanswer, halike⟩ := perform_alike call h
    rw [run, run, hanswer, ih halike, inputOffset, inputOffset, halike.base, halike.pos]

/-- the answer is an error -/
def Answer.failed : Answer → Bool
  | .token (.error _) => true
  | .value (.error _) => true
  | .done (.error _) => true
  | .kind (.error _) => true
  | _ => false

section
variable {d d' : Decoder} {err : Error}

theorem left_skipHere (h : skipHere d = (.error err, d')) : Left d d' := by
  rcases bind_eq_error h with h | ⟨r, d1, -, h⟩
  · exact left_rangeHere h
  · exact nomatch h

theorem left_finish (h : finish d = (.error err, d')) : Left d d' := by
  rcases bind_eq_error h with h | ⟨pos, d1, h1, h⟩
  · exact nomatch h
  cases h1
  rcases bind_eq_error h with h | ⟨p, d1, h1, h⟩
  · obtain ⟨inp, -, rfl⟩ := onPart_eq_error h
    exact left_input d inp
  obtain ⟨inp, -, rfl⟩ := onPart_eq_ok h1
  rcases bind_eq_error h with h | ⟨b, d2, h2, h⟩
  · obtain ⟨inp, -, rfl⟩ := onPart_eq_error h
    exact left_input d inp
  obtain ⟨inp', -, rfl⟩ := onPart_eq_ok h2
  split at h
  next =>
    obtain ⟨e1, h, -⟩ := mapError_eq_error h
    obtain ⟨inp, -, rfl⟩ := onPart_eq_error h
    exact left_input d inp
  next => exact nomatch h

end

theorem onSlice_finish {whole : Bytes} : OnSlice whole finish := by
  refine keeps_bind (onSlice_read _) fun pos => ?_
  refine keeps_bind (onSlice_lex (Input.finds_space (p := False) pos)) fun p => ?_
  refine keeps_bind (onSlice_lex (Input.finds_atIndex (p := False) p)) fun b => ?_
  split
  next => exact onSlice_mapError (onSlice_lex (Q := fun _ => True)
    (Input.finds_invalid (p := False) _ _ _))
  next => exact keeps_pure _ fun _ _ _ => trivial

theorem onSlice_skipHere {whole : Bytes} : OnSlice whole skipHere :=
  keeps_bind onSlice_rangeHere fun _ => keeps_pure _ fun _ _ _ => trivial

theorem peekKind_ok (d : Decoder) : ∃ kind, (peekKind d).1 = .ok kind := by
  rcases ends peekKind d with ⟨kind, d', h⟩ | ⟨err, d', h⟩
  · exact ⟨kind, congrArg Prod.fst h⟩
  rcases bind_eq_error h with h | ⟨u, d1, -, h⟩
  · cases h
  rcases bind_eq_error h with h | ⟨pos, d1, -, h⟩
  · cases h
  rcases bind_eq_error h with h | ⟨stack, d1, -, h⟩
  · cases h
  rcases bind_eq_error h with h | ⟨b, d1, -, h⟩
  · unfold attempt at h
    split at h <;> cases h
  · split at h <;> cases h

/-- **A call that fails is not seen by later calls**, over a reader that does not fail. -/
theorem run_behind_failed {call : Call} {d : Decoder} (hd : Steady d)
    (h : (perform call d).1.failed = true) (calls : List Call) :
    run calls (perform call d).2 = run calls d := by
  obtain ⟨e, he⟩ := hd.tracks
  obtain ⟨base', hc⟩ := tracks_compact he
  rw [compact_of_ended he.input.ended] at hc
  have behind : ∀ {α : Type} {x : Op α} {Q : α → Decoder → Prop} {base : Nat} {c : Decoder}
      (answer : Except Error α → Answer), (∀ a, (answer (.ok a)).failed = false) → Tracks base c e →
      (∀ base, Same base (fun _ => True) id x x Q) → (∀ whole, OnSlice whole x) →
      (∀ {d d' e}, x d = (.error e, d') → Left d d') → (answer (x c).1).failed = true →
      run calls (x c).2 = run calls d := by
    intro α x Q base c answer hok hc hsame hslice hleft hfail
    rcases hx : x c with ⟨r, d'⟩
    cases r with
    | ok a =>
      rw [hx, hok] at hfail
      cases hfail
    | error err =>
      obtain ⟨e', h1, halike, h2⟩ := tracks_failed hsame hslice hleft hc hx
      rw [run_tracks calls h1, run_alike calls halike, ← run_tracks calls h2, run_tracks calls he]
  cases call with
  | readToken =>
    exact behind (x := tokenHere) .token (fun _ => rfl) hc (fun _ => same_tokenHere)
      (fun _ => onSlice_tokenHere) left_tokenHere h
  | readValue =>
    exact behind (x := valueHere) .value (fun _ => rfl) hc (fun _ => same_valueHere)
      (fun _ => onSlice_valueHere) left_valueHere h
  | skipValue =>
    exact behind (x := skipHere) (Q := fun _ _ => True) .done (fun _ => rfl) hc
      (fun _ => simulates_bind same_rangeHere fun _ => simulates_pure () fun _ _ => trivial)
      (fun _ => onSlice_skipHere) left_skipHere h
  | finish =>
    exact behind .done (fun _ => rfl) he (fun _ => same_finish) (fun _ => onSlice_finish) left_finish h
  | peekKind =>
    -- a failure inside is answered with the kind `invalid`
    obtain ⟨kind, hk⟩ := peekKind_ok d
    rw [perform, hk] at h
    cases h

/-- the calls of a run that do not fail -/
def succeeding : List Call → Decoder → List Call
  | [], _ => []
  | call :: calls, d =>
    if (perform call d).1.failed then succeeding calls (perform call d).2
    else call :: succeeding calls (perform call d).2

theorem run_succeeding {d : Decoder} (calls : List Call) (hd : Steady d) :
    run (succeeding calls d) d = (run calls d).filter fun answer => !answer.1.failed := by
  induction calls generalizing d with
  | nil => rfl
  | cons call calls ih =>
    rw [succeeding, run, List.filter_cons]
    cases h : (perform call d).1.failed with
    | true =>
      rw [if_pos rfl, if_neg (by simp), ← ih (hd.perform call), run_behind_failed hd h]
    | false =>
      rw [if_neg (by simp), if_pos (by simp), run, ih (hd.perform call)]

/-- **Failed calls leave no trace.**  Over a reader that does not fail, the calls of any sequence that
do not fail have the same answers and offsets when the others are left out. -/
theorem failures_unseen (reader : List ReadResult) (options : Options) (calls : List Call)
    (h : ∀ r ∈ reader, r.isFailed = false) :
    run (succeeding calls (withOptions reader options)) (withOptions reader options) =
      (run calls (withOptions reader options)).filter fun answer => !answer.1.failed :=
  run_succeeding calls (steady_start h options)

/-- `finish` fails inside the array, and `readToken` reads its number all the same -/
theorem failures_unseen_pieces :
    (∀ r ∈ pieces, r.isFailed = false) ∧
    succeeding [.readToken, .finish, .readToken] (withOptions pieces ⟨none, none, none, none⟩) =
      [.readToken, .readToken] ∧
    run (succeeding [.readToken, .finish, .readToken] (withOptions pieces ⟨none, none, none, none⟩))
        (withOptions pieces ⟨none, none, none, none⟩) =
      (run [.readToken, .finish, .readToken] (withOptions pieces ⟨none, none, none, none⟩)).filter
        fun answer => !answer.1.failed := by
  have h : ∀ r ∈ pieces, r.isFailed = false := by simp [pieces, ReadResult.isFailed]
  exact ⟨h, by decide +kernel, failures_unseen _ _ _ h⟩

end Decoder

/-! ## the encoder -/

namespace Encoder

/-- a refused token leaves the stack alike, and text behind what was there -/
theorem appendToken_failed {token : Token} {e e' : Encoder} {err : Error}
    (h : appendToken token e = (.error err, e')) :
    Stack.Alike e.stack e'.stack ∧ e'.rootCount = e.rootCount ∧ e.bytes <+: e'.bytes := by
  rcases bind_eq_error h with h | ⟨x, e1, h1, h⟩
  · exact nomatch h
  cases h1
  dsimp only [id] at h
  cases hr : refusal e.stack token.kind with
  | some message =>
    rw [hr] at h
    cases h
    exact ⟨Stack.Alike.refl _, rfl, List.prefix_rfl⟩
  | none =>
    rw [hr] at h
    have hfront : e.bytes <+: (e.append (e.tokenPrefix token.kind).bytes).bytes := List.prefix_append _ _
    rcases bind_eq_error h with h | ⟨x, e1, h1, h⟩
    · exact nomatch h
    cases h1
    rcases bind_eq_error h with h | ⟨decoded, e2, h2, h⟩
    · -- the token itself is no valid text
      rcases bind_eq_error h with h | ⟨x, e1, h1, h⟩
      · exact nomatch h
      cases h1
      cases token with
      | string text =>
        dsimp only [id] at h
        cases ha : appendString (e.append (e.tokenPrefix (Token.string text).kind).bytes).bytes text
            (e.append (e.tokenPrefix (Token.string text).kind).bytes).options.invalidUtf8 with
        | error at_ =>
          rw [ha] at h
          cases h
          exact ⟨Stack.Alike.refl _, rfl, hfront⟩
        | ok r =>
          rw [ha] at h
          exact nomatch h
      | number text =>
        dsimp only [id] at h
        split at h
        next => exact nomatch h
        next =>
          cases h
          exact ⟨Stack.Alike.refl _, rfl, hfront⟩
      | _ => exact nomatch h
    · obtain ⟨body, -, rfl, -⟩ := appendBody_writes h2
      split at h
      next =>
        rcases bind_eq_error h with h | ⟨u, e3, -, h⟩
        · change (if _ then _ else _ : Op Unit) _ = _ at h
          split at h
          next => exact nomatch h
          next hfree =>
            cases h
            refine ⟨checkName_taken (Bool.eq_false_of_not_eq_true hfree), rfl, ?_⟩
            exact hfront.trans (List.prefix_append _ _)
        · exact nomatch h
      next => exact nomatch h

/-- a flush fails where the writer does, and keeps the bytes -/
theorem flush_failed {e e' : Encoder} {err : Error} (h : flush e = (.error err, e')) :
    (∃ message, err = .io "write" message) ∧ e'.stack = e.stack ∧ e'.bytes = e.bytes := by
  have hdrain : ∀ script delivered pending r, drain script delivered pending = r →
      ∀ err, r.1 = .error err → ∃ message, err = .io "write" message := by
    intro script delivered pending r hr err he
    subst hr
    induction script, delivered, pending using drain.induct with
    | case1 => rw [drain] at he; exact nomatch he
    | case2 => rw [drain] at he; exact nomatch he; assumption
    | case3 _ _ _ _ ih => rw [drain] at he; exact ih he
    | case4 => rw [drain] at he; cases he; exact ⟨_, rfl⟩
    | case5 => rw [drain] at he; cases he; exact ⟨_, rfl⟩
    | case6 _ _ _ _ _ ih => rw [drain] at he; exact ih he
  unfold flush at h
  cases hs : e.sink with
  | none =>
    rw [hs] at h
    exact nomatch h
  | some sink =>
    rw [hs] at h
    dsimp only at h
    split at h
    next => exact nomatch h
    next err' sink' pending hd =>
      cases h
      exact ⟨hdrain _ _ _ _ hd _ rfl, rfl, rfl⟩

/-- the bytes and the grammar are as they were -/
structure Unwritten (e e' : Encoder) : Prop where
  bytes : e'.bytes = e.bytes
  stack : e'.stack.map Frame.shape = e.stack.map Frame.shape
  rootCount : e'.rootCount = e.rootCount

/-- the token is written, with its newline, and the grammar has advanced -/
structure Accepted (token : Token) (e e' : Encoder) : Prop where
  accepted : ∃ e1, appendToken token e = (.ok (), e1) ∧ e'.stack = e1.stack ∧
    e'.bytes = e1.bytes ++ if e1.stack.isEmpty && !e1.omitTopLevelNewline then [0x0A] else []

theorem commit_failed {e e' : Encoder} {err : Error} (h : commit e = (.error err, e')) :
    (∃ message, err = .io "write" message) ∧ e'.stack = e.stack ∧
      e'.bytes = e.bytes ++ if e.stack.isEmpty && !e.omitTopLevelNewline then [0x0A] else [] := by
  change (if e.stack.isEmpty then _ else _ : Op Unit) e = _ at h
  cases hroot : e.stack.isEmpty with
  | true =>
    rw [hroot, if_pos rfl] at h
    change flush (if e.omitTopLevelNewline then e else e.append [0x0A]) = _ at h
    obtain ⟨herr, hstack, hbytes⟩ := flush_failed h
    cases hnewline : e.omitTopLevelNewline with
    | true =>
      rw [hnewline, if_pos rfl] at hstack hbytes
      exact ⟨herr, hstack, by rw [hbytes]; simp⟩
    | false =>
      rw [hnewline, if_neg (by decide)] at hstack hbytes
      exact ⟨herr, hstack, hbytes⟩
  | false =>
    rw [hroot, if_neg (by decide)] at h
    change (if _ then _ else _ : Op Unit) e = _ at h
    split at h
    next =>
      obtain ⟨herr, hstack, hbytes⟩ := flush_failed h
      exact ⟨herr, hstack, by rw [hbytes]; simp⟩
    next => exact nomatch h

theorem writeToken_failed {token : Token} {e e' : Encoder} {err : Error}
    (h : writeToken token e = (.error err, e')) :
    Unwritten e e' ∨ ((∃ message, err = .io "write" message) ∧ Accepted token e e') := by
  rcases bind_eq_error h with h | ⟨u, e1, h1, h⟩
  · left
    rcases ends (appendToken token) e with ⟨a, e2, h2⟩ | ⟨err2, e2, h2⟩
    · rw [orTruncate, h2] at h
      exact nomatch h
    · rw [orTruncate, h2] at h
      cases h
      obtain ⟨hstack, hroot, hbytes⟩ := appendToken_failed h2
      exact ⟨(List.prefix_iff_eq_take.1 hbytes).symm, hstack.shapes, hroot⟩
  · right
    rcases ends (appendToken token) e with ⟨a, e2, h2⟩ | ⟨err2, e2, h2⟩
    · rw [orTruncate, h2] at h1
      cases h1
      obtain ⟨herr, hstack, hbytes⟩ := commit_failed h
      exact ⟨herr, ⟨e1, h2, hstack, hbytes⟩⟩
    · rw [orTruncate, h2] at h1
      exact nomatch h1

end Encoder

/-! ## both sides -/

/-- **Calls that fail.**  A token or a value that is not read leaves the decoder where it was, and a
retry over a reader that does not fail reports the same error.  A token that is not written leaves the
encoder as it was, unless the writer failed: then the token is accepted. -/
theorem failed_call_undone :
    (∀ d err d', Decoder.readToken d = (.error err, d') → Decoder.Unmoved d d' ∧
      (Decoder.Steady d → (Decoder.readToken d').1 = .error err)) ∧
    (∀ d err d', Decoder.readValue d = (.error err, d') → Decoder.Unmoved d d' ∧
      (Decoder.Steady d → (Decoder.readValue d').1 = .error err)) ∧
    ∀ token e err e', Encoder.writeToken token e = (.error err, e') → Encoder.Unwritten e e' ∨
      ((∃ message, err = .io "write" message) ∧ Encoder.Accepted token e e') := by
  refine ⟨?_, ?_, ?_⟩
  · intro d err d' h
    change Decoder.tokenHere d.compact = _ at h
    refine ⟨Decoder.unmoved_of_left (Decoder.left_tokenHere h), fun hd => ?_⟩
    exact Decoder.retry_call (fun base => Decoder.same_tokenHere) Decoder.inStep_tokenHere
      (fun whole => Decoder.onSlice_tokenHere) Decoder.left_tokenHere hd h
  · intro d err d' h
    change Decoder.valueHere d.compact = _ at h
    refine ⟨Decoder.unmoved_of_left (Decoder.left_valueHere h), fun hd => ?_⟩
    exact Decoder.retry_call (x := Decoder.valueHere) (fun base => Decoder.same_valueHere)
      Decoder.inStep_valueHere (fun whole => Decoder.onSlice_valueHere) Decoder.left_valueHere hd h
  · intro token e err e' h
    exact Encoder.writeToken_failed h

def plainOptions : Options := ⟨none, none, none, none⟩

/-- a closing bracket with nothing to close -/
theorem failed_call_undone_bracket :
    Decoder.Unmoved (Decoder.fromSliceWithOptions [0x5D] plainOptions)
      (Decoder.readToken (Decoder.fromSliceWithOptions [0x5D] plainOptions)).2 ∧
    (Decoder.readToken (Decoder.readToken (Decoder.fromSliceWithOptions [0x5D] plainOptions)).2).1 =
      .error (Error.syntaxAt 0 "" "invalid character ']' at start of value") := by
  have h : Decoder.readToken (Decoder.fromSliceWithOptions [0x5D] plainOptions) =
      (.error (Error.syntaxAt 0 "" "invalid character ']' at start of value"),
        (Decoder.readToken (Decoder.fromSliceWithOptions [0x5D] plainOptions)).2) := by
    refine Prod.ext ?_ rfl
    decide +kernel
  obtain ⟨h1, h2⟩ := failed_call_undone.1 _ _ _ h
  exact ⟨h1, h2 ⟨Nat.zero_le _, fun _ => rfl, fun r hr => nomatch hr⟩⟩

/-- an encoder whose writer fails once -/
def failingEncoder : Encoder where
  bytes := []
  base := 0
  rootCount := 0
  flushed := 0
  stack := []
  options := plainOptions
  sink := some ⟨[.failed "disk full"], []⟩
  omitTopLevelNewline := false

/-- a decoder whose reader fails once and then delivers `1` -/
def failingDecoder : Decoder :=
  Decoder.withOptions [.failed "broken pipe", .chunk ⟨[0x31], by decide, by decide⟩] plainOptions

/-- **A failure of the writer, or of the reader.**  The token that was not written is in the output, and
the token that was not read is read by the next call. -/
theorem failed_write_keeps_token :
    (Encoder.writeToken .null failingEncoder).1 = .error (.io "write" "disk full") ∧
    (Encoder.writeToken .null failingEncoder).2.bytes ≠ failingEncoder.bytes ∧
    (Decoder.readToken failingDecoder).1 = .error (.io "read" "broken pipe") ∧
    (Decoder.readToken (Decoder.readToken failingDecoder).2).1 = .ok (.number [0x31]) := by
  refine ⟨rfl, by decide +kernel, rfl, by decide +kernel⟩

end Tsr.Json
