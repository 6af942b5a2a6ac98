import Tsr.Json.Accept

/-!
# Json: the grammar of values

`Value options n` is the grammar of RFC 8259 for values nested at most `n` deep, over bytes.  What
the options leave open is in the grammar of strings (`SpelledText`) and in the condition on the
member names of an object, which are compared after unescaping.

A run of tokens is taken apart from its first token on: inside a container the run goes on until the
container is closed, because at the end no container is open (`contents_of_trace`).  In the other
direction a value is a run of tokens in any place that takes a value (`trace_of_value`).

* `utf8_document`       without the option for invalid text a document is valid UTF-8;
* `accepts_documents`   **both ways to consume a value accept exactly the documents**.
-/

namespace Tsr.Json
open Tsr.Lib Tsr.Lib.Fallible

/-! ## member names -/

/-- where the names of a list end, written one after the other from `start` on -/
def endsFrom : Nat → List Bytes → List Nat
  | _, [] => []
  | start, name :: names => (start + name.length) :: endsFrom (start + name.length) names

/-- the table holds these names, in this order -/
structure Names.Holds (n : Names) (names : List Bytes) : Prop where
  bytes : n.bytes = names.flatten
  ends : n.ends = endsFrom 0 names
  large : ∀ large, n.large = some large → ∀ name, name ∈ large ↔ name ∈ names

namespace Names

theorem holds_empty : Names.empty.Holds [] := ⟨rfl, rfl, nofun⟩

theorem split_flatten (names : List Bytes) (pre : Bytes) :
    split (pre ++ names.flatten) pre.length (endsFrom pre.length names) = names := by
  induction names generalizing pre with
  | nil => rfl
  | cons name names ih =>
    have hrec := ih (pre ++ name)
    rw [List.length_append, List.append_assoc] at hrec
    rw [endsFrom, split, List.flatten_cons, hrec, List.drop_left, Nat.add_sub_cancel_left,
      List.take_left]

theorem endsFrom_append (names : List Bytes) (start : Nat) (name : Bytes) :
    endsFrom start (names ++ [name])
      = endsFrom start names ++ [start + (names ++ [name]).flatten.length] := by
  induction names generalizing start with
  | nil => simp [endsFrom]
  | cons first names ih =>
    rw [List.cons_append, endsFrom, ih, endsFrom, List.cons_append]
    simp only [List.flatten_cons, List.length_append]
    rw [Nat.add_assoc]

theorem Holds.split {n : Names} {names : List Bytes} (h : n.Holds names) :
    Names.split n.bytes 0 n.ends = names := by
  rw [h.bytes, h.ends]
  exact split_flatten names []

theorem Holds.enlarge {n : Names} {names : List Bytes} (h : n.Holds names) :
    n.enlarge.Holds names := by
  rw [Names.enlarge]
  split
  · refine ⟨h.bytes, h.ends, ?_⟩
    intro large hl name
    cases hl
    rw [h.split]
  · exact h

theorem Holds.push {n : Names} {names : List Bytes} {name : Bytes} (h : n.Holds names)
    (large : Option (List Bytes))
    (hl : ∀ l, large = some l → ∀ x, x ∈ l ↔ x ∈ names ++ [name]) :
    ({ n with large := large }.push name).Holds (names ++ [name]) := by
  refine ⟨?_, ?_, hl⟩
  · simp [Names.push, h.bytes]
  · rw [endsFrom_append]
    simp [Names.push, h.bytes, h.ends]

/-- **a name is taken exactly when it is new** -/
theorem insert_holds {n : Names} {names : List Bytes} (h : n.Holds names) (name : Bytes) :
    (n.insert name).1 = decide (name ∉ names) ∧
      (name ∉ names → (n.insert name).2.Holds (names ++ [name])) := by
  have he := h.enlarge
  rw [Names.insert]
  cases hl : n.enlarge.large with
  | some large =>
    have hmem := he.large large hl name
    dsimp only
    by_cases hname : name ∈ names
    · rw [if_pos (hmem.2 hname)]
      simp [hname]
    · rw [if_neg (fun hc => hname (hmem.1 hc))]
      refine ⟨by simp [hname], fun _ => he.push _ ?_⟩
      intro l hsome x
      cases hsome
      rw [List.mem_cons, List.mem_append, List.mem_singleton, he.large large hl x]
      exact Or.comm
  | none =>
    dsimp only
    rw [he.split]
    by_cases hname : name ∈ names
    · rw [if_pos hname]
      simp [hname]
    · rw [if_neg hname]
      refine ⟨by simp [hname], fun _ => ?_⟩
      have := @Holds.push _ _ name he n.enlarge.large (by rw [hl]; exact nofun)
      exact this

end Names

/-! ## the grammar -/

def quoted (s : Bytes) : Bytes := 0x22 :: (s ++ [0x22])

def ScalarText (allow : Bool) (t : Bytes) : Prop :=
  t = nullText ∨ t = trueText ∨ t = falseText ∨ NumberText t ∨
    ∃ s d, t = quoted s ∧ SpelledText allow s d

/-- values separated by commas -/
inductive Elements (V : Bytes → Prop) : Bytes → Prop where
  | one {v t w : Bytes} (hv : Spaces v) (ht : V t) (hw : Spaces w) : Elements V (v ++ (t ++ w))
  | more {v t w rest : Bytes} (hv : Spaces v) (ht : V t) (hw : Spaces w) (h : Elements V rest) :
      Elements V (v ++ (t ++ (w ++ 0x2C :: rest)))

/-- members separated by commas; the first argument lists their names -/
inductive Members (allow : Bool) (V : Bytes → Prop) : List Bytes → Bytes → Prop where
  | one {v s d w v' t w' : Bytes} (hv : Spaces v) (hs : SpelledText allow s d) (hw : Spaces w)
      (hv' : Spaces v') (ht : V t) (hw' : Spaces w') :
      Members allow V [d] (v ++ (quoted s ++ (w ++ 0x3A :: (v' ++ (t ++ w')))))
  | more {v s d w v' t w' rest : Bytes} {names : List Bytes} (hv : Spaces v)
      (hs : SpelledText allow s d) (hw : Spaces w) (hv' : Spaces v') (ht : V t) (hw' : Spaces w')
      (h : Members allow V names rest) :
      Members allow V (d :: names)
        (v ++ (quoted s ++ (w ++ 0x3A :: (v' ++ (t ++ (w' ++ 0x2C :: rest))))))

/-- a value nested at most so deep -/
def Value (options : Options) : Nat → Bytes → Prop
  | 0, t => ScalarText options.invalidUtf8 t
  | n + 1, t => ScalarText options.invalidUtf8 t ∨
      (∃ inner, t = 0x5B :: (inner ++ [0x5D]) ∧
        (Spaces inner ∨ Elements (Value options n) inner)) ∨
      (∃ inner, t = 0x7B :: (inner ++ [0x7D]) ∧
        (Spaces inner ∨ ∃ names, Members options.invalidUtf8 (Value options n) names inner ∧
          (options.duplicates = false → names.Nodup)))

/-- one value, with space around it -/
def Document (options : Options) (bytes : Bytes) : Prop :=
  ∃ v t w, bytes = v ++ (t ++ w) ∧ Spaces v ∧ Value options 10000 t ∧ Spaces w

theorem value_scalar {options : Options} {t : Bytes} (n : Nat)
    (h : ScalarText options.invalidUtf8 t) : Value options n t := by
  cases n with
  | zero => exact h
  | succ n => exact .inl h

/-! ## text in front of a token -/

/-- the delimiter between two values of a container, with the space before it -/
def Opens (count : Nat) (pre : Bytes) : Prop :=
  if count = 0 then pre = [] else ∃ w, pre = w ++ [0x2C] ∧ Spaces w

theorem lead_end {stack : Stack} {kind : Kind} {lead : Bytes} (hend : kind.isEnd = true) :
    Lead stack kind lead ↔ Spaces lead := by
  have hd : stack.delimiterOf kind = none := by
    cases stack with
    | nil => rfl
    | cons f outer =>
      show f.delimiter kind = none
      rw [Frame.delimiter, if_pos hend]
  constructor
  · rintro ⟨v, w, hv, hw, rfl⟩
    rw [hd]
    exact hv.append hw
  · intro h
    exact ⟨lead, [], h, spaces_nil, by rw [hd]; simp⟩

theorem lead_value {f : Frame} {outer : Stack} {kind : Kind} {lead : Bytes}
    (hend : kind.isEnd = false) (hname : ¬ (f.kind = .beginObject ∧ ¬ f.expectsName)) :
    Lead (f :: outer) kind lead ↔ ∃ pre v, lead = pre ++ v ∧ Opens f.count pre ∧ Spaces v := by
  have hd : Stack.delimiterOf (f :: outer) kind = if 0 < f.count then some 0x2C else none := by
    show f.delimiter kind = _
    rw [Frame.delimiter, hend, if_neg (by decide), if_neg hname]
  by_cases hc : f.count = 0
  · rw [if_neg (by omega)] at hd
    have ho : ∀ pre, Opens f.count pre ↔ pre = [] := fun pre => by rw [Opens, if_pos hc]
    rw [Lead, hd]
    constructor
    · rintro ⟨v, w, hv, hw, rfl⟩
      exact ⟨[], v ++ w, rfl, (ho _).2 rfl, hv.append hw⟩
    · rintro ⟨pre, v, rfl, hpre, hv⟩
      rw [(ho pre).1 hpre]
      exact ⟨[], v, spaces_nil, hv, rfl⟩
  · rw [if_pos (by omega)] at hd
    have ho : ∀ pre, Opens f.count pre ↔ ∃ w, pre = w ++ [0x2C] ∧ Spaces w :=
      fun pre => by rw [Opens, if_neg hc]
    rw [Lead, hd]
    constructor
    · rintro ⟨v, w, hv, hw, rfl⟩
      exact ⟨v ++ [0x2C], w, by simp, (ho _).2 ⟨v, rfl, hv⟩, hw⟩
    · rintro ⟨pre, v, rfl, hpre, hv⟩
      obtain ⟨w, rfl, hw⟩ := (ho pre).1 hpre
      exact ⟨w, v, hw, hv, by simp⟩

theorem lead_colon {f : Frame} {outer : Stack} {kind : Kind} {lead : Bytes}
    (hend : kind.isEnd = false) (hname : f.kind = .beginObject ∧ ¬ f.expectsName) :
    Lead (f :: outer) kind lead ↔ ∃ w v, lead = w ++ 0x3A :: v ∧ Spaces w ∧ Spaces v := by
  have hd : Stack.delimiterOf (f :: outer) kind = some 0x3A := by
    show f.delimiter kind = _
    rw [Frame.delimiter, hend, if_neg (by decide), if_pos hname]
  rw [Lead, hd]
  constructor
  · rintro ⟨v, w, hv, hw, rfl⟩
    exact ⟨v, w, rfl, hv, hw⟩
  · rintro ⟨w, v, rfl, hw, hv⟩
    exact ⟨w, v, hw, hv, rfl⟩

/-! ## steps of the stack -/

section
variable {options : Options} {depth : Nat} {stack stack' : Stack} {token : Token}

/-- a token that is neither an end nor a name -/
theorem step_value (hend : token.kind.isEnd = false) (hname : stack.expectsName = false) :
    stepStack options depth stack token = some stack' ↔
      (token.kind.isBegin = true → depth + stack.length < 10000) ∧
        stack' = stack.countOne.pushKind token.kind := by
  rw [stepStack, hend, if_neg (by decide), if_neg (by simp [hname])]
  by_cases hb : token.kind.isBegin = true ∧ 10000 ≤ depth + stack.length
  · rw [if_pos hb]
    constructor
    · intro h
      cases h
    · rintro ⟨h, -⟩
      have := h hb.1
      omega
  · rw [if_neg hb, if_neg (by simp [hname])]
    constructor
    · intro h
      cases h
      exact ⟨fun hk => by by_contra hc; exact hb ⟨hk, by omega⟩, rfl⟩
    · rintro ⟨-, rfl⟩
      rfl

theorem step_end (hend : token.kind.isEnd = true) :
    stepStack options depth stack token = some stack' ↔
      closes token.kind stack = true ∧ stack' = stack.tail := by
  rw [stepStack, if_pos hend]
  by_cases hc : closes token.kind stack = true
  · rw [if_pos hc]
    constructor
    · intro h
      cases h
      exact ⟨hc, rfl⟩
    · rintro ⟨-, rfl⟩
      rfl
  · rw [if_neg hc]
    constructor
    · intro h
      cases h
    · rintro ⟨h, -⟩
      exact absurd h hc

/-- a container after one more token -/
def Frame.counted (f : Frame) : Frame := { f with count := f.count + 1 }

theorem length_countOne (stack : Stack) : stack.countOne.length = stack.length := by
  cases stack <;> rfl

/-- the object after a member name -/
def Frame.named (options : Options) (name : Bytes) (f : Frame) : Frame :=
  { f with
    count := f.count + 1
    name := name
    names := if options.duplicates then f.names else (f.names.insert name).2 }

/-- a member name is a string that is not taken yet -/
theorem step_name {f : Frame} {outer : Stack} (hend : token.kind.isEnd = false)
    (hname : f.expectsName = true) :
    stepStack options depth (f :: outer) token = some stack' ↔
      ∃ name, token = .string name ∧
        (options.duplicates = false → (f.names.insert name).1 = true) ∧
        stack' = f.named options name :: outer := by
  have hexp : Stack.expectsName (f :: outer) = true := hname
  rw [stepStack, hend, if_neg (by decide)]
  cases token with
  | string name =>
    rw [if_neg (by simp [Token.kind]), if_neg (by simp [Token.kind, Kind.isBegin]), if_pos hexp]
    have htext : (Token.string name).text = name := rfl
    rw [htext, Stack.checkName]
    cases hd : options.duplicates with
    | true =>
      constructor
      · intro h
        cases h
        exact ⟨name, rfl, fun hc => (by cases hc), by
          simp [Frame.named, hd, Stack.setName, Stack.countOne, Stack.modifyTop, Stack.pushKind,
            Token.kind, Kind.isBegin]⟩
      · rintro ⟨name', h, -, rfl⟩
        cases h
        simp [Frame.named, hd, Stack.setName, Stack.countOne, Stack.modifyTop, Stack.pushKind,
            Token.kind, Kind.isBegin]
    | false =>
      have hi : (Stack.insertName name (f :: outer)).1 = (f.names.insert name).1 := rfl
      rw [show (if false = true then (true, f :: outer) else Stack.insertName name (f :: outer))
        = Stack.insertName name (f :: outer) from rfl, hi]
      cases hfresh : (f.names.insert name).1 with
      | true =>
        constructor
        · intro h
          cases h
          exact ⟨name, rfl, fun _ => hfresh, by
            simp [Frame.named, hd, Stack.setName, Stack.countOne, Stack.modifyTop, Stack.pushKind,
              Token.kind, Kind.isBegin, Stack.insertName]⟩
        · rintro ⟨name', h, -, rfl⟩
          cases h
          simp [Frame.named, hd, Stack.setName, Stack.countOne, Stack.modifyTop, Stack.pushKind,
              Token.kind, Kind.isBegin, Stack.insertName]
      | false =>
        constructor
        · intro h
          cases h
        · rintro ⟨name', h, hc, rfl⟩
          cases h
          rw [hfresh] at hc
          exact absurd (hc rfl) (by decide)
  | boolean value =>
    rw [if_pos ⟨hexp, by cases value <;> simp [Token.kind]⟩]
    simp
  | _ =>
    rw [if_pos ⟨hexp, by simp [Token.kind]⟩]
    simp

end

/-! ## a run of tokens is a value -/

/-- how deep a value in this place may be nested -/
def room (depth : Nat) (stack : Stack) : Nat := 10000 - (depth + stack.length)

section
variable (options : Options) (depth : Nat)

/-- behind the first token of a value -/
def ParsesValue (bound : Nat) : Prop :=
  ∀ {stack : Stack} {token : Token} {body rest : Bytes} {more : List Token}, more.length ≤ bound →
    BodyText options.invalidUtf8 token body → token.kind.isEnd = false →
    (token.kind.isBegin = true → depth + stack.length < 10000) →
    Trace False options depth (stack.pushKind token.kind) rest more [] →
    ∃ t rest' more', body ++ rest = t ++ rest' ∧ Value options (room depth stack) t ∧
      Trace False options depth stack rest' more' [] ∧ more'.length ≤ more.length

/-- inside an array -/
def ParsesArray (bound : Nat) : Prop :=
  ∀ {f : Frame} {outer : Stack} {text : Bytes} {tokens : List Token}, tokens.length ≤ bound →
    f.kind = .beginArray → Trace False options depth (f :: outer) text tokens [] →
    ∃ inner text' tokens', text = inner ++ 0x5D :: text' ∧
      (Spaces inner ∨ ∃ pre rest, inner = pre ++ rest ∧ Opens f.count pre ∧
        Elements (Value options (room depth (f :: outer))) rest) ∧
      Trace False options depth outer text' tokens' [] ∧ tokens'.length < tokens.length

/-- inside an object, in front of a name; `names` are taken -/
def ParsesObject (bound : Nat) : Prop :=
  ∀ {f : Frame} {outer : Stack} {text : Bytes} {tokens : List Token} {names : List Bytes},
    tokens.length ≤ bound → f.kind = .beginObject → f.expectsName = true →
    (options.duplicates = false → f.names.Holds names) →
    Trace False options depth (f :: outer) text tokens [] →
    ∃ inner text' tokens', text = inner ++ 0x7D :: text' ∧
      (Spaces inner ∨ ∃ pre rest added, inner = pre ++ rest ∧ Opens f.count pre ∧
        Members options.invalidUtf8 (Value options (room depth (f :: outer))) added rest ∧
        (options.duplicates = false → names.Nodup → (names ++ added).Nodup)) ∧
      Trace False options depth outer text' tokens' [] ∧ tokens'.length < tokens.length

variable {options depth} {bound : Nat}

theorem room_succ {stack : Stack} (f : Frame) (h : depth + stack.length < 10000) :
    room depth stack = room depth (f :: stack) + 1 := by
  rw [room, room, List.length_cons]
  omega

theorem parsesValue (hA : ParsesArray options depth bound) (hO : ParsesObject options depth bound) :
    ParsesValue options depth bound := by
  intro stack token body rest more hlen hbody hend hdepth h
  have scalar : stack.pushKind token.kind = stack → ScalarText options.invalidUtf8 body →
      ∃ t rest' more', body ++ rest = t ++ rest' ∧ Value options (room depth stack) t ∧
        Trace False options depth stack rest' more' [] ∧ more'.length ≤ more.length := by
    intro hs ht
    rw [hs] at h
    exact ⟨body, rest, more, rfl, value_scalar _ ht, h, le_refl _⟩
  cases token with
  | null => exact scalar rfl (.inl hbody)
  | boolean value =>
    cases value with
    | true => exact scalar rfl (.inr (.inl hbody))
    | false => exact scalar rfl (.inr (.inr (.inl hbody)))
  | number t =>
    obtain ⟨rfl, ht⟩ := hbody
    exact scalar rfl (.inr (.inr (.inr (.inl ht))))
  | string d =>
    obtain ⟨t, rfl, ht⟩ := hbody
    exact scalar rfl (.inr (.inr (.inr (.inr ⟨t, d, rfl, ht⟩))))
  | beginArray =>
    obtain ⟨inner, text', tokens', rfl, hin, htrace, hlt⟩ := hA hlen rfl h
    have hb : body = [0x5B] := hbody
    refine ⟨0x5B :: (inner ++ [0x5D]), text', tokens', by rw [hb]; simp, ?_, htrace, hlt.le⟩
    rw [room_succ (Frame.new .beginArray) (hdepth rfl)]
    refine .inr (.inl ⟨inner, rfl, ?_⟩)
    rcases hin with hin | ⟨pre, rest, rfl, rfl, hin⟩
    · exact .inl hin
    · exact .inr hin
  | beginObject =>
    obtain ⟨inner, text', tokens', rfl, hin, htrace, hlt⟩ := hO hlen rfl rfl
      (fun _ => Names.holds_empty) h
    have hb : body = [0x7B] := hbody
    refine ⟨0x7B :: (inner ++ [0x7D]), text', tokens', by rw [hb]; simp, ?_, htrace, hlt.le⟩
    rw [room_succ (Frame.new .beginObject) (hdepth rfl)]
    refine .inr (.inr ⟨inner, rfl, ?_⟩)
    rcases hin with hin | ⟨pre, rest, added, rfl, rfl, hin, hnodup⟩
    · exact .inl hin
    · exact .inr ⟨added, hin, fun hd => hnodup hd List.nodup_nil⟩
  | endObject => cases hend
  | endArray => cases hend

theorem parsesArray_succ (hV : ParsesValue options depth bound)
    (hA : ParsesArray options depth bound) : ParsesArray options depth (bound + 1) := by
  intro f outer text tokens hlen hf h
  have hexp : Stack.expectsName (f :: outer) = false := by
    show f.expectsName = false
    simp [Frame.expectsName, hf]
  have hname : ¬ (f.kind = .beginObject ∧ ¬ f.expectsName) := by simp [hf]
  cases h with
  | @cons _ stack1 _ token piece text tokens hopen hstep h =>
    rw [List.length_cons] at hlen
    obtain ⟨lead, body, rfl, hlead, hbody, hst, -⟩ := hstep
    cases hend : token.kind.isEnd with
    | true =>
      obtain ⟨hcl, rfl⟩ := (step_end hend).1 hst
      rcases closes_cases hend hcl with ⟨-, hc, -⟩ | ⟨hk, -⟩
      · rw [hf] at hc
        cases hc
      · have hb : body = [0x5D] := by
          cases token with
          | endArray => exact hbody
          | boolean value => cases value <;> cases hk
          | _ => cases hk
        refine ⟨lead, text, tokens, by rw [hb]; simp, .inl ((lead_end hend).1 hlead), h, ?_⟩
        exact Nat.lt_succ_self _
    | false =>
      obtain ⟨hdepth, rfl⟩ := (step_value hend hexp).1 hst
      obtain ⟨pre, v, rfl, hpre, hv⟩ := (lead_value hend hname).1 hlead
      obtain ⟨t, rest', more', hsplit, ht, h', hlen'⟩ := @hV (f.counted :: outer) _ _ _ _
        (Nat.le_of_succ_le_succ hlen) hbody hend hdepth h
      have hf' : f.counted.kind = .beginArray := hf
      obtain ⟨inner, text', tokens', rfl, hin, htrace, hlt⟩ := hA (by omega) hf' h'
      have htext : (pre ++ v ++ body) ++ text = pre ++ (v ++ (t ++ (inner ++ 0x5D :: text'))) := by
        rw [← hsplit]
        simp
      rcases hin with hin | ⟨pre', rest, rfl, ⟨w, rfl, hw⟩, hin⟩
      · refine ⟨pre ++ (v ++ (t ++ inner)), text', tokens', by rw [htext]; simp,
          .inr ⟨pre, _, rfl, hpre, .one hv ht hin⟩, htrace, ?_⟩
        rw [List.length_cons]
        omega
      · refine ⟨pre ++ (v ++ (t ++ (w ++ 0x2C :: rest))), text', tokens', by rw [htext]; simp,
          .inr ⟨pre, _, rfl, hpre, .more hv ht hw hin⟩, htrace, ?_⟩
        rw [List.length_cons]
        omega

theorem expectsName_counted {f : Frame} (hf : f.kind = .beginObject) :
    f.counted.expectsName = !f.expectsName := by
  have hc : f.counted.count = f.count + 1 := rfl
  have hk : f.counted.kind = .beginObject := hf
  rw [Frame.expectsName, Frame.expectsName, hc, hk, hf]
  rcases Nat.mod_two_eq_zero_or_one f.count with h | h
  · rw [show (f.count + 1) % 2 = 1 by omega, h]
    rfl
  · rw [show (f.count + 1) % 2 = 0 by omega, h]
    rfl

/-- behind a name stands a value, and then another name -/
theorem expectsName_named {f : Frame} (name : Bytes) (hf : f.kind = .beginObject)
    (hexp : f.expectsName = true) : (f.named options name).expectsName = false ∧
      (f.named options name).counted.expectsName = true := by
  have h1 : (f.named options name).expectsName = false := by
    rw [show (f.named options name).expectsName = f.counted.expectsName from rfl,
      expectsName_counted hf, hexp]
    rfl
  refine ⟨h1, ?_⟩
  rw [expectsName_counted (f := f.named options name) hf, h1]
  rfl

/-- the names of an object grow by the name of a member -/
theorem holds_named {f : Frame} {names : List Bytes} {name : Bytes}
    (hfresh : options.duplicates = false → (f.names.insert name).1 = true)
    (hnames : options.duplicates = false → f.names.Holds names) (hd : options.duplicates = false) :
    name ∉ names ∧ (f.named options name).names.Holds (names ++ [name]) := by
  obtain ⟨h1, h2⟩ := Names.insert_holds (hnames hd) name
  have hnew : name ∉ names := by
    rw [hfresh hd] at h1
    exact of_decide_eq_true h1.symm
  refine ⟨hnew, ?_⟩
  show (if options.duplicates then f.names else (f.names.insert name).2).Holds _
  rw [hd]
  exact h2 hnew

theorem parsesObject_succ (hV : ParsesValue options depth bound)
    (hO : ParsesObject options depth bound) : ParsesObject options depth (bound + 1) := by
  intro f outer text tokens names hlen hf hexp hnames h
  cases h with
  | @cons _ stack1 _ token piece text tokens hopen hstep h =>
    rw [List.length_cons] at hlen
    obtain ⟨lead, body, rfl, hlead, hbody, hst, -⟩ := hstep
    cases hend : token.kind.isEnd with
    | true =>
      obtain ⟨hcl, rfl⟩ := (step_end hend).1 hst
      rcases closes_cases hend hcl with ⟨hk, -, -⟩ | ⟨-, hc⟩
      · have hb : body = [0x7D] := by
          cases token with
          | endObject => exact hbody
          | boolean value => cases value <;> cases hk
          | _ => cases hk
        refine ⟨lead, text, tokens, by rw [hb]; simp, .inl ((lead_end hend).1 hlead), h, ?_⟩
        exact Nat.lt_succ_self _
      · rw [hf] at hc
        cases hc
    | false =>
      -- a name, and behind it a value
      obtain ⟨name, rfl, hfresh, rfl⟩ := (step_name hend hexp).1 hst
      obtain ⟨pre, v, rfl, hpre, hv⟩ := (lead_value hend (by simp [hexp])).1 hlead
      obtain ⟨s, rfl, hs⟩ := hbody
      obtain ⟨hexp1, hexp2⟩ := @expectsName_named options _ name hf hexp
      have hname1 : (f.named options name).kind = .beginObject ∧
          ¬ (f.named options name).expectsName := ⟨hf, by simp [hexp1]⟩
      cases h with
      | @cons _ stack2 _ token2 piece2 text2 tokens2 hopen2 hstep2 h2 =>
        obtain ⟨lead2, body2, rfl, hlead2, hbody2, hst2, -⟩ := hstep2
        rw [List.length_cons] at hlen
        have hend2 : token2.kind.isEnd = false := by
          by_contra hc
          rw [Bool.not_eq_false] at hc
          exact closes_cons hc ((step_end hc).1 hst2).1 hname1
        obtain ⟨hdepth, rfl⟩ := (@step_value _ _ (f.named options name :: outer) _ _ hend2
          hexp1).1 hst2
        obtain ⟨w, v2, rfl, hw, hv2⟩ := (lead_colon hend2 hname1).1 hlead2
        obtain ⟨t, rest', more', hsplit, ht, h', hlen'⟩ :=
          @hV ((f.named options name).counted :: outer) _ _ _ _ (by omega) hbody2 hend2 hdepth h2
        obtain ⟨inner, text', tokens', rfl, hin, htrace, hlt⟩ :=
          @hO (f.named options name).counted _ _ _ (names ++ [name]) (by omega) hf hexp2
            (fun hd => (holds_named hfresh hnames hd).2) h'
        have htext : (pre ++ v ++ 0x22 :: (s ++ [0x22])) ++ ((w ++ 0x3A :: v2 ++ body2) ++ text2)
            = pre ++ (v ++ (quoted s ++ (w ++ 0x3A :: (v2 ++ (t ++ (inner ++ 0x7D :: text')))))) := by
          rw [← hsplit]
          simp [quoted]
        have hnodup : options.duplicates = false → names.Nodup → (names ++ [name]).Nodup := by
          intro hd hn
          exact List.Nodup.append hn (List.nodup_singleton name)
            (List.disjoint_singleton.2 (holds_named hfresh hnames hd).1)
        rw [List.length_cons, List.length_cons]
        rcases hin with hin | ⟨pre', rest, added, rfl, ⟨w', rfl, hw'⟩, hin, hadded⟩
        · exact ⟨pre ++ (v ++ (quoted s ++ (w ++ 0x3A :: (v2 ++ (t ++ inner))))), text', tokens',
            by rw [htext]; simp, .inr ⟨pre, _, [name], rfl, hpre, .one hv hs hw hv2 ht hin, hnodup⟩,
            htrace, by omega⟩
        · refine ⟨pre ++ (v ++ (quoted s ++ (w ++ 0x3A :: (v2 ++ (t ++ (w' ++ 0x2C :: rest)))))),
            text', tokens', by rw [htext]; simp,
            .inr ⟨pre, _, name :: added, rfl, hpre, .more hv hs hw hv2 ht hw' hin, ?_⟩, htrace,
            by omega⟩
          intro hd hn
          have := hadded hd (hnodup hd hn)
          rw [List.append_assoc] at this
          exact this

/-- **inside a container, the run goes on up to the closing bracket** -/
theorem contents_of_trace (bound : Nat) :
    ParsesArray options depth bound ∧ ParsesObject options depth bound := by
  induction bound with
  | zero =>
    constructor
    · intro f outer text tokens hlen hf h
      cases h with
      | cons => simp at hlen
    · intro f outer text tokens names hlen hf hexp hnames h
      cases h with
      | cons => simp at hlen
  | succ bound ih =>
    have hV : ParsesValue options depth bound := parsesValue ih.1 ih.2
    exact ⟨parsesArray_succ hV ih.1, parsesObject_succ hV ih.2⟩

end

/-- **a run of tokens that ends is a value** -/
theorem value_of_trace {options : Options} {text : Bytes} {tokens : List Token}
    (h : ValueTrace False options 0 text tokens) :
    ∃ w t, text = w ++ t ∧ Spaces w ∧ Value options 10000 t := by
  obtain ⟨token, piece, stack, rest, more, rfl, rfl, hstep, h⟩ := h
  obtain ⟨lead, body, rfl, hlead, hbody, hst, -⟩ := hstep
  have hend : token.kind.isEnd = false := by
    by_contra hc
    rw [Bool.not_eq_false] at hc
    have hcl := ((step_end hc).1 hst).1
    rw [closes] at hcl
    split at hcl <;> simp [Stack.topKind] at hcl
  obtain ⟨hdepth, rfl⟩ := (step_value hend rfl).1 hst
  obtain ⟨hA, hO⟩ := contents_of_trace more.length
  obtain ⟨t, rest', more', hsplit, ht, h', -⟩ := parsesValue hA hO (le_refl _) hbody
    hend hdepth h
  have hnil : rest' = [] := by
    cases h' with
    | nil => rfl
    | cons hopen => exact absurd rfl hopen
  rw [hnil, List.append_nil] at hsplit
  obtain ⟨v, w, hv, hw, rfl⟩ := hlead
  refine ⟨v ++ w, t, ?_, hv.append hw, ht⟩
  rw [← hsplit]
  simp [Stack.delimiterOf]

/-! ## a value is a run of tokens -/

theorem Trace.append {p : Prop} {options : Options} {depth : Nat} {a b c : Stack}
    {text text' : Bytes} {tokens tokens' : List Token} (h : Trace p options depth a text tokens b)
    (h' : Trace p options depth b text' tokens' c) :
    Trace p options depth a (text ++ text') (tokens ++ tokens') c := by
  induction h with
  | nil => exact h'
  | cons hopen hstep h ih =>
    rw [List.append_assoc, List.cons_append]
    exact .cons hopen hstep (ih h')

section
variable {options : Options} {depth : Nat}

/-- the tokens of a value in a place that takes one -/
def ValueRun (options : Options) (depth : Nat) (stack : Stack) (t : Bytes) : Prop :=
  ∃ token body rest more, t = body ++ rest ∧ token.kind.isEnd = false ∧
    BodyText options.invalidUtf8 token body ∧
    (token.kind.isBegin = true → depth + stack.length < 10000) ∧
    Trace False options depth (stack.countOne.pushKind token.kind) rest more stack.countOne

theorem scalar_run {t : Bytes} (stack : Stack) (h : ScalarText options.invalidUtf8 t) :
    ValueRun options depth stack t := by
  rcases h with rfl | rfl | rfl | h | ⟨s, d, rfl, hs⟩
  · exact ⟨.null, nullText, [], [], rfl, rfl, rfl, nofun, .nil _⟩
  · exact ⟨.boolean true, trueText, [], [], rfl, rfl, rfl, nofun, .nil _⟩
  · exact ⟨.boolean false, falseText, [], [], rfl, rfl, rfl, nofun, .nil _⟩
  · exact ⟨.number t, t, [], [], by simp, rfl, ⟨rfl, h⟩, nofun, .nil _⟩
  · exact ⟨.string d, quoted s, [], [], by simp, rfl, ⟨s, rfl, hs⟩, nofun, .nil _⟩

/-- a value in a container, and what follows it there -/
theorem ValueRun.trace {f : Frame} {outer final : Stack} {t lead text : Bytes}
    {tokens : List Token} (h : ValueRun options depth (f :: outer) t)
    (hexp : f.expectsName = false) (hlead : ∀ kind : Kind, kind.isEnd = false → Lead (f :: outer) kind lead)
    (hrest : Trace False options depth (f.counted :: outer) text tokens final) :
    ∃ tokens', Trace False options depth (f :: outer) (lead ++ (t ++ text)) tokens' final := by
  obtain ⟨token, body, rest, more, rfl, hend, hbody, hdepth, h⟩ := h
  have hstep : TokenStep False options depth (f :: outer) token (lead ++ body) _ :=
    ⟨lead, body, rfl, hlead _ hend, hbody,
      (@step_value _ _ (f :: outer) _ _ hend hexp).2 ⟨hdepth, rfl⟩, fun hc => absurd hc id⟩
  have hrun := Trace.cons (List.cons_ne_nil f outer) hstep (h.append hrest)
  have htext : lead ++ ((body ++ rest) ++ text) = (lead ++ body) ++ (rest ++ text) := by simp
  rw [htext]
  exact ⟨_, hrun⟩

/-- the bracket that closes a container -/
theorem close_trace {f : Frame} {outer : Stack} {token : Token} {w body : Bytes} (hw : Spaces w)
    (hend : token.kind.isEnd = true) (hbody : BodyText options.invalidUtf8 token body)
    (hcl : closes token.kind (f :: outer) = true) :
    Trace False options depth (f :: outer) (w ++ body) [token] outer := by
  have hstep : TokenStep False options depth (f :: outer) token (w ++ body) outer :=
    ⟨w, body, rfl, (lead_end hend).2 hw, hbody, (step_end hend).2 ⟨hcl, rfl⟩, fun hc => absurd hc id⟩
  have := Trace.cons (List.cons_ne_nil f outer) hstep (.nil outer)
  rw [List.append_nil] at this
  exact this

theorem closes_array {f : Frame} (outer : Stack) (hf : f.kind = .beginArray) :
    closes Token.endArray.kind (f :: outer) = true := by
  simp [closes, Token.kind, Stack.topKind, hf]

theorem closes_object {f : Frame} (outer : Stack) (hf : f.kind = .beginObject)
    (hexp : f.expectsName = true) : closes Token.endObject.kind (f :: outer) = true := by
  simp [closes, Token.kind, Stack.topKind, Stack.expectsName, hf, hexp]

variable {V : Bytes → Prop} {outer : Stack}

theorem opens_comma {count : Nat} {w : Bytes} (hc : count ≠ 0) (hw : Spaces w) :
    Opens count (w ++ [0x2C]) := by
  rw [Opens, if_neg hc]
  exact ⟨w, rfl, hw⟩

theorem elements_run {rest : Bytes} (h : Elements V rest)
    (hV : ∀ {f : Frame} {t : Bytes}, V t → ValueRun options depth (f :: outer) t) (f : Frame)
    (pre : Bytes) (hf : f.kind = .beginArray) (hpre : Opens f.count pre) :
    ∃ tokens, Trace False options depth (f :: outer) (pre ++ (rest ++ [0x5D])) tokens outer := by
  induction h generalizing f pre with
  | @one v t w hv ht hw =>
    have hexp : f.expectsName = false := by simp [Frame.expectsName, hf]
    obtain ⟨tokens, h⟩ := (hV ht).trace hexp
      (fun kind hk => (lead_value hk (by simp [hf])).2 ⟨pre, v, rfl, hpre, hv⟩)
      (@close_trace _ _ f.counted _ .endArray _ [0x5D] hw rfl rfl
        (closes_array outer hf))
    exact ⟨tokens, by simpa using h⟩
  | @more v t w rest hv ht hw h ih =>
    have hexp : f.expectsName = false := by simp [Frame.expectsName, hf]
    obtain ⟨tokens', hrest⟩ := ih f.counted (w ++ [0x2C]) hf (opens_comma (Nat.succ_ne_zero _) hw)
    obtain ⟨tokens, h⟩ := (hV ht).trace hexp
      (fun kind hk => (lead_value hk (by simp [hf])).2 ⟨pre, v, rfl, hpre, hv⟩) hrest
    exact ⟨tokens, by simpa using h⟩

/-- a member: its name, and its value in front of what follows -/
theorem member_run {f : Frame} {pre v s d w v' t text : Bytes} {tokens : List Token}
    (hf : f.kind = .beginObject) (hexp : f.expectsName = true) (hpre : Opens f.count pre)
    (hfresh : options.duplicates = false → (f.names.insert d).1 = true)
    (hv : Spaces v) (hs : SpelledText options.invalidUtf8 s d) (hw : Spaces w) (hv' : Spaces v')
    (ht : ValueRun options depth (f.named options d :: outer) t)
    (hrest : Trace False options depth ((f.named options d).counted :: outer) text tokens outer) :
    ∃ tokens', Trace False options depth (f :: outer)
      (pre ++ (v ++ (quoted s ++ (w ++ 0x3A :: (v' ++ (t ++ text)))))) tokens' outer := by
  obtain ⟨hexp1, -⟩ := @expectsName_named options _ d hf hexp
  have hname1 : (f.named options d).kind = .beginObject ∧ ¬ (f.named options d).expectsName :=
    ⟨hf, by simp [hexp1]⟩
  obtain ⟨tokens1, h1⟩ := ht.trace hexp1
    (fun kind hk => (lead_colon hk hname1).2 ⟨w, v', rfl, hw, hv'⟩) hrest
  have hstep : TokenStep False options depth (f :: outer) (.string d) ((pre ++ v) ++ quoted s)
      (f.named options d :: outer) :=
    ⟨pre ++ v, quoted s, rfl, (lead_value rfl (by simp [hexp])).2 ⟨pre, v, rfl, hpre, hv⟩,
      ⟨s, rfl, hs⟩, (step_name rfl hexp).2 ⟨d, rfl, hfresh, rfl⟩, fun hc => absurd hc id⟩
  have := Trace.cons (List.cons_ne_nil f outer) hstep h1
  exact ⟨_, by simpa using this⟩

/-- a name that is not repeated is free -/
theorem fresh_name {f : Frame} {names more : List Bytes} {d : Bytes}
    (hnames : options.duplicates = false → f.names.Holds names)
    (hnodup : options.duplicates = false → (names ++ d :: more).Nodup)
    (hd : options.duplicates = false) : (f.names.insert d).1 = true := by
  rw [(Names.insert_holds (hnames hd) d).1, decide_eq_true_eq]
  intro hc
  exact (List.nodup_append.1 (hnodup hd)).2.2 d hc d List.mem_cons_self rfl

theorem members_run {rest : Bytes} {added : List Bytes}
    (h : Members options.invalidUtf8 V added rest)
    (hV : ∀ {f : Frame} {t : Bytes}, V t → ValueRun options depth (f :: outer) t) (f : Frame)
    (pre : Bytes) (names : List Bytes) (hf : f.kind = .beginObject) (hexp : f.expectsName = true)
    (hpre : Opens f.count pre) (hnames : options.duplicates = false → f.names.Holds names)
    (hnodup : options.duplicates = false → (names ++ added).Nodup) :
    ∃ tokens, Trace False options depth (f :: outer) (pre ++ (rest ++ [0x7D])) tokens outer := by
  induction h generalizing f pre names with
  | @one v s d w v' t w' hv hs hw hv' ht hw' =>
    obtain ⟨-, hexp2⟩ := expectsName_named d hf hexp
    obtain ⟨tokens, h⟩ := member_run hf hexp hpre (fresh_name hnames hnodup) hv hs hw hv' (hV ht)
      (@close_trace _ _ (f.named options d).counted _ .endObject _ [0x7D] hw' rfl
        rfl (closes_object outer hf hexp2))
    exact ⟨tokens, by simpa using h⟩
  | @more v s d w v' t w' rest added hv hs hw hv' ht hw' h ih =>
    obtain ⟨-, hexp2⟩ := expectsName_named d hf hexp
    have hfresh := fresh_name hnames hnodup
    obtain ⟨tokens', hrest⟩ := ih (f.named options d).counted (w' ++ [0x2C]) (names ++ [d]) hf hexp2
      (opens_comma (Nat.succ_ne_zero _) hw') (fun hd => (holds_named hfresh hnames hd).2)
      (by simpa using hnodup)
    obtain ⟨tokens, h⟩ := member_run hf hexp hpre hfresh hv hs hw hv' (hV ht) hrest
    exact ⟨tokens, by simpa using h⟩

/-- **a value is a run of tokens wherever it has room** -/
theorem trace_of_value {n : Nat} {t : Bytes} (h : Value options n t) (stack : Stack)
    (hroom : depth + stack.length + n ≤ 10000) : ValueRun options depth stack t := by
  induction n generalizing t stack with
  | zero => exact scalar_run stack h
  | succ n ih =>
    rcases h with h | ⟨inner, rfl, hin⟩ | ⟨inner, rfl, hin⟩
    · exact scalar_run stack h
    · have hrun : ∃ tokens, Trace False options depth (Frame.new .beginArray :: stack.countOne)
          (inner ++ [0x5D]) tokens stack.countOne := by
        rcases hin with hin | hin
        · exact ⟨_, @close_trace _ _ _ _ .endArray _ _ hin rfl rfl (closes_array _ rfl)⟩
        · refine elements_run hin ?_ (Frame.new .beginArray) [] rfl rfl
          intro f t ht
          refine ih ht _ ?_
          rw [List.length_cons, length_countOne]
          omega
      obtain ⟨tokens, hrun⟩ := hrun
      exact ⟨.beginArray, [0x5B], inner ++ [0x5D], tokens, rfl, rfl, rfl, fun _ => by omega, hrun⟩
    · have hrun : ∃ tokens, Trace False options depth (Frame.new .beginObject :: stack.countOne)
          (inner ++ [0x7D]) tokens stack.countOne := by
        rcases hin with hin | ⟨names, hin, hnodup⟩
        · exact ⟨_, @close_trace _ _ _ _ .endObject _ _ hin rfl rfl (closes_object _ rfl rfl)⟩
        · refine members_run hin ?_ (Frame.new .beginObject) [] [] rfl rfl rfl
            (fun _ => Names.holds_empty) hnodup
          intro f t ht
          refine ih ht _ ?_
          rw [List.length_cons, length_countOne]
          omega
      obtain ⟨tokens, hrun⟩ := hrun
      exact ⟨.beginObject, [0x7B], inner ++ [0x7D], tokens, rfl, rfl, rfl, fun _ => by omega, hrun⟩

end

/-! ## documents are valid UTF-8 -/

theorem Utf8.append {a b : Bytes} (ha : Utf8 a) (hb : Utf8 b) : Utf8 (a ++ b) := by
  induction ha with
  | nil => exact hb
  | ascii h ha ih => exact .ascii h ih
  | sequence hq ha ih =>
    rw [List.append_assoc]
    exact .sequence hq ih

theorem utf8_ascii {t : Bytes} (h : ∀ b ∈ t, b < 0x80) : Utf8 t := by
  induction t with
  | nil => exact .nil
  | cons b t ih =>
    exact .ascii (h b List.mem_cons_self) (ih fun c hc => h c (List.mem_cons_of_mem b hc))

theorem utf8_spaces {w : Bytes} (h : Spaces w) : Utf8 w := by
  refine utf8_ascii ?_
  intro b hb
  have := h b hb
  simp only [Input.isSpace, Bool.or_eq_true, decide_eq_true_eq] at this
  rcases this with ((rfl | rfl) | rfl) | rfl <;> decide

theorem digit_ascii {b : UInt8} (h : isDigit b = true) : b < 0x80 := by
  simp only [isDigit, Bool.and_eq_true, decide_eq_true_eq, UInt8.le_iff_toNat_le] at h
  rw [UInt8.lt_iff_toNat_lt]
  have := h.2
  simp at this ⊢
  omega

theorem utf8_digits {ds : Bytes} (h : ∀ b ∈ ds, isDigit b = true) : Utf8 ds :=
  utf8_ascii fun b hb => digit_ascii (h b hb)

theorem utf8_number {t : Bytes} (h : NumberText t) : Utf8 t := by
  obtain ⟨sign, int, frac, exp, rfl, hsign, hint, hfrac, hexp⟩ := h
  refine Utf8.append ?_ ((utf8_digits hint.digit).append (Utf8.append ?_ ?_))
  · rcases hsign with rfl | rfl
    · exact .nil
    · exact .ascii (by decide) .nil
  · rcases hfrac with rfl | ⟨ds, rfl, hd⟩
    · exact .nil
    · exact .ascii (by decide) (utf8_digits hd.2)
  · rcases hexp with rfl | ⟨m, sign, ds, rfl, hm, hs, hd⟩
    · exact .nil
    · refine .ascii (by rcases hm with rfl | rfl <;> decide) (Utf8.append ?_ (utf8_digits hd.2))
      rcases hs with rfl | rfl | rfl
      · exact .nil
      · exact .ascii (by decide) .nil
      · exact .ascii (by decide) .nil

theorem utf8_hex {value v : Nat} {hs : Bytes} (h : hexFold value hs = some v) : Utf8 hs := by
  induction hs generalizing value with
  | nil => exact .nil
  | cons b hs ih =>
    rw [hexFold] at h
    obtain ⟨digit, hb, h⟩ := Option.bind_eq_some_iff.1 h
    refine .ascii ?_ (ih h)
    by_contra hc
    rw [UInt8.not_lt, UInt8.le_iff_toNat_le] at hc
    simp only [Input.hexValue, UInt8.le_iff_toNat_le, UInt8.reduceToNat] at hb hc
    rw [if_neg (by omega), if_neg (by omega), if_neg (by omega)] at hb
    cases hb

theorem utf8_item {q d rest : Bytes} (h : Item false rest q d) : Utf8 q := by
  cases h with
  | plain hb => exact .ascii (lt_of_not_special hb) .nil
  | @simple e byte he =>
    refine .ascii (by decide) (.ascii ?_ .nil)
    unfold Input.simpleEscape at he
    split_ifs at he with h1 h2 h3 h4 h5 h6
    · rcases h1 with rfl | rfl | rfl <;> decide
    · subst h2; decide
    · subst h3; decide
    · subst h4; decide
    · subst h5; decide
    · subst h6; decide
  | unicode hv hn => exact .ascii (by decide) (.ascii (by decide) (utf8_hex hv.2))
  | pair hv hv' hw hw' =>
    exact .ascii (by decide) (.ascii (by decide) ((utf8_hex hv.2).append
      (.ascii (by decide) (.ascii (by decide) (utf8_hex hw.2)))))
  | sequence hq =>
    have := Utf8.sequence hq .nil
    rw [List.append_nil] at this
    exact this
  | lone ha => cases ha
  | invalid ha => cases ha

theorem utf8_spelled {t d : Bytes} (h : SpelledText false t d) : Utf8 t := by
  induction h with
  | nil => exact .nil
  | item hq ht ih => exact (utf8_item hq).append ih

theorem utf8_quoted {s d : Bytes} (h : SpelledText false s d) : Utf8 (quoted s) :=
  .ascii (by decide) ((utf8_spelled h).append (.ascii (by decide) .nil))

theorem utf8_scalar {t : Bytes} (h : ScalarText false t) : Utf8 t := by
  rcases h with rfl | rfl | rfl | h | ⟨s, d, rfl, hs⟩
  · exact utf8_ascii (by simp [nullText])
  · exact utf8_ascii (by simp [trueText])
  · exact utf8_ascii (by simp [falseText])
  · exact utf8_number h
  · exact utf8_quoted hs

theorem utf8_elements {V : Bytes → Prop} {t : Bytes} (hV : ∀ t, V t → Utf8 t) (h : Elements V t) :
    Utf8 t := by
  induction h with
  | one hv ht hw => exact (utf8_spaces hv).append ((hV _ ht).append (utf8_spaces hw))
  | more hv ht hw h ih =>
    exact (utf8_spaces hv).append ((hV _ ht).append ((utf8_spaces hw).append
      (.ascii (by decide) ih)))

theorem utf8_members {V : Bytes → Prop} {names : List Bytes} {t : Bytes}
    (hV : ∀ t, V t → Utf8 t) (h : Members false V names t) : Utf8 t := by
  induction h with
  | one hv hs hw hv' ht hw' =>
    exact (utf8_spaces hv).append ((utf8_quoted hs).append ((utf8_spaces hw).append
      (.ascii (by decide) ((utf8_spaces hv').append ((hV _ ht).append (utf8_spaces hw'))))))
  | more hv hs hw hv' ht hw' h ih =>
    exact (utf8_spaces hv).append ((utf8_quoted hs).append ((utf8_spaces hw).append
      (.ascii (by decide) ((utf8_spaces hv').append ((hV _ ht).append
        ((utf8_spaces hw').append (.ascii (by decide) ih)))))))

theorem utf8_value {options : Options} (hu : options.invalidUtf8 = false) {n : Nat} {t : Bytes}
    (h : Value options n t) : Utf8 t := by
  have close : ∀ {a b : UInt8} {inner : Bytes}, a < 0x80 → b < 0x80 → Utf8 inner →
      Utf8 (a :: (inner ++ [b])) :=
    fun ha hb hin => .ascii ha (hin.append (.ascii hb .nil))
  induction n generalizing t with
  | zero =>
    have h : ScalarText options.invalidUtf8 t := h
    rw [hu] at h
    exact utf8_scalar h
  | succ n ih =>
    rcases h with h | ⟨inner, rfl, hin⟩ | ⟨inner, rfl, hin⟩
    · rw [hu] at h
      exact utf8_scalar h
    · refine close (by decide) (by decide) ?_
      rcases hin with hin | hin
      · exact utf8_spaces hin
      · exact utf8_elements (fun t => ih) hin
    · refine close (by decide) (by decide) ?_
      rcases hin with hin | ⟨names, hin, -⟩
      · exact utf8_spaces hin
      · rw [hu] at hin
        exact utf8_members (fun t => ih) hin

/-- **without the option for invalid text a document is valid UTF-8** -/
theorem utf8_document {options : Options} (hu : options.invalidUtf8 = false) {bytes : Bytes}
    (h : Document options bytes) : Utf8 bytes := by
  obtain ⟨v, t, w, rfl, hv, ht, hw⟩ := h
  exact (utf8_spaces hv).append ((utf8_value hu ht).append (utf8_spaces hw))

/-! ## documents -/

namespace Decoder

theorem accepted_iff_document (options : Options) (bytes : Bytes) :
    Accepted options bytes ↔ Document options bytes := by
  constructor
  · rintro ⟨text, tokens, w, rfl, htrace, hw⟩
    obtain ⟨v, t, rfl, hv, ht⟩ := value_of_trace htrace
    exact ⟨v, t, w, by simp, hv, ht, hw⟩
  · rintro ⟨v, t, w, rfl, hv, ht, hw⟩
    obtain ⟨token, body, rest, more, rfl, hend, hbody, hdepth, htrace⟩ :=
      @trace_of_value _ 0 _ _ ht [] (by simp)
    refine ⟨v ++ (body ++ rest), token :: more, w, by simp, ?_, hw⟩
    refine ⟨token, v ++ body, _, rest, more, by simp, rfl, ?_, htrace⟩
    exact ⟨v, body, rfl, ⟨v, [], hv, spaces_nil, by simp [Stack.delimiterOf]⟩, hbody,
      (step_value hend rfl).2 ⟨hdepth, rfl⟩, fun hc => absurd hc id⟩

/-- **a byte string is accepted exactly when it is a document**, by `readValue` as by the tokens one
after the other; unless invalid text is allowed, a document is valid UTF-8 -/
theorem accepts_documents (options : Options) (bytes : Bytes) :
    ((∃ d, (do let _ ← readValue; finish : Op Unit) (fromSliceWithOptions bytes options)
      = (.ok (), d)) ↔ Document options bytes) ∧
    ((∃ d, (do let _ ← readTokens (bytes.length + 1); finish : Op Unit)
      (fromSliceWithOptions bytes options) = (.ok (), d)) ↔ Document options bytes) ∧
    (Document options bytes → options.invalidUtf8 = false → Utf8 bytes) := by
  refine ⟨?_, ?_, fun h hu => utf8_document hu h⟩
  · rw [readValue_accepts, accepted_iff_document]
  · rw [readTokens_accepts, accepted_iff_document]

end Decoder

end Tsr.Json
