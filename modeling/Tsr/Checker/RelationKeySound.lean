import Tsr.Checker.RelationKey

/-!
# Pairs with the same relation key

Equal keys make two pairs alike: the same references, the same arguments by id, and type parameters
with the same indices.  The parameters at the indices give a renaming, and it takes one pair to the
other unless a parameter that it moves also stands in an argument that is written by id.

* `indexed`, `byId`      the parameters of a type that are written by index, the arguments by id;
* `Alike`                what equal bytes say of two arguments;
* `Separate`             **the condition**, `renames_iff` **the equivalence**.
-/

set_option linter.unusedVariables false

namespace Tsr.Checker.RelationKey

open Tsr.Lib.Bytes

/-! ## renamings of one type -/

theorem renameAll_eq_self_iff (r : Nat → Nat) (l : List Ty)
    (ih : ∀ a ∈ l, rename r a = a ↔ ∀ p ∈ free a, r p = p) :
    renameAll r l = l ↔ ∀ p ∈ freeAll l, r p = p := by
  induction l with
  | nil => exact ⟨nofun, fun _ => rfl⟩
  | cons a l ihl =>
    have ihl := ihl fun b hb => ih b (List.mem_cons_of_mem a hb)
    rw [renameAll, freeAll, List.cons.injEq, ihl, ih a List.mem_cons_self]
    constructor
    · rintro ⟨h1, h2⟩ p hp
      rcases List.mem_append.1 hp with hp | hp
      · exact h1 p hp
      · exact h2 p hp
    · intro h
      exact ⟨fun p hp => h p (List.mem_append_left _ hp), fun p hp => h p (List.mem_append_right _ hp)⟩

theorem rename_eq_self_iff (r : Nat → Nat) (a : Ty) :
    rename r a = a ↔ ∀ p ∈ free a, r p = p := by
  induction a using Ty.ind with
  | parameter p =>
    rw [rename, free, Ty.parameter.injEq]
    simp
  | reference target arguments ih =>
    rw [rename, free, Ty.reference.injEq, renameAll_eq_self_iff r arguments ih]
    exact and_iff_right rfl
  | other shape parts ih =>
    rw [rename, free, Ty.other.injEq, renameAll_eq_self_iff r parts ih]
    exact and_iff_right rfl

/-! ## what is written in which way -/

section
variable (constrained : Nat → Bool)

/-- a reference that is written in brackets -/
def nested (depth : Nat) (a : Ty) : Bool := decide (depth < 4) && hasGenericArguments a

mutual

def indexed (depth : Nat) : Ty → List Nat
  | .parameter p => if constrained p then [] else [p]
  | .reference target arguments =>
    if nested depth (.reference target arguments) then indexedAll (depth + 1) arguments else []
  | .other _ _ => []

def indexedAll (depth : Nat) : List Ty → List Nat
  | [] => []
  | a :: rest => indexed depth a ++ indexedAll depth rest

end

mutual

def byId (depth : Nat) : Ty → List Ty
  | .parameter p => if constrained p then [.parameter p] else []
  | .reference target arguments =>
    if nested depth (.reference target arguments) then byIdAll (depth + 1) arguments
    else [.reference target arguments]
  | .other shape parts => [.other shape parts]

def byIdAll (depth : Nat) : List Ty → List Ty
  | [] => []
  | a :: rest => byId depth a ++ byIdAll depth rest

end

/-- the arguments that a key of the pair has -/
def pairArguments (pair : Ty × Ty) : List Ty :=
  match pair with
  | (.reference target arguments, .reference target' arguments') =>
    if anyGeneric arguments && anyGeneric arguments' then arguments ++ arguments' else []
  | _ => []

/-- **The condition.**  A parameter that stands at an index in one pair, and inside an argument that
is written by id, stands at the same index in the other pair. -/
def Separate (a b : Ty × Ty) : Prop :=
  ∀ e ∈ (indexedAll constrained 0 (pairArguments a)).zip (indexedAll constrained 0 (pairArguments b)),
    e.1 ≠ e.2 → ∀ x ∈ byIdAll constrained 0 (pairArguments a), e.1 ∉ free x ∧ e.2 ∉ free x

/-! ## bytes -/

/-- parameters with an index: each has one, and none has a constraint -/
structure Registered (S : Store) (parameters : List Nat) : Prop where
  nodup : parameters.Nodup
  types : ∀ p ∈ parameters, S.types (.parameter p)
  unconstrained : ∀ p ∈ parameters, constrained p = false

/-- there are fewer of them than types -/
theorem Registered.length_lt {S : Store} {parameters : List Nat}
    (h : Registered constrained S parameters) : parameters.length ≤ 2 ^ 32 := by
  have hnodup : (parameters.map fun p => S.id (.parameter p)).Nodup := by
    refine List.Nodup.map_on ?_ h.nodup
    intro p hp q hq e
    exact Ty.parameter.inj (S.inj _ _ (h.types p hp) (h.types q hq) e)
  have hsub : (parameters.map fun p => S.id (.parameter p)) ⊆ List.range (2 ^ 32) := by
    intro n hn
    obtain ⟨p, hp, rfl⟩ := List.mem_map.1 hn
    exact List.mem_range.2 (S.bound _ (h.types p hp))
  have := (List.subperm_of_subset hnodup hsub).length_le
  rw [List.length_map, List.length_range] at this
  exact this

theorem Registered.register {S : Store} {parameters : List Nat}
    (h : Registered constrained S parameters) (p : Nat) (hp : S.types (.parameter p))
    (hc : constrained p = false) : Registered constrained S (register p parameters) := by
  by_cases hmem : p ∈ parameters
  · rw [register_of_mem hmem]
    exact h
  · rw [register_of_not_mem hmem]
    refine ⟨?_, ?_, ?_⟩
    · rw [List.nodup_append]
      refine ⟨h.nodup, List.nodup_singleton p, ?_⟩
      intro a ha b hb e
      rw [List.mem_singleton.1 hb] at e
      exact hmem (e ▸ ha)
    · intro q hq
      rcases List.mem_append.1 hq with hq | hq
      · exact h.types q hq
      · rw [List.mem_singleton.1 hq]
        exact hp
    · intro q hq
      rcases List.mem_append.1 hq with hq | hq
      · exact h.unconstrained q hq
      · rw [List.mem_singleton.1 hq]
        exact hc

theorem mem_register (p : Nat) (parameters : List Nat) : p ∈ register p parameters := by
  by_cases h : p ∈ parameters
  · rw [register_of_mem h]
    exact h
  · rw [register_of_not_mem h]
    exact List.mem_append_right _ List.mem_cons_self

theorem idxOf_register (p : Nat) (parameters : List Nat) :
    (register p parameters).idxOf p = parameters.idxOf p := by
  by_cases h : p ∈ parameters
  · rw [register_of_mem h]
  · rw [register_of_not_mem h, List.idxOf_append_of_notMem h, List.idxOf_eq_length_iff.2 h]
    simp

/-- more parameters, none of them moved -/
theorem register_append (p : Nat) (parameters : List Nat) :
    ∃ more, register p parameters = parameters ++ more := by
  by_cases h : p ∈ parameters
  · exact ⟨[], by rw [register_of_mem h, List.append_nil]⟩
  · exact ⟨[p], register_of_not_mem h⟩

/-- what writing does to the parameters -/
structure Extends (S : Store) (parameters parameters' : List Nat) : Prop where
  registered : Registered constrained S parameters → Registered constrained S parameters'
  append : ∃ more, parameters' = parameters ++ more

theorem Extends.refl (S : Store) (parameters : List Nat) :
    Extends constrained S parameters parameters :=
  ⟨id, [], (List.append_nil _).symm⟩

theorem Extends.trans {S : Store} {a b c : List Nat} (h : Extends constrained S a b)
    (h' : Extends constrained S b c) : Extends constrained S a c := by
  obtain ⟨x, hx⟩ := h.append
  obtain ⟨y, hy⟩ := h'.append
  exact ⟨fun ha => h'.registered (h.registered ha), x ++ y, by rw [hy, hx, List.append_assoc]⟩

variable (S : Store)

theorem writeArguments_extends (depth : Nat) (arguments : List Ty)
    (htypes : ∀ a ∈ arguments, S.types a)
    (ih : ∀ a ∈ arguments, ∀ depth parameters, S.types a → Extends constrained S parameters
      (writeArgument S.id constrained false depth a parameters).parameters) (parameters : List Nat) :
    Extends constrained S parameters
      (writeArguments S.id constrained false depth arguments parameters).parameters := by
  induction arguments generalizing parameters with
  | nil => exact Extends.refl constrained S parameters
  | cons a rest ihl =>
    have h1 := ih a List.mem_cons_self depth parameters (htypes a List.mem_cons_self)
    have h2 := ihl (fun b hb => htypes b (List.mem_cons_of_mem a hb))
      (fun b hb => ih b (List.mem_cons_of_mem a hb))
      (writeArgument S.id constrained false depth a parameters).parameters
    rw [writeArguments]
    exact h1.trans constrained h2

theorem writeArgument_extends (a : Ty) : ∀ depth parameters, S.types a →
    Extends constrained S parameters
      (writeArgument S.id constrained false depth a parameters).parameters := by
  induction a using Ty.ind with
  | parameter p =>
    intro depth parameters htype
    rw [writeArgument]
    split
    next h =>
      have hc : constrained p = false := by simpa using h
      exact ⟨fun h => h.register constrained p htype hc, register_append p parameters⟩
    next => exact Extends.refl constrained S parameters
  | reference target arguments ih =>
    intro depth parameters htype
    rw [writeArgument]
    split
    next => exact writeArguments_extends constrained S _ arguments (S.reference _ _ htype).2 ih parameters
    next => exact Extends.refl constrained S parameters
  | other shape parts _ =>
    intro depth parameters htype
    rw [writeArgument]
    exact Extends.refl constrained S parameters

/-! ## arguments with equal bytes -/

/-- two parameters with the same index -/
def Paired (F G : List Nat) (p q : Nat) : Prop := p ∈ F ∧ q ∈ G ∧ F.idxOf p = G.idxOf q

theorem Paired.extend {F G F' G' : List Nat} {p q : Nat} (h : Paired F G p q)
    (hF : ∃ more, F' = F ++ more) (hG : ∃ more, G' = G ++ more) : Paired F' G' p q := by
  obtain ⟨x, rfl⟩ := hF
  obtain ⟨y, rfl⟩ := hG
  obtain ⟨h1, h2, h3⟩ := h
  refine ⟨List.mem_append_left _ h1, List.mem_append_left _ h2, ?_⟩
  rw [List.idxOf_append_of_mem h1, List.idxOf_append_of_mem h2, h3]

/-- lists of arguments that differ in indexed parameters only -/
structure Alike (F G : List Nat) (ids ids' : List Ty) (ps qs : List Nat)
    (renamed : (Nat → Nat) → Prop) : Prop where
  byId : ids = ids'
  pairs : List.Forall₂ (Paired F G) ps qs
  renames : ∀ r, renamed r ↔ List.Forall₂ (fun p q => r p = q) ps qs ∧ ∀ x ∈ ids, rename r x = x

theorem forall₂_append_iff {α β : Type} {R : α → β → Prop} {x y : List α} {x' y' : List β}
    (h : x.length = x'.length) :
    List.Forall₂ R (x ++ y) (x' ++ y') ↔ List.Forall₂ R x x' ∧ List.Forall₂ R y y' := by
  induction x generalizing x' with
  | nil =>
    cases x' with
    | nil => exact ⟨fun h => ⟨List.Forall₂.nil, h⟩, fun h => h.2⟩
    | cons b x' => exact nomatch h
  | cons a x ih =>
    cases x' with
    | nil => exact nomatch h
    | cons b x' =>
      rw [List.cons_append, List.cons_append, List.forall₂_cons, List.forall₂_cons,
        ih (Nat.succ.inj h), and_assoc]

theorem Alike.extend {F G F' G' : List Nat} {ids ids' : List Ty} {ps qs : List Nat}
    {renamed : (Nat → Nat) → Prop} (h : Alike F G ids ids' ps qs renamed)
    (hF : ∃ more, F' = F ++ more) (hG : ∃ more, G' = G ++ more) :
    Alike F' G' ids ids' ps qs renamed :=
  ⟨h.byId, h.pairs.imp fun _ _ h => h.extend hF hG, h.renames⟩

theorem Alike.append {F G : List Nat} {ids ids' ids1 ids1' : List Ty} {ps qs ps1 qs1 : List Nat}
    {renamed renamed1 : (Nat → Nat) → Prop} (h : Alike F G ids ids' ps qs renamed)
    (h1 : Alike F G ids1 ids1' ps1 qs1 renamed1) :
    Alike F G (ids ++ ids1) (ids' ++ ids1') (ps ++ ps1) (qs ++ qs1)
      fun r => renamed r ∧ renamed1 r where
  byId := by rw [h.byId, h1.byId]
  pairs := (forall₂_append_iff h.pairs.length_eq).2 ⟨h.pairs, h1.pairs⟩
  renames := by
    intro r
    rw [h.renames r, h1.renames r, forall₂_append_iff h.pairs.length_eq]
    constructor
    · rintro ⟨⟨a1, a2⟩, b1, b2⟩
      refine ⟨⟨a1, b1⟩, ?_⟩
      intro x hx
      rcases List.mem_append.1 hx with hx | hx
      · exact a2 x hx
      · exact b2 x hx
    · rintro ⟨⟨a1, b1⟩, h2⟩
      exact ⟨⟨a1, fun x hx => h2 x (List.mem_append_left _ hx)⟩, b1,
        fun x hx => h2 x (List.mem_append_right _ hx)⟩

/-- the ways to write an argument -/
inductive Form (depth : Nat) (a : Ty) (F : List Nat) : Prop where
  | index (p : Nat) (ha : a = .parameter p) (hc : constrained p = false)
      (hbytes : (writeArgument S.id constrained false depth a F).bytes = 61 :: le 8 (F.idxOf p))
      (hparameters : (writeArgument S.id constrained false depth a F).parameters = register p F)
      (hindexed : indexed constrained depth a = [p]) (hid : byId constrained depth a = [])
  | literal
      (hbytes : (writeArgument S.id constrained false depth a F).bytes = 45 :: le 4 (S.id a))
      (hparameters : (writeArgument S.id constrained false depth a F).parameters = F)
      (hindexed : indexed constrained depth a = []) (hid : byId constrained depth a = [a])
  | bracket (target : Nat) (arguments : List Ty) (ha : a = .reference target arguments)
      (hbytes : (writeArgument S.id constrained false depth a F).bytes = 60 :: (le 4 target ++
        (writeArguments S.id constrained false (depth + 1) arguments F).bytes) ++ [62])
      (hparameters : (writeArgument S.id constrained false depth a F).parameters =
        (writeArguments S.id constrained false (depth + 1) arguments F).parameters)
      (hindexed : indexed constrained depth a = indexedAll constrained (depth + 1) arguments)
      (hid : byId constrained depth a = byIdAll constrained (depth + 1) arguments)

theorem form (depth : Nat) (a : Ty) (F : List Nat) : Form constrained S depth a F := by
  cases a with
  | parameter p =>
    by_cases hc : constrained p = true
    · refine .literal ?_ ?_ ?_ ?_ <;> simp [writeArgument, writeType, indexed, byId, hc]
    · have hc : constrained p = false := by simpa using hc
      refine .index p rfl hc ?_ ?_ ?_ ?_ <;> simp [writeArgument, writeIndex, indexed, byId, hc]
  | reference target arguments =>
    by_cases hn : nested depth (.reference target arguments) = true
    · have hn' := hn
      rw [nested, Bool.and_eq_true, decide_eq_true_eq] at hn'
      refine .bracket target arguments rfl ?_ ?_ ?_ ?_ <;>
        simp [writeArgument, indexed, byId, hn, hn'.1, hn'.2]
    · have hn' := hn
      rw [nested] at hn'
      refine .literal ?_ ?_ ?_ ?_ <;> simp [writeArgument, writeType, indexed, byId, hn, hn']
  | other shape parts =>
    refine .literal ?_ ?_ ?_ ?_ <;> simp [writeArgument, writeType, indexed, byId]

/-- what can follow the last argument: `>`, `,` or the intersection state -/
def Ends (r : List UInt8) : Prop := (∃ t, r = 62 :: t) ∨ (∃ t, r = 44 :: t) ∨ r.length = 4

theorem not_ends (depth : Nat) (a : Ty) (F : List Nat) (rest : List UInt8) :
    ¬ Ends ((writeArgument S.id constrained false depth a F).bytes ++ rest) := by
  intro h
  cases form constrained S depth a F with
  | index p ha hc hbytes hparameters hindexed hid =>
    rw [hbytes] at h
    rcases h with ⟨t, h⟩ | ⟨t, h⟩ | h
    · exact absurd (List.cons.inj h).1 (by decide)
    · exact absurd (List.cons.inj h).1 (by decide)
    · rw [List.length_append, List.length_cons, length_le] at h
      omega
  | literal hbytes hparameters hindexed hid =>
    rw [hbytes] at h
    rcases h with ⟨t, h⟩ | ⟨t, h⟩ | h
    · exact absurd (List.cons.inj h).1 (by decide)
    · exact absurd (List.cons.inj h).1 (by decide)
    · rw [List.length_append, List.length_cons, length_le] at h
      omega
  | bracket target arguments ha hbytes hparameters hindexed hid =>
    rw [hbytes] at h
    rcases h with ⟨t, h⟩ | ⟨t, h⟩ | h
    · exact absurd (List.cons.inj h).1 (by decide)
    · exact absurd (List.cons.inj h).1 (by decide)
    · rw [List.length_append, List.length_append, List.length_cons, List.length_append, length_le] at h
      omega

/-- the rest is the same, and the parameters that have an index now -/
structure Read (r s : List UInt8) (F G : List Nat) (ids ids' : List Ty) (ps qs : List Nat)
    (renamed : (Nat → Nat) → Prop) : Prop where
  rest : r = s
  length : F.length = G.length
  alike : Alike F G ids ids' ps qs renamed

/-- parameters with the same index -/
theorem index_alike (p q : Nat) (F G : List Nat) (r s : List UInt8) (hF : Registered constrained S F)
    (hG : Registered constrained S G) (hlength : F.length = G.length)
    (h : le 8 (F.idxOf p) ++ r = le 8 (G.idxOf q) ++ s) :
    Read r s (register p F) (register q G) [] [] [p] [q]
      fun ρ => rename ρ (.parameter p) = .parameter q := by
  have hp : F.idxOf p ≤ F.length := List.idxOf_le_length
  have hq : G.idxOf q ≤ G.length := List.idxOf_le_length
  have hF' := hF.length_lt
  have hG' := hG.length_lt
  obtain ⟨hidx, hrest⟩ := le_append_inj 8 _ _ (by omega) (by omega) r s h
  refine ⟨hrest, ?_, rfl, ?_, ?_⟩
  · have hmem : p ∈ F ↔ q ∈ G := by
      rw [← List.idxOf_lt_length_iff, ← List.idxOf_lt_length_iff, hidx, hlength]
    by_cases hp : p ∈ F
    · rw [register_of_mem hp, register_of_mem (hmem.1 hp), hlength]
    · rw [register_of_not_mem hp, register_of_not_mem (fun h => hp (hmem.2 h)), List.length_append,
        List.length_append, hlength]
      rfl
  · refine List.Forall₂.cons ⟨mem_register p F, mem_register q G, ?_⟩ List.Forall₂.nil
    rw [idxOf_register, idxOf_register, hidx]
  · intro ρ
    rw [rename, Ty.parameter.injEq, List.forall₂_cons]
    constructor
    · exact fun h => ⟨⟨h, List.Forall₂.nil⟩, nofun⟩
    · exact fun h => h.1.1

theorem literal_alike (a b : Ty) (F G : List Nat) (r s : List UInt8) (ha : S.types a)
    (hb : S.types b) (hlength : F.length = G.length)
    (h : le 4 (S.id a) ++ r = le 4 (S.id b) ++ s) :
    Read r s F G [a] [b] [] [] fun ρ => rename ρ a = b := by
  obtain ⟨hid, hrest⟩ := le_append_inj 4 _ _ (S.bound a ha) (S.bound b hb) r s h
  obtain rfl := S.inj a b ha hb hid
  refine ⟨hrest, hlength, rfl, List.Forall₂.nil, ?_⟩
  intro ρ
  constructor
  · intro h
    refine ⟨List.Forall₂.nil, fun x hx => ?_⟩
    rw [List.mem_singleton.1 hx, h]
  · exact fun h => h.2 a List.mem_cons_self

/-- what equal bytes say of an argument -/
def ArgumentAlike (a : Ty) : Prop :=
  ∀ depth b F G r s, S.types a → S.types b → Registered constrained S F →
    Registered constrained S G → F.length = G.length →
    (writeArgument S.id constrained false depth a F).bytes ++ r =
      (writeArgument S.id constrained false depth b G).bytes ++ s →
    Read r s (writeArgument S.id constrained false depth a F).parameters
      (writeArgument S.id constrained false depth b G).parameters
      (byId constrained depth a) (byId constrained depth b)
      (indexed constrained depth a) (indexed constrained depth b) fun ρ => rename ρ a = b

theorem arguments_alike (depth : Nat) (as : List Ty) (ih : ∀ a ∈ as, ArgumentAlike constrained S a)
    (bs : List Ty) (F G : List Nat) (r s : List UInt8) (has : ∀ a ∈ as, S.types a)
    (hbs : ∀ b ∈ bs, S.types b) (hF : Registered constrained S F) (hG : Registered constrained S G)
    (hlength : F.length = G.length) (hr : Ends r) (hs : Ends s)
    (h : (writeArguments S.id constrained false depth as F).bytes ++ r =
      (writeArguments S.id constrained false depth bs G).bytes ++ s) :
    Read r s (writeArguments S.id constrained false depth as F).parameters
      (writeArguments S.id constrained false depth bs G).parameters
      (byIdAll constrained depth as) (byIdAll constrained depth bs)
      (indexedAll constrained depth as) (indexedAll constrained depth bs)
      fun ρ => renameAll ρ as = bs := by
  induction as generalizing bs F G with
  | nil =>
    cases bs with
    | nil =>
      refine ⟨h, hlength, rfl, List.Forall₂.nil, ?_⟩
      exact fun ρ => ⟨fun _ => ⟨List.Forall₂.nil, nofun⟩, fun _ => rfl⟩
    | cons b bs =>
      rw [writeArguments, writeArguments, List.nil_append, List.append_assoc] at h
      exact absurd (h ▸ hr) (not_ends constrained S depth b G _)
  | cons a as ihl =>
    cases bs with
    | nil =>
      rw [writeArguments, writeArguments, List.nil_append, List.append_assoc] at h
      exact absurd (h ▸ hs) (not_ends constrained S depth a F _)
    | cons b bs =>
      rw [writeArguments, writeArguments, List.append_assoc, List.append_assoc] at h
      have hta := has a List.mem_cons_self
      have htb := hbs b List.mem_cons_self
      have h1 := ih a List.mem_cons_self depth b F G _ _ hta htb hF hG hlength h
      have h2 := ihl (fun x hx => ih x (List.mem_cons_of_mem a hx)) bs _ _
        (fun x hx => has x (List.mem_cons_of_mem a hx))
        (fun x hx => hbs x (List.mem_cons_of_mem b hx))
        ((writeArgument_extends constrained S a depth F hta).registered hF)
        ((writeArgument_extends constrained S b depth G htb).registered hG) h1.length h1.rest
      have hmoreF := writeArguments_extends constrained S depth as
        (fun x hx => has x (List.mem_cons_of_mem a hx))
        (fun x _ => writeArgument_extends constrained S x)
        (writeArgument S.id constrained false depth a F).parameters
      have hmoreG := writeArguments_extends constrained S depth bs
        (fun x hx => hbs x (List.mem_cons_of_mem b hx))
        (fun x _ => writeArgument_extends constrained S x)
        (writeArgument S.id constrained false depth b G).parameters
      have hall := (h1.alike.extend hmoreF.append hmoreG.append).append h2.alike
      refine ⟨h2.rest, h2.length, hall.byId, hall.pairs, ?_⟩
      intro ρ
      rw [renameAll, List.cons.injEq]
      exact hall.renames ρ

/-- an argument, given its own arguments; its first byte says how it is written -/
theorem argument_alike_of (a : Ty) (ih : ∀ target arguments, a = .reference target arguments →
    ∀ x ∈ arguments, ArgumentAlike constrained S x) : ArgumentAlike constrained S a := by
  intro depth b F G r s hta htb hF hG hlength h
  cases form constrained S depth a F with
  | index p ha hc hbytes hparameters hindexed hid =>
    rw [hbytes] at h
    cases form constrained S depth b G with
    | index q hb hc' hbytes' hparameters' hindexed' hid' =>
      rw [hbytes'] at h
      rw [hparameters, hparameters', hindexed, hindexed', hid, hid', ha, hb]
      exact index_alike constrained S p q F G r s hF hG hlength (List.cons.inj h).2
    | literal hbytes' _ _ _ =>
      rw [hbytes'] at h
      exact absurd (List.cons.inj h).1 (by decide)
    | bracket target' arguments' _ hbytes' _ _ _ =>
      rw [hbytes'] at h
      exact absurd (List.cons.inj h).1 (by decide)
  | literal hbytes hparameters hindexed hid =>
    rw [hbytes] at h
    cases form constrained S depth b G with
    | index q _ _ hbytes' _ _ _ =>
      rw [hbytes'] at h
      exact absurd (List.cons.inj h).1 (by decide)
    | literal hbytes' hparameters' hindexed' hid' =>
      rw [hbytes'] at h
      rw [hparameters, hparameters', hindexed, hindexed', hid, hid']
      exact literal_alike S a b F G r s hta htb hlength (List.cons.inj h).2
    | bracket target' arguments' _ hbytes' _ _ _ =>
      rw [hbytes'] at h
      exact absurd (List.cons.inj h).1 (by decide)
  | bracket target arguments ha hbytes hparameters hindexed hid =>
    rw [hbytes] at h
    cases form constrained S depth b G with
    | index q _ _ hbytes' _ _ _ =>
      rw [hbytes'] at h
      exact absurd (List.cons.inj h).1 (by decide)
    | literal hbytes' _ _ _ =>
      rw [hbytes'] at h
      exact absurd (List.cons.inj h).1 (by decide)
    | bracket target' arguments' hb hbytes' hparameters' hindexed' hid' =>
      rw [hbytes'] at h
      rw [hparameters, hparameters', hindexed, hindexed', hid, hid']
      subst ha hb
      obtain ⟨ht, harguments⟩ := S.reference target arguments hta
      obtain ⟨ht', harguments'⟩ := S.reference target' arguments' htb
      rw [List.cons_append, List.cons_append, List.cons_append, List.cons_append, List.append_assoc,
        List.append_assoc, List.append_assoc, List.append_assoc] at h
      obtain ⟨rfl, hrest⟩ := le_append_inj 4 target target' ht ht' _ _ (List.cons.inj h).2
      have h1 := arguments_alike constrained S (depth + 1) arguments (ih target arguments rfl)
        arguments' F G _ _ harguments harguments' hF hG hlength (Or.inl ⟨r, rfl⟩)
        (Or.inl ⟨s, rfl⟩) hrest
      refine ⟨(List.cons.inj h1.rest).2, h1.length, h1.alike.byId, h1.alike.pairs, ?_⟩
      intro ρ
      rw [rename, Ty.reference.injEq, and_iff_right rfl]
      exact h1.alike.renames ρ

/-- **Arguments with equal bytes** have the same shape, and differ in indexed parameters only. -/
theorem argument_alike (a : Ty) : ArgumentAlike constrained S a := by
  induction a using Ty.ind with
  | parameter p => exact argument_alike_of constrained S _ nofun
  | reference target arguments ih =>
    refine argument_alike_of constrained S _ fun target' arguments' h => ?_
    obtain ⟨-, rfl⟩ := Ty.reference.inj h
    exact ih
  | other shape parts _ => exact argument_alike_of constrained S _ nofun

/-! ## where parameters stand -/

theorem mem_writeArguments (depth : Nat) (as : List Ty)
    (ih : ∀ a ∈ as, ∀ depth F p, p ∈ (writeArgument S.id constrained false depth a F).parameters →
      p ∈ F ∨ p ∈ indexed constrained depth a) (F : List Nat) (p : Nat)
    (h : p ∈ (writeArguments S.id constrained false depth as F).parameters) :
    p ∈ F ∨ p ∈ indexedAll constrained depth as := by
  induction as generalizing F with
  | nil => exact Or.inl h
  | cons a as ihl =>
    rw [indexedAll, List.mem_append]
    rcases ihl (fun x hx => ih x (List.mem_cons_of_mem a hx)) _ h with h | h
    · rcases ih a List.mem_cons_self depth F p h with h | h
      · exact Or.inl h
      · exact Or.inr (Or.inl h)
    · exact Or.inr (Or.inr h)

theorem mem_writeArgument (a : Ty) : ∀ depth F p,
    p ∈ (writeArgument S.id constrained false depth a F).parameters →
      p ∈ F ∨ p ∈ indexed constrained depth a := by
  induction a using Ty.ind with
  | parameter q =>
    intro depth F p h
    rw [writeArgument] at h
    rw [indexed]
    split at h
    next hc =>
      have hc : constrained q = false := by simpa using hc
      rw [if_neg (by simp [hc])]
      rw [writeIndex, register] at h
      split at h
      next => exact Or.inl h
      next => exact List.mem_append.1 h
    next => exact Or.inl h
  | reference target arguments ih =>
    intro depth F p h
    rw [writeArgument] at h
    rw [indexed, nested]
    split at h
    next hn =>
      rw [if_pos hn]
      exact mem_writeArguments constrained S _ arguments ih F p h
    next => exact Or.inl h
  | other shape parts _ =>
    intro depth F p h
    exact Or.inl h

/-- a parameter of the arguments has an index, or stands in an argument that is written by id -/
theorem mem_freeAll_iff (depth : Nat) (as : List Ty)
    (ih : ∀ a ∈ as, ∀ depth p, p ∈ free a ↔
      p ∈ indexed constrained depth a ∨ ∃ x ∈ byId constrained depth a, p ∈ free x) (p : Nat) :
    p ∈ freeAll as ↔
      p ∈ indexedAll constrained depth as ∨ ∃ x ∈ byIdAll constrained depth as, p ∈ free x := by
  induction as with
  | nil => simp [freeAll, indexedAll, byIdAll]
  | cons a as ihl =>
    have ihl := ihl fun x hx => ih x (List.mem_cons_of_mem a hx)
    rw [freeAll, indexedAll, byIdAll, List.mem_append, List.mem_append, ihl,
      ih a List.mem_cons_self depth p]
    constructor
    · rintro ((h | ⟨x, hx, h⟩) | (h | ⟨x, hx, h⟩))
      · exact Or.inl (Or.inl h)
      · exact Or.inr ⟨x, List.mem_append_left _ hx, h⟩
      · exact Or.inl (Or.inr h)
      · exact Or.inr ⟨x, List.mem_append_right _ hx, h⟩
    · rintro ((h | h) | ⟨x, hx, h⟩)
      · exact Or.inl (Or.inl h)
      · exact Or.inr (Or.inl h)
      · rcases List.mem_append.1 hx with hx | hx
        · exact Or.inl (Or.inr ⟨x, hx, h⟩)
        · exact Or.inr (Or.inr ⟨x, hx, h⟩)

theorem mem_free_iff (a : Ty) : ∀ depth p, p ∈ free a ↔
    p ∈ indexed constrained depth a ∨ ∃ x ∈ byId constrained depth a, p ∈ free x := by
  induction a using Ty.ind with
  | parameter q =>
    intro depth p
    rw [indexed, byId]
    cases constrained q with
    | true => simp
    | false => simp [free]
  | reference target arguments ih =>
    intro depth p
    rw [indexed, byId]
    split
    next => exact mem_freeAll_iff constrained (depth + 1) arguments ih p
    next => simp
  | other shape parts _ =>
    intro depth p
    rw [indexed, byId]
    simp

theorem indexedAll_append (depth : Nat) (as bs : List Ty) : indexedAll constrained depth (as ++ bs) =
    indexedAll constrained depth as ++ indexedAll constrained depth bs := by
  induction as with
  | nil => rfl
  | cons a as ih => rw [List.cons_append, indexedAll, indexedAll, ih, List.append_assoc]

theorem byIdAll_append (depth : Nat) (as bs : List Ty) : byIdAll constrained depth (as ++ bs) =
    byIdAll constrained depth as ++ byIdAll constrained depth bs := by
  induction as with
  | nil => rfl
  | cons a as ih => rw [List.cons_append, byIdAll, byIdAll, ih, List.append_assoc]

/-! ## pairs -/

/-- the parameters by index of two pairs of generic references with one key -/
structure Tables (a b : Ty × Ty) (F G : List Nat) : Prop where
  registered : Registered constrained S F
  registered' : Registered constrained S G
  length : F.length = G.length
  indexed : ∀ p ∈ F, p ∈ indexedAll constrained 0 (pairArguments a)
  free : free a.1 ++ free a.2 = freeAll (pairArguments a)
  alike : Alike F G (byIdAll constrained 0 (pairArguments a)) (byIdAll constrained 0 (pairArguments b))
    (indexedAll constrained 0 (pairArguments a)) (indexedAll constrained 0 (pairArguments b))
    fun r => rename r a.1 = b.1 ∧ rename r a.2 = b.2

/-- the renaming that two tables give -/
def tableRenaming (F G : List Nat) (p : Nat) : Nat :=
  if p ∈ F then G.getD (F.idxOf p) p else p

theorem tableRenaming_of_mem {F G : List Nat} {p : Nat} (hp : p ∈ F) :
    tableRenaming F G p = G.getD (F.idxOf p) p := if_pos hp

theorem tableRenaming_of_not_mem {F G : List Nat} {p : Nat} (hp : p ∉ F) :
    tableRenaming F G p = p := if_neg hp

theorem tableRenaming_paired {F G : List Nat} {p q : Nat} (h : Paired F G p q) :
    tableRenaming F G p = q := by
  obtain ⟨hp, hq, hidx⟩ := h
  rw [tableRenaming_of_mem hp, hidx, List.getD_eq_getElem?_getD, List.getElem?_idxOf hq]
  rfl

theorem tableRenaming_mem {F G : List Nat} (hlength : F.length = G.length) {p : Nat} (hp : p ∈ F) :
    tableRenaming F G p ∈ G := by
  have hlt : F.idxOf p < G.length := hlength ▸ List.idxOf_lt_length_of_mem hp
  rw [tableRenaming_of_mem hp, List.getD_eq_getElem _ _ hlt]
  exact List.getElem_mem hlt

theorem tableRenaming_inj {F G : List Nat} (hlength : F.length = G.length) (hG : G.Nodup) {p q : Nat}
    (hp : p ∈ F) (hq : q ∈ F) (h : tableRenaming F G p = tableRenaming F G q) : p = q := by
  have hltp : F.idxOf p < G.length := hlength ▸ List.idxOf_lt_length_of_mem hp
  have hltq : F.idxOf q < G.length := hlength ▸ List.idxOf_lt_length_of_mem hq
  rw [tableRenaming_of_mem hp, tableRenaming_of_mem hq, List.getD_eq_getElem _ _ hltp,
    List.getD_eq_getElem _ _ hltq] at h
  exact (List.idxOf_inj hp).1 ((List.Nodup.getElem_inj_iff hG).1 h)

variable {constrained S}

/-- the pairs of parameters with one index are those that the renaming takes to each other -/
theorem Tables.zip {a b : Ty × Ty} {F G : List Nat} (h : Tables constrained S a b F G) {p : Nat}
    (hp : p ∈ F) : (p, tableRenaming F G p) ∈
      (indexedAll constrained 0 (pairArguments a)).zip (indexedAll constrained 0 (pairArguments b)) := by
  have hpairs := h.alike.pairs
  obtain ⟨i, hi, hget⟩ := List.mem_iff_getElem.1 (h.indexed p hp)
  have hi' : i < (indexedAll constrained 0 (pairArguments b)).length := hpairs.length_eq ▸ hi
  have hpaired := hpairs.get hi hi'
  rw [List.get_eq_getElem, List.get_eq_getElem, hget] at hpaired
  rw [tableRenaming_paired hpaired]
  refine List.mem_iff_getElem.2 ⟨i, by rw [List.length_zip]; exact lt_min hi hi', ?_⟩
  rw [List.getElem_zip, hget]

theorem Tables.mem_free {a b : Ty × Ty} {F G : List Nat} (h : Tables constrained S a b F G) (p : Nat) :
    p ∈ RelationKey.free a.1 ++ RelationKey.free a.2 ↔
      p ∈ indexedAll constrained 0 (pairArguments a) ∨
        ∃ x ∈ byIdAll constrained 0 (pairArguments a), p ∈ RelationKey.free x := by
  rw [h.free]
  exact mem_freeAll_iff constrained 0 _ (fun x _ => mem_free_iff constrained x) p

/-- a renaming fixes what is written by id, and it is one-to-one -/
theorem Tables.separate {a b : Ty × Ty} {F G : List Nat} (h : Tables constrained S a b F G)
    {r : Nat → Nat} (hr : Renames constrained r a b) : Separate constrained a b := by
  obtain ⟨hpairs, hids⟩ := (h.alike.renames r).1 ⟨hr.source, hr.target⟩
  intro e he hne x hx
  have hfix := (rename_eq_self_iff r x).1 (hids x hx)
  have he' : r e.1 = e.2 := (List.forall₂_iff_zip.1 hpairs).2 he
  have hmem : e.1 ∈ RelationKey.free a.1 ++ RelationKey.free a.2 :=
    (h.mem_free e.1).2 (Or.inl (List.of_mem_zip he).1)
  constructor
  · intro hfree
    exact hne ((hfix e.1 hfree).symm.trans he')
  · intro hfree
    have hmem' := (h.mem_free e.2).2 (Or.inr ⟨x, hx, hfree⟩)
    exact hne (hr.oneToOne e.1 hmem e.2 hmem' (he'.trans (hfix e.2 hfree).symm))

theorem Tables.renames {a b : Ty × Ty} {F G : List Nat} (h : Tables constrained S a b F G)
    (hsep : Separate constrained a b) : Renames constrained (tableRenaming F G) a b := by
  have hpairs := h.alike.pairs.imp fun p q => tableRenaming_paired
  have hids : ∀ x ∈ byIdAll constrained 0 (pairArguments a), rename (tableRenaming F G) x = x := by
    intro x hx
    rw [rename_eq_self_iff]
    intro p hp
    by_cases hF : p ∈ F
    · by_contra hne
      exact (hsep _ (h.zip hF) (Ne.symm hne) x hx).1 hp
    · exact tableRenaming_of_not_mem hF
  -- a parameter without an index is not the image of one that has an index
  have hapart : ∀ p ∈ F, ∀ q ∈ RelationKey.free a.1 ++ RelationKey.free a.2, q ∉ F →
      tableRenaming F G p ≠ q := by
    intro p hp q hq hqF e
    have hzip := h.zip hp
    rw [e] at hzip
    have hne : p ≠ q := fun e => hqF (e ▸ hp)
    rcases (h.mem_free q).1 hq with hq | ⟨x, hx, hq⟩
    · obtain ⟨i, hi, hget⟩ := List.mem_iff_getElem.1 hq
      have hpaired := h.alike.pairs.get hi (h.alike.pairs.length_eq ▸ hi)
      rw [List.get_eq_getElem, hget] at hpaired
      exact hqF hpaired.1
    · exact (hsep _ hzip hne x hx).2 hq
  obtain ⟨hsource, htarget⟩ := (h.alike.renames _).2 ⟨hpairs, hids⟩
  refine ⟨hsource, htarget, ?_, ?_, ?_⟩
  · intro p hp hc
    refine tableRenaming_of_not_mem fun hF => ?_
    rw [h.registered.unconstrained p hF] at hc
    exact nomatch hc
  · intro p hp hc
    by_cases hF : p ∈ F
    · exact h.registered'.unconstrained _ (tableRenaming_mem h.length hF)
    · rw [tableRenaming_of_not_mem hF]
      exact hc
  · intro p hp q hq e
    by_cases hpF : p ∈ F
    · by_cases hqF : q ∈ F
      · exact tableRenaming_inj h.length h.registered'.nodup hpF hqF e
      · rw [tableRenaming_of_not_mem hqF] at e
        exact absurd e (hapart p hpF q hq hqF)
    · rw [tableRenaming_of_not_mem hpF] at e
      by_cases hqF : q ∈ F
      · exact absurd e.symm (hapart q hqF p hp hpF)
      · rw [tableRenaming_of_not_mem hqF] at e
        exact e

theorem generic_reference {a : Ty} (h : hasGenericArguments a = true) :
    ∃ target arguments, a = .reference target arguments ∧ anyGeneric arguments = true := by
  cases a with
  | parameter p => exact nomatch h
  | reference target arguments => exact ⟨target, arguments, rfl, h⟩
  | other shape parts => exact nomatch h

theorem pairArguments_generic {target target' : Nat} {as as' : List Ty} (h : anyGeneric as = true)
    (h' : anyGeneric as' = true) :
    pairArguments (.reference target as, .reference target' as') = as ++ as' := by
  rw [pairArguments, h, h']
  rfl

theorem pairArguments_plain {a : Ty × Ty}
    (h : (hasGenericArguments a.1 && hasGenericArguments a.2) = false) : pairArguments a = [] := by
  unfold pairArguments
  split
  next target as target' as' =>
    rw [if_neg]
    rw [hasGenericArguments, hasGenericArguments] at h
    rw [h]
    exact Bool.false_ne_true
  next => rfl

theorem freeAll_append (as bs : List Ty) : freeAll (as ++ bs) = freeAll as ++ freeAll bs := by
  induction as with
  | nil => rfl
  | cons a as ih => rw [List.cons_append, freeAll, freeAll, ih, List.append_assoc]

theorem orderedPair_types (identity : Bool) {a b : Ty} (ha : S.types a) (hb : S.types b) :
    S.types (orderedPair S.id identity a b).1 ∧ S.types (orderedPair S.id identity a b).2 := by
  unfold orderedPair
  split
  next => exact ⟨hb, ha⟩
  next => exact ⟨ha, hb⟩

/-- two pairs of generic references with equal keys -/
theorem tables (t1 t2 u1 u2 : Nat) (as1 as2 bs1 bs2 : List Ty) (i j : Nat)
    (hs : S.types (.reference t1 as1)) (ht : S.types (.reference t2 as2))
    (hs' : S.types (.reference u1 bs1)) (ht' : S.types (.reference u2 bs2))
    (has1 : anyGeneric as1 = true) (has2 : anyGeneric as2 = true)
    (hbs1 : anyGeneric bs1 = true) (hbs2 : anyGeneric bs2 = true)
    (h : (le 4 t1 ++ (writeArguments S.id constrained false 0 as1 []).bytes) ++
        44 :: (le 4 t2 ++ (writeArguments S.id constrained false 0 as2
          (writeArguments S.id constrained false 0 as1 []).parameters).bytes) ++ le 4 i =
      (le 4 u1 ++ (writeArguments S.id constrained false 0 bs1 []).bytes) ++
        44 :: (le 4 u2 ++ (writeArguments S.id constrained false 0 bs2
          (writeArguments S.id constrained false 0 bs1 []).parameters).bytes) ++ le 4 j) :
    ∃ F G, Tables constrained S (.reference t1 as1, .reference t2 as2)
      (.reference u1 bs1, .reference u2 bs2) F G := by
  obtain ⟨hb1, hty1⟩ := S.reference t1 as1 hs
  obtain ⟨hb2, hty2⟩ := S.reference t2 as2 ht
  obtain ⟨hb1', hty1'⟩ := S.reference u1 bs1 hs'
  obtain ⟨hb2', hty2'⟩ := S.reference u2 bs2 ht'
  have hnil : Registered constrained S [] :=
    ⟨List.nodup_nil, nofun, nofun⟩
  have hext : ∀ (as : List Ty), (∀ a ∈ as, S.types a) → ∀ F, Extends constrained S F
      (writeArguments S.id constrained false 0 as F).parameters := fun as htypes =>
    writeArguments_extends constrained S 0 as htypes fun x _ => writeArgument_extends constrained S x
  have hF := (hext as1 hty1 []).registered hnil
  have hG := (hext bs1 hty1' []).registered hnil
  rw [List.append_assoc, List.append_assoc, List.append_assoc, List.append_assoc] at h
  obtain ⟨rfl, hsource⟩ := le_append_inj 4 t1 u1 hb1 hb1' _ _ h
  rw [List.cons_append, List.cons_append, List.append_assoc, List.append_assoc] at hsource
  have h1 := arguments_alike constrained S 0 as1 (fun x _ => argument_alike constrained S x) bs1 [] []
    _ _ hty1 hty1' hnil hnil rfl (Or.inr (Or.inl ⟨_, rfl⟩)) (Or.inr (Or.inl ⟨_, rfl⟩)) hsource
  have hrest := (List.cons.inj h1.rest).2
  obtain ⟨rfl, htarget⟩ := le_append_inj 4 t2 u2 hb2 hb2' _ _ hrest
  have h2 := arguments_alike constrained S 0 as2 (fun x _ => argument_alike constrained S x) bs2 _ _
    _ _ hty2 hty2' hF hG h1.length (Or.inr (Or.inr (length_le 4 i))) (Or.inr (Or.inr (length_le 4 j)))
    htarget
  refine ⟨_, _, (hext as2 hty2 _).registered hF, (hext bs2 hty2' _).registered hG, h2.length, ?_, ?_, ?_⟩
  · intro p hp
    rw [pairArguments_generic has1 has2, indexedAll_append, List.mem_append]
    rcases mem_writeArguments constrained S 0 as2 (fun x _ => mem_writeArgument constrained S x) _ p hp
      with hp | hp
    · rcases mem_writeArguments constrained S 0 as1 (fun x _ => mem_writeArgument constrained S x) _ p
        hp with hp | hp
      · exact nomatch hp
      · exact Or.inl hp
    · exact Or.inr hp
  · rw [pairArguments_generic has1 has2, freeAll_append]
    rfl
  · rw [pairArguments_generic has1 has2, pairArguments_generic hbs1 hbs2, indexedAll_append,
      indexedAll_append, byIdAll_append, byIdAll_append]
    have hall := (h1.alike.extend (hext as2 hty2 _).append (hext bs2 hty2' _).append).append h2.alike
    refine ⟨hall.byId, hall.pairs, fun r => ?_⟩
    rw [rename, rename, Ty.reference.injEq, Ty.reference.injEq, and_iff_right rfl, and_iff_right rfl]
    exact hall.renames r

/-- **Pairs with equal keys.**  One is a renaming of the other exactly if no parameter that is
written by index, and is another one in the other pair, stands in an argument that is written by
its id. -/
theorem renames_iff (constrained : Nat → Bool) (S : Store) (source target source' target' : Ty)
    (intersection intersection' : Nat) (identity : Bool) (hs : S.types source) (ht : S.types target)
    (hs' : S.types source') (ht' : S.types target')
    (h : (relationKey S.id constrained false source target intersection identity).1 =
      (relationKey S.id constrained false source' target' intersection' identity).1) :
    (∃ r, Renames constrained r (orderedPair S.id identity source target)
      (orderedPair S.id identity source' target')) ↔
    Separate constrained (orderedPair S.id identity source target)
      (orderedPair S.id identity source' target') := by
  have htypes := orderedPair_types identity hs ht
  have htypes' := orderedPair_types identity hs' ht'
  rw [relationKey, relationKey] at h
  generalize orderedPair S.id identity source target = a at *
  generalize orderedPair S.id identity source' target' = b at *
  obtain ⟨a1, a2⟩ := a
  obtain ⟨b1, b2⟩ := b
  cases hga : hasGenericArguments a1 && hasGenericArguments a2 with
  | true =>
    cases hgb : hasGenericArguments b1 && hasGenericArguments b2 with
    | true =>
      simp only [hga, hgb, if_true] at h
      rw [Bool.and_eq_true] at hga hgb
      obtain ⟨t1, as1, rfl, has1⟩ := generic_reference hga.1
      obtain ⟨t2, as2, rfl, has2⟩ := generic_reference hga.2
      obtain ⟨u1, bs1, rfl, hbs1⟩ := generic_reference hgb.1
      obtain ⟨u2, bs2, rfl, hbs2⟩ := generic_reference hgb.2
      obtain ⟨F, G, htables⟩ := tables t1 t2 u1 u2 as1 as2 bs1 bs2 intersection intersection'
        htypes.1 htypes.2 htypes'.1 htypes'.2 has1 has2 hbs1 hbs2 (List.cons.inj h).2
      exact ⟨fun ⟨r, hr⟩ => htables.separate hr, fun hsep => ⟨_, htables.renames hsep⟩⟩
    | false =>
      simp only [hga, hgb, if_true, if_false, Bool.false_eq_true] at h
      exact absurd (List.cons.inj h).1 (by decide)
  | false =>
    cases hgb : hasGenericArguments b1 && hasGenericArguments b2 with
    | true =>
      simp only [hga, hgb, if_true, if_false, Bool.false_eq_true] at h
      exact absurd (List.cons.inj h).1 (by decide)
    | false =>
      simp only [hga, hgb, if_false, Bool.false_eq_true] at h
      rw [List.append_assoc, List.append_assoc, List.cons_append, List.cons_append] at h
      obtain ⟨h1, hrest⟩ := le_append_inj 4 _ _ (S.bound a1 htypes.1) (S.bound b1 htypes'.1) _ _
        (List.cons.inj h).2
      obtain ⟨h2, -⟩ := le_append_inj 4 _ _ (S.bound a2 htypes.2) (S.bound b2 htypes'.2) _ _ hrest
      obtain rfl := S.inj a1 b1 htypes.1 htypes'.1 h1
      obtain rfl := S.inj a2 b2 htypes.2 htypes'.2 h2
      constructor
      · intro _ e he
        rw [pairArguments_plain hga] at he
        exact nomatch he
      · intro _
        have hself := fun x => (rename_eq_self_iff id x).2 fun _ _ => rfl
        exact ⟨id, hself a1, hself a2, fun _ _ _ => rfl, fun _ _ hc => hc, fun _ _ _ _ e => e⟩

/-! ## two generic types over an object type -/

/-- object types that mention one type parameter each -/
def objectOf (p : Nat) : Ty := .other (10 + p) [.parameter p]

/-- two generic types, 20 and 21, with a type parameter and an object type as their arguments -/
def genericOf (target p q : Nat) : Ty := .reference target [.parameter p, objectOf q]

def smallId : Ty → Nat
  | .parameter p => p
  | .other shape _ => shape
  | .reference target (.parameter p :: .other shape _ :: _) => 10000 * target + 100 * shape + p
  | .reference _ _ => 0

inductive SmallType : Ty → Prop where
  | parameter (p : Nat) (hp : p < 3) : SmallType (.parameter p)
  | object (p : Nat) (hp : p < 3) : SmallType (objectOf p)
  | generic (target p q : Nat) (ht : target < 22 ∧ 20 ≤ target) (hp : p < 3) (hq : q < 3) :
      SmallType (genericOf target p q)

def smallStore : Store where
  id := smallId
  types := SmallType
  reference := by
    intro target arguments h
    cases h with
    | generic _ p q ht hp hq =>
      refine ⟨by omega, ?_⟩
      intro a ha
      rcases List.mem_cons.1 ha with rfl | ha
      · exact .parameter p hp
      · rw [List.mem_singleton.1 ha]
        exact .object q hq
  bound := by
    intro a h
    cases h with
    | parameter p hp => show p < 2 ^ 32; omega
    | object p hp => show 10 + p < 2 ^ 32; omega
    | generic target p q ht hp hq => show 10000 * target + 100 * (10 + q) + p < 2 ^ 32; omega
  inj := by
    intro a b ha hb h
    cases ha with
    | parameter p hp =>
      cases hb with
      | parameter p' hp' => exact congrArg Ty.parameter h
      | object p' hp' => change p = 10 + p' at h; omega
      | generic t' p' q' ht' hp' hq' => change p = 10000 * t' + 100 * (10 + q') + p' at h; omega
    | object p hp =>
      cases hb with
      | parameter p' hp' => change 10 + p = p' at h; omega
      | object p' hp' => exact congrArg objectOf (Nat.add_left_cancel h)
      | generic t' p' q' ht' hp' hq' =>
        change 10 + p = 10000 * t' + 100 * (10 + q') + p' at h
        omega
    | generic t p q ht hp hq =>
      cases hb with
      | parameter p' hp' => change 10000 * t + 100 * (10 + q) + p = p' at h; omega
      | object p' hp' => change 10000 * t + 100 * (10 + q) + p = 10 + p' at h; omega
      | generic t' p' q' ht' hp' hq' =>
        change 10000 * t + 100 * (10 + q) + p = 10000 * t' + 100 * (10 + q') + p' at h
        obtain ⟨rfl, rfl, rfl⟩ : t = t' ∧ p = p' ∧ q = q' := by omega
        rfl

theorem smallType (target p q : Nat) (ht : target < 22 ∧ 20 ≤ target) (hp : p < 3) (hq : q < 3) :
    smallStore.types (genericOf target p q) := .generic target p q ht hp hq

/-- an object type that mentions a third parameter -/
theorem renames_iff_third : ∃ r, Renames (fun _ => false) r
    (genericOf 20 0 2, genericOf 21 0 2) (genericOf 20 1 2, genericOf 21 1 2) :=
  (renames_iff (fun _ => false) smallStore (genericOf 20 0 2) (genericOf 21 0 2) (genericOf 20 1 2)
    (genericOf 21 1 2) 0 0 false (smallType 20 0 2 (by decide) (by decide) (by decide))
    (smallType 21 0 2 (by decide) (by decide) (by decide))
    (smallType 20 1 2 (by decide) (by decide) (by decide))
    (smallType 21 1 2 (by decide) (by decide) (by decide)) (by decide)).2 (by
      intro e he _ x hx
      simp [orderedPair, pairArguments, genericOf, objectOf, anyGeneric, indexedAll, indexed] at he
      simp [orderedPair, pairArguments, genericOf, objectOf, anyGeneric, byIdAll, byId] at hx
      subst he hx
      decide)

/-- **One key for two shapes.**  The parameter of the object type is the other argument in one pair,
and not in the other pair; the keys agree. -/
theorem keys_agree_without_renaming :
    (relationKey smallStore.id (fun _ => false) false (genericOf 20 0 0) (genericOf 21 0 0) 0 false).1 =
      (relationKey smallStore.id (fun _ => false) false (genericOf 20 1 0) (genericOf 21 1 0) 0
        false).1 ∧
    smallStore.types (genericOf 20 0 0) ∧ smallStore.types (genericOf 21 0 0) ∧
    smallStore.types (genericOf 20 1 0) ∧ smallStore.types (genericOf 21 1 0) ∧
    ¬ ∃ r, Renames (fun _ => false) r (genericOf 20 0 0, genericOf 21 0 0)
      (genericOf 20 1 0, genericOf 21 1 0) := by
  refine ⟨by decide, smallType 20 0 0 (by decide) (by decide) (by decide),
    smallType 21 0 0 (by decide) (by decide) (by decide),
    smallType 20 1 0 (by decide) (by decide) (by decide),
    smallType 21 1 0 (by decide) (by decide) (by decide), ?_⟩
  rintro ⟨r, hr⟩
  have h := hr.source
  simp [genericOf, objectOf, rename, renameAll] at h
  omega

end

end Tsr.Checker.RelationKey
