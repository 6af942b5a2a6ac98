import Tsr.Ast.DiagnosticOrder
import Tsr.Lib.Compare
import Tsr.Lib.Result

/-!
# Diagnostics are in order

The comparison looks at the sizes of the chains before it looks at their contents, so the pairs it
takes of two chains of equal size leave nothing out.

* `chainSize_lawful`      by size;
* `chainContent_lawful`   by content, among chains of one size;
* `compare_lawful`        the whole comparison, in one memory;
* `equal_iff`             what equal diagnostics have in common;
* `diagnostics_ordered`   a total preorder, an equivalence, and equal diagnostics compare equal.
-/

namespace Tsr.Ast
open Tsr.Lib.Compare Tsr.Lib.Result

/-! ## sizes -/

theorem sizeOf_chain {d x : Diagnostic} (h : x ∈ d.messageChain) : sizeOf x < sizeOf d := by
  cases d with
  | mk address fields chain related =>
    have hx := List.sizeOf_lt_of_mem (show x ∈ chain from h)
    rw [Diagnostic.mk.sizeOf_spec]
    omega

theorem sizeOf_related {d x : Diagnostic} (h : x ∈ d.relatedInformation) : sizeOf x < sizeOf d := by
  cases d with
  | mk address fields chain related =>
    have hx := List.sizeOf_lt_of_mem (show x ∈ related from h)
    rw [Diagnostic.mk.sizeOf_spec]
    omega

/-- both are smaller than `n` -/
def Below (n : Nat) (a b : Diagnostic) : Prop := sizeOf a < n ∧ sizeOf b < n

theorem lawful_of_below {R : Diagnostic → Diagnostic → Prop} {c : Diagnostic → Diagnostic → Option Ordering}
    (h : ∀ n, LawfulOn (fun a b => R a b ∧ Below n a b) c) : LawfulOn R c where
  swap := by
    intro a b o hab
    exact (h (sizeOf a + sizeOf b + 1)).swap a b o ⟨hab, by omega, by omega⟩
  trans := by
    intro a b d o o' hab hbd
    exact (h (sizeOf a + sizeOf b + sizeOf d + 1)).trans a b d o o' ⟨hab, by omega, by omega⟩
      ⟨hbd, by omega, by omega⟩

theorem forall₂_of_mem {R : Diagnostic → Diagnostic → Prop} {as bs : List Diagnostic}
    (hlength : as.length = bs.length) (h : ∀ a ∈ as, ∀ b ∈ bs, R a b) : List.Forall₂ R as bs := by
  refine List.forall₂_iff_zip.2 ⟨hlength, ?_⟩
  intro a b hab
  exact h a (List.of_mem_zip hab).1 b (List.of_mem_zip hab).2

theorem forall₂_and_mem {R S : Diagnostic → Diagnostic → Prop} {as bs : List Diagnostic}
    (hR : List.Forall₂ R as bs) (h : ∀ a ∈ as, ∀ b ∈ bs, S a b) :
    List.Forall₂ (fun a b => R a b ∧ S a b) as bs := by
  obtain ⟨hlength, hzip⟩ := List.forall₂_iff_zip.1 hR
  refine List.forall₂_iff_zip.2 ⟨hlength, ?_⟩
  intro a b hab
  exact ⟨hzip hab, h a (List.of_mem_zip hab).1 b (List.of_mem_zip hab).2⟩

theorem below_chain {n : Nat} {a b x y : Diagnostic} (h : Below (n + 1) a b) (hx : x ∈ a.messageChain)
    (hy : y ∈ b.messageChain) : Below n x y := by
  obtain ⟨ha, hb⟩ := h
  have h1 := sizeOf_chain hx
  have h2 := sizeOf_chain hy
  exact ⟨by omega, by omega⟩

theorem below_related {n : Nat} {a b x y : Diagnostic} (h : Below (n + 1) a b)
    (hx : x ∈ a.relatedInformation) (hy : y ∈ b.relatedInformation) : Below n x y := by
  obtain ⟨ha, hb⟩ := h
  have h1 := sizeOf_related hx
  have h2 := sizeOf_related hy
  exact ⟨by omega, by omega⟩

/-! ## the comparison of chains -/

theorem chainSizePairs_eq (as bs : List Diagnostic) :
    all (fun a b => some (compareChainSizeBelow a b)) as bs = some (compareChainSizePairs as bs) := by
  induction as generalizing bs with
  | nil => rfl
  | cons a as ih =>
    cases bs with
    | nil => rfl
    | cons b bs =>
      show andThen (some (compareChainSizeBelow a b)) (all _ as bs) =
        some ((compareChainSizeBelow a b).then (compareChainSizePairs as bs))
      rw [ih]
      cases compareChainSizeBelow a b <;> rfl

theorem chainContent_eq (as bs : List Diagnostic) :
    all (fun a b => some (compareChainContentBelow a b)) as bs = some (compareMessageChainContent as bs) := by
  induction as generalizing bs with
  | nil => rfl
  | cons a as ih =>
    cases bs with
    | nil => rfl
    | cons b bs =>
      show andThen (some (compareChainContentBelow a b)) (all _ as bs) =
        some ((compareChainContentBelow a b).then (compareMessageChainContent as bs))
      rw [ih]
      cases compareChainContentBelow a b <;> rfl

theorem chainSizeBelow_eq (a b : Diagnostic) :
    compareChainSizeBelow a b = compareMessageChainSize a.messageChain b.messageChain := by
  cases a
  rfl

theorem chainContentBelow_eq (a b : Diagnostic) :
    compareChainContentBelow a b =
      (compare a.fields.messageArgs b.fields.messageArgs).then
        (compareMessageChainContent a.messageChain b.messageChain) := by
  cases a
  rfl

theorem lawful_longer (R : Diagnostic → Diagnostic → Prop) (f : Diagnostic → List Diagnostic) :
    LawfulOn R fun a b => some (compare (f b).length (f a).length) :=
  lawful_flip (lawful_compare (fun a b => R b a) fun d => (f d).length)

theorem same_sizes {as bs : List Diagnostic} (hlength : as.length = bs.length)
    (hpairs : compareChainSizePairs as bs = .eq) :
    List.Forall₂ (fun a b => compareChainSizeBelow a b = .eq) as bs := by
  induction as generalizing bs with
  | nil =>
    rw [List.eq_nil_of_length_eq_zero hlength.symm]
    exact .nil
  | cons a as ih =>
    cases bs with
    | nil => cases hlength
    | cons b bs =>
      obtain ⟨hhead, htail⟩ := Ordering.then_eq_eq.1 hpairs
      exact .cons hhead (ih (Nat.succ.inj hlength) htail)

/-- chains of one size, down to the last message -/
theorem same_size {as bs : List Diagnostic} (h : compareMessageChainSize as bs = .eq) :
    List.Forall₂ (fun a b => compareChainSizeBelow a b = .eq) as bs := by
  obtain ⟨hlength, hpairs⟩ := Ordering.then_eq_eq.1 h
  exact same_sizes (Nat.compare_eq_eq.1 hlength).symm hpairs

theorem chainSize_lawful : Lawful fun a b => some (compareChainSizeBelow a b) := by
  apply lawful_of_below
  intro n
  induction n with
  | zero => exact lawful_of_empty _ fun a b h => Nat.not_lt_zero _ h.2.1
  | succ n ih =>
    have hpairs : LawfulOn (fun a b : Diagnostic => (True ∧ Below (n + 1) a b) ∧
        compare b.messageChain.length a.messageChain.length = .eq)
        fun a b => some (compareChainSizePairs a.messageChain b.messageChain) := by
      have h := lawful_comap Diagnostic.messageChain (lawful_all_related ih)
      refine (h.mono ?_).congr (fun a b _ => ⟨chainSizePairs_eq _ _, chainSizePairs_eq _ _⟩)
        (fun a b d _ _ => chainSizePairs_eq _ _)
      intro a b hab
      refine forall₂_of_mem (Nat.compare_eq_eq.1 hab.2).symm ?_
      intro x hx y hy
      exact ⟨trivial, below_chain hab.1.2 hx hy⟩
    have h := lawful_then (lawful_longer _ Diagnostic.messageChain) hpairs
    exact h.congr (fun a b _ => ⟨by rw [chainSizeBelow_eq]; rfl, by rw [chainSizeBelow_eq]; rfl⟩)
      (fun a b d _ _ => by rw [chainSizeBelow_eq]; rfl)

theorem chainContent_lawful :
    LawfulOn (fun a b => compareChainSizeBelow a b = .eq) fun a b => some (compareChainContentBelow a b) := by
  apply lawful_of_below
  intro n
  induction n with
  | zero => exact lawful_of_empty _ fun a b h => Nat.not_lt_zero _ h.2.1
  | succ n ih =>
    have hchains : LawfulOn (fun a b : Diagnostic => (compareChainSizeBelow a b = .eq ∧ Below (n + 1) a b) ∧
        compare a.fields.messageArgs b.fields.messageArgs = .eq)
        fun a b => some (compareMessageChainContent a.messageChain b.messageChain) := by
      have h := lawful_comap Diagnostic.messageChain (lawful_all_related ih)
      refine (h.mono ?_).congr (fun a b _ => ⟨chainContent_eq _ _, chainContent_eq _ _⟩)
        (fun a b d _ _ => chainContent_eq _ _)
      intro a b hab
      have hsize := hab.1.1
      rw [chainSizeBelow_eq] at hsize
      exact forall₂_and_mem (same_size hsize) fun x hx y hy => below_chain hab.1.2 hx hy
    have h := lawful_then (lawful_compare _ fun d : Diagnostic => d.fields.messageArgs) hchains
    exact h.congr (fun a b _ => ⟨by rw [chainContentBelow_eq], by rw [chainContentBelow_eq]⟩)
      (fun a b d _ _ => by rw [chainContentBelow_eq])

theorem chains_lawful (R : Diagnostic → Diagnostic → Prop) :
    LawfulOn R fun a b => some (compareMessageChainSize a.messageChain b.messageChain) :=
  (chainSize_lawful.on R).congr
    (fun a b _ => ⟨by rw [chainSizeBelow_eq], by rw [chainSizeBelow_eq]⟩)
    (fun a b d _ _ => by rw [chainSizeBelow_eq])

theorem contents_lawful {R : Diagnostic → Diagnostic → Prop}
    (hR : ∀ a b, R a b → compareMessageChainSize a.messageChain b.messageChain = .eq) :
    LawfulOn R fun a b => some (compareMessageChainContent a.messageChain b.messageChain) := by
  have h := lawful_comap Diagnostic.messageChain (lawful_all_related chainContent_lawful)
  refine (h.mono ?_).congr (fun a b _ => ⟨chainContent_eq _ _, chainContent_eq _ _⟩)
    (fun a b d _ _ => chainContent_eq _ _)
  intro a b hab
  exact same_size (hR a b hab)

/-! ## the whole comparison -/

theorem messages_lawful (R : Diagnostic → Diagnostic → Prop) :
    LawfulOn R fun a b => some (compareMessages a b) := by
  unfold compareMessages
  apply lawful_then
  · apply lawful_then
    · apply lawful_then
      · apply lawful_then
        · apply lawful_then
          · apply lawful_then
            · apply lawful_then
              · apply lawful_then
                · exact lawful_compare _ fun d : Diagnostic => d.fields.loc.pos.toInt
                · exact lawful_compare _ fun d : Diagnostic => d.fields.loc.stop.toInt
              · exact lawful_compare _ fun d : Diagnostic => d.fields.code.toInt
            · exact lawful_compare _ fun d : Diagnostic => d.fields.category.toInt
          · exact lawful_compare _ fun d : Diagnostic => d.fields.source
        · exact lawful_compare _ fun d : Diagnostic => messageIdentity d.fields
      · exact lawful_compare _ fun d : Diagnostic => d.fields.messageArgs
    · exact chains_lawful _
  · -- the sizes are equal here, so the pairs are the whole chains
    exact contents_lawful fun a b hab => (Ordering.then_eq_eq.1 hab.2).2

section
variable {E : Type} (fileName : NodeId → Except E JsString)

/-- a comparison that may have failed -/
def outcome (a b : Diagnostic) : Option Ordering := (compareDiagnostics fileName a b).toOption

def path (d : Diagnostic) : Option JsString := (diagnosticPath fileName d.fields).toOption

theorem relatedPairs_eq (as bs : List Diagnostic) :
    (compareRelatedPairs fileName as bs).toOption = all (outcome fileName) as bs := by
  induction as generalizing bs with
  | nil => rfl
  | cons a as ih =>
    cases bs with
    | nil => rfl
    | cons b bs =>
      unfold compareRelatedPairs all
      rw [← ih bs, outcome]
      cases compareDiagnostics fileName a b with
      | error e => rfl
      | ok o => cases o <;> rfl

theorem outcome_eq (a b : Diagnostic) :
    outcome fileName a b =
      if a.address = b.address then some .eq
      else andThen (keyed (path fileName) (fun x y => some (compare x y)) a b)
        (andThen (some (compareMessages a b))
          (andThen (some (compare b.relatedInformation.length a.relatedInformation.length))
            (all (outcome fileName) a.relatedInformation b.relatedInformation))) := by
  cases a with
  | mk address fields chain related =>
    show (compareDiagnostics fileName _ b).toOption = if address = b.address then _ else _
    unfold compareDiagnostics
    split
    next => rfl
    next =>
      rw [← relatedPairs_eq]
      unfold keyed path
      show Except.toOption _ = andThen (Option.bind (diagnosticPath fileName fields).toOption _) _
      cases diagnosticPath fileName fields with
      | error e => rfl
      | ok x =>
        cases diagnosticPath fileName b.fields with
        | error e => rfl
        | ok y =>
          show Except.toOption (if compare x y ≠ .eq then _ else _) = andThen (some (compare x y)) _
          cases compare x y with
          | lt => rfl
          | gt => rfl
          | eq =>
            generalize hmessages : compareMessages _ b = o
            show Except.toOption (if o ≠ .eq then _ else _) = andThen (some o) _
            cases o with
            | lt => rfl
            | gt => rfl
            | eq =>
              show Except.toOption (compareRelatedInfo related b.relatedInformation _) =
                andThen (some (compare b.relatedInformation.length related.length)) _
              unfold compareRelatedInfo
              dsimp only
              cases compare b.relatedInformation.length related.length <;> rfl

theorem compare_lawful (memory : Memory) :
    LawfulOn (fun a b => memory.Live a ∧ memory.Live b) (outcome fileName) := by
  apply lawful_of_below
  intro n
  induction n with
  | zero => exact lawful_of_empty _ fun a b h => Nat.not_lt_zero _ h.2.1
  | succ n ih =>
    have hrelated : LawfulOn (fun a b : Diagnostic =>
        ((((memory.Live a ∧ memory.Live b) ∧ Below (n + 1) a b) ∧
          keyed (path fileName) (fun x y => some (compare x y)) a b = some .eq) ∧
          some (compareMessages a b) = some .eq) ∧
          some (compare b.relatedInformation.length a.relatedInformation.length) = some .eq)
        fun a b => all (outcome fileName) a.relatedInformation b.relatedInformation := by
      refine (lawful_comap Diagnostic.relatedInformation (lawful_all_related ih)).mono ?_
      intro a b hab
      obtain ⟨⟨⟨⟨hlive, hbelow⟩, _⟩, _⟩, hlength⟩ := hab
      refine forall₂_of_mem (Nat.compare_eq_eq.1 (Option.some.inj hlength)).symm ?_
      intro x hx y hy
      exact ⟨⟨memory.related a hlive.1 x hx, memory.related b hlive.2 y hy⟩, below_related hbelow hx hy⟩
    have hbody := lawful_andThen (lawful_keyed (lawful_compare _ id))
      (lawful_andThen (messages_lawful _) (lawful_andThen (lawful_longer _ _) hrelated))
    have h := lawful_sameBy Diagnostic.address (fun a b hab e => memory.one a b hab.1.1 hab.1.2 e)
      (fun a b d hab hbd e => memory.one a d hab.1.1 hbd.1.2 e) hbody
    exact h.congr (fun a b _ => ⟨(outcome_eq fileName a b).symm, (outcome_eq fileName b a).symm⟩)
      (fun a b d _ _ => (outcome_eq fileName a d).symm)

/-! ## what equal diagnostics have in common -/

theorem equalChainPairs_iff {as bs : List Diagnostic} (hlength : as.length = bs.length) :
    equalChainPairs as bs = true ↔ List.Forall₂ (fun a b => equalMessageChain a b = true) as bs := by
  induction as generalizing bs with
  | nil =>
    rw [List.eq_nil_of_length_eq_zero hlength.symm]
    exact ⟨fun _ => .nil, fun _ => rfl⟩
  | cons a as ih =>
    cases bs with
    | nil => cases hlength
    | cons b bs =>
      unfold equalChainPairs
      rw [Bool.and_eq_true, ih (Nat.succ.inj hlength), List.forall₂_cons]

theorem equalChains_iff {as bs : List Diagnostic} :
    equalChains as bs = true ↔ List.Forall₂ (fun a b => equalMessageChain a b = true) as bs := by
  unfold equalChains
  rw [Bool.and_eq_true, beq_iff_eq]
  constructor
  · intro h
    exact (equalChainPairs_iff h.1).1 h.2
  · intro h
    exact ⟨h.length_eq, (equalChainPairs_iff h.length_eq).2 h⟩

theorem equalMessageChain_iff {a b : Diagnostic} :
    equalMessageChain a b = true ↔
      a.address = b.address ∨ (a.fields.code = b.fields.code ∧ a.fields.messageArgs = b.fields.messageArgs ∧
        List.Forall₂ (fun a b => equalMessageChain a b = true) a.messageChain b.messageChain) := by
  cases a with
  | mk address fields chain related =>
    rw [← equalChains_iff]
    unfold equalMessageChain
    rw [Bool.or_eq_true, Bool.and_eq_true, Bool.and_eq_true, beq_iff_eq, beq_iff_eq, beq_iff_eq, and_assoc]
    rfl

/-- two diagnostics pass a test if they are one, or have `F` in common and their `kids` pass it -/
structure Tested (memory : Memory) (kids : Diagnostic → List Diagnostic)
    (F E : Diagnostic → Diagnostic → Prop) : Prop where
  smaller : ∀ a, ∀ x ∈ kids a, sizeOf x < sizeOf a
  live : ∀ a, memory.Live a → ∀ x ∈ kids a, memory.Live x
  iff : ∀ a b, E a b ↔ a.address = b.address ∨ (F a b ∧ List.Forall₂ E (kids a) (kids b))
  symm : ∀ a b, F a b → F b a
  trans : ∀ a b d, memory.Live a → memory.Live b → memory.Live d → F a b → F b d → F a d

theorem forall₂_trans {E : Diagnostic → Diagnostic → Prop} {as bs ds : List Diagnostic}
    (h : List.Forall₂ E as bs) (h' : List.Forall₂ E bs ds)
    (htrans : ∀ a ∈ as, ∀ b ∈ bs, ∀ d ∈ ds, E a b → E b d → E a d) : List.Forall₂ E as ds := by
  induction h generalizing ds with
  | nil =>
    cases h'
    exact .nil
  | @cons a b as bs hab _ ih =>
    cases h' with
    | @cons _ d _ ds hbd h' =>
      refine .cons (htrans a List.mem_cons_self b List.mem_cons_self d List.mem_cons_self hab hbd) (ih h' ?_)
      intro x hx y hy z hz
      exact htrans x (List.mem_cons_of_mem _ hx) y (List.mem_cons_of_mem _ hy) z (List.mem_cons_of_mem _ hz)

namespace Tested

variable {memory : Memory} {kids : Diagnostic → List Diagnostic} {F E : Diagnostic → Diagnostic → Prop}

theorem self (h : Tested memory kids F E) (a : Diagnostic) : E a a := (h.iff a a).2 (Or.inl rfl)

theorem turn (h : Tested memory kids F E) {a b : Diagnostic} (hab : E a b) : E b a := by
  suffices hn : ∀ n a b, sizeOf a < n → E a b → E b a from hn (sizeOf a + 1) a b (Nat.lt_succ_self _) hab
  intro n
  induction n with
  | zero => exact fun a b hsize => absurd hsize (Nat.not_lt_zero _)
  | succ n ih =>
    intro a b hsize hab
    rcases (h.iff a b).1 hab with e | ⟨hF, hkids⟩
    · exact (h.iff b a).2 (Or.inl e.symm)
    · refine (h.iff b a).2 (Or.inr ⟨h.symm a b hF, List.Forall₂.flip ?_⟩)
      have hsmall : ∀ x ∈ kids a, ∀ y ∈ kids b, sizeOf x < n := by
        intro x hx y _
        have := h.smaller a x hx
        omega
      exact (forall₂_and_mem hkids hsmall).imp fun x y hxy => ih x y hxy.2 hxy.1

theorem link (h : Tested memory kids F E) {a b d : Diagnostic} (ha : memory.Live a) (hb : memory.Live b)
    (hd : memory.Live d) (hab : E a b) (hbd : E b d) : E a d := by
  suffices hn : ∀ n a b d, sizeOf a < n → memory.Live a → memory.Live b → memory.Live d → E a b → E b d → E a d from
    hn (sizeOf a + 1) a b d (Nat.lt_succ_self _) ha hb hd hab hbd
  clear hab hbd ha hb hd a b d
  intro n
  induction n with
  | zero => exact fun a b d hsize => absurd hsize (Nat.not_lt_zero _)
  | succ n ih =>
    intro a b d hsize ha hb hd hab hbd
    rcases (h.iff a b).1 hab with e | ⟨hF, hkids⟩
    · rw [memory.one a b ha hb e]
      exact hbd
    · rcases (h.iff b d).1 hbd with e | ⟨hF', hkids'⟩
      · rw [← memory.one b d hb hd e]
        exact hab
      · refine (h.iff a d).2 (Or.inr ⟨h.trans a b d ha hb hd hF hF', forall₂_trans hkids hkids' ?_⟩)
        intro x hx y hy z hz
        have hx' := h.smaller a x hx
        exact ih x y z (by omega) (h.live a ha x hx) (h.live b hb y hy) (h.live d hd z hz)

end Tested

theorem chain_tested (memory : Memory) : Tested memory Diagnostic.messageChain
    (fun a b => a.fields.code = b.fields.code ∧ a.fields.messageArgs = b.fields.messageArgs)
    (fun a b => equalMessageChain a b = true) where
  smaller := fun _ _ hx => sizeOf_chain hx
  live := memory.chain
  iff := by
    intro a b
    rw [equalMessageChain_iff, and_assoc]
  symm := fun a b h => ⟨h.1.symm, h.2.symm⟩
  trans := fun a b d _ _ _ h h' => ⟨h.1.trans h'.1, h.2.trans h'.2⟩

/-! ## equal diagnostics -/

/-- what is asked of the diagnostics themselves -/
structure Common (a b : Diagnostic) : Prop where
  path : ∃ p, path fileName a = some p ∧ path fileName b = some p
  loc : a.fields.loc = b.fields.loc
  code : a.fields.code = b.fields.code
  category : a.fields.category = b.fields.category
  source : a.fields.source = b.fields.source
  identity : messageIdentity a.fields = messageIdentity b.fields
  args : a.fields.messageArgs = b.fields.messageArgs
  chain : List.Forall₂ (fun a b => equalMessageChain a b = true) a.messageChain b.messageChain

theorem toOption_eq_some {x : Except E JsString} {p : JsString} : x.toOption = some p ↔ x = .ok p := by
  cases x with
  | error e =>
    constructor
    · intro h
      cases h
    · intro h
      cases h
  | ok q => exact ⟨fun h => congrArg Except.ok (Option.some.inj h), fun h => congrArg some (Except.ok.inj h)⟩

theorem noRelatedInfo_iff {a b : Diagnostic} :
    equalDiagnosticsNoRelatedInfo fileName a b = .ok true ↔ a.address = b.address ∨ Common fileName a b := by
  unfold equalDiagnosticsNoRelatedInfo
  split
  next e => exact ⟨fun _ => Or.inl e, fun _ => rfl⟩
  next hne =>
    constructor
    · intro h
      obtain ⟨x, hx, h⟩ := (bind_eq_ok _ _ _).1 h
      obtain ⟨y, hy, h⟩ := (bind_eq_ok _ _ _).1 h
      have h := Except.ok.inj h
      simp only [Bool.and_eq_true, beq_iff_eq] at h
      obtain ⟨⟨⟨⟨⟨⟨⟨hpath, hloc⟩, hcode⟩, hcategory⟩, hsource⟩, hidentity⟩, hargs⟩, hchain⟩ := h
      subst hpath
      exact Or.inr ⟨⟨x, toOption_eq_some.2 hx, toOption_eq_some.2 hy⟩, hloc, hcode, hcategory, hsource,
        hidentity, hargs, equalChains_iff.1 hchain⟩
    · intro h
      obtain ⟨⟨p, hx, hy⟩, hloc, hcode, hcategory, hsource, hidentity, hargs, hchain⟩ := h.resolve_left hne
      rw [toOption_eq_some.1 hx, toOption_eq_some.1 hy, ok_bind, ok_bind, hloc, hcode, hcategory, hsource,
        hidentity, hargs, equalChains_iff.2 hchain]
      simp only [beq_self_eq_true, Bool.and_self, pure_eq_ok]

theorem equalRelatedPairs_iff {as bs : List Diagnostic} (hlength : as.length = bs.length) :
    equalRelatedPairs fileName as bs = .ok true ↔
      List.Forall₂ (fun a b => equalDiagnostics fileName a b = .ok true) as bs := by
  induction as generalizing bs with
  | nil =>
    rw [List.eq_nil_of_length_eq_zero hlength.symm]
    exact ⟨fun _ => .nil, fun _ => rfl⟩
  | cons a as ih =>
    cases bs with
    | nil => cases hlength
    | cons b bs =>
      unfold equalRelatedPairs
      rw [List.forall₂_cons, ← ih (Nat.succ.inj hlength)]
      generalize equalDiagnostics fileName a b = result
      constructor
      · intro h
        obtain ⟨equal, rfl, h⟩ := (bind_eq_ok _ _ _).1 h
        cases equal with
        | false => cases h
        | true => exact ⟨rfl, h⟩
      · intro h
        rw [h.1]
        exact h.2

theorem equalDiagnostics_eq (a b : Diagnostic) :
    equalDiagnostics fileName a b =
      if a.address = b.address then .ok true
      else (equalDiagnosticsNoRelatedInfo fileName a b >>= fun equal =>
        if !equal || a.relatedInformation.length != b.relatedInformation.length then .ok false
        else equalRelatedPairs fileName a.relatedInformation b.relatedInformation) := by
  cases a
  rfl

theorem equal_iff {a b : Diagnostic} :
    equalDiagnostics fileName a b = .ok true ↔
      a.address = b.address ∨ (Common fileName a b ∧
        List.Forall₂ (fun a b => equalDiagnostics fileName a b = .ok true) a.relatedInformation
          b.relatedInformation) := by
  rw [equalDiagnostics_eq fileName a b]
  by_cases e : a.address = b.address
  · rw [if_pos e]
    exact ⟨fun _ => Or.inl e, fun _ => rfl⟩
  · rw [if_neg e]
    constructor
    · intro h
      obtain ⟨equal, hequal, h⟩ := (bind_eq_ok _ _ _).1 h
      split at h
      next => cases h
      next hboth =>
        simp only [Bool.or_eq_true, Bool.not_eq_true', bne_iff_ne, not_or, Bool.not_eq_false, ne_eq,
          not_not] at hboth
        rw [hboth.1] at hequal
        exact Or.inr ⟨((noRelatedInfo_iff fileName).1 hequal).resolve_left e,
          (equalRelatedPairs_iff fileName hboth.2).1 h⟩
    · intro h
      obtain ⟨hcommon, hrelated⟩ := h.resolve_left e
      rw [(noRelatedInfo_iff fileName).2 (Or.inr hcommon), ok_bind, hrelated.length_eq]
      simp only [Bool.not_true, bne_self_eq_false, Bool.or_self, Bool.false_eq_true, if_false]
      exact (equalRelatedPairs_iff fileName hrelated.length_eq).2 hrelated

theorem equal_tested (memory : Memory) : Tested memory Diagnostic.relatedInformation (Common fileName)
    (fun a b => equalDiagnostics fileName a b = .ok true) where
  smaller := fun _ _ hx => sizeOf_related hx
  live := memory.related
  iff := fun _ _ => equal_iff fileName
  symm := by
    intro a b h
    obtain ⟨⟨p, hx, hy⟩, hloc, hcode, hcategory, hsource, hidentity, hargs, hchain⟩ := h
    refine ⟨⟨p, hy, hx⟩, hloc.symm, hcode.symm, hcategory.symm, hsource.symm, hidentity.symm, hargs.symm, ?_⟩
    exact List.Forall₂.flip (hchain.imp fun x y hxy => (chain_tested memory).turn hxy)
  trans := by
    intro a b d ha hb hd h h'
    obtain ⟨p, hx, hy⟩ := h.path
    obtain ⟨q, hy', hz⟩ := h'.path
    rw [hy] at hy'
    obtain rfl := Option.some.inj hy'
    refine ⟨⟨p, hx, hz⟩, h.loc.trans h'.loc, h.code.trans h'.code, h.category.trans h'.category,
      h.source.trans h'.source, h.identity.trans h'.identity, h.args.trans h'.args,
      forall₂_trans h.chain h'.chain ?_⟩
    intro x hx y hy z hz
    exact (chain_tested memory).link (memory.chain a ha x hx) (memory.chain b hb y hy) (memory.chain d hd z hz)

/-! ## equal diagnostics compare equal -/

theorem chain_same (memory : Memory) (n : Nat) (a b : Diagnostic) (hsize : sizeOf a < n) (ha : memory.Live a)
    (hb : memory.Live b) (h : equalMessageChain a b = true) :
    compareChainSizeBelow a b = .eq ∧ compareChainContentBelow a b = .eq := by
  induction n generalizing a b with
  | zero => exact absurd hsize (Nat.not_lt_zero _)
  | succ n ih =>
    rcases equalMessageChain_iff.1 h with e | ⟨_, hargs, hchain⟩
    · obtain rfl := memory.one a b ha hb e
      have hself : compareChainSizeBelow a a = .eq := chainSize_lawful.self trivial rfl
      exact ⟨hself, chainContent_lawful.self hself rfl⟩
    · have hboth : List.Forall₂ (fun x y => compareChainSizeBelow x y = .eq ∧ compareChainContentBelow x y = .eq)
          a.messageChain b.messageChain := by
        have hbelow : ∀ x ∈ a.messageChain, ∀ y ∈ b.messageChain,
            sizeOf x < n ∧ memory.Live x ∧ memory.Live y := by
          intro x hx y hy
          have := sizeOf_chain hx
          exact ⟨by omega, memory.chain a ha x hx, memory.chain b hb y hy⟩
        exact (forall₂_and_mem hchain hbelow).imp fun x y hxy => ih x y hxy.2.1 hxy.2.2.1 hxy.2.2.2 hxy.1
      have hsizes := all_equal (hboth.imp fun x y hxy => congrArg some hxy.1)
      have hcontents := all_equal (hboth.imp fun x y hxy => congrArg some hxy.2)
      rw [chainSizePairs_eq] at hsizes
      rw [chainContent_eq] at hcontents
      rw [chainSizeBelow_eq, chainContentBelow_eq, compareMessageChainSize, hargs, hboth.length_eq]
      exact ⟨Ordering.then_eq_eq.2 ⟨Std.ReflOrd.compare_self, Option.some.inj hsizes⟩,
        Ordering.then_eq_eq.2 ⟨Std.ReflOrd.compare_self, Option.some.inj hcontents⟩⟩

theorem common_same (memory : Memory) {a b : Diagnostic} (ha : memory.Live a) (hb : memory.Live b)
    (h : Common fileName a b) : compareMessages a b = .eq := by
  have hboth : List.Forall₂ (fun x y => compareChainSizeBelow x y = .eq ∧ compareChainContentBelow x y = .eq)
      a.messageChain b.messageChain := by
    have hlive : ∀ x ∈ a.messageChain, ∀ y ∈ b.messageChain, memory.Live x ∧ memory.Live y :=
      fun x hx y hy => ⟨memory.chain a ha x hx, memory.chain b hb y hy⟩
    exact (forall₂_and_mem h.chain hlive).imp fun x y hxy =>
      chain_same memory (sizeOf x + 1) x y (Nat.lt_succ_self _) hxy.2.1 hxy.2.2 hxy.1
  have hsizes := all_equal (hboth.imp fun x y hxy => congrArg some hxy.1)
  have hcontents := all_equal (hboth.imp fun x y hxy => congrArg some hxy.2)
  rw [chainSizePairs_eq] at hsizes
  rw [chainContent_eq] at hcontents
  unfold compareMessages
  rw [h.loc, h.code, h.category, h.source, h.identity, h.args, compareMessageChainSize, h.chain.length_eq,
    Option.some.inj hsizes, Option.some.inj hcontents]
  simp only [Std.ReflOrd.compare_self, Ordering.then_eq]

theorem equal_same (memory : Memory) (n : Nat) (a b : Diagnostic) (hsize : sizeOf a < n) (ha : memory.Live a)
    (hb : memory.Live b) (h : equalDiagnostics fileName a b = .ok true) : outcome fileName a b = some .eq := by
  induction n generalizing a b with
  | zero => exact absurd hsize (Nat.not_lt_zero _)
  | succ n ih =>
    rw [outcome_eq]
    split
    next => rfl
    next hne =>
      obtain ⟨hcommon, hrelated⟩ := ((equal_iff fileName).1 h).resolve_left hne
      obtain ⟨p, hx, hy⟩ := hcommon.path
      have hbelow : ∀ x ∈ a.relatedInformation, ∀ y ∈ b.relatedInformation,
          sizeOf x < n ∧ memory.Live x ∧ memory.Live y := by
        intro x hx y hy
        have := sizeOf_related hx
        exact ⟨by omega, memory.related a ha x hx, memory.related b hb y hy⟩
      have hpairs : all (outcome fileName) a.relatedInformation b.relatedInformation = some .eq :=
        all_equal ((forall₂_and_mem hrelated hbelow).imp fun x y hxy =>
          ih x y hxy.2.1 hxy.2.2.1 hxy.2.2.2 hxy.1)
      rw [keyed_of hx hy, Std.ReflOrd.compare_self, common_same fileName memory ha hb hcommon,
        hrelated.length_eq, Std.ReflOrd.compare_self, hpairs]
      rfl

/-- a naming that gives every file a name leaves nothing without an order -/
theorem outcome_total (hname : ∀ file, ∃ name, fileName file = .ok name) (n : Nat) (a b : Diagnostic)
    (hsize : sizeOf a < n) : ∃ o, outcome fileName a b = some o := by
  induction n generalizing a b with
  | zero => exact absurd hsize (Nat.not_lt_zero _)
  | succ n ih =>
    have hpath : ∀ d, ∃ p, path fileName d = some p := by
      intro d
      unfold path diagnosticPath
      cases d.fields.file with
      | none => exact ⟨[], rfl⟩
      | some file =>
        obtain ⟨name, h⟩ := hname file
        exact ⟨name, toOption_eq_some.2 h⟩
    have hall : ∀ as bs : List Diagnostic, (∀ x ∈ as, sizeOf x < n) → ∃ o, all (outcome fileName) as bs = some o := by
      intro as
      induction as with
      | nil => exact fun bs _ => ⟨.eq, rfl⟩
      | cons x as iha =>
        intro bs hsmall
        cases bs with
        | nil => exact ⟨.eq, rfl⟩
        | cons y bs =>
          obtain ⟨o, ho⟩ := ih x y (hsmall x List.mem_cons_self)
          obtain ⟨o', ho'⟩ := iha bs fun z hz => hsmall z (List.mem_cons_of_mem _ hz)
          unfold all
          rw [ho, ho']
          cases o <;> exact ⟨_, rfl⟩
    rw [outcome_eq]
    split
    next => exact ⟨.eq, rfl⟩
    next =>
      obtain ⟨p, hp⟩ := hpath a
      obtain ⟨q, hq⟩ := hpath b
      obtain ⟨o, ho⟩ := hall a.relatedInformation b.relatedInformation fun x hx => by
        have := sizeOf_related hx
        omega
      rw [keyed_of hp hq, ho]
      generalize compare p q = o₁
      generalize compareMessages a b = o₂
      generalize compare b.relatedInformation.length a.relatedInformation.length = o₃
      cases o₁ <;> cases o₂ <;> cases o₃ <;> exact ⟨_, rfl⟩

/-! ## both together -/

/-- a comparison that can fail, total where no file name is missing -/
structure TotalPreorder {α : Type} (named : Prop) (c : α → α → Except E Ordering) : Prop where
  refl : ∀ a, c a a = .ok .eq
  reverse : ∀ a b o, c a b = .ok o → c b a = .ok o.swap
  trans : ∀ a b d o o', c a b = .ok o → c b d = .ok o' → o.isLE → o'.isLE → ∃ p, c a d = .ok p ∧ p.isLE
  total : named → ∀ a b, ∃ o, c a b = .ok o

structure EquivalenceTest {α : Type} (c : α → α → Except E Bool) : Prop where
  refl : ∀ a, c a a = .ok true
  symm : ∀ a b, c a b = .ok true → c b a = .ok true
  trans : ∀ a b d, c a b = .ok true → c b d = .ok true → c a d = .ok true

theorem outcome_eq_some {a b : Diagnostic} {o : Ordering} :
    outcome fileName a b = some o ↔ compareDiagnostics fileName a b = .ok o := by
  unfold outcome
  generalize compareDiagnostics fileName a b = result
  cases result with
  | error e =>
    constructor
    · intro h
      cases h
    · intro h
      cases h
  | ok p => exact ⟨fun h => congrArg Except.ok (Option.some.inj h), fun h => congrArg some (Except.ok.inj h)⟩

end

/-- **Diagnostics are ordered, and equal ones compare equal.** -/
theorem diagnostics_ordered {E : Type} (memory : Memory) (fileName : NodeId → Except E JsString) :
    TotalPreorder (∀ file, ∃ name, fileName file = .ok name)
      (fun a b : memory.Ref => compareDiagnostics fileName a.1 b.1) ∧
    EquivalenceTest (fun a b : memory.Ref => equalDiagnostics fileName a.1 b.1) ∧
    ∀ a b : memory.Ref, equalDiagnostics fileName a.1 b.1 = .ok true →
      compareDiagnostics fileName a.1 b.1 = .ok .eq := by
  have hlawful := compare_lawful fileName memory
  have htested := equal_tested fileName memory
  refine ⟨⟨?_, ?_, ?_, ?_⟩, ⟨?_, ?_, ?_⟩, ?_⟩
  · intro a
    apply (outcome_eq_some fileName).1
    rw [outcome_eq, if_pos rfl]
  · intro a b o h
    exact (outcome_eq_some fileName).1 (hlawful.swap a.1 b.1 o ⟨a.2, b.2⟩ ((outcome_eq_some fileName).2 h))
  · intro a b d o o' h h' ho ho'
    have htrans := hlawful.trans a.1 b.1 d.1 o o' ⟨a.2, b.2⟩ ⟨b.2, d.2⟩ ((outcome_eq_some fileName).2 h)
      ((outcome_eq_some fileName).2 h') ho ho'
    refine ⟨o.then o', (outcome_eq_some fileName).1 htrans, ?_⟩
    rcases then_isLE ho ho' with ⟨_, e⟩ | ⟨_, e⟩
    · rw [e]
      rfl
    · rw [e]
      exact ho'
  · intro hname a b
    obtain ⟨o, h⟩ := outcome_total fileName hname (sizeOf a.1 + 1) a.1 b.1 (Nat.lt_succ_self _)
    exact ⟨o, (outcome_eq_some fileName).1 h⟩
  · intro a
    exact htested.self a.1
  · intro a b h
    exact htested.turn h
  · intro a b d h h'
    exact htested.link a.2 b.2 d.2 h h'
  · intro a b h
    exact (outcome_eq_some fileName).1
      (equal_same fileName memory (sizeOf a.1 + 1) a.1 b.1 (Nat.lt_succ_self _) a.2 b.2 h)

/-- a message that nothing hangs on -/
def plainDiagnostic (address : Nat) : Diagnostic :=
  .mk address ⟨some 1, ⟨0, 4⟩, 2322, 1, [], none, [], [0x6B], [[0x61]], none⟩ [] []

/-- two allocations with one message -/
def twoDiagnostics : Memory where
  Live := fun d => d = plainDiagnostic 0 ∨ d = plainDiagnostic 1
  one := by
    intro a b ha hb e
    rcases ha with rfl | rfl
    · rcases hb with rfl | rfl
      · rfl
      · cases e
    · rcases hb with rfl | rfl
      · cases e
      · rfl
  chain := by
    intro a ha b hb
    rcases ha with rfl | rfl <;> cases hb
  related := by
    intro a ha b hb
    rcases ha with rfl | rfl <;> cases hb

theorem diagnostics_ordered_two :
    equalDiagnostics (E := Empty) (fun _ => .ok [0x66]) (plainDiagnostic 0) (plainDiagnostic 1) = .ok true ∧
    compareDiagnostics (E := Empty) (fun _ => .ok [0x66]) (plainDiagnostic 0) (plainDiagnostic 1) = .ok .eq :=
  ⟨rfl, (diagnostics_ordered twoDiagnostics fun _ => .ok [0x66]).2.2
    ⟨plainDiagnostic 0, Or.inl rfl⟩ ⟨plainDiagnostic 1, Or.inr rfl⟩ rfl⟩

end Tsr.Ast
