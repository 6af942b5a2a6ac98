import Tsr.Checker.RelaterFailures

/-!
# Recorded successes of recursive type relations

A comparison that comes out `true` records all keys above its own as succeeded, those too that an
abandoned alternative left there.  Such a key may rest on an assumption of a comparison further out,
and that one may still fail: then a pair is recorded that is not related (`abandoned_alternative`).

In every run in which no comparison that is `true` takes along a key that rests on an assumption from
outside of it, all recorded successes are related (`successes_related`):

* `Sufficient`   a pair that is being compared is related if the part of its formula that is left to
                 evaluate holds together with the assumptions that were used;
* `Supported`    what a key rests on is on the stack as long as the key is.
-/

set_option linter.unusedSectionVars false

namespace Tsr.Checker
open Tsr.Lib.Run

section
variable {κ τ : Type} (sys : System κ τ)

/-! ## Keys without constraints -/

/-- what is related without constraints is related with them -/
def System.Closed (X : Set κ) : Prop := ∀ k b, sys.broad k = some b → b ∈ X → k ∈ X

/-- and so are the structures -/
def System.Broadens : Prop := ∀ X, sys.Closed X → ∀ k b, sys.broad k = some b →
  (sys.body b).holds X → (sys.body k).holds X

/-- the least closed set around `X` -/
inductive System.Around (X : Set κ) : κ → Prop where
  | base (k : κ) : k ∈ X → Around X k
  | broad (k b : κ) : sys.broad k = some b → Around X b → Around X k

theorem around_closed (X : Set κ) : sys.Closed { k | sys.Around X k } :=
  fun k b hb hin => .broad k b hb hin

/-- **Coinduction up to constraints.**  Pairs that hold together with what is related are related. -/
theorem related_of_together (hbroad : sys.Broadens) (C : Set κ)
    (h : ∀ c ∈ C, ∀ X, sys.Closed X → sys.related ⊆ X → C ⊆ X → (sys.body c).holds X) :
    C ⊆ sys.related := by
  let X : Set κ := { k | sys.Around (sys.related ∪ C) k }
  have hclosed : sys.Closed X := around_closed sys _
  have hrel : sys.related ⊆ X := fun k hk => .base k (.inl hk)
  have hC : C ⊆ X := fun k hk => .base k (.inr hk)
  have hX : X ⊆ sys.related := by
    refine sys.subset_related X fun k hk => ?_
    induction hk with
    | base k hk =>
      rcases hk with hk | hk
      · exact (sys.body k).holds_mono hrel ((sys.mem_related k).1 hk)
      · exact h k hk X hclosed hrel hC
    | broad k b hb _ ih => exact hbroad X hclosed k b hb ih
  exact hC.trans hX

end

section
variable {κ τ : Type} [DecidableEq κ] (sys : System κ τ)
variable {s : State κ τ} {key : κ} {recursion : Recursion} {report : Bool} {nested : Sides}

/-! ## Runs that keep clear of the defect -/

/-- a depth limit answers -/
def cutOff (s : State κ τ) (key : κ) (recursion : Recursion) (report : Bool) (nested : Sides) : Bool :=
  !s.frame.overflow && (cached s key report).isNone && decide (0 < s.frame.remaining) &&
    (assumed sys s.frame key).isNone &&
    (atDepthLimit s.frame ||
      (let expanding := expand (pushPair sys s key recursion).frame recursion nested
       expanding.source && expanding.target))

/-- the keys that were left behind rest on the comparison and on each other -/
def selfContained (key : κ) (left : List (κ × List κ)) : Bool :=
  left.all fun y => y.2.all fun z => decide (z = key) || decide (z ∈ left.map (·.1))

/-- the counter does not run out, and no depth limit is reached -/
def withinLimits (a : Action κ) (s : State κ τ) : Bool :=
  inBudget a s &&
    match s.control, a with
    | .eval (.call key recursion report), .go nested => !cutOff sys s key recursion report nested
    | _, _ => true

/-- a comparison that is `true` takes along only what rests on it -/
def takesOwn (a : Action κ) (s : State κ τ) : Bool :=
  match s.control, a with
  | .ret .true, .go _ =>
    match s.kont with
    | .call key _ _ _ _ left :: _ => selfContained key left
    | _ => true
  | _, _ => true

def meets (a : Action κ) (s : State κ τ) : Bool := withinLimits sys a s && takesOwn a s

/-! ## What makes a pair related -/

def Ternary.rests : Ternary κ → List κ
  | .maybe rests => rests
  | .false | .true => []

/-- `P X` is the truth of the part under evaluation where the pairs of `X` are related -/
def Sufficient (S : Set κ) : List (Kont κ) → (Set κ → Prop) → Prop
  | [], _ => True
  | .query _ :: _, _ => True
  | .andRight right :: kont, P => Sufficient S kont fun X => P X ∧ right.holds X
  | .andJoin left :: kont, P => Sufficient S kont fun X => P X ∧ ∀ z ∈ left.rests, z ∈ X
  | .orRight right :: kont, P => Sufficient S kont fun X => P X ∨ right.holds X
  | .call key _ _ _ _ left :: kont, P =>
    (∀ X, sys.Closed X → S ⊆ X → P X → (sys.body key).holds X) ∧
    (∀ y ∈ left, ∀ X, sys.Closed X → S ⊆ X → (∀ z ∈ y.2, z ∈ X) → (sys.body y.1).holds X) ∧
    Sufficient S kont fun X => key ∈ X

def Supported : List (Kont κ) → Prop
  | [] => True
  | .andJoin left :: kont => (∀ z ∈ left.rests, z ∈ keysOf kont) ∧ Supported kont
  | .call key start previous saved recursion left :: kont =>
    (∀ y ∈ left, ∀ z ∈ y.2,
      z ∈ keysOf (.call key start previous saved recursion left :: kont)) ∧ Supported kont
  | .query _ :: kont | .andRight _ :: kont | .orRight _ :: kont => Supported kont

theorem Sufficient.anti {S S' : Set κ} (kont : List (Kont κ)) {P Q : Set κ → Prop} (hS : S ⊆ S')
    (hQP : ∀ X, sys.Closed X → S' ⊆ X → Q X → P X) (h : Sufficient sys S kont P) :
    Sufficient sys S' kont Q := by
  induction kont generalizing P Q with
  | nil => trivial
  | cons k kont ih =>
    cases k with
    | query key => trivial
    | andRight right => exact ih (fun X hc hX hQ => ⟨hQP X hc hX hQ.1, hQ.2⟩) h
    | andJoin left => exact ih (fun X hc hX hQ => ⟨hQP X hc hX hQ.1, hQ.2⟩) h
    | orRight right => exact ih (fun X hc hX hQ => hQ.imp_left (hQP X hc hX)) h
    | call key start previous saved recursion left =>
      refine ⟨fun X hc hX hQ => ?_, fun y hy X hc hX => ?_, ih (fun X _ _ hin => hin) h.2.2⟩
      · exact h.1 X hc (hS.trans hX) (hQP X hc hX hQ)
      · exact h.2.1 y hy X hc (hS.trans hX)

theorem Sufficient.leaveKeys {S : Set κ} (keys : List (κ × List κ)) (kont : List (Kont κ))
    {P : Set κ → Prop}
    (hkeys : ∀ y ∈ keys, ∀ X, sys.Closed X → S ⊆ X → (∀ z ∈ y.2, z ∈ X) → (sys.body y.1).holds X)
    (h : Sufficient sys S kont P) : Sufficient sys S (Checker.leaveKeys keys kont) P := by
  induction kont generalizing P with
  | nil => trivial
  | cons k kont ih =>
    cases k with
    | query key => trivial
    | andRight right => exact ih h
    | andJoin left => exact ih h
    | orRight right => exact ih h
    | call key start previous saved recursion left =>
      refine ⟨h.1, fun y hy => ?_, h.2.2⟩
      rcases List.mem_append.1 hy with hy | hy
      · exact h.2.1 y hy
      · exact hkeys y hy

/-- the keys below stay when more are left -/
theorem mem_keysOf_leaveKeys (keys : List (κ × List κ)) (kont : List (Kont κ)) (z : κ)
    (h : z ∈ keysOf kont) : z ∈ keysOf (leaveKeys keys kont) := by
  induction kont with
  | nil => exact h
  | cons k kont ih =>
    cases k with
    | query key => exact ih h
    | andRight right => exact ih h
    | andJoin left => exact ih h
    | orRight right => exact ih h
    | call key start previous saved recursion left =>
      rcases List.mem_append.1 h with h | h
      · exact List.mem_append_left _ h
      · refine List.mem_append_right _ ?_
        rw [List.map_append, ← List.cons_append]
        exact List.mem_append_left _ h

theorem Supported.leaveKeys (keys : List (κ × List κ)) (kont : List (Kont κ))
    (hkeys : ∀ y ∈ keys, ∀ z ∈ y.2, z ∈ keysOf (Checker.leaveKeys keys kont))
    (h : Supported kont) : Supported (Checker.leaveKeys keys kont) := by
  induction kont with
  | nil => trivial
  | cons k kont ih =>
    cases k with
    | query key => exact ih hkeys h
    | andRight right => exact ih hkeys h
    | orRight right => exact ih hkeys h
    | andJoin left =>
      exact ⟨fun z hz => mem_keysOf_leaveKeys keys kont z (h.1 z hz), ih hkeys h.2⟩
    | call key start previous saved recursion left =>
      refine ⟨fun y hy z hz => ?_, h.2⟩
      rcases List.mem_append.1 hy with hy | hy
      · exact mem_keysOf_leaveKeys keys (.call key start previous saved recursion left :: kont) z
          (h.1 y hy z hz)
      · exact hkeys y hy z hz

/-- without a comparison around there is no key -/
theorem keysOf_of_stacksEmpty (kont : List (Kont κ)) (hs : sourcesOf sys kont = [])
    (ht : targetsOf sys kont = []) : keysOf kont = [] := by
  induction kont with
  | nil => rfl
  | cons k kont ih =>
    cases k with
    | query key => exact ih hs ht
    | andRight right => exact ih hs ht
    | andJoin left => exact ih hs ht
    | orRight right => exact ih hs ht
    | call key start previous saved recursion left =>
      cases recursion with
      | source => exact absurd hs (by simp [sourcesOf, Recursion.hasSource])
      | target => exact absurd ht (by simp [targetsOf, Recursion.hasTarget])
      | both => exact absurd hs (by simp [sourcesOf, Recursion.hasSource])

/-! ## The invariant -/

def succeeded (cache : AList fun _ : κ => Entry) : Set κ :=
  { k | ∃ e, cache.lookup k = some e ∧ e.succeeded = true }

/-- an answer holds where the pairs it rests on are related -/
def Answers (result : Ternary κ) (X : Set κ) : Prop := result ≠ .false ∧ ∀ z ∈ result.rests, z ∈ X

def Grounded (S : Set κ) (kont : List (Kont κ)) : Control κ → Prop
  | .eval formula => Sufficient sys S kont formula.holds
  | .ret result => Sufficient sys S kont (Answers result) ∧ ∀ z ∈ result.rests, z ∈ keysOf kont
  | .idle | .raise => True

structure Successes (s : State κ τ) : Prop where
  sound : succeeded s.cache ⊆ sys.related
  grounded : Grounded sys (succeeded s.cache) s.kont s.control
  supported : Supported s.kont
  undecided : ∀ k ∈ s.frame.maybeKeys, k ∉ succeeded s.cache

theorem mem_succeeded_resetMaybe (s : State κ τ) (start : Nat) (b : Bool) (propagating : UInt32)
    (k : κ) : k ∈ succeeded (resetMaybe s start b propagating).cache ↔
      (b = true ∧ k ∈ s.frame.maybeKeys.drop start) ∨ k ∈ succeeded s.cache := by
  obtain ⟨cache, remaining, heq, hlook⟩ := resetMaybe_spec s start b propagating
  rw [heq]
  show (∃ e, cache.lookup k = some e ∧ e.succeeded = true) ↔ _
  rw [hlook k]
  split
  next hin => exact ⟨fun _ => .inl hin, fun _ => ⟨_, rfl, rfl⟩⟩
  next hout => exact ⟨fun h => .inr h, fun h => h.resolve_left hout⟩

/-- a failure of an undecided key takes no success away -/
theorem succeeded_insert_failure (cache : AList fun _ : κ => Entry) (key : κ) (propagating : UInt32)
    (h : key ∉ succeeded cache) :
    succeeded (cache.insert key ⟨false, false, propagating⟩) = succeeded cache := by
  ext k
  show (∃ e, (cache.insert key _).lookup k = some e ∧ _) ↔ _
  by_cases hk : k = key
  · subst hk
    rw [AList.lookup_insert]
    constructor
    · rintro ⟨e, he, hs⟩
      cases he
      cases hs
    · exact fun hin => absurd hin h
  · rw [AList.lookup_insert_ne hk]
    exact Iff.rfl

/-- the end of a comparison that records nothing -/
theorem successes_dropped (start : Nat) (hsound : succeeded s.cache ⊆ sys.related)
    (hsupported : Supported s.kont) (hundecided : ∀ k ∈ s.frame.maybeKeys, k ∉ succeeded s.cache)
    (propagating : UInt32) (control : Control κ)
    (hg : Grounded sys (succeeded s.cache) s.kont control) :
    Successes sys { resetMaybe s start false propagating with control := control } := by
  have hsame : succeeded (resetMaybe s start false propagating).cache = succeeded s.cache := by
    ext k
    rw [mem_succeeded_resetMaybe]
    simp
  obtain ⟨cache, remaining, heq, -⟩ := resetMaybe_spec s start false propagating
  rw [heq] at hsame ⊢
  change succeeded cache = _ at hsame
  refine ⟨?_, ?_, hsupported, fun k hk => ?_⟩
  · show succeeded cache ⊆ _
    rw [hsame]
    exact hsound
  · show Grounded sys (succeeded cache) s.kont control
    rw [hsame]
    exact hg
  · show k ∉ succeeded cache
    rw [hsame]
    exact hundecided k (List.mem_of_mem_take hk)

/-- the end of a comparison that records all keys above it -/
theorem successes_committed {rest : List κ} (hpop : Popped sys rest s) (start : Nat)
    (hstart : start = (keysOf s.kont).length) (hsound : succeeded s.cache ⊆ sys.related)
    (hsupported : Supported s.kont) (hundecided : ∀ k ∈ s.frame.maybeKeys, k ∉ succeeded s.cache)
    (hrest : ∀ k ∈ rest, k ∈ sys.related) (propagating : UInt32) (control : Control κ)
    (hg : Grounded sys (succeeded s.cache ∪ { k | k ∈ rest }) s.kont control) :
    Successes sys { resetMaybe s start true propagating with control := control } := by
  have hdrop : s.frame.maybeKeys.drop start = rest := by
    rw [hpop.keys, hstart, List.drop_left]
  have htake : s.frame.maybeKeys.take start = keysOf s.kont := by
    rw [hpop.keys, hstart, List.take_left]
  have hgrown : succeeded (resetMaybe s start true propagating).cache =
      succeeded s.cache ∪ { k | k ∈ rest } := by
    ext k
    rw [mem_succeeded_resetMaybe, hdrop, or_comm]
    simp
  have hdisj : (keysOf s.kont).Disjoint rest := by
    have hnodup := hpop.nodup
    rw [hpop.keys] at hnodup
    exact List.disjoint_of_nodup_append hnodup
  obtain ⟨cache, remaining, heq, -⟩ := resetMaybe_spec s start true propagating
  rw [heq] at hgrown ⊢
  change succeeded cache = _ at hgrown
  refine ⟨?_, ?_, hsupported, fun k hk => ?_⟩
  · show succeeded cache ⊆ _
    rw [hgrown]
    exact Set.union_subset hsound hrest
  · show Grounded sys (succeeded cache) s.kont control
    rw [hgrown]
    exact hg
  · show k ∉ succeeded cache
    change k ∈ s.frame.maybeKeys.take start at hk
    rw [hgrown]
    rintro (hin | hin)
    · exact hundecided k (List.mem_of_mem_take hk) hin
    · rw [htake] at hk
      exact hdisj hk hin

/-- the keys above a comparison, with what makes each of them related -/
theorem together {S : Set κ} {start : Nat} {previous : Sides} {saved : UInt32} {left : List (κ × List κ)} {kont : List (Kont κ)} (result : Ternary κ)
    (hbroad : sys.Broadens) (hS : S ⊆ sys.related) (hresult : result ≠ .false)
    (h : Sufficient sys S (.call key start previous saved recursion left :: kont) (Answers result))
    (hown : ∀ z ∈ result.rests, z ∈ key :: left.map (·.1))
    (hleft : ∀ y ∈ left, ∀ z ∈ y.2, z ∈ key :: left.map (·.1)) :
    ∀ k ∈ key :: left.map (·.1), k ∈ sys.related := by
  refine related_of_together sys hbroad { k | k ∈ key :: left.map (·.1) } fun c hc X hclosed hrel hC => ?_
  rcases List.mem_cons.1 hc with rfl | hc
  · exact h.1 X hclosed (hS.trans hrel) ⟨hresult, fun z hz => hC (hown z hz)⟩
  · obtain ⟨y, hy, rfl⟩ := List.mem_map.1 hc
    exact h.2.1 y hy X hclosed (hS.trans hrel) fun z hz => hC (hleft y hy z hz)

theorem successes_leaveCall (hbroad : sys.Broadens) (hst : Stacked sys s)
    (h : Successes sys s) (result : Ternary κ) {start : Nat} {previous : Sides}
    {saved : UInt32} {left : List (κ × List κ)} {kont : List (Kont κ)}
    (hc : s.control = .ret result)
    (hk : s.kont = .call key start previous saved recursion left :: kont)
    (hmeets : result = .true → selfContained key left = true) :
    Successes sys (leaveCall { s with kont := kont } key start previous saved recursion left result) := by
  obtain ⟨hpop, hstart⟩ := popped_popPair sys hst hk
  have hg := h.grounded
  have hsup := h.supported
  rw [hc, hk] at hg
  rw [hk] at hsup
  obtain ⟨hsuff, hrests⟩ := hg
  have hkey : key ∉ succeeded s.cache := by
    refine h.undecided key ?_
    rw [hst.keys, hk]
    exact List.mem_append_right _ (List.mem_cons_self ..)
  unfold leaveCall
  cases result with
  | false =>
    have hsame := succeeded_insert_failure s.cache key s.reliability hkey
    refine successes_dropped sys start ?_ ?_ ?_ s.reliability (.ret .false) ⟨?_, nofun⟩
    · show succeeded (s.cache.insert key _) ⊆ _
      rw [hsame]
      exact h.sound
    · exact hsup.2
    · show ∀ k ∈ s.frame.maybeKeys, k ∉ succeeded (s.cache.insert key _)
      rw [hsame]
      exact h.undecided
    · show Sufficient sys (succeeded (s.cache.insert key _)) kont _
      rw [hsame]
      exact hsuff.2.2.anti sys kont Set.Subset.rfl fun X _ _ hans => absurd rfl hans.1
  | true =>
    have hself := hmeets rfl
    have hleft : ∀ y ∈ left, ∀ z ∈ y.2, z ∈ key :: left.map (·.1) := by
      intro y hy z hz
      have hz := List.all_eq_true.1 (List.all_eq_true.1 hself y hy) z hz
      rw [Bool.or_eq_true, decide_eq_true_iff, decide_eq_true_iff] at hz
      exact List.mem_cons.2 hz
    have hrel := together sys .true hbroad h.sound nofun hsuff nofun hleft
    refine successes_committed sys hpop start hstart h.sound hsup.2 h.undecided hrel s.reliability
      (.ret .true) ⟨?_, nofun⟩
    refine hsuff.2.2.anti sys kont Set.subset_union_left fun X _ hX _ => ?_
    exact hX (.inr (List.mem_cons_self ..))
  | maybe rests =>
    dsimp only
    split
    next hempty =>
      obtain ⟨hs, ht⟩ := Bool.and_eq_true_iff.1 hempty
      rw [hpop.sources, List.isEmpty_iff] at hs
      rw [hpop.targets, List.isEmpty_iff] at ht
      -- nothing is assumed below
      have hkeys : keysOf (.call key start previous saved recursion left :: kont) =
          key :: left.map (·.1) := by
        show keysOf kont ++ _ = _
        rw [keysOf_of_stacksEmpty sys kont hs ht]
        rfl
      rw [hkeys] at hrests
      have hleft := hsup.1
      rw [hkeys] at hleft
      have hrel := together sys (.maybe rests) hbroad h.sound nofun hsuff hrests hleft
      refine successes_committed sys hpop start hstart h.sound hsup.2 h.undecided hrel s.reliability
        (.ret (.maybe [])) ⟨?_, nofun⟩
      refine hsuff.2.2.anti sys kont Set.subset_union_left fun X _ hX _ => ?_
      exact hX (.inr (List.mem_cons_self ..))
    next hne =>
      have hstack := stacked_leaveKeys sys rests hpop (Bool.eq_false_iff.2 hne) (.ret (.maybe [key]))
        nofun
      have hkeys : keysOf (.call key start previous saved recursion left :: kont) =
          keysOf (leaveKeys ((key, rests) :: left) kont) := by
        rw [← hk, ← hst.keys]
        exact hstack.keys
      refine ⟨h.sound, ⟨?_, ?_⟩, ?_, h.undecided⟩
      · refine Sufficient.leaveKeys sys _ kont ?_ (hsuff.2.2.anti sys kont Set.Subset.rfl ?_)
        · intro y hy
          rcases List.mem_cons.1 hy with rfl | hy
          · exact fun X hcl hX hz => hsuff.1 X hcl hX ⟨nofun, hz⟩
          · exact hsuff.2.1 y hy
        · exact fun X _ _ hans => hans.2 key (List.mem_cons_self ..)
      · intro z hz
        show z ∈ keysOf (leaveKeys ((key, rests) :: left) kont)
        rw [List.mem_singleton.1 hz, ← hkeys]
        exact List.mem_append_right _ (List.mem_cons_self ..)
      · refine Supported.leaveKeys _ kont (fun y hy z hz => ?_) hsup.2
        rw [← hkeys]
        rcases List.mem_cons.1 hy with rfl | hy
        · exact hrests z hz
        · exact hsup.1 y hy z hz

/-- an answer of `true` is that of a recorded success, and one of `maybe` names its assumption -/
theorem successes_answered {s s' : State κ τ} (hst : Stacked sys s) (h : Successes sys s)
    (hc : s.control = .eval (.call key recursion report))
    (hmeets : cutOff sys s key recursion report nested = false)
    (hans : answer sys s key report = some s') : Successes sys s' := by
  have hg := h.grounded
  rw [hc] at hg
  change Sufficient sys _ s.kont fun X => key ∈ X at hg
  unfold answer at hans
  split at hans
  next =>
    cases hans
    refine ⟨h.sound, ⟨?_, (by intro _ h; cases h)⟩, h.supported, h.undecided⟩
    exact hg.anti sys _ Set.Subset.rfl fun X _ _ hans => absurd rfl hans.1
  next hover =>
    split at hans
    next e he =>
      cases hans
      obtain ⟨hlook, -⟩ := Option.filter_eq_some_iff.1 he
      cases hsucc : e.succeeded with
      | true =>
        refine ⟨h.sound, ⟨?_, ?_⟩, h.supported, h.undecided⟩
        · exact hg.anti sys _ Set.Subset.rfl fun X _ hX _ => hX ⟨e, hlook, hsucc⟩
        · intro _ h; cases h
      | false =>
        refine ⟨h.sound, ⟨?_, ?_⟩, h.supported, h.undecided⟩
        · exact hg.anti sys _ Set.Subset.rfl fun X _ _ hans => absurd rfl hans.1
        · intro _ h; cases h
    next hcached =>
      split at hans
      next =>
        cases hans
        refine ⟨h.sound, ⟨?_, (by intro _ h; cases h)⟩, h.supported, h.undecided⟩
        exact hg.anti sys _ Set.Subset.rfl fun X _ _ hans => absurd rfl hans.1
      next hrem =>
        split at hans
        next z hz =>
          cases hans
          have hmem : z ∈ s.frame.maybeSet ∧ (z = key ∨ sys.broad key = some z) := by
            unfold assumed at hz
            split at hz
            next hin =>
              cases hz
              exact ⟨hin, .inl rfl⟩
            next =>
              obtain ⟨hb, hin⟩ := Option.filter_eq_some_iff.1 hz
              exact ⟨of_decide_eq_true hin, .inr hb⟩
          refine ⟨h.sound, ⟨?_, fun y hy => ?_⟩, h.supported, h.undecided⟩
          · refine hg.anti sys _ Set.Subset.rfl fun X hclosed _ hans => ?_
            have hzX : z ∈ X := hans.2 z (List.mem_singleton.2 rfl)
            rcases hmem.2 with rfl | hb
            · exact hzX
            · exact hclosed key z hb hzX
          · show y ∈ keysOf s.kont
            rw [List.mem_singleton.1 hy, ← hst.keys]
            have hset := hmem.1
            rw [hst.set] at hset
            exact List.mem_toFinset.1 hset
        next hassumed =>
          split at hans
          next hdepth =>
            unfold cutOff at hmeets
            rw [Bool.eq_false_iff.2 hover, hcached, hassumed, hdepth,
              decide_eq_true (Int.not_le.1 hrem)] at hmeets
            cases hmeets
          next => cases hans

/-- a pair that is compared is undecided -/
theorem undecided_push (h : Successes sys s)
    (hans : answer sys s key report = none) :
    ∀ k ∈ s.frame.maybeKeys ++ [key], k ∉ succeeded s.cache := by
  intro k hk
  rcases List.mem_append.1 hk with hk | hk
  · exact h.undecided k hk
  · rw [List.mem_singleton.1 hk]
    rintro ⟨e, hlook, hsucc⟩
    have hcached := (answer_none sys s key report hans).2.1
    unfold cached at hcached
    rw [hlook, Option.filter_some, hsucc] at hcached
    cases hcached

/-- a comparison starts from its structure -/
theorem successes_compared (h : Successes sys s) (hc : s.control = .eval (.call key recursion report))
    (hmeets : cutOff sys s key recursion report nested = false)
    (hans : answer sys s key report = none) :
    Successes sys (compare sys s key recursion nested) := by
  obtain ⟨hover, hcached, hrem, hassumed, -⟩ := answer_none sys s key report hans
  have hg := h.grounded
  rw [hc] at hg
  have hshallow : ((expand (pushPair sys s key recursion).frame recursion nested).source &&
      (expand (pushPair sys s key recursion).frame recursion nested).target) = false := by
    unfold cutOff at hmeets
    rw [hover, hcached, hassumed, decide_eq_true hrem] at hmeets
    exact (Bool.or_eq_false_iff.1 hmeets).2
  unfold compare
  dsimp only
  rw [if_neg (by rw [hshallow]; exact Bool.false_ne_true)]
  exact ⟨h.sound, ⟨fun X _ _ hP => hP, nofun, hg⟩, ⟨nofun, h.supported⟩, undecided_push sys h hans⟩

theorem answers_and (a b : Ternary κ) (X : Set κ) (h : Answers (a.and b) X) :
    Answers b X ∧ ∀ z ∈ a.rests, z ∈ X := by
  cases a with
  | false => exact absurd rfl h.1
  | true => exact ⟨h, nofun⟩
  | maybe rests =>
    cases b with
    | false => exact absurd rfl h.1
    | true => exact ⟨⟨nofun, nofun⟩, h.2⟩
    | maybe rests' =>
      exact ⟨⟨nofun, fun z hz => h.2 z (List.mem_append_right _ hz)⟩,
        fun z hz => h.2 z (List.mem_append_left _ hz)⟩

theorem mem_rests_and (a b : Ternary κ) (z : κ) (h : z ∈ (a.and b).rests) :
    z ∈ a.rests ∨ z ∈ b.rests := by
  cases a with
  | false => cases h
  | true => exact .inr h
  | maybe rests =>
    cases b with
    | false => cases h
    | true => exact .inl h
    | maybe rests' => exact List.mem_append.1 h

theorem not_cutOff
    (hc : s.control = .eval (.call key recursion report))
    (hm : meets sys (.go nested) s = true) : cutOff sys s key recursion report nested = false := by
  have hlimits := (Bool.and_eq_true_iff.1 (Bool.and_eq_true_iff.1 hm).1).2
  rw [hc] at hlimits
  exact Bool.not_eq_true' _ ▸ hlimits

/-- a step inside a formula -/
theorem successes_formula (h : Successes sys s) (kont : List (Kont κ))
    (control : Control κ) (reliability : UInt32)
    (hg : Grounded sys (succeeded s.cache) kont control) (hsup : Supported kont) :
    Successes sys { s with kont := kont, control := control, reliability := reliability } :=
  ⟨h.sound, hg, hsup, h.undecided⟩

theorem successes_step (hbroad : sys.Broadens) (a : Action κ) (s s' : State κ τ)
    (hst : Stacked sys s) (h : Successes sys s) (hm : meets sys a s = true)
    (hstep : step sys a s = some s') : Successes sys s' := by
  have hg : ∀ control, s.control = control → Grounded sys (succeeded s.cache) s.kont control := by
    rintro _ rfl
    exact h.grounded
  have hsup := h.supported
  cases step_moves sys a s s' hstep with
  | query formula key frame s1 hc h1 =>
    have hcache : s1.cache = s.cache := by
      cases frame with
      | none => cases h1; rfl
      | some i =>
        obtain ⟨g, -, rfl⟩ := Option.map_eq_some_iff.1 h1
        rfl
    have hclean := (useFrame_clean (hst.clean sys (hst.idle hc)) hst.others frame h1).1
    refine ⟨?_, trivial, trivial, ?_⟩
    · show succeeded s1.cache ⊆ _
      rw [hcache]
      exact h.sound
    · show ∀ k ∈ s1.frame.maybeKeys, _
      rw [hclean.keys]
      exact nofun
  | value related marks hc =>
    refine successes_formula sys h s.kont _ _ ⟨?_, ?_⟩ hsup
    · refine (hg _ hc).anti sys _ Set.Subset.rfl fun X _ _ hans => ?_
      cases related with
      | true => rfl
      | false => exact absurd rfl hans.1
    · cases related <;> exact nofun
  | answered key recursion report nested s' ha hc hans =>
    subst ha
    exact successes_answered sys hst h hc (not_cutOff sys hc hm) hans
  | compared key recursion report nested ha hc hans =>
    subst ha
    exact successes_compared sys h hc (not_cutOff sys hc hm) hans
  | evalAnd f g hc => exact successes_formula sys h _ _ s.reliability (hg _ hc) hsup
  | evalOr f g hc => exact successes_formula sys h _ _ s.reliability (hg _ hc) hsup
  | andStop right kont hc hk =>
    have hret := hg _ hc
    rw [hk] at hret hsup
    refine successes_formula sys h kont s.control s.reliability ?_ hsup
    rw [hc]
    exact ⟨hret.1.anti sys kont Set.Subset.rfl fun X _ _ hans => absurd rfl hans.1, nofun⟩
  | andNext result right kont hc hne hk =>
    have hret := hg _ hc
    rw [hk] at hret hsup
    refine successes_formula sys h _ _ s.reliability ?_ ⟨hret.2, hsup⟩
    exact hret.1.anti sys kont Set.Subset.rfl fun X _ _ hQ => ⟨⟨hne, hQ.2⟩, hQ.1⟩
  | andJoin result left kont hc hk =>
    have hret := hg _ hc
    rw [hk] at hret hsup
    refine successes_formula sys h _ _ s.reliability ⟨?_, fun z hz => ?_⟩ hsup.2
    · exact hret.1.anti sys kont Set.Subset.rfl fun X _ _ hans => answers_and left result X hans
    · rcases mem_rests_and left result z hz with hz | hz
      · exact hsup.1 z hz
      · exact hret.2 z hz
  | orNext right kont hc hk =>
    have hret := hg _ hc
    rw [hk] at hret hsup
    refine successes_formula sys h _ _ s.reliability ?_ hsup
    exact hret.1.anti sys kont Set.Subset.rfl fun X _ _ hQ => .inr hQ
  | orStop result right kont hc hne hk =>
    have hret := hg _ hc
    rw [hk] at hret hsup
    refine successes_formula sys h kont s.control s.reliability ?_ hsup
    rw [hc]
    exact ⟨hret.1.anti sys kont Set.Subset.rfl fun X _ _ hans => .inl hans, hret.2⟩
  | left result key start previous saved recursion keys kont nested ha hc hk =>
    subst ha
    refine successes_leaveCall sys hbroad hst h result hc hk fun hr => ?_
    subst hr
    have htakes := (Bool.and_eq_true_iff.1 hm).2
    unfold takesOwn at htakes
    rw [hc, hk] at htakes
    exact htakes
  | ended result key kont hc hk =>
    rw [hk] at hsup
    have hnone : s.frame.maybeKeys = [] := by
      have hsaved := hst.saved
      rw [hk] at hsaved
      rw [hst.keys, hk, hsaved.1]
      rfl
    have hend : ∀ cache, succeeded cache ⊆ succeeded s.cache →
        Successes sys { s with cache := cache, kont := kont, control := .idle } := by
      intro cache hsub
      refine ⟨hsub.trans h.sound, trivial, hsup, ?_⟩
      show ∀ k ∈ s.frame.maybeKeys, _
      rw [hnone]
      exact nofun
    unfold endQuery
    split
    next key =>
      split
      next =>
        refine hend _ ?_
        rintro k ⟨e, hlook, hsucc⟩
        by_cases hkey : k = key
        · subst hkey
          rw [AList.lookup_insert] at hlook
          cases hlook
          cases hsucc
        · rw [AList.lookup_insert_ne hkey] at hlook
          exact ⟨e, hlook, hsucc⟩
      next => exact hend s.cache Set.Subset.rfl
    next => exact hend s.cache Set.Subset.rfl
  | failed formula hc => exact successes_formula sys h s.kont .raise s.reliability trivial hsup
  | failedInside key recursion report hc hans =>
    exact ⟨h.sound, trivial, ⟨nofun, hsup⟩, undecided_push sys h hans⟩
  | raisedCall key start previous saved recursion keys kont hc hk =>
    rw [hk] at hsup
    refine successes_dropped sys start ?_ ?_ ?_ s.reliability .raise trivial
    · exact h.sound
    · exact hsup.2
    · exact h.undecided
  | raisedQuery key kont hc hk =>
    rw [hk] at hsup
    exact successes_formula sys h kont .idle s.reliability trivial hsup
  | raisedAnd right kont hc hk =>
    rw [hk] at hsup
    exact successes_formula sys h kont s.control s.reliability (by rw [hc]; trivial) hsup
  | raisedJoin left kont hc hk =>
    rw [hk] at hsup
    exact successes_formula sys h kont s.control s.reliability (by rw [hc]; trivial) hsup.2
  | raisedOr right kont hc hk =>
    rw [hk] at hsup
    exact successes_formula sys h kont s.control s.reliability (by rw [hc]; trivial) hsup

theorem successes_init : Successes sys (State.init κ τ) := by
  refine ⟨?_, trivial, trivial, nofun⟩
  rintro k ⟨e, hlook, -⟩
  cases hlook

/-! ## Every run -/

/-- **Runs that keep clear of the defect.**  Every pair that is recorded as succeeded is related. -/
theorem successes_related (hbroad : sys.Broadens) (as : List (Action κ)) (s : State κ τ)
    (hm : along (step sys) (meets sys) as (State.init κ τ) = true)
    (h : exec (step sys) as (State.init κ τ) = some s) :
    ∀ k e, s.cache.lookup k = some e → e.succeeded = true → k ∈ sys.related := by
  have hinv := exec_invariant_along (step sys) (meets sys) (fun s => Stacked sys s ∧ Successes sys s)
    (fun a s s' hs hm hstep => ⟨stacked_step sys a s s' hs.1 hstep,
      successes_step sys hbroad a s s' hs.1 hs.2 hm hstep⟩) as _ s
    ⟨stacked_init sys, successes_init sys⟩ hm h
  exact fun k e hlook hsucc => hinv.2.sound ⟨e, hlook, hsucc⟩

end

theorem pairs_broadens (other : Nat) : (pairs other).Broadens := by
  intro X _ k b hb hholds
  match k, b, hb with
  | 4, _, rfl => exact hholds

/-- the pair `2` rests on `1`, by the key `4`, and is recorded with it -/
theorem successes_related_pairs :
    ∃ s, exec (step (pairs 4)) (queryFirst 21) (State.init Nat Nat) = some s ∧
      (s.cache.lookup 2).map (·.succeeded) = some true ∧
      ∀ k e, s.cache.lookup k = some e → e.succeeded = true → k ∈ (pairs 4).related :=
  ⟨_, rfl, rfl, successes_related (pairs 4) (pairs_broadens 4) (queryFirst 21) _ rfl rfl⟩

/-- the pair `2` rests on `0`, is recorded with `1`, and `0` fails -/
theorem abandoned_alternative : ¬ ∀ (as : List (Action Nat)) (s : State Nat Nat),
    along (step (pairs 0)) (withinLimits (pairs 0)) as (State.init Nat Nat) = true →
    exec (step (pairs 0)) as (State.init Nat Nat) = some s →
    ∀ k e, s.cache.lookup k = some e → e.succeeded = true → k ∈ (pairs 0).related := by
  intro hall
  have h2 : 2 ∈ (pairs 0).related := hall (queryFirst 21) _ rfl rfl 2 _ rfl rfl
  have h0 : 0 ∈ (pairs 0).related := ((pairs 0).mem_related 2).1 h2
  have h3 : 3 ∈ (pairs 0).related := (((pairs 0).mem_related 0).1 h0).2
  have hfalse : false = true := ((pairs 0).mem_related 3).1 h3
  cases hfalse

end Tsr.Checker
