import Tsr.Checker.RelaterMoves

/-!
# Recorded failures of recursive type relations

A pair that is recorded as failed is not related, also when the comparison was made under
assumptions, was cut off by a depth limit on the way, or belongs to a query that ended with an error
(`relater_laws`).  The answers only ever err towards `maybe`:

* `Necessary`   a pair that is being compared is related only if the part of its formula that is
                left to evaluate holds.

The laws are for queries whose complexity counter does not run out (`inBudget`).
-/

set_option linter.unusedSectionVars false

namespace Tsr.Checker
open Tsr.Lib.Run

section
variable {κ τ : Type} [DecidableEq κ] (sys : System κ τ)

/-! ## The laws -/

/-- the counter is used up and the next comparison needs it -/
def runsOut (s : State κ τ) (key : κ) (report : Bool) : Bool :=
  !s.frame.overflow && (cached s key report).isNone && decide (s.frame.remaining ≤ 0)

def inBudget (a : Action κ) (s : State κ τ) : Bool :=
  match s.control, a with
  | .eval (.call key _ report), .go _ => !runsOut s key report
  | _, _ => true

/-- `frame` is as `before` but for its counter -/
structure SameStacks (before frame : Frame κ τ) : Prop where
  keys : frame.maybeKeys = before.maybeKeys
  set : frame.maybeSet = before.maybeSet
  sources : frame.sourceStack = before.sourceStack
  targets : frame.targetStack = before.targetStack
  expanding : frame.expanding = before.expanding

structure Laws (s : State κ τ) : Prop where
  failed : ∀ k e, s.cache.lookup k = some e → e.succeeded = false → k ∉ sys.related
  set : s.frame.maybeSet = s.frame.maybeKeys.toFinset
  kept : ∀ frame ∈ s.others, frame.maybeSet = frame.maybeKeys.toFinset
  restored : s.control = .idle → ∀ (formula : Formula κ) (key : Option κ) (frame : Option Nat)
    (before : State κ τ) (as : List (Action κ)) (after : State κ τ), useFrame s frame = some before →
    exec (step sys) (.query formula key frame :: as) s = some after → after.control = .idle →
    SameStacks before.frame after.frame

/-! ## What a related pair needs -/

/-- `P` is the truth of the part under evaluation -/
def Necessary (related : Set κ) : List (Kont κ) → Prop → Prop
  | [], _ => True
  | .query _ :: _, _ => True
  | .andRight right :: kont, P => Necessary related kont (P ∧ right.holds related)
  | .andJoin left :: kont, P => left ≠ .false ∧ Necessary related kont P
  | .orRight right :: kont, P => Necessary related kont (P ∨ right.holds related)
  | .call key _ _ _ _ _ :: kont, P => (key ∈ related → P) ∧ Necessary related kont (key ∈ related)

theorem Necessary.mono {related : Set κ} (kont : List (Kont κ)) {P Q : Prop} (hPQ : P → Q)
    (h : Necessary related kont P) : Necessary related kont Q := by
  induction kont generalizing P Q with
  | nil => trivial
  | cons k kont ih =>
    cases k with
    | query key => trivial
    | andRight right => exact ih (fun hP => ⟨hPQ hP.1, hP.2⟩) h
    | andJoin left => exact ⟨h.1, ih hPQ h.2⟩
    | orRight right => exact ih (Or.imp_left hPQ) h
    | call key start previous saved recursion left => exact ⟨fun hk => hPQ (h.1 hk), h.2⟩

theorem Necessary.leaveKeys {related : Set κ} (keys : List (κ × List κ)) (kont : List (Kont κ))
    {P : Prop} (h : Necessary related kont P) :
    Necessary related (Checker.leaveKeys keys kont) P := by
  induction kont generalizing P with
  | nil => trivial
  | cons k kont ih =>
    cases k with
    | query key => trivial
    | andRight right => exact ih h
    | andJoin left => exact ⟨h.1, ih h.2⟩
    | orRight right => exact ih h
    | call key start previous saved recursion left => exact h

/-- an error makes no difference -/
def Owed (related : Set κ) (kont : List (Kont κ)) : Control κ → Prop
  | .eval formula => Necessary related kont (formula.holds related)
  | .ret result => Necessary related kont (result ≠ .false)
  | .idle | .raise => True

/-! ## The invariant -/

structure Failures (s : State κ τ) : Prop where
  failed : ∀ k e, s.cache.lookup k = some e → e.succeeded = false → k ∉ sys.related
  budget : s.frame.overflow = false
  others : ∀ frame ∈ s.others, frame.overflow = false
  necessary : Owed sys.related s.kont s.control

theorem failed_insert {cache : AList fun _ : κ => Entry} {related : Set κ} (key : κ) (entry : Entry)
    (h : ∀ k e, cache.lookup k = some e → e.succeeded = false → k ∉ related)
    (hkey : entry.succeeded = false → key ∉ related) (k : κ) (e : Entry)
    (hk : (cache.insert key entry).lookup k = some e) (he : e.succeeded = false) : k ∉ related := by
  by_cases heq : k = key
  · subst heq
    rw [AList.lookup_insert] at hk
    cases hk
    exact hkey he
  · rw [AList.lookup_insert_ne heq] at hk
    exact h k e hk he

theorem failures_resetMaybe {s : State κ τ} (start : Nat) (succeeded : Bool) (propagating : UInt32)
    (hfailed : ∀ k e, s.cache.lookup k = some e → e.succeeded = false → k ∉ sys.related)
    (hbudget : s.frame.overflow = false) (hothers : ∀ frame ∈ s.others, frame.overflow = false)
    (control : Control κ) (hn : Owed sys.related s.kont control) :
    Failures sys { resetMaybe s start succeeded propagating with control := control } := by
  obtain ⟨cache, remaining, heq, hlook⟩ := resetMaybe_spec s start succeeded propagating
  rw [heq]
  refine ⟨fun k e hk he => ?_, hbudget, hothers, hn⟩
  change cache.lookup k = some e at hk
  rw [hlook k] at hk
  split at hk
  next =>
    cases hk
    cases he
  next => exact hfailed k e hk he

theorem failures_leaveCall {s : State κ τ} (h : Failures sys s) (result : Ternary κ) {key : κ}
    {start : Nat} {previous : Sides} {saved : UInt32} {recursion : Recursion}
    {left : List (κ × List κ)} {kont : List (Kont κ)} (hc : s.control = .ret result)
    (hk : s.kont = .call key start previous saved recursion left :: kont) :
    Failures sys (leaveCall { s with kont := kont } key start previous saved recursion left result) := by
  have hn := h.necessary
  rw [hk, hc] at hn
  obtain ⟨hkey, hrest⟩ := hn
  have hgo : ∀ r : Ternary κ, r ≠ .false → Owed sys.related kont (.ret r) :=
    fun r hr => hrest.mono kont fun _ => hr
  unfold leaveCall
  cases result with
  | false =>
    have hout : key ∉ sys.related := fun hin => hkey hin rfl
    refine failures_resetMaybe sys start false s.reliability ?_ ?_ ?_ (.ret .false) ?_
    · exact failed_insert key _ h.failed fun _ => hout
    · exact h.budget
    · exact h.others
    · exact hrest.mono kont fun hin => absurd hin hout
  | true =>
    refine failures_resetMaybe sys start true s.reliability ?_ ?_ ?_ (.ret .true) ?_
    · exact h.failed
    · exact h.budget
    · exact h.others
    · exact hgo .true nofun
  | maybe rests =>
    dsimp only
    split
    next =>
      refine failures_resetMaybe sys start true s.reliability ?_ ?_ ?_ (.ret (.maybe [])) ?_
      · exact h.failed
      · exact h.budget
      · exact h.others
      · exact hgo (.maybe []) nofun
    next =>
      exact ⟨h.failed, h.budget, h.others,
        Necessary.leaveKeys ((key, rests) :: left) kont (hgo (.maybe [key]) nofun)⟩

/-- an answer of `false` is that of a recorded failure -/
theorem failures_answered {s s' : State κ τ} (h : Failures sys s) {key : κ} {recursion : Recursion}
    {report : Bool} (hc : s.control = .eval (.call key recursion report))
    (hb : runsOut s key report = false) (hans : answer sys s key report = some s') :
    Failures sys s' := by
  have hn := h.necessary
  rw [hc] at hn
  change Necessary sys.related s.kont (key ∈ sys.related) at hn
  have hgo : ∀ r : Ternary κ, (key ∈ sys.related → r ≠ .false) →
      Failures sys (s.return r) := fun r hr => ⟨h.failed, h.budget, h.others, hn.mono _ hr⟩
  unfold answer at hans
  rw [h.budget, if_neg Bool.false_ne_true] at hans
  split at hans
  next e he =>
    cases hans
    obtain ⟨hlook, -⟩ := Option.filter_eq_some_iff.1 he
    refine ⟨h.failed, h.budget, h.others, hn.mono _ fun hin => ?_⟩
    cases hsucc : e.succeeded with
    | true => exact nofun
    | false => exact absurd hin (h.failed key e hlook hsucc)
  next hcached =>
    split at hans
    next hrem =>
      unfold runsOut at hb
      rw [h.budget, hcached, decide_eq_true hrem] at hb
      cases hb
    next =>
      split at hans
      next => cases hans; exact hgo _ fun _ => nofun
      next =>
        split at hans
        next => cases hans; exact hgo _ fun _ => nofun
        next => cases hans

/-- a step inside a formula -/
theorem failures_formula {s : State κ τ} (h : Failures sys s) (kont : List (Kont κ))
    (control : Control κ) (reliability : UInt32) (hn : Owed sys.related kont control) :
    Failures sys { s with kont := kont, control := control, reliability := reliability } :=
  ⟨h.failed, h.budget, h.others, hn⟩

theorem useFrame_overflow {s s1 : State κ τ} (hf : s.frame.overflow = false)
    (ho : ∀ frame ∈ s.others, frame.overflow = false) (frame : Option Nat)
    (h : useFrame s frame = some s1) :
    s1.cache = s.cache ∧ s1.frame.overflow = false ∧ ∀ frame ∈ s1.others, frame.overflow = false := by
  cases frame with
  | none =>
    cases h
    refine ⟨rfl, rfl, fun f hmem => ?_⟩
    rcases List.mem_cons.1 hmem with rfl | hmem
    · exact hf
    · exact ho f hmem
  | some i =>
    obtain ⟨g, hg, rfl⟩ := Option.map_eq_some_iff.1 h
    refine ⟨rfl, ho g (List.mem_of_getElem? hg), fun f hmem => ?_⟩
    rcases List.mem_or_eq_of_mem_set hmem with hmem | rfl
    · exact ho f hmem
    · exact hf

theorem and_ne_false (a b : Ternary κ) (ha : a ≠ .false) (hb : b ≠ .false) : a.and b ≠ .false := by
  cases a with
  | false => exact absurd rfl ha
  | true => exact hb
  | maybe rests =>
    cases b with
    | false => exact absurd rfl hb
    | true => exact nofun
    | maybe rests' => exact nofun

theorem failures_step (a : Action κ) (s s' : State κ τ) (h : Failures sys s)
    (hb : inBudget a s = true) (hstep : step sys a s = some s') : Failures sys s' := by
  have hn : ∀ control, s.control = control → Owed sys.related s.kont control := by
    rintro _ rfl
    exact h.necessary
  cases step_moves sys a s s' hstep with
  | query formula key frame s1 hc h1 =>
    obtain ⟨hcache, hf, ho⟩ := useFrame_overflow h.budget h.others frame h1
    refine ⟨?_, hf, ho, trivial⟩
    show ∀ k e, s1.cache.lookup k = some e → _
    rw [hcache]
    exact h.failed
  | value related marks hc =>
    refine failures_formula sys h s.kont _ _ ((hn _ hc).mono _ fun hrel => ?_)
    change related = true at hrel
    rw [hrel]
    exact nofun
  | answered key recursion report nested s' ha hc hans =>
    subst ha
    refine failures_answered sys h hc ?_ hans
    unfold inBudget at hb
    rw [hc] at hb
    exact Bool.not_eq_true' _ ▸ hb
  | compared key recursion report nested ha hc hans =>
    refine ⟨h.failed, h.budget, h.others, ?_⟩
    unfold compare
    dsimp only
    split
    next => exact ⟨fun _ => nofun, hn _ hc⟩
    next => exact ⟨(sys.mem_related key).1, hn _ hc⟩
  | evalAnd a b hc => exact failures_formula sys h _ _ s.reliability (hn _ hc)
  | evalOr a b hc => exact failures_formula sys h _ _ s.reliability (hn _ hc)
  | andStop right kont hc hk =>
    have hret := hn _ hc
    rw [hk] at hret
    refine failures_formula sys h kont s.control s.reliability ?_
    rw [hc]
    exact Necessary.mono kont (fun hP => hP.1) hret
  | andNext result right kont hc hne hk =>
    have hret := hn _ hc
    rw [hk] at hret
    exact failures_formula sys h _ _ s.reliability ⟨hne, Necessary.mono kont (fun hP => hP.2) hret⟩
  | andJoin result left kont hc hk =>
    have hret := hn _ hc
    rw [hk] at hret
    exact failures_formula sys h _ _ s.reliability
      (Necessary.mono kont (and_ne_false left result hret.1) hret.2)
  | orNext right kont hc hk =>
    have hret := hn _ hc
    rw [hk] at hret
    exact failures_formula sys h _ _ s.reliability
      (Necessary.mono kont (fun hP => hP.resolve_left fun hr => hr rfl) hret)
  | orStop result right kont hc hne hk =>
    have hret := hn _ hc
    rw [hk] at hret
    refine failures_formula sys h kont s.control s.reliability ?_
    rw [hc]
    exact Necessary.mono kont (fun _ => hne) hret
  | left result key start previous saved recursion keys kont nested ha hc hk =>
    exact failures_leaveCall sys h result hc hk
  | ended result key kont hc hk =>
    unfold endQuery
    split
    next =>
      split
      next hover =>
        change s.frame.overflow = true at hover
        rw [h.budget] at hover
        cases hover
      next => exact ⟨h.failed, h.budget, h.others, trivial⟩
    next => exact ⟨h.failed, h.budget, h.others, trivial⟩
  | failed formula hc => exact failures_formula sys h s.kont .raise s.reliability trivial
  | failedInside key recursion report hc hans => exact ⟨h.failed, h.budget, h.others, trivial⟩
  | raisedCall key start previous saved recursion keys kont hc hk =>
    refine failures_resetMaybe sys start false s.reliability ?_ ?_ ?_ .raise trivial
    · exact h.failed
    · exact h.budget
    · exact h.others
  | raisedQuery key kont hc hk => exact failures_formula sys h kont .idle s.reliability trivial
  | raisedAnd right kont hc hk =>
    exact failures_formula sys h kont s.control s.reliability (by rw [hc]; trivial)
  | raisedJoin left kont hc hk =>
    exact failures_formula sys h kont s.control s.reliability (by rw [hc]; trivial)
  | raisedOr right kont hc hk =>
    exact failures_formula sys h kont s.control s.reliability (by rw [hc]; trivial)

theorem failures_init : Failures sys (State.init κ τ) :=
  ⟨nofun, rfl, fun _ h => absurd h List.not_mem_nil, trivial⟩

/-! ## Every run -/

theorem sameStacks_of_clean {before frame : Frame κ τ} (hb : before.Clean) (hf : frame.Clean) :
    SameStacks before frame :=
  ⟨hf.keys.trans hb.keys.symm, hf.set.trans hb.set.symm, hf.sources.trans hb.sources.symm,
    hf.targets.trans hb.targets.symm, hf.expanding.trans hb.expanding.symm⟩

theorem stacks_restored {s : State κ τ} (h : Stacked sys s) (hidle : s.control = .idle)
    (formula : Formula κ) (key : Option κ) (frame : Option Nat) (before : State κ τ)
    (as : List (Action κ)) (after : State κ τ) (hbefore : useFrame s frame = some before)
    (hrun : exec (step sys) (.query formula key frame :: as) s = some after)
    (hafter : after.control = .idle) : SameStacks before.frame after.frame := by
  have hend := exec_invariant (step sys) (Stacked sys) (stacked_step sys) _ s after h hrun
  have hclean := useFrame_clean (h.clean sys (h.idle hidle)) h.others frame hbefore
  exact sameStacks_of_clean hclean.1 (hend.clean sys (hend.idle hafter))

/-- **Every run of queries.**  Whatever fails and whatever counts as deeply nested, recorded failures
are not related, and every query leaves the stacks as it found them. -/
theorem relater_laws (as : List (Action κ)) (s : State κ τ)
    (hb : along (step sys) inBudget as (State.init κ τ) = true)
    (h : exec (step sys) as (State.init κ τ) = some s) : Laws sys s := by
  have hfail := exec_invariant_along (step sys) inBudget (Failures sys) (failures_step sys) as _ s
    (failures_init sys) hb h
  have hstack := stacked_run sys as s h
  refine ⟨hfail.failed, hstack.set, fun f hf => ?_, fun hidle => stacks_restored sys hstack hidle⟩
  rw [(hstack.others f hf).set, (hstack.others f hf).keys]
  rfl

end

/-- the structure of the pairs `1` and `4` below: an alternative that fails, and one that holds -/
def alternatives : Formula Nat :=
  .or (.and (.call 2 .both false) (.call 3 .both false)) (.value true 0)

/-- the pair `0` needs `1` and `3`, the pair `2` rests on another one, and `3` is not related -/
def pairs (other : Nat) : System Nat Nat where
  body k := match k with
    | 0 => .and (.call 1 .both false) (.call 3 .both false)
    | 1 | 4 => alternatives
    | 2 => .call other .both false
    | _ => .value false 0
  source k := k
  target k := k
  broad k := match k with
    | 4 => some 1
    | _ => none

/-- a query of the pair `0` with the given number of steps -/
def queryFirst (steps : Nat) : List (Action Nat) :=
  .query (.call 0 .both false) (some 0) none :: List.replicate steps (.go ⟨false, false⟩)

/-- an error while the pair `2` is compared -/
def queryError : List (Action Nat) := queryFirst 6 ++ [.fail false, .go ⟨false, false⟩]

theorem relater_laws_pairs :
    (∃ s, exec (step (pairs 0)) (queryFirst 21) (State.init Nat Nat) = some s ∧
      (s.cache.lookup 0).map (·.succeeded) = some false ∧ Laws (pairs 0) s) ∧
    ∃ s, exec (step (pairs 0)) queryError (State.init Nat Nat) = some s ∧
      s.frame.maybeKeys = [0, 1] ∧ Laws (pairs 0) s :=
  ⟨⟨_, rfl, rfl, relater_laws (pairs 0) (queryFirst 21) _ rfl rfl⟩,
    ⟨_, rfl, rfl, relater_laws (pairs 0) queryError _ rfl rfl⟩⟩

end Tsr.Checker
