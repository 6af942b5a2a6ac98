import Tsr.Checker.Relater
import Tsr.Lib.Run

/-!
# The stacks of recursive type relations

Each continuation of a comparison knows the keys that are on the stack of keys because of it:

* `Moves`         what one step can do;
* `keysOf`        the stack of keys as the continuations have it;
* `Stacked`       the frame agrees with the continuations, the set of keys with their list, and all
                  frames that are not in use are clean;
* `stacked_run`   so it is in every state that a run reaches.
-/

set_option linter.unusedSectionVars false

namespace Tsr.Checker
open Tsr.Lib.Run

section
variable {κ τ : Type} [DecidableEq κ] (sys : System κ τ)

/-! ## Steps -/

inductive Moves (a : Action κ) (s : State κ τ) : State κ τ → Prop where
  | query (formula : Formula κ) (key : Option κ) (frame : Option Nat) (s1 : State κ τ) :
      s.control = .idle → useFrame s frame = some s1 →
      Moves a s { s1 with control := .eval formula, kont := [.query key] }
  | value (related : Bool) (marks : UInt32) : s.control = .eval (.value related marks) →
      Moves a s ({ s with reliability := s.reliability ||| marks }.return
        (if related then .true else .false))
  | answered (key : κ) (recursion : Recursion) (report : Bool) (nested : Sides) (s' : State κ τ) :
      a = .go nested → s.control = .eval (.call key recursion report) →
      answer sys s key report = some s' → Moves a s s'
  | compared (key : κ) (recursion : Recursion) (report : Bool) (nested : Sides) :
      a = .go nested → s.control = .eval (.call key recursion report) →
      answer sys s key report = none → Moves a s (compare sys s key recursion nested)
  | evalAnd (f g : Formula κ) : s.control = .eval (.and f g) →
      Moves a s { s with control := .eval f, kont := .andRight g :: s.kont }
  | evalOr (f g : Formula κ) : s.control = .eval (.or f g) →
      Moves a s { s with control := .eval f, kont := .orRight g :: s.kont }
  | andStop (right : Formula κ) (kont : List (Kont κ)) : s.control = .ret .false →
      s.kont = .andRight right :: kont → Moves a s { s with kont := kont }
  | andNext (result : Ternary κ) (right : Formula κ) (kont : List (Kont κ)) :
      s.control = .ret result → result ≠ .false → s.kont = .andRight right :: kont →
      Moves a s { s with control := .eval right, kont := .andJoin result :: kont }
  | andJoin (result left : Ternary κ) (kont : List (Kont κ)) : s.control = .ret result →
      s.kont = .andJoin left :: kont →
      Moves a s { s with control := .ret (left.and result), kont := kont }
  | orNext (right : Formula κ) (kont : List (Kont κ)) : s.control = .ret .false →
      s.kont = .orRight right :: kont → Moves a s { s with control := .eval right, kont := kont }
  | orStop (result : Ternary κ) (right : Formula κ) (kont : List (Kont κ)) :
      s.control = .ret result → result ≠ .false → s.kont = .orRight right :: kont →
      Moves a s { s with kont := kont }
  | left (result : Ternary κ) (key : κ) (start : Nat) (previous : Sides) (saved : UInt32)
      (recursion : Recursion) (keys : List (κ × List κ)) (kont : List (Kont κ)) (nested : Sides) :
      a = .go nested → s.control = .ret result →
      s.kont = .call key start previous saved recursion keys :: kont →
      Moves a s (leaveCall { s with kont := kont } key start previous saved recursion keys result)
  | ended (result : Ternary κ) (key : Option κ) (kont : List (Kont κ)) : s.control = .ret result →
      s.kont = .query key :: kont → Moves a s (endQuery { s with kont := kont } key)
  | failed (formula : Formula κ) : s.control = .eval formula →
      Moves a s { s with control := .raise }
  | failedInside (key : κ) (recursion : Recursion) (report : Bool) :
      s.control = .eval (.call key recursion report) → answer sys s key report = none →
      Moves a s { pushPair sys s key recursion with control := .raise }
  | raisedCall (key : κ) (start : Nat) (previous : Sides) (saved : UInt32) (recursion : Recursion)
      (keys : List (κ × List κ)) (kont : List (Kont κ)) : s.control = .raise →
      s.kont = .call key start previous saved recursion keys :: kont →
      Moves a s (leaveCallError { s with kont := kont } start previous saved recursion)
  | raisedQuery (key : Option κ) (kont : List (Kont κ)) : s.control = .raise →
      s.kont = .query key :: kont → Moves a s { s with kont := kont, control := .idle }
  | raisedAnd (right : Formula κ) (kont : List (Kont κ)) : s.control = .raise →
      s.kont = .andRight right :: kont → Moves a s { s with kont := kont }
  | raisedJoin (left : Ternary κ) (kont : List (Kont κ)) : s.control = .raise →
      s.kont = .andJoin left :: kont → Moves a s { s with kont := kont }
  | raisedOr (right : Formula κ) (kont : List (Kont κ)) : s.control = .raise →
      s.kont = .orRight right :: kont → Moves a s { s with kont := kont }

theorem stepReturn_moves (nested : Sides) (s s' : State κ τ) (result : Ternary κ)
    (hc : s.control = .ret result) (h : stepReturn s result = some s') :
    Moves sys (.go nested) s s' := by
  unfold stepReturn at h
  split at h
  next => cases h
  next right kont hk =>
    split at h
    next => cases h; exact .andStop right kont hc hk
    next hne => cases h; exact .andNext result right kont hc hne hk
  next left kont hk => cases h; exact .andJoin result left kont hc hk
  next right kont hk =>
    split at h
    next => cases h; exact .orNext right kont hc hk
    next hne => cases h; exact .orStop result right kont hc hne hk
  next key start previous saved recursion keys kont hk =>
    cases h
    exact .left result key start previous saved recursion keys kont nested rfl hc hk
  next key kont hk => cases h; exact .ended result key kont hc hk

theorem stepRaise_moves (a : Action κ) (s s' : State κ τ) (hc : s.control = .raise)
    (h : stepRaise s = some s') : Moves sys a s s' := by
  unfold stepRaise at h
  split at h
  next => cases h
  next key start previous saved recursion keys kont hk =>
    cases h
    exact .raisedCall key start previous saved recursion keys kont hc hk
  next key kont hk => cases h; exact .raisedQuery key kont hc hk
  next k kont hcall hquery hk =>
    cases h
    cases k with
    | andRight right => exact .raisedAnd right kont hc hk
    | andJoin left => exact .raisedJoin left kont hc hk
    | orRight right => exact .raisedOr right kont hc hk
    | call key start previous saved recursion keys =>
      exact absurd rfl (hcall key start previous saved recursion keys)
    | query key => exact absurd rfl (hquery key)

theorem stepEval_moves (s : State κ τ) (nested : Sides) (formula : Formula κ)
    (hc : s.control = .eval formula) : Moves sys (.go nested) s (stepEval sys s nested formula) := by
  cases formula with
  | value related marks => exact .value related marks hc
  | call key recursion report =>
    show Moves sys _ s ((answer sys s key report).getD (compare sys s key recursion nested))
    cases h : answer sys s key report with
    | some s' => exact .answered key recursion report nested s' rfl hc h
    | none => exact .compared key recursion report nested rfl hc h
  | and a b => exact .evalAnd a b hc
  | or a b => exact .evalOr a b hc

theorem stepFail_moves (s s' : State κ τ) (entered : Bool) (formula : Formula κ)
    (hc : s.control = .eval formula) (h : stepFail sys s entered formula = some s') :
    Moves sys (.fail entered) s s' := by
  unfold stepFail at h
  split at h
  next key recursion report =>
    split at h
    next =>
      split at h
      next => cases h
      next hans => cases h; exact .failedInside key recursion report hc hans
    next => cases h; exact .failed _ hc
  next =>
    split at h
    next => cases h
    next => cases h; exact .failed _ hc

theorem step_moves (a : Action κ) (s s' : State κ τ) (h : step sys a s = some s') :
    Moves sys a s s' := by
  unfold step at h
  cases hc : s.control with
  | idle =>
    rw [hc] at h
    cases a with
    | query formula key frame =>
      obtain ⟨s1, h1, rfl⟩ := Option.map_eq_some_iff.1 h
      exact .query formula key frame s1 hc h1
    | go nested => cases h
    | fail entered => cases h
  | eval formula =>
    rw [hc] at h
    cases a with
    | query _ _ _ => cases h
    | go nested => cases h; exact stepEval_moves sys s nested formula hc
    | fail entered => exact stepFail_moves sys s s' entered formula hc h
  | ret result =>
    rw [hc] at h
    cases a with
    | query _ _ _ => cases h
    | go nested => exact stepReturn_moves sys nested s s' result hc h
    | fail entered => cases h
  | raise =>
    rw [hc] at h
    cases a with
    | query _ _ _ => cases h
    | go nested => exact stepRaise_moves sys _ s s' hc h
    | fail entered => cases h

end

/-! ## Draining the stack of keys -/

section
variable {κ τ : Type} [DecidableEq κ]

theorem foldl_resetKey (succeeded : Bool) (propagating : UInt32) (keys : List κ) (s : State κ τ) :
    ∃ cache remaining, keys.foldl (resetKey succeeded propagating) s = { s with
        cache := cache
        frame := { s.frame with
          maybeSet := s.frame.maybeSet \ keys.toFinset
          remaining := remaining } } ∧
      ∀ k, cache.lookup k = if succeeded = true ∧ k ∈ keys then some ⟨true, false, propagating⟩
        else s.cache.lookup k := by
  induction keys generalizing s with
  | nil => exact ⟨s.cache, s.frame.remaining, by simp, fun k => by simp⟩
  | cons key keys ih =>
    obtain ⟨cache, remaining, heq, hlook⟩ := ih (resetKey succeeded propagating s key)
    refine ⟨cache, remaining, ?_, fun k => ?_⟩
    · have hset : s.frame.maybeSet.erase key \ keys.toFinset =
          s.frame.maybeSet \ (key :: keys).toFinset := by
        ext k
        simp only [Finset.mem_sdiff, Finset.mem_erase, List.mem_toFinset, List.mem_cons]
        tauto
      rw [List.foldl_cons, heq, ← hset]
      cases succeeded <;> rfl
    · rw [hlook k]
      unfold resetKey
      cases succeeded with
      | false => simp
      | true =>
        by_cases hk : k = key
        · subst hk
          simp [AList.lookup_insert]
        · simp [hk, AList.lookup_insert_ne hk]

theorem resetMaybe_spec (s : State κ τ) (start : Nat) (succeeded : Bool) (propagating : UInt32) :
    ∃ cache remaining, resetMaybe s start succeeded propagating = { s with
        cache := cache
        frame := { s.frame with
          maybeKeys := s.frame.maybeKeys.take start
          maybeSet := s.frame.maybeSet \ (s.frame.maybeKeys.drop start).toFinset
          remaining := remaining } } ∧
      ∀ k, cache.lookup k = if succeeded = true ∧ k ∈ s.frame.maybeKeys.drop start then
          some ⟨true, false, propagating⟩ else s.cache.lookup k :=
  foldl_resetKey succeeded propagating _ _

end

/-! ## The stacks as the continuations have them -/

section
variable {κ τ : Type} (sys : System κ τ)

def keysOf : List (Kont κ) → List κ
  | [] => []
  | .call key _ _ _ _ left :: kont => keysOf kont ++ key :: left.map (·.1)
  | .andRight _ :: kont | .andJoin _ :: kont | .orRight _ :: kont | .query _ :: kont => keysOf kont

def sourcesOf : List (Kont κ) → List τ
  | [] => []
  | .call key _ _ _ recursion _ :: kont =>
    if recursion.hasSource then sourcesOf kont ++ [sys.source key] else sourcesOf kont
  | .andRight _ :: kont | .andJoin _ :: kont | .orRight _ :: kont | .query _ :: kont => sourcesOf kont

def targetsOf : List (Kont κ) → List τ
  | [] => []
  | .call key _ _ _ recursion _ :: kont =>
    if recursion.hasTarget then targetsOf kont ++ [sys.target key] else targetsOf kont
  | .andRight _ :: kont | .andJoin _ :: kont | .orRight _ :: kont | .query _ :: kont => targetsOf kont

/-- each comparison remembers where its keys start and what was expanding before it; a query is at the
bottom -/
def Saved : Sides → List (Kont κ) → Prop
  | expanding, [] => expanding = ⟨false, false⟩
  | _, .call _ start previous _ _ _ :: kont => start = (keysOf kont).length ∧ Saved previous kont
  | expanding, .query _ :: kont => kont = [] ∧ expanding = ⟨false, false⟩
  | expanding, .andRight _ :: kont | expanding, .andJoin _ :: kont
  | expanding, .orRight _ :: kont => Saved expanding kont

/-- a frame of no comparison -/
structure Frame.Clean (frame : Frame κ τ) : Prop where
  keys : frame.maybeKeys = []
  set : frame.maybeSet = ∅
  sources : frame.sourceStack = []
  targets : frame.targetStack = []
  expanding : frame.expanding = ⟨false, false⟩

/-- keys are left behind only inside a comparison -/
theorem keysOf_leaveKeys (keys : List (κ × List κ)) (kont : List (Kont κ))
    (h : sourcesOf sys kont ≠ [] ∨ targetsOf sys kont ≠ []) :
    keysOf (leaveKeys keys kont) = keysOf kont ++ keys.map (·.1) := by
  induction kont with
  | nil => exact absurd rfl (h.elim id id)
  | cons k kont ih =>
    cases k with
    | call key start previous saved recursion left =>
      simp only [leaveKeys, keysOf, List.map_append, List.append_assoc, List.cons_append]
    | andRight right => exact ih h
    | andJoin left => exact ih h
    | orRight right => exact ih h
    | query key => exact ih h

theorem sourcesOf_leaveKeys (keys : List (κ × List κ)) (kont : List (Kont κ)) :
    sourcesOf sys (leaveKeys keys kont) = sourcesOf sys kont := by
  induction kont with
  | nil => rfl
  | cons k kont ih =>
    cases k with
    | call key start previous saved recursion left => rfl
    | andRight right => exact ih
    | andJoin left => exact ih
    | orRight right => exact ih
    | query key => exact ih

theorem targetsOf_leaveKeys (keys : List (κ × List κ)) (kont : List (Kont κ)) :
    targetsOf sys (leaveKeys keys kont) = targetsOf sys kont := by
  induction kont with
  | nil => rfl
  | cons k kont ih =>
    cases k with
    | call key start previous saved recursion left => rfl
    | andRight right => exact ih
    | andJoin left => exact ih
    | orRight right => exact ih
    | query key => exact ih

theorem saved_leaveKeys (keys : List (κ × List κ)) (kont : List (Kont κ)) (expanding : Sides)
    (h : Saved expanding kont) : Saved expanding (leaveKeys keys kont) := by
  induction kont with
  | nil => exact h
  | cons k kont ih =>
    cases k with
    | call key start previous saved recursion left => exact h
    | andRight right => exact ih h
    | andJoin left => exact ih h
    | orRight right => exact ih h
    | query key =>
      obtain ⟨rfl, he⟩ := h
      exact ⟨rfl, he⟩

end

section
variable {κ τ : Type} [DecidableEq κ] (sys : System κ τ)

/-- the frame agrees with the continuations -/
structure Stacked (s : State κ τ) : Prop where
  keys : s.frame.maybeKeys = keysOf s.kont
  sources : s.frame.sourceStack = sourcesOf sys s.kont
  targets : s.frame.targetStack = targetsOf sys s.kont
  saved : Saved s.frame.expanding s.kont
  nodup : s.frame.maybeKeys.Nodup
  set : s.frame.maybeSet = s.frame.maybeKeys.toFinset
  others : ∀ frame ∈ s.others, frame.Clean
  idle : s.control = .idle → s.kont = []

theorem Stacked.clean {s : State κ τ} (h : Stacked sys s) (hk : s.kont = []) : s.frame.Clean := by
  have hkeys : s.frame.maybeKeys = [] := by rw [h.keys, hk]; rfl
  refine ⟨hkeys, ?_, ?_, ?_, ?_⟩
  · rw [h.set, hkeys]
    rfl
  · rw [h.sources, hk]
    rfl
  · rw [h.targets, hk]
    rfl
  · have hsaved := h.saved
    rw [hk] at hsaved
    exact hsaved

/-- a frame that is not in use fits an empty stack -/
theorem stacked_of_clean {s : State κ τ} (key : Option κ) (formula : Formula κ) (hf : s.frame.Clean)
    (ho : ∀ frame ∈ s.others, frame.Clean) :
    Stacked sys { s with control := .eval formula, kont := [.query key] } where
  keys := hf.keys
  sources := hf.sources
  targets := hf.targets
  saved := ⟨rfl, hf.expanding⟩
  nodup := by
    show s.frame.maybeKeys.Nodup
    rw [hf.keys]
    exact List.nodup_nil
  set := by
    show s.frame.maybeSet = s.frame.maybeKeys.toFinset
    rw [hf.set, hf.keys]
    rfl
  others := ho
  idle := nofun

theorem newFrame_clean (cache : AList fun _ : κ => Entry) : (newFrame cache : Frame κ τ).Clean :=
  ⟨rfl, rfl, rfl, rfl, rfl⟩

/-- all frames are clean before a query, and the one that it uses is one of them -/
theorem useFrame_clean {s s1 : State κ τ} (hf : s.frame.Clean) (ho : ∀ frame ∈ s.others, frame.Clean)
    (frame : Option Nat) (h : useFrame s frame = some s1) :
    s1.frame.Clean ∧ ∀ frame ∈ s1.others, frame.Clean := by
  cases frame with
  | none =>
    cases h
    refine ⟨newFrame_clean s.cache, fun f hmem => ?_⟩
    rcases List.mem_cons.1 hmem with rfl | hmem
    · exact hf
    · exact ho f hmem
  | some i =>
    obtain ⟨g, hg, rfl⟩ := Option.map_eq_some_iff.1 h
    refine ⟨ho g (List.mem_of_getElem? hg), fun f hmem => ?_⟩
    rcases List.mem_or_eq_of_mem_set hmem with hmem | rfl
    · exact ho f hmem
    · exact hf

/-- the answers change no stack -/
theorem answer_frame (s s' : State κ τ) (key : κ) (report : Bool)
    (h : answer sys s key report = some s') : ∃ reliability overflow result, s' = { s with
      reliability := reliability
      frame := { s.frame with overflow := overflow }
      control := .ret result } := by
  unfold answer at h
  split at h
  next => cases h; exact ⟨s.reliability, s.frame.overflow, _, rfl⟩
  next =>
    split at h
    next e _ => cases h; exact ⟨_, s.frame.overflow, _, rfl⟩
    next =>
      split at h
      next => cases h; exact ⟨s.reliability, true, _, rfl⟩
      next =>
        split at h
        next => cases h; exact ⟨s.reliability, s.frame.overflow, _, rfl⟩
        next =>
          split at h
          next => cases h; exact ⟨s.reliability, s.frame.overflow, _, rfl⟩
          next => cases h

/-- a key that is compared is not on the stack -/
theorem answer_none (s : State κ τ) (key : κ) (report : Bool) (h : answer sys s key report = none) :
    s.frame.overflow = false ∧ cached s key report = none ∧ 0 < s.frame.remaining ∧
      assumed sys s.frame key = none ∧ atDepthLimit s.frame = false := by
  unfold answer at h
  split at h
  next => cases h
  next hover =>
    split at h
    next => cases h
    next hcached =>
      split at h
      next => cases h
      next hrem =>
        split at h
        next => cases h
        next hassumed =>
          split at h
          next => cases h
          next hdepth =>
            exact ⟨Bool.eq_false_iff.2 hover, hcached, Int.not_le.1 hrem, hassumed,
              Bool.eq_false_iff.2 hdepth⟩

theorem not_mem_of_answer_none {s : State κ τ} (h : Stacked sys s) {key : κ} {report : Bool}
    (hans : answer sys s key report = none) : key ∉ s.frame.maybeKeys := by
  intro hmem
  have hset : key ∈ s.frame.maybeSet := by
    rw [h.set]
    exact List.mem_toFinset.2 hmem
  have hassumed := (answer_none sys s key report hans).2.2.2.1
  unfold assumed at hassumed
  rw [if_pos hset] at hassumed
  cases hassumed

theorem stacked_pushPair {s : State κ τ} (h : Stacked sys s) (key : κ) (recursion : Recursion)
    (hnew : key ∉ s.frame.maybeKeys) (expanding : Sides) (control : Control κ)
    (hc : control ≠ .idle) :
    Stacked sys { pushPair sys s key recursion with
      frame := { (pushPair sys s key recursion).frame with expanding := expanding }
      control := control } where
  keys := by
    show s.frame.maybeKeys ++ [key] = keysOf s.kont ++ key :: [].map _
    rw [h.keys]
    rfl
  sources := by
    show (if recursion.hasSource then s.frame.sourceStack ++ [sys.source key]
      else s.frame.sourceStack) = _
    rw [h.sources]
    rfl
  targets := by
    show (if recursion.hasTarget then s.frame.targetStack ++ [sys.target key]
      else s.frame.targetStack) = _
    rw [h.targets]
    rfl
  saved := ⟨by rw [h.keys], h.saved⟩
  nodup := by
    refine List.Nodup.append h.nodup (List.nodup_singleton _) ?_
    rw [List.disjoint_singleton]
    exact hnew
  set := by
    show insert key s.frame.maybeSet = (s.frame.maybeKeys ++ [key]).toFinset
    rw [h.set, List.toFinset_append, Finset.union_comm]
    rfl
  others := h.others
  idle := fun hidle => absurd hidle hc

/-- the pair is off the stacks; its keys are still on theirs -/
structure Popped (rest : List κ) (s : State κ τ) : Prop where
  keys : s.frame.maybeKeys = keysOf s.kont ++ rest
  sources : s.frame.sourceStack = sourcesOf sys s.kont
  targets : s.frame.targetStack = targetsOf sys s.kont
  saved : Saved s.frame.expanding s.kont
  nodup : s.frame.maybeKeys.Nodup
  set : s.frame.maybeSet = s.frame.maybeKeys.toFinset
  others : ∀ frame ∈ s.others, frame.Clean

theorem popped_popPair {s : State κ τ} (h : Stacked sys s) {key : κ} {start : Nat} {previous : Sides}
    {saved : UInt32} {recursion : Recursion} {left : List (κ × List κ)} {kont : List (Kont κ)}
    (hk : s.kont = .call key start previous saved recursion left :: kont) :
    Popped sys (key :: left.map (·.1))
        (popPair { s with kont := kont } previous saved recursion) ∧
      start = (keysOf kont).length := by
  have hsources := h.sources
  have htargets := h.targets
  have hsaved := h.saved
  rw [hk] at hsources htargets hsaved
  refine ⟨⟨?_, ?_, ?_, hsaved.2, h.nodup, h.set, h.others⟩, hsaved.1⟩
  · show s.frame.maybeKeys = _
    rw [h.keys, hk]
    rfl
  · show (if recursion.hasSource then s.frame.sourceStack.dropLast else s.frame.sourceStack) =
      sourcesOf sys kont
    rw [hsources]
    simp only [sourcesOf]
    split
    next => exact List.dropLast_concat
    next => rfl
  · show (if recursion.hasTarget then s.frame.targetStack.dropLast else s.frame.targetStack) =
      targetsOf sys kont
    rw [htargets]
    simp only [targetsOf]
    split
    next => exact List.dropLast_concat
    next => rfl

theorem popped_recordFailure {s : State κ τ} {rest : List κ} (h : Popped sys rest s) (key : κ)
    (propagating : UInt32) : Popped sys rest (recordFailure s key propagating) :=
  ⟨h.keys, h.sources, h.targets, h.saved, h.nodup, h.set, h.others⟩

/-- the keys of a comparison go when it is decided -/
theorem stacked_resetMaybe {s : State κ τ} {rest : List κ} (h : Popped sys rest s) (start : Nat)
    (hstart : start = (keysOf s.kont).length) (succeeded : Bool) (propagating : UInt32)
    (control : Control κ) (hc : control ≠ .idle) :
    Stacked sys { resetMaybe s start succeeded propagating with control := control } := by
  obtain ⟨cache, remaining, heq, -⟩ := resetMaybe_spec s start succeeded propagating
  have htake : s.frame.maybeKeys.take start = keysOf s.kont := by
    rw [h.keys, hstart, List.take_left]
  have hdrop : s.frame.maybeKeys.drop start = rest := by
    rw [h.keys, hstart, List.drop_left]
  have hdisj : (keysOf s.kont).Disjoint rest := by
    have hnodup := h.nodup
    rw [h.keys] at hnodup
    exact List.disjoint_of_nodup_append hnodup
  rw [heq, htake, hdrop]
  refine ⟨rfl, h.sources, h.targets, h.saved, ?_, ?_, h.others, fun hidle => absurd hidle hc⟩
  · have hnodup := h.nodup
    rw [h.keys] at hnodup
    exact hnodup.of_append_left
  · show s.frame.maybeSet \ rest.toFinset = (keysOf s.kont).toFinset
    rw [h.set, h.keys, List.toFinset_append, Finset.union_sdiff_right]
    refine Finset.sdiff_eq_self_of_disjoint ?_
    exact List.disjoint_toFinset_iff_disjoint.2 hdisj

/-- the keys of an undecided comparison stay -/
theorem stacked_leaveKeys {s : State κ τ} {key : κ} {left : List (κ × List κ)} (rests : List κ)
    (h : Popped sys (key :: left.map (·.1)) s) (hne : stacksEmpty s.frame = false)
    (control : Control κ) (hc : control ≠ .idle) :
    Stacked sys { s with kont := leaveKeys ((key, rests) :: left) s.kont, control := control } := by
  have hcall : sourcesOf sys s.kont ≠ [] ∨ targetsOf sys s.kont ≠ [] := by
    unfold stacksEmpty at hne
    rw [h.sources, h.targets] at hne
    rcases Bool.and_eq_false_iff.1 hne with hne | hne
    · exact .inl fun heq => by rw [heq] at hne; cases hne
    · exact .inr fun heq => by rw [heq] at hne; cases hne
  refine ⟨?_, ?_, ?_, saved_leaveKeys _ _ _ h.saved, h.nodup, h.set, h.others,
    fun hidle => absurd hidle hc⟩
  · show s.frame.maybeKeys = keysOf (leaveKeys ((key, rests) :: left) s.kont)
    rw [keysOf_leaveKeys sys _ _ hcall]
    exact h.keys
  · exact h.sources.trans (sourcesOf_leaveKeys sys _ _).symm
  · exact h.targets.trans (targetsOf_leaveKeys sys _ _).symm

theorem stacked_leaveCall {s : State κ τ} (h : Stacked sys s) (result : Ternary κ) {key : κ}
    {start : Nat} {previous : Sides} {saved : UInt32} {recursion : Recursion}
    {left : List (κ × List κ)} {kont : List (Kont κ)}
    (hk : s.kont = .call key start previous saved recursion left :: kont) :
    Stacked sys (leaveCall { s with kont := kont } key start previous saved recursion left result) := by
  obtain ⟨hpop, hstart⟩ := popped_popPair sys h hk
  unfold leaveCall
  cases result with
  | false =>
    exact stacked_resetMaybe sys (popped_recordFailure sys hpop key s.reliability) start hstart false
      s.reliability (.ret .false) nofun
  | true => exact stacked_resetMaybe sys hpop start hstart true s.reliability (.ret .true) nofun
  | maybe rests =>
    dsimp only
    split
    next => exact stacked_resetMaybe sys hpop start hstart true s.reliability (.ret (.maybe [])) nofun
    next hne =>
      exact stacked_leaveKeys sys rests hpop (Bool.eq_false_iff.2 hne) (.ret (.maybe [key])) nofun

/-- the continuations inside a formula hold no keys -/
def Kont.plain : Kont κ → Bool
  | .andRight _ | .andJoin _ | .orRight _ => true
  | .call _ _ _ _ _ _ | .query _ => false

theorem stacked_push {s : State κ τ} (h : Stacked sys s) (k : Kont κ) (hplain : k.plain = true)
    (control : Control κ) (hc : control ≠ .idle) :
    Stacked sys { s with kont := k :: s.kont, control := control } := by
  cases k with
  | call _ _ _ _ _ _ => cases hplain
  | query _ => cases hplain
  | _ =>
    exact ⟨h.keys, h.sources, h.targets, h.saved, h.nodup, h.set, h.others,
      fun hidle => absurd hidle hc⟩

theorem stacked_pop {s : State κ τ} (h : Stacked sys s) (k : Kont κ) (kont : List (Kont κ))
    (hk : s.kont = k :: kont) (hplain : k.plain = true) (control : Control κ) (hc : control ≠ .idle) :
    Stacked sys { s with kont := kont, control := control } := by
  obtain ⟨hkeys, hsources, htargets, hsaved, hnodup, hset, hothers, -⟩ := h
  rw [hk] at hkeys hsources htargets hsaved
  cases k with
  | call _ _ _ _ _ _ => cases hplain
  | query _ => cases hplain
  | _ =>
    exact ⟨hkeys, hsources, htargets, hsaved, hnodup, hset, hothers, fun hidle => absurd hidle hc⟩

theorem stacked_endQuery {s : State κ τ} (h : Stacked sys s) (key : Option κ) (kont : List (Kont κ))
    (hk : s.kont = .query key :: kont) (cache : AList fun _ : κ => Entry) :
    Stacked sys { s with cache := cache, kont := kont, control := .idle } := by
  obtain ⟨hkeys, hsources, htargets, hsaved, hnodup, hset, hothers, -⟩ := h
  rw [hk] at hkeys hsources htargets hsaved
  obtain ⟨rfl, hexpanding⟩ := hsaved
  exact ⟨hkeys, hsources, htargets, hexpanding, hnodup, hset, hothers, fun _ => rfl⟩

theorem endQuery_frame (s : State κ τ) (key : Option κ) :
    ∃ cache, endQuery s key = { s with cache := cache, control := .idle } := by
  unfold endQuery
  split
  next =>
    split
    next => exact ⟨_, rfl⟩
    next => exact ⟨s.cache, rfl⟩
  next => exact ⟨s.cache, rfl⟩

theorem stacked_step (a : Action κ) (s s' : State κ τ) (h : Stacked sys s)
    (hstep : step sys a s = some s') : Stacked sys s' := by
  cases step_moves sys a s s' hstep with
  | query formula key frame s1 hc h1 =>
    obtain ⟨hf, ho⟩ := useFrame_clean (h.clean sys (h.idle hc)) h.others frame h1
    exact stacked_of_clean sys key formula hf ho
  | value related marks hc =>
    exact ⟨h.keys, h.sources, h.targets, h.saved, h.nodup, h.set, h.others, nofun⟩
  | answered key recursion report nested s' ha hc hans =>
    obtain ⟨reliability, overflow, result, rfl⟩ := answer_frame sys s s' key report hans
    exact ⟨h.keys, h.sources, h.targets, h.saved, h.nodup, h.set, h.others, nofun⟩
  | compared key recursion report nested ha hc hans =>
    refine stacked_pushPair sys h key recursion (not_mem_of_answer_none sys h hans) _ _ ?_
    split
    next => exact nofun
    next => exact nofun
  | evalAnd a b hc => exact stacked_push sys h (.andRight b) rfl (.eval a) nofun
  | evalOr a b hc => exact stacked_push sys h (.orRight b) rfl (.eval a) nofun
  | andStop right kont hc hk =>
    exact stacked_pop sys h _ kont hk rfl s.control (by rw [hc]; exact nofun)
  | andNext result right kont hc hne hk =>
    exact stacked_push sys (stacked_pop sys h _ kont hk rfl s.control (by rw [hc]; exact nofun))
      (.andJoin result) rfl (.eval right) nofun
  | andJoin result left kont hc hk =>
    exact stacked_pop sys h _ kont hk rfl (.ret (left.and result)) nofun
  | orNext right kont hc hk => exact stacked_pop sys h _ kont hk rfl (.eval right) nofun
  | orStop result right kont hc hne hk =>
    exact stacked_pop sys h _ kont hk rfl s.control (by rw [hc]; exact nofun)
  | left result key start previous saved recursion keys kont nested ha hc hk =>
    exact stacked_leaveCall sys h result hk
  | ended result key kont hc hk =>
    obtain ⟨cache, heq⟩ := endQuery_frame { s with kont := kont } key
    rw [heq]
    exact stacked_endQuery sys h key kont hk cache
  | failed formula hc =>
    exact ⟨h.keys, h.sources, h.targets, h.saved, h.nodup, h.set, h.others, nofun⟩
  | failedInside key recursion report hc hans =>
    exact stacked_pushPair sys h key recursion (not_mem_of_answer_none sys h hans) s.frame.expanding
      .raise nofun
  | raisedCall key start previous saved recursion keys kont hc hk =>
    obtain ⟨hpop, hstart⟩ := popped_popPair sys h hk
    exact stacked_resetMaybe sys hpop start hstart false s.reliability .raise nofun
  | raisedQuery key kont hc hk => exact stacked_endQuery sys h key kont hk s.cache
  | raisedAnd right kont hc hk =>
    exact stacked_pop sys h _ kont hk rfl s.control (by rw [hc]; exact nofun)
  | raisedJoin left kont hc hk =>
    exact stacked_pop sys h _ kont hk rfl s.control (by rw [hc]; exact nofun)
  | raisedOr right kont hc hk =>
    exact stacked_pop sys h _ kont hk rfl s.control (by rw [hc]; exact nofun)

theorem stacked_init : Stacked sys (State.init κ τ) :=
  ⟨rfl, rfl, rfl, rfl, List.nodup_nil, rfl, fun _ h => absurd h List.not_mem_nil, fun _ => rfl⟩

theorem stacked_run (as : List (Action κ)) (s : State κ τ)
    (h : exec (step sys) as (State.init κ τ) = some s) : Stacked sys s :=
  exec_invariant (step sys) (Stacked sys) (stacked_step sys) as _ s (stacked_init sys) h

end

end Tsr.Checker
