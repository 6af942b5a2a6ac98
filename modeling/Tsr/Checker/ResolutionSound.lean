import Tsr.Checker.Resolution

/-!
# What pushes and pops of resolutions return

* `Cycle`             what a push has to find for its `false`;
* `push_law`          it returns `false` for a cycle only, and then marks it from its start to the top;
* `Marked`            some push of a run has marked the place;
* `entry_of_place`    where the entry at a place comes from, and what its result says;
* `resolution_runs`   the law of pushes and pops over whole runs.
-/

namespace Tsr.Checker.Resolution
open Tsr.Lib.Run ResolutionStack

/-! ## the probe -/

/-- the resolution is at `start`, at or above the floor; neither there nor above has the probe met a
property that is there already, nor above the same resolution -/
structure Cycle (s : ResolutionStack) (target : TypeSystemEntity) (propertyName : TypeSystemPropertyName)
    (hasProperty : Probe) (start : Nat) : Prop where
  floor : s.resolutionStart ≤ start
  same : ∃ entry, s.resolutions[start]? = some entry ∧ entry.target = target ∧ entry.propertyName = propertyName
  missing : ∀ i entry, start ≤ i → s.resolutions[i]? = some entry → hasProperty i entry = false
  last : ∀ i entry, start < i → s.resolutions[i]? = some entry →
    ¬ (entry.target = target ∧ entry.propertyName = propertyName)

section
variable {s : ResolutionStack} {target : TypeSystemEntity} {propertyName : TypeSystemPropertyName}
  {hasProperty : Probe}

/-- nothing above `n` ends the probe -/
structure Clear (s : ResolutionStack) (target : TypeSystemEntity) (propertyName : TypeSystemPropertyName)
    (hasProperty : Probe) (n : Nat) : Prop where
  missing : ∀ i entry, n ≤ i → s.resolutions[i]? = some entry → hasProperty i entry = false
  other : ∀ i entry, n ≤ i → s.resolutions[i]? = some entry →
    ¬ (entry.target = target ∧ entry.propertyName = propertyName)

theorem findBelow_spec (n : Nat) (hn : n ≤ s.depth) (hclear : Clear s target propertyName hasProperty n)
    (start : Nat) :
    findBelow s target propertyName hasProperty n = some start ↔ Cycle s target propertyName hasProperty start := by
  induction n with
  | zero =>
    constructor
    · intro h
      cases h
    · intro h
      obtain ⟨entry, hentry, hsame⟩ := h.same
      exact absurd hsame (hclear.other start entry (Nat.zero_le _) hentry)
  | succ index ih =>
    unfold findBelow
    have hlt : index < s.resolutions.length := hn
    have hget : s.resolutions[index]? = some s.resolutions[index] := List.getElem?_eq_getElem hlt
    -- a cycle cannot start above what is clear
    have hbelow : ∀ {start}, Cycle s target propertyName hasProperty start → start ≤ index := by
      intro start h
      obtain ⟨entry, hentry, hsame⟩ := h.same
      by_contra hgt
      exact hclear.other start entry (by omega) hentry hsame
    split
    next hfloor =>
      constructor
      · intro h
        cases h
      · intro h
        have h1 := h.floor
        have h2 := hbelow h
        omega
    next hfloor =>
      rw [hget]
      dsimp only
      split
      next hhas =>
        constructor
        · intro h
          cases h
        · intro h
          rw [h.missing index _ (hbelow h) hget] at hhas
          cases hhas
      next hhas =>
        split
        next hsame =>
          constructor
          · intro h
            obtain rfl := Option.some.inj h
            refine ⟨by omega, ⟨_, hget, hsame⟩, ?_, fun i entry hi => hclear.other i entry hi⟩
            intro i entry hi hentry
            rcases Nat.eq_or_lt_of_le hi with rfl | hi
            · rw [hget] at hentry
              obtain rfl := Option.some.inj hentry
              exact Bool.eq_false_iff.2 hhas
            · exact hclear.missing i entry hi hentry
          · intro h
            rcases Nat.eq_or_lt_of_le (hbelow h) with rfl | hlow
            · rfl
            · exact absurd hsame (h.last index _ hlow hget)
        next hsame =>
          refine ih (by omega) ⟨?_, ?_⟩
          · intro i entry hi hentry
            rcases Nat.eq_or_lt_of_le hi with rfl | hi
            · rw [hget] at hentry
              obtain rfl := Option.some.inj hentry
              exact Bool.eq_false_iff.2 hhas
            · exact hclear.missing i entry hi hentry
          · intro i entry hi hentry
            rcases Nat.eq_or_lt_of_le hi with rfl | hi
            · rw [hget] at hentry
              obtain rfl := Option.some.inj hentry
              exact hsame
            · exact hclear.other i entry hi hentry

theorem find_eq_some (start : Nat) :
    findResolutionCycleStartIndex s target propertyName hasProperty = some start ↔
      Cycle s target propertyName hasProperty start := by
  apply findBelow_spec s.depth (Nat.le_refl _)
  constructor
  · intro i entry hi hentry
    rw [List.getElem?_eq_none hi] at hentry
    cases hentry
  · intro i entry hi hentry
    rw [List.getElem?_eq_none hi] at hentry
    cases hentry

/-- the same resolution is at `i`, at or above the floor, and the probe would meet no property that is
there already from the top down to it -/
def Repeated (s : ResolutionStack) (target : TypeSystemEntity) (propertyName : TypeSystemPropertyName)
    (hasProperty : Probe) (i : Nat) : Prop :=
  s.resolutionStart ≤ i ∧
    (∃ entry, s.resolutions[i]? = some entry ∧ entry.target = target ∧ entry.propertyName = propertyName) ∧
    ∀ j entry, i ≤ j → s.resolutions[j]? = some entry → hasProperty j entry = false

theorem Cycle.repeated {start : Nat} (h : Cycle s target propertyName hasProperty start) :
    Repeated s target propertyName hasProperty start := ⟨h.floor, h.same, h.missing⟩

/-- the last one of several -/
theorem Repeated.cycle {i : Nat} (h : Repeated s target propertyName hasProperty i) :
    ∃ start, Cycle s target propertyName hasProperty start := by
  -- by the number of entries above
  generalize hn : s.depth - i = n
  induction n using Nat.strong_induction_on generalizing i with
  | _ n ih =>
    by_cases hlast : ∀ j entry, i < j → s.resolutions[j]? = some entry →
        ¬ (entry.target = target ∧ entry.propertyName = propertyName)
    · exact ⟨i, h.1, h.2.1, h.2.2, hlast⟩
    · push Not at hlast
      obtain ⟨j, entry, hj, hentry, hsame⟩ := hlast
      have hdepth : j < s.resolutions.length := (List.getElem?_eq_some_iff.1 hentry).1
      have hhigher : s.depth - j < n := by
        show s.resolutions.length - j < n
        have hn : s.resolutions.length - i = n := hn
        omega
      exact ih (s.depth - j) hhigher
        ⟨by have := h.1; omega, ⟨entry, hentry, hsame⟩, fun k entry hk => h.2.2 k entry (by omega)⟩ rfl

/-! ## one push -/

theorem push_of_cycle {start : Nat} (h : Cycle s target propertyName hasProperty start) :
    s.push target propertyName hasProperty =
      (false, { s with resolutions := s.resolutions.take start ++ (s.resolutions.drop start).map failed }) := by
  unfold push
  rw [(find_eq_some start).2 h]
  rfl

theorem push_of_none (h : ∀ start, ¬ Cycle s target propertyName hasProperty start) :
    s.push target propertyName hasProperty =
      (true, { s with resolutions := s.resolutions ++ [⟨target, propertyName, true⟩] }) := by
  have hnone : findResolutionCycleStartIndex s target propertyName hasProperty = none := by
    apply Option.eq_none_iff_forall_not_mem.2
    intro start hstart
    exact h start ((find_eq_some start).1 hstart)
  unfold push
  rw [hnone]
  rfl

theorem getElem?_marked (start i : Nat) :
    (s.resolutions.take start ++ (s.resolutions.drop start).map failed)[i]? =
      if start ≤ i then s.resolutions[i]?.map failed else s.resolutions[i]? := by
  by_cases hstart : start ≤ s.resolutions.length
  · rw [List.getElem?_append, List.length_take, Nat.min_eq_left hstart]
    split
    next hi => rw [if_neg (by omega), List.getElem?_take, if_pos hi]
    next hi => rw [if_pos (by omega), List.getElem?_map, List.getElem?_drop, Nat.add_sub_cancel' (by omega)]
  · rw [List.take_of_length_le (by omega), List.drop_eq_nil_of_le (by omega), List.map_nil, List.append_nil]
    split
    next hi =>
      rw [List.getElem?_eq_none (by omega)]
      rfl
    next => rfl

/-- what a push returns and what it leaves -/
structure PushLaw (s : ResolutionStack) (target : TypeSystemEntity) (propertyName : TypeSystemPropertyName)
    (hasProperty : Probe) : Prop where
  returns : (s.push target propertyName hasProperty).1 = false ↔
    ∃ i, Repeated s target propertyName hasProperty i
  marks : (s.push target propertyName hasProperty).1 = false →
    ∃ start, Cycle s target propertyName hasProperty start ∧
      ∀ i, (s.push target propertyName hasProperty).2.resolutions[i]? =
        if start ≤ i then s.resolutions[i]?.map failed else s.resolutions[i]?
  pushes : (s.push target propertyName hasProperty).1 = true →
    (s.push target propertyName hasProperty).2.resolutions = s.resolutions ++ [⟨target, propertyName, true⟩]
  floor : (s.push target propertyName hasProperty).2.resolutionStart = s.resolutionStart

theorem push_law (s : ResolutionStack) (target : TypeSystemEntity) (propertyName : TypeSystemPropertyName)
    (hasProperty : Probe) : PushLaw s target propertyName hasProperty := by
  by_cases hcycle : ∃ start, Cycle s target propertyName hasProperty start
  · obtain ⟨start, hstart⟩ := hcycle
    have e := push_of_cycle hstart
    refine ⟨?_, ?_, ?_, ?_⟩
    · rw [e]
      exact ⟨fun _ => ⟨start, hstart.repeated⟩, fun _ => rfl⟩
    · intro _
      refine ⟨start, hstart, fun i => ?_⟩
      rw [e]
      exact getElem?_marked start i
    · intro h
      rw [e] at h
      cases h
    · rw [e]
  · have e := push_of_none fun start hstart => hcycle ⟨start, hstart⟩
    refine ⟨?_, ?_, ?_, ?_⟩
    · rw [e]
      constructor
      · intro h
        cases h
      · intro h
        obtain ⟨i, hi⟩ := h
        exact absurd hi.cycle hcycle
    · intro h
      rw [e] at h
      cases h
    · intro _
      rw [e]
    · rw [e]

end

/-! ## an entry while it is on the stack -/

/-- this call marks the place `i` -/
def Call.Marks (s : ResolutionStack) (i : Nat) : Call → Prop
  | .push target propertyName hasProperty =>
    ∃ start, Cycle s target propertyName hasProperty start ∧ start ≤ i
  | _ => False

/-- one of the calls marks the place `i` -/
def Marked (s : ResolutionStack) (calls : List Call) (i : Nat) : Prop :=
  ∃ before call after s', calls = before ++ call :: after ∧ exec step before s = some s' ∧ call.Marks s' i

/-- the entry at `i` has been `first` at the start and is `entry` after the calls, and none of them has
taken it from the stack -/
structure Holds (s : ResolutionStack) (calls : List Call) (i : Nat) (first entry : TypeResolution) : Prop where
  begins : s.resolutions[i]? = some first
  stays : ∀ before after s', calls = before ++ after → exec step before s = some s' → i < s'.depth
  target : entry.target = first.target
  propertyName : entry.propertyName = first.propertyName
  result : entry.result = false ↔ first.result = false ∨ Marked s calls i

theorem marked_append {s s' : ResolutionStack} {calls : List Call} (h : exec step calls s = some s') (call : Call)
    (i : Nat) : Marked s (calls ++ [call]) i ↔ Marked s calls i ∨ call.Marks s' i := by
  constructor
  · intro hmarked
    obtain ⟨before, c, after, s1, e, hbefore, hmarks⟩ := hmarked
    rcases List.eq_nil_or_concat after with rfl | ⟨after, last, rfl⟩
    · obtain ⟨rfl, hlast⟩ := List.append_inj' e rfl
      obtain rfl := List.singleton_inj.1 hlast
      rw [h] at hbefore
      obtain rfl := Option.some.inj hbefore
      exact Or.inr hmarks
    · rw [List.concat_eq_append, ← List.cons_append, ← List.append_assoc] at e
      obtain ⟨rfl, _⟩ := List.append_inj' e rfl
      exact Or.inl ⟨before, c, after, s1, rfl, hbefore, hmarks⟩
  · intro hmarked
    rcases hmarked with ⟨before, c, after, s1, rfl, hbefore, hmarks⟩ | hmarks
    · exact ⟨before, c, after ++ [call], s1, by rw [List.append_assoc, List.cons_append], hbefore, hmarks⟩
    · exact ⟨calls, call, [], s', rfl, h, hmarks⟩

theorem Holds.start {s : ResolutionStack} {i : Nat} {first : TypeResolution} (h : s.resolutions[i]? = some first) :
    Holds s [] i first first where
  begins := h
  stays := by
    intro before after s' e hbefore
    obtain ⟨rfl, rfl⟩ := List.append_eq_nil_iff.1 e.symm
    obtain rfl := Option.some.inj hbefore
    exact (List.getElem?_eq_some_iff.1 h).1
  target := rfl
  propertyName := rfl
  result := by
    constructor
    · exact Or.inl
    · intro h
      rcases h with h | ⟨before, call, after, s', e, _, _⟩
      · exact h
      · cases before <;> cases e

/-- what one call does to an entry that it leaves on the stack -/
theorem step_entry {s s' : ResolutionStack} {call : Call} (hstep : step call s = some s') {i : Nat}
    {entry entry' : TypeResolution} (hi : s.resolutions[i]? = some entry) (hi' : s'.resolutions[i]? = some entry') :
    entry'.target = entry.target ∧ entry'.propertyName = entry.propertyName ∧
      (entry'.result = false ↔ entry.result = false ∨ call.Marks s i) := by
  cases call with
  | push target propertyName hasProperty =>
    obtain rfl := Option.some.inj hstep
    by_cases hcycle : ∃ start, Cycle s target propertyName hasProperty start
    · obtain ⟨start, hstart⟩ := hcycle
      have hmarks : Call.Marks s i (.push target propertyName hasProperty) ↔ start ≤ i := by
        constructor
        · intro h
          obtain ⟨start', hstart', hle⟩ := h
          have e := ((find_eq_some start).2 hstart).symm.trans ((find_eq_some start').2 hstart')
          rw [Option.some.inj e]
          exact hle
        · exact fun hle => ⟨start, hstart, hle⟩
      rw [push_of_cycle hstart, getElem?_marked, hi] at hi'
      rw [hmarks]
      split at hi'
      next hle =>
        obtain rfl := Option.some.inj hi'
        exact ⟨rfl, rfl, fun _ => Or.inr hle, fun _ => rfl⟩
      next hle =>
        obtain rfl := Option.some.inj hi'
        exact ⟨rfl, rfl, Or.inl, fun h => h.resolve_right hle⟩
    · have hlength : i < s.resolutions.length := (List.getElem?_eq_some_iff.1 hi).1
      rw [push_of_none fun start hstart => hcycle ⟨start, hstart⟩, List.getElem?_append_left hlength, hi] at hi'
      obtain rfl := Option.some.inj hi'
      exact ⟨rfl, rfl, Or.inl, fun h => h.resolve_right fun ⟨start, hstart, _⟩ => hcycle ⟨start, hstart⟩⟩
  | pop =>
    obtain ⟨⟨result, s1⟩, hpop, rfl⟩ := Option.map_eq_some_iff.1 hstep
    obtain ⟨top, htop, e⟩ := Option.map_eq_some_iff.1 hpop
    obtain ⟨rfl, rfl⟩ := Prod.mk.inj e
    have hsame : s.resolutions.dropLast[i]? = some entry' := hi'
    rw [List.getElem?_dropLast] at hsame
    split at hsame
    next =>
      rw [hi] at hsame
      obtain rfl := Option.some.inj hsame
      exact ⟨rfl, rfl, Or.inl, fun h => h.resolve_right id⟩
    next => cases hsame
  | setResolutionStart start =>
    obtain rfl := Option.some.inj hstep
    have hsame : s.resolutions[i]? = some entry' := hi'
    rw [hi] at hsame
    obtain rfl := Option.some.inj hsame
    exact ⟨rfl, rfl, Or.inl, fun h => h.resolve_right id⟩

theorem Holds.step {s s₁ s₂ : ResolutionStack} {calls : List Call} {call : Call} {i : Nat}
    {first entry entry' : TypeResolution} (h : Holds s calls i first entry) (hrun : exec step calls s = some s₁)
    (hstep : Resolution.step call s₁ = some s₂) (hi : s₁.resolutions[i]? = some entry)
    (hi' : s₂.resolutions[i]? = some entry') : Holds s (calls ++ [call]) i first entry' := by
  obtain ⟨htarget, hproperty, hresult⟩ := step_entry hstep hi hi'
  refine ⟨h.begins, ?_, htarget.trans h.target, hproperty.trans h.propertyName, ?_⟩
  · intro before after s' e hbefore
    rcases List.eq_nil_or_concat after with rfl | ⟨after, last, rfl⟩
    · rw [List.append_nil] at e
      rw [← e, exec_append, hrun, Option.bind_some, exec, hstep, Option.bind_some, exec] at hbefore
      obtain rfl := Option.some.inj hbefore
      exact (List.getElem?_eq_some_iff.1 hi').1
    · rw [List.concat_eq_append, ← List.append_assoc] at e
      obtain ⟨rfl, _⟩ := List.append_inj' e rfl
      exact h.stays before after s' rfl hbefore
  · rw [hresult, h.result, marked_append hrun, or_assoc]

/-! ## runs -/

/-- the entry at `i` after the calls was pushed by one of them, or has been there from the start -/
inductive Origin (s : ResolutionStack) (calls : List Call) (i : Nat) (entry : TypeResolution) : Prop
  | pushed (before : List Call) (target : TypeSystemEntity) (propertyName : TypeSystemPropertyName)
      (hasProperty : Probe) (since : List Call) (s' s'' : ResolutionStack)
      (split : calls = before ++ .push target propertyName hasProperty :: since)
      (run : exec step before s = some s') (place : s'.depth = i)
      (push : s'.push target propertyName hasProperty = (true, s''))
      (holds : Holds s'' since i ⟨target, propertyName, true⟩ entry)
  | initial (first : TypeResolution) (holds : Holds s calls i first entry)

theorem entry_of_place (s s' : ResolutionStack) (calls : List Call) (hrun : exec step calls s = some s') (i : Nat)
    (entry : TypeResolution) (hi : s'.resolutions[i]? = some entry) : Origin s calls i entry := by
  induction calls using List.reverseRecOn generalizing s' i entry with
  | nil =>
    obtain rfl := Option.some.inj hrun
    exact .initial entry (Holds.start hi)
  | append_singleton calls call ih =>
    rw [exec_append] at hrun
    obtain ⟨s₁, hcalls, hlast⟩ := Option.bind_eq_some_iff.1 hrun
    obtain ⟨s₂, hstep, hs₂⟩ := (exec_cons step call [] s₁ s').1 hlast
    obtain rfl := Option.some.inj hs₂
    cases hi₁ : s₁.resolutions[i]? with
    | some entry₁ =>
      -- it was there before the last call
      cases ih s₁ hcalls i entry₁ hi₁ with
      | pushed before target propertyName hasProperty since t t' e hbefore hplace hpush hholds =>
        subst e
        have hsince : exec step since t' = some s₁ := by
          rw [exec_append, hbefore, Option.bind_some, exec] at hcalls
          have hone : step (.push target propertyName hasProperty) t = some t' := by
            show some (t.push target propertyName hasProperty).2 = some t'
            rw [hpush]
          rw [hone, Option.bind_some] at hcalls
          exact hcalls
        exact .pushed before target propertyName hasProperty (since ++ [call]) t t'
          (by rw [List.append_assoc, List.cons_append]) hbefore hplace hpush (hholds.step hsince hstep hi₁ hi)
      | initial first hholds => exact .initial first (hholds.step hcalls hstep hi₁ hi)
    | none =>
      -- so the last call has pushed it
      have hdepth : s₁.resolutions.length ≤ i := List.getElem?_eq_none_iff.1 hi₁
      cases call with
      | push target propertyName hasProperty =>
        obtain rfl := Option.some.inj hstep
        have hlaw := push_law s₁ target propertyName hasProperty
        cases hresult : (s₁.push target propertyName hasProperty).1 with
        | false =>
          obtain ⟨start, _, hmarks⟩ := hlaw.marks hresult
          rw [hmarks i, hi₁] at hi
          split at hi <;> cases hi
        | true =>
          have hpushed := hi
          rw [hlaw.pushes hresult, List.getElem?_append_right hdepth] at hpushed
          obtain ⟨hlength, hentry⟩ := List.getElem?_eq_some_iff.1 hpushed
          have hplace : i = s₁.resolutions.length := by
            have : i - s₁.resolutions.length < 1 := hlength
            omega
          subst hplace
          simp only [Nat.sub_self, List.getElem_cons_zero] at hentry
          subst hentry
          exact .pushed calls target propertyName hasProperty [] s₁ _ rfl hcalls rfl (Prod.ext hresult rfl) (Holds.start hi)
      | pop =>
        obtain ⟨⟨result, t⟩, hpop, rfl⟩ := Option.map_eq_some_iff.1 hstep
        obtain ⟨top, htop, e⟩ := Option.map_eq_some_iff.1 hpop
        obtain ⟨rfl, rfl⟩ := Prod.mk.inj e
        have hsame : s₁.resolutions.dropLast[i]? = some entry := hi
        rw [List.getElem?_dropLast, hi₁] at hsame
        split at hsame <;> cases hsame
      | setResolutionStart start =>
        obtain rfl := Option.some.inj hstep
        have hsame : s₁.resolutions[i]? = some entry := hi
        rw [hi₁] at hsame
        cases hsame

/-- no call takes the entry at `i` from the stack -/
def Stays (s : ResolutionStack) (calls : List Call) (i : Nat) : Prop :=
  ∀ before after s', calls = before ++ after → exec step before s = some s' → i < s'.depth

/-- what the pop of the entry at `i` returns after a run -/
inductive PopLaw (s : ResolutionStack) (calls : List Call) (i : Nat) (completed : Bool) : Prop
  | pushed (before : List Call) (target : TypeSystemEntity) (propertyName : TypeSystemPropertyName)
      (hasProperty : Probe) (since : List Call) (s' s'' : ResolutionStack)
      (split : calls = before ++ .push target propertyName hasProperty :: since)
      (run : exec step before s = some s') (place : s'.depth = i)
      (push : s'.push target propertyName hasProperty = (true, s''))
      (stays : Stays s'' since i) (result : completed = false ↔ Marked s'' since i)
  | initial (first : TypeResolution) (begins : s.resolutions[i]? = some first) (stays : Stays s calls i)
      (result : completed = false ↔ first.result = false ∨ Marked s calls i)

theorem Origin.popLaw {s : ResolutionStack} {calls : List Call} {i : Nat} {entry : TypeResolution}
    (h : Origin s calls i entry) : PopLaw s calls i entry.result := by
  cases h with
  | pushed before target propertyName hasProperty since s' s'' e hrun hplace hpush hholds =>
    refine .pushed before target propertyName hasProperty since s' s'' e hrun hplace hpush hholds.stays ?_
    rw [hholds.result]
    constructor
    · intro h
      exact h.resolve_left Bool.noConfusion
    · exact Or.inr
  | initial first hholds => exact .initial first hholds.begins hholds.stays hholds.result

/-- **A push finds what is being resolved, and a pop tells whether a push has found it.** -/
theorem resolution_runs (s s' : ResolutionStack) (calls : List Call) (hrun : exec step calls s = some s') :
    (∀ target propertyName hasProperty, PushLaw s' target propertyName hasProperty) ∧
    (∀ completed s'', s'.pop = some (completed, s'') → PopLaw s calls s''.depth completed) ∧
    (s'.pop = none → s'.depth = 0) := by
  refine ⟨push_law s', ?_, ?_⟩
  · intro completed s'' hpop
    obtain ⟨top, htop, e⟩ := Option.map_eq_some_iff.1 hpop
    obtain ⟨rfl, rfl⟩ := Prod.mk.inj e
    have hplace : s'.resolutions[s'.resolutions.dropLast.length]? = some top := by
      rw [List.length_dropLast, ← List.getLast?_eq_getElem?]
      exact htop
    exact (entry_of_place s s' calls hrun _ top hplace).popLaw
  · intro hpop
    have hnone := Option.map_eq_none_iff.1 hpop
    exact List.length_eq_zero_iff.2 (List.getLast?_eq_none_iff.1 hnone)

/-- a symbol is asked for again while its type is being resolved -/
def circle : List Call :=
  [.push (.symbol 1) .type fun _ _ => false, .push (.symbol 2) .type fun _ _ => false,
    .push (.symbol 1) .type fun _ _ => false]

theorem resolution_runs_circle :
    exec step circle new = some ⟨[⟨.symbol 1, .type, false⟩, ⟨.symbol 2, .type, false⟩], 0⟩ ∧
    PopLaw new circle 1 false :=
  ⟨rfl, (resolution_runs new ⟨[⟨.symbol 1, .type, false⟩, ⟨.symbol 2, .type, false⟩], 0⟩ circle rfl).2.1 false
    ⟨[⟨.symbol 1, .type, false⟩], 0⟩ rfl⟩

end Tsr.Checker.Resolution
