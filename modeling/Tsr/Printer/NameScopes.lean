import Tsr.Printer.NameTexts

/-!
# What the scopes of a name generator know

* `perform_orDefault`    a first scope changes nothing;
* `ScopeInv`, `Inv`      what the scopes know of the names that were returned;
* `Apart`                names that have to differ;
* `ScopeInv.grow`, `ScopeInv.count`   the scope of a new name.
-/

namespace Tsr.Printer

open Tsr.Lib.Decimal Tsr.Lib.Seek NameGenerator

/-! ## stacks of scopes -/

section
variable {g g' : NameGenerator} {privateName : Bool} {top : NameGenerationScope} {rest : List NameGenerationScope}

theorem getScope_setScope (g : NameGenerator) (privateName : Bool) (scopes : List NameGenerationScope) :
    (g.setScope privateName scopes).getScope privateName = scopes := by
  cases privateName <;> rfl

theorem getScope_setScope_other (g : NameGenerator) (privateName : Bool) (scopes : List NameGenerationScope) :
    (g.setScope privateName scopes).getScope (!privateName) = g.getScope (!privateName) := by
  cases privateName <;> rfl

theorem setScope_rest (g : NameGenerator) (privateName : Bool) (scopes : List NameGenerationScope) :
    (g.setScope privateName scopes).generatedNames = g.generatedNames ∧
      (g.setScope privateName scopes).nextId = g.nextId := by
  cases privateName <;> exact ⟨rfl, rfl⟩

theorem getScope_pushOne (g : NameGenerator) (privateName : Bool) :
    (g.pushOne privateName).getScope privateName = .new g.nextId :: g.getScope privateName := by
  cases privateName <;> rfl

theorem getScope_pushOne_other (g : NameGenerator) (privateName : Bool) :
    (g.pushOne privateName).getScope (!privateName) = g.getScope (!privateName) := by
  cases privateName <;> rfl

theorem pushOne_rest (g : NameGenerator) (privateName : Bool) :
    (g.pushOne privateName).generatedNames = g.generatedNames ∧ (g.pushOne privateName).nextId = g.nextId + 1 := by
  cases privateName <;> exact ⟨rfl, rfl⟩

theorem orDefault_of_cons (h : g.getScope privateName = top :: rest) : g.orDefault privateName = g := by
  rw [orDefault, h]
  rfl

theorem orDefault_of_nil (h : g.getScope privateName = []) : g.orDefault privateName = g.pushOne privateName := by
  rw [orDefault, h]
  rfl

/-- there is a scope -/
theorem orDefault_cons (g : NameGenerator) (privateName : Bool) :
    ∃ top rest, (g.orDefault privateName).getScope privateName = top :: rest := by
  cases h : g.getScope privateName with
  | nil =>
    rw [orDefault_of_nil h, getScope_pushOne]
    exact ⟨_, _, rfl⟩
  | cons top rest =>
    rw [orDefault_of_cons h]
    exact ⟨top, rest, h⟩

theorem orDefault_idem (g : NameGenerator) (privateName : Bool) :
    (g.orDefault privateName).orDefault privateName = g.orDefault privateName := by
  obtain ⟨top, rest, h⟩ := orDefault_cons g privateName
  exact orDefault_of_cons h

theorem changeTop_of_cons (h : g.getScope privateName = top :: rest)
    (f : NameGenerationScope → NameGenerationScope) :
    g.changeTop privateName f = g.setScope privateName (f top :: rest) := by
  rw [changeTop, orDefault_of_cons h, h]
  rfl

/-! ## a first scope changes nothing -/

theorem isReservedName_orDefault (g : NameGenerator) (privateName : Bool) (name : Name) :
    (g.orDefault privateName).isReservedName name privateName = g.isReservedName name privateName := by
  cases h : g.getScope privateName with
  | nil =>
    rw [orDefault_of_nil h, isReservedName, isReservedName, getScope_pushOne, (pushOne_rest _ _).1, h]
    rfl
  | cons top rest => rw [orDefault_of_cons h]

theorem getTempFlags_orDefault (g : NameGenerator) (privateName : Bool) (counter : Counter) :
    (g.orDefault privateName).getTempFlags privateName counter = g.getTempFlags privateName counter := by
  cases h : g.getScope privateName with
  | nil =>
    rw [orDefault_of_nil h, getTempFlags, getTempFlags, getScope_pushOne, h]
    cases counter <;> rfl
  | cons top rest => rw [orDefault_of_cons h]

theorem reserveName_orDefault (g : NameGenerator) (privateName isScoped temp : Bool) (name : Name) :
    (g.orDefault privateName).reserveName name privateName isScoped temp
      = g.reserveName name privateName isScoped temp := by
  rw [reserveName, reserveName, orDefault_idem]

variable (isFileLevelUniqueName : Name → Bool → Bool)

theorem isUniqueName_orDefault (g : NameGenerator) (privateName : Bool) (name : Name) :
    (g.orDefault privateName).isUniqueName isFileLevelUniqueName name privateName
      = g.isUniqueName isFileLevelUniqueName name privateName := by
  rw [isUniqueName, isUniqueName, isReservedName_orDefault]

theorem checkUniqueName_orDefault (g : NameGenerator) (privateName checkFn : Bool) (name : Name) :
    (g.orDefault privateName).checkUniqueName isFileLevelUniqueName name privateName checkFn
      = g.checkUniqueName isFileLevelUniqueName name privateName checkFn := by
  rw [checkUniqueName, checkUniqueName, isUniqueName_orDefault]

/-- a call makes the first scope, if there is none, before anything else -/
theorem perform_orDefault (fuel : Nat) (g : NameGenerator) (m : Make) :
    m.perform isFileLevelUniqueName fuel (g.orDefault m.privateName) = m.perform isFileLevelUniqueName fuel g := by
  cases m with
  | temp loop reserved privateName pre suffix =>
    show makeTempVariableName _ fuel (g.orDefault privateName) _ _ _ _ _ = makeTempVariableName _ fuel g _ _ _ _ _
    have haccepts : (g.orDefault privateName).acceptsCount isFileLevelUniqueName privateName pre suffix
        = g.acceptsCount isFileLevelUniqueName privateName pre suffix := by
      funext tempFlags
      rw [acceptsCount, acceptsCount, isUniqueName_orDefault]
    have htake : (g.orDefault privateName).takeTempName (if loop then tempFlagsI else 0) reserved privateName pre suffix
        = g.takeTempName (if loop then tempFlagsI else 0) reserved privateName pre suffix := by
      funext found
      cases found with
      | preferred => rw [takeTempName, takeTempName, reserveName_orDefault, getTempFlags_orDefault]
      | counted tempFlags => rw [takeTempName, takeTempName, reserveName_orDefault, getTempFlags_orDefault]
    rw [makeTempVariableName, makeTempVariableName, findTempName, findTempName, getTempFlags_orDefault,
      isUniqueName_orDefault, haccepts, htake]
  | unique baseName checkFn optimistic isScoped privateName pre suffix =>
    show makeUniqueName _ fuel (g.orDefault privateName) _ _ _ _ _ _ _ = makeUniqueName _ fuel g _ _ _ _ _ _ _
    rw [makeUniqueName, makeUniqueName, findUniqueName, findUniqueName]
    simp only [checkUniqueName_orDefault, reserveName_orDefault]

end

/-! ## what the scopes know -/

/-- what an open scope knows of the names that were returned -/
structure ScopeInv (issued : List Issued) (privateName : Bool) (scope : NameGenerationScope) : Prop where
  held : ∀ e ∈ issued, e.make.held = true → e.make.privateName = privateName → e.scope = scope.id →
    e.name ∈ scope.reservedNames
  flags : ∀ counter, scope.tried counter < 2 ^ 28 →
    scope.flags counter = scope.tried counter ∨ scope.flags counter = scope.tried counter + 2 ^ 28
  counted : privateName = false → ∀ e ∈ issued, e.make.privateName = false → ∀ counter,
    e.make.counter = some counter → e.scope = scope.id → scope.tried counter < 2 ^ 28 →
    ∃ pre suffix count, counterOf false pre suffix = counter ∧
      e.name = formatGeneratedName false pre (tempName count) suffix ∧
      (count ≠ 8 ∧ count < scope.tried counter ∨
        count = 8 ∧ scope.flags counter = scope.tried counter + 2 ^ 28)

structure Inv (issued : List Issued) (g : NameGenerator) : Prop where
  scopes : ∀ privateName, ∀ scope ∈ g.getScope privateName, ScopeInv issued privateName scope
  ids : ∀ privateName, ∀ scope ∈ g.getScope privateName, scope.id < g.nextId
  distinct : ∀ privateName, ((g.getScope privateName).map (·.id)).Nodup
  kept : ∀ e ∈ issued, e.make.kept = true → e.name ∈ g.generatedNames
  old : ∀ e ∈ issued, e.scope < g.nextId

theorem inv_new : Inv [] NameGenerator.new := by
  have hnone : ∀ privateName, NameGenerator.new.getScope privateName = [] := by
    intro privateName
    cases privateName <;> rfl
  refine ⟨?_, ?_, ?_, ?_, ?_⟩
  · intro privateName scope hscope
    rw [hnone] at hscope
    cases hscope
  · intro privateName scope hscope
    rw [hnone] at hscope
    cases hscope
  · intro privateName
    rw [hnone]
    exact List.nodup_nil
  · intro e he
    cases he
  · intro e he
    cases he

section
variable {issued : List Issued} {g : NameGenerator}

/-- a new scope knows of no name -/
theorem scopeInv_new {id : Nat} (hold : ∀ e ∈ issued, e.scope < id) (privateName : Bool) :
    ScopeInv issued privateName (.new id) where
  held := by
    intro e he _ _ hscope
    have hlt : e.scope < id := hold e he
    rw [hscope] at hlt
    exact absurd hlt (Nat.lt_irrefl id)
  flags := by
    intro counter _
    cases counter <;> exact .inl rfl
  counted := by
    intro _ e he _ counter _ hscope
    have hlt : e.scope < id := hold e he
    rw [hscope] at hlt
    exact absurd hlt (Nat.lt_irrefl id)

theorem Inv.pushOne (h : Inv issued g) (privateName : Bool) : Inv issued (g.pushOne privateName) := by
  obtain ⟨hgenerated, hnext⟩ := pushOne_rest g privateName
  have hcases : ∀ p, (g.pushOne privateName).getScope p = g.getScope p ∨
      (g.pushOne privateName).getScope p = .new g.nextId :: g.getScope p := by
    intro p
    by_cases hp : p = privateName
    · rw [hp]
      exact .inr (getScope_pushOne g privateName)
    · rw [Bool.eq_not.2 hp]
      exact .inl (getScope_pushOne_other g privateName)
  refine ⟨?_, ?_, ?_, ?_, ?_⟩
  · intro p scope hscope
    rcases hcases p with hp | hp
    · rw [hp] at hscope
      exact h.scopes p scope hscope
    · rw [hp] at hscope
      rcases List.mem_cons.1 hscope with hnew | hold
      · rw [hnew]
        exact scopeInv_new h.old p
      · exact h.scopes p scope hold
  · intro p scope hscope
    rw [hnext]
    rcases hcases p with hp | hp
    · rw [hp] at hscope
      exact Nat.lt_succ_of_lt (h.ids p scope hscope)
    · rw [hp] at hscope
      rcases List.mem_cons.1 hscope with hnew | hold
      · rw [hnew]
        exact Nat.lt_succ_self _
      · exact Nat.lt_succ_of_lt (h.ids p scope hold)
  · intro p
    rcases hcases p with hp | hp
    · rw [hp]
      exact h.distinct p
    · rw [hp, List.map_cons, List.nodup_cons]
      refine ⟨?_, h.distinct p⟩
      intro hmem
      obtain ⟨scope, hscope, hid⟩ := List.mem_map.1 hmem
      have hlt := h.ids p scope hscope
      rw [hid] at hlt
      exact absurd hlt (Nat.lt_irrefl _)
  · rw [hgenerated]
    exact h.kept
  · intro e he
    rw [hnext]
    exact Nat.lt_succ_of_lt (h.old e he)

theorem Inv.popOne (h : Inv issued g) (privateName : Bool) : Inv issued (g.popOne privateName) := by
  obtain ⟨hgenerated, hnext⟩ := setScope_rest g privateName (g.getScope privateName).tail
  have hsub : ∀ p, List.Sublist ((g.popOne privateName).getScope p) (g.getScope p) := by
    intro p
    by_cases hp : p = privateName
    · rw [hp, NameGenerator.popOne, getScope_setScope]
      exact List.tail_sublist _
    · rw [Bool.eq_not.2 hp, NameGenerator.popOne, getScope_setScope_other]
  refine ⟨?_, ?_, ?_, ?_, ?_⟩
  · intro p scope hscope
    exact h.scopes p scope ((hsub p).subset hscope)
  · intro p scope hscope
    rw [NameGenerator.popOne, hnext]
    exact h.ids p scope ((hsub p).subset hscope)
  · intro p
    exact ((hsub p).map _).nodup (h.distinct p)
  · rw [NameGenerator.popOne, hgenerated]
    exact h.kept
  · rw [NameGenerator.popOne, hnext]
    exact h.old

theorem Inv.orDefault (h : Inv issued g) (privateName : Bool) : Inv issued (g.orDefault privateName) := by
  cases hscope : g.getScope privateName with
  | nil =>
    rw [orDefault_of_nil hscope]
    exact h.pushOne privateName
  | cons top rest =>
    rw [orDefault_of_cons hscope]
    exact h

/-! ## one more name -/

/-- `e` was returned before `e'`, and their names have to differ -/
structure Apart (e e' : Issued) : Prop where
  /-- a name that was checked differs from those that are reserved -/
  reserved : e'.make.checked = true →
    e.make.kept = true ∨
      e.make.held = true ∧ e.make.privateName = e'.make.privateName ∧ e.scope ∈ e'.opened →
    e.name ≠ e'.name
  /-- the public names of one counter differ, until it has run through its values -/
  counted : ∀ counter, e.make.counter = some counter → e'.make.counter = some counter →
    e.make.privateName = false → e'.make.privateName = false → e.scope = e'.scope → e'.tried < 2 ^ 28 →
    e.name ≠ e'.name

/-- a name that no scope and no list has reserved -/
structure Free (g : NameGenerator) (privateName : Bool) (name : Name) : Prop where
  generated : name ∉ g.generatedNames
  scopes : ∀ scope ∈ g.getScope privateName, name ∉ scope.reservedNames

theorem free_of_unique {isFileLevelUniqueName : Name → Bool → Bool} {privateName : Bool} {name : Name}
    (h : g.isUniqueName isFileLevelUniqueName name privateName = true) :
    isFileLevelUniqueName name privateName = true ∧ Free g privateName name := by
  rw [isUniqueName, Bool.and_eq_true, Bool.not_eq_true', isReservedName, Bool.or_eq_false_iff] at h
  refine ⟨h.1, mt List.contains_iff_mem.2 (Bool.eq_false_iff.1 h.2.1), ?_⟩
  intro scope hscope hmem
  have hany := List.any_eq_false.1 h.2.2 scope hscope
  exact hany (List.contains_iff_mem.2 hmem)

/-- a free name differs from those that are reserved -/
theorem Inv.reserved_ne (h : Inv issued g) {privateName : Bool} {name : Name} (hfree : Free g privateName name)
    {e : Issued} (he : e ∈ issued)
    (hreserved : e.make.kept = true ∨
      e.make.held = true ∧ e.make.privateName = privateName ∧ e.scope ∈ g.opened privateName) : e.name ≠ name := by
  intro hname
  rcases hreserved with hkept | ⟨hheld, hkind, hopen⟩
  · apply hfree.generated
    rw [← hname]
    exact h.kept e he hkept
  · obtain ⟨scope, hscope, hid⟩ := List.mem_map.1 hopen
    apply hfree.scopes scope hscope
    rw [← hname]
    exact (h.scopes privateName scope hscope).held e he hheld hkind hid.symm

theorem ScopeInv.cons_other {privateName : Bool} {scope : NameGenerationScope} (h : ScopeInv issued privateName scope)
    {e : Issued} (hother : e.make.privateName ≠ privateName ∨ e.scope ≠ scope.id) :
    ScopeInv (e :: issued) privateName scope where
  held := by
    intro e' he' hheld hkind hscope
    rcases List.mem_cons.1 he' with hnew | hold
    · rw [hnew] at hkind hscope
      rcases hother with h1 | h1
      · exact absurd hkind h1
      · exact absurd hscope h1
    · exact h.held e' hold hheld hkind hscope
  flags := h.flags
  counted := by
    intro hpublic e' he' hkind counter hcounter hscope htried
    rcases List.mem_cons.1 he' with hnew | hold
    · rw [hnew] at hkind hscope
      rcases hother with h1 | h1
      · exact absurd (hkind.trans hpublic.symm) h1
      · exact absurd hscope h1
    · exact h.counted hpublic e' hold hkind counter hcounter hscope htried

/-- a state after a call, with the innermost scope changed -/
structure After (g g' : NameGenerator) (privateName : Bool) (top' : NameGenerationScope)
    (rest : List NameGenerationScope) : Prop where
  scope : g'.getScope privateName = top' :: rest
  other : g'.getScope (!privateName) = g.getScope (!privateName)
  next : g'.nextId = g.nextId

theorem Inv.after (h : Inv issued g) {g' : NameGenerator} {m : Make} {name : Name} {top top' : NameGenerationScope}
    {rest : List NameGenerationScope} (hscope : g.getScope m.privateName = top :: rest)
    (hafter : After g g' m.privateName top' rest) (hid : top'.id = top.id)
    (htop : ScopeInv (g'.issue m name :: issued) m.privateName top')
    (hkept : ∀ e ∈ g'.issue m name :: issued, e.make.kept = true → e.name ∈ g'.generatedNames) :
    Inv (g'.issue m name :: issued) g' := by
  have hplace : (g'.issue m name).scope = top.id := by
    show (g'.opened m.privateName).headD 0 = _
    rw [opened, hafter.scope, ← hid]
    rfl
  have hdistinct := h.distinct m.privateName
  rw [hscope, List.map_cons, List.nodup_cons] at hdistinct
  refine ⟨?_, ?_, ?_, hkept, ?_⟩
  · intro p scope hmem
    by_cases hp : p = m.privateName
    · rw [hp, hafter.scope] at hmem
      rw [hp]
      rcases List.mem_cons.1 hmem with hfirst | hrest
      · rw [hfirst]
        exact htop
      · have hold := h.scopes m.privateName scope (by rw [hscope]; exact List.mem_cons_of_mem _ hrest)
        refine hold.cons_other (.inr ?_)
        rw [hplace]
        intro heq
        exact hdistinct.1 (List.mem_map.2 ⟨scope, hrest, heq.symm⟩)
    · have hother := Bool.eq_not.2 hp
      rw [hother, hafter.other, ← hother] at hmem
      exact (h.scopes p scope hmem).cons_other (.inl (Ne.symm hp))
  · intro p scope hmem
    rw [hafter.next]
    by_cases hp : p = m.privateName
    · rw [hp, hafter.scope] at hmem
      rcases List.mem_cons.1 hmem with hfirst | hrest
      · rw [hfirst, hid]
        exact h.ids m.privateName top (by rw [hscope]; exact List.mem_cons_self)
      · exact h.ids m.privateName scope (by rw [hscope]; exact List.mem_cons_of_mem _ hrest)
    · have hother := Bool.eq_not.2 hp
      rw [hother, hafter.other, ← hother] at hmem
      exact h.ids p scope hmem
  · intro p
    by_cases hp : p = m.privateName
    · rw [hp, hafter.scope, List.map_cons, List.nodup_cons, hid]
      exact hdistinct
    · have hother := Bool.eq_not.2 hp
      rw [hother, hafter.other, ← hother]
      exact h.distinct p
  · intro e he
    rw [hafter.next]
    rcases List.mem_cons.1 he with hnew | hold
    · rw [hnew, hplace]
      exact h.ids m.privateName top (by rw [hscope]; exact List.mem_cons_self)
    · exact h.old e hold

end

/-! ## counters -/

theorem and_mask (tempFlags : Nat) : tempFlags &&& tempFlagsCountMask = tempFlags % 2 ^ 28 :=
  Nat.and_two_pow_sub_one_eq_mod tempFlags 28

/-- the preference is set in a counter that has not run through its values -/
theorem or_flagsI {n : Nat} (h : n < 2 ^ 28) : n ||| tempFlagsI = n + 2 ^ 28 := by
  have hadd := Nat.two_pow_add_eq_or_of_lt h 1
  rw [Nat.mul_one] at hadd
  rw [Nat.or_comm, tempFlagsI, ← hadd, Nat.add_comm]

theorem and_flagsI {n : Nat} (h : n < 2 ^ 28) : (n + 2 ^ 28) &&& tempFlagsI ≠ 0 := by
  rw [tempFlagsI, Nat.and_two_pow, Nat.add_comm, Nat.testBit_two_pow_add_eq, Nat.testBit_lt_two_pow h]
  decide

namespace NameGenerationScope

variable (scope : NameGenerationScope)

theorem flags_setFlags (flags : Nat) (counter : Counter) : (scope.setFlags flags counter).flags counter = flags := by
  cases counter with
  | none => rfl
  | some key =>
    show ((Function.update scope.formattedNameTempFlags key (some flags)) key).getD 0 = flags
    rw [Function.update_self]
    rfl

theorem flags_setFlags_other (flags : Nat) {counter other : Counter} (h : other ≠ counter) :
    (scope.setFlags flags counter).flags other = scope.flags other := by
  cases counter with
  | none =>
    cases other with
    | none => exact absurd rfl h
    | some key => rfl
  | some key =>
    cases other with
    | none => rfl
    | some key' =>
      have hne : key' ≠ key := fun heq => h (congrArg some heq)
      show ((Function.update scope.formattedNameTempFlags key (some flags)) key').getD 0 = _
      rw [Function.update_of_ne hne]
      rfl

theorem flags_advance (counter other : Counter) (n : Nat) : (scope.advance counter n).flags other = scope.flags other := by
  cases other <;> rfl

theorem setFlags_rest (flags : Nat) (counter : Counter) :
    (scope.setFlags flags counter).id = scope.id ∧
      (scope.setFlags flags counter).reservedNames = scope.reservedNames ∧
      (scope.setFlags flags counter).tried = scope.tried := by
  cases counter <;> exact ⟨rfl, rfl, rfl⟩

end NameGenerationScope

/-- the innermost scope after a name was reserved in it, or not -/
def reservedIn (scope : NameGenerationScope) (held : Bool) (name : Name) : NameGenerationScope :=
  if held then scope.reserve name else scope

theorem reservedIn_rest (scope : NameGenerationScope) (held : Bool) (name : Name) :
    (reservedIn scope held name).id = scope.id ∧ (reservedIn scope held name).tried = scope.tried ∧
      (∀ counter, (reservedIn scope held name).flags counter = scope.flags counter) ∧
      (∀ other ∈ scope.reservedNames, other ∈ (reservedIn scope held name).reservedNames) ∧
      (held = true → name ∈ (reservedIn scope held name).reservedNames) := by
  cases held with
  | false => exact ⟨rfl, rfl, fun _ => rfl, fun _ h => h, Bool.noConfusion⟩
  | true =>
    refine ⟨rfl, rfl, ?_, fun _ h => List.mem_cons_of_mem _ h, fun _ => List.mem_cons_self⟩
    intro counter
    cases counter <;> rfl

section
variable {g : NameGenerator} {top : NameGenerationScope} {rest : List NameGenerationScope} {privateName : Bool}

theorem after_same (hscope : g.getScope privateName = top :: rest) : After g g privateName top rest :=
  ⟨hscope, rfl, rfl⟩

/-- another change of the innermost scope -/
theorem After.changeTop {g' : NameGenerator} {top' : NameGenerationScope} (h : After g g' privateName top' rest)
    (f : NameGenerationScope → NameGenerationScope) :
    After g (g'.changeTop privateName f) privateName (f top') rest ∧
      (g'.changeTop privateName f).generatedNames = g'.generatedNames := by
  rw [changeTop_of_cons h.scope]
  obtain ⟨hgenerated, hnext⟩ := setScope_rest g' privateName (f top' :: rest)
  exact ⟨⟨getScope_setScope _ _ _, (getScope_setScope_other _ _ _).trans h.other, hnext.trans h.next⟩, hgenerated⟩

/-- **`reserveName`** -/
theorem after_reserve (hscope : g.getScope privateName = top :: rest) (name : Name) (isScoped temp : Bool) :
    After g (g.reserveName name privateName isScoped temp) privateName
        (reservedIn top (privateName || isScoped) name) rest ∧
      (g.reserveName name privateName isScoped temp).generatedNames
        = if (privateName || isScoped) || temp then g.generatedNames else name :: g.generatedNames := by
  rw [reserveName, orDefault_of_cons hscope]
  cases hheld : privateName || isScoped with
  | true => exact (after_same hscope).changeTop _
  | false =>
    cases temp with
    | true => exact ⟨after_same hscope, rfl⟩
    | false =>
      refine ⟨⟨?_, ?_, rfl⟩, rfl⟩
      · cases privateName <;> exact hscope
      · cases privateName <;> rfl

end

/-! ## the scope of a new name -/

section
variable {issued : List Issued} {scope scope' : NameGenerationScope} {privateName : Bool} {e : Issued}

/-- what a scope has to know of a name that is new, and that no counter of it made -/
theorem ScopeInv.grow (h : ScopeInv issued privateName scope) (hid : scope'.id = scope.id)
    (hreserved : ∀ name ∈ scope.reservedNames, name ∈ scope'.reservedNames)
    (hflags : scope'.flags = scope.flags) (htried : scope'.tried = scope.tried)
    (hheld : e.make.held = true → e.name ∈ scope'.reservedNames) (hunique : e.make.counter = none) :
    ScopeInv (e :: issued) privateName scope' where
  held := by
    intro e' he' hheld' hkind hscope
    rcases List.mem_cons.1 he' with hnew | hold
    · rw [hnew]
      rw [hnew] at hheld'
      exact hheld hheld'
    · rw [hid] at hscope
      exact hreserved _ (h.held e' hold hheld' hkind hscope)
  flags := by
    rw [hflags, htried]
    exact h.flags
  counted := by
    intro hpublic e' he' hkind counter hcounter hscope htried'
    rcases List.mem_cons.1 he' with hnew | hold
    · rw [hnew, hunique] at hcounter
      cases hcounter
    · rw [hid] at hscope
      rw [htried] at htried' ⊢
      rw [hflags]
      exact h.counted hpublic e' hold hkind counter hcounter hscope htried'

/-- a scope with `name` in it, or not, whose counter has tried `n` values more -/
structure Counts (scope scope' : NameGenerationScope) (held : Bool) (name : Name) (counter : Counter) (n : Nat) :
    Prop where
  id : scope'.id = scope.id
  reserved : ∀ other ∈ scope.reservedNames, other ∈ scope'.reservedNames
  holds : held = true → name ∈ scope'.reservedNames
  other : ∀ c, c ≠ counter → scope'.flags c = scope.flags c ∧ scope'.tried c = scope.tried c
  tried : scope'.tried counter = scope.tried counter + n

theorem counts_setFlags (scope : NameGenerationScope) (held : Bool) (name : Name) (flags : Nat) (counter : Counter) :
    Counts scope ((reservedIn scope held name).setFlags flags counter) held name counter 0 := by
  obtain ⟨hid, htried, hflags, hsub, hmem⟩ := reservedIn_rest scope held name
  obtain ⟨hid', hreserved', htried'⟩ := (reservedIn scope held name).setFlags_rest flags counter
  refine ⟨hid'.trans hid, ?_, ?_, ?_, ?_⟩
  · rw [hreserved']
    exact hsub
  · rw [hreserved']
    exact hmem
  · intro c hc
    rw [NameGenerationScope.flags_setFlags_other _ _ hc, htried', htried]
    exact ⟨hflags c, rfl⟩
  · rw [htried', htried, Nat.add_zero]

theorem Counts.advance {held : Bool} {name : Name} {counter : Counter} {n : Nat}
    (h : Counts scope scope' held name counter n) (k : Nat) :
    Counts scope (scope'.advance counter k) held name counter (n + k) := by
  refine ⟨h.id, h.reserved, h.holds, ?_, ?_⟩
  · intro c hc
    rw [NameGenerationScope.flags_advance, ← (h.other c hc).2]
    exact ⟨(h.other c hc).1, Function.update_of_ne hc ..⟩
  · rw [← Nat.add_assoc, ← h.tried]
    exact Function.update_self ..

/-- a name of a counter that has tried `n` values more -/
theorem ScopeInv.count (h : ScopeInv issued privateName scope) {n : Nat} {counter : Counter}
    {pre suffix : Name} {count : Nat} (hcounts : Counts scope scope' e.make.held e.name counter n)
    (hmake : e.make.counter = some counter) (hcounter : counterOf privateName pre suffix = counter)
    (hname : e.name = formatGeneratedName privateName pre (tempName count) suffix)
    (hflags : scope.tried counter + n < 2 ^ 28 →
      (scope'.flags counter = scope.tried counter + n ∨ scope'.flags counter = scope.tried counter + n + 2 ^ 28) ∧
      (scope.flags counter = scope.tried counter + 2 ^ 28 →
        scope'.flags counter = scope.tried counter + n + 2 ^ 28) ∧
      (count ≠ 8 ∧ count < scope.tried counter + n ∨
        count = 8 ∧ scope'.flags counter = scope.tried counter + n + 2 ^ 28)) :
    ScopeInv (e :: issued) privateName scope' where
  held := by
    intro e' he' hheld' hkind hscope
    rcases List.mem_cons.1 he' with hnew | hold
    · rw [hnew]
      rw [hnew] at hheld'
      exact hcounts.holds hheld'
    · rw [hcounts.id] at hscope
      exact hcounts.reserved _ (h.held e' hold hheld' hkind hscope)
  flags := by
    intro c hc
    by_cases hsame : c = counter
    · rw [hsame, hcounts.tried] at hc ⊢
      exact (hflags hc).1
    · obtain ⟨h1, h2⟩ := hcounts.other c hsame
      rw [h2] at hc ⊢
      rw [h1]
      exact h.flags c hc
  counted := by
    intro hpublic e' he' hkind c hc hscope hc'
    rcases List.mem_cons.1 he' with hnew | hold
    · rw [hnew, hmake] at hc
      cases hc
      rw [hcounts.tried] at hc' ⊢
      rw [hpublic] at hcounter hname
      rw [hnew]
      exact ⟨pre, suffix, count, hcounter, hname, (hflags hc').2.2⟩
    · rw [hcounts.id] at hscope
      by_cases hsame : c = counter
      · rw [hsame, hcounts.tried] at hc'
        rw [hsame] at hc ⊢
        obtain ⟨pre', suffix', count', hkey, hname', hcount⟩ :=
          h.counted hpublic e' hold hkind counter hc hscope (by omega)
        refine ⟨pre', suffix', count', hkey, hname', ?_⟩
        rw [hcounts.tried]
        rcases hcount with ⟨hne, hlt⟩ | ⟨heq, hset⟩
        · exact .inl ⟨hne, by omega⟩
        · exact .inr ⟨heq, (hflags hc').2.1 hset⟩
      · obtain ⟨h1, h2⟩ := hcounts.other c hsame
        rw [h2] at hc' ⊢
        rw [h1]
        exact h.counted hpublic e' hold hkind c hc hscope hc'

/-- an earlier public name of the counter has another count -/
theorem ScopeInv.counted_ne (h : ScopeInv issued false scope) (he : e ∈ issued) {counter : Counter}
    {pre suffix : Name} {count : Nat} (hkind : e.make.privateName = false) (hmake : e.make.counter = some counter)
    (hscope : e.scope = scope.id) (htried : scope.tried counter < 2 ^ 28)
    (hcounter : counterOf false pre suffix = counter)
    (hcount : count ≠ 8 ∧ scope.tried counter ≤ count ∨ count = 8 ∧ scope.flags counter = scope.tried counter) :
    e.name ≠ formatGeneratedName false pre (tempName count) suffix := by
  obtain ⟨pre', suffix', count', hkey, hname, hcount'⟩ := h.counted rfl e he hkind counter hmake hscope htried
  rw [hname]
  apply tempName_apart (hkey.trans hcounter.symm)
  rcases hcount with ⟨hne, hle⟩ | ⟨heq, hflags⟩
  · rcases hcount' with ⟨-, hlt⟩ | ⟨heq', -⟩
    · omega
    · omega
  · rcases hcount' with ⟨hne', -⟩ | ⟨-, hset⟩
    · omega
    · omega

end

end Tsr.Printer
