import Tsr.Printer.NameScopes

/-!
# Generated names that differ

* `make_step`        one call;
* `unique_returns`, `temp_returns`   calls that return;
* `names_apart`      runs;
* `names_repeat`     names that come again.
-/

namespace Tsr.Printer

open Tsr.Lib.Decimal Tsr.Lib.Seek NameGenerator

/-! ## one call -/

section
variable {issued : List Issued} {g g' : NameGenerator} {m : Make} {name : Name} {top top' : NameGenerationScope}
  {rest : List NameGenerationScope}

/-- the new name differs where it has to, and the scopes know of it -/
def Adds (issued : List Issued) (m : Make) (name : Name) (g : NameGenerator) : Prop :=
  Inv (g.issue m name :: issued) g ∧ ∀ e ∈ issued, Apart e (g.issue m name)

/-- the names so far and a new one, after a call -/
theorem step_of_after (h : Inv issued g) (hscope : g.getScope m.privateName = top :: rest)
    (hafter : After g g' m.privateName top' rest) (hid : top'.id = top.id)
    (htop : ScopeInv (g'.issue m name :: issued) m.privateName top')
    (hkept : g'.generatedNames = g.generatedNames ∧ m.kept = false ∨
      g'.generatedNames = name :: g.generatedNames)
    (hfree : m.checked = true → Free g m.privateName name)
    (hcounted : ∀ e ∈ issued, ∀ counter, e.make.counter = some counter → m.counter = some counter →
      e.make.privateName = false → m.privateName = false → e.scope = top.id → top'.tried counter < 2 ^ 28 →
      e.name ≠ name) : Adds issued m name g' := by
  have hopened : (g'.issue m name).opened = g.opened m.privateName := by
    show g'.opened m.privateName = g.opened m.privateName
    rw [opened, opened, hafter.scope, hscope, List.map_cons, List.map_cons, hid]
  have hplace : (g'.issue m name).scope = top.id := by
    rw [Issued.scope, hopened, opened, hscope]
    rfl
  refine ⟨h.after hscope hafter hid htop ?_, ?_⟩
  · intro e he hk
    rcases List.mem_cons.1 he with hnew | hold
    · rw [hnew] at hk ⊢
      rcases hkept with ⟨-, hnot⟩ | hgenerated
      · exact absurd hk (by rw [show (g'.issue m name).make = m from rfl, hnot]; decide)
      · rw [hgenerated]
        exact List.mem_cons_self
    · rcases hkept with ⟨hsame, -⟩ | hgenerated
      · rw [hsame]
        exact h.kept e hold hk
      · rw [hgenerated]
        exact List.mem_cons_of_mem _ (h.kept e hold hk)
  · intro e he
    refine ⟨?_, ?_⟩
    · intro hchecked hreserved
      rw [hopened] at hreserved
      exact h.reserved_ne (hfree hchecked) he hreserved
    · intro counter hcounter hcounter' hpublic hpublic' hsame htried
      rw [hplace] at hsame
      refine hcounted e he counter hcounter hcounter' hpublic hpublic' hsame ?_
      have htriedBy : (g'.issue m name).tried = top'.tried counter := by
        show g'.triedBy m.privateName m.counter = _
        rw [show m.counter = some counter from hcounter', triedBy, hafter.scope]
      rw [← htriedBy]
      exact htried

variable {isFileLevelUniqueName : Name → Bool → Bool}

theorem getTempFlags_cons {privateName : Bool} (hscope : g.getScope privateName = top :: rest) (counter : Counter) :
    g.getTempFlags privateName counter = top.flags counter := by
  rw [getTempFlags, hscope]

/-- the preferred name is that of the count which the loop leaves out -/
theorem preferredName_eq (privateName : Bool) (pre suffix : Name) :
    preferredName privateName pre suffix = formatGeneratedName privateName pre (tempName 8) suffix := rfl

/-- **A numbered name**, of a counter that has tried `n` values more -/
theorem temp_step (h : Inv issued g) {loop reserved privateName : Bool} {pre suffix : Name} {n count : Nat}
    {counter : Counter} (hscope : g.getScope privateName = top :: rest) (hafter : After g g' privateName top' rest)
    (hgenerated : g'.generatedNames = g.generatedNames)
    (hcounts : Counts top top' (privateName || reserved) name counter n) (hfree : Free g privateName name)
    (hcounter : counterOf privateName pre suffix = counter)
    (hname : name = formatGeneratedName privateName pre (tempName count) suffix)
    (hnew : top.tried counter + n < 2 ^ 28 →
      count ≠ 8 ∧ top.tried counter ≤ count ∨ count = 8 ∧ top.flags counter = top.tried counter)
    (hflags : top.tried counter + n < 2 ^ 28 →
      (top'.flags counter = top.tried counter + n ∨ top'.flags counter = top.tried counter + n + 2 ^ 28) ∧
      (top.flags counter = top.tried counter + 2 ^ 28 → top'.flags counter = top.tried counter + n + 2 ^ 28) ∧
      (count ≠ 8 ∧ count < top.tried counter + n ∨
        count = 8 ∧ top'.flags counter = top.tried counter + n + 2 ^ 28)) :
    Adds issued (.temp loop reserved privateName pre suffix) name g' := by
  have htop := h.scopes privateName top (by rw [hscope]; exact List.mem_cons_self)
  refine step_of_after (m := .temp loop reserved privateName pre suffix) h hscope hafter hcounts.id
    (htop.count hcounts (congrArg some hcounter) hcounter hname hflags) (.inl ⟨hgenerated, rfl⟩) (fun _ => hfree) ?_
  intro e he c hc hc' hpublic hpublic' hplace hlt
  have hkind : privateName = false := hpublic'
  cases hkind
  cases hcounter
  cases hc'
  rw [hcounts.tried] at hlt
  rw [hname]
  exact htop.counted_ne he hpublic hc hplace (by omega) rfl (hnew hlt)

/-- **A preferred name** -/
theorem preferred_step (h : Inv issued g) {loop reserved privateName : Bool} {pre suffix : Name}
    (hscope : g.getScope privateName = top :: rest)
    (hclear : top.flags (counterOf privateName pre suffix) &&& tempFlagsI = 0)
    (hfree : Free g privateName (preferredName privateName pre suffix)) :
    Adds issued (.temp loop reserved privateName pre suffix) (preferredName privateName pre suffix)
      (g.takeTempName tempFlagsI reserved privateName pre suffix .preferred).2 := by
  rw [takeTempName]
  generalize hcounter : counterOf privateName pre suffix = counter at hclear
  have hadvance := getTempFlags_cons hscope counter
  obtain ⟨hafter, hgenerated⟩ := after_reserve hscope (preferredName privateName pre suffix) reserved true
  obtain ⟨hafter', hgenerated'⟩ := hafter.changeTop fun scope =>
    scope.setFlags (g.getTempFlags privateName counter ||| tempFlagsI) counter
  have htop := h.scopes privateName top (by rw [hscope]; exact List.mem_cons_self)
  -- the preference is clear as long as the counter has not run through its values
  have hvalue : top.tried counter < 2 ^ 28 → top.flags counter = top.tried counter := by
    intro hlt
    rcases htop.flags _ hlt with hplain | hset
    · exact hplain
    · rw [hset] at hclear
      exact absurd hclear (and_flagsI hlt)
  refine temp_step h hscope hafter' (hgenerated'.trans (hgenerated.trans (if_pos (Bool.or_true _))))
    (counts_setFlags ..) hfree hcounter (preferredName_eq ..) (fun hlt => .inr ⟨rfl, hvalue hlt⟩) ?_
  intro hlt
  rw [Nat.add_zero] at hlt ⊢
  rw [NameGenerationScope.flags_setFlags, hadvance, hvalue hlt, or_flagsI hlt]
  exact ⟨.inr rfl, fun _ => rfl, .inr ⟨rfl, rfl⟩⟩

/-- **A counted name** -/
theorem counted_step (h : Inv issued g) {loop reserved privateName : Bool} (flags : Nat) {tempFlags : Nat}
    {pre suffix : Name}
    (hscope : g.getScope privateName = top :: rest)
    (hle : top.flags (counterOf privateName pre suffix) ≤ tempFlags) (hcount : tempFlags % 2 ^ 28 ≠ 8)
    (hfree : Free g privateName (countedName privateName pre suffix tempFlags)) :
    Adds issued (.temp loop reserved privateName pre suffix) (countedName privateName pre suffix tempFlags)
      (g.takeTempName flags reserved privateName pre suffix (.counted tempFlags)).2 := by
  rw [takeTempName]
  generalize hcounter : counterOf privateName pre suffix = counter at hle
  have hadvance := getTempFlags_cons hscope counter
  obtain ⟨hafter, hgenerated⟩ := after_reserve hscope (countedName privateName pre suffix tempFlags) reserved true
  obtain ⟨hafter', hgenerated'⟩ := hafter.changeTop fun scope => scope.setFlags (tempFlags + 1) counter
  obtain ⟨hafter'', hgenerated''⟩ := hafter'.changeTop fun scope =>
    scope.advance counter (tempFlags + 1 - g.getTempFlags privateName counter)
  have htop := h.scopes privateName top (by rw [hscope]; exact List.mem_cons_self)
  have hname : countedName privateName pre suffix tempFlags
      = formatGeneratedName privateName pre (tempName (tempFlags % 2 ^ 28)) suffix := by
    rw [countedName, and_mask]
  refine temp_step h hscope hafter'' (hgenerated''.trans (hgenerated'.trans (hgenerated.trans (if_pos (Bool.or_true _)))))
    ((counts_setFlags ..).advance _) hfree hcounter hname ?_ ?_
  · intro hlt
    rw [hadvance] at hlt
    refine .inl ⟨hcount, ?_⟩
    rcases htop.flags counter (by omega) with hplain | hset
    · omega
    · omega
  · intro hlt
    rw [NameGenerationScope.flags_advance, NameGenerationScope.flags_setFlags]
    rw [hadvance] at hlt ⊢
    rcases htop.flags counter (by omega) with hplain | hset
    · exact ⟨.inl (by omega), fun hset => by omega, .inl ⟨hcount, by omega⟩⟩
    · exact ⟨.inr (by omega), fun _ => by omega, .inl ⟨hcount, by omega⟩⟩

/-- **A unique name** -/
theorem unique_step (h : Inv issued g) {baseName : Name} {checkFn optimistic isScoped privateName : Bool}
    {pre suffix : Name} (hscope : g.getScope privateName = top :: rest)
    (hfree : checkFn = false → Free g privateName name) :
    Adds issued (.unique baseName checkFn optimistic isScoped privateName pre suffix) name
      (g.reserveName name privateName isScoped false) := by
  obtain ⟨hafter, hgenerated⟩ := after_reserve hscope name isScoped false
  obtain ⟨hid, htried, hflags, hsub, hmem⟩ := reservedIn_rest top (privateName || isScoped) name
  have htop := h.scopes privateName top (by rw [hscope]; exact List.mem_cons_self)
  refine step_of_after (m := .unique baseName checkFn optimistic isScoped privateName pre suffix) h hscope hafter hid
    (htop.grow hid hsub (funext hflags) htried hmem rfl) ?_ ?_ ?_
  · rw [Bool.or_false] at hgenerated
    cases hheld : privateName || isScoped with
    | true =>
      rw [hheld] at hgenerated
      refine .inl ⟨hgenerated, ?_⟩
      show (!(privateName || isScoped)) = false
      rw [hheld]
      rfl
    | false =>
      rw [hheld] at hgenerated
      exact .inr hgenerated
  · intro hchecked
    apply hfree
    rw [← Bool.not_eq_true']
    exact hchecked
  · intro e _ counter _ hcounter
    cases hcounter

/-- the names that a search for a unique name can end with -/
theorem findUniqueName_checked {fuel : Nat} {baseName : Name} {checkFn optimistic privateName : Bool}
    {pre suffix : Name}
    (h : findUniqueName isFileLevelUniqueName fuel g baseName checkFn optimistic privateName pre suffix = some name) :
    g.checkUniqueName isFileLevelUniqueName name privateName checkFn = true := by
  rw [findUniqueName] at h
  split_ifs at h with hoptimistic
  · cases h
    exact hoptimistic.2
  · obtain ⟨i, hi, hname⟩ := Option.map_eq_some_iff.1 h
    rw [← hname]
    exact (seek_some hi).2

/-- what a check tells -/
theorem checked_accepted {checkFn privateName : Bool}
    (h : g.checkUniqueName isFileLevelUniqueName name privateName checkFn = true) :
    isFileLevelUniqueName name privateName = true ∧ (checkFn = false → Free g privateName name) := by
  cases checkFn with
  | true => exact ⟨h, nofun⟩
  | false =>
    obtain ⟨haccepted, hfree⟩ := free_of_unique h
    exact ⟨haccepted, fun _ => hfree⟩

/-- **One call**: the predicate accepts the name, and it differs from those before it that are reserved. -/
theorem make_step (h : Inv issued g) {fuel : Nat} (hmake : m.perform isFileLevelUniqueName fuel g = some (name, g')) :
    isFileLevelUniqueName name m.privateName = true ∧ Adds issued m name g' := by
  rw [← perform_orDefault] at hmake
  obtain ⟨top, rest, hscope⟩ := orDefault_cons g m.privateName
  have hinv := h.orDefault m.privateName
  generalize g.orDefault m.privateName = g0 at hmake hscope hinv
  cases m with
  | temp loop reserved privateName pre suffix =>
    obtain ⟨found, hfound, htake⟩ := Option.map_eq_some_iff.1 hmake
    have hscope' : g0.getScope privateName = top :: rest := hscope
    rw [findTempName, getTempFlags_cons hscope'] at hfound
    by_cases hpreferred : (if loop then tempFlagsI else 0) ≠ 0 ∧
        top.flags (counterOf privateName pre suffix) &&& (if loop then tempFlagsI else 0) = 0 ∧
        g0.isUniqueName isFileLevelUniqueName (preferredName privateName pre suffix) privateName = true
    · rw [if_pos hpreferred] at hfound
      cases hfound
      obtain ⟨hflags, hclear, hunique⟩ := hpreferred
      have hloop : loop = true := by
        cases loop with
        | false => exact absurd rfl hflags
        | true => rfl
      rw [hloop, if_pos rfl] at htake hclear
      obtain ⟨haccepted, hfree⟩ := free_of_unique hunique
      cases htake
      exact ⟨haccepted, preferred_step hinv hscope' hclear hfree⟩
    · rw [if_neg hpreferred] at hfound
      obtain ⟨tempFlags, hseek, hcounted⟩ := Option.map_eq_some_iff.1 hfound
      cases hcounted
      obtain ⟨hle, haccept⟩ := seek_some hseek
      rw [acceptsCount, Bool.and_eq_true, Bool.and_eq_true, and_mask] at haccept
      obtain ⟨haccepted, hfree⟩ := free_of_unique haccept.2
      have hcount : tempFlags % 2 ^ 28 ≠ 8 := of_decide_eq_true haccept.1.1
      cases htake
      exact ⟨haccepted, counted_step hinv (if loop then tempFlagsI else 0) hscope' hle hcount hfree⟩
  | unique baseName checkFn optimistic isScoped privateName pre suffix =>
    obtain ⟨found, hfound, hresult⟩ := Option.map_eq_some_iff.1 hmake
    cases hresult
    obtain ⟨haccepted, hfree⟩ := checked_accepted (findUniqueName_checked hfound)
    exact ⟨haccepted, unique_step hinv hscope hfree⟩

/-! ## calls that return -/

theorem isUniqueName_iff {privateName : Bool} :
    g.isUniqueName isFileLevelUniqueName name privateName = true ↔
      isFileLevelUniqueName name privateName = true ∧ Free g privateName name := by
  constructor
  · exact free_of_unique
  · intro h
    obtain ⟨haccepted, hfree⟩ := h
    rw [isUniqueName, Bool.and_eq_true, Bool.not_eq_true', isReservedName, Bool.or_eq_false_iff]
    refine ⟨haccepted, Bool.eq_false_iff.2 (mt List.contains_iff_mem.1 hfree.generated),
      List.any_eq_false.2 ?_⟩
    intro scope hscope hmem
    exact hfree.scopes scope hscope (List.contains_iff_mem.1 hmem)

/-- **A unique name is always found**: only finitely many names are rejected or reserved. -/
theorem unique_returns (identifiers : Bool → List Name) (g : NameGenerator) (baseName : Name)
    (checkFn optimistic isScoped privateName : Bool) (pre suffix : Name) :
    ∃ fuel r, (Make.unique baseName checkFn optimistic isScoped privateName pre suffix).perform
      (fun name p => decide (name ∉ identifiers p)) fuel g = some r := by
  obtain ⟨i, hi, hnew⟩ := exists_unlisted (uniqueCandidate_inj baseName privateName pre suffix)
    (identifiers privateName ++
      (g.generatedNames ++ (g.getScope privateName).flatMap NameGenerationScope.reservedNames)) 1
  rw [List.mem_append, List.mem_append, not_or, not_or] at hnew
  obtain ⟨hidentifiers, hgenerated, hscopes⟩ := hnew
  have haccepted : decide (uniqueCandidate baseName privateName pre suffix i ∉ identifiers privateName) = true :=
    decide_eq_true hidentifiers
  have hcheck : g.checkUniqueName (fun name p => decide (name ∉ identifiers p))
      (uniqueCandidate baseName privateName pre suffix i) privateName checkFn = true := by
    cases checkFn with
    | true => exact haccepted
    | false =>
      refine (@isUniqueName_iff g (uniqueCandidate baseName privateName pre suffix i)
        (fun name p => decide (name ∉ identifiers p)) privateName).2 ⟨haccepted, hgenerated, ?_⟩
      intro scope hscope hmem
      exact hscopes (List.mem_flatMap.2 ⟨scope, hscope, hmem⟩)
  have hseek := (@seek_iff (fun i => g.checkUniqueName (fun name p => decide (name ∉ identifiers p))
    (uniqueCandidate baseName privateName pre suffix i) privateName checkFn) 1).2 ⟨i, hi, hcheck⟩
  obtain ⟨fuel, found, hfound⟩ := hseek
  have hfind : ∃ name, findUniqueName (fun name p => decide (name ∉ identifiers p)) fuel g baseName checkFn optimistic
      privateName pre suffix = some name := by
    rw [findUniqueName]
    split_ifs with hoptimistic
    · exact ⟨_, rfl⟩
    · rw [hfound]
      exact ⟨_, rfl⟩
  obtain ⟨name, hname⟩ := hfind
  exact ⟨fuel, _, Option.map_eq_some_iff.2 ⟨name, hname, rfl⟩⟩

/-- a name of the pattern is left: `_i`, where it is preferred for the first time, or that of a value of the counter -/
def TempLeft (isFileLevelUniqueName : Name → Bool → Bool) (g : NameGenerator) (loop privateName : Bool)
    (pre suffix : Name) : Prop :=
  (loop = true ∧ g.getTempFlags privateName (counterOf privateName pre suffix) &&& tempFlagsI = 0 ∧
    g.isUniqueName isFileLevelUniqueName (preferredName privateName pre suffix) privateName = true) ∨
  ∃ count, count < 2 ^ 28 ∧ count ≠ 8 ∧ count ≠ 13 ∧
    g.isUniqueName isFileLevelUniqueName (formatGeneratedName privateName pre (tempName count) suffix) privateName = true

/-- the loop accepts a value of the counter exactly if its name is left -/
theorem acceptsCount_iff {privateName : Bool} {pre suffix : Name} (n : Nat) :
    (∃ tempFlags, n ≤ tempFlags ∧ g.acceptsCount isFileLevelUniqueName privateName pre suffix tempFlags = true) ↔
      ∃ count, count < 2 ^ 28 ∧ count ≠ 8 ∧ count ≠ 13 ∧ g.isUniqueName isFileLevelUniqueName
        (formatGeneratedName privateName pre (tempName count) suffix) privateName = true := by
  have haccepts : ∀ tempFlags, g.acceptsCount isFileLevelUniqueName privateName pre suffix tempFlags = true ↔
      tempFlags % 2 ^ 28 ≠ 8 ∧ tempFlags % 2 ^ 28 ≠ 13 ∧ g.isUniqueName isFileLevelUniqueName
        (formatGeneratedName privateName pre (tempName (tempFlags % 2 ^ 28)) suffix) privateName = true := by
    intro tempFlags
    rw [acceptsCount, Bool.and_eq_true, Bool.and_eq_true, countedName, and_mask, and_assoc, decide_eq_true_eq,
      decide_eq_true_eq]
  constructor
  · intro h
    obtain ⟨tempFlags, -, haccept⟩ := h
    exact ⟨tempFlags % 2 ^ 28, Nat.mod_lt _ (by decide), (haccepts tempFlags).1 haccept⟩
  · intro h
    obtain ⟨count, hlt, hrest⟩ := h
    -- the same count, in the next round of the counter
    have hcount : ((n / 2 ^ 28 + 1) * 2 ^ 28 + count) % 2 ^ 28 = count := by omega
    refine ⟨(n / 2 ^ 28 + 1) * 2 ^ 28 + count, by omega, (haccepts _).2 ?_⟩
    rw [hcount]
    exact hrest

/-- **A temporary name is found exactly if one of its pattern is left.** -/
theorem temp_returns (g : NameGenerator) (loop reserved privateName : Bool) (pre suffix : Name) :
    (∃ fuel r, (Make.temp loop reserved privateName pre suffix).perform isFileLevelUniqueName fuel g = some r) ↔
      TempLeft isFileLevelUniqueName g loop privateName pre suffix := by
  have hperform : ∀ fuel, (∃ r, (Make.temp loop reserved privateName pre suffix).perform isFileLevelUniqueName fuel g
      = some r) ↔ ∃ found, findTempName isFileLevelUniqueName fuel g (if loop then tempFlagsI else 0) privateName pre
        suffix = some found := by
    intro fuel
    constructor
    · intro h
      obtain ⟨r, hr⟩ := h
      obtain ⟨found, hfound, -⟩ := Option.map_eq_some_iff.1 hr
      exact ⟨found, hfound⟩
    · intro h
      obtain ⟨found, hfound⟩ := h
      exact ⟨_, Option.map_eq_some_iff.2 ⟨found, hfound, rfl⟩⟩
  have hcond : ((if loop then tempFlagsI else 0) ≠ 0 ∧
        g.getTempFlags privateName (counterOf privateName pre suffix) &&& (if loop then tempFlagsI else 0) = 0 ∧
        g.isUniqueName isFileLevelUniqueName (preferredName privateName pre suffix) privateName = true) ↔
      loop = true ∧ g.getTempFlags privateName (counterOf privateName pre suffix) &&& tempFlagsI = 0 ∧
        g.isUniqueName isFileLevelUniqueName (preferredName privateName pre suffix) privateName = true := by
    cases loop with
    | false => exact ⟨fun h => absurd rfl h.1, fun h => Bool.noConfusion h.1⟩
    | true => exact ⟨fun h => ⟨rfl, h.2⟩, fun h => ⟨by decide, h.2⟩⟩
  rw [TempLeft, ← acceptsCount_iff (g.getTempFlags privateName (counterOf privateName pre suffix)), ← seek_iff,
    ← hcond]
  constructor
  · intro h
    obtain ⟨fuel, hr⟩ := h
    obtain ⟨found, hfound⟩ := (hperform fuel).1 hr
    by_cases hpreferred : (if loop then tempFlagsI else 0) ≠ 0 ∧
        g.getTempFlags privateName (counterOf privateName pre suffix) &&& (if loop then tempFlagsI else 0) = 0 ∧
        g.isUniqueName isFileLevelUniqueName (preferredName privateName pre suffix) privateName = true
    · exact .inl hpreferred
    · rw [findTempName, if_neg hpreferred] at hfound
      obtain ⟨tempFlags, hseek, -⟩ := Option.map_eq_some_iff.1 hfound
      exact .inr ⟨fuel, tempFlags, hseek⟩
  · intro h
    by_cases hpreferred : (if loop then tempFlagsI else 0) ≠ 0 ∧
        g.getTempFlags privateName (counterOf privateName pre suffix) &&& (if loop then tempFlagsI else 0) = 0 ∧
        g.isUniqueName isFileLevelUniqueName (preferredName privateName pre suffix) privateName = true
    · refine ⟨0, (hperform 0).2 ⟨.preferred, ?_⟩⟩
      rw [findTempName, if_pos hpreferred]
    · obtain ⟨fuel, tempFlags, hseek⟩ := h.resolve_left hpreferred
      refine ⟨fuel, (hperform fuel).2 ⟨.counted tempFlags, ?_⟩⟩
      rw [findTempName, if_neg hpreferred, hseek]
      rfl

/-! ## runs -/

theorem run_inv (h : Run isFileLevelUniqueName g issued) :
    Inv issued g ∧ (∀ e ∈ issued, isFileLevelUniqueName e.name e.make.privateName = true) ∧
      issued.Pairwise fun e' e => Apart e e' := by
  induction h with
  | start => exact ⟨inv_new, nofun, .nil⟩
  | push reuse _ ih =>
    obtain ⟨hinv, hrest⟩ := ih
    refine ⟨?_, hrest⟩
    cases reuse with
    | true => exact hinv.pushOne true
    | false => exact (hinv.pushOne true).pushOne false
  | pop reuse _ ih =>
    obtain ⟨hinv, hrest⟩ := ih
    refine ⟨?_, hrest⟩
    cases reuse with
    | true => exact hinv.popOne true
    | false => exact (hinv.popOne true).popOne false
  | make _ hmake ih =>
    obtain ⟨hinv, haccepted, hapart⟩ := ih
    obtain ⟨hname, hnext, hnew⟩ := make_step hinv hmake
    refine ⟨hnext, ?_, List.pairwise_cons.2 ⟨hnew, hapart⟩⟩
    intro e he
    rcases List.mem_cons.1 he with hlast | hold
    · rw [hlast]
      exact hname
    · exact haccepted e hold

end

/-! ## two runs -/

/-- no identifier is in the way -/
def emptyFile : Name → Bool → Bool := fun _ _ => true

def plainUnique : Make := .unique [120] false false false false [] []

/-- the name `x_1`, then `x_2` -/
def firstNumbered : NameGenerator := NameGenerator.new.reserveName [120, 95, 49] false false false

def secondNumbered : NameGenerator := firstNumbered.reserveName [120, 95, 50] false false false

/-- a unique name that is reserved in nested scopes -/
def scopedMake : Make := .unique [120] false false true false [] []

/-- two scopes side by side -/
def firstScoped : NameGenerator := (NameGenerator.new.pushScope false).reserveName [120, 95, 49] false true false

def secondScoped : NameGenerator :=
  ((firstScoped.popScope false).pushScope false).reserveName [120, 95, 49] false true false

def plainTemp : Make := .temp false false false [] []

def optimisticUnique : Make := .unique [95, 97] false true false false [] []

/-- after the temporary name `_a` -/
def afterTemp : NameGenerator := (NameGenerator.new.takeTempName 0 false false [] [] (.counted 0)).2

def afterUnique : NameGenerator := afterTemp.reserveName [95, 97] false false false

end Tsr.Printer
