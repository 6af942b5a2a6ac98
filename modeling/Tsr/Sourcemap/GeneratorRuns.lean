import Tsr.Sourcemap.RoundTrip

/-!
# Runs of calls at one generated position

A call asks for a mapping.  Calls in a row at one generated position make a run; what they ask for takes
turns in the pending mapping, and the output has a block of mappings for every run.

* `attempts`       a sequence of calls, of which some may return an error;
* `runsOf`         the runs of the mappings that are asked for;
* `RunMeets`       the mapping at the end of a block is the one its run asks for;
* `commit_ok`      what a commit that succeeds does.
-/

set_option linter.unusedSectionVars false

namespace Tsr.Sourcemap
open Tsr.Lib.Result

/-! ## what is asked for -/

/-- the mapping that a call asks for -/
def Call.mapping : Call → Option Mapping
  | .addGeneratedMapping gl gc =>
    some ⟨gl, gc, missingSource, missingLineOrColumn, missingUtf16Column, missingName⟩
  | .addSourceMapping gl gc si sl sc => some ⟨gl, gc, si, sl, sc, missingName⟩
  | .addNamedSourceMapping gl gc si sl sc ni => some ⟨gl, gc, si, sl, sc, ni⟩
  | _ => none

section
variable (relative : JsString → JsString)

/-- a call and whether it was made: an error leaves the generator as it is -/
def Generator.attempt (g : Generator) (c : Call) : Except Fault (Generator × List Call) :=
  match g.call relative c with
  | .ok g' => .ok (g', [c])
  | .error (.error _) => .ok (g, [])
  | .error (.panic message) => .error (.panic message)

/-- a sequence of calls, and those of them that were made -/
def Generator.attempts (g : Generator) : List Call → Except Fault (Generator × List Call)
  | [] => .ok (g, [])
  | c :: cs => do
    let (g, made) ← g.attempt relative c
    let (g, rest) ← attempts g cs
    return (g, made ++ rest)

end

def SameGenerated (a b : Mapping) : Prop :=
  a.generatedLine = b.generatedLine ∧ a.generatedCharacter = b.generatedCharacter

instance : DecidableRel SameGenerated := fun a b =>
  inferInstanceAs (Decidable (a.generatedLine = b.generatedLine ∧
    a.generatedCharacter = b.generatedCharacter))

/-- `c` joins the last run if it has its position -/
def addToRuns (runs : List (List Mapping)) (c : Mapping) : List (List Mapping) :=
  match runs.getLast? with
  | none => [[c]]
  | some run => if ∀ m ∈ run, SameGenerated m c then runs.dropLast ++ [run ++ [c]] else runs ++ [[c]]

/-- the maximal runs at one generated position -/
def runsOf (calls : List Call) : List (List Mapping) := (calls.filterMap Call.mapping).foldl addToRuns []

/-! ## what comes out -/

/-- the mapping at the end of a block: it has no source exactly when a mapping without one was asked
for, and is the last one of the run otherwise -/
structure RunMeets (run : List Mapping) (m : Mapping) : Prop where
  generated : m.isSourceMapping = false ↔ ∃ c ∈ run, c.isSourceMapping = false
  last : (∀ c ∈ run, c.isSourceMapping = true) → run.getLast? = some m

/-- a position that stands behind another one in the same source -/
def GoesBack (pending c : Mapping) : Prop :=
  pending.sourceIndex = c.sourceIndex ∧ (c.sourceLine < pending.sourceLine ∨
    pending.sourceLine = c.sourceLine ∧ c.sourceCharacter < pending.sourceCharacter)

instance : DecidableRel GoesBack := fun pending c =>
  inferInstanceAs (Decidable (pending.sourceIndex = c.sourceIndex ∧ (c.sourceLine < pending.sourceLine ∨
    pending.sourceLine = c.sourceLine ∧ c.sourceCharacter < pending.sourceCharacter)))

/-- a mapping takes the place of the pending one, whose name it keeps if it has none of its own and
does not go back -/
def keepName (pending c : Mapping) : Mapping :=
  if GoesBack pending c ∨ c.nameIndex ≠ missingName then c else { c with nameIndex := pending.nameIndex }

/-- a mapping without a name ends the run behind one with a name -/
def CarriesName (run : List Mapping) : Prop :=
  (∀ c ∈ run, c.isSourceMapping = true) ∧
    ∃ first rest, run = first :: rest ∧ (rest.foldl keepName first).nameIndex ≠
      ((first :: rest).getLast (List.cons_ne_nil first rest)).nameIndex

/-- the mappings of a run in the output -/
def RunOutput (run block : List Mapping) : Prop :=
  (∀ m ∈ block, ∀ c ∈ run, SameGenerated m c) ∧
    ∃ last, block.getLast? = some last ∧ (RunMeets run last ↔ ¬ CarriesName run)

/-- a pending mapping that is left out, since no field differs from the last one, has a source and a name
where the last one has -/
def EndsWell (g : Generator) : Prop :=
  g.shouldCommitMapping = false → ∀ m ∈ g.committed.getLast?,
    m.isSourceMapping = g.pendingMapping.isSourceMapping ∧
      (m.nameIndex = missingName ↔ g.pendingMapping.nameIndex = missingName)

instance (g : Generator) : Decidable (EndsWell g) :=
  inferInstanceAs (Decidable (g.shouldCommitMapping = false → ∀ m ∈ g.committed.getLast?,
    m.isSourceMapping = g.pendingMapping.isSourceMapping ∧
      (m.nameIndex = missingName ↔ g.pendingMapping.nameIndex = missingName)))

section
variable (relative : JsString → JsString)

/-- the call is made, and starts a run behind another one -/
def StartsRun (g : Generator) (c : Call) : Prop :=
  (g.call relative c).isOk = true ∧ g.hasPending = true ∧
    ∃ m ∈ c.mapping, g.isNewGeneratedPosition m.generatedLine m.generatedCharacter = true

instance (g : Generator) (c : Call) : Decidable (StartsRun relative g c) :=
  inferInstanceAs (Decidable ((g.call relative c).isOk = true ∧ g.hasPending = true ∧
    ∃ m ∈ c.mapping, g.isNewGeneratedPosition m.generatedLine m.generatedCharacter = true))

/-- every run of the calls ends well -/
def RunsEndWell (g : Generator) : List Call → Prop
  | [] => g.hasPending = true → EndsWell g
  | c :: cs => (StartsRun relative g c → EndsWell g) ∧
    ∀ next ∈ (g.attempt relative c).toOption, RunsEndWell next.1 cs

instance decidableRunsEndWell (g : Generator) (cs : List Call) : Decidable (RunsEndWell relative g cs) :=
  match cs with
  | [] => inferInstanceAs (Decidable (g.hasPending = true → EndsWell g))
  | c :: cs =>
    have (next : Generator × List Call) : Decidable (RunsEndWell relative next.1 cs) :=
      decidableRunsEndWell next.1 cs
    inferInstanceAs (Decidable ((StartsRun relative g c → EndsWell g) ∧
      ∀ next ∈ (g.attempt relative c).toOption, RunsEndWell relative next.1 cs))

end

/-! ## a commit -/

theorem vlqLoop_ok (fuel : Nat) (g g' : Generator) (v : Int64) (h : g.vlqLoop fuel v = .ok g') :
    ∃ ms, g' = { g with mappings := ms } := by
  induction fuel generalizing g v with
  | zero =>
    cases h
    exact ⟨_, rfl⟩
  | succ fuel ih =>
    rw [Generator.vlqLoop] at h
    obtain ⟨ch, -, h⟩ := (bind_eq_ok _ _ _).1 h
    dsimp only at h
    split at h
    · cases h
      exact ⟨_, rfl⟩
    · obtain ⟨ms, hms⟩ := ih _ _ h
      exact ⟨ms, hms⟩

theorem appendBase64Vlq_ok {g g' : Generator} {v : Int64} (h : g.appendBase64Vlq v = .ok g') :
    ∃ ms, g' = { g with mappings := ms } := vlqLoop_ok 13 g g' _ h

/-- the line delimiters end at the pending line -/
theorem lineLoop_ok (fuel : Nat) (g : Generator) (hlast : 0 ≤ g.lastGeneratedLine.toInt)
    (hlt : g.lastGeneratedLine.toInt < g.pendingGeneratedLine.toInt)
    (hfuel : g.pendingGeneratedLine.toInt ≤ g.lastGeneratedLine.toInt + fuel) :
    ∃ ms, g.lineLoop fuel = { g with mappings := ms, lastGeneratedLine := g.pendingGeneratedLine } := by
  induction fuel generalizing g with
  | zero => omega
  | succ fuel ih =>
    have hmax := Int64.toInt_lt g.pendingGeneratedLine
    have hnext : (g.lastGeneratedLine + 1).toInt = g.lastGeneratedLine.toInt + 1 := by
      rw [Int64.toInt_add]
      have hone : (1 : Int64).toInt = 1 := rfl
      rw [hone]
      exact Int.bmod_eq_of_le (by omega) (by omega)
    rw [Generator.lineLoop]
    dsimp only [Generator.appendMappingCharCode]
    by_cases hge : g.lastGeneratedLine + 1 ≥ g.pendingGeneratedLine
    · have hge' : g.pendingGeneratedLine.toInt ≤ (g.lastGeneratedLine + 1).toInt :=
        Int64.le_iff_toInt_le.1 hge
      have heq : g.lastGeneratedLine + 1 = g.pendingGeneratedLine := Int64.toInt_inj.1 (by omega)
      refine ⟨g.mappings ++ [semicolon], (if_pos hge).trans ?_⟩
      rw [heq]
    · have hlt' : (g.lastGeneratedLine + 1).toInt < g.pendingGeneratedLine.toInt := by
        rw [ge_iff_le, Int64.le_iff_toInt_le, not_le] at hge
        exact hge
      obtain ⟨ms, hms⟩ := ih
        { g with mappings := g.mappings ++ [semicolon], lastGeneratedLine := g.lastGeneratedLine + 1 }
        (by dsimp only; omega) hlt' (by dsimp only; push_cast at hfuel; omega)
      exact ⟨ms, (if_neg hge).trans hms⟩

theorem appendDelimiters_ok {g g' : Generator} (hlast : 0 ≤ g.lastGeneratedLine.toInt)
    (h : g.appendDelimiters = .ok g') : ∃ ms character, g' = { g with
      mappings := ms
      lastGeneratedLine := g.pendingGeneratedLine
      lastGeneratedCharacter := character } := by
  unfold Generator.appendDelimiters at h
  split at h
  · next hlt =>
    have hlt' := Int64.lt_iff_toInt_lt.1 hlt
    have hmax := Int64.toInt_lt g.pendingGeneratedLine
    have hsub : (g.pendingGeneratedLine - g.lastGeneratedLine).toInt =
        g.pendingGeneratedLine.toInt - g.lastGeneratedLine.toInt := by
      rw [Int64.toInt_sub]
      exact Int.bmod_eq_of_le (by omega) (by omega)
    have hfuel : ((g.pendingGeneratedLine - g.lastGeneratedLine).toNatClampNeg : Int) =
        g.pendingGeneratedLine.toInt - g.lastGeneratedLine.toInt := by
      rw [← Int64.toNat_toInt, hsub]
      omega
    obtain ⟨ms, hms⟩ := lineLoop_ok _ g hlast hlt' (by rw [hfuel]; omega)
    dsimp only at h
    rw [hms] at h
    cases h
    exact ⟨ms, 0, rfl⟩
  · split at h
    · cases h
    · next heq =>
      rw [not_not] at heq
      split at h
      · cases h
        refine ⟨g.mappings ++ [comma], g.lastGeneratedCharacter, ?_⟩
        cases g
        cases heq
        rfl
      · cases h
        refine ⟨g.mappings, g.lastGeneratedCharacter, ?_⟩
        cases g
        cases heq
        rfl

theorem appendSource_ok {g g' : Generator} (h : g.appendSource = .ok g') :
    ∃ ms, g' = { g.afterSource [] with mappings := ms } := by
  unfold Generator.appendSource at h
  cases hsource : g.hasPendingSource with
  | true =>
    rw [hsource, if_pos rfl] at h
    obtain ⟨g4, hposition, h⟩ := (bind_eq_ok _ _ _).1 h
    obtain ⟨ms4, rfl⟩ : ∃ ms, g4 = { g with
        mappings := ms
        lastSourceIndex := g.pendingSourceIndex
        lastSourceLine := g.pendingSourceLine
        lastSourceCharacter := g.pendingSourceCharacter } := by
      obtain ⟨g1, h1, hposition⟩ := (bind_eq_ok _ _ _).1 hposition
      obtain ⟨g2, h2, hposition⟩ := (bind_eq_ok _ _ _).1 hposition
      obtain ⟨g3, h3, hposition⟩ := (bind_eq_ok _ _ _).1 hposition
      obtain ⟨ms1, rfl⟩ := appendBase64Vlq_ok h1
      obtain ⟨ms2, rfl⟩ := appendBase64Vlq_ok h2
      obtain ⟨ms3, rfl⟩ := appendBase64Vlq_ok h3
      cases hposition
      exact ⟨ms3, rfl⟩
    cases hname : g.hasPendingName with
    | true =>
      simp only [hname, if_true] at h
      obtain ⟨g5, h5, h⟩ := (bind_eq_ok _ _ _).1 h
      obtain ⟨ms5, rfl⟩ := appendBase64Vlq_ok h5
      cases h
      refine ⟨ms5, ?_⟩
      simp only [Generator.afterSource, hsource, hname, if_true, Bool.and_self]
    | false =>
      simp only [hname, Bool.false_eq_true, if_false] at h
      cases h
      refine ⟨ms4, ?_⟩
      simp only [Generator.afterSource, hsource, hname, if_true, Bool.and_false, Bool.false_eq_true, if_false]
  | false =>
    rw [hsource, if_neg Bool.false_ne_true] at h
    cases h
    refine ⟨g.mappings, ?_⟩
    cases g
    cases hsource
    rfl

/-- **A commit** leaves out the pending mapping, or appends it to the output. -/
theorem commit_ok {g g' : Generator} (hlast : 0 ≤ g.lastGeneratedLine.toInt)
    (h : g.commitPendingMapping = .ok g') :
    (g.shouldCommitMapping = false ∧ g' = g) ∨
    (g.shouldCommitMapping = true ∧ ∃ ms, g' = { g.afterCommit [] with mappings := ms }) := by
  unfold Generator.commitPendingMapping at h
  cases hcommit : g.shouldCommitMapping with
  | false =>
    rw [hcommit] at h
    cases h
    exact Or.inl ⟨rfl, rfl⟩
  | true =>
    rw [hcommit] at h
    obtain ⟨g1, h1, h⟩ := (bind_eq_ok _ _ _).1 h
    obtain ⟨g2, h2, h⟩ := (bind_eq_ok _ _ _).1 h
    obtain ⟨g3, h3, h⟩ := (bind_eq_ok _ _ _).1 h
    obtain ⟨ms1, character1, rfl⟩ := appendDelimiters_ok hlast h1
    obtain ⟨g2', h2', h2⟩ := (bind_eq_ok _ _ _).1 h2
    obtain ⟨ms2, rfl⟩ := appendBase64Vlq_ok h2'
    cases h2
    obtain ⟨ms3, rfl⟩ := appendSource_ok h3
    cases h
    exact Or.inr ⟨rfl, ms3, rfl⟩

end Tsr.Sourcemap
