import Tsr.Sourcemap.GeneratorRuns

/-!
# The output of a run

* `Standing`               what holds while a run is open;
* `commit_ends`            a run that ends well has its block;
* `attempt_stands`         one call;
* `runs_committed`         every run has a block, whose last mapping is the one it asks for unless a name
                           is carried over;
* `runs_committed_stale`   a mapping that is left out.
-/

set_option linter.unusedSectionVars false

namespace Tsr.Sourcemap
open Tsr.Lib.Result

/-! ## the pending mapping -/

theorem SameGenerated.symm {a b : Mapping} (h : SameGenerated a b) : SameGenerated b a :=
  ⟨h.1.symm, h.2.symm⟩

theorem SameGenerated.trans {a b c : Mapping} (h : SameGenerated a b) (h' : SameGenerated b c) :
    SameGenerated a c := ⟨h.1.trans h'.1, h.2.trans h'.2⟩

theorem isSourceMapping_iff (m : Mapping) : m.isSourceMapping = true ↔
    m.sourceIndex ≠ sourceIndexNotSet ∧ m.sourceLine ≠ notSet ∧ m.sourceCharacter ≠ notSetUtf16 := by
  rw [Mapping.isSourceMapping, Bool.and_eq_true, Bool.and_eq_true, bne_iff_ne, bne_iff_ne, bne_iff_ne, and_assoc]
  exact Iff.rfl

theorem pendingMapping_sourceless {g : Generator} (h : g.hasPendingSource = false) :
    g.pendingMapping.isSourceMapping = false := by
  have hindex : g.pendingMapping.sourceIndex = missingSource := by
    rw [Generator.pendingMapping, h]
    rfl
  rw [Mapping.isSourceMapping, hindex, bne_self_eq_false, Bool.false_and, Bool.false_and]

section
variable (g : Generator) (m : Mapping)

/-- `m` joins the pending position -/
def Generator.join (g : Generator) (m : Mapping) : Generator :=
  g.setPendingSource m.sourceIndex m.sourceLine m.sourceCharacter m.nameIndex

/-- `m` starts a position -/
def Generator.start (g : Generator) (m : Mapping) : Generator :=
  (g.startPending m.generatedLine m.generatedCharacter).join m

theorem join_eq (h : m.isSourceMapping = true) : g.join m = { g with
    pendingSourceIndex := m.sourceIndex
    pendingSourceLine := m.sourceLine
    pendingSourceCharacter := m.sourceCharacter
    hasPendingSource := true
    pendingNameIndex := if m.nameIndex ≠ nameIndexNotSet then m.nameIndex else g.pendingNameIndex
    hasPendingName := if m.nameIndex ≠ nameIndexNotSet then true else g.hasPendingName } := by
  rw [Generator.join, Generator.setPendingSource, if_pos ((isSourceMapping_iff m).1 h)]
  by_cases hname : m.nameIndex ≠ nameIndexNotSet
  · simp only [if_pos hname]
  · simp only [if_neg hname]

theorem join_sourceless (h : m.isSourceMapping = false) : g.join m = g := by
  rw [Generator.join, Generator.setPendingSource, if_neg]
  rw [← isSourceMapping_iff, h]
  exact Bool.false_ne_true

/-- a mapping that starts a position is pending -/
theorem start_pending (h : m.isSourceMapping = true) : (g.start m).pendingMapping = m := by
  rw [Generator.start, join_eq _ m h]
  unfold Generator.pendingMapping Generator.startPending
  by_cases hname : m.nameIndex ≠ nameIndexNotSet
  · simp only [if_pos hname, if_true, Bool.and_self]
  · have hmissing : missingName = m.nameIndex := (not_not.1 hname).symm
    simp only [if_neg hname, if_true, Bool.and_false, Bool.false_eq_true, if_false, hmissing]

/-- a mapping that joins a position takes the place of the pending one -/
theorem join_pending (h : m.isSourceMapping = true) (hsource : g.hasPendingSource = true)
    (hposition : SameGenerated g.pendingMapping m) (hback : ¬ GoesBack g.pendingMapping m) :
    (g.join m).pendingMapping = keepName g.pendingMapping m := by
  obtain ⟨hline, hcharacter⟩ := hposition
  change g.pendingGeneratedLine = m.generatedLine at hline
  change g.pendingGeneratedCharacter = m.generatedCharacter at hcharacter
  rw [join_eq g m h]
  by_cases hname : m.nameIndex ≠ nameIndexNotSet
  · have hkeep : keepName g.pendingMapping m = m := if_pos (Or.inr hname)
    rw [hkeep]
    unfold Generator.pendingMapping
    simp only [if_pos hname, if_true, Bool.and_self, hline, hcharacter]
  · have hkeep : keepName g.pendingMapping m = { m with nameIndex := g.pendingMapping.nameIndex } :=
      if_neg fun hor => hor.elim hback hname
    rw [hkeep]
    unfold Generator.pendingMapping
    simp only [if_neg hname, if_true, Bool.true_and, hline, hcharacter, hsource]

theorem goesBack_iff (h : m.isSourceMapping = true) (hsource : g.hasPendingSource = true) :
    g.isBacktrackingSourcePosition m.sourceIndex m.sourceLine m.sourceCharacter = true ↔
      GoesBack g.pendingMapping m := by
  obtain ⟨hindex, hline, hcharacter⟩ := (isSourceMapping_iff m).1 h
  unfold Generator.isBacktrackingSourcePosition GoesBack Generator.pendingMapping
  simp only [hsource, if_true, bne_iff_ne.2 hindex, bne_iff_ne.2 hline, bne_iff_ne.2 hcharacter,
    Bool.and_eq_true, Bool.or_eq_true, beq_iff_eq, decide_eq_true_eq, true_and, gt_iff_lt]

end

/-! ## the name that a run keeps -/

theorem keepName_fields (pending c : Mapping) : ∃ name, keepName pending c = { c with nameIndex := name } := by
  unfold keepName
  split
  · exact ⟨c.nameIndex, rfl⟩
  · exact ⟨pending.nameIndex, rfl⟩

theorem foldl_keepName (first : Mapping) (rest : List Mapping) :
    ∃ name, rest.foldl keepName first =
      { (first :: rest).getLast (List.cons_ne_nil first rest) with nameIndex := name } := by
  induction rest using List.reverseRecOn with
  | nil => exact ⟨first.nameIndex, rfl⟩
  | append_singleton rest c _ =>
    rw [List.foldl_append]
    obtain ⟨name, hname⟩ := keepName_fields (rest.foldl keepName first) c
    refine ⟨name, ?_⟩
    have hconcat : ((first :: rest) ++ [c]).getLast (List.cons_ne_nil _ _) = c := List.getLast_concat
    have hlast : (first :: (rest ++ [c])).getLast (List.cons_ne_nil _ _) = c := hconcat
    rw [hlast]
    exact hname

/-- without a name that is carried over, a run amounts to its last mapping -/
theorem kept_iff (first : Mapping) (rest : List Mapping) :
    (first :: rest).getLast? = some (rest.foldl keepName first) ↔
      (rest.foldl keepName first).nameIndex =
        ((first :: rest).getLast (List.cons_ne_nil first rest)).nameIndex := by
  obtain ⟨name, hname⟩ := foldl_keepName first rest
  rw [hname, List.getLast?_eq_some_getLast (List.cons_ne_nil first rest), Option.some_inj]
  constructor
  · intro h
    rw [← h]
  · intro h
    change name = _ at h
    rw [h]

/-! ## an open run -/

def LastAt (g : Generator) : Prop :=
  g.lastGeneratedLine = g.pendingGeneratedLine ∧ g.lastGeneratedCharacter = g.pendingGeneratedCharacter

/-- the fields of the last mapping that was committed; a field that it does not have is not set -/
structure IsLast (g : Generator) (m : Mapping) : Prop where
  position : g.lastGeneratedLine = m.generatedLine ∧ g.lastGeneratedCharacter = m.generatedCharacter
  source : m.isSourceMapping = true → g.lastSourceIndex = m.sourceIndex ∧ g.lastSourceLine = m.sourceLine ∧
    g.lastSourceCharacter = m.sourceCharacter
  sourceless : m.isSourceMapping = false → m.sourceIndex = missingSource ∧
    m.sourceLine = missingLineOrColumn ∧ m.sourceCharacter = missingUtf16Column
  name : m.nameIndex ≠ missingName → g.lastNameIndex = m.nameIndex

def LastIs (g : Generator) : Prop := ∀ m, g.committed.getLast? = some m → IsLast g m

/-- the runs that are over have their blocks; `part` is what the open run has in the output -/
structure Standing (g : Generator) (done : List (List Mapping)) (run : List Mapping) : Prop where
  ne : run ≠ []
  pending : g.hasPending = true
  lastLine : 0 ≤ g.lastGeneratedLine.toInt
  pendingLine : 0 ≤ g.pendingGeneratedLine.toInt
  lastIs : LastIs g
  position : ∀ c ∈ run, SameGenerated g.pendingMapping c
  sourceless : g.hasPendingSource = false ↔ ∃ c ∈ run, c.isSourceMapping = false
  source : g.hasPendingSource = true → g.pendingMapping.isSourceMapping = true
  amounts : g.hasPendingSource = true →
    ∃ first rest, run = first :: rest ∧ g.pendingMapping = rest.foldl keepName first
  blocks : ∃ blocks part, g.committed = blocks.flatten ++ part ∧ List.Forall₂ RunOutput done blocks ∧
    (∀ m ∈ part, SameGenerated m g.pendingMapping) ∧ (part = [] → g.hasLast = true → ¬ LastAt g)

/-- every run has its block -/
structure Ended (g : Generator) (runs : List (List Mapping)) : Prop where
  lastLine : 0 ≤ g.lastGeneratedLine.toInt
  pendingLine : 0 ≤ g.pendingGeneratedLine.toInt
  lastIs : LastIs g
  last : g.hasLast = true → g.hasPending = true ∧ LastAt g
  blocks : ∃ blocks, g.committed = blocks.flatten ∧ List.Forall₂ RunOutput runs blocks

/-- before the first call no run is open -/
def Stands (g : Generator) (runs : List (List Mapping)) : Prop :=
  (g.hasPending = false ∧ g.hasLast = false ∧ Ended g runs ∧ runs = []) ∨
    ∃ done run, runs = done ++ [run] ∧ Standing g done run

section
variable {g g' : Generator} {done : List (List Mapping)} {run : List Mapping}

/-- the pending mapping is the one the run asks for, unless it carries a name -/
theorem Standing.meets (h : Standing g done run) : RunMeets run g.pendingMapping ↔ ¬ CarriesName run := by
  cases hsource : g.hasPendingSource with
  | false =>
    have hexists := h.sourceless.1 hsource
    obtain ⟨c, hc, hnone⟩ := hexists
    constructor
    · intro _ hcarries
      rw [hcarries.1 c hc] at hnone
      cases hnone
    · intro _
      refine ⟨⟨fun _ => ⟨c, hc, hnone⟩, fun _ => pendingMapping_sourceless hsource⟩, ?_⟩
      intro hall
      rw [hall c hc] at hnone
      cases hnone
  | true =>
    have hall : ∀ c ∈ run, c.isSourceMapping = true := by
      intro c hc
      by_contra hnone
      have hfalse := h.sourceless.2 ⟨c, hc, Bool.eq_false_iff.2 hnone⟩
      rw [hsource] at hfalse
      cases hfalse
    have hgenerated : g.pendingMapping.isSourceMapping = false ↔ ∃ c ∈ run, c.isSourceMapping = false := by
      rw [h.source hsource, ← h.sourceless, hsource]
    obtain ⟨first, rest, rfl, hkept⟩ := h.amounts hsource
    have hiff := kept_iff first rest
    rw [← hkept] at hiff
    constructor
    · intro hmeets hcarries
      obtain ⟨-, first', rest', hrun', hne⟩ := hcarries
      obtain ⟨rfl, rfl⟩ := List.cons.inj hrun'
      rw [← hkept] at hne
      exact hne (hiff.1 (hmeets.last hall))
    · intro hcarries
      refine ⟨hgenerated, fun _ => hiff.2 ?_⟩
      by_contra hne
      refine hcarries ⟨hall, first, rest, rfl, ?_⟩
      rw [← hkept]
      exact hne

theorem shouldCommit_false (h : g.shouldCommitMapping = false) (hpending : g.hasPending = true) :
    g.hasLast = true ∧ LastAt g ∧ (g.lastSourceIndex = g.pendingSourceIndex ∧
      g.lastSourceLine = g.pendingSourceLine ∧ g.lastSourceCharacter = g.pendingSourceCharacter) ∧
      g.lastNameIndex = g.pendingNameIndex := by
  unfold Generator.shouldCommitMapping at h
  simp only [hpending, Bool.true_and, Bool.or_eq_false_iff, Bool.not_eq_false', bne_eq_false_iff_eq] at h
  obtain ⟨⟨⟨⟨⟨⟨hlast, hline⟩, hcharacter⟩, hindex⟩, hsourceLine⟩, hsourceCharacter⟩, hname⟩ := h
  exact ⟨hlast, ⟨hline, hcharacter⟩, ⟨hindex, hsourceLine, hsourceCharacter⟩, hname⟩

/-- the fields of the pending mapping -/
theorem pendingMapping_fields (hsource : g.hasPendingSource = true → g.pendingMapping.isSourceMapping = true) :
    (g.pendingMapping.isSourceMapping = true → g.hasPendingSource = true ∧
      g.pendingMapping.sourceIndex = g.pendingSourceIndex ∧ g.pendingMapping.sourceLine = g.pendingSourceLine ∧
      g.pendingMapping.sourceCharacter = g.pendingSourceCharacter) ∧
    (g.pendingMapping.isSourceMapping = false → g.pendingMapping.sourceIndex = missingSource ∧
      g.pendingMapping.sourceLine = missingLineOrColumn ∧
      g.pendingMapping.sourceCharacter = missingUtf16Column) ∧
    (g.pendingMapping.nameIndex ≠ missingName → (g.hasPendingSource && g.hasPendingName) = true ∧
      g.pendingMapping.nameIndex = g.pendingNameIndex) := by
  refine ⟨?_, ?_, ?_⟩
  · intro hm
    cases hflag : g.hasPendingSource with
    | true =>
      unfold Generator.pendingMapping
      simp only [hflag, if_true, and_self]
    | false =>
      rw [pendingMapping_sourceless hflag] at hm
      cases hm
  · intro hm
    cases hflag : g.hasPendingSource with
    | true =>
      rw [hsource hflag] at hm
      cases hm
    | false =>
      unfold Generator.pendingMapping
      simp only [hflag, Bool.false_eq_true, if_false, and_self]
  · intro hm
    cases hflag : (g.hasPendingSource && g.hasPendingName) with
    | true =>
      unfold Generator.pendingMapping
      simp only [hflag, if_true, and_self]
    | false =>
      unfold Generator.pendingMapping at hm
      simp only [hflag, Bool.false_eq_true, if_false] at hm
      exact absurd rfl hm

theorem mapping_eq {a b : Mapping}
    (hgenerated : a.generatedLine = b.generatedLine ∧ a.generatedCharacter = b.generatedCharacter)
    (hsource : a.sourceIndex = b.sourceIndex ∧ a.sourceLine = b.sourceLine ∧
      a.sourceCharacter = b.sourceCharacter) (hname : a.nameIndex = b.nameIndex) : a = b := by
  cases a
  cases b
  cases hgenerated.1
  cases hgenerated.2
  cases hsource.1
  cases hsource.2.1
  cases hsource.2.2
  cases hname
  rfl

/-- a mapping that is left out is the last one, if they agree in whether they have a source and a name -/
theorem IsLast.eq_pending {m : Mapping} (h : IsLast g m)
    (hsource : g.hasPendingSource = true → g.pendingMapping.isSourceMapping = true)
    (hskip : g.shouldCommitMapping = false) (hpending : g.hasPending = true)
    (hflag : m.isSourceMapping = g.pendingMapping.isSourceMapping)
    (hname : m.nameIndex = missingName ↔ g.pendingMapping.nameIndex = missingName) : m = g.pendingMapping := by
  obtain ⟨-, ⟨hline, hcharacter⟩, ⟨hindex, hsourceLine, hsourceCharacter⟩, hnameIndex⟩ :=
    shouldCommit_false hskip hpending
  obtain ⟨hsourced, hsourceless, hnamed⟩ := pendingMapping_fields hsource
  have hgenerated : m.generatedLine = g.pendingMapping.generatedLine ∧
      m.generatedCharacter = g.pendingMapping.generatedCharacter :=
    ⟨h.position.1.symm.trans hline, h.position.2.symm.trans hcharacter⟩
  have hfields : m.sourceIndex = g.pendingMapping.sourceIndex ∧ m.sourceLine = g.pendingMapping.sourceLine ∧
      m.sourceCharacter = g.pendingMapping.sourceCharacter := by
    cases hm : m.isSourceMapping with
    | true =>
      obtain ⟨h1, h2, h3⟩ := h.source hm
      rw [hm] at hflag
      obtain ⟨-, h1', h2', h3'⟩ := hsourced hflag.symm
      rw [h1', h2', h3', ← h1, ← h2, ← h3]
      exact ⟨hindex, hsourceLine, hsourceCharacter⟩
    | false =>
      obtain ⟨h1, h2, h3⟩ := h.sourceless hm
      rw [hm] at hflag
      obtain ⟨h1', h2', h3'⟩ := hsourceless hflag.symm
      rw [h1, h2, h3, h1', h2', h3']
      exact ⟨rfl, rfl, rfl⟩
  have hnames : m.nameIndex = g.pendingMapping.nameIndex := by
    by_cases hm : m.nameIndex = missingName
    · rw [hm, hname.1 hm]
    · rw [← h.name hm, (hnamed fun heq => hm (hname.2 heq)).2]
      exact hnameIndex
  exact mapping_eq hgenerated hfields hnames

/-- a mapping that is committed is the last one -/
theorem afterCommit_isLast (ms : List UInt8)
    (hsource : g.hasPendingSource = true → g.pendingMapping.isSourceMapping = true) :
    LastIs { g.afterCommit [] with mappings := ms } := by
  intro m hm
  have heq : m = g.pendingMapping := by
    change (g.committed ++ [g.pendingMapping]).getLast? = some m at hm
    rw [List.getLast?_concat] at hm
    exact (Option.some.inj hm).symm
  obtain ⟨hsourced, hsourceless, hnamed⟩ := pendingMapping_fields hsource
  rw [heq]
  refine ⟨⟨rfl, rfl⟩, ?_, hsourceless, ?_⟩
  · intro htrue
    obtain ⟨hflag, h1, h2, h3⟩ := hsourced htrue
    rw [h1, h2, h3]
    exact ⟨if_pos hflag, if_pos hflag, if_pos hflag⟩
  · intro hne
    obtain ⟨hflag, h1⟩ := hnamed hne
    rw [h1]
    exact if_pos hflag

/-- **A run that ends well has its block.** -/
theorem commit_ends (h : Standing g done run) (hwell : EndsWell g) (hok : g.commitPendingMapping = .ok g') :
    Ended g' (done ++ [run]) := by
  obtain ⟨blocks, part, hcommitted, hall, hpart, hfresh⟩ := h.blocks
  have hblock : ∀ block : List Mapping, (∀ m ∈ block, SameGenerated m g.pendingMapping) →
      block.getLast? = some g.pendingMapping → RunOutput run block := by
    intro block hat hlast
    exact ⟨fun m hm c hc => (hat m hm).trans (h.position c hc), g.pendingMapping, hlast, h.meets⟩
  rcases commit_ok h.lastLine hok with ⟨hskip, rfl⟩ | ⟨-, ms, rfl⟩
  · obtain ⟨hhasLast, hat, -⟩ := shouldCommit_false hskip h.pending
    have hne : part ≠ [] := fun hnil => hfresh hnil hhasLast hat
    have hlast : part.getLast? = some g'.pendingMapping := by
      have hpart := List.getLast?_eq_some_getLast hne
      have hget : g'.committed.getLast? = some (part.getLast hne) := by
        rw [hcommitted, List.getLast?_append_of_ne_nil _ hne, hpart]
      obtain ⟨hflag, hname⟩ := hwell hskip _ hget
      rw [hpart, (h.lastIs _ hget).eq_pending h.source hskip h.pending hflag hname]
    refine ⟨h.lastLine, h.pendingLine, h.lastIs, fun _ => ⟨h.pending, hat⟩, blocks ++ [part], ?_, ?_⟩
    · rw [hcommitted, List.flatten_append, List.flatten_singleton]
    · exact List.rel_append hall (List.Forall₂.cons (hblock part hpart hlast) List.Forall₂.nil)
  · refine ⟨h.pendingLine, h.pendingLine, afterCommit_isLast ms h.source, fun _ => ⟨h.pending, rfl, rfl⟩, blocks ++ [part ++ [g.pendingMapping]],
      ?_, ?_⟩
    · show g.committed ++ [g.pendingMapping] = _
      rw [hcommitted, List.flatten_append, List.flatten_singleton, List.append_assoc]
    · refine List.rel_append hall (List.Forall₂.cons (hblock _ ?_ List.getLast?_concat) List.Forall₂.nil)
      intro m hm
      rcases List.mem_append.1 hm with hm | hm
      · exact hpart m hm
      · rw [List.mem_singleton.1 hm]
        exact ⟨rfl, rfl⟩

/-! ## the calls of a run -/

variable {runs : List (List Mapping)} {m : Mapping}

/-- the output and the last mapping stay as they are -/
structure SameOutput (g g' : Generator) : Prop where
  committed : g'.committed = g.committed
  hasLast : g'.hasLast = g.hasLast
  lastLine : g'.lastGeneratedLine = g.lastGeneratedLine
  lastCharacter : g'.lastGeneratedCharacter = g.lastGeneratedCharacter
  lastSource : g'.lastSourceIndex = g.lastSourceIndex ∧ g'.lastSourceLine = g.lastSourceLine ∧
    g'.lastSourceCharacter = g.lastSourceCharacter
  lastName : g'.lastNameIndex = g.lastNameIndex

theorem SameOutput.lastIs (hsame : SameOutput g g') (h : LastIs g) : LastIs g' := by
  intro m hm
  rw [hsame.committed] at hm
  obtain ⟨hposition, hsource, hsourceless, hname⟩ := h m hm
  refine ⟨?_, ?_, hsourceless, ?_⟩
  · rw [hsame.lastLine, hsame.lastCharacter]
    exact hposition
  · rw [hsame.lastSource.1, hsame.lastSource.2.1, hsame.lastSource.2.2]
    exact hsource
  · rw [hsame.lastName]
    exact hname

/-- a new position starts a run -/
theorem Ended.start (h : Ended g runs) (hsame : SameOutput g g')
    (hnew : g.isNewGeneratedPosition m.generatedLine m.generatedCharacter = true)
    (hline : 0 ≤ m.generatedLine.toInt) (hpending : g'.hasPending = true)
    (hposition : SameGenerated g'.pendingMapping m) (hsource : g'.hasPendingSource = m.isSourceMapping)
    (hm : m.isSourceMapping = true → g'.pendingMapping = m) : Standing g' runs [m] where
  ne := List.cons_ne_nil m []
  pending := hpending
  lastLine := by
    rw [hsame.lastLine]
    exact h.lastLine
  pendingLine := by
    have heq : g'.pendingGeneratedLine = m.generatedLine := hposition.1
    rw [heq]
    exact hline
  lastIs := hsame.lastIs h.lastIs
  position := by
    intro c hc
    rw [List.mem_singleton.1 hc]
    exact hposition
  sourceless := by
    rw [hsource]
    constructor
    · intro hnone
      exact ⟨m, List.mem_singleton_self m, hnone⟩
    · intro hexists
      obtain ⟨c, hc, hnone⟩ := hexists
      rw [← List.mem_singleton.1 hc]
      exact hnone
  source := by
    intro htrue
    rw [hsource] at htrue
    rw [hm htrue]
    exact htrue
  amounts := by
    intro htrue
    rw [hsource] at htrue
    exact ⟨m, [], rfl, hm htrue⟩
  blocks := by
    obtain ⟨blocks, hcommitted, hall⟩ := h.blocks
    refine ⟨blocks, [], ?_, hall, fun m' hm' => absurd hm' List.not_mem_nil, ?_⟩
    · rw [hsame.committed, hcommitted, List.append_nil]
    · intro _ hlast hat
      rw [hsame.hasLast] at hlast
      obtain ⟨hold, hatLine, hatCharacter⟩ := h.last hlast
      have hline' : g.pendingGeneratedLine = m.generatedLine := by
        rw [← hatLine, ← hsame.lastLine, hat.1]
        exact hposition.1
      have hcharacter' : g.pendingGeneratedCharacter = m.generatedCharacter := by
        rw [← hatCharacter, ← hsame.lastCharacter, hat.2]
        exact hposition.2
      rw [Generator.isNewGeneratedPosition, hold, hline', hcharacter', bne_self_eq_false,
        bne_self_eq_false] at hnew
      cases hnew

/-- a call at the position of the run that is open -/
theorem Standing.continue (h : Standing g done run) (hsame : SameOutput g g')
    (hpending : g'.hasPending = true) (hposition : SameGenerated g'.pendingMapping g.pendingMapping)
    (hat : SameGenerated g.pendingMapping m)
    (hsource : g'.hasPendingSource = (g.hasPendingSource && m.isSourceMapping))
    (hm : g'.hasPendingSource = true → g'.pendingMapping.isSourceMapping = true ∧
      g'.pendingMapping = keepName g.pendingMapping m) : Standing g' done (run ++ [m]) where
  ne := List.append_ne_nil_of_left_ne_nil h.ne [m]
  pending := hpending
  lastLine := by
    rw [hsame.lastLine]
    exact h.lastLine
  pendingLine := by
    have heq : g'.pendingGeneratedLine = g.pendingGeneratedLine := hposition.1
    rw [heq]
    exact h.pendingLine
  lastIs := hsame.lastIs h.lastIs
  position := by
    intro c hc
    rcases List.mem_append.1 hc with hc | hc
    · exact hposition.trans (h.position c hc)
    · rw [List.mem_singleton.1 hc]
      exact hposition.trans hat
  sourceless := by
    rw [hsource, Bool.and_eq_false_iff, h.sourceless]
    constructor
    · intro hor
      rcases hor with ⟨c, hc, hnone⟩ | hnone
      · exact ⟨c, List.mem_append_left _ hc, hnone⟩
      · exact ⟨m, List.mem_append_right _ (List.mem_singleton_self m), hnone⟩
    · intro hexists
      obtain ⟨c, hc, hnone⟩ := hexists
      rcases List.mem_append.1 hc with hc | hc
      · exact Or.inl ⟨c, hc, hnone⟩
      · rw [List.mem_singleton.1 hc] at hnone
        exact Or.inr hnone
  source := fun htrue => (hm htrue).1
  amounts := by
    intro htrue
    have hold : g.hasPendingSource = true := by
      rw [hsource, Bool.and_eq_true] at htrue
      exact htrue.1
    obtain ⟨first, rest, hrun, hkept⟩ := h.amounts hold
    refine ⟨first, rest ++ [m], by rw [hrun, List.cons_append], ?_⟩
    rw [(hm htrue).2, List.foldl_append, hkept]
    rfl
  blocks := by
    obtain ⟨blocks, part, hcommitted, hall, hpart, hfresh⟩ := h.blocks
    refine ⟨blocks, part, hsame.committed.trans hcommitted, hall, ?_, ?_⟩
    · intro m' hm'
      exact (hpart m' hm').trans hposition.symm
    · intro hnil hlast hat'
      rw [hsame.hasLast] at hlast
      refine hfresh hnil hlast ⟨?_, ?_⟩
      · rw [← hsame.lastLine, hat'.1]
        exact hposition.1
      · rw [← hsame.lastCharacter, hat'.2]
        exact hposition.2

/-- a commit in the middle of a run -/
theorem Standing.commit (h : Standing g done run) (hok : g.commitPendingMapping = .ok g') :
    Standing g' done run ∧ g'.pendingMapping = g.pendingMapping ∧ g'.hasPendingSource = g.hasPendingSource := by
  rcases commit_ok h.lastLine hok with ⟨-, rfl⟩ | ⟨-, ms, rfl⟩
  · exact ⟨h, rfl, rfl⟩
  · refine ⟨⟨h.ne, h.pending, h.pendingLine, h.pendingLine, afterCommit_isLast ms h.source, h.position,
      h.sourceless, h.source, h.amounts, ?_⟩, rfl, rfl⟩
    obtain ⟨blocks, part, hcommitted, hall, hpart, -⟩ := h.blocks
    refine ⟨blocks, part ++ [g.pendingMapping], ?_, hall, ?_, ?_⟩
    · show g.committed ++ [g.pendingMapping] = _
      rw [hcommitted, List.append_assoc]
    · intro m hm
      rcases List.mem_append.1 hm with hm | hm
      · exact hpart m hm
      · rw [List.mem_singleton.1 hm]
        exact ⟨rfl, rfl⟩
    · intro hnil
      exact absurd hnil (List.append_ne_nil_of_right_ne_nil part (List.cons_ne_nil _ _))

/-! ## one call -/

theorem join_fields (g : Generator) (m : Mapping) : SameOutput g (g.join m) ∧
    (g.join m).hasPending = g.hasPending ∧ (g.join m).pendingGeneratedLine = g.pendingGeneratedLine ∧
    (g.join m).pendingGeneratedCharacter = g.pendingGeneratedCharacter ∧
    (g.join m).hasPendingSource = (g.hasPendingSource || m.isSourceMapping) := by
  cases hm : m.isSourceMapping with
  | true =>
    rw [join_eq g m hm]
    exact ⟨⟨rfl, rfl, rfl, rfl, ⟨rfl, rfl, rfl⟩, rfl⟩, rfl, rfl, rfl, (Bool.or_true _).symm⟩
  | false =>
    rw [join_sourceless g m hm]
    exact ⟨⟨rfl, rfl, rfl, rfl, ⟨rfl, rfl, rfl⟩, rfl⟩, rfl, rfl, rfl, (Bool.or_false _).symm⟩

theorem start_fields (g : Generator) (m : Mapping) : SameOutput g (g.start m) ∧
    (g.start m).hasPending = true ∧ (g.start m).pendingGeneratedLine = m.generatedLine ∧
    (g.start m).pendingGeneratedCharacter = m.generatedCharacter ∧
    (g.start m).hasPendingSource = m.isSourceMapping := by
  obtain ⟨⟨hcommitted, hlast, hline, hcharacter, hsource, hname⟩, hpending, hpendingLine, hpendingCharacter,
    hflag⟩ := join_fields (g.startPending m.generatedLine m.generatedCharacter) m
  exact ⟨⟨hcommitted, hlast, hline, hcharacter, hsource, hname⟩, hpending, hpendingLine, hpendingCharacter,
    hflag.trans (Bool.false_or _)⟩

/-- a source mapping at the position of the run -/
theorem addMapping_standing (h : Standing g done run) (hm : m.isSourceMapping = true)
    (hnew : g.isNewGeneratedPosition m.generatedLine m.generatedCharacter = false)
    (hsource : g.hasPendingSource = true)
    (hok : g.addMapping m.generatedLine m.generatedCharacter m.sourceIndex m.sourceLine m.sourceCharacter
      m.nameIndex = .ok g') : Standing g' done (run ++ [m]) := by
  have hat : SameGenerated g.pendingMapping m := by
    rw [Generator.isNewGeneratedPosition, h.pending, Bool.or_eq_false_iff, Bool.or_eq_false_iff,
      bne_eq_false_iff_eq, bne_eq_false_iff_eq] at hnew
    exact ⟨hnew.1.2, hnew.2⟩
  unfold Generator.addMapping at hok
  rw [hnew, Bool.false_or] at hok
  have hiff := goesBack_iff g m hm hsource
  split at hok
  · next hback =>
    obtain ⟨g1, hcommit, hok⟩ := (bind_eq_ok _ _ _).1 hok
    obtain ⟨hstanding, hpending1, hsource1⟩ := h.commit hcommit
    cases hok
    have hpending := start_pending g1 m hm
    obtain ⟨hsame, hhas, -, -, hflag⟩ := start_fields g1 m
    rw [← hpending1] at hat hiff
    refine hstanding.continue hsame hhas ?_ hat ?_ ?_
    · change SameGenerated (g1.start m).pendingMapping _
      rw [hpending]
      exact hat.symm
    · change (g1.start m).hasPendingSource = _
      rw [hflag, hsource1, hsource, Bool.true_and]
    · intro _
      change (g1.start m).pendingMapping.isSourceMapping = true ∧ (g1.start m).pendingMapping = _
      rw [hpending]
      exact ⟨hm, (if_pos (Or.inl (hiff.1 hback))).symm⟩
  · next hback =>
    cases hok
    have hpending := join_pending g m hm hsource hat (fun hgoes => hback (hiff.2 hgoes))
    obtain ⟨hsame, hhas, hline, hcharacter, hflag⟩ := join_fields g m
    refine h.continue hsame (hhas.trans h.pending) ⟨hline, hcharacter⟩ hat ?_ ?_
    · change (g.join m).hasPendingSource = _
      rw [hflag, hsource, hm]
      rfl
    · intro _
      change (g.join m).pendingMapping.isSourceMapping = true ∧ (g.join m).pendingMapping = _
      rw [hpending]
      obtain ⟨name, hname⟩ := keepName_fields g.pendingMapping m
      refine ⟨?_, rfl⟩
      rw [hname]
      exact hm

/-- a mapping at a new position -/
theorem addMapping_new (h : Stands g runs)
    (hnew : g.isNewGeneratedPosition m.generatedLine m.generatedCharacter = true)
    (hwell : g.hasPending = true → EndsWell g)
    (hok : g.addMapping m.generatedLine m.generatedCharacter m.sourceIndex m.sourceLine m.sourceCharacter
      m.nameIndex = .ok g') : ∃ g1, Ended g1 runs ∧ g' = g1.start m ∧
        g1.isNewGeneratedPosition m.generatedLine m.generatedCharacter = true := by
  unfold Generator.addMapping at hok
  rw [hnew, Bool.true_or, if_pos rfl] at hok
  obtain ⟨g1, hcommit, hok⟩ := (bind_eq_ok _ _ _).1 hok
  cases hok
  rcases h with ⟨hpending, -, hended, -⟩ | ⟨done, run, rfl, hstanding⟩
  · rcases commit_ok hended.lastLine hcommit with ⟨-, rfl⟩ | ⟨hcommits, -⟩
    · exact ⟨g1, hended, rfl, hnew⟩
    · rw [Generator.shouldCommitMapping, hpending, Bool.false_and] at hcommits
      cases hcommits
  · refine ⟨g1, commit_ends hstanding (hwell hstanding.pending) hcommit, rfl, ?_⟩
    rcases commit_ok hstanding.lastLine hcommit with ⟨-, rfl⟩ | ⟨-, ms, rfl⟩
    · exact hnew
    · exact hnew

/-! ## the runs of the calls -/

theorem addToRuns_same (h : Standing g done run) (hat : SameGenerated g.pendingMapping m) :
    addToRuns (done ++ [run]) m = done ++ [run ++ [m]] := by
  have hall : ∀ c ∈ run, SameGenerated c m := fun c hc => (h.position c hc).symm.trans hat
  rw [addToRuns, List.getLast?_concat]
  dsimp only
  rw [if_pos hall, List.dropLast_concat]

theorem addToRuns_new (h : Stands g runs)
    (hnew : g.isNewGeneratedPosition m.generatedLine m.generatedCharacter = true) :
    addToRuns runs m = runs ++ [[m]] := by
  rcases h with ⟨-, -, -, rfl⟩ | ⟨done, run, rfl, hstanding⟩
  · rfl
  · obtain ⟨first, rest, hrun⟩ := List.exists_cons_of_ne_nil hstanding.ne
    have hnot : ¬ ∀ c ∈ run, SameGenerated c m := by
      intro hall
      have hfirst : first ∈ run := by
        rw [hrun]
        exact List.mem_cons_self
      obtain ⟨hline, hcharacter⟩ := (hstanding.position first hfirst).trans (hall first hfirst)
      change g.pendingGeneratedLine = m.generatedLine at hline
      change g.pendingGeneratedCharacter = m.generatedCharacter at hcharacter
      rw [Generator.isNewGeneratedPosition, hstanding.pending, hline, hcharacter, bne_self_eq_false,
        bne_self_eq_false] at hnew
      cases hnew
    rw [addToRuns, List.getLast?_concat]
    dsimp only
    rw [if_neg hnot]

theorem Stands.line (h : Stands g runs) : 0 ≤ g.pendingGeneratedLine.toInt := by
  rcases h with ⟨-, -, hended, -⟩ | ⟨done, run, -, hstanding⟩
  · exact hended.pendingLine
  · exact hstanding.pendingLine

/-- the source and name tables play no part -/
theorem Stands.tables (h : Stands g runs) (rawSources sources names : List JsString)
    (sourceMap nameMap : Std.ExtTreeMap JsString Int64) (contents : List (Option JsString)) :
    Stands { g with
      rawSources := rawSources, sources := sources, sourceToSourceIndexMap := sourceMap
      sourcesContent := contents, names := names, nameToNameIndexMap := nameMap } runs := by
  have hlastIs : LastIs g → LastIs { g with
      rawSources := rawSources, sources := sources, sourceToSourceIndexMap := sourceMap
      sourcesContent := contents, names := names, nameToNameIndexMap := nameMap } :=
    SameOutput.lastIs ⟨rfl, rfl, rfl, rfl, ⟨rfl, rfl, rfl⟩, rfl⟩
  rcases h with ⟨hpending, hlast, hended, hruns⟩ | ⟨done, run, hruns, h⟩
  · exact Or.inl ⟨hpending, hlast, ⟨hended.lastLine, hended.pendingLine, hlastIs hended.lastIs, hended.last,
      hended.blocks⟩, hruns⟩
  · exact Or.inr ⟨done, run, hruns, ⟨h.ne, h.pending, h.lastLine, h.pendingLine, hlastIs h.lastIs, h.position,
      h.sourceless, h.source, h.amounts, h.blocks⟩⟩

/-- a position that is not new is that of the open run -/
theorem Stands.open (h : Stands g runs)
    (hnew : g.isNewGeneratedPosition m.generatedLine m.generatedCharacter = false) :
    ∃ done run, runs = done ++ [run] ∧ Standing g done run ∧ SameGenerated g.pendingMapping m := by
  rcases h with ⟨hpending, -⟩ | ⟨done, run, hruns, hstanding⟩
  · rw [Generator.isNewGeneratedPosition, hpending] at hnew
    cases hnew
  · refine ⟨done, run, hruns, hstanding, ?_⟩
    rw [Generator.isNewGeneratedPosition, hstanding.pending, Bool.or_eq_false_iff, Bool.or_eq_false_iff,
      bne_eq_false_iff_eq, bne_eq_false_iff_eq] at hnew
    exact ⟨hnew.1.2, hnew.2⟩

/-- the two calls with a source, behind their checks -/
theorem addSourced_stands (h : Stands g runs) (hm : m.isSourceMapping = true)
    (hline : 0 ≤ m.generatedLine.toInt)
    (hwell : g.hasPending = true →
      g.isNewGeneratedPosition m.generatedLine m.generatedCharacter = true → EndsWell g)
    (hok : (if g.keepsPendingMapping m.generatedLine m.generatedCharacter then Except.ok g
      else g.addMapping m.generatedLine m.generatedCharacter m.sourceIndex m.sourceLine m.sourceCharacter
        m.nameIndex) = .ok g') : Stands g' (addToRuns runs m) := by
  cases hnew : g.isNewGeneratedPosition m.generatedLine m.generatedCharacter with
  | true =>
    rw [Generator.keepsPendingMapping, hnew, Bool.not_true, Bool.and_false, Bool.false_and,
      if_neg Bool.false_ne_true] at hok
    obtain ⟨g1, hended, rfl, hnew1⟩ := addMapping_new h hnew (fun hpending => hwell hpending hnew) hok
    obtain ⟨hsame, hhas, -, -, hflag⟩ := start_fields g1 m
    have hpending := start_pending g1 m hm
    rw [addToRuns_new h hnew]
    refine Or.inr ⟨runs, [m], rfl, hended.start hsame hnew1 hline hhas ?_ hflag fun _ => hpending⟩
    rw [hpending]
    exact ⟨rfl, rfl⟩
  | false =>
    obtain ⟨done, run, rfl, hstanding, hat⟩ := h.open hnew
    rw [addToRuns_same hstanding hat]
    refine Or.inr ⟨done, run ++ [m], rfl, ?_⟩
    rw [Generator.keepsPendingMapping, hnew, hstanding.pending] at hok
    cases hsource : g.hasPendingSource with
    | true =>
      rw [hsource] at hok
      exact addMapping_standing hstanding hm hnew hsource hok
    | false =>
      rw [hsource] at hok
      cases hok
      refine hstanding.continue ⟨rfl, rfl, rfl, rfl, ⟨rfl, rfl, rfl⟩, rfl⟩ hstanding.pending ⟨rfl, rfl⟩ hat ?_ ?_
      · rw [hsource]
        rfl
      · intro htrue
        rw [hsource] at htrue
        cases htrue

theorem nonneg_of_not_lt (h : Stands g runs) {line : Int64} (hline : ¬ line < g.pendingGeneratedLine) :
    0 ≤ line.toInt := by
  have hpending := h.line
  rw [Int64.lt_iff_toInt_lt, not_lt] at hline
  omega

theorem ne_of_not_neg {x : Int64} (h : ¬ x < 0) : x ≠ -1 := by
  intro heq
  rw [heq] at h
  exact h (by decide)

theorem addGenerated_stands (h : Stands g runs) (gl gc : Int64)
    (hwell : g.hasPending = true → g.isNewGeneratedPosition gl gc = true → EndsWell g)
    (hok : g.addGeneratedMapping gl gc = .ok g') :
    Stands g' (addToRuns runs ⟨gl, gc, missingSource, missingLineOrColumn, missingUtf16Column, missingName⟩) := by
  obtain ⟨_, hline, hok⟩ := (bind_eq_ok _ _ _).1 hok
  obtain ⟨_, -, hok⟩ := (bind_eq_ok _ _ _).1 hok
  obtain ⟨g2, hadd, hok⟩ := (bind_eq_ok _ _ _).1 hok
  rw [failIf_eq_ok] at hline
  cases hok
  let m : Mapping := ⟨gl, gc, missingSource, missingLineOrColumn, missingUtf16Column, missingName⟩
  have hm : m.isSourceMapping = false := rfl
  have hnot : m.isSourceMapping ≠ true := by
    rw [hm]
    exact Bool.false_ne_true
  cases hnew : g.isNewGeneratedPosition gl gc with
  | true =>
    obtain ⟨g1, hended, heq, hnew1⟩ := addMapping_new (m := m) h hnew (fun hpending => hwell hpending hnew) hadd
    obtain ⟨hsame, hhas, hline1, hcharacter1, -⟩ := start_fields g1 m
    rw [← heq] at hsame hhas hline1 hcharacter1
    rw [addToRuns_new (m := m) h hnew]
    refine Or.inr ⟨runs, [m], rfl, ?_⟩
    exact hended.start ⟨hsame.committed, hsame.hasLast, hsame.lastLine, hsame.lastCharacter, hsame.lastSource,
      hsame.lastName⟩ hnew1
      (nonneg_of_not_lt h hline) hhas ⟨hline1, hcharacter1⟩ hm.symm fun htrue => absurd htrue hnot
  | false =>
    obtain ⟨done, run, rfl, hstanding, hat⟩ := h.open (m := m) hnew
    rw [addToRuns_same (m := m) hstanding hat]
    have hsame : g2 = g := by
      unfold Generator.addMapping at hadd
      rw [hnew] at hadd
      have hjoin := join_sourceless g m hm
      change g.setPendingSource sourceIndexNotSet notSet notSetUtf16 nameIndexNotSet = g at hjoin
      rw [hjoin] at hadd
      cases hadd
      rfl
    rw [hsame]
    refine Or.inr ⟨done, run ++ [m], rfl, ?_⟩
    refine hstanding.continue ⟨rfl, rfl, rfl, rfl, ⟨rfl, rfl, rfl⟩, rfl⟩ hstanding.pending ⟨rfl, rfl⟩ hat ?_ ?_
    · rw [hm, Bool.and_false]
    · intro htrue
      cases htrue

end

section
variable (relative : JsString → JsString)

/-- the runs, after a call -/
def afterCall (runs : List (List Mapping)) (c : Call) : List (List Mapping) :=
  (c.mapping.map (addToRuns runs)).getD runs

/-- **Every call that is made joins the open run or starts the next one.** -/
theorem call_stands {g g' : Generator} {runs : List (List Mapping)} {c : Call} (h : Stands g runs)
    (hc : c ≠ .rawSourceMap) (hwell : StartsRun relative g c → EndsWell g)
    (hok : g.call relative c = .ok g') : Stands g' (afterCall runs c) := by
  have hstarts : ∀ m, c.mapping = some m → g.hasPending = true →
      g.isNewGeneratedPosition m.generatedLine m.generatedCharacter = true → EndsWell g :=
    fun m hmapping hpending hnew => hwell ⟨by rw [hok]; rfl, hpending, m, hmapping, hnew⟩
  cases c with
  | addSource fileName =>
    cases hok
    show Stands _ runs
    unfold Generator.addSource
    dsimp only
    split
    · exact h
    · exact h.tables _ _ _ _ _ _
  | setSourceContent sourceIndex content =>
    simp only [Generator.call, Generator.setSourceContent] at hok
    split at hok
    · cases hok
    · cases hok
      exact h.tables _ _ _ _ _ _
  | addName name =>
    cases hok
    show Stands _ runs
    unfold Generator.addName
    split
    · exact h
    · exact h.tables _ _ _ _ _ _
  | addGeneratedMapping gl gc => exact addGenerated_stands h gl gc (hstarts _ rfl) hok
  | addSourceMapping gl gc si sl sc =>
    obtain ⟨u, hcheck, hok⟩ := (bind_eq_ok _ _ _).1 hok
    obtain ⟨hline, -, hsi, hsl, hsc⟩ := checkSourceMapping_eq_ok g gl gc si sl sc u hcheck
    exact addSourced_stands (m := ⟨gl, gc, si, sl, sc, missingName⟩) h
      ((isSourceMapping_iff _).2 ⟨ne_of_not_neg hsi, ne_of_not_neg hsl, ne_of_not_neg hsc⟩)
      (nonneg_of_not_lt h hline) (hstarts _ rfl) hok
  | addNamedSourceMapping gl gc si sl sc ni =>
    obtain ⟨u, hcheck, hok⟩ := (bind_eq_ok _ _ _).1 hok
    obtain ⟨_, -, hok⟩ := (bind_eq_ok _ _ _).1 hok
    obtain ⟨hline, -, hsi, hsl, hsc⟩ := checkSourceMapping_eq_ok g gl gc si sl sc u hcheck
    exact addSourced_stands (m := ⟨gl, gc, si, sl, sc, ni⟩) h
      ((isSourceMapping_iff _).2 ⟨ne_of_not_neg hsi, ne_of_not_neg hsl, ne_of_not_neg hsc⟩)
      (nonneg_of_not_lt h hline) (hstarts _ rfl) hok
  | rawSourceMap => exact absurd rfl hc

/-- a call that is attempted is made, or leaves everything as it is -/
theorem attempt_ok {g g' : Generator} {c : Call} {made : List Call}
    (h : g.attempt relative c = .ok (g', made)) :
    (g.call relative c = .ok g' ∧ made = [c]) ∨ (g' = g ∧ made = []) := by
  unfold Generator.attempt at h
  split at h
  · next hok =>
    cases h
    exact Or.inl ⟨hok, rfl⟩
  · cases h
    exact Or.inr ⟨rfl, rfl⟩
  · cases h

theorem attempts_stands {g g' : Generator} {runs : List (List Mapping)} {cs made : List Call}
    (h : Stands g runs) (hcs : Call.rawSourceMap ∉ cs) (hwell : RunsEndWell relative g cs)
    (hok : g.attempts relative cs = .ok (g', made)) :
    Stands g' ((made.filterMap Call.mapping).foldl addToRuns runs) ∧ (g'.hasPending = true → EndsWell g') := by
  induction cs generalizing g runs made with
  | nil =>
    cases hok
    exact ⟨h, hwell⟩
  | cons c cs ih =>
    obtain ⟨⟨g1, first⟩, hfirst, hok⟩ := (bind_eq_ok _ _ _).1 hok
    obtain ⟨⟨g2, rest⟩, hrest, hok⟩ := (bind_eq_ok _ _ _).1 hok
    cases hok
    rw [List.mem_cons, not_or] at hcs
    obtain ⟨hc, hcs⟩ := hcs
    have hnext := hwell.2 (g1, first) (by rw [hfirst]; rfl)
    rcases attempt_ok relative hfirst with ⟨hcall, rfl⟩ | ⟨rfl, rfl⟩
    · have hstands := call_stands relative h (fun heq => hc heq.symm) hwell.1 hcall
      have hafter : (([c] ++ rest).filterMap Call.mapping).foldl addToRuns runs =
          (rest.filterMap Call.mapping).foldl addToRuns (afterCall runs c) := by
        rw [List.filterMap_append, List.foldl_append, afterCall]
        cases hmapping : c.mapping with
        | none =>
          rw [List.filterMap_cons_none hmapping]
          rfl
        | some m =>
          rw [List.filterMap_cons_some hmapping]
          rfl
      rw [hafter]
      exact ih hstands hcs hnext hrest
    · exact ih h hcs hnext hrest

/-- the calls that were made are a run of their own -/
theorem attempts_run {g g' : Generator} {cs made : List Call} (h : g.attempts relative cs = .ok (g', made)) :
    g.run relative made = .ok g' := by
  induction cs generalizing g made with
  | nil =>
    cases h
    rfl
  | cons c cs ih =>
    obtain ⟨⟨g1, first⟩, hfirst, h⟩ := (bind_eq_ok _ _ _).1 h
    obtain ⟨⟨g2, rest⟩, hrest, h⟩ := (bind_eq_ok _ _ _).1 h
    cases h
    rcases attempt_ok relative hfirst with ⟨hcall, rfl⟩ | ⟨rfl, rfl⟩
    · exact (bind_eq_ok _ _ _).2 ⟨g1, hcall, ih hrest⟩
    · exact ih hrest

theorem stands_newGenerator (file sourceRoot : JsString) : Stands (newGenerator file sourceRoot) [] := by
  refine Or.inl ⟨rfl, rfl, ⟨Int.le_refl 0, Int.le_refl 0, ?_, ?_, [], rfl, List.Forall₂.nil⟩, rfl⟩
  · intro m hm
    cases hm
  · intro hlast
    cases hlast

/-- **Every run has a block of the output**, at whose end stands the mapping it asks for unless a name is
carried over; if the values are in range, the output is what the mappings decode to. -/
theorem runs_committed (file sourceRoot : JsString) (cs made : List Call) (g g' : Generator) (map : RawSourceMap)
    (hcs : Call.rawSourceMap ∉ cs) (hok : (newGenerator file sourceRoot).attempts relative cs = .ok (g, made))
    (hraw : g.rawSourceMap = .ok (map, g'))
    (hwell : RunsEndWell relative (newGenerator file sourceRoot) cs) :
    (∃ blocks, g'.committed = blocks.flatten ∧ List.Forall₂ RunOutput (runsOf made) blocks) ∧
      ((∀ c ∈ made, c.Bounded) → decodeAll map.mappings = (g'.committed, none)) := by
  obtain ⟨hstands, hlast⟩ := attempts_stands relative (stands_newGenerator file sourceRoot) hcs hwell hok
  change Stands g (runsOf made) at hstands
  obtain ⟨g1, hcommit, hret⟩ := (bind_eq_ok _ _ _).1 hraw
  constructor
  · have hended : Ended g1 (runsOf made) := by
      rcases hstands with ⟨hpending, -, hended, -⟩ | ⟨done, run, hruns, hstanding⟩
      · rcases commit_ok hended.lastLine hcommit with ⟨-, rfl⟩ | ⟨hcommits, -⟩
        · exact hended
        · rw [Generator.shouldCommitMapping, hpending, Bool.false_and] at hcommits
          cases hcommits
      · rw [hruns]
        exact commit_ends hstanding (hlast hstanding.pending) hcommit
    cases hret
    exact hended.blocks
  · intro hbounded
    have hinv := run_inv relative _ g (inv_newGenerator file sourceRoot) made hbounded
      (attempts_run relative hok)
    obtain ⟨g2, hok2, hinv2, -⟩ := commitPendingMapping_inv g hinv
    rw [hcommit] at hok2
    cases hok2
    cases hret
    exact hinv2.decodeAll_mappings

end

/-! ## runs of one position -/

/-- a source position is committed and taken up again, and then a mapping without a source is asked
for -/
def staleCalls : List Call :=
  [.addSource [0x61], .addSourceMapping 0 0 0 5 0, .addSourceMapping 0 0 0 3 0, .addSourceMapping 0 0 0 5 0,
    .addGeneratedMapping 0 0]

/-- the mapping without a source is left out -/
theorem runs_committed_stale :
    ¬ ∀ (cs made : List Call) (g g' : Generator) (map : RawSourceMap), Call.rawSourceMap ∉ cs →
      (newGenerator [0x6F] []).attempts id cs = .ok (g, made) → g.rawSourceMap = .ok (map, g') →
      ∃ blocks, (decodeAll map.mappings).1 = blocks.flatten ∧
        List.Forall₂ (fun run block => ∃ last, block.getLast? = some last ∧ RunMeets run last)
          (runsOf made) blocks := by
  intro h
  obtain ⟨g, g', map, hok, hraw, hdecoded⟩ : ∃ g g' map,
      (newGenerator [0x6F] []).attempts id staleCalls = .ok (g, staleCalls) ∧
      g.rawSourceMap = .ok (map, g') ∧ (decodeAll map.mappings).1 = [⟨0, 0, 0, 5, 0, missingName⟩] :=
    ⟨_, _, _, rfl, rfl, by decide +kernel⟩
  obtain ⟨blocks, hblocks, hmeets⟩ := h staleCalls staleCalls g g' map (by decide) hok hraw
  have hruns : runsOf staleCalls = [[⟨0, 0, 0, 5, 0, missingName⟩, ⟨0, 0, 0, 3, 0, missingName⟩,
      ⟨0, 0, 0, 5, 0, missingName⟩,
      ⟨0, 0, missingSource, missingLineOrColumn, missingUtf16Column, missingName⟩]] := by decide
  rw [hruns, List.forall₂_cons_left_iff] at hmeets
  obtain ⟨block, rest, ⟨last, hlast, hrun⟩, hrest, rfl⟩ := hmeets
  rw [List.forall₂_nil_left_iff.1 hrest, List.flatten_singleton, hdecoded] at hblocks
  rw [← hblocks] at hlast
  have hsource : last.isSourceMapping = true := by
    rw [← Option.some.inj hlast]
    decide
  have hnone := hrun.generated.2 ⟨⟨0, 0, missingSource, missingLineOrColumn, missingUtf16Column, missingName⟩,
    by decide, by decide⟩
  rw [hsource] at hnone
  cases hnone

/-- a position that goes back in the middle of its run, an error, and a mapping without a source -/
def twoRuns : List Call :=
  [.addSource [0x61], .addSourceMapping 0 0 0 5 0, .addSourceMapping 0 0 0 3 0, .addSourceMapping 0 7 1 3 0,
    .addGeneratedMapping 0 4]

theorem runs_committed_twoRuns : ∃ (g g' : Generator) (map : RawSourceMap),
    (newGenerator [0x6F] []).attempts id twoRuns = .ok (g, twoRuns.eraseIdx 3) ∧
    (∃ blocks, g'.committed = blocks.flatten ∧
      List.Forall₂ RunOutput (runsOf (twoRuns.eraseIdx 3)) blocks) ∧
      ((∀ c ∈ twoRuns.eraseIdx 3, c.Bounded) → decodeAll map.mappings = (g'.committed, none)) := by
  obtain ⟨g, g', map, hok, hraw⟩ : ∃ g g' map,
      (newGenerator [0x6F] []).attempts id twoRuns = .ok (g, twoRuns.eraseIdx 3) ∧
      g.rawSourceMap = .ok (map, g') := ⟨_, _, _, rfl, rfl⟩
  exact ⟨g, g', map, hok, runs_committed id [0x6F] [] twoRuns (twoRuns.eraseIdx 3) g g' map (by decide) hok hraw
    (by decide +kernel)⟩

end Tsr.Sourcemap
