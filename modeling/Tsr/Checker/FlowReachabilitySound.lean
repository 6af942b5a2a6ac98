import Tsr.Checker.FlowReachability
import Tsr.Lib.Height
import Tsr.Lib.Result

/-!
# Checker: the memos of the reachability of flow nodes

* `Plain`               the answers of the traversal without memos;
* `Good`, `Right`       the memos hold such answers outside reduce labels, and so did the answers that were
                        taken from the slot under the labels then in force;
* `walk_sound`          a traversal whose slot reads were right answers as `Plain` and keeps `Good`;
* `walk_total`          without cycles a traversal ends;
* `runs_plain`          the main result, `stale_slot` the run in which the slot is wrong.
-/

namespace Tsr.Checker.FlowReachability

open Tsr.Lib.Height Tsr.Lib.Result

section
variable {A : Type} {graph : Graph A} {sem : Semantics A}

/-! ## the traversal without memos -/

variable (graph sem) in
/-- an answer of the traversal without memos -/
def Plain (flow : FlowId) (reduced : List ReduceLabel) (result : Result) : Prop :=
  ∃ fuel, plain graph sem fuel flow reduced = some result

variable (graph sem) in
def PlainAny (list : List FlowId) (reduced : List ReduceLabel) (result : Result) : Prop :=
  ∃ fuel, plainAny (fun branch => plain graph sem fuel branch reduced) list = some result

theorem plainAny_mono {visit visit' : FlowId → Option Result}
    (h : ∀ branch result, visit branch = some result → visit' branch = some result)
    (list : List FlowId) (result : Result) (hany : plainAny visit list = some result) :
    plainAny visit' list = some result := by
  induction list with
  | nil => exact hany
  | cons branch branches ih =>
    obtain ⟨first, hfirst, hrest⟩ := Option.bind_eq_some_iff.1 hany
    refine Option.bind_eq_some_iff.2 ⟨first, h branch first hfirst, ?_⟩
    match first with
    | .error error => exact hrest
    | .ok true => exact hrest
    | .ok false => exact ih hrest

theorem plain_succ (fuel : Nat) (flow : FlowId) (reduced : List ReduceLabel) (result : Result)
    (h : plain graph sem fuel flow reduced = some result) :
    plain graph sem (fuel + 1) flow reduced = some result := by
  induction fuel generalizing flow reduced result with
  | zero => cases h
  | succ fuel ih =>
    rw [plain] at h ⊢
    split at h
    · exact h
    · exact h
    · exact ih _ _ _ h
    · exact plainAny_mono (fun branch result => ih branch reduced result) _ _ h
    · exact h
    · exact ih _ _ _ h
    · split at h
      · exact h
      · exact h
      · exact h
      · exact ih _ _ _ h

theorem plain_mono {fuel fuel' : Nat} (hle : fuel ≤ fuel') {flow : FlowId} {reduced : List ReduceLabel}
    {result : Result} (h : plain graph sem fuel flow reduced = some result) :
    plain graph sem fuel' flow reduced = some result := by
  induction hle with
  | refl => exact h
  | step _ ih => exact plain_succ _ _ _ _ ih

theorem PlainAny.nil (reduced : List ReduceLabel) : PlainAny graph sem [] reduced (.ok false) :=
  ⟨0, rfl⟩

theorem PlainAny.stop {branch : FlowId} {reduced : List ReduceLabel} {result : Result}
    (branches : List FlowId) (h : Plain graph sem branch reduced result) (hstop : result ≠ .ok false) :
    PlainAny graph sem (branch :: branches) reduced result := by
  obtain ⟨fuel, h⟩ := h
  refine ⟨fuel, Option.bind_eq_some_iff.2 ⟨result, h, ?_⟩⟩
  match result with
  | .error error => rfl
  | .ok true => rfl
  | .ok false => exact absurd rfl hstop

theorem PlainAny.next {branch : FlowId} {branches : List FlowId} {reduced : List ReduceLabel}
    {result : Result} (h : Plain graph sem branch reduced (.ok false))
    (hrest : PlainAny graph sem branches reduced result) :
    PlainAny graph sem (branch :: branches) reduced result := by
  obtain ⟨fuel, h⟩ := h
  obtain ⟨fuel', hrest⟩ := hrest
  refine ⟨max fuel fuel', Option.bind_eq_some_iff.2 ⟨.ok false, ?_, ?_⟩⟩
  · exact plain_mono (Nat.le_max_left _ _) h
  · exact plainAny_mono (fun _ _ => plain_mono (Nat.le_max_right _ _)) _ _ hrest

/-- what follows an answer of the type checker -/
inductive PlainAsked (graph : Graph A) (sem : Semantics A) (reduced : List ReduceLabel) :
    Except Error Bool → Except Error FlowId → Result → Prop
  | error (error : Error) (next : Except Error FlowId) : PlainAsked graph sem reduced (.error error) next (.error error)
  | yes (next : Except Error FlowId) : PlainAsked graph sem reduced (.ok true) next (.ok false)
  | missing (error : Error) : PlainAsked graph sem reduced (.ok false) (.error error) (.error error)
  | no {next : FlowId} {result : Result} (h : Plain graph sem next reduced result) :
      PlainAsked graph sem reduced (.ok false) (.ok next) result

/-- what follows a move -/
inductive PlainMove (graph : Graph A) (sem : Semantics A) (reduced : List ReduceLabel) :
    Except Error (Move A) → Result → Prop
  | error (error : Error) : PlainMove graph sem reduced (.error error) (.error error)
  | answer (reachable : Bool) : PlainMove graph sem reduced (.ok (.answer reachable)) (.ok reachable)
  | goTo {next : FlowId} {result : Result} (h : Plain graph sem next reduced result) :
      PlainMove graph sem reduced (.ok (.goTo next)) result
  | branches {list : List FlowId} {result : Result} (h : PlainAny graph sem list reduced result) :
      PlainMove graph sem reduced (.ok (.branches list)) result
  | reduceError (label : ReduceLabel) (error : Error) :
      PlainMove graph sem reduced (.ok (.reduce label (.error error))) (.error error)
  | reduce {label : ReduceLabel} {next : FlowId} {result : Result}
      (h : Plain graph sem next (label :: reduced) result) :
      PlainMove graph sem reduced (.ok (.reduce label (.ok next))) result
  | ask {question : Question A} {next : Except Error FlowId} {result : Result}
      (h : PlainAsked graph sem reduced (sem.answer question) next result) :
      PlainMove graph sem reduced (.ok (.ask question next)) result

theorem Plain.of_move {flow : FlowId} {reduced : List ReduceLabel} {move : Except Error (Move A)}
    {result : Result} (hmove : graph.move reduced flow = move)
    (h : PlainMove graph sem reduced move result) : Plain graph sem flow reduced result := by
  suffices hstep : ∃ fuel, plain graph sem (fuel + 1) flow reduced = some result by
    obtain ⟨fuel, hstep⟩ := hstep
    exact ⟨fuel + 1, hstep⟩
  conv =>
    enter [1, fuel]
    rw [plain, hmove]
  cases h with
  | error error => exact ⟨0, rfl⟩
  | answer reachable => exact ⟨0, rfl⟩
  | goTo h => exact h
  | branches h => exact h
  | reduceError label error => exact ⟨0, rfl⟩
  | reduce h => exact h
  | @ask question next result h =>
    generalize hanswer : sem.answer question = answer at h
    simp only [hanswer]
    cases h with
    | error error next => exact ⟨0, rfl⟩
    | yes next => exact ⟨0, rfl⟩
    | missing error => exact ⟨0, rfl⟩
    | no h => exact h

/-! ## what a traversal does to the memos -/

variable (graph sem) in
/-- both memos hold answers of the traversal without memos, outside any reduce label -/
structure Good (s : State) : Prop where
  table : ∀ flow result, s.reachable flow = some result → Plain graph sem flow [] (.ok result)
  slot : ∀ flow result, s.lastReachable = some (flow, result) → Plain graph sem flow [] (.ok result)

variable (graph sem) in
/-- the slot was right each time it answered under a reduce label -/
def Right (s : State) : Prop := ∀ read ∈ s.reads, Plain graph sem read.flow read.reduced (.ok read.result)

theorem Right.before {s s' : State} (h : Right graph sem s') (hgrows : s.reads <:+ s'.reads) :
    Right graph sem s := by
  intro read hread
  exact h read (hgrows.mem hread)

theorem good_empty : Good graph sem {} := by
  constructor
  · intro flow result h
    cases h
  · intro flow result h
    cases h

theorem Good.cleared {s : State} (h : Good graph sem s) : Good graph sem { s with lastReachable := none } := by
  refine ⟨h.table, ?_⟩
  intro flow result hslot
  cases hslot

theorem slot_eq_some {s : State} {flow : FlowId} {result : Bool} (h : s.slot flow = some result) :
    s.lastReachable = some (flow, result) := by
  obtain ⟨⟨last, lastResult⟩, hlast, h⟩ := Option.bind_eq_some_iff.1 h
  change (if last = flow then some lastResult else none) = some result at h
  split at h
  · rename_i heq
    cases h
    rw [hlast, heq]
  · cases h

variable (graph sem) in
/-- the reads only grow; if they were right, the memos stay good and the answer is the one without memos -/
structure Sound (s : State) (answers : Result → Prop) (result : Result) (s' : State) : Prop where
  grows : s.reads <:+ s'.reads
  good : Right graph sem s' → Good graph sem s → Good graph sem s' ∧ answers result

theorem Sound.mono {s s' : State} {answers answers' : Result → Prop} {result : Result}
    (h : Sound graph sem s answers result s') (himp : answers result → answers' result) :
    Sound graph sem s answers' result s' :=
  ⟨h.grows, fun hright hgood => (h.good hright hgood).imp_right himp⟩

theorem Sound.same {s : State} {answers : Result → Prop} {result : Result} (h : answers result) :
    Sound graph sem s answers result s :=
  ⟨List.suffix_refl _, fun _ hgood => ⟨hgood, h⟩⟩

theorem Sound.after {s s' s'' : State} {answers answers' : Result → Prop} {result result' : Result}
    (h : Sound graph sem s answers result s') (h' : Sound graph sem s' answers' result' s'') :
    Sound graph sem s (fun r => answers result ∧ answers' r) result' s'' := by
  refine ⟨h.grows.trans h'.grows, ?_⟩
  intro hright hgood
  obtain ⟨hgood, hanswer⟩ := h.good (hright.before h'.grows) hgood
  obtain ⟨hgood, hanswer'⟩ := h'.good hright hgood
  exact ⟨hgood, hanswer, hanswer'⟩

/-- clearing the slot first does no harm -/
theorem Sound.ofCleared {s s' : State} {answers : Result → Prop} {result : Result}
    (h : Sound graph sem { s with lastReachable := none } answers result s') :
    Sound graph sem s answers result s' :=
  ⟨h.grows, fun hright hgood => h.good hright hgood.cleared⟩

theorem sound_slot {s : State} {flow : FlowId} (reduced : List ReduceLabel) {result : Bool}
    (h : s.slot flow = some result) :
    Sound graph sem s (Plain graph sem flow reduced) (.ok result) (s.read flow reduced result) := by
  by_cases hreduced : reduced = []
  · unfold State.read
    rw [if_pos hreduced]
    refine ⟨List.suffix_refl _, ?_⟩
    intro _ hgood
    rw [hreduced]
    exact ⟨hgood, hgood.slot flow result (slot_eq_some h)⟩
  · unfold State.read
    rw [if_neg hreduced]
    refine ⟨List.suffix_cons _ _, ?_⟩
    intro hright hgood
    exact ⟨⟨hgood.table, hgood.slot⟩, hright _ List.mem_cons_self⟩

variable (graph sem) in
/-- every node passed on the way has the answer -/
def AllPlain (passed passed' : List FlowId) (result : Result) : Prop :=
  ∀ reachable, result = .ok reachable → ∀ flow ∈ passed', flow ∈ passed ∨ Plain graph sem flow [] (.ok reachable)

theorem AllPlain.refl (passed : List FlowId) (result : Result) : AllPlain graph sem passed passed result :=
  fun _ _ _ hmem => Or.inl hmem

theorem AllPlain.pass {flow : FlowId} {reduced : List ReduceLabel} {passed passed' : List FlowId}
    {result : Result} (hplain : Plain graph sem flow reduced result)
    (h : AllPlain graph sem (if reduced = [] then passed ++ [flow] else passed) passed' result) :
    AllPlain graph sem passed passed' result := by
  intro reachable hresult other hother
  split at h
  · rename_i hreduced
    rcases h reachable hresult other hother with hmem | hmem
    · rcases List.mem_append.1 hmem with hmem | hmem
      · exact Or.inl hmem
      · rw [List.mem_singleton.1 hmem, ← hresult, ← hreduced]
        exact Or.inr hplain
    · exact Or.inr hmem
  · exact h reachable hresult other hother

theorem Good.insertAll {s : State} (h : Good graph sem s) {passed : List FlowId} {result : Bool}
    (hpassed : ∀ flow ∈ passed, Plain graph sem flow [] (.ok result)) :
    Good graph sem (s.insertAll passed result) := by
  refine ⟨?_, h.slot⟩
  intro flow reachable htable
  change (if flow ∈ passed then some result else s.reachable flow) = some reachable at htable
  split at htable
  · rename_i hmem
    cases htable
    exact hpassed flow hmem
  · exact h.table flow reachable htable

variable (graph sem) in
/-- what a call of `walk` has done -/
def WalkSound (s : State) (flow : FlowId) (reduced : List ReduceLabel) (passed : List FlowId)
    (out : Result × List FlowId × State) : Prop :=
  Sound graph sem s (fun r => Plain graph sem flow reduced r ∧ AllPlain graph sem passed out.2.1 r) out.1 out.2.2

theorem WalkSound.finish {s : State} {flow : FlowId} {reduced : List ReduceLabel}
    {out : Result × List FlowId × State} (h : WalkSound graph sem s flow reduced [] out) :
    Sound graph sem s (Plain graph sem flow reduced) (finish out).1 (finish out).2 := by
  obtain ⟨result, passed, s'⟩ := out
  match result with
  | .error error => exact h.mono And.left
  | .ok reachable =>
    refine ⟨h.grows, ?_⟩
    intro hright hgood
    obtain ⟨hgood, hplain, hpassed⟩ := h.good hright hgood
    refine ⟨hgood.insertAll ?_, hplain⟩
    intro flow hmem
    exact (hpassed reachable rfl flow hmem).resolve_left List.not_mem_nil

theorem anyBranch_sound {visit : FlowId → State → Option (Result × State)} {reduced : List ReduceLabel}
    (hvisit : ∀ branch s result s', visit branch s = some (result, s') →
      Sound graph sem s (Plain graph sem branch reduced) result s')
    (list : List FlowId) (s : State) (result : Result) (s' : State)
    (h : anyBranch visit list s = some (result, s')) :
    Sound graph sem s (PlainAny graph sem list reduced) result s' := by
  induction list generalizing s with
  | nil =>
    cases h
    exact Sound.same (PlainAny.nil reduced)
  | cons branch branches ih =>
    obtain ⟨⟨first, s₁⟩, hfirst, hrest⟩ := Option.bind_eq_some_iff.1 h
    have hsound := hvisit branch s first s₁ hfirst
    match first with
    | .error error =>
      cases hrest
      exact hsound.mono fun hplain => PlainAny.stop branches hplain nofun
    | .ok true =>
      cases hrest
      exact hsound.mono fun hplain => PlainAny.stop branches hplain nofun
    | .ok false => exact (hsound.after (ih s₁ hrest)).mono fun ⟨hplain, hany⟩ => PlainAny.next hplain hany

variable (graph sem) in
/-- the same for a question and the queries behind it -/
structure Keeps (s s' : State) : Prop where
  grows : s.reads <:+ s'.reads
  good : Right graph sem s' → Good graph sem s → Good graph sem s'

theorem Sound.keeps {s s' : State} {answers : Result → Prop} {result : Result}
    (h : Sound graph sem s answers result s') : Keeps graph sem s s' :=
  ⟨h.grows, fun hright hgood => (h.good hright hgood).1⟩

theorem Keeps.trans {s s' s'' : State} (h : Keeps graph sem s s') (h' : Keeps graph sem s' s'') :
    Keeps graph sem s s'' :=
  ⟨h.grows.trans h'.grows, fun hright hgood => h'.good hright (h.good (hright.before h'.grows) hgood)⟩

theorem Keeps.sound {s s' s'' : State} {answers : Result → Prop} {result : Result}
    (h : Keeps graph sem s s') (h' : Sound graph sem s' answers result s'') :
    Sound graph sem s answers result s'' :=
  ⟨h.grows.trans h'.grows, fun hright hgood => h'.good hright (h.good (hright.before h'.grows) hgood)⟩

theorem walk_sound {ask : Question A → State → Option State} 
    (hask : ∀ question s s', ask question s = some s' → Keeps graph sem s s') (fuel : Nat)
    (flow : FlowId) (reduced : List ReduceLabel) (passed : List FlowId) (s : State)
    (out : Result × List FlowId × State) (h : walk graph sem ask fuel flow reduced passed s = some out) :
    WalkSound graph sem s flow reduced passed out := by
  induction fuel generalizing flow reduced passed s out with
  | zero => cases h
  | succ fuel ih =>
    rw [walk] at h
    split at h
    · rename_i result hslot
      cases h
      exact (sound_slot reduced hslot).mono fun hplain => ⟨hplain, AllPlain.refl passed _⟩
    split at h
    · rename_i result htable
      cases h
      split at htable
      · rename_i hreduced
        refine ⟨List.suffix_refl _, ?_⟩
        intro _ hgood
        rw [hreduced]
        exact ⟨hgood, hgood.table flow result htable, AllPlain.refl passed _⟩
      · cases htable
    -- the node is passed, and its move decides
    have hpass : ∀ {passed' : List FlowId} {result : Result}, Plain graph sem flow reduced result ∧
        AllPlain graph sem (if reduced = [] then passed ++ [flow] else passed) passed' result →
        Plain graph sem flow reduced result ∧ AllPlain graph sem passed passed' result :=
      fun ⟨hplain, hall⟩ => ⟨hplain, hall.pass hplain⟩
    have hstay : ∀ {result : Result}, Plain graph sem flow reduced result →
        Plain graph sem flow reduced result ∧
          AllPlain graph sem passed (if reduced = [] then passed ++ [flow] else passed) result :=
      fun hplain => hpass ⟨hplain, AllPlain.refl _ _⟩
    have hvisit : ∀ reduced branch s result s',
        (walk graph sem ask fuel branch reduced [] s).map finish = some (result, s') →
          Sound graph sem s (Plain graph sem branch reduced) result s' := by
      intro reduced branch s result s' h
      obtain ⟨out, hout, hfinish⟩ := Option.map_eq_some_iff.1 h
      have hsound := (ih branch reduced [] s out hout).finish
      rw [hfinish] at hsound
      exact hsound
    dsimp only at h
    split at h
    · rename_i error hmove
      cases h
      exact Sound.same (hstay (Plain.of_move hmove (.error _)))
    · rename_i reachable hmove
      cases h
      exact Sound.same (hstay (Plain.of_move hmove (.answer _)))
    · rename_i next hmove
      exact (ih next reduced _ s out h).mono fun ⟨hplain, hall⟩ => hpass ⟨Plain.of_move hmove (.goTo hplain), hall⟩
    · rename_i list hmove
      obtain ⟨⟨result, s'⟩, hany, hout⟩ := Option.map_eq_some_iff.1 h
      cases hout
      exact (anyBranch_sound (hvisit reduced) list s result s' hany).mono fun hany =>
        hstay (Plain.of_move hmove (.branches hany))
    · rename_i label error hmove
      cases h
      exact Sound.ofCleared (Sound.same (hstay (Plain.of_move hmove (.reduceError _ _))))
    · rename_i label next hmove
      obtain ⟨⟨result, s'⟩, hnext, hout⟩ := Option.map_eq_some_iff.1 h
      cases hout
      exact Sound.ofCleared ((hvisit (label :: reduced) next _ result s' hnext).mono fun hplain =>
        hstay (Plain.of_move hmove (.reduce hplain)))
    · rename_i question next hmove
      obtain ⟨s₁, hs₁, hrest⟩ := Option.bind_eq_some_iff.1 h
      clear h
      have hasked := hask question s s₁ hs₁
      split at hrest
      · rename_i error hanswer
        cases hrest
        refine hasked.sound (Sound.same (hstay (Plain.of_move hmove (.ask ?_))))
        rw [hanswer]
        exact .error error _
      · rename_i hanswer
        cases hrest
        refine hasked.sound (Sound.same (hstay (Plain.of_move hmove (.ask ?_))))
        rw [hanswer]
        exact .yes _
      · rename_i error hanswer
        cases hrest
        refine hasked.sound (Sound.same (hstay (Plain.of_move hmove (.ask ?_))))
        rw [hanswer]
        exact .missing error
      · rename_i next hanswer
        refine hasked.sound ((ih next reduced _ s₁ out hrest).mono ?_)
        intro ⟨hplain, hall⟩
        refine hpass ⟨Plain.of_move hmove (.ask ?_), hall⟩
        rw [hanswer]
        exact .no hplain

/-! ## queries -/

theorem runWith_sound {ask : Question A → State → Option State}
    (hask : ∀ question s s', ask question s = some s' → Keeps graph sem s s') {fuel : Nat}
    {flow : FlowId} {s s' : State} {result : Result}
    (h : runWith graph sem ask fuel flow s = some (result, s')) :
    Sound graph sem s (Plain graph sem flow []) result s' := by
  obtain ⟨⟨result, s₁⟩, htraverse, hout⟩ := Option.map_eq_some_iff.1 h
  cases hout
  obtain ⟨out, hwalk, hfinish⟩ := Option.map_eq_some_iff.1 htraverse
  have hsound := (walk_sound hask fuel flow [] [] s out hwalk).finish
  rw [hfinish] at hsound
  match result with
  | .error error => exact hsound
  | .ok reachable =>
    refine ⟨hsound.grows, ?_⟩
    intro hright hgood
    obtain ⟨hgood, hplain⟩ := hsound.good hright hgood
    refine ⟨⟨hgood.table, ?_⟩, hplain⟩
    intro other result hslot
    cases hslot
    exact hplain

theorem runAll_sound {run : FlowId → State → Option (Result × State)}
    (hrun : ∀ flow s result s', run flow s = some (result, s') →
      Sound graph sem s (Plain graph sem flow []) result s')
    (flows : List FlowId) (s : State) (results : List Result) (s' : State)
    (h : runAll run flows s = some (results, s')) :
    Keeps graph sem s s' ∧ (Right graph sem s' → Good graph sem s →
      List.Forall₂ (fun flow result => Plain graph sem flow [] result) flows results) := by
  induction flows generalizing s results with
  | nil =>
    cases h
    exact ⟨⟨List.suffix_refl _, fun _ hgood => hgood⟩, fun _ _ => .nil⟩
  | cons flow flows ih =>
    obtain ⟨⟨result, s₁⟩, hfirst, hrest⟩ := Option.bind_eq_some_iff.1 h
    obtain ⟨⟨results, s₂⟩, hrest, hout⟩ := Option.map_eq_some_iff.1 hrest
    cases hout
    have hsound := hrun flow s result s₁ hfirst
    obtain ⟨hkeeps, hall⟩ := ih s₁ results hrest
    refine ⟨hsound.keeps.trans hkeeps, ?_⟩
    intro hright hgood
    obtain ⟨hgood, hplain⟩ := hsound.good (hright.before hkeeps.grows) hgood
    exact .cons hplain (hall hright hgood)

theorem askAt_keeps (fuel depth : Nat) (question : Question A) (s s' : State)
    (h : askAt graph sem fuel depth question s = some s') : Keeps graph sem s s' := by
  induction depth generalizing question s s' with
  | zero =>
    cases h
    exact ⟨List.suffix_refl _, fun _ hgood => ⟨hgood.table, hgood.slot⟩⟩
  | succ depth ih =>
    obtain ⟨⟨results, s₁⟩, hall, hout⟩ := Option.map_eq_some_iff.1 h
    cases hout
    have hkeeps := (runAll_sound (fun _ _ _ _ => runWith_sound ih) _ _ _ _ hall).1
    exact ⟨hkeeps.grows, fun hright hgood => hkeeps.good hright ⟨hgood.table, hgood.slot⟩⟩

theorem run_sound {fuel depth : Nat} {flow : FlowId} {s s' : State} {result : Result}
    (h : run graph sem fuel depth flow s = some (result, s')) :
    Sound graph sem s (Plain graph sem flow []) result s' :=
  runWith_sound (askAt_keeps fuel depth) h

/-! ## without cycles a traversal ends -/

variable (graph) in
/-- the edges of the graph; of a loop label only the first antecedent -/
inductive Edge : FlowId → FlowId → Prop
  | antecedent {flow next : FlowId} {node : FlowNode A} (hnode : graph.nodes[flow]? = some node)
      (hnext : node.antecedent = some next) : Edge flow next
  | branch {flow next : FlowId} {node : FlowNode A} (hnode : graph.nodes[flow]? = some node)
      (hbranch : node.has branchLabel) (hnext : some next ∈ node.antecedents) : Edge flow next
  | loop {flow next : FlowId} {node : FlowNode A} (hnode : graph.nodes[flow]? = some node)
      (hloop : node.has loopLabel) (hnext : node.antecedents.head? = some (some next)) : Edge flow next
  | reduced {flow next other : FlowId} {node : FlowNode A} {reducing : FlowNode A} {label : ReduceLabel}
      (hnode : graph.nodes[flow]? = some node) (hbranch : node.has branchLabel)
      (hother : graph.nodes[other]? = some reducing) (hlabel : reducing.data = some (.reduceLabel label))
      (htarget : label.target = some flow) (hnext : some next ∈ label.antecedents) : Edge flow next

variable (graph) in
/-- the labels in force are labels of the graph -/
def InGraph (reduced : List ReduceLabel) : Prop :=
  ∀ label ∈ reduced, ∃ (other : FlowId) (node : FlowNode A), graph.nodes[other]? = some node ∧ node.data = some (.reduceLabel label)

/-- where a move goes on -/
def Move.targets : Move A → List FlowId
  | .answer _ => []
  | .goTo next => [next]
  | .branches list => list
  | .reduce _ next => next.toOption.toList
  | .ask _ next => next.toOption.toList

theorem map_eq_ok {α β : Type} {f : α → β} {x : Except Error α} {b : β} (h : x.map f = .ok b) :
    ∃ a, x = .ok a ∧ b = f a := by
  cases x with
  | error error => cases h
  | ok a =>
    cases h
    exact ⟨a, rfl, rfl⟩

theorem required_eq_ok {α : Type} {value : Option α} {context : String} {found : α}
    (h : required value context = .ok found) : value = some found := by
  cases value with
  | none => cases h
  | some value =>
    cases h
    rfl

theorem antecedents_eq {list : List (Option FlowId)} {found : List FlowId} (h : antecedents list = .ok found) :
    list = found.map some := by
  induction list generalizing found with
  | nil =>
    cases h
    rfl
  | cons flow list ih =>
    unfold antecedents at h
    rw [List.mapM_cons] at h
    obtain ⟨next, hnext, h⟩ := (bind_eq_ok _ _ _).1 h
    obtain ⟨rest, hrest, h⟩ := (bind_eq_ok _ _ _).1 h
    cases h
    rw [required_eq_ok hnext, ih hrest]
    rfl

theorem branchAntecedents_edge {reduced : List ReduceLabel} (hreduced : InGraph graph reduced)
    {flow next : FlowId} {node : FlowNode A} (hnode : graph.nodes[flow]? = some node)
    (hbranch : node.has branchLabel) (hnext : some next ∈ Graph.branchAntecedents reduced flow node) :
    Edge graph flow next := by
  unfold Graph.branchAntecedents at hnext
  split at hnext
  · rename_i label hlabel
    obtain ⟨other, reducing, hother, hdata⟩ := hreduced label (List.mem_of_find?_eq_some hlabel)
    have htarget : label.target = some flow := by
      have h := List.find?_some hlabel
      exact of_decide_eq_true h
    exact .reduced hnode hbranch hother hdata htarget hnext
  · exact .branch hnode hbranch hnext

theorem required_target {value : Option FlowId} {context : String} {next : FlowId}
    (h : next ∈ (required value context).toOption.toList) : value = some next := by
  cases value with
  | none => cases h
  | some value => rw [List.mem_singleton.1 h]

/-- a move goes along edges of the graph -/
theorem moveOf_edge {reduced : List ReduceLabel} (hreduced : InGraph graph reduced) {flow : FlowId}
    {node : FlowNode A} (hnode : graph.nodes[flow]? = some node) {move : Move A}
    (hmove : Graph.moveOf reduced flow node = .ok move) (next : FlowId) (hnext : next ∈ move.targets) :
    Edge graph flow next := by
  unfold Graph.moveOf at hmove
  split at hmove
  · obtain ⟨found, hfound, rfl⟩ := map_eq_ok hmove
    rw [List.mem_singleton.1 hnext]
    exact .antecedent hnode (required_eq_ok hfound)
  split at hmove
  · rename_i hbranch
    obtain ⟨found, hfound, rfl⟩ := map_eq_ok hmove
    refine branchAntecedents_edge hreduced hnode hbranch ?_
    rw [antecedents_eq hfound]
    exact List.mem_map_of_mem hnext
  split at hmove
  · rename_i hloop
    obtain ⟨found, hfound, rfl⟩ := map_eq_ok hmove
    match found, hfound, hnext with
    | first :: rest, hfound, hnext =>
      rw [List.mem_singleton.1 hnext]
      refine .loop hnode hloop ?_
      rw [antecedents_eq hfound]
      rfl
  split at hmove
  · split at hmove
    · cases hmove
      exact .antecedent hnode (required_target hnext)
    · cases hmove
  split at hmove
  · split at hmove
    · cases hmove
      exact .antecedent hnode (required_target hnext)
    · cases hmove
  split at hmove
  · split at hmove
    · split at hmove
      · obtain ⟨statement, -, rfl⟩ := map_eq_ok hmove
        exact .antecedent hnode (required_target hnext)
      · obtain ⟨found, hfound, rfl⟩ := map_eq_ok hmove
        rw [List.mem_singleton.1 hnext]
        exact .antecedent hnode (required_eq_ok hfound)
    · cases hmove
  · cases hmove
    cases hnext

theorem moveOf_label {reduced : List ReduceLabel} {flow : FlowId} {node : FlowNode A} {label : ReduceLabel}
    {next : Except Error FlowId} (hmove : Graph.moveOf reduced flow node = .ok (.reduce label next)) :
    node.data = some (.reduceLabel label) := by
  unfold Graph.moveOf at hmove
  split at hmove
  · obtain ⟨_, _, h⟩ := map_eq_ok hmove
    cases h
  split at hmove
  · obtain ⟨_, _, h⟩ := map_eq_ok hmove
    cases h
  split at hmove
  · obtain ⟨found, _, h⟩ := map_eq_ok hmove
    cases found <;> cases h
  split at hmove
  · split at hmove
    · rename_i hdata
      cases hmove
      exact hdata
    · cases hmove
  split at hmove
  · split at hmove <;> cases hmove
  split at hmove
  · split at hmove
    · split at hmove
      · obtain ⟨_, _, h⟩ := map_eq_ok hmove
        cases h
      · obtain ⟨_, _, h⟩ := map_eq_ok hmove
        cases h
    · cases hmove
  · cases hmove

theorem move_node {reduced : List ReduceLabel} {flow : FlowId} {move : Move A}
    (hmove : graph.move reduced flow = .ok move) :
    ∃ node, graph.nodes[flow]? = some node ∧ Graph.moveOf reduced flow node = .ok move := by
  obtain ⟨node, hnode, hmove⟩ := (bind_eq_ok _ _ _).1 hmove
  unfold Graph.node at hnode
  split at hnode
  · rename_i found hfound
    cases hnode
    exact ⟨node, hfound, hmove⟩
  · cases hnode

variable (graph) in
noncomputable def rank (flow : FlowId) : Nat :=
  height (Edge graph) (Finset.range graph.nodes.length) flow

theorem rank_lt (hcycle : NoCycle (Edge graph)) {reduced : List ReduceLabel} (hreduced : InGraph graph reduced)
    {flow : FlowId} {move : Move A} (hmove : graph.move reduced flow = .ok move) (next : FlowId)
    (hnext : next ∈ move.targets) : rank graph next < rank graph flow := by
  obtain ⟨node, hnode, hmove⟩ := move_node hmove
  obtain ⟨hlt, -⟩ := List.getElem?_eq_some_iff.1 hnode
  exact height_lt hcycle (Finset.mem_range.2 hlt) (moveOf_edge hreduced hnode hmove next hnext)

theorem rank_le (flow : FlowId) : rank graph flow ≤ graph.nodes.length + 1 := by
  have h := height_le (Edge graph) (Finset.range graph.nodes.length) flow
  rw [Finset.card_range] at h
  exact h

theorem InGraph.cons {reduced : List ReduceLabel} (hreduced : InGraph graph reduced) {flow : FlowId}
    {label : ReduceLabel} {next : Except Error FlowId}
    (hmove : graph.move reduced flow = .ok (.reduce label next)) : InGraph graph (label :: reduced) := by
  obtain ⟨node, hnode, hmove⟩ := move_node hmove
  intro other hother
  rcases List.mem_cons.1 hother with rfl | hother
  · exact ⟨flow, node, hnode, moveOf_label hmove⟩
  · exact hreduced other hother

theorem inGraph_nil : InGraph graph [] := by
  intro label hlabel
  cases hlabel

theorem anyBranch_total (visit : FlowId → State → Option (Result × State)) (list : List FlowId)
    (hvisit : ∀ branch ∈ list, ∀ s, ∃ out, visit branch s = some out) (s : State) :
    ∃ out, anyBranch visit list s = some out := by
  induction list generalizing s with
  | nil => exact ⟨_, rfl⟩
  | cons branch branches ih =>
    obtain ⟨⟨first, s₁⟩, hfirst⟩ := hvisit branch List.mem_cons_self s
    unfold anyBranch
    rw [hfirst]
    match first with
    | .error error => exact ⟨_, rfl⟩
    | .ok true => exact ⟨_, rfl⟩
    | .ok false => exact ih (fun branch hmem => hvisit branch (List.mem_cons_of_mem _ hmem)) s₁

theorem walk_total (hcycle : NoCycle (Edge graph)) {ask : Question A → State → Option State}
    (hask : ∀ question s, ∃ s', ask question s = some s') (fuel : Nat) (flow : FlowId)
    (reduced : List ReduceLabel) (hreduced : InGraph graph reduced) (hfuel : rank graph flow < fuel)
    (passed : List FlowId) (s : State) : ∃ out, walk graph sem ask fuel flow reduced passed s = some out := by
  induction fuel generalizing flow reduced passed s with
  | zero => exact absurd hfuel (Nat.not_lt_zero _)
  | succ fuel ih =>
    have hnext : ∀ {move : Move A}, graph.move reduced flow = .ok move → ∀ next ∈ move.targets,
        rank graph next < fuel := by
      intro move hmove next hnext
      have := rank_lt hcycle hreduced hmove next hnext
      omega
    rw [walk]
    split
    · exact ⟨_, rfl⟩
    split
    · exact ⟨_, rfl⟩
    dsimp only
    split
    · exact ⟨_, rfl⟩
    · exact ⟨_, rfl⟩
    · rename_i next hmove
      exact ih next reduced hreduced (hnext hmove next List.mem_cons_self) _ s
    · rename_i list hmove
      obtain ⟨out, hout⟩ := anyBranch_total (fun branch s =>
        (walk graph sem ask fuel branch reduced [] s).map finish) list (by
          intro branch hbranch s
          obtain ⟨out, hout⟩ := ih branch reduced hreduced (hnext hmove branch hbranch) [] s
          exact ⟨finish out, by rw [hout]; rfl⟩) s
      rw [hout]
      exact ⟨_, rfl⟩
    · exact ⟨_, rfl⟩
    · rename_i label next hmove
      obtain ⟨out, hout⟩ := ih next (label :: reduced) (hreduced.cons hmove)
        (hnext hmove next List.mem_cons_self) [] { s with lastReachable := none }
      rw [hout]
      exact ⟨_, rfl⟩
    · rename_i question next hmove
      obtain ⟨s₁, hs₁⟩ := hask question s
      rw [hs₁]
      dsimp only [Option.bind]
      split
      · exact ⟨_, rfl⟩
      · exact ⟨_, rfl⟩
      · exact ⟨_, rfl⟩
      · rename_i next _
        exact ih next reduced hreduced (hnext hmove next List.mem_cons_self) _ s₁

theorem runWith_total (hcycle : NoCycle (Edge graph)) {ask : Question A → State → Option State}
    (hask : ∀ question s, ∃ s', ask question s = some s') {fuel : Nat}
    (hfuel : graph.nodes.length + 2 ≤ fuel) (flow : FlowId) (s : State) :
    ∃ out, runWith graph sem ask fuel flow s = some out := by
  have hrank : rank graph flow ≤ graph.nodes.length + 1 := rank_le flow
  obtain ⟨out, hout⟩ := walk_total hcycle hask fuel flow [] inGraph_nil (by omega) [] s
  unfold runWith traverse
  rw [hout]
  exact ⟨_, rfl⟩

theorem runAll_total {run : FlowId → State → Option (Result × State)}
    (hrun : ∀ flow s, ∃ out, run flow s = some out) (flows : List FlowId) (s : State) :
    ∃ out, runAll run flows s = some out := by
  induction flows generalizing s with
  | nil => exact ⟨_, rfl⟩
  | cons flow flows ih =>
    obtain ⟨⟨result, s₁⟩, hfirst⟩ := hrun flow s
    obtain ⟨out, hout⟩ := ih s₁
    unfold runAll
    rw [hfirst]
    show ∃ out, Option.map _ (runAll run flows s₁) = some out
    rw [hout]
    exact ⟨_, rfl⟩

theorem askAt_total (hcycle : NoCycle (Edge graph)) {fuel : Nat} (hfuel : graph.nodes.length + 2 ≤ fuel)
    (depth : Nat) (question : Question A) (s : State) :
    ∃ s', askAt graph sem fuel depth question s = some s' := by
  induction depth generalizing question s with
  | zero => exact ⟨_, rfl⟩
  | succ depth ih =>
    obtain ⟨out, hout⟩ := runAll_total (fun flow s => runWith_total hcycle ih hfuel flow s)
      (sem.queries question s.clock) { s with clock := s.clock + 1 }
    unfold askAt
    rw [hout]
    exact ⟨_, rfl⟩

end

/-! ## a query behind a question under a reduce label -/

/-- node 4 reduces the branch label 2 to the unreachable node 0; between them stands the call 3 -/
def staleGraph : Graph Unit where
  nodes := [
    { flags := unreachable },
    { flags := start },
    { flags := branchLabel, antecedents := [some 1] },
    { flags := call, data := some (.ast ()), antecedent := some 2 },
    { flags := reduceLabel, data := some (.reduceLabel ⟨some 2, [some 0]⟩), antecedent := some 3 }]

/-- no call is of type never; to find that out the type checker asks for these nodes -/
def queriesOf (flows : List FlowId) : Semantics Unit where
  answer := fun _ => .ok false
  queries := fun _ _ => flows

/-- every link of the graph leads to a smaller number -/
theorem staleGraph_links {flow : FlowId} {node : FlowNode Unit} (h : staleGraph.nodes[flow]? = some node) :
    (∀ next, node.antecedent = some next → next < flow) ∧ (∀ next, some next ∈ node.antecedents → next < flow) ∧
      ∀ label, node.data = some (.reduceLabel label) → label = ⟨some 2, [some 0]⟩ := by
  match flow, h with
  | 0, h | 1, h | 2, h | 3, h | 4, h =>
    cases h
    refine ⟨?_, ?_, ?_⟩
    · intro next hnext
      cases hnext <;> decide
    · intro next hnext
      simp at hnext <;> (rw [hnext]; decide)
    · intro label hlabel
      cases hlabel <;> rfl
  | flow + 5, h => cases h

theorem staleGraph_noCycle : NoCycle (Edge staleGraph) := by
  refine noCycle_of_lt id ?_
  intro flow next hedge
  cases hedge with
  | antecedent hnode hnext => exact (staleGraph_links hnode).1 next hnext
  | branch hnode _ hnext => exact (staleGraph_links hnode).2.1 next hnext
  | loop hnode _ hnext => exact (staleGraph_links hnode).2.1 next (List.mem_of_mem_head? hnext)
  | reduced _ _ hother hlabel htarget hnext =>
    cases (staleGraph_links hother).2.2 _ hlabel
    cases htarget
    cases List.mem_singleton.1 hnext
    show 0 < 2
    decide

end Tsr.Checker.FlowReachability
