import Tsr.Project.SessionQueue

/-!
# The session: whose options stand where

A call of `apply_inferred_options` replaces the pending options, flushes, and on failure puts back what
it replaced.  In between other flushes take the pending options away and other calls replace them.

* `Mentions`, `Distinct`    a pointer stands for the options of one call;
* `undisturbed`             the condition on a run: a call fails only if nothing has come between, and
                            nothing comes between its failure and its return;
* `Covered`                 the invariant of such runs: the options of a call that has not failed, or
                            newer ones, are pending, with an update, or published, also without the
                            call that is alone;
* `sound_step`              one step preserves it.
-/

namespace Tsr.Project.Session
open Tsr.Lib.Run

variable {χ ω δ : Type}

/-! ## values -/

/-- the options of call `k` or of a later one -/
def From (k : Nat) (value : Option (Shared ω)) : Prop := ∃ v, value = some v ∧ k ≤ v.ptr

namespace State

/-- the options that an update has taken -/
def flightOptions (s : State χ ω δ) : Option (Shared ω) :=
  match s.update with
  | some (.update t) => t.pending.inferred
  | _ => none

/-- a snapshot published since has the options of call `k` or of a later one -/
def PublishedSince (s : State χ ω δ) (since k : Nat) : Prop :=
  ∃ next ∈ s.published.drop since, From k next.inferredOptions

end State

/-- everything that points to options -/
inductive Mentions (s : State χ ω δ) : Shared ω → Prop where
  | pending {v} (h : s.pending.inferred = some v) : Mentions s v
  | taken {v} (t : Transaction χ ω δ) (ht : s.update = some (.update t))
      (h : t.pending.inferred = some v) : Mentions s v
  | base {v} (t : Transaction χ ω δ) (ht : s.update = some (.update t))
      (h : t.old.inferredOptions = some v) : Mentions s v
  | own (n : Nat) (call : Call ω) (hc : s.calls n = some call) : Mentions s call.options
  | previous {v} (n : Nat) (call : Call ω) (hc : s.calls n = some call)
      (h : call.previous = some v) : Mentions s v
  | published {v} (next : Snapshot ω δ) (hn : next ∈ s.published)
      (h : next.inferredOptions = some v) : Mentions s v
  | snapshot {v} (next : Snapshot ω δ) (hn : s.snapshot = some next)
      (h : next.inferredOptions = some v) : Mentions s v

section
variable {s s' : State χ ω δ} {v : Shared ω}

theorem setCaller_calls {caller : Option Nat} {p : Phase} {m : Nat} {call' : Call ω}
    (h : (s.setCaller caller p).calls m = some call') :
    ∃ call, s.calls m = some call ∧ ((caller ≠ some m ∧ call' = call) ∨
      (caller = some m ∧ call' = { call with phase := p })) := by
  cases caller with
  | none => exact ⟨call', h, .inl ⟨by simp, rfl⟩⟩
  | some n =>
    by_cases hn : m = n
    · subst hn
      have h' : (s.calls m).map (fun call => { call with phase := p }) = some call' :=
        (Function.update_self m _ s.calls).symm.trans h
      obtain ⟨call, hc, rfl⟩ := Option.map_eq_some_iff.1 h'
      exact ⟨call, hc, .inr ⟨rfl, rfl⟩⟩
    · have h' : s.calls m = some call' := (Function.update_of_ne hn _ s.calls).symm.trans h
      exact ⟨call', h', .inl ⟨fun h0 => hn (Option.some.inj h0).symm, rfl⟩⟩

/-- a call in another phase is not the one that moved -/
theorem unmoved {caller : Option Nat} {p q : Phase} {m : Nat} {call : Call ω}
    (h : (s.setCaller caller p).calls m = some call) (hq : call.phase = q) (hne : decide (q = p) = false) :
    caller ≠ some m ∧ s.calls m = some call := by
  obtain ⟨old, hold, ⟨hm, rfl⟩ | ⟨-, rfl⟩⟩ := setCaller_calls h
  · exact ⟨hm, hold⟩
  · exact absurd hq.symm (of_decide_eq_false hne)

theorem setCaller_calls_self {n : Nat} {p : Phase} {call : Call ω} (h : s.calls n = some call) :
    (s.setCaller (some n) p).calls n = some { call with phase := p } := by
  show Function.update s.calls n ((s.calls n).map fun call => { call with phase := p }) n = _
  rw [Function.update_self, h]
  rfl

theorem State.setCaller_calls_ne {caller : Option Nat} {p : Phase} {m : Nat} (h : caller ≠ some m) :
    (s.setCaller caller p).calls m = s.calls m := by
  cases caller with
  | none => rfl
  | some n => exact Function.update_of_ne (fun he : m = n => h (congrArg some he.symm)) _ _

theorem State.setCaller_calls_congr {caller : Option Nat} {p : Phase} {m : Nat}
    (h : s'.calls m = s.calls m) : (s'.setCaller caller p).calls m = (s.setCaller caller p).calls m := by
  cases caller with
  | none => exact h
  | some n =>
    show Function.update s'.calls n _ m = Function.update s.calls n _ m
    by_cases he : m = n
    · subst he
      rw [Function.update_self, Function.update_self, h]
    · rw [Function.update_of_ne he, Function.update_of_ne he, h]

/-- a phase points to nothing -/
theorem Mentions.of_setCaller {caller : Option Nat} {p : Phase}
    (h : Mentions (s.setCaller caller p) v) : Mentions s v := by
  cases h with
  | pending h => exact .pending (by simpa using h)
  | taken t ht h => exact .taken t (by simpa using ht) h
  | base t ht h => exact .base t (by simpa using ht) h
  | own n call hc =>
    obtain ⟨call, hc', ⟨-, rfl⟩ | ⟨-, rfl⟩⟩ := setCaller_calls hc
    · exact .own n _ hc'
    · exact .own n call hc'
  | previous n call hc h =>
    obtain ⟨call, hc', ⟨-, rfl⟩ | ⟨-, rfl⟩⟩ := setCaller_calls hc
    · exact .previous n _ hc' h
    · exact .previous n call hc' h
  | published next hn h => exact .published next (by simpa using hn) h
  | snapshot next hn h => exact .snapshot next (by simpa using hn) h

/-- a step that leaves the calls alone -/
theorem Mentions.of_parts (h : Mentions s' v) (hc : s'.calls = s.calls)
    (hp : s'.pending.inferred = some v → Mentions s v)
    (hu : ∀ t, s'.update = some (.update t) →
      t.pending.inferred = some v ∨ t.old.inferredOptions = some v → Mentions s v)
    (hpub : ∀ next ∈ s'.published, next.inferredOptions = some v → Mentions s v)
    (hs : ∀ next, s'.snapshot = some next → next.inferredOptions = some v → Mentions s v) :
    Mentions s v := by
  cases h with
  | pending h => exact hp h
  | taken t ht h => exact hu t ht (.inl h)
  | base t ht h => exact hu t ht (.inr h)
  | own n call h => exact .own n call (hc ▸ h)
  | previous n call h hv => exact .previous n call (hc ▸ h) hv
  | published next hn h => exact hpub next hn h
  | snapshot next hn h => exact hs next hn h

theorem Mentions.of_transaction {t : Transaction χ ω δ} (hu : s.update = some (.update t))
    (h : t.pending.inferred = some v ∨ t.old.inferredOptions = some v) : Mentions s v := by
  rcases h with h | h
  · exact .taken t hu h
  · exact .base t hu h

/-- a step that changes the queue only -/
theorem Mentions.of_pending (h : Mentions s' v) (hs : s'.snapshot = s.snapshot)
    (hu : s'.update = s.update) (hc : s'.calls = s.calls) (hpub : s'.published = s.published)
    (hp : s'.pending.inferred = some v → Mentions s v) : Mentions s v :=
  h.of_parts hc hp (fun _ ht => .of_transaction (hu ▸ ht)) (fun next hn => .published next (hpub ▸ hn))
    fun next hn => .snapshot next (hs ▸ hn)

theorem restore_inferred (failed queued : Pending χ ω δ) :
    (restore failed queued).inferred = queued.inferred.or failed.inferred := by
  show (if queued.inferred.isNone then failed.inferred else queued.inferred) = _
  cases queued.inferred <;> rfl

/-- a call made by a step, with options of its own -/
theorem Mentions.of_call (h : Mentions s' v) {n : Nat} {call : Call ω}
    (hc : s'.calls = Function.update s.calls n (some call)) (hs : s'.snapshot = s.snapshot)
    (hu : s'.update = s.update) (hpub : s'.published = s.published)
    (hprevious : call.previous = some v → Mentions s v)
    (hp : s'.pending.inferred = some v → Mentions s v ∨ v = call.options) :
    Mentions s v ∨ v = call.options := by
  have hcalls : ∀ m c, s'.calls m = some c → s.calls m = some c ∨ c = call := by
    intro m c hm
    rw [hc] at hm
    by_cases he : m = n
    · rw [he, Function.update_self] at hm
      exact .inr (Option.some.inj hm).symm
    · rw [Function.update_of_ne he] at hm
      exact .inl hm
  cases h with
  | pending h => exact hp h
  | taken t ht h => exact .inl (.taken t (hu ▸ ht) h)
  | base t ht h => exact .inl (.base t (hu ▸ ht) h)
  | own m c hm =>
    rcases hcalls m c hm with hm | rfl
    · exact .inl (.own m c hm)
    · exact .inr rfl
  | previous m c hm h =>
    rcases hcalls m c hm with hm | rfl
    · exact .inl (.previous m c hm h)
    · exact .inl (hprevious h)
  | published next hn h => exact .inl (.published next (hpub ▸ hn) h)
  | snapshot next hn h => exact .inl (.snapshot next (hs ▸ hn) h)

/-- only a call brings new options -/
theorem mentions_step {a : Action χ ω δ} (hs : step a s = some s') (h : Mentions s' v) :
    Mentions s v ∨ ∃ n options, a = .applyInferredOptions n options ∧ v = ⟨n, options⟩ := by
  cases step_moves hs with
  | keeps ha p hi hc => exact .inl (h.of_pending rfl rfl rfl rfl fun hv => .pending (hi.symm.trans hv))
  | admits => exact .inl (h.of_pending rfl rfl rfl rfl fun hv => .pending hv)
  | refuse =>
    refine (h.of_call rfl rfl rfl rfl nofun fun hv => .inl (.pending hv)).imp_right ?_
    exact fun hv => ⟨_, _, rfl, hv⟩
  | replace =>
    refine (h.of_call rfl rfl rfl rfl (fun hv => .pending hv) fun hv => ?_).imp_right ?_
    · exact .inr (Option.some.inj hv).symm
    · exact fun hv => ⟨_, _, rfl, hv⟩
  | closed => exact .inl h.of_setCaller
  | stale => exact .inl h
  | empty => exact .inl (h.of_setCaller.of_pending rfl rfl rfl rfl fun hp => (by cases hp))
  | @take _ _ _ previous hu hw hsnap =>
    left
    refine h.of_setCaller.of_parts rfl (fun hp => (by cases hp)) (fun t ht hv => ?_)
      (fun next hn hv => .published next hn hv) fun next hn hv => .snapshot next hn hv
    cases ht
    rcases hv with hv | hv
    · exact .pending hv
    · exact .snapshot previous hsnap hv
  | @publish t hu =>
    left
    have hnext : ∀ v, (deriveSnapshot s.nextSnapshotId t.old t.pending).inferredOptions = some v →
        Mentions s v := by
      intro v hv
      rcases Option.or_eq_some_iff.1 hv with h | ⟨-, h⟩
      · exact .taken t hu h
      · exact .base t hu h
    refine h.of_setCaller.of_parts rfl (fun hp => .pending hp) (fun t ht => (by cases ht)) (fun next hn hv => ?_)
      fun next hn hv => ?_
    · rcases List.mem_append.1 hn with hn | hn
      · exact .published next hn hv
      · cases List.mem_singleton.1 hn
        exact hnext _ hv
    · cases hn
      exact hnext _ hv
  | @fail t hu =>
    left
    refine h.of_setCaller.of_parts rfl (fun hp => ?_) (fun t ht => (by cases ht))
      (fun next hn hv => .published next hn hv) fun next hn hv => .snapshot next hn hv
    rcases Option.or_eq_some_iff.1 ((restore_inferred _ _).symm.trans hp) with h | ⟨-, h⟩
    · exact .pending h
    · exact .taken t hu h
  | @settle n call hc hf =>
    left
    refine h.of_setCaller.of_pending rfl rfl rfl rfl fun hp => ?_
    have hp' : (if s.pending.inferred.any fun value => value.ptr = call.options.ptr then
      { s.pending with inferred := call.previous } else s.pending).inferred = some v := hp
    split at hp'
    next => exact .previous n call hc hp'
    next => exact .pending hp'
  | closeSnapshot =>
    exact .inl (h.of_parts rfl (fun hp => .pending hp) (fun t ht => (by cases ht))
      (fun next hn hv => .published next hn hv) fun next hn => (by cases hn))
  | closePending =>
    exact .inl (h.of_parts rfl (fun hp => (by cases hp)) (fun t ht => (by cases ht))
      (fun next hn hv => .published next hn hv) fun next hn hv => .snapshot next hn hv)

/-- the number of a call only grows -/
theorem made_step {a : Action χ ω δ} (hs : step a s = some s') :
    s'.made = s.made ∨ ∃ n options, a = .applyInferredOptions n options ∧ s.made ≤ n ∧ s'.made = n + 1 := by
  cases step_moves hs with
  | refuse hn => exact .inr ⟨_, _, rfl, hn, rfl⟩
  | replace hn => exact .inr ⟨_, _, rfl, hn, rfl⟩
  | closed => exact .inl (State.setCaller_made _ _ _)
  | empty => exact .inl (State.setCaller_made _ _ _)
  | take => exact .inl (State.setCaller_made _ _ _)
  | publish => exact .inl (State.setCaller_made _ _ _)
  | fail => exact .inl (State.setCaller_made _ _ _)
  | _ => exact .inl rfl

/-- a pointer stands for one value, and no number is given twice -/
structure Distinct (s : State χ ω δ) : Prop where
  value : ∀ v w, Mentions s v → Mentions s w → v.ptr = w.ptr → v = w
  bound : ∀ v, Mentions s v → v.ptr < s.made

theorem Distinct.step {a : Action χ ω δ} (h : Distinct s) (hs : step a s = some s') : Distinct s' := by
  rcases made_step hs with hm | ⟨n, options, rfl, hn, hm⟩
  · have hold : ∀ v, Mentions s' v → Mentions s v := by
      intro v hv
      rcases mentions_step hs hv with h | ⟨n, options, rfl, -⟩
      · exact h
      · cases step_moves hs with
        | keeps ha => cases ha
        | admits ha => cases ha
        | refuse hn => exact absurd hm (by show n + 1 ≠ s.made; omega)
        | replace hn => exact absurd hm (by show n + 1 ≠ s.made; omega)
    exact ⟨fun v w hv hw => h.value v w (hold v hv) (hold w hw), fun v hv => hm ▸ h.bound v (hold v hv)⟩
  · have hold : ∀ v, Mentions s' v → Mentions s v ∨ v = ⟨n, options⟩ := by
      intro v hv
      rcases mentions_step hs hv with h | ⟨m, o, he, rfl⟩
      · exact .inl h
      · cases he
        exact .inr rfl
    refine ⟨fun v w hv hw he => ?_, fun v hv => ?_⟩
    · rcases hold v hv with hv | rfl <;> rcases hold w hw with hw | rfl
      · exact h.value v w hv hw he
      · have := h.bound v hv
        dsimp only at he
        omega
      · have := h.bound w hw
        dsimp only at he
        omega
      · rfl
    · rcases hold v hv with hv | rfl
      · have := h.bound v hv
        omega
      · dsimp only
        omega

theorem distinct_new (id : Nat) : Distinct (State.new id : State χ ω δ) := by
  have hnone : ∀ v, ¬ Mentions (State.new id : State χ ω δ) v := by
    intro v h
    cases h with
    | pending h => exact nomatch h
    | taken t ht h => exact nomatch ht
    | base t ht h => exact nomatch ht
    | own n call hc => exact nomatch hc
    | previous n call hc h => exact nomatch hc
    | published next hn h => exact nomatch hn
    | snapshot next hn h =>
      cases hn
      cases h
  exact ⟨fun v w hv => absurd hv (hnone v), fun v hv => absurd hv (hnone v)⟩

end

/-! ## the condition -/

/-- the call that is alone has failed and is about to return -/
def aloneFailed (s : State χ ω δ) : Bool := s.alone.any fun n => s.phase n = some .failed

/-- a call fails only while it is alone; until it has returned, no update starts and no call is made -/
def undisturbed : Action χ ω δ → State χ ω δ → Bool
  | .fail (some n), s => s.alone = some n
  | .start caller _ _, s =>
    if s.snapshot.isSome then !aloneFailed s else caller.all fun n => s.alone = some n
  | .applyInferredOptions _ _, s => s.snapshot.isNone || !aloneFailed s
  | _, _ => true

/-! ## whose options stand where -/

structure Covered (s : State χ ω δ) : Prop where
  number : ∀ n call, s.calls n = some call →
    call.options.ptr = n ∧ n < s.made ∧ call.since ≤ s.published.length
  waiting : ∀ n call, s.calls n = some call → call.phase = .waiting → s.snapshot.isSome = true →
    From n s.pending.inferred ∨ From n s.flightOptions ∨ s.PublishedSince call.since n
  flushing : ∀ n call, s.calls n = some call → call.phase = .flushing →
    (∃ t, s.update = some (.update t) ∧ t.caller = some n) ∧
    (From n s.flightOptions ∨ s.PublishedSince call.since n)
  done : ∀ n call, s.calls n = some call → call.phase = .returned true →
    s.PublishedSince call.since n
  failed : ∀ n call, s.calls n = some call → call.phase = .failed →
    s.alone = some n ∧ ∀ t, s.update ≠ some (.update t)
  caller : ∀ t n, s.update = some (.update t) → t.caller = some n →
    ∃ call, s.calls n = some call ∧ call.phase = .flushing
  newer : ∀ v w, s.flightOptions = some v → s.pending.inferred = some w → v.ptr ≤ w.ptr
  own : ∀ c, s.alone = some c → s.snapshot.isSome = true → ∃ call, s.calls c = some call ∧
    (((call.phase = .waiting ∨ call.phase = .failed) ∧ s.pending.inferred = some call.options) ∨
    (call.phase = .flushing ∧ s.flightOptions = some call.options ∧ s.pending.inferred = none))
  behind : ∀ c own, s.alone = some c → s.calls c = some own → s.snapshot.isSome = true →
    ∀ n call, n ≠ c → s.calls n = some call → call.phase = .waiting →
      From n own.previous ∨ (own.phase ≠ .flushing ∧ From n s.flightOptions) ∨
      s.PublishedSince call.since n

namespace Covered

variable {s s' : State χ ω δ}

/-- a step that touches neither options nor calls -/
theorem same (h : Covered s) (hs : s'.snapshot = s.snapshot) (hu : s'.update = s.update)
    (hp : s'.pending.inferred = s.pending.inferred) (hc : s'.calls = s.calls)
    (hpub : s'.published = s.published) (hm : s'.made = s.made) (ha : s'.alone = s.alone) :
    Covered s' := by
  have hf : s'.flightOptions = s.flightOptions := by rw [State.flightOptions, State.flightOptions, hu]
  have hsince : ∀ a b, s'.PublishedSince a b ↔ s.PublishedSince a b := by
    intro a b
    rw [State.PublishedSince, State.PublishedSince, hpub]
  constructor <;> simp only [hs, hu, hp, hc, hpub, hm, ha, hf, hsince]
  · exact h.number
  · exact h.waiting
  · exact h.flushing
  · exact h.done
  · exact h.failed
  · exact h.caller
  · exact h.newer
  · exact h.own
  · exact h.behind

/-- a phase takes nothing from the numbers -/
theorem number_of (h : Covered s) {caller : Option Nat} {p : Phase} {r : State χ ω δ}
    (hc : r.calls = s.calls) (hm : r.made = s.made)
    (hpub : s.published.length ≤ (r.setCaller caller p).published.length) (n : Nat) (call : Call ω)
    (hn : (r.setCaller caller p).calls n = some call) : call.options.ptr = n ∧
      n < (r.setCaller caller p).made ∧ call.since ≤ (r.setCaller caller p).published.length := by
  rw [State.setCaller_made, hm]
  obtain ⟨old, hold, hcases⟩ := setCaller_calls hn
  rw [hc] at hold
  obtain ⟨h1, h2, h3⟩ := h.number n old hold
  rcases hcases with ⟨-, rfl⟩ | ⟨-, rfl⟩
  · exact ⟨h1, h2, h3.trans hpub⟩
  · exact ⟨h1, h2, h3.trans hpub⟩

theorem flightOptions_free (hu : ∀ t, s.update ≠ some (.update t)) : s.flightOptions = none := by
  rw [State.flightOptions]
  split
  next t ht => exact absurd ht (hu t)
  next => rfl

theorem not_from_none {k : Nat} : ¬ From k (none : Option (Shared ω)) := fun ⟨_, h, _⟩ => nomatch h

/-- no call has failed and waits to return -/
theorem none_failed (h : Covered s) (hgood : aloneFailed s = false) {n : Nat} {call : Call ω}
    (hc : s.calls n = some call) : call.phase ≠ .failed := by
  intro hp
  obtain ⟨ha, -⟩ := h.failed n call hc hp
  rw [aloneFailed, ha] at hgood
  simp [State.phase, hc, hp] at hgood

/-- the call that replaces the options is alone, and the others are behind it -/
theorem replace (h : Covered s) (hd : Distinct s) {n : Nat} {options : ω} (hn : s.made ≤ n)
    (hgood : aloneFailed s = false) : Covered (s.replace n options) := by
  have hcalls : ∀ m call, (s.replace n options).calls m = some call →
      (m = n ∧ call = ⟨⟨n, options⟩, s.pending.inferred, .waiting, s.published.length⟩) ∨
      (m < n ∧ s.calls m = some call) := by
    intro m call hm
    by_cases he : m = n
    · subst he
      have hm' := (Function.update_self m _ s.calls).symm.trans hm
      exact .inl ⟨rfl, (Option.some.inj hm').symm⟩
    · have hm' : s.calls m = some call := (Function.update_of_ne he _ s.calls).symm.trans hm
      have := (h.number m call hm').2.1
      exact .inr ⟨by omega, hm'⟩
  have hnew : (s.replace n options).calls n =
      some ⟨⟨n, options⟩, s.pending.inferred, .waiting, s.published.length⟩ :=
    Function.update_self n _ s.calls
  have hold : ∀ m call, s.calls m = some call → (s.replace n options).calls m = some call := by
    intro m call hm
    have := (h.number m call hm).2.1
    exact (Function.update_of_ne (by omega) _ s.calls).trans hm
  constructor
  · intro m call hm
    rcases hcalls m call hm with ⟨rfl, rfl⟩ | ⟨hlt, hm⟩
    · exact ⟨rfl, Nat.lt_succ_self m, le_rfl⟩
    · obtain ⟨h1, -, h3⟩ := h.number m call hm
      exact ⟨h1, Nat.lt_succ_of_lt hlt, h3⟩
  · intro m call hm hp ho
    rcases hcalls m call hm with ⟨rfl, rfl⟩ | ⟨hlt, hm⟩
    · exact .inl ⟨_, rfl, le_rfl⟩
    · exact .inl ⟨_, rfl, Nat.le_of_lt hlt⟩
  · intro m call hm hp
    rcases hcalls m call hm with ⟨rfl, rfl⟩ | ⟨hlt, hm⟩
    · cases hp
    · exact h.flushing m call hm hp
  · intro m call hm hp
    rcases hcalls m call hm with ⟨rfl, rfl⟩ | ⟨hlt, hm⟩
    · cases hp
    · exact h.done m call hm hp
  · intro m call hm hp
    rcases hcalls m call hm with ⟨rfl, rfl⟩ | ⟨hlt, hm⟩
    · cases hp
    · exact absurd hp (h.none_failed hgood hm)
  · intro t m ht hm
    obtain ⟨call, hc, hp⟩ := h.caller t m ht hm
    exact ⟨call, hold m call hc, hp⟩
  · intro v w hv hw
    cases hw
    have hmention : Mentions s v := by
      rw [show (s.replace n options).flightOptions = s.flightOptions from rfl, State.flightOptions] at hv
      split at hv
      next t ht => exact .taken t ht hv
      next => cases hv
    have := hd.bound v hmention
    dsimp only
    omega
  · intro c hc ho
    cases hc
    exact ⟨_, hnew, .inl ⟨.inl rfl, rfl⟩⟩
  · intro c own hc hown ho m call hne hm hp
    cases hc
    cases (hnew.symm.trans hown)
    rcases hcalls m call hm with ⟨rfl, -⟩ | ⟨hlt, hm⟩
    · exact absurd rfl hne
    · rcases h.waiting m call hm hp ho with h1 | h1 | h1
      · exact .inl h1
      · exact .inr (.inl ⟨nofun, h1⟩)
      · exact .inr (.inr h1)

/-- a closed session keeps only the books -/
theorem closed_of (h : Covered s) (hs : s'.snapshot = none) (hu : ∀ t, s'.update ≠ some (.update t))
    (hpub : s'.published = s.published)
    (hnumber : ∀ n call, s'.calls n = some call →
      call.options.ptr = n ∧ n < s'.made ∧ call.since ≤ s'.published.length)
    (hdone : ∀ n call, s'.calls n = some call → call.phase = .returned true →
      ∃ old, s.calls n = some old ∧ old.phase = .returned true ∧ old.since = call.since)
    (hflushing : ∀ n call, s'.calls n = some call → call.phase ≠ .flushing)
    (hfailed : ∀ n call, s'.calls n = some call → call.phase = .failed → s'.alone = some n) :
    Covered s' := by
  have hclosed : ¬ s'.snapshot.isSome = true := by
    rw [hs]
    exact nofun
  constructor
  · exact hnumber
  · exact fun n call hc hp ho => absurd ho hclosed
  · exact fun n call hc hp => absurd hp (hflushing n call hc)
  · intro n call hc hp
    obtain ⟨old, hold, hphase, hsince⟩ := hdone n call hc hp
    rw [State.PublishedSince, hpub, ← hsince]
    exact h.done n old hold hphase
  · exact fun n call hc hp => ⟨hfailed n call hc hp, hu⟩
  · exact fun t n ht => absurd ht (hu t)
  · intro v w hv
    rw [flightOptions_free hu] at hv
    cases hv
  · exact fun c hc ho => absurd ho hclosed
  · exact fun c own hc hown ho => absurd ho hclosed

theorem not_flushing (h : Covered s) (hu : ∀ t, s.update ≠ some (.update t)) {n : Nat}
    {call : Call ω} (hc : s.calls n = some call) : call.phase ≠ .flushing := by
  intro hp
  obtain ⟨⟨t, ht, -⟩, -⟩ := h.flushing n call hc hp
  exact hu t ht

/-- the two writes of `close` -/
theorem closing (h : Covered s) (hs : s'.snapshot = none) (hu : ∀ t, s.update ≠ some (.update t))
    (hu' : ∀ t, s'.update ≠ some (.update t)) (hpub : s'.published = s.published)
    (hc : s'.calls = s.calls) (hm : s'.made = s.made) (ha : s'.alone = s.alone) : Covered s' := by
  refine h.closed_of hs hu' hpub ?_ ?_ ?_ ?_ <;> simp only [hc, hm, ha, hpub]
  · exact h.number
  · exact fun n call hc hp => ⟨call, hc, hp, rfl⟩
  · exact fun n call hc => h.not_flushing hu hc
  · exact fun n call hc hp => (h.failed n call hc hp).1

theorem refuse (h : Covered s) {n : Nat} {options : ω} (hn : s.made ≤ n) (hs : s.snapshot = none)
    (hu : ∀ t, s.update ≠ some (.update t)) : Covered (s.refuse n options) := by
  have hcalls : ∀ m call, (s.refuse n options).calls m = some call →
      (m = n ∧ call = ⟨⟨n, options⟩, none, .returned false, s.published.length⟩) ∨
      s.calls m = some call := by
    intro m call hm
    by_cases he : m = n
    · subst he
      exact .inl ⟨rfl, (Option.some.inj ((Function.update_self m _ s.calls).symm.trans hm)).symm⟩
    · exact .inr ((Function.update_of_ne he _ s.calls).symm.trans hm)
  refine h.closed_of hs hu rfl (fun m call hm => ?_) (fun m call hm hp => ?_) (fun m call hm => ?_)
    fun m call hm hp => ?_
  · rcases hcalls m call hm with ⟨rfl, rfl⟩ | hm
    · exact ⟨rfl, Nat.lt_succ_self m, le_rfl⟩
    · obtain ⟨h1, h2, h3⟩ := h.number m call hm
      exact ⟨h1, by show m < n + 1; omega, h3⟩
  · rcases hcalls m call hm with ⟨rfl, rfl⟩ | hm
    · cases hp
    · exact ⟨call, hm, hp, rfl⟩
  · rcases hcalls m call hm with ⟨rfl, rfl⟩ | hm
    · exact nofun
    · exact h.not_flushing hu hm
  · rcases hcalls m call hm with ⟨rfl, rfl⟩ | hm
    · cases hp
    · exact (h.failed m call hm hp).1

/-- the flush of a call meets a closed session -/
theorem startClosed (h : Covered s) {caller : Option Nat} (hs : s.snapshot = none)
    (hu : s.update = none) (hgood : ∀ n, caller = some n → s.alone = some n) :
    Covered (s.setCaller caller .failed) := by
  have hfree : ∀ t, s.update ≠ some (.update t) := fun t ht => by rw [hu] at ht; cases ht
  refine h.closed_of (by simpa using hs) (by simpa using hfree) (by simp)
    (h.number_of rfl rfl (by rw [State.setCaller_published]))
    (fun m call hm hp => ?_) (fun m call hm => ?_) fun m call hm hp => ?_
  · obtain ⟨-, hold⟩ := unmoved hm hp rfl
    exact ⟨_, hold, hp, rfl⟩
  · obtain ⟨old, hold, ⟨-, rfl⟩ | ⟨-, rfl⟩⟩ := setCaller_calls hm
    · exact h.not_flushing hfree hold
    · exact nofun
  · rw [State.setCaller_alone]
    obtain ⟨old, hold, ⟨-, rfl⟩ | ⟨hcaller, rfl⟩⟩ := setCaller_calls hm
    · exact (h.failed m _ hold hp).1
    · exact hgood m hcaller

theorem since_setCaller {caller : Option Nat} {p : Phase} {a b : Nat} :
    (s.setCaller caller p).PublishedSince a b ↔ s.PublishedSince a b := by
  rw [State.PublishedSince, State.PublishedSince, State.setCaller_published]

/-- an update with nothing to do: the options of its caller are published -/
theorem startEmpty (h : Covered s) {caller : Option Nat} (ho : s.snapshot.isSome = true)
    (hu : s.update = none) (he : s.pending.isEmpty = true)
    (hcaller : ∀ n, caller = some n → s.phase n = some .waiting) :
    Covered ((s.stage fun _ => Pending.default).setCaller caller (.returned true)) := by
  have hnone : s.pending.inferred = none := by
    simp only [Pending.isEmpty, Bool.and_eq_true, Option.isNone_iff_eq_none] at he
    exact he.1.1.1.2
  have hfree : ∀ t, s.update ≠ some (.update t) := fun t ht => by rw [hu] at ht; cases ht
  have hflight := flightOptions_free hfree
  have hpub : ∀ n call, s.calls n = some call → call.phase = .waiting →
      s.PublishedSince call.since n := by
    intro n call hc hp
    rcases h.waiting n call hc hp ho with h1 | h1 | h1
    · rw [hnone] at h1
      exact absurd h1 not_from_none
    · rw [hflight] at h1
      exact absurd h1 not_from_none
    · exact h1
  have halone : s.alone = none := by
    cases ha : s.alone with
    | none => rfl
    | some c =>
      obtain ⟨call, -, ⟨-, h1⟩ | ⟨-, h1, -⟩⟩ := h.own c ha ho
      · rw [hnone] at h1
        cases h1
      · rw [hflight] at h1
        cases h1
  have hbase : Covered (s.stage fun _ => Pending.default) :=
    h.same rfl rfl hnone.symm rfl rfl rfl rfl
  cases caller with
  | none => exact hbase
  | some n =>
    constructor
    · exact h.number_of rfl rfl le_rfl
    · intro m call hm hp _
      obtain ⟨-, hold⟩ := unmoved hm hp rfl
      exact .inr (.inr (hpub m _ hold hp))
    · intro m call hm hp
      obtain ⟨-, hold⟩ := unmoved hm hp rfl
      exact absurd hp (h.not_flushing hfree hold)
    · intro m call hm hp
      obtain ⟨old, hold, ⟨-, rfl⟩ | ⟨he', rfl⟩⟩ := setCaller_calls hm
      · exact h.done m _ hold hp
      · have hw := hcaller m he'
        rw [State.phase, show s.calls m = some old from hold] at hw
        exact hpub m old hold (Option.some.inj hw)
    · intro m call hm hp
      obtain ⟨-, hold⟩ := unmoved hm hp rfl
      exact h.failed m _ hold hp
    · intro t m ht
      exact absurd ht (hfree t)
    · intro v w _ hw
      cases hw
    · intro c hc
      cases (halone.symm.trans hc)
    · intro c own hc
      cases (halone.symm.trans hc)

/-- the queue is taken: its options go with the update -/
theorem take (h : Covered s) {caller : Option Nat} {previous : Snapshot ω δ}
    (hsnap : s.snapshot = some previous) (hu : s.update = none)
    (hcaller : ∀ n, caller = some n → s.phase n = some .waiting) (hgood : aloneFailed s = false) :
    Covered ((s.take caller previous).setCaller caller .flushing) := by
  have ho : s.snapshot.isSome = true := by
    rw [hsnap]
    rfl
  have hfree : ∀ t, s.update ≠ some (.update t) := fun t ht => by rw [hu] at ht; cases ht
  have hflight := flightOptions_free hfree
  have hflight' : ((s.take caller previous).setCaller caller .flushing).flightOptions =
      s.pending.inferred := by
    rw [State.flightOptions, State.setCaller_update]
    rfl
  have hpending' : ((s.take caller previous).setCaller caller .flushing).pending.inferred = none := by
    rw [State.setCaller_pending]
    rfl
  have halone' : ∀ c, ((s.take caller previous).setCaller caller .flushing).alone = some c →
      s.alone = some c ∧ caller = some c := by
    intro c hc
    rw [State.setCaller_alone] at hc
    have hc' : aloneAfter s.alone caller = some c := hc
    rw [aloneAfter] at hc'
    split at hc'
    next he => exact ⟨hc', he ▸ hc'⟩
    next => cases hc'
  have hwaiting : ∀ n call, s.calls n = some call → call.phase = .waiting →
      From n s.pending.inferred ∨ s.PublishedSince call.since n := by
    intro n call hc hp
    rcases h.waiting n call hc hp ho with h1 | h1 | h1
    · exact .inl h1
    · rw [hflight] at h1
      exact absurd h1 not_from_none
    · exact .inr h1
  have hcallerWaits : ∀ n call, caller = some n → s.calls n = some call → call.phase = .waiting := by
    intro n call he hc
    have hw := hcaller n he
    rw [State.phase, hc] at hw
    exact Option.some.inj hw
  constructor
  · exact h.number_of rfl rfl (by rw [State.setCaller_published]; rfl)
  · intro m call hm hp _
    rw [hflight', since_setCaller]
    obtain ⟨-, hold⟩ := unmoved hm hp rfl
    exact .inr (hwaiting m _ hold hp)
  · intro m call hm hp
    rw [hflight', since_setCaller, State.setCaller_update]
    obtain ⟨old, hold, ⟨-, rfl⟩ | ⟨he, rfl⟩⟩ := setCaller_calls hm
    · exact absurd hp (h.not_flushing hfree hold)
    · exact ⟨⟨_, rfl, he⟩, hwaiting m old hold (hcallerWaits m old he hold)⟩
  · intro m call hm hp
    rw [since_setCaller]
    obtain ⟨-, hold⟩ := unmoved hm hp rfl
    exact h.done m _ hold hp
  · intro m call hm hp
    obtain ⟨-, hold⟩ := unmoved hm hp rfl
    exact absurd hp (h.none_failed hgood hold)
  · intro t m ht hm
    rw [State.setCaller_update] at ht
    cases ht
    cases hm
    have hw := hcaller m rfl
    obtain ⟨call, hc, -⟩ := Option.map_eq_some_iff.1 hw
    exact ⟨_, setCaller_calls_self hc, rfl⟩
  · intro v w _ hw
    rw [hpending'] at hw
    cases hw
  · intro c hc _
    obtain ⟨ha, rfl⟩ := halone' c hc
    obtain ⟨call, hcall, hown⟩ := h.own c ha ho
    refine ⟨_, setCaller_calls_self hcall, .inr ⟨rfl, ?_, hpending'⟩⟩
    rw [hflight']
    rcases hown with ⟨-, h1⟩ | ⟨-, h1, -⟩
    · exact h1
    · rw [hflight] at h1
      cases h1
  · intro c own hc hown _ m call hne hm hp
    rw [since_setCaller]
    obtain ⟨ha, rfl⟩ := halone' c hc
    obtain ⟨old, hold, ⟨hcm, rfl⟩ | ⟨he, rfl⟩⟩ := setCaller_calls hm
    · obtain ⟨ownOld, hownOld, ⟨hx, -⟩ | ⟨-, rfl⟩⟩ := setCaller_calls hown
      · exact absurd rfl hx
      · rcases h.behind c ownOld ha hownOld ho m _ hne hold hp with h1 | ⟨-, h1⟩ | h1
        · exact .inl h1
        · rw [hflight] at h1
          exact absurd h1 not_from_none
        · exact .inr (.inr h1)
    · cases hp

theorem flightOptions_of {t : Transaction χ ω δ} (hu : s.update = some (.update t)) :
    s.flightOptions = t.pending.inferred := by
  rw [State.flightOptions, hu]

/-- a snapshot published once stays published -/
theorem PublishedSince.mono {since k : Nat} {more : List (Snapshot ω δ)}
    (h : s.PublishedSince since k) (hp : s'.published = s.published ++ more) :
    s'.PublishedSince since k := by
  obtain ⟨next, hn, hk⟩ := h
  refine ⟨next, ?_, hk⟩
  rw [hp, List.drop_append]
  exact List.mem_append_left _ hn

/-- the options of the update are published -/
theorem adopt (h : Covered s) (ho : s.snapshot.isSome = true) {t : Transaction χ ω δ}
    (hu : s.update = some (.update t)) :
    Covered ((s.adopt t).setCaller t.caller (.returned true)) := by
  set r := (s.adopt t).setCaller t.caller (.returned true) with hr
  have hflight := flightOptions_of hu
  have hpub : r.published = s.published ++ [deriveSnapshot s.nextSnapshotId t.old t.pending] :=
    State.setCaller_published _ _ _
  have hpending : r.pending = s.pending := State.setCaller_pending _ _ _
  have hfree : ∀ t', r.update ≠ some (.update t') := by
    intro t' ht
    rw [hr, State.setCaller_update] at ht
    cases ht
  have hnone : r.flightOptions = none := flightOptions_free hfree
  -- who was covered by the update is covered by the snapshot
  have hsince : ∀ n since, since ≤ s.published.length →
      From n s.flightOptions ∨ s.PublishedSince since n → r.PublishedSince since n := by
    rintro n since hle (⟨v, hv, hn⟩ | h1)
    · refine ⟨deriveSnapshot s.nextSnapshotId t.old t.pending, ?_, v, ?_, hn⟩
      · rw [hpub, List.drop_append_of_le_length hle]
        exact List.mem_append_right _ (List.mem_singleton_self _)
      · show t.pending.inferred.or t.old.inferredOptions = some v
        rw [← hflight, hv]
        rfl
    · exact PublishedSince.mono h1 hpub
  have halone : ∀ c, r.alone = some c → s.alone = some c ∧ t.caller ≠ some c := by
    intro c hc
    rw [hr, State.setCaller_alone] at hc
    have hc' : (if s.alone = t.caller then none else s.alone) = some c := hc
    split at hc'
    next => cases hc'
    next hne => exact ⟨hc', fun he => hne (hc'.trans he.symm)⟩
  constructor
  · refine h.number_of rfl rfl ?_
    rw [hpub, List.length_append]
    exact Nat.le_add_right _ _
  · intro m call hm hp _
    rw [hpending]
    obtain ⟨-, hold⟩ := unmoved hm hp rfl
    rcases h.waiting m _ hold hp ho with h1 | h1
    · exact .inl h1
    · exact .inr (.inr (hsince m _ (h.number m _ hold).2.2 h1))
  · intro m call hm hp
    obtain ⟨hne, hold⟩ := unmoved hm hp rfl
    obtain ⟨⟨t', ht', hc⟩, -⟩ := h.flushing m _ hold hp
    cases (hu.symm.trans ht')
    exact absurd hc hne
  · intro m call hm hp
    obtain ⟨old, hold, ⟨-, rfl⟩ | ⟨hc, rfl⟩⟩ := setCaller_calls hm
    · exact PublishedSince.mono (h.done m _ hold hp) hpub
    · obtain ⟨call, hcall, hflushing⟩ := h.caller t m hu hc
      cases (hcall.symm.trans hold)
      exact hsince m _ (h.number m _ hold).2.2 (h.flushing m _ hold hflushing).2
  · intro m call hm hp
    obtain ⟨hne, hold⟩ := unmoved hm hp rfl
    exact absurd hu ((h.failed m _ hold hp).2 t)
  · intro t' m ht'
    exact absurd ht' (hfree t')
  · intro v w hv
    rw [hnone] at hv
    cases hv
  · intro c hc _
    obtain ⟨ha, hne⟩ := halone c hc
    obtain ⟨call, hcall, hown⟩ := h.own c ha ho
    rw [hpending]
    rcases hown with h1 | ⟨hp, -, -⟩
    · refine ⟨call, ?_, .inl h1⟩
      rw [hr, State.setCaller_calls_ne hne]
      exact hcall
    · obtain ⟨⟨t', ht', hc'⟩, -⟩ := h.flushing c call hcall hp
      cases (hu.symm.trans ht')
      exact absurd hc' hne
  · intro c own hc hown _ m call hmc hm hp
    obtain ⟨ha, hne⟩ := halone c hc
    rw [hr, State.setCaller_calls_ne hne] at hown
    obtain ⟨-, hold⟩ := unmoved hm hp rfl
    rcases h.behind c own ha hown ho m _ hmc hold hp with h1 | ⟨-, h1⟩ | h1
    · exact .inl h1
    · exact .inr (.inr (hsince m _ (h.number m _ hold).2.2 (.inl h1)))
    · exact .inr (.inr (hsince m _ (h.number m _ hold).2.2 (.inr h1)))

/-- the options of a failed update are back in the queue, or newer ones stand there -/
theorem giveBack (h : Covered s) (ho : s.snapshot.isSome = true) {t : Transaction χ ω δ}
    (hu : s.update = some (.update t)) (hgood : ∀ n, t.caller = some n → s.alone = some n) :
    Covered ((s.giveBack t).setCaller t.caller .failed) := by
  set r := (s.giveBack t).setCaller t.caller .failed with hr
  have hflight := flightOptions_of hu
  have hpub : r.published = s.published := State.setCaller_published _ _ _
  have hpending : r.pending.inferred = s.pending.inferred.or s.flightOptions := by
    rw [hflight, ← restore_inferred, hr, State.setCaller_pending]
    rfl
  have hfree : ∀ t', r.update ≠ some (.update t') := by
    intro t' ht
    rw [hr, State.setCaller_update] at ht
    cases ht
  have hnone : r.flightOptions = none := flightOptions_free hfree
  have hsince : ∀ a b, r.PublishedSince a b ↔ s.PublishedSince a b := by
    intro a b
    rw [State.PublishedSince, State.PublishedSince, hpub]
  have hback : ∀ n, From n s.pending.inferred ∨ From n s.flightOptions → From n r.pending.inferred := by
    rintro n (⟨w, hw, hn⟩ | ⟨v, hv, hn⟩)
    · exact ⟨w, by rw [hpending, hw]; rfl, hn⟩
    · rw [hpending]
      cases hw : s.pending.inferred with
      | none => exact ⟨v, hv, hn⟩
      | some w => exact ⟨w, rfl, le_trans hn (h.newer v w hv hw)⟩
  -- the call that is alone is the caller, or the update held no options
  have halone : ∀ c, r.alone = some c → s.alone = some c ∧ (t.caller = some c ∨ s.flightOptions = none) := by
    intro c hc
    rw [hr, State.setCaller_alone] at hc
    have hc' : (if t.pending.inferred.isSome then aloneAfter s.alone t.caller else s.alone) = some c := hc
    split at hc'
    next =>
      rw [aloneAfter] at hc'
      split at hc'
      next he => exact ⟨hc', .inl (he ▸ hc')⟩
      next => cases hc'
    next hi =>
      rw [Bool.not_eq_true, Option.isSome_eq_false_iff, Option.isNone_iff_eq_none] at hi
      exact ⟨hc', .inr (hflight.trans hi)⟩
  constructor
  · exact h.number_of rfl rfl (by rw [hpub])
  · intro m call hm hp _
    obtain ⟨-, hold⟩ := unmoved hm hp rfl
    rcases h.waiting m _ hold hp ho with h1 | h1 | h1
    · exact .inl (hback m (.inl h1))
    · exact .inl (hback m (.inr h1))
    · exact .inr (.inr ((hsince _ _).2 h1))
  · intro m call hm hp
    obtain ⟨hne, hold⟩ := unmoved hm hp rfl
    obtain ⟨⟨t', ht', hc⟩, -⟩ := h.flushing m _ hold hp
    cases (hu.symm.trans ht')
    exact absurd hc hne
  · intro m call hm hp
    obtain ⟨-, hold⟩ := unmoved hm hp rfl
    exact (hsince _ _).2 (h.done m _ hold hp)
  · intro m call hm hp
    refine ⟨?_, hfree⟩
    obtain ⟨old, hold, ⟨hne, rfl⟩ | ⟨hc, rfl⟩⟩ := setCaller_calls hm
    · exact absurd hu ((h.failed m _ hold hp).2 t)
    · rw [hr, State.setCaller_alone]
      show (if t.pending.inferred.isSome then aloneAfter s.alone t.caller else s.alone) = some m
      rw [hgood m hc, hc, aloneAfter, if_pos rfl, ite_self]
  · intro t' m ht'
    exact absurd ht' (hfree t')
  · intro v w hv
    rw [hnone] at hv
    cases hv
  · intro c hc _
    obtain ⟨ha, hcase⟩ := halone c hc
    obtain ⟨call, hcall, hown⟩ := h.own c ha ho
    rw [hpending]
    by_cases hcaller : t.caller = some c
    · obtain ⟨call', hcall', hp⟩ := h.caller t c hu hcaller
      cases (hcall.symm.trans hcall')
      rcases hown with ⟨h1 | h1, -⟩ | ⟨-, h1, h2⟩
      · exact nomatch (hp.symm.trans h1)
      · exact nomatch (hp.symm.trans h1)
      · rw [hr, hcaller]
        exact ⟨_, setCaller_calls_self hcall, .inl ⟨.inr rfl, by rw [h1, h2]; rfl⟩⟩
    · have hkeep : r.calls c = some call := by
        rw [hr, State.setCaller_calls_ne hcaller]
        exact hcall
      rcases hown with ⟨h1, h2⟩ | ⟨hp, -, -⟩
      · exact ⟨call, hkeep, .inl ⟨h1, by rw [h2]; rfl⟩⟩
      · obtain ⟨⟨t', ht', hc'⟩, -⟩ := h.flushing c call hcall hp
        cases (hu.symm.trans ht')
        exact absurd hc' hcaller
  · intro c own hc hown _ m call hmc hm hp
    obtain ⟨ha, hcase⟩ := halone c hc
    obtain ⟨-, hold⟩ := unmoved hm hp rfl
    obtain ⟨ownOld, hownOld, hphase⟩ := setCaller_calls hown
    have hprev : own.previous = ownOld.previous := by
      rcases hphase with ⟨-, rfl⟩ | ⟨-, rfl⟩ <;> rfl
    rw [hprev]
    rcases h.behind c ownOld ha hownOld ho m _ hmc hold hp with h1 | ⟨hnf, h1⟩ | h1
    · exact .inl h1
    · rcases hcase with hcaller | hfl
      · obtain ⟨call', hcall', hp'⟩ := h.caller t c hu hcaller
        cases (hownOld.symm.trans hcall')
        exact absurd hp' hnf
      · rw [hfl] at h1
        exact absurd h1 not_from_none
    · exact .inr (.inr ((hsince _ _).2 h1))

theorem revert_pending (n : Nat) {call : Call ω} (h : s.pending.inferred = some call.options) :
    (s.revert n call).pending.inferred = call.previous := by
  show (if s.pending.inferred.any fun value => value.ptr = call.options.ptr then
    { s.pending with inferred := call.previous } else s.pending).inferred = _
  rw [h, if_pos (by simp)]

/-- the call is gone, and those behind it have what it replaced -/
theorem revert (h : Covered s) {n : Nat} {call : Call ω} (hc : s.calls n = some call)
    (hf : call.phase = .failed) : Covered ((s.revert n call).setCaller (some n) (.returned false)) := by
  set r := (s.revert n call).setCaller (some n) (.returned false) with hr
  obtain ⟨ha, hu⟩ := h.failed n call hc hf
  have halone : r.alone = none := by
    show (if s.alone = some n then none else s.alone) = none
    rw [if_pos ha]
  have hflight : r.flightOptions = none := flightOptions_free (s := r) hu
  constructor
  · exact h.number_of rfl rfl le_rfl
  · intro m c hm hp ho
    obtain ⟨hne, hold⟩ := unmoved hm hp rfl
    obtain ⟨own, hown, ⟨-, h1⟩ | ⟨h1, -, -⟩⟩ := h.own n ha ho
    · cases (hown.symm.trans hc)
      rcases h.behind n call ha hc ho m _ (fun he => hne (he ▸ rfl)) hold hp with h2 | ⟨-, h2⟩ | h2
      · refine .inl ?_
        show From m (s.revert n call).pending.inferred
        rw [revert_pending n h1]
        exact h2
      · rw [flightOptions_free hu] at h2
        exact absurd h2 not_from_none
      · exact .inr (.inr h2)
    · cases (hown.symm.trans hc)
      exact nomatch (hf.symm.trans h1)
  · intro m c hm hp
    obtain ⟨-, hold⟩ := unmoved hm hp rfl
    exact absurd hp (h.not_flushing hu hold)
  · intro m c hm hp
    obtain ⟨-, hold⟩ := unmoved hm hp rfl
    exact h.done m _ hold hp
  · intro m c hm hp
    obtain ⟨hne, hold⟩ := unmoved hm hp rfl
    exact absurd (ha.symm.trans (h.failed m _ hold hp).1) hne
  · exact fun t m ht => absurd ht (hu t)
  · intro v w hv
    rw [hflight] at hv
    cases hv
  · exact fun c hc => nomatch (halone.symm.trans hc)
  · exact fun c own hc => nomatch (halone.symm.trans hc)

theorem step {a : Action χ ω δ} (h : Covered s) (hacc : Accounted s) (hd : Distinct s)
    (hgood : undisturbed a s = true) (hs : step a s = some s') : Covered s' := by
  cases step_moves hs with
  | keeps ha p hi hc => exact h.same rfl rfl hi rfl rfl rfl rfl
  | admits => exact h.same rfl rfl rfl rfl rfl rfl rfl
  | refuse hn hclosed => exact h.refuse hn hclosed (hacc.closed hclosed).2
  | replace hn ho =>
    rw [undisturbed, Option.isNone_eq_false_iff.2 ho, Bool.false_or, Bool.not_eq_true'] at hgood
    exact h.replace hd hn hgood
  | closed hu hw hclosed =>
    rw [undisturbed, hclosed] at hgood
    refine h.startClosed hclosed hu ?_
    rintro n rfl
    simpa using hgood
  | stale => exact h
  | empty hu hw ho he => exact h.startEmpty ho hu he hw
  | take hu hw hsnap =>
    rw [undisturbed, hsnap] at hgood
    exact h.take hsnap hu hw (by simpa using hgood)
  | publish hu => exact h.adopt (hacc.open_of_update hu) hu
  | fail hu =>
    refine h.giveBack (hacc.open_of_update hu) hu fun n hn => ?_
    rw [hn] at hgood
    exact of_decide_eq_true hgood
  | settle hc hf => exact h.revert hc hf
  | closeSnapshot hu => exact h.closing rfl (fun t ht => by rw [hu] at ht; cases ht) nofun rfl rfl rfl rfl
  | closePending hu =>
    exact h.closing (hacc.late hu) (fun t ht => by rw [hu] at ht; cases ht) nofun rfl rfl rfl rfl

end Covered

/-- the invariant of a run that meets the condition -/
structure Sound (s : State χ ω δ) : Prop where
  accounted : Accounted s
  distinct : Distinct s
  covered : Covered s

theorem sound_step {a : Action χ ω δ} {s s' : State χ ω δ} (h : Sound s)
    (hgood : undisturbed a s = true) (hs : step a s = some s') : Sound s' :=
  ⟨h.accounted.step hs, h.distinct.step hs, h.covered.step h.accounted h.distinct hgood hs⟩

theorem sound_new (id : Nat) : Sound (State.new id : State χ ω δ) := by
  refine ⟨accounted_new id, distinct_new id, ?_⟩
  constructor <;> intros <;> contradiction

theorem sound_run {id : Nat} {as : List (Action χ ω δ)} {s : State χ ω δ}
    (hgood : along step undisturbed as (State.new id) = true)
    (h : exec step as (State.new id) = some s) : Sound s :=
  exec_invariant_along step undisturbed Sound (fun _ _ _ hs hg hstep => sound_step hs hg hstep) as _ s
    (sound_new id) hgood h

end Tsr.Project.Session
