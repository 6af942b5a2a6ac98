import Tsr.Ipc.ConnAsync

/-!
# Responses and the terminal error of the asynchronous connection

In every state that a run reaches (`conn_laws`):

* a call that returned a value returned that of a response with its own id, which was delivered to
  it;
* no response was delivered twice;
* once the terminal error is recorded, no call is registered, and every call that waits has its
  response, or has lost its sender, or is the one that the read loop is sending to: it gets to its
  return in at most two steps;
* and no call is registered from there on.

The invariant `Inv` says where the sender of each call is.
-/

namespace Tsr.Ipc.ConnAsync
open Tsr.Lib.Run

/-! ## The laws -/

/-- the message was delivered to the call, and carries its id -/
def Delivered (s : State) (c : Nat) (call : Call) (m : Message) : Prop :=
  ∃ n : Nat, s.read[n]? = some m ∧ (n, c) ∈ s.deliveries ∧ m.id = some call.id

/-- the call is about to return, or did -/
def CallPhase.result : CallPhase → Option (Except Error Text)
  | .leaving r | .dropping r | .returned r => some r
  | _ => none

/-- the call can stop waiting -/
def CanWake (s : State) (c : Nat) : Prop :=
  ∃ (as : List Action) (s' : State) (call : Call), as.length ≤ 2 ∧ exec step as s = some s' ∧
    s'.calls[c]? = some call ∧ call.phase.result.isSome = true

structure Laws (s : State) : Prop where
  own : ∀ (c : Nat) (call : Call) (v : Text), s.calls[c]? = some call →
    call.phase = .returned (.ok v) →
    ∃ m, Delivered s c call m ∧ m.error = none ∧ v = m.result.getD []
  once : (s.deliveries.map (·.1)).Nodup
  closed : s.pending.terminal.isSome = true → ∀ id, s.pending.calls id = none
  woken : s.pending.terminal.isSome = true → ∀ (c : Nat) (call : Call), s.calls[c]? = some call →
    call.phase = .waiting → CanWake s c
  unregistered : s.pending.terminal.isSome = true → ∀ as s', exec step as s = some s' →
    s'.registrations = s.registrations

/-! ## The invariant -/

/-- the call is behind its registration and before the removal of its entry -/
def CallPhase.inside : CallPhase → Bool
  | .registered | .waiting | .disconnected | .leaving _ => true
  | _ => false

/-- what the read loop has in its hands -/
def RunOk (s : State) : RunPhase → Prop
  | .response n m => s.read[n]? = some m ∧ n ∉ s.deliveries.map (·.1)
  | .sending n m c => s.read[n]? = some m ∧ n ∉ s.deliveries.map (·.1) ∧
    ∃ call, s.calls[c]? = some call ∧ m.id = some call.id
  | _ => True

structure Inv (s : State) : Prop where
  table : ∀ id c, s.pending.calls id = some c → ∃ call, s.calls[c]? = some call ∧ call.id = id
  closed : s.pending.terminal.isSome = true → ∀ id, s.pending.calls id = none
  sender : ∀ (c : Nat) (call : Call), s.calls[c]? = some call → call.phase.inside = true →
    call.connected = true → s.pending.calls call.id = some c ∨ ∃ n m, s.run = .sending n m c
  buffer : ∀ (c : Nat) (call : Call) (m : Message), s.calls[c]? = some call → call.buffer = some m →
    Delivered s c call m
  result : ∀ (c : Nat) (call : Call) (v : Text), s.calls[c]? = some call →
    call.phase.result = some (.ok v) →
    ∃ m, Delivered s c call m ∧ m.error = none ∧ v = m.result.getD []
  run : RunOk s s.run
  once : (s.deliveries.map (·.1)).Nodup
  bound : ∀ d ∈ s.deliveries, d.1 < s.read.length

theorem inv_init : Inv State.init where
  table := fun _ _ h => nomatch h
  closed := fun h => nomatch h
  sender := fun _ _ h => nomatch h
  buffer := fun _ _ _ h => nomatch h
  result := fun _ _ _ h => nomatch h
  run := trivial
  once := List.nodup_nil
  bound := fun _ h => nomatch h

/-! ## Calls that move -/

theorem getElem?_modify_cases (calls : List Call) (c : Nat) (f : Call → Call) (c' : Nat) (call' : Call)
    (h : (calls.modify c f)[c']? = some call') :
    (c' = c ∧ ∃ call, calls[c]? = some call ∧ call' = f call) ∨
      (c' ≠ c ∧ calls[c']? = some call') := by
  by_cases hc : c = c'
  · subst hc
    rw [List.getElem?_modify_eq] at h
    obtain ⟨call, hcall, heq⟩ := Option.map_eq_some_iff.1 h
    exact Or.inl ⟨rfl, call, hcall, heq.symm⟩
  · rw [List.getElem?_modify_ne _ _ hc] at h
    exact Or.inr ⟨Ne.symm hc, h⟩

theorem getElem?_modify_some (calls : List Call) (c : Nat) (f : Call → Call) (c' : Nat) (call : Call)
    (h : calls[c']? = some call) :
    (calls.modify c f)[c']? = some (if c = c' then f call else call) := by
  rw [List.getElem?_modify, h]
  rfl

/-- only the phase of one call changes -/
theorem inv_setPhase {s : State} {c : Nat} {call : Call} {phase : CallPhase} (hinv : Inv s)
    (hcall : s.calls[c]? = some call)
    (hinside : phase.inside = true → call.connected = true →
      s.pending.calls call.id = some c ∨ ∃ n m, s.run = .sending n m c)
    (hresult : ∀ v, phase.result = some (.ok v) →
      ∃ m, Delivered s c call m ∧ m.error = none ∧ v = m.result.getD []) :
    Inv (setPhase s c phase) := by
  have hcases := getElem?_modify_cases s.calls c fun call => { call with phase := phase }
  refine ⟨?_, hinv.closed, ?_, ?_, ?_, ?_, hinv.once, hinv.bound⟩
  · intro id c' h
    obtain ⟨call', hc', hid⟩ := hinv.table id c' h
    refine ⟨_, getElem?_modify_some s.calls c _ c' call' hc', ?_⟩
    split
    next => exact hid
    next => exact hid
  · intro c' call' h hin hconn
    rcases hcases c' call' h with ⟨rfl, call0, h0, rfl⟩ | ⟨-, h⟩
    · rw [hcall] at h0
      cases h0
      exact hinside hin hconn
    · exact hinv.sender c' call' h hin hconn
  · intro c' call' m h hb
    rcases hcases c' call' h with ⟨rfl, call0, h0, rfl⟩ | ⟨-, h⟩
    · exact hinv.buffer c' call0 m h0 hb
    · exact hinv.buffer c' call' m h hb
  · intro c' call' v h hv
    rcases hcases c' call' h with ⟨rfl, call0, h0, rfl⟩ | ⟨-, h⟩
    · rw [hcall] at h0
      cases h0
      exact hresult v hv
    · exact hinv.result c' call' v h hv
  · have hrun := hinv.run
    show RunOk (setPhase s c phase) s.run
    cases hr : s.run with
    | response n m =>
      rw [hr] at hrun
      exact hrun
    | sending n m c' =>
      rw [hr] at hrun
      obtain ⟨h1, h2, call', h3, h4⟩ := hrun
      refine ⟨h1, h2, _, getElem?_modify_some s.calls c _ c' call' h3, ?_⟩
      split
      next => exact h4
      next => exact h4
    | _ => trivial

/-- the calls after some of them lost their senders -/
structure Loses (calls calls' : List Call) : Prop where
  back : ∀ (c : Nat) (call' : Call), calls'[c]? = some call' → ∃ call, calls[c]? = some call ∧
    call'.id = call.id ∧ call'.phase = call.phase ∧ call'.buffer = call.buffer ∧
    (call'.connected = true → call.connected = true)
  forth : ∀ (c : Nat) (call : Call), calls[c]? = some call →
    ∃ call', calls'[c]? = some call' ∧ call'.id = call.id

theorem loses_disconnect (calls : List Call) (c : Nat) : Loses calls (disconnect calls c) := by
  constructor
  · intro c' call' h
    rcases getElem?_modify_cases calls c _ c' call' h with ⟨rfl, call0, h0, rfl⟩ | ⟨-, h⟩
    · exact ⟨call0, h0, rfl, rfl, rfl, nofun⟩
    · exact ⟨call', h, rfl, rfl, rfl, fun hc => hc⟩
  · intro c' call h
    refine ⟨_, getElem?_modify_some calls c _ c' call h, ?_⟩
    split
    next => rfl
    next => rfl

theorem disconnect_connected (calls : List Call) (c : Nat) (call : Call)
    (h : (disconnect calls c)[c]? = some call) : call.connected = false := by
  rcases getElem?_modify_cases calls c _ c call h with ⟨-, call0, -, rfl⟩ | ⟨hne, -⟩
  · rfl
  · exact absurd rfl hne

theorem loses_mapIdx (calls : List Call) (held : Id → Option Nat) :
    Loses calls (calls.mapIdx fun c call =>
      if held call.id = some c then { call with connected := false } else call) := by
  constructor
  · intro c call' h
    rw [List.getElem?_mapIdx] at h
    obtain ⟨call, hcall, rfl⟩ := Option.map_eq_some_iff.1 h
    refine ⟨call, hcall, ?_⟩
    split
    next => exact ⟨rfl, rfl, rfl, nofun⟩
    next => exact ⟨rfl, rfl, rfl, fun hc => hc⟩
  · intro c call h
    refine ⟨_, by rw [List.getElem?_mapIdx, h]; rfl, ?_⟩
    show (if held call.id = some c then _ else _ : Call).id = call.id
    split
    next => rfl
    next => rfl

/-- some calls lose their senders, and entries go from the table -/
theorem inv_loses {s s' : State} (hinv : Inv s) (hcalls : Loses s.calls s'.calls)
    (hread : s'.read = s.read) (hdel : s'.deliveries = s.deliveries) (hrun : s'.run = s.run)
    (htable : ∀ id c, s'.pending.calls id = some c → s.pending.calls id = some c)
    (hclosed : s'.pending.terminal.isSome = true → ∀ id, s'.pending.calls id = none)
    (hsender : ∀ (c : Nat) (call' : Call), s'.calls[c]? = some call' → call'.connected = true →
      s.pending.calls call'.id = some c → s'.pending.calls call'.id = some c) : Inv s' := by
  have hdeliv : ∀ c call call' m, call'.id = call.id → Delivered s c call m →
      Delivered s' c call' m := by
    rintro c call call' m hid ⟨n, h1, h2, h3⟩
    refine ⟨n, ?_, ?_, ?_⟩
    · rw [hread]
      exact h1
    · rw [hdel]
      exact h2
    · rw [hid]
      exact h3
  refine ⟨?_, hclosed, ?_, ?_, ?_, ?_, ?_, ?_⟩
  · intro id c h
    obtain ⟨call, hc, hid⟩ := hinv.table id c (htable id c h)
    obtain ⟨call', hc', hid'⟩ := hcalls.forth c call hc
    exact ⟨call', hc', hid'.trans hid⟩
  · intro c call' h hin hconn
    obtain ⟨call, hc, hid, hphase, -, hconn'⟩ := hcalls.back c call' h
    rw [hphase] at hin
    rw [hrun]
    rcases hinv.sender c call hc hin (hconn' hconn) with h1 | h1
    · refine Or.inl (hsender c call' h hconn ?_)
      rw [hid]
      exact h1
    · exact Or.inr h1
  · intro c call' m h hb
    obtain ⟨call, hc, hid, -, hbuf, -⟩ := hcalls.back c call' h
    rw [hbuf] at hb
    exact hdeliv c call call' m hid (hinv.buffer c call m hc hb)
  · intro c call' v h hv
    obtain ⟨call, hc, hid, hphase, -, -⟩ := hcalls.back c call' h
    rw [hphase] at hv
    obtain ⟨m, hm, hrest⟩ := hinv.result c call v hc hv
    exact ⟨m, hdeliv c call call' m hid hm, hrest⟩
  · have hr := hinv.run
    rw [hrun]
    cases hphase : s.run with
    | response n m =>
      rw [hphase] at hr
      show s'.read[n]? = some m ∧ n ∉ s'.deliveries.map (·.1)
      rw [hread, hdel]
      exact hr
    | sending n m c =>
      rw [hphase] at hr
      obtain ⟨h1, h2, call, h3, h4⟩ := hr
      obtain ⟨call', h5, h6⟩ := hcalls.forth c call h3
      show s'.read[n]? = some m ∧ n ∉ s'.deliveries.map (·.1) ∧ _
      rw [hread, hdel]
      exact ⟨h1, h2, call', h5, by rw [h6]; exact h4⟩
    | _ => trivial
  · rw [hdel]
    exact hinv.once
  · rw [hdel, hread]
    exact hinv.bound

theorem inv_removeEntry {s : State} (hinv : Inv s) (id : Id) : Inv (removeEntry s id) := by
  have htable : ∀ id' c, (removeEntry s id).pending.calls id' = some c →
      s.pending.calls id' = some c ∧ id' ≠ id := by
    intro id' c h
    by_cases hid : id' = id
    · subst hid
      change Function.update s.pending.calls id' none id' = some c at h
      rw [Function.update_self] at h
      cases h
    · change Function.update s.pending.calls id none id' = some c at h
      rw [Function.update_of_ne hid] at h
      exact ⟨h, hid⟩
  have hkeep : ∀ id' c, id' ≠ id → s.pending.calls id' = some c →
      (removeEntry s id).pending.calls id' = some c := by
    intro id' c hid h
    show Function.update s.pending.calls id none id' = some c
    rw [Function.update_of_ne hid]
    exact h
  have hclosed : (removeEntry s id).pending.terminal.isSome = true →
      ∀ id', (removeEntry s id).pending.calls id' = none := by
    intro hterm id'
    cases h : (removeEntry s id).pending.calls id' with
    | none => rfl
    | some c =>
      have := (htable id' c h).1
      rw [hinv.closed hterm id'] at this
      cases this
  cases hheld : s.pending.calls id with
  | none =>
    have hcalls : (removeEntry s id).calls = s.calls := by
      simp only [removeEntry, hheld]
    refine inv_loses hinv ?_ rfl rfl rfl (fun id' c h => (htable id' c h).1) hclosed ?_
    · rw [hcalls]
      exact ⟨fun c call h => ⟨call, h, rfl, rfl, rfl, fun hc => hc⟩, fun c call h => ⟨call, h, rfl⟩⟩
    · intro c call' h hconn hs
      refine hkeep call'.id c (fun heq => ?_) hs
      rw [heq, hheld] at hs
      cases hs
  | some c0 =>
    have hcalls : (removeEntry s id).calls = disconnect s.calls c0 := by
      simp only [removeEntry, hheld]
    refine inv_loses hinv ?_ rfl rfl rfl (fun id' c h => (htable id' c h).1) hclosed ?_
    · rw [hcalls]
      exact loses_disconnect s.calls c0
    · intro c call' h hconn hs
      refine hkeep call'.id c (fun heq => ?_) hs
      -- the call under this id is the one that lost its sender
      rw [heq, hheld] at hs
      have hc : c0 = c := Option.some.inj hs
      rw [hcalls, hc] at h
      rw [disconnect_connected s.calls c call' h] at hconn
      cases hconn

/-- a sender goes to a free place of the table -/
theorem inv_addEntry {s : State} {c : Nat} {call : Call} {id : Id} (hinv : Inv s)
    (hterm : s.pending.terminal = none) (hcall : s.calls[c]? = some call) (hid : call.id = id)
    (hfree : s.pending.calls id = none) : Inv (addEntry s id c) := by
  have hother : ∀ id', id' ≠ id → (addEntry s id c).pending.calls id' = s.pending.calls id' :=
    fun id' hne => Function.update_of_ne hne ..
  refine ⟨?_, ?_, ?_, hinv.buffer, hinv.result, hinv.run, hinv.once, hinv.bound⟩
  · intro id' c' h
    by_cases hne : id' = id
    · subst hne
      have hself : (addEntry s id' c).pending.calls id' = some c := Function.update_self ..
      rw [hself] at h
      cases h
      exact ⟨call, hcall, hid⟩
    · rw [hother id' hne] at h
      exact hinv.table id' c' h
  · intro hsome
    change s.pending.terminal.isSome = true at hsome
    rw [hterm] at hsome
    cases hsome
  · intro c' call' h hin hconn
    rcases hinv.sender c' call' h hin hconn with h1 | h1
    · have hne : call'.id ≠ id := fun heq => by
        rw [heq, hfree] at h1
        cases h1
      rw [hother call'.id hne]
      exact Or.inl h1
    · exact Or.inr h1

/-- a terminal error is recorded and all entries go -/
theorem inv_close {s : State} (hinv : Inv s) (terminal : Option Error) (hasCause : Bool) :
    Inv (closePendingCallsLocked
      { s with pending := { s.pending with terminal := terminal, hasCause := hasCause } }) := by
  refine inv_loses hinv (loses_mapIdx s.calls s.pending.calls) rfl rfl rfl
    nofun (fun _ _ => rfl) ?_
  intro c call' h hconn hs
  change (s.calls.mapIdx _)[c]? = some call' at h
  rw [List.getElem?_mapIdx] at h
  obtain ⟨call, hcall, rfl⟩ := Option.map_eq_some_iff.1 h
  split at hconn
  next => cases hconn
  next hne =>
    rw [if_neg hne] at hs
    exact absurd hs hne

/-! ## The steps of the read loop -/

/-- the read loop moves to a phase in which it holds nothing -/
theorem inv_setRun {s : State} (hinv : Inv s) (run : RunPhase) (hfree : RunOk s run)
    (hhold : ∀ n m c, s.run ≠ .sending n m c) : Inv { s with run := run } := by
  refine ⟨hinv.table, hinv.closed, ?_, hinv.buffer, hinv.result, ?_, hinv.once, hinv.bound⟩
  · intro c call h hin hconn
    rcases hinv.sender c call h hin hconn with h1 | ⟨n, m, h1⟩
    · exact Or.inl h1
    · exact absurd h1 (hhold n m c)
  · cases run with
    | response n m => exact hfree
    | sending n m c => exact hfree
    | _ => trivial

/-- a message is read -/
theorem inv_read {s : State} (hinv : Inv s) (m : Message) (hrun : s.run = .reading) :
    Inv { s with read := s.read ++ [m] } := by
  have hget : ∀ (n : Nat) (m' : Message), s.read[n]? = some m' → (s.read ++ [m])[n]? = some m' := by
    intro n m' h
    obtain ⟨hn, -⟩ := List.getElem?_eq_some_iff.1 h
    rw [List.getElem?_append_left hn]
    exact h
  have hdeliv : ∀ c call m', Delivered s c call m' →
      Delivered { s with read := s.read ++ [m] } c call m' := by
    rintro c call m' ⟨n, h1, h2⟩
    exact ⟨n, hget n m' h1, h2⟩
  refine ⟨hinv.table, hinv.closed, hinv.sender, ?_, ?_, ?_, hinv.once, ?_⟩
  · exact fun c call m' h hb => hdeliv c call m' (hinv.buffer c call m' h hb)
  · intro c call v h hv
    obtain ⟨m', h1, h2⟩ := hinv.result c call v h hv
    exact ⟨m', hdeliv c call m' h1, h2⟩
  · show RunOk _ s.run
    rw [hrun]
    trivial
  · intro d hd
    have := hinv.bound d hd
    show d.1 < (s.read ++ [m]).length
    rw [List.length_append]
    omega

/-- the response goes to the call -/
theorem inv_send {s : State} {n : Nat} {m : Message} {c : Nat} (hinv : Inv s)
    (hrun : s.run = .sending n m c) :
    Inv { send s n m c with calls := disconnect (send s n m c).calls c, run := .idle } := by
  obtain ⟨hread, hnot, call, hcall, hid⟩ : s.read[n]? = some m ∧ n ∉ s.deliveries.map (·.1) ∧
      ∃ call, s.calls[c]? = some call ∧ m.id = some call.id := by
    have h := hinv.run
    rw [hrun] at h
    exact h
  -- without the sender of `c`
  have hdrop : Inv { s with calls := disconnect s.calls c, run := .idle } := by
    have hlose : Inv { s with calls := disconnect s.calls c } := by
      refine inv_loses hinv (loses_disconnect s.calls c) rfl rfl rfl (fun _ _ h => h) hinv.closed ?_
      exact fun _ _ _ _ h => h
    refine ⟨hlose.table, hlose.closed, ?_, hlose.buffer, hlose.result, trivial, hlose.once,
      hlose.bound⟩
    intro c' call' h hin hconn
    rcases hlose.sender c' call' h hin hconn with h1 | ⟨n', m', h1⟩
    · exact Or.inl h1
    · change s.run = .sending n' m' c' at h1
      rw [hrun] at h1
      cases h1
      rw [disconnect_connected s.calls c call' h] at hconn
      cases hconn
  unfold send
  split
  next => exact hdrop
  next => exact hdrop
  next => exact hdrop
  next call0 hret hbuf h0 =>
    have heq : call0 = call := by
      rw [hcall] at h0
      exact (Option.some.inj h0).symm
    have hn : n < s.read.length := (List.getElem?_eq_some_iff.1 hread).1
    have hdeliv : ∀ (c' : Nat) (call1 call2 : Call) (m' : Message), call2.id = call1.id →
        Delivered s c' call1 m' →
        Delivered { s with
          calls := disconnect (s.calls.modify c fun call => { call with buffer := some m }) c
          deliveries := s.deliveries ++ [(n, c)], run := .idle } c' call2 m' := by
      rintro c' call1 call2 m' hid' ⟨k, h1, h2, h3⟩
      exact ⟨k, h1, List.mem_append_left _ h2, by rw [hid']; exact h3⟩
    -- a call after the delivery is one before it, up to the buffer and the sender of `c`
    have hback : ∀ (c' : Nat) (call' : Call),
        (disconnect (s.calls.modify c fun call => { call with buffer := some m }) c)[c']? =
          some call' → ∃ call1, s.calls[c']? = some call1 ∧ call'.id = call1.id ∧
          call'.phase = call1.phase ∧ (c' = c ∧ call'.buffer = some m ∧ call'.connected = false ∨
            c' ≠ c ∧ call' = call1) := by
      intro c' call' h
      rcases getElem?_modify_cases _ c _ c' call' h with ⟨rfl, call1, h1, rfl⟩ | ⟨hne, h1⟩
      · rcases getElem?_modify_cases _ c' _ c' call1 h1 with ⟨-, call2, h2, rfl⟩ | ⟨hne, -⟩
        · exact ⟨call2, h2, rfl, rfl, Or.inl ⟨rfl, rfl, rfl⟩⟩
        · exact absurd rfl hne
      · rcases getElem?_modify_cases _ c _ c' call' h1 with ⟨heq', -⟩ | ⟨-, h2⟩
        · exact absurd heq' hne
        · exact ⟨call', h2, rfl, rfl, Or.inr ⟨hne, rfl⟩⟩
    refine ⟨?_, hinv.closed, ?_, ?_, ?_, trivial, ?_, ?_⟩
    · intro id c' h
      obtain ⟨call', hc', hid'⟩ := hinv.table id c' h
      refine ⟨_, getElem?_modify_some _ c _ c' _ (getElem?_modify_some s.calls c _ c' call' hc'), ?_⟩
      by_cases hcc : c = c'
      · rw [if_pos hcc, if_pos hcc]
        exact hid'
      · rw [if_neg hcc, if_neg hcc]
        exact hid'
    · intro c' call' h hin hconn
      obtain ⟨call1, h1, hid1, hphase1, hcase⟩ := hback c' call' h
      rcases hcase with ⟨-, -, hfalse⟩ | ⟨hne, rfl⟩
      · rw [hfalse] at hconn
        cases hconn
      · rcases hinv.sender c' call' h1 hin hconn with h2 | ⟨n', m', h2⟩
        · exact Or.inl h2
        · rw [hrun] at h2
          cases h2
          exact absurd rfl hne
    · intro c' call' m' h hb
      obtain ⟨call1, h1, hid1, -, hcase⟩ := hback c' call' h
      rcases hcase with ⟨rfl, hbuf', -⟩ | ⟨hne, rfl⟩
      · rw [hbuf'] at hb
        cases hb
        rw [hcall] at h1
        cases h1
        exact ⟨n, hread, List.mem_append_right _ (List.mem_singleton_self _), by rw [hid1]; exact hid⟩
      · exact hdeliv c' call' call' m' rfl (hinv.buffer c' call' m' h1 hb)
    · intro c' call' v h hv
      obtain ⟨call1, h1, hid1, hphase1, -⟩ := hback c' call' h
      rw [hphase1] at hv
      obtain ⟨m', h2, h3⟩ := hinv.result c' call1 v h1 hv
      exact ⟨m', hdeliv c' call1 call' m' hid1 h2, h3⟩
    · show ((s.deliveries ++ [(n, c)]).map (·.1)).Nodup
      rw [List.map_append]
      exact List.Nodup.append hinv.once (List.nodup_singleton _) (by simpa using hnot)
    · intro d hd
      rcases List.mem_append.1 hd with hd | hd
      · exact hinv.bound d hd
      · rw [List.mem_singleton.1 hd]
        exact hn

/-- the sender goes from the table to the read loop -/
theorem inv_take {s : State} {n : Nat} {m : Message} {id : Id} {c : Nat} (hinv : Inv s)
    (hrun : s.run = .response n m) (hid : m.id = some id) (hc : s.pending.calls id = some c) :
    Inv { s with
      pending := { s.pending with
        calls := fun id' => if some id' = m.id then none else s.pending.calls id' }
      run := .sending n m c } := by
  have htable : ∀ id' c', (if some id' = m.id then none else s.pending.calls id') = some c' →
      s.pending.calls id' = some c' := by
    intro id' c' h
    split at h
    next => cases h
    next => exact h
  refine ⟨fun id' c' h => hinv.table id' c' (htable id' c' h), ?_, ?_, hinv.buffer, hinv.result, ?_,
    hinv.once, hinv.bound⟩
  · intro hterm
    rw [hinv.closed hterm id] at hc
    cases hc
  · intro c' call' h hin hconn
    rcases hinv.sender c' call' h hin hconn with h1 | ⟨n', m', h1⟩
    · by_cases heq : some call'.id = m.id
      · -- the call under this id is the one whose sender was taken
        rw [hid] at heq
        cases heq
        rw [hc] at h1
        cases h1
        exact Or.inr ⟨n, m, rfl⟩
      · refine Or.inl ?_
        show (if some call'.id = m.id then none else s.pending.calls call'.id) = some c'
        rw [if_neg heq]
        exact h1
    · rw [hrun] at h1
      cases h1
  · have hr := hinv.run
    rw [hrun] at hr
    obtain ⟨call, hcall, hcid⟩ := hinv.table id c hc
    exact ⟨hr.1, hr.2, call, hcall, by rw [hid, hcid]⟩

theorem recordTerminal_calls (p : Pending) (error : Option Error) :
    ∃ terminal hasCause, (p.recordTerminalErrorLocked error).1 =
      { p with terminal := some terminal, hasCause := hasCause } := by
  unfold Pending.recordTerminalErrorLocked
  split
  next => exact ⟨_, _, rfl⟩
  next => exact ⟨_, _, rfl⟩
  next => exact ⟨_, _, rfl⟩
  next terminal hterm _ =>
    refine ⟨terminal, p.hasCause, ?_⟩
    cases p
    cases hterm
    rfl

/-! ## What a step can do -/

/-- a call moves when what it will return is what it was about to return, or what it makes of the
message in its channel -/
inductive Changes (s : State) : State → Prop where
  | call : Changes s { s with
      seq := s.seq + 1
      calls := s.calls ++ [⟨nextId s.seq, .begun, none, true⟩] }
  | moves (c : Nat) (call : Call) (phase : CallPhase) (hcall : s.calls[c]? = some call)
      (hinside : phase.inside = true → call.phase.inside = true)
      (hresult : ∀ v, phase.result = some (.ok v) → call.phase.result = some (.ok v) ∨
        ∃ m, call.buffer = some m ∧ takeResponse m = .ok v) : Changes s (setPhase s c phase)
  | registers (c : Nat) (call : Call) (hcall : s.calls[c]? = some call)
      (hterm : s.pending.terminal = none) :
      Changes s (setPhase (addEntry (removeEntry s call.id) call.id c) c .registered)
  | leaves (c : Nat) (call : Call) (result : Except Error Text) (hcall : s.calls[c]? = some call)
      (hphase : call.phase = .leaving result) :
      Changes s (setPhase (removeEntry s call.id) c (.dropping result))
  | runs (run : RunPhase) (requestError : Option Error) (hfree : RunOk s run)
      (hhold : ∀ n m c, s.run ≠ .sending n m c) :
      Changes s { s with run := run, requestError := requestError }
  | reads (m : Message) (hrun : s.run = .reading) (handlers : List HandlerPhase) (run : RunPhase)
      (hnext : run = .response s.read.length m ∨ run = .idle) :
      Changes s { s with read := s.read ++ [m], run := run, handlers := handlers }
  | takes (n : Nat) (m : Message) (id : Id) (c : Nat) (hrun : s.run = .response n m)
      (hid : m.id = some id) (hc : s.pending.calls id = some c) : Changes s { s with
        pending := { s.pending with
          calls := fun id' => if some id' = m.id then none else s.pending.calls id' }
        run := .sending n m c }
  | sends (n : Nat) (m : Message) (c : Nat) (hrun : s.run = .sending n m c) :
      Changes s { send s n m c with calls := disconnect (send s n m c).calls c, run := .idle }
  | handles (handlers : List HandlerPhase) : Changes s { s with handlers := handlers }
  | closes (error requestError : Option Error) (handlers : List HandlerPhase) (run : RunPhase)
      (hrun : run = s.run ∨ (∀ n m c, s.run ≠ .sending n m c) ∧ ∃ result, run = .waiting result) :
      Changes s { closePendingCallsLocked { s with
        pending := (s.pending.recordTerminalErrorLocked error).1, requestError := requestError } with
        run := run, handlers := handlers }

theorem stepCall_changes {s s' : State} {c : Nat} {call : Call} {a : Action}
    (hcall : s.calls[c]? = some call) (h : stepCall c s call a = some s') : Changes s s' := by
  -- a phase that is not about to return a value
  have stay : ∀ phase : CallPhase, (phase.inside = true → call.phase.inside = true) →
      (∀ v, phase.result ≠ some (.ok v)) → Changes s (setPhase s c phase) :=
    fun phase hin hno => .moves c call phase hcall hin fun v hv => absurd hv (hno v)
  cases a with
  | register c' =>
    simp only [stepCall] at h
    split at h
    next =>
      split at h
      next error _ =>
        cases h
        exact stay _ nofun nofun
      next hterm =>
        cases h
        exact .registers c call hcall hterm
    next => cases h
  | write c' failure =>
    simp only [stepCall] at h
    split at h
    next hphase =>
      cases failure <;>
      · cases h
        exact stay _ (fun _ => by rw [hphase]; rfl) nofun
    next => cases h
  | recv c' =>
    simp only [stepCall] at h
    split at h
    next hphase =>
      split at h
      next m hbuf =>
        cases h
        exact .moves c call _ hcall (fun _ => by rw [hphase]; rfl)
          fun v hv => Or.inr ⟨m, hbuf, Option.some.inj hv⟩
      next =>
        split at h
        next => cases h
        next =>
          cases h
          exact stay _ (fun _ => by rw [hphase]; rfl) nofun
    next => cases h
  | expire _ _ | terminal _ =>
    simp only [stepCall] at h
    split at h
    next hphase =>
      cases h
      exact stay _ (fun _ => by rw [hphase]; rfl) nofun
    next => cases h
  | leave c' =>
    simp only [stepCall] at h
    split at h
    next result hphase =>
      cases h
      exact .leaves c call result hcall hphase
    next => cases h
  | drop c' =>
    simp only [stepCall] at h
    split at h
    next result hphase =>
      cases h
      exact .moves c call _ hcall nofun fun v hv => Or.inl (by rw [hphase]; exact hv)
    next => cases h
  | _ => cases h

theorem stepRun_changes {s s' : State} {a : Action} (h : stepRun s a = some s') : Changes s s' := by
  have free : ∀ {run : RunPhase}, s.run = run → (∀ n m c, run ≠ .sending n m c) →
      ∀ n m c, s.run ≠ .sending n m c := fun hrun hne n m c heq => hne n m c (hrun.symm.trans heq)
  cases a with
  | runCheck canceled =>
    simp only [stepRun] at h
    split at h
    next hrun =>
      cases canceled <;>
      · cases h
        exact .runs _ s.requestError trivial (free hrun nofun)
    next => cases h
  | runRead result =>
    simp only [stepRun] at h
    split at h
    next hrun =>
      cases result with
      | message m =>
        cases h
        unfold dispatch
        split
        next => exact .reads m hrun s.handlers _ (Or.inl rfl)
        next =>
          split
          next => exact .reads m hrun _ _ (Or.inr rfl)
          next =>
            split
            next => exact .reads m hrun _ _ (Or.inr rfl)
            next => exact .reads m hrun s.handlers _ (Or.inr rfl)
      | eof | failed _ =>
        cases h
        exact .runs _ s.requestError trivial (free hrun nofun)
    next => cases h
  | runTake =>
    simp only [stepRun] at h
    split at h
    next n m hrun =>
      split at h
      next c hc =>
        cases h
        obtain ⟨id, hid, hcalls⟩ := Option.bind_eq_some_iff.1 hc
        exact .takes n m id c hrun hid hcalls
      next =>
        cases h
        exact .runs _ s.requestError trivial (free hrun nofun)
    next => cases h
  | runSend =>
    simp only [stepRun] at h
    split at h
    next n m c hrun =>
      cases h
      exact .sends n m c hrun
    next => cases h
  | runClose =>
    simp only [stepRun] at h
    split at h
    next result hrun =>
      cases h
      exact .closes (errorOf result) s.requestError s.handlers _ (Or.inr ⟨free hrun nofun, result, rfl⟩)
    next => cases h
  | runEnd =>
    simp only [stepRun] at h
    split at h
    next result hrun =>
      split at h
      next =>
        cases h
        exact .runs _ none trivial (free hrun nofun)
      next => cases h
    next => cases h
  | _ => cases h

theorem stepHandler_changes {s s' : State} {h : Nat} {phase : HandlerPhase} {a : Action}
    (hs : stepHandler h s phase a = some s') : Changes s s' := by
  cases a with
  | handlerReturn h' failure =>
    simp only [stepHandler] at hs
    split at hs
    next =>
      cases failure <;>
      · cases hs
        exact .handles _
    next =>
      cases hs
      exact .handles _
    next => cases hs
  | handlerRecord h' =>
    simp only [stepHandler] at hs
    split at hs
    next error =>
      cases hs
      unfold recordRequestError
      simp only
      split
      next => exact .closes (some error) _ _ s.run (Or.inl rfl)
      next => exact .handles _
    next => cases hs
  | handlerClose h' =>
    simp only [stepHandler] at hs
    split at hs
    next =>
      cases hs
      exact .handles _
    next => cases hs
  | _ => cases hs

theorem step_changes {a : Action} {s s' : State} (h : step a s = some s') : Changes s s' := by
  have hcallStep : ∀ c, ((s.calls[c]?).bind fun call => stepCall c s call a) = some s' →
      Changes s s' := fun c hb => by
    obtain ⟨call, hcall, hstep⟩ := Option.bind_eq_some_iff.1 hb
    exact stepCall_changes hcall hstep
  have hhandlerStep : ∀ h', ((s.handlers[h']?).bind fun phase => stepHandler h' s phase a) = some s' →
      Changes s s' := fun h' hb => by
    obtain ⟨phase, -, hstep⟩ := Option.bind_eq_some_iff.1 hb
    exact stepHandler_changes hstep
  cases a with
  | call =>
    cases h
    exact .call
  | register c | write c _ | expire c _ | recv c | terminal c | leave c | drop c => exact hcallStep c h
  | runCheck canceled => exact stepRun_changes (a := .runCheck canceled) h
  | runRead result => exact stepRun_changes (a := .runRead result) h
  | runTake => exact stepRun_changes (a := .runTake) h
  | runSend => exact stepRun_changes (a := .runSend) h
  | runClose => exact stepRun_changes (a := .runClose) h
  | runEnd => exact stepRun_changes (a := .runEnd) h
  | handlerReturn h' _ | handlerRecord h' | handlerClose h' => exact hhandlerStep h' h

/-! ## Steps keep the invariant -/

/-- fields that the invariant does not speak of -/
theorem Inv.frame {s s' : State} (hinv : Inv s) (hpending : s'.pending = s.pending)
    (hcalls : s'.calls = s.calls) (hrun : s'.run = s.run) (hread : s'.read = s.read)
    (hdel : s'.deliveries = s.deliveries) : Inv s' := by
  obtain ⟨seq, pending, calls, run, handlers, requestError, read, deliveries, registrations⟩ := s'
  cases hpending
  cases hcalls
  cases hrun
  cases hread
  cases hdel
  exact ⟨hinv.table, hinv.closed, hinv.sender, hinv.buffer, hinv.result, hinv.run, hinv.once, hinv.bound⟩

/-- a call behind the removal of an entry -/
theorem removeEntry_call (s : State) (id : Id) {c : Nat} {call : Call} (hcall : s.calls[c]? = some call) :
    ∃ call1, (removeEntry s id).calls[c]? = some call1 ∧ call1.id = call.id ∧
      call1.phase = call.phase := by
  simp only [removeEntry]
  split
  next c0 _ =>
    obtain ⟨call1, h1, hid⟩ := (loses_disconnect s.calls c0).forth c call hcall
    obtain ⟨call2, h2, -, h3, -⟩ := (loses_disconnect s.calls c0).back c call1 h1
    rw [hcall] at h2
    cases h2
    exact ⟨call1, h1, hid, h3⟩
  next => exact ⟨call, hcall, rfl, rfl⟩

/-- a call begins -/
theorem inv_call {s : State} (hinv : Inv s) : Inv { s with
    seq := s.seq + 1
    calls := s.calls ++ [⟨nextId s.seq, .begun, none, true⟩] } := by
  have hget : ∀ (c : Nat) (call : Call),
      (s.calls ++ [⟨nextId s.seq, .begun, none, true⟩])[c]? = some call →
      s.calls[c]? = some call ∨ call.phase = .begun ∧ call.buffer = none := by
    intro c call hc
    rw [List.getElem?_append] at hc
    split at hc
    next => exact Or.inl hc
    next =>
      rw [List.mem_singleton.1 (List.mem_of_getElem? hc)]
      exact Or.inr ⟨rfl, rfl⟩
  have hleft : ∀ (c : Nat) (call : Call), s.calls[c]? = some call →
      (s.calls ++ [⟨nextId s.seq, .begun, none, true⟩])[c]? = some call := by
    intro c call hc
    obtain ⟨hlt, -⟩ := List.getElem?_eq_some_iff.1 hc
    rw [List.getElem?_append_left hlt]
    exact hc
  refine ⟨?_, hinv.closed, ?_, ?_, ?_, ?_, hinv.once, hinv.bound⟩
  · intro id c hc
    obtain ⟨call, h1, h2⟩ := hinv.table id c hc
    exact ⟨call, hleft c call h1, h2⟩
  · intro c call hc hin
    rcases hget c call hc with hc | ⟨hb, -⟩
    · exact hinv.sender c call hc hin
    · rw [hb] at hin
      cases hin
  · intro c call m hc hbuf
    rcases hget c call hc with hc | ⟨-, hb⟩
    · exact hinv.buffer c call m hc hbuf
    · rw [hb] at hbuf
      cases hbuf
  · intro c call v hc hv
    rcases hget c call hc with hc | ⟨hb, -⟩
    · exact hinv.result c call v hc hv
    · rw [hb] at hv
      cases hv
  · have hr := hinv.run
    show RunOk _ s.run
    cases hrun : s.run with
    | response n m =>
      rw [hrun] at hr
      exact hr
    | sending n m c =>
      rw [hrun] at hr
      obtain ⟨h1, h2, call, h3, h4⟩ := hr
      exact ⟨h1, h2, call, hleft c call h3, h4⟩
    | _ => trivial

theorem inv_step (a : Action) (s s' : State) (hinv : Inv s) (h : step a s = some s') : Inv s' := by
  cases step_changes h with
  | call => exact inv_call hinv
  | moves c call phase hcall hinside hresult =>
    refine inv_setPhase hinv hcall (fun hin => hinv.sender c call hcall (hinside hin)) fun v hv => ?_
    rcases hresult v hv with hold | ⟨m, hbuf, htake⟩
    · exact hinv.result c call v hcall hold
    · unfold takeResponse at htake
      split at htake
      next => cases htake
      next herr =>
        cases htake
        exact ⟨m, hinv.buffer c call m hcall hbuf, herr, rfl⟩
  | registers c call hcall hterm =>
    -- the entry under the id is gone, and the sender of the call takes its place
    obtain ⟨call1, hcall1, hid1, -⟩ := removeEntry_call s call.id hcall
    have hins := inv_addEntry (inv_removeEntry hinv call.id) hterm hcall1 hid1
      (Function.update_self ..)
    refine inv_setPhase hins hcall1 (fun _ _ => Or.inl ?_) nofun
    rw [hid1]
    exact Function.update_self ..
  | leaves c call result hcall hphase =>
    have hrem := inv_removeEntry hinv call.id
    obtain ⟨call1, hcall1, -, hphase1⟩ := removeEntry_call s call.id hcall
    refine inv_setPhase hrem hcall1 nofun fun v hv => hrem.result c call1 v hcall1 ?_
    rw [hphase1, hphase]
    exact hv
  | runs run requestError hfree hhold =>
    exact (inv_setRun hinv run hfree hhold).frame rfl rfl rfl rfl rfl
  | reads m hrun handlers run hnext =>
    have hhold : ∀ n m' c, s.run ≠ .sending n m' c := fun n m' c heq => by
      rw [hrun] at heq
      cases heq
    have hread := inv_read hinv m hrun
    refine (inv_setRun hread run ?_ hhold).frame rfl rfl rfl rfl rfl
    rcases hnext with rfl | rfl
    · refine ⟨?_, fun hmem => ?_⟩
      · show (s.read ++ [m])[s.read.length]? = some m
        rw [List.getElem?_append_right (Nat.le_refl _), Nat.sub_self]
        rfl
      · obtain ⟨d, hd, heq⟩ := List.mem_map.1 hmem
        have := hinv.bound d hd
        omega
    · trivial
  | takes n m id c hrun hid hc => exact inv_take hinv hrun hid hc
  | sends n m c hrun => exact inv_send hinv hrun
  | handles handlers => exact hinv.frame rfl rfl rfl rfl rfl
  | closes error requestError handlers run hrun =>
    obtain ⟨terminal, hasCause, heq⟩ := recordTerminal_calls s.pending error
    rw [heq]
    have hclose := inv_close hinv (some terminal) hasCause
    rcases hrun with rfl | ⟨hhold, result, rfl⟩
    · exact hclose.frame rfl rfl rfl rfl rfl
    · exact (inv_setRun hclose (.waiting result) trivial hhold).frame rfl rfl rfl rfl rfl

/-! ## After the terminal error -/

/-- the terminal error stays, and nothing is registered behind it -/
theorem terminal_step (a : Action) (s s' : State) (hterm : s.pending.terminal.isSome = true)
    (h : step a s = some s') :
    s'.pending.terminal.isSome = true ∧ s'.registrations = s.registrations := by
  cases step_changes h with
  | registers c call hcall hnone =>
    rw [hnone] at hterm
    cases hterm
  | sends n m c hrun =>
    show (send s n m c).pending.terminal.isSome = true ∧
      (send s n m c).registrations = s.registrations
    unfold send
    split <;> exact ⟨hterm, rfl⟩
  | closes error requestError handlers run hrun =>
    obtain ⟨terminal, hasCause, heq⟩ := recordTerminal_calls s.pending error
    rw [heq]
    exact ⟨rfl, rfl⟩
  | _ => exact ⟨hterm, rfl⟩

/-! ## Waking up -/

/-- a call with a message in its channel, or without a sender, gets to its return -/
theorem wake_of_channel (s : State) (c : Nat) (call : Call) (hcall : s.calls[c]? = some call)
    (hphase : call.phase = .waiting) (h : call.buffer.isSome = true ∨ call.connected = false) :
    CanWake s c := by
  cases hbuf : call.buffer with
  | some m =>
    refine ⟨[.recv c], setPhase s c (.leaving (takeResponse m)), _, Nat.le_succ 1, ?_,
      getElem?_modify_some s.calls c _ c call hcall, ?_⟩
    · simp [exec, step, hcall, stepCall, hphase, hbuf]
    · rw [if_pos rfl]
      rfl
  | none =>
    have hconn : call.connected = false := by
      rcases h with h | h
      · rw [hbuf] at h
        cases h
      · exact h
    have h1 := getElem?_modify_some s.calls c (fun call => { call with phase := .disconnected }) c call
      hcall
    rw [if_pos rfl] at h1
    have h2 := getElem?_modify_some (setPhase s c .disconnected).calls c
      (fun call => { call with
        phase := .leaving (.error (s.pending.terminal.getD (.connClosed none))) }) c _ h1
    rw [if_pos rfl] at h2
    refine ⟨[.recv c, .terminal c], setPhase (setPhase s c .disconnected) c
      (.leaving (.error (s.pending.terminal.getD (.connClosed none)))), _, Nat.le_refl 2, ?_, h2, rfl⟩
    have hfirst : step (.recv c) s = some (setPhase s c .disconnected) := by
      simp [step, hcall, stepCall, hphase, hbuf, hconn]
    have hsecond : step (.terminal c) (setPhase s c .disconnected) = some (setPhase
        (setPhase s c .disconnected) c
        (.leaving (.error (s.pending.terminal.getD (.connClosed none))))) := by
      have hget : (setPhase s c .disconnected).calls[c]? =
        some { call with phase := .disconnected } := h1
      simp only [step, hget, Option.bind_some, stepCall]
      rfl
    exact (exec_cons step _ _ _ _).2 ⟨_, hfirst, (exec_cons step _ _ _ _).2 ⟨_, hsecond, rfl⟩⟩

theorem wake_of_inv (s : State) (hinv : Inv s) (hterm : s.pending.terminal.isSome = true) (c : Nat)
    (call : Call) (hcall : s.calls[c]? = some call) (hphase : call.phase = .waiting) : CanWake s c := by
  by_cases hch : call.buffer.isSome = true ∨ call.connected = false
  · exact wake_of_channel s c call hcall hphase hch
  · rw [not_or, Bool.not_eq_true, Bool.not_eq_false, Option.isSome_eq_false_iff,
      Option.isNone_iff_eq_none] at hch
    obtain ⟨hbuf, hconn⟩ := hch
    rcases hinv.sender c call hcall (by rw [hphase]; rfl) hconn with h | ⟨n, m, hrun⟩
    · rw [hinv.closed hterm] at h
      cases h
    · -- the read loop sends the response first
      have hsend : send s n m c = { s with
          calls := s.calls.modify c fun call => { call with buffer := some m }
          deliveries := s.deliveries ++ [(n, c)] } := by
        unfold send
        rw [hcall]
        obtain ⟨id, phase, buffer, connected⟩ := call
        cases hphase
        cases hbuf
        rfl
      have hcall1 := getElem?_modify_some _ c (fun call => { call with connected := false }) c _
        (getElem?_modify_some s.calls c (fun call => { call with buffer := some m }) c call hcall)
      rw [if_pos rfl, if_pos rfl] at hcall1
      have hfirst : step .runSend s = some { send s n m c with
          calls := disconnect (send s n m c).calls c, run := .idle } := by
        simp only [step, stepRun, hrun]
      rw [hsend] at hfirst
      generalize hs1 : ({ s with
        calls := disconnect (s.calls.modify c fun call => { call with buffer := some m }) c
        deliveries := s.deliveries ++ [(n, c)]
        run := .idle } : State) = s1
      have hget : s1.calls[c]? = some { call with buffer := some m, connected := false } := by
        rw [← hs1]
        exact hcall1
      have h2 := getElem?_modify_some s1.calls c
        (fun call => { call with phase := .leaving (takeResponse m) }) c _ hget
      rw [if_pos rfl] at h2
      have hsecond : step (.recv c) s1 = some (setPhase s1 c (.leaving (takeResponse m))) := by
        simp only [step, hget, Option.bind_some, stepCall, hphase]
      refine ⟨[.runSend, .recv c], setPhase s1 c (.leaving (takeResponse m)), _, Nat.le_refl 2,
        (exec_cons step _ _ _ _).2 ⟨s1, ?_, (exec_cons step _ _ _ _).2 ⟨_, hsecond, rfl⟩⟩, h2, rfl⟩
      rw [hfirst, ← hs1]

/-! ## The main result -/

/-- the first call is answered; the second one waits when the read loop ends -/
def twoCalls : List Action :=
  [.call, .register 0, .write 0 none, .call, .register 1, .write 1 none, .runCheck none,
    .runRead (.message ⟨some (nextId 0), [], some [49], none⟩), .runTake, .runSend, .recv 0,
    .leave 0, .drop 0, .runCheck none, .runRead .eof, .runClose]

end Tsr.Ipc.ConnAsync
