import Tsr.Lib.Run
import Tsr.Ipc.Message

/-!
# The synchronous connection

Calls from any threads take turns under one lock: a call writes its request and reads the next
message, which is its reply if it carries the method's name.  The read loop reads under the same
lock.  The peer answers the requests that it receives once each, in order, and may send requests and
notifications of its own.

* `step`            every step of the calls, of the read loop and of the peer;
* `Answered`        a call returns only what the peer answered to its own request;
* `meets`           no call is written while a reply to an earlier one that carries the name of its
                    method is on the way;
* `answered_of_meets`   the property, in every run that meets the condition.

A call that gives up behind its write leaves its reply in the stream, where the next call of the
same method takes it for its own (`canceled_reply_is_taken`).
-/

namespace Tsr.Ipc.ConnSync
open Tsr.Lib.Run

/-! ## The connection -/

/-- `written` is behind the write, `checked` behind the look at the context -/
inductive CallPhase where
  | begun
  | locked
  | written
  | checked
  | returned (result : Except Error Text)

structure Call where
  method : Text
  phase : CallPhase

inductive RunPhase where
  | idle
  | locking
  | reading
  | handling
  | ended (result : Except Error Unit)

inductive Holder where
  | call (c : Nat)
  | run
deriving DecidableEq

/-- a message on its way to the connection; `owner` is the call that it answers -/
structure Inbound where
  owner : Option Nat
  message : Message

/-- `peer` are the requests that the peer received and did not answer, `answers` those that it
answered -/
structure State where
  io : Option Holder
  calls : List Call
  run : RunPhase
  peer : List (Nat × Id)
  inbound : List Inbound
  answers : List (Nat × Message)

def State.init : State := ⟨none, [], .idle, [], [], []⟩

/-- what a call makes of the message that it reads -/
def takeReply (method : Text) (m : Message) : Except Error Text :=
  if m.isResponse && m.id.any fun got => got.toText == method then
    match m.error with
    | some error => .error (.remote error.code error.message)
    | none => .ok (m.result.getD [])
  else .error (.unexpectedMessage method)

/-- a failed read may have taken the message -/
inductive Read where
  | next
  | failed (error : Error) (taken : Bool)

/-- `write` says whether it failed and whether the peer received the request; the contexts, the
protocol, the handler and the peer are free -/
inductive Action where
  | call (method : Text)
  | lock (c : Nat)
  | write (c : Nat) (failure : Option Error) (received : Bool)
  | check (c : Nat) (canceled : Option ContextError)
  | read (c : Nat) (result : Read)
  | runCheck (canceled : Option ContextError)
  | runLock
  | runRead (result : Read) (eof : Bool)
  | runHandled (failure : Option Error)
  | peerAnswer (result : Option Text) (error : Option ResponseError)
  | peerSend (m : Message)

def setPhase (s : State) (c : Nat) (phase : CallPhase) : State :=
  { s with calls := s.calls.modify c fun call => { call with phase := phase } }

/-- the call returns and gives the lock back -/
def finish (s : State) (c : Nat) (result : Except Error Text) : State :=
  { setPhase s c (.returned result) with io := none }

def stepCall (c : Nat) (s : State) (call : Call) : Action → Option State
  | .lock _ =>
    match call.phase, s.io with
    | .begun, none => some { setPhase s c .locked with io := some (.call c) }
    | _, _ => none
  | .write _ failure received =>
    match call.phase with
    | .locked =>
      let s := if received then { s with peer := s.peer ++ [(c, Id.ofString call.method)] } else s
      match failure with
      | some error => some (finish s c (.error error))
      | none => if received then some (setPhase s c .written) else none
    | _ => none
  | .check _ canceled =>
    match call.phase with
    | .written =>
      match canceled with
      | some error => some (finish s c (.error (.context error)))
      | none => some (setPhase s c .checked)
    | _ => none
  | .read _ result =>
    match call.phase with
    | .checked =>
      match result, s.inbound with
      | .next, next :: rest =>
        some (finish { s with inbound := rest } c (takeReply call.method next.message))
      | .next, [] => none
      | .failed error taken, inbound =>
        some (finish { s with inbound := if taken then inbound.tail else inbound } c (.error error))
    | _ => none
  | _ => none

/-- a request is handled with the lock free, a notification at once -/
def runMessage (m : Message) : RunPhase :=
  if m.isRequest then .handling
  else if m.isNotification then .idle
  else .ended (.error .unexpectedResponse)

def stepRun (s : State) : Action → Option State
  | .runCheck canceled =>
    match s.run with
    | .idle =>
      match canceled with
      | some error => some { s with run := .ended (.error (.context error)) }
      | none => some { s with run := .locking }
    | _ => none
  | .runLock =>
    match s.run, s.io with
    | .locking, none => some { s with run := .reading, io := some .run }
    | _, _ => none
  | .runRead result eof =>
    match s.run with
    | .reading =>
      match result, s.inbound with
      | .next, next :: rest =>
        some { s with io := none, inbound := rest, run := runMessage next.message }
      | .next, [] => none
      | .failed error taken, inbound =>
        some { s with
          io := none
          inbound := if taken then inbound.tail else inbound
          run := .ended (if eof then .ok () else .error error) }
    | _ => none
  | .runHandled failure =>
    match s.run with
    | .handling =>
      match failure with
      | some error => some { s with run := .ended (.error error) }
      | none => some { s with run := .idle }
    | _ => none
  | _ => none

/-- a reply carries the id of its request -/
def stepPeer (s : State) : Action → Option State
  | .peerAnswer result error =>
    match s.peer with
    | (c, id) :: rest =>
      let m : Message := ⟨some id, [], result, error⟩
      some { s with
        peer := rest
        inbound := s.inbound ++ [⟨some c, m⟩]
        answers := s.answers ++ [(c, m)] }
    | [] => none
  | .peerSend m => if m.isResponse then none else some { s with inbound := s.inbound ++ [⟨none, m⟩] }
  | _ => none

def step (a : Action) (s : State) : Option State :=
  match a with
  | .call method => some { s with calls := s.calls ++ [⟨method, .begun⟩] }
  | .lock c | .write c _ _ | .check c _ | .read c _ => (s.calls[c]?).bind fun call => stepCall c s call a
  | .runCheck _ | .runLock | .runRead _ _ | .runHandled _ => stepRun s a
  | .peerAnswer _ _ | .peerSend _ => stepPeer s a

/-! ## The property and the condition -/

/-- a call that returned a value returned the peer's answer to its own request -/
def Answered (s : State) : Prop :=
  ∀ (c : Nat) (call : Call) (v : Text), s.calls[c]? = some call → call.phase = .returned (.ok v) →
    ∃ m, (c, m) ∈ s.answers ∧ m.error = none ∧ v = m.result.getD []

/-- the calls whose replies are on the way, with the ids that these carry -/
def onTheWay (s : State) : List (Nat × Id) :=
  s.peer ++ s.inbound.filterMap fun i => i.owner.bind fun c => i.message.id.map fun id => (c, id)

/-- a request is written only when no reply that carries the name of its method is on the way -/
def meets (a : Action) (s : State) : Bool :=
  match a with
  | .write c _ true => (s.calls[c]?).all fun call =>
      (onTheWay s).all fun entry => entry.2.toText != call.method
  | _ => true

/-! ## The invariant -/

/-- the call has the lock -/
def CallPhase.holding : CallPhase → Bool
  | .locked | .written | .checked => true
  | _ => false

/-- the call waits for its reply -/
def CallPhase.waiting : CallPhase → Bool
  | .written | .checked => true
  | _ => false

structure Inv (s : State) : Prop where
  response : ∀ i ∈ s.inbound, i.message.isResponse = true → ∃ c, i.owner = some c
  answer : ∀ i ∈ s.inbound, ∀ c, i.owner = some c → (c, i.message) ∈ s.answers
  lock : ∀ (c : Nat) (call : Call), s.calls[c]? = some call → call.phase.holding = true →
    s.io = some (.call c)
  run : s.run = .reading → s.io = some .run
  mine : ∀ (c : Nat) (call : Call), s.calls[c]? = some call → call.phase.waiting = true →
    ∀ entry ∈ onTheWay s, entry.2.toText = call.method → entry.1 = c
  answered : Answered s

theorem inv_init : Inv State.init where
  response := nofun
  answer := nofun
  lock := nofun
  run := nofun
  mine := nofun
  answered := nofun

theorem holding_of_waiting (phase : CallPhase) (h : phase.waiting = true) : phase.holding = true := by
  cases phase <;> first | rfl | cases h

theorem getElem?_setPhase (s : State) (c : Nat) (phase : CallPhase) (call : Call)
    (hcall : s.calls[c]? = some call) (c' : Nat) (call' : Call)
    (h : (setPhase s c phase).calls[c']? = some call') :
    (c' = c ∧ call' = { call with phase := phase }) ∨ (c' ≠ c ∧ s.calls[c']? = some call') := by
  change (s.calls.modify c _)[c']? = some call' at h
  by_cases hc : c = c'
  · subst hc
    rw [List.getElem?_modify_eq, hcall] at h
    exact Or.inl ⟨rfl, (Option.some.inj h).symm⟩
  · rw [List.getElem?_modify_ne _ _ hc] at h
    exact Or.inr ⟨Ne.symm hc, h⟩

/-- one call moves, and no other one has the lock -/
theorem inv_move {s s' : State} {c : Nat} {call : Call} {phase : CallPhase} (hinv : Inv s)
    (hcall : s.calls[c]? = some call) (hio : s.io = none ∨ s.io = some (.call c))
    (hcalls : s'.calls = (setPhase s c phase).calls) (hrun : s'.run = s.run)
    (hinbound : ∀ i ∈ s'.inbound, i ∈ s.inbound) (hanswers : s'.answers = s.answers)
    (hio' : phase.holding = true → s'.io = some (.call c))
    (hmine : phase.waiting = true → ∀ entry ∈ onTheWay s', entry.2.toText = call.method → entry.1 = c)
    (hok : ∀ v, phase = .returned (.ok v) →
      ∃ m, (c, m) ∈ s.answers ∧ m.error = none ∧ v = m.result.getD []) : Inv s' := by
  have hother : ∀ (c' : Nat) (call' : Call), c' ≠ c → s.calls[c']? = some call' →
      ¬ call'.phase.holding = true := by
    intro c' call' hne h hhold
    rw [hinv.lock c' call' h hhold] at hio
    rcases hio with hio | hio
    · cases hio
    · cases hio
      exact hne rfl
  refine ⟨?_, ?_, ?_, ?_, ?_, ?_⟩
  · exact fun i hi => hinv.response i (hinbound i hi)
  · intro i hi
    rw [hanswers]
    exact hinv.answer i (hinbound i hi)
  · intro c' call' h hhold
    rw [hcalls] at h
    rcases getElem?_setPhase s c phase call hcall c' call' h with ⟨rfl, rfl⟩ | ⟨hne, h⟩
    · exact hio' hhold
    · exact absurd hhold (hother c' call' hne h)
  · intro hread
    rw [hrun] at hread
    rw [hinv.run hread] at hio
    rcases hio with hio | hio
    · cases hio
    · cases hio
  · intro c' call' h hwait
    rw [hcalls] at h
    rcases getElem?_setPhase s c phase call hcall c' call' h with ⟨rfl, rfl⟩ | ⟨hne, h⟩
    · exact hmine hwait
    · exact absurd (holding_of_waiting _ hwait) (hother c' call' hne h)
  · intro c' call' v h hv
    rw [hcalls] at h
    rw [hanswers]
    rcases getElem?_setPhase s c phase call hcall c' call' h with ⟨rfl, rfl⟩ | ⟨-, h⟩
    · exact hok v hv
    · exact hinv.answered c' call' v h hv

/-- one call returns an error -/
theorem inv_failed {s s' : State} {c : Nat} {call : Call} {error : Error} (hinv : Inv s)
    (hcall : s.calls[c]? = some call) (hio : s.io = none ∨ s.io = some (.call c))
    (hcalls : s'.calls = (setPhase s c (.returned (.error error))).calls) (hrun : s'.run = s.run)
    (hinbound : ∀ i ∈ s'.inbound, i ∈ s.inbound) (hanswers : s'.answers = s.answers) : Inv s' := by
  refine inv_move hinv hcall hio hcalls hrun hinbound hanswers
    (fun h => absurd h Bool.false_ne_true) (fun h => absurd h Bool.false_ne_true) (fun v hv => ?_)
  cases hv

/-- the calls stay as they are -/
theorem inv_frame {s s' : State} (hinv : Inv s) (hcalls : s'.calls = s.calls)
    (hresponse : ∀ i ∈ s'.inbound, i.message.isResponse = true → ∃ c, i.owner = some c)
    (hanswer : ∀ i ∈ s'.inbound, ∀ c, i.owner = some c → (c, i.message) ∈ s'.answers)
    (hanswers : ∀ a ∈ s.answers, a ∈ s'.answers)
    (hio : ∀ c, s.io = some (.call c) → s'.io = some (.call c))
    (hrun : s'.run = .reading → s'.io = some .run)
    (hway : ∀ entry ∈ onTheWay s', entry ∈ onTheWay s) : Inv s' := by
  refine ⟨hresponse, hanswer, ?_, hrun, ?_, ?_⟩
  · intro c call h hhold
    rw [hcalls] at h
    exact hio c (hinv.lock c call h hhold)
  · intro c call h hwait entry hentry
    rw [hcalls] at h
    exact hinv.mine c call h hwait entry (hway entry hentry)
  · intro c call v h hv
    rw [hcalls] at h
    obtain ⟨m, hm, hrest⟩ := hinv.answered c call v h hv
    exact ⟨m, hanswers _ hm, hrest⟩

/-- replies that are taken out of the stream are not on the way any more -/
theorem onTheWay_subset {s s' : State} (hpeer : s'.peer = s.peer)
    (hinbound : ∀ i ∈ s'.inbound, i ∈ s.inbound) : ∀ entry ∈ onTheWay s', entry ∈ onTheWay s := by
  intro entry hentry
  unfold onTheWay at hentry ⊢
  rw [hpeer] at hentry
  rcases List.mem_append.1 hentry with h | h
  · exact List.mem_append_left _ h
  · obtain ⟨i, hi, heq⟩ := List.mem_filterMap.1 h
    exact List.mem_append_right _ (List.mem_filterMap.2 ⟨i, hinbound i hi, heq⟩)

/-! ## The steps of a call -/

theorem takeReply_ok (method : Text) (m : Message) (v : Text) (h : takeReply method m = .ok v) :
    m.isResponse = true ∧ (∃ id, m.id = some id ∧ id.toText = method) ∧ m.error = none ∧
      v = m.result.getD [] := by
  unfold takeReply at h
  split at h
  next hcond =>
    rw [Bool.and_eq_true, Option.any_eq_true] at hcond
    obtain ⟨hresp, id, hid, htext⟩ := hcond
    split at h
    next => cases h
    next herr =>
      cases h
      exact ⟨hresp, ⟨id, hid, by simpa using htext⟩, herr, rfl⟩
  next => cases h

theorem inv_stepCall (s s' : State) (c : Nat) (call : Call) (a : Action) (hinv : Inv s)
    (hcall : s.calls[c]? = some call)
    (hmeets : ∀ failure, a = .write c failure true →
      ∀ entry ∈ onTheWay s, entry.2.toText ≠ call.method)
    (hact : ∀ c' failure received, a = .write c' failure received → c' = c)
    (h : stepCall c s call a = some s') : Inv s' := by
  have hlocked : call.phase.holding = true → s.io = none ∨ s.io = some (.call c) :=
    fun hh => Or.inr (hinv.lock c call hcall hh)
  cases a with
  | lock c' =>
    simp only [stepCall] at h
    split at h
    next hphase hio =>
      cases h
      refine inv_move hinv hcall (Or.inl hio) rfl rfl (fun _ h => h) rfl
        (fun _ => rfl) (fun h => absurd h Bool.false_ne_true) (fun v hv => ?_)
      cases hv
    next => cases h
  | write c' failure received =>
    have hc := hact c' failure received rfl
    subst hc
    simp only [stepCall] at h
    split at h
    next hphase =>
      have hio := hlocked (by rw [hphase]; rfl)
      cases received with
      | false =>
        simp only [Bool.false_eq_true, if_false] at h
        cases failure with
        | none => cases h
        | some error =>
          cases h
          exact inv_failed hinv hcall hio rfl rfl (fun _ h => h) rfl
      | true =>
        simp only [if_true] at h
        cases failure with
        | some error =>
          cases h
          exact inv_failed hinv hcall hio rfl rfl (fun _ h => h) rfl
        | none =>
          cases h
          refine inv_move hinv hcall hio rfl rfl (fun _ h => h) rfl
            (fun _ => ?_) (fun _ entry hentry htext => ?_) (fun v hv => by cases hv)
          · exact hinv.lock c' call hcall (by rw [hphase]; rfl)
          · -- its own request is the only one with the name
            have hsplit : entry ∈ onTheWay s ∨ entry = (c', Id.ofString call.method) := by
              unfold onTheWay at hentry ⊢
              rcases List.mem_append.1 hentry with h1 | h1
              · rcases List.mem_append.1 h1 with h2 | h2
                · exact Or.inl (List.mem_append_left _ h2)
                · exact Or.inr (List.mem_singleton.1 h2)
              · exact Or.inl (List.mem_append_right _ h1)
            rcases hsplit with hold | rfl
            · exact absurd htext (hmeets none rfl entry hold)
            · rfl
    next => cases h
  | check c' canceled =>
    simp only [stepCall] at h
    split at h
    next hphase =>
      have hio := hlocked (by rw [hphase]; rfl)
      cases canceled with
      | some error =>
        cases h
        exact inv_failed hinv hcall hio rfl rfl (fun _ h => h) rfl
      | none =>
        cases h
        refine inv_move hinv hcall hio rfl rfl (fun _ h => h) rfl
          (fun _ => ?_) (fun _ => ?_) (fun v hv => by cases hv)
        · exact hinv.lock c call hcall (by rw [hphase]; rfl)
        · exact hinv.mine c call hcall (by rw [hphase]; rfl)
    next => cases h
  | read c' result =>
    simp only [stepCall] at h
    split at h
    next hphase =>
      have hio := hlocked (by rw [hphase]; rfl)
      split at h
      next next rest hin =>
        cases h
        refine inv_move hinv hcall hio rfl
          rfl (fun i hi => ?_) rfl (fun h => absurd h Bool.false_ne_true)
          (fun h => absurd h Bool.false_ne_true) (fun v hv => ?_)
        · rw [hin]
          exact List.mem_cons_of_mem _ hi
        · -- the reply belongs to a call whose id is the method's name: this one
          have hv' : takeReply call.method next.message = .ok v := CallPhase.returned.inj hv
          obtain ⟨hresp, ⟨id, hid, htext⟩, herr, hval⟩ := takeReply_ok _ _ _ hv'
          have hnext : next ∈ s.inbound := by
            rw [hin]
            exact List.mem_cons_self ..
          obtain ⟨owner, howner⟩ := hinv.response next hnext hresp
          have hway : (owner, id) ∈ onTheWay s := by
            unfold onTheWay
            refine List.mem_append_right _ (List.mem_filterMap.2 ⟨next, hnext, ?_⟩)
            rw [howner, hid]
            rfl
          have heq := hinv.mine c call hcall (by rw [hphase]; rfl) (owner, id) hway htext
          change owner = c at heq
          subst heq
          exact ⟨next.message, hinv.answer next hnext owner howner, herr, hval⟩
      next => cases h
      next error taken =>
        cases h
        refine inv_failed hinv hcall hio rfl rfl (fun i hi => ?_) rfl
        cases taken with
        | true => exact List.mem_of_mem_tail hi
        | false => exact hi
    next => cases h
  | _ => cases h

/-! ## The steps of the read loop and of the peer -/

theorem inv_stepRun (s s' : State) (a : Action) (hinv : Inv s) (h : stepRun s a = some s') :
    Inv s' := by
  have hkeep : ∀ s1 : State, s1.calls = s.calls → (∀ i ∈ s1.inbound, i ∈ s.inbound) →
      s1.answers = s.answers → s1.peer = s.peer →
      (∀ c, s.io = some (.call c) → s1.io = some (.call c)) →
      (s1.run = .reading → s1.io = some .run) → Inv s1 := by
    intro s1 hcalls hinbound hanswers hpeer hio hrun
    refine inv_frame hinv hcalls (fun i hi => hinv.response i (hinbound i hi)) (fun i hi c hc => ?_)
      (fun a ha => by rw [hanswers]; exact ha) hio hrun (onTheWay_subset hpeer hinbound)
    rw [hanswers]
    exact hinv.answer i (hinbound i hi) c hc
  cases a with
  | runCheck canceled =>
    simp only [stepRun] at h
    split at h
    next =>
      cases canceled with
      | some error =>
        cases h
        exact hkeep _ rfl (fun _ h => h) rfl rfl (fun _ h => h) nofun
      | none =>
        cases h
        exact hkeep _ rfl (fun _ h => h) rfl rfl (fun _ h => h) nofun
    next => cases h
  | runLock =>
    simp only [stepRun] at h
    split at h
    next hio =>
      cases h
      exact hkeep _ rfl (fun _ h => h) rfl rfl (fun c hc => by rw [hio] at hc; cases hc) (fun _ => rfl)
    next => cases h
  | runRead result eof =>
    simp only [stepRun] at h
    split at h
    next hread =>
      have hfree : ∀ (io : Option Holder) (c : Nat), s.io = some (.call c) → io = some (.call c) := by
        intro io c hc
        rw [hinv.run hread] at hc
        cases hc
      split at h
      next next rest hin =>
        cases h
        refine hkeep _ rfl (fun i hi => ?_) rfl rfl (hfree none) (fun hr => ?_)
        · rw [hin]
          exact List.mem_cons_of_mem _ hi
        · change runMessage next.message = .reading at hr
          unfold runMessage at hr
          split at hr
          next => cases hr
          next =>
            split at hr
            next => cases hr
            next => cases hr
      next => cases h
      next error taken =>
        cases h
        refine hkeep _ rfl (fun i hi => ?_) rfl rfl (hfree none) nofun
        cases taken with
        | true => exact List.mem_of_mem_tail hi
        | false => exact hi
    next => cases h
  | runHandled failure =>
    simp only [stepRun] at h
    split at h
    next =>
      cases failure with
      | some error =>
        cases h
        exact hkeep _ rfl (fun _ h => h) rfl rfl (fun _ h => h) nofun
      | none =>
        cases h
        exact hkeep _ rfl (fun _ h => h) rfl rfl (fun _ h => h) nofun
    next => cases h
  | _ => cases h

theorem inv_stepPeer (s s' : State) (a : Action) (hinv : Inv s) (h : stepPeer s a = some s') :
    Inv s' := by
  cases a with
  | peerAnswer result error =>
    simp only [stepPeer] at h
    split at h
    next c id rest hpeer =>
      cases h
      refine inv_frame hinv rfl (fun i hi hresp => ?_) (fun i hi c' hc' => ?_)
        (fun a ha => List.mem_append_left _ ha) (fun _ h => h) hinv.run (fun entry hentry => ?_)
      · rcases List.mem_append.1 hi with hi | hi
        · exact hinv.response i hi hresp
        · rw [List.mem_singleton.1 hi]
          exact ⟨c, rfl⟩
      · rcases List.mem_append.1 hi with hi | hi
        · exact List.mem_append_left _ (hinv.answer i hi c' hc')
        · rw [List.mem_singleton.1 hi] at hc' ⊢
          cases hc'
          exact List.mem_append_right _ (List.mem_singleton_self _)
      · -- the request becomes a reply with the same id
        unfold onTheWay at hentry ⊢
        rw [hpeer]
        rcases List.mem_append.1 hentry with h1 | h1
        · exact List.mem_append_left _ (List.mem_cons_of_mem _ h1)
        · rw [List.filterMap_append] at h1
          rcases List.mem_append.1 h1 with h2 | h2
          · exact List.mem_append_right _ h2
          · have heq : entry = (c, id) := by simpa using h2
            rw [heq]
            exact List.mem_append_left _ (List.mem_cons_self ..)
    next => cases h
  | peerSend m =>
    simp only [stepPeer] at h
    split at h
    next => cases h
    next hresp =>
      cases h
      refine inv_frame hinv rfl (fun i hi hi' => ?_) (fun i hi c' hc' => ?_) (fun _ h => h)
        (fun _ h => h) hinv.run (fun entry hentry => ?_)
      · rcases List.mem_append.1 hi with hi | hi
        · exact hinv.response i hi hi'
        · rw [List.mem_singleton.1 hi] at hi'
          exact absurd hi' hresp
      · rcases List.mem_append.1 hi with hi | hi
        · exact hinv.answer i hi c' hc'
        · rw [List.mem_singleton.1 hi] at hc'
          cases hc'
      · unfold onTheWay at hentry ⊢
        rw [List.filterMap_append] at hentry
        simpa using hentry
  | _ => cases h

/-! ## The main result -/

theorem inv_step (a : Action) (s s' : State) (hinv : Inv s) (hmeets : meets a s = true)
    (h : step a s = some s') : Inv s' := by
  have hbind : ∀ c, (∀ c' failure received, a = .write c' failure received → c' = c) →
      ((s.calls[c]?).bind fun call => stepCall c s call a) = some s' → Inv s' := by
    intro c hact hb
    obtain ⟨call, hcall, hstep⟩ := Option.bind_eq_some_iff.1 hb
    refine inv_stepCall s s' c call a hinv hcall (fun failure ha => ?_) hact hstep
    rw [ha] at hmeets
    simp only [meets, hcall, Option.all_some, List.all_eq_true, bne_iff_ne] at hmeets
    exact hmeets
  cases a with
  | call method =>
    cases h
    have hget : ∀ (c : Nat) (call : Call), (s.calls ++ [⟨method, .begun⟩])[c]? = some call →
        s.calls[c]? = some call ∨ call.phase = .begun := by
      intro c call hc
      rw [List.getElem?_append] at hc
      split at hc
      next => exact Or.inl hc
      next =>
        have hmem := List.mem_of_getElem? hc
        rw [List.mem_singleton.1 hmem]
        exact Or.inr rfl
    refine ⟨hinv.response, hinv.answer, ?_, hinv.run, ?_, ?_⟩
    · intro c call hc hhold
      rcases hget c call hc with hc | hb
      · exact hinv.lock c call hc hhold
      · rw [hb] at hhold
        cases hhold
    · intro c call hc hwait
      rcases hget c call hc with hc | hb
      · exact hinv.mine c call hc hwait
      · rw [hb] at hwait
        cases hwait
    · intro c call v hc hv
      rcases hget c call hc with hc | hb
      · exact hinv.answered c call v hc hv
      · rw [hb] at hv
        cases hv
  | lock c => exact hbind c nofun h
  | write c failure received =>
    refine hbind c (fun c' f r heq => ?_) h
    cases heq
    rfl
  | check c canceled => exact hbind c nofun h
  | read c result => exact hbind c nofun h
  | runCheck canceled => exact inv_stepRun s s' (.runCheck canceled) hinv h
  | runLock => exact inv_stepRun s s' .runLock hinv h
  | runRead result eof => exact inv_stepRun s s' (.runRead result eof) hinv h
  | runHandled failure => exact inv_stepRun s s' (.runHandled failure) hinv h
  | peerAnswer result error => exact inv_stepPeer s s' (.peerAnswer result error) hinv h
  | peerSend m => exact inv_stepPeer s s' (.peerSend m) hinv h

/-- **a call returns the peer's answer to its own request, in every run in which no request is
written while a reply with the name of its method is on the way** -/
theorem answered_of_meets (as : List Action) (s : State)
    (hmeets : along step meets as State.init = true) (h : exec step as State.init = some s) :
    Answered s :=
  (exec_invariant_along step meets Inv (fun a s s' hinv hm hs => inv_step a s s' hinv hm hs) as
    State.init s inv_init hmeets h).answered

/-- two calls of one method, the first one up to its reply -/
def firstCall (canceled : Option ContextError) : List Action :=
  [.call [109], .call [109], .lock 0, .write 0 none true, .check 0 canceled,
    .peerAnswer (some [49]) none]

def secondCall : List Action :=
  [.lock 1, .write 1 none true, .check 1 none, .peerAnswer (some [50]) none, .read 1 .next]

theorem answered_of_meets_two : ∃ s,
    exec step (firstCall none ++ .read 0 .next :: secondCall) State.init = some s ∧ Answered s :=
  ⟨_, rfl, answered_of_meets (firstCall none ++ .read 0 .next :: secondCall) _ rfl rfl⟩

/-- the first call is canceled behind its write, and the second one returns the first one's reply -/
theorem canceled_reply_is_taken : ∃ s,
    exec step (firstCall (some .canceled) ++ secondCall) State.init = some s ∧
    (∃ call, s.calls[1]? = some call ∧ call.phase = .returned (.ok [49])) ∧
    (∀ m, (1, m) ∈ s.answers → m.result = some [50]) ∧ ¬ Answered s := by
  refine ⟨_, rfl, ⟨_, rfl, rfl⟩, ?_, ?_⟩
  · intro m hm
    rcases List.mem_cons.1 hm with h | h
    · cases h
    · cases List.mem_singleton.1 h
      rfl
  · intro hall
    obtain ⟨m, hm, -, hv⟩ := hall 1 _ [49] rfl rfl
    rcases List.mem_cons.1 hm with h | h
    · cases h
    · cases List.mem_singleton.1 h
      cases hv

end Tsr.Ipc.ConnSync
