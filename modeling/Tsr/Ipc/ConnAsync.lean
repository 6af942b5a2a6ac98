import Tsr.Lib.Run
import Tsr.Ipc.Message

/-!
# The asynchronous connection

Calls register a channel under an id of their own, write their request and wait; the read loop hands
a response to the call that is registered under its id; and the end of the read loop, or a response
that could not be written, records a terminal error and drops all channels.

* `step`      every step of the calls, of the read loop and of the handlers of requests.  What is
              done under the lock of the pending calls is one step;
* `Pending`   the table of the calls, with the terminal error;
* a channel is `buffer` and `connected`: the message in it, and whether the sender is still held.

`read` and `deliveries` keep the messages that were read and which of them went to which call, and
`registrations` the calls that were registered.
-/

namespace Tsr.Ipc.ConnAsync
open Tsr.Lib.Run Tsr.Lib.Decimal

/-! ## State -/

/-- `leaving` is about to remove its entry, `dropping` about to drop its end of the channel -/
inductive CallPhase where
  | begun
  | registered
  | waiting
  | disconnected
  | leaving (result : Except Error Text)
  | dropping (result : Except Error Text)
  | returned (result : Except Error Text)

structure Call where
  id : Id
  phase : CallPhase
  buffer : Option Message
  connected : Bool

/-- `response` and `sending` carry the number of the message -/
inductive RunPhase where
  | idle
  | reading
  | response (n : Nat) (m : Message)
  | sending (n : Nat) (m : Message) (c : Nat)
  | closing (result : Except Error Unit)
  | waiting (result : Except Error Unit)
  | ended (result : Except Error Unit)

/-- the error of a notification is not looked at -/
inductive HandlerPhase where
  | handling
  | notifying
  | failed (error : Error)
  | closing
  | done

/-- the call whose sender is held under an id, and the terminal error -/
structure Pending where
  calls : Id → Option Nat
  terminal : Option Error
  hasCause : Bool

structure State where
  seq : BitVec 64
  pending : Pending
  calls : List Call
  run : RunPhase
  handlers : List HandlerPhase
  requestError : Option Error
  read : List Message
  deliveries : List (Nat × Nat)
  registrations : List Nat

def State.init : State :=
  ⟨0, ⟨fun _ => none, none, false⟩, [], .idle, [], none, [], [], []⟩

/-! ## The pending calls -/

/-- also says whether the error is the new cause -/
def Pending.recordTerminalErrorLocked (p : Pending) (error : Option Error) : Pending × Bool :=
  match p.terminal, p.hasCause, error with
  | none, _, none => ({ p with terminal := some (.connClosed none) }, false)
  | none, _, some error =>
    ({ p with terminal := some (.connClosed (some error)), hasCause := true }, true)
  | some _, false, some error =>
    ({ p with terminal := some (.connClosed (some error)), hasCause := true }, true)
  | some _, _, _ => (p, false)

/-- the sender of the call is dropped -/
def disconnect (calls : List Call) (c : Nat) : List Call :=
  calls.modify c fun call => { call with connected := false }

/-- the entry under the id is dropped with its sender -/
def removeEntry (s : State) (id : Id) : State :=
  { s with
    pending := { s.pending with calls := Function.update s.pending.calls id none }
    calls := match s.pending.calls id with
      | some c => disconnect s.calls c
      | none => s.calls }

/-- the sender of the call goes under the id -/
def addEntry (s : State) (id : Id) (c : Nat) : State :=
  { s with
    pending := { s.pending with calls := Function.update s.pending.calls id (some c) }
    registrations := s.registrations ++ [c] }

/-- all entries are dropped with their senders -/
def closePendingCallsLocked (s : State) : State :=
  { s with
    pending := { s.pending with calls := fun _ => none }
    calls := s.calls.mapIdx fun c call =>
      if s.pending.calls call.id = some c then { call with connected := false } else call }

/-! ## Steps -/

inductive Read where
  | message (m : Message)
  | eof
  | failed (error : Error)

/-- contexts, the protocol and the handlers are free -/
inductive Action where
  | call
  | register (c : Nat)
  | write (c : Nat) (failure : Option Error)
  | expire (c : Nat) (error : ContextError)
  | recv (c : Nat)
  | terminal (c : Nat)
  | leave (c : Nat)
  | drop (c : Nat)
  | runCheck (canceled : Option ContextError)
  | runRead (result : Read)
  | runTake
  | runSend
  | runClose
  | runEnd
  | handlerReturn (h : Nat) (failure : Option Error)
  | handlerRecord (h : Nat)
  | handlerClose (h : Nat)

def setPhase (s : State) (c : Nat) (phase : CallPhase) : State :=
  { s with calls := s.calls.modify c fun call => { call with phase := phase } }

/-- what a call makes of its response -/
def takeResponse (m : Message) : Except Error Text :=
  match m.error with
  | some error => .error (.remote error.code error.message)
  | none => .ok (m.result.getD [])

def stepCall (c : Nat) (s : State) (call : Call) : Action → Option State
  | .register _ =>
    match call.phase with
    | .begun =>
      match s.pending.terminal with
      | some error => some (setPhase s c (.returned (.error error)))
      | none =>
        -- an entry under the same id goes with its sender
        some (setPhase (addEntry (removeEntry s call.id) call.id c) c .registered)
    | _ => none
  | .write _ failure =>
    match call.phase with
    | .registered =>
      match failure with
      | some error => some (setPhase s c (.leaving (.error error)))
      | none => some (setPhase s c .waiting)
    | _ => none
  | .expire _ error =>
    match call.phase with
    | .waiting => some (setPhase s c (.leaving (.error (.context error))))
    | _ => none
  | .recv _ =>
    match call.phase with
    | .waiting =>
      match call.buffer with
      | some m => some (setPhase s c (.leaving (takeResponse m)))
      | none => if call.connected then none else some (setPhase s c .disconnected)
    | _ => none
  | .terminal _ =>
    match call.phase with
    | .disconnected =>
      some (setPhase s c (.leaving (.error (s.pending.terminal.getD (.connClosed none)))))
    | _ => none
  | .leave _ =>
    match call.phase with
    | .leaving result => some (setPhase (removeEntry s call.id) c (.dropping result))
    | _ => none
  | .drop _ =>
    match call.phase with
    | .dropping result => some (setPhase s c (.returned result))
    | _ => none
  | _ => none

/-- `try_send`: a call that is gone takes nothing -/
def send (s : State) (n : Nat) (m : Message) (c : Nat) : State :=
  match s.calls[c]? with
  | some ⟨_, .returned _, _, _⟩ | some ⟨_, _, some _, _⟩ | none => s
  | some _ => { s with
      calls := s.calls.modify c fun call => { call with buffer := some m }
      deliveries := s.deliveries ++ [(n, c)] }

/-- the kind of a message decides who handles it -/
def dispatch (s : State) (n : Nat) (m : Message) : State :=
  if m.isResponse then { s with run := .response n m }
  else if m.isRequest then { s with run := .idle, handlers := s.handlers ++ [.handling] }
  else if m.isNotification then { s with run := .idle, handlers := s.handlers ++ [.notifying] }
  else { s with run := .idle }

/-- `result.as_ref().err()` -/
def errorOf : Except Error Unit → Option Error
  | .error error => some error
  | .ok () => none

/-- what the read loop returns, with the error of a request that could not be answered -/
def runResult (result : Except Error Unit) (requestError : Option Error) : Except Error Unit :=
  match result, requestError with
  | .ok (), some requestError => .error requestError
  | .error error, some requestError => .error (.joined error requestError)
  | result, none => result

def stepRun (s : State) : Action → Option State
  | .runCheck canceled =>
    match s.run with
    | .idle =>
      match canceled with
      | some error => some { s with run := .closing (.error (.context error)) }
      | none => some { s with run := .reading }
    | _ => none
  | .runRead result =>
    match s.run with
    | .reading =>
      match result with
      | .message m => some (dispatch { s with read := s.read ++ [m] } s.read.length m)
      | .eof => some { s with run := .closing (.ok ()) }
      | .failed error => some { s with run := .closing (.error error) }
    | _ => none
  | .runTake =>
    match s.run with
    | .response n m =>
      match m.id.bind s.pending.calls with
      | some c => some { s with
          -- the sender goes from the table to the loop
          pending := { s.pending with
            calls := fun id => if some id = m.id then none else s.pending.calls id }
          run := .sending n m c }
      | none => some { s with run := .idle }
    | _ => none
  | .runSend =>
    match s.run with
    | .sending n m c =>
      let s := send s n m c
      some { s with calls := disconnect s.calls c, run := .idle }
    | _ => none
  | .runClose =>
    match s.run with
    | .closing result =>
      let s := { s with pending := (s.pending.recordTerminalErrorLocked (errorOf result)).1 }
      some { closePendingCallsLocked s with run := .waiting result }
    | _ => none
  | .runEnd =>
    match s.run with
    | .waiting result =>
      if s.handlers.all fun h => h matches .done then
        some { s with
          requestError := none
          run := .ended (runResult result s.requestError) }
      else none
    | _ => none
  | _ => none

/-- `record_request_error`: the channel of request errors keeps the first one -/
def recordRequestError (s : State) (error : Error) : State × Bool :=
  let (pending, recorded) := s.pending.recordTerminalErrorLocked (some error)
  if recorded then
    (closePendingCallsLocked { s with
      pending := pending
      requestError := s.requestError.or (some error) }, true)
  else (s, false)

def setHandler (s : State) (h : Nat) (phase : HandlerPhase) : State :=
  { s with handlers := s.handlers.set h phase }

def stepHandler (h : Nat) (s : State) (phase : HandlerPhase) : Action → Option State
  | .handlerReturn _ failure =>
    match phase with
    | .handling =>
      match failure with
      | some error => some (setHandler s h (.failed error))
      | none => some (setHandler s h .done)
    | .notifying => some (setHandler s h .done)
    | _ => none
  | .handlerRecord _ =>
    match phase with
    | .failed error =>
      let (s, recorded) := recordRequestError s error
      some (setHandler s h (if recorded then .closing else .done))
    | _ => none
  | .handlerClose _ =>
    match phase with
    | .closing => some (setHandler s h .done)
    | _ => none
  | _ => none

/-- `api` and the number of the call -/
def nextId (seq : BitVec 64) : Id := Id.ofString ([97, 112, 105] ++ intText (seq + 1).toInt)

def step (a : Action) (s : State) : Option State :=
  match a with
  | .call => some { s with
      seq := s.seq + 1
      calls := s.calls ++ [⟨nextId s.seq, .begun, none, true⟩] }
  | .register c | .write c _ | .expire c _ | .recv c | .terminal c | .leave c | .drop c =>
    (s.calls[c]?).bind fun call => stepCall c s call a
  | .runCheck _ | .runRead _ | .runTake | .runSend | .runClose | .runEnd => stepRun s a
  | .handlerReturn h _ | .handlerRecord h | .handlerClose h =>
    (s.handlers[h]?).bind fun phase => stepHandler h s phase a

end Tsr.Ipc.ConnAsync
