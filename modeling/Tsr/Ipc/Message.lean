import Tsr.Lib.Decimal

/-!
# Messages of a connection

What the connections read of a JSON-RPC message, and the errors that they return.
-/

namespace Tsr.Ipc
open Tsr.Lib.Decimal

/-- the bytes of a string -/
abbrev Text := List UInt8

/-- a string, or an integer when the string is empty -/
structure Id where
  string : Text
  integer : Int
deriving DecidableEq

def Id.ofString (s : Text) : Id := ⟨s, 0⟩

def Id.toText (id : Id) : Text := if id.string.isEmpty then intText id.integer else id.string

structure ResponseError where
  code : Int
  message : Text
deriving DecidableEq

structure Message where
  id : Option Id
  method : Text
  result : Option Text
  error : Option ResponseError
deriving DecidableEq

namespace Message

def isRequest (m : Message) : Bool := m.id.isSome && !m.method.isEmpty
def isNotification (m : Message) : Bool := m.id.isNone && !m.method.isEmpty
def isResponse (m : Message) : Bool := m.id.isSome && m.method.isEmpty

end Message

inductive ContextError where
  | canceled
  | deadlineExceeded
deriving DecidableEq

/-- `protocol` stands for what the protocol and the handlers return; `unexpectedMessage` is `ipc:
unexpected message while waiting for "method" response`, `unexpectedResponse` is `ipc: unexpected
response message in sync connection` -/
inductive Error where
  | connClosed (cause : Option Error)
  | context (error : ContextError)
  | remote (code : Int) (message : Text)
  | protocol (text : Text)
  | unexpectedMessage (method : Text)
  | unexpectedResponse
  | joined (error other : Error)

end Tsr.Ipc
