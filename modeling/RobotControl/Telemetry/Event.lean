import RobotControl.Value

/-!
# Telemetry events

What the robot sends to the outside world: a log line or a table entry, with the name of the part
that sent it, and the written form of both.
-/
set_option autoImplicit false

namespace RobotControl

inductive Payload where
  | log (line : String)
  | entry (key value : String)
  deriving DecidableEq, Repr

structure Event where
  source : String
  payload : Payload
  deriving DecidableEq, Repr

namespace Payload

def encode : Payload → Value
  | .log line => .fields [("Log", .text line)]
  | .entry key value =>
      .fields [("TableEntry", .fields [("key", .text key), ("value", .text value)])]

def decode : Value → Option Payload
  | .fields [("Log", .text line)] => some (.log line)
  | .fields [("TableEntry", v)] => do
      let key ← v.field? "key" >>= Value.text?
      let value ← v.field? "value" >>= Value.text?
      return .entry key value
  | _ => none

end Payload

namespace Event

def encode (e : Event) : Value :=
  .fields [("source", .text e.source), ("payload", e.payload.encode)]

def decode (v : Value) : Option Event := do
  let source ← v.field? "source" >>= Value.text?
  let payload ← v.field? "payload" >>= Payload.decode
  return ⟨source, payload⟩

def pair (e : Event) : Value := .list [.text e.source, e.payload.encode]

end Event

end RobotControl
