import RobotControl.Value

/-!
# Faults

Every failure the library reports, each as the cause it has, with one rendering function
`Fault.message` and the written form used when a fault is stored or sent (`Fault.encode`,
`Fault.decode`).
-/
set_option autoImplicit false

namespace RobotControl

inductive Fault where
  | invalidProfile (field reason : String)
  | alreadyStarted
  | notStarted
  | hardware (component details : String)
  | action (action details : String)
  | hook (hook details : String)
  | telemetry (text : String)
  | config (text : String)
  deriving DecidableEq, Repr

namespace Fault

def message : Fault → String
  | .invalidProfile field reason => "Invalid robot profile: " ++ field ++ " " ++ reason
  | .alreadyStarted => "Robot already started"
  | .notStarted => "Robot not started"
  | .hardware component details => "Hardware Fault on " ++ component ++ ": " ++ details
  | .action name details => "Action " ++ name ++ " failed: " ++ details
  | .hook name details => "Robot hook " ++ name ++ " failed: " ++ details
  | .telemetry text => "Telemetry Error: " ++ text
  | .config text => "Configuration Error: " ++ text

def kind : Fault → String
  | .invalidProfile .. => "InvalidProfile"
  | .alreadyStarted => "AlreadyStarted"
  | .notStarted => "NotStarted"
  | .hardware .. => "HardwareFault"
  | .action .. => "Action"
  | .hook .. => "Hook"
  | .telemetry _ => "Telemetry"
  | .config _ => "Config"

def report (f : Fault) : Value :=
  .fields [("error", .text f.kind), ("message", .text f.message)]

private def record (tag : String) (fields : List (String × String)) : Value :=
  .fields [(tag, .fields (fields.map fun e => (e.1, .text e.2)))]

/-- The written form: the bare kind where there is nothing to tell, otherwise the kind with its
contents. -/
def encode : Fault → Value
  | .invalidProfile field reason => record "InvalidProfile" [("field", field), ("reason", reason)]
  | .alreadyStarted => .text "AlreadyStarted"
  | .notStarted => .text "NotStarted"
  | .hardware component details =>
      record "HardwareFault" [("component", component), ("details", details)]
  | .action name details => record "Action" [("action", name), ("details", details)]
  | .hook name details => record "Hook" [("hook", name), ("details", details)]
  | .telemetry text => .fields [("Telemetry", .text text)]
  | .config text => .fields [("Config", .text text)]

private def pair (make : String → String → Fault) (first second : String) (v : Value) :
    Option Fault := do
  let a ← v.field? first >>= Value.text?
  let b ← v.field? second >>= Value.text?
  return make a b

/-- Reads the written form back.  A bare kind may also carry an empty value. -/
def decode : Value → Option Fault
  | .text "AlreadyStarted" => some .alreadyStarted
  | .text "NotStarted" => some .notStarted
  | .fields [("AlreadyStarted", .null)] => some .alreadyStarted
  | .fields [("NotStarted", .null)] => some .notStarted
  | .fields [("InvalidProfile", v)] => pair .invalidProfile "field" "reason" v
  | .fields [("HardwareFault", v)] => pair .hardware "component" "details" v
  | .fields [("Action", v)] => pair .action "action" "details" v
  | .fields [("Hook", v)] => pair .hook "hook" "details" v
  | .fields [("Telemetry", .text s)] => some (.telemetry s)
  | .fields [("Config", .text s)] => some (.config s)
  | _ => none

end Fault

/-- What a fault that is not reported but thrown carries: a text, or nothing readable. -/
inductive Panic where
  | text (s : String)
  | unreadable
  deriving DecidableEq, Repr

namespace Panic

def message : Panic → String
  | .text s => s
  | .unreadable => "non-string panic payload"

def report (p : Panic) : Value := .fields [("error", .text "Panic"), ("message", .text p.message)]

end Panic

inductive Failure where
  | fault (f : Fault)
  | panic (p : Panic)
  deriving DecidableEq, Repr

namespace Failure

def details : Failure → String
  | .fault f => f.message
  | .panic p => "panicked: " ++ p.message

end Failure

end RobotControl
