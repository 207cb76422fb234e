import RobotControl.Device.Input
import RobotControl.Number.Bits
import RobotControl.Value

/-!
# Scripted devices

Devices under labels, the commands that a script gives to them, and how their state is shown.
-/
set_option autoImplicit false

namespace RobotControl.Script

/-- The labels of a script: the devices and the identities they stand for. -/
structure Cast where
  handles : Assoc String Handle := ∅
  ids : Assoc String DeviceId := ∅
  nextId : DeviceId := ⟨firstNumber⟩

structure DeviceSpec where
  label : String
  device : Device
  sameAs : Option String := none

namespace Cast

def identify (c : Cast) (label : String) : Cast × DeviceId :=
  match c.ids.get? label with
  | some id => (c, id)
  | none =>
      ({ c with ids := c.ids.put label c.nextId, nextId := ⟨c.nextId.number + 1⟩ }, c.nextId)

def identifyAll (c : Cast) : List String → Cast × List DeviceId
  | [] => (c, [])
  | l :: rest =>
      let r := c.identify l
      let others := r.1.identifyAll rest
      (others.1, r.2 :: others.2)

def assign (c : Cast) (label : String) (h : Handle) : Cast × DeviceId :=
  let id := c.nextId
  ({ handles := c.handles.put label h, ids := c.ids.put label id, nextId := ⟨id.number + 1⟩ }, id)

def handle? (c : Cast) (f : Fleet) (label : String) : Option Handle :=
  (c.handles.get? label).filter f.isHeld

def vacate (c : Cast) (f : Fleet) (label : String) : Fleet :=
  ((c.handle? f label).map f.drop).getD f

/-- Enters one device into a fleet; an earlier one under its label is let go. -/
def enter (c : Cast) (f : Fleet) (d : DeviceSpec) : Cast × Fleet :=
  let f := c.vacate f d.label
  match d.sameAs.bind c.ids.get? with
  | some id =>
      let r := f.add id d.device
      ({ c with handles := c.handles.put d.label r.2, ids := c.ids.put d.label id }, r.1)
  | none =>
      let a := c.assign d.label ⟨f.slots.size⟩
      (a.1, (f.add a.2 d.device).1)

def enterAll (c : Cast) (f : Fleet) : List DeviceSpec → Cast × Fleet
  | [] => (c, f)
  | d :: rest =>
      let r := c.enter f d
      r.1.enterAll r.2 rest

def device? (c : Cast) (f : Fleet) (label : String) : Option Device :=
  (c.handle? f label).bind f.device?

def gamepad? (c : Cast) (f : Fleet) (label : String) : Option Gamepad :=
  (c.device? f label).bind fun
    | .gamepad g => some g
    | _ => none

end Cast

inductive DeviceCommand where
  | start (label : String)
  | enable (label : String)
  | disable (label : String)
  | drive (label : String) (i : Device.MotorInput)
  | info (label : String)
  | outputLabel (label : String)
  | drop (label : String)
  | report (controller : Nat) (axes : List Float) (buttons : List Bool) (dpads : List Int)
      (age : Nat)
  | forget (controller : Nat)
  | button (label : String) (n : Nat)
  | axis (label : String) (n : Nat) (deadband : Float)
  | dpad (label : String) (n : Nat)
  | controller (label : String)
  | curve (label : String) (axis : Nat) (curve : Option Curve)

namespace DeviceCommand

def input? (c : Cast) (f : Fleet) : DeviceCommand → Option FleetInput
  | .start l => (c.handle? f l).map .start
  | .enable l => (c.handle? f l).map .enable
  | .disable l => (c.handle? f l).map .disable
  | .drive l i => (c.handle? f l).map fun h => .drive h i
  | .drop l => (c.handle? f l).map .drop
  | .report k axes buttons dpads age => some (.report k axes buttons dpads age)
  | .forget k => some (.forget k)
  | .curve l n (some k) => (c.handle? f l).map fun h => .setCurve h n k
  | .curve l n none => (c.handle? f l).map fun h => .clearCurve h n
  | _ => none

def ofOutcome : Except Fault Unit → Value
  | .ok () => .ok
  | .error f => f.report

def real (x : Float) : Value := .text (Number.bitsText x)

private def axisValue (g : Gamepad) (f : Fleet) (n : Nat) (deadband : Float) : Value :=
  let x := g.axis f.hub f.now n deadband
  match g.curves.get? n with
  | some (.cubic ..) => .text (Number.curveText x)
  | _ => real x

def answer (c : Cast) (f : Fleet) (outcome : Except Fault Unit) : DeviceCommand → Value
  | .start l | .enable l | .disable l | .drive l _ | .curve l .. =>
      .ofOption (fun _ => ofOutcome outcome) (c.handle? f l)
  | .report .. | .forget _ => ofOutcome outcome
  | .drop l => .flag (c.handle? f l).isSome
  | .info l =>
      .ofOption (fun d : Device => .fields [("name", .text d.name), ("on", .flag d.isEnabled),
        ("match", .flag d.followsMode), ("watchdog", .flag d.watched)]) (c.device? f l)
  | .outputLabel l =>
      match c.device? f l with
      | some (.motor m) => .list [.text m.output.label, .count m.output.attempts]
      | _ => .null
  | .button l n =>
      .ofOption (fun g : Gamepad => .list [.ofOption .flag (g.button f.hub f.now n),
        .flag (g.pressed f.hub f.now n)]) (c.gamepad? f l)
  | .axis l n deadband => .ofOption (fun g => axisValue g f n deadband) (c.gamepad? f l)
  | .dpad l n => .ofOption (fun g : Gamepad => .whole (g.dpad f.hub f.now n)) (c.gamepad? f l)
  | .controller l => .ofOption (fun g : Gamepad => .count g.controller) (c.gamepad? f l)

def run (c : Cast) (f : Fleet) (command : DeviceCommand) : Fleet × Value :=
  match command.input? c f with
  | some i =>
      let r := f.accept i
      (r.1, command.answer c f r.2)
  | none => (f, command.answer c f (.ok ()))

end DeviceCommand

/-! ### How devices are shown -/

def outputState (o : Output) : Value :=
  .list [.count o.initCalls, .count o.writes, DeviceCommand.real o.applied.speed,
    .flag o.applied.brake]

def deviceState (held : Bool) (d : Device) : Option Value :=
  match held, d with
  | true, .motor m =>
      some (.fields [("on", .flag m.controller.enabled),
        ("speed", DeviceCommand.real m.controller.requested),
        ("eff", DeviceCommand.real m.controller.effective), ("inv", .flag m.controller.inverted),
        ("brake", .flag m.controller.brake), ("hw", outputState m.output)])
  | true, .relay r =>
      some (.fields [("begins", .count r.begins), ("enables", .count r.enables),
        ("disables", .count r.disables), ("on", .flag r.on)])
  | true, .gamepad _ => none
  | false, .motor m => some (.fields [("dropped", .flag true), ("hw", outputState m.output)])
  | false, _ => some (.fields [("dropped", .flag true), ("hw", .null)])

def Cast.states (c : Cast) (f : Fleet) : Value :=
  .fields (c.handles.entries.filterMap fun e => do
    let s ← f.slots.get? e.2
    let v ← deviceState s.held s.device
    return (e.1, v))

end RobotControl.Script
