import RobotControl.Demo.App
import RobotControl.Robot.Session

/-!
# Sessions with the demo robot

The demo robot driven step by step, and what an onlooker sees after every step.
-/
set_option autoImplicit false

namespace RobotControl.Demo

inductive Step where
  | start
  | advance (time times : Nat)
  | enable (enabled : Bool)
  | shutdown

abbrev DemoSession := Session Job State

namespace DemoSession

def create (p : Profile) : Except Fault DemoSession := do
  let w ← World.create p ⟨.entries, []⟩
  return .ofWorld { w with fleet := motors w.fleet } {}

def waiting (a : App Job State) (patience : Nat) (d : DemoSession) (time : Nat) : Nat → DemoSession
  | 0 => d
  | n + 1 => waiting a patience (d.wait a patience time) time n

/-- Keeps how a routine ended. -/
def keeping (c : Robot.Code Job State) : Robot.Code Job State :=
  .attempt c fun o => .note (fun s => { s with outcome := o }) .skip

def perform (autoEnable : Bool) (patience : Nat) (d : DemoSession) : Step → DemoSession
  | .start => d.call (app autoEnable) patience (keeping Robot.start)
  | .advance time times => waiting (app autoEnable) patience d time times
  | .enable enabled => d.call (app autoEnable) patience (keeping (Robot.setEnabled enabled))
  | .shutdown => d.call (app autoEnable) patience (keeping Robot.shutdown)

def modeEntries (ds : List Delivery) : List Delivery :=
  ds.filter fun
    | .entry key _ => key ≠ BatteryMonitor.key
    | _ => true

def speedPlaces : Nat := 6

def speedText (x : Float) : Value := .text (Number.fixed speedPlaces (x + 0.0))

def outcomeValue : Except Failure Unit → Value
  | .ok () => .ok
  | .error (.fault f) => f.report
  | .error (.panic p) => .text p.message

def view (d : DemoSession) : Value :=
  .fields
    [("r", outcomeValue d.own.outcome),
      ("drive", .ofOption (fun o : Sides Float => .list [speedText o.left, speedText o.right])
        d.own.output),
      ("running", .list (d.table.running.map fun a => .text (actionName a))),
      ("battery", .ofOption .text (d.world.table.get? BatteryMonitor.key)),
      ("modes", .list ((modeEntries d.delivered).map Delivery.value)),
      ("mode", .text d.world.mode.label),
      ("tripped", .flag d.world.watchdog.tripped),
      ("triggers", .count d.table.bindings.length),
      ("log", .list ((d.log.filter fun l => l.level ≠ .info).map fun l => .text l.render)),
      ("debug", .text d.world.describe)]

def views (autoEnable : Bool) (patience : Nat) (d : DemoSession) : List Step → List Value
  | [] => []
  | s :: rest =>
      let quiet : DemoSession := d.quiet
      let own : State := { quiet.own with output := none, outcome := .ok () }
      let after := perform autoEnable patience { quiet with own := own } s
      view after :: views autoEnable patience after rest

end DemoSession

end RobotControl.Demo
