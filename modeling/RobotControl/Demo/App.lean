import RobotControl.Action.Trigger
import RobotControl.Control.Mixing
import RobotControl.Number.Remainder
import RobotControl.Robot.App

/-!
# The demo robot

Two simulated drive motors under two actions: driving from the left stick of gamepad 0, which
button 0 starts, and a short brake, which button 1 starts and which takes the motors away from the
driver.  A simulated driver station feeds the watchdog and plays a stick pattern that repeats every
six seconds.
-/
set_option autoImplicit false

namespace RobotControl.Demo

inductive Job where
  | station (epoch : Nat)
  | autoEnable
  deriving DecidableEq, Repr

structure State where
  battery : Float := 8.4
  drive : Drive Float := .atRest .arcade
  brakedAt : Option Nat := none
  braking : Bool := false
  triggers : Assoc TriggerId ButtonTrigger := ∅
  output : Option (Sides Float) := none
  outcome : Except Failure Unit := .ok ()

def deadband : Float := 0.1

def stationPeriod : Nat := 20 * millisecond

def brakeTime : Nat := 500 * millisecond

/-- The pattern of the driver station repeats after so many seconds. -/
def patternSeconds : Nat := 6

def leftMotor : Handle := ⟨0⟩

def rightMotor : Handle := ⟨1⟩

def stick : Handle := ⟨2⟩

def leftId : DeviceId := ⟨1⟩

def rightId : DeviceId := ⟨2⟩

def monitorId : DeviceId := ⟨3⟩

def stickId : DeviceId := ⟨4⟩

def arcadeDrive : ActionId := ⟨1⟩

def brake : ActionId := ⟨2⟩

def actionName (a : ActionId) : String := if a = brake then "brake" else "arcade_drive"

def motors (f : Fleet) : Fleet :=
  let left : Motor := { name := "left_drive", output := { label := "left" } }
  let right : Motor := { name := "right_drive", output := { label := "right" } }
  let turned := right.change fun c => c.setInverted true
  ((f.add leftId (.motor left)).1.add rightId (.motor turned.1)).1

abbrev Code := Routine (Act Job) (World Job) State

private def motor (h : Handle) (i : Device.MotorInput) (next : Code) : Code :=
  .andThen (.device (.drive h i)) next

private def both (i : Device.MotorInput) (next : Code) : Code :=
  motor leftMotor i (motor rightMotor i next)

def steer (i : DriveInput Float) : Code :=
  .look fun _ _ s =>
    let d := s.drive.feed i
    .note (fun s => { s with drive := d })
      (motor leftMotor (.speed d.speeds.left) (motor rightMotor (.speed d.speeds.right) .skip))

def stickAxis (w : World Job) (n : Nat) : Float :=
  match w.fleet.device? stick with
  | some (.gamepad g) => g.axis w.fleet.hub w.now n deadband
  | _ => 0.0

def driveCallback : Callback → Code
  | .process => .look fun _ w _ => steer (.both (-(stickAxis w 1)) (stickAxis w 0))
  | .finish _ => steer (.both 0.0 0.0)
  | .begin | .proceed => .skip

def brakeCallback : Callback → Code
  | .begin =>
      .look fun _ w _ =>
        .note (fun s => { s with brakedAt := some w.now })
          (motor leftMotor (.brake true) (motor leftMotor (.speed 0.0)
            (motor rightMotor (.brake true) (motor rightMotor (.speed 0.0) .skip))))
  | .process => .skip
  | .proceed =>
      .look fun _ w s =>
        let braking := s.brakedAt.any fun t => w.now - t < brakeTime
        .note (fun s => { s with braking := braking }) .skip
  | .finish _ => both (.brake false) .skip

def secondsSince (now epoch : Nat) : Float :=
  let ns := now - epoch
  let second := 1000 * millisecond
  Float.ofNat (ns / second) + Float.ofNat (ns % second) / Float.ofNat second

def pattern (t : Float) : List Float × List Bool :=
  let t := Number.remainder t patternSeconds
  ([(t * 1.3).sin * 0.5, -(t * 0.7).sin * 0.8], [0.5 ≤ t && t < 0.7, 4.5 ≤ t && t < 4.7])

def jobCode : Job → Code
  | .station epoch =>
      .look fun _ w _ =>
        let p := pattern (secondsSince w.now epoch)
        .andThen (.device (.report 0 p.1 p.2 [] 0)) (.andThen .feed .skip)
  | .autoEnable => .act (.setEnabled true) .done

def bindButton (button : Nat) (a : ActionId) (restart : Bool) (next : Code) : Code :=
  .look fun t w s =>
    let gamepad : Gamepad := { controller := 0, maxAge := w.profile.maxGamepadAge }
    let trigger : ButtonTrigger := { gamepad := gamepad, button := button, edge := .pressed }
    .note (fun _ => { s with triggers := s.triggers.put t.nextTrigger trigger })
      (.ask (.bind a restart) fun _ => next)

def started (autoEnable : Bool) : Code :=
  .andThen (.register leftMotor) <| .andThen (.register rightMotor) <|
  .andThen (.makeMain monitorId) <| .andThen (.gamepad 0 stickId) <|
  .andThen (.device (.setCurve stick 0 .squareRoot)) <|
  bindButton 0 arcadeDrive false <| bindButton 1 brake true <|
  .look fun _ w _ =>
    .andThen (.schedule "driver-station" (.station w.now) (some stationPeriod)) <|
      if autoEnable then .andThen (.schedule "auto-enable" .autoEnable none) .skip else .skip

def effective (w : World Job) (h : Handle) : Float :=
  match w.fleet.device? h with
  | some (.motor m) => m.controller.effective
  | _ => 0.0

def periodic : Code :=
  .look fun _ w s =>
    let battery := Arith.larger (s.battery - 0.0005) 6.0
    let output : Sides Float := ⟨effective w leftMotor, effective w rightMotor⟩
    .note (fun s => { s with battery := battery, output := some output })
      (.andThen (.volts monitorId battery) .skip)

def hookCode (autoEnable : Bool) : Hook → Code
  | .robotStarted => started autoEnable
  | .periodic => periodic
  | .robotEnabled | .robotDisabled | .enabledPeriodic | .disabledPeriodic => .skip

def app (autoEnable : Bool) : App Job State where
  hook := hookCode autoEnable
  job := jobCode
  callback a cb := if a = brake then brakeCallback cb else driveCallback cb
  actionName _ := actionName
  needs s _ := (s, .ok [leftId, rightId])
  wantsMore s a := if a = brake then s.braking else true
  poll w s id :=
    match s.triggers.get? id with
    | some t =>
        let r := t.poll w.fleet.hub w.now
        ({ s with triggers := s.triggers.put id r.1 }, .ok r.2)
    | none => (s, .ok false)
  isAlive _ _ _ := true
  watching _ _ := none

end RobotControl.Demo
