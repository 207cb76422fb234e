import RobotControl.Action.Series
import RobotControl.Action.Trigger
import RobotControl.Script.Device
import RobotControl.Script.NetworkTable

/-!
# Scripted applications

What a script says about a robot's application: its actions, its triggers, and the commands that
its hooks, jobs and callbacks consist of.  Everything goes by labels here.
-/
set_option autoImplicit false

namespace RobotControl.Script

inductive TriggerSpec where
  | button (gamepad : String) (n : Nat) (edge : Edge)
  | looks (answers : List (Except Panic Bool))

inductive Command where
  | start (action : String) (restart : Bool)
  | stop (action : String)
  | stopAll
  | tick
  | check
  | running
  | owner (device : String)
  | describeAction (action : String)
  | bind (trigger action : String) (restart : Bool) (spec : TriggerSpec)
  | unbind (trigger : String)
  | triggerCount
  | device (c : DeviceCommand)
  | setEnabled (enabled : Bool)
  | mode
  | feed
  | tripped
  | requestStop
  | stopRequested
  | register (label : String)
  | gamepad (label : String) (controller : Nat)
  | table (c : TableCommand)
  | makeMain (label : String)
  | isMain (label : String)
  | volts (label : String) (volts : Float)
  | describeRobot
  | profile
  | fail (text : String)
  | panic (p : Panic)
  | claim (devices : List String)
  | say (text : String)

/-- A command with the word it is called by; one with a turn is for that call of its callback
only. -/
structure Cue where
  turn : Option Nat := none
  word : String
  command : Command

inductive PartSpec where
  | cued (devices : List String) (ticks : Option Nat) (reset : Bool) (refuses : Option String)
      (begin process proceed finish : List Cue)
  | series (children : List String) (followUp : Option String)

structure ActionSpec where
  label : String
  name : String
  part : PartSpec

end RobotControl.Script
