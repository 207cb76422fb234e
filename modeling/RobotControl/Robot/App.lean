import RobotControl.Action.Host
import RobotControl.Robot.World

/-!
# Applications

What an application is to a robot: routines for the hooks, for its jobs and for the callbacks of
its actions.  The effects it has at hand are the `Act`s; everything else is the robot's own
business.
-/
set_option autoImplicit false

namespace RobotControl

inductive Act (ι : Type) where
  | device (i : FleetInput)
  | register (h : Handle)
  | gamepad (controller : Nat) (id : DeviceId)
  /-- A trigger that is about to be bound keeps a device. -/
  | watch (h : Handle)
  | setEnabled (enabled : Bool)
  | feed
  | requestStop
  | setEntry (key value : String)
  | remoteEntry (key value : String)
  | makeMain (monitor : DeviceId)
  | volts (monitor : DeviceId) (volts : Float)
  | schedule (name : String) (job : ι) (interval : Option Nat)
  | cancel (job : JobId)

/-- An application that keeps `σ` for itself and knows its jobs by `ι`. -/
structure App (ι σ : Type) where
  hook : Hook → Routine (Act ι) (World ι) σ
  job : ι → Routine (Act ι) (World ι) σ
  callback : ActionId → Callback → Routine (Act ι) (World ι) σ
  actionName : σ → ActionId → String
  needs : σ → ActionId → σ × Except Panic (List DeviceId)
  wantsMore : σ → ActionId → Bool
  poll : World ι → σ → TriggerId → σ × Except Panic Bool
  isAlive : List ActionId → σ → ActionId → Bool
  watching : σ → TriggerId → Option Handle

end RobotControl
