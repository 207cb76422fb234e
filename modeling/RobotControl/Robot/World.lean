import RobotControl.Device.Input
import RobotControl.Device.Watchdog
import RobotControl.Mode
import RobotControl.Schedule.Basic
import RobotControl.StopSignal
import RobotControl.Telemetry.NetworkTable

/-!
# The state of a robot

Everything a robot owns besides its actions: its settings and where it is in its life, its mode,
its devices under their watchdog, its scheduler and its network table.
-/
set_option autoImplicit false

namespace RobotControl

inductive Lifecycle where
  | created
  | started
  | stopped
  deriving DecidableEq, Repr

def Lifecycle.name : Lifecycle → String
  | .created => "Created"
  | .started => "Started"
  | .stopped => "Stopped"

inductive Hook where
  | robotStarted
  | robotEnabled
  | robotDisabled
  | enabledPeriodic
  | disabledPeriodic
  | periodic
  deriving DecidableEq, Repr

namespace Hook

def name : Hook → String
  | .robotStarted => "robot_started"
  | .robotEnabled => "robot_enabled"
  | .robotDisabled => "robot_disabled"
  | .enabledPeriodic => "enabled_periodic"
  | .disabledPeriodic => "disabled_periodic"
  | .periodic => "periodic"

def ofMode : Mode → Hook
  | .enabled => .robotEnabled
  | .disabled => .robotDisabled

def periodicIn : Mode → Hook
  | .enabled => .enabledPeriodic
  | .disabled => .disabledPeriodic

end Hook

/-- What the jobs of a robot do: its own four, and those of the application. -/
inductive Work (ι : Type) where
  | modeDispatch
  | periodic
  | actionTick
  | triggerTick
  | user (job : ι)

structure World (ι : Type) where
  profile : Profile
  lifecycle : Lifecycle := .created
  mode : Mode := .disabled
  fleet : Fleet := {}
  watchdog : Watchdog
  stop : StopSignal := {}
  nextLook : Option Nat := none
  schedule : Schedule (Work ι) := {}
  table : NetworkTable
  battery : BatteryMonitor := {}

namespace World

variable {ι : Type}

def ofProfile (p : Profile) (sink : Sink) : World ι :=
  { profile := p, watchdog := .armed p.watchdogTimeout 0, table := { sink := sink } }

def create (p : Profile) (sink : Sink) : Except Fault (World ι) := do
  p.validate
  return ofProfile p sink

def now (w : World ι) : Nat := w.fleet.now

def log (w : World ι) (l : Line) : World ι := { w with fleet := w.fleet.note [l] }

def publishMode (w : World ι) (m : Mode) : World ι :=
  { w with table := w.table.set NetworkTable.stateKey m.label }

/-- Brings the devices that follow the mode in line with it.  Switching on goes past the watchdog,
so a tripped robot stays silent. -/
def applyMode (w : World ι) : World ι :=
  match w.mode with
  | .enabled => { w with fleet := w.watchdog.whileArmed w.fleet Fleet.enableMatching }
  | .disabled => { w with fleet := w.fleet.disableMatching }

def switchTo (w : World ι) (m : Mode) : World ι :=
  let w : World ι := { w with mode := m }
  ((w.publishMode m).applyMode).log
    ⟨.info, "pirobot_runtime::context", "robot mode changed", [("mode", .shown m.label)]⟩

def feed (w : World ι) : World ι :=
  let r := w.watchdog.feed w.fleet w.mode.isEnabled
  { w with watchdog := r.1, fleet := r.2 }

def check (w : World ι) : World ι :=
  let r := w.watchdog.check w.fleet
  { w with watchdog := r.1, fleet := r.2 }

private def robotLine (message : String) (fields : List (String × FieldValue)) : Line :=
  ⟨.info, "pirobot_runtime::robot", message, fields⟩

/-- The first part of a start: the scheduler runs, the devices are started, the watchdog is fed and
its monitor set. -/
def powerUp (w : World ι) : World ι :=
  let schedule := (w.schedule.start).toOption.getD w.schedule
  let w : World ι := { w with schedule := schedule, fleet := w.fleet.startRoster }
  let w := w.publishMode .disabled
  let fed := w.watchdog.feed w.fleet false
  let w : World ι :=
    { w with
      watchdog := fed.1
      fleet := fed.2
      nextLook := some (w.now + w.profile.pollInterval)
      lifecycle := .started }
  w.log (robotLine "robot started"
    [("devices", .whole w.fleet.live.length), ("rate_ms", .whole w.profile.periodicRateMs.toNat),
      ("watchdog_ms", .whole (w.watchdog.timeout / millisecond))])

def enlist (w : World ι) (name : String) (work : Work ι) (interval : Option Nat) : World ι :=
  { w with
    schedule :=
      match interval with
      | some i => w.schedule.repeated name work w.now i
      | none => w.schedule.soon name work w.now }

def scheduleLoops (w : World ι) : World ι :=
  let rate := some w.profile.periodicRate
  let action := some w.profile.actionPeriod
  (((w.enlist "mode-dispatch" .modeDispatch rate).enlist "periodic" .periodic rate).enlist
    "action-tick" .actionTick action).enlist "trigger-tick" .triggerTick action

def retireUnstarted (w : World ι) : World ι :=
  { w with lifecycle := .stopped, stop := w.stop.trigger }

def halt (w : World ι) : World ι :=
  { w with
    lifecycle := .stopped
    stop := w.stop.trigger
    nextLook := none
    schedule := w.schedule.shutdown
    fleet := w.fleet.note w.schedule.obituary }

/-- The last part of a shutdown: the robot is disabled and so are its devices. -/
def wrapUp (w : World ι) : World ι :=
  let w : World ι := { w with mode := .disabled }
  let w := w.publishMode .disabled
  { w with fleet := w.fleet.disableAll }.log (robotLine "robot stopped" [])

def noteStopRequest (w : World ι) : World ι := w.log (robotLine "stop requested" [])

def advance (w : World ι) (time : Nat) : World ι :=
  { w with fleet := { w.fleet with now := w.fleet.now + time } }

/-- The monitor looks at the watchdog when its time has come.  It ends once a stop is requested. -/
def look (w : World ι) : World ι :=
  match w.nextLook with
  | none => w
  | some due =>
      if w.stop.triggered then { w with nextLook := none }
      else if w.now < due then w
      else { w.check with nextLook := some (w.now + w.profile.pollInterval) }

def describe (w : World ι) : String :=
  "RobotContext \x7b mode: " ++ w.mode.name ++ ", lifecycle: " ++ w.lifecycle.name ++
    ", devices: " ++ toString w.fleet.live.length ++ " \x7d"

end World

end RobotControl
