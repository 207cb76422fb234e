import RobotControl.Assoc
import RobotControl.Identity
import RobotControl.Number.Fixed
import RobotControl.Telemetry.Sink

/-!
# The network table

Texts under keys, shared between the robot and its driver station.  What the robot writes is
stored and sent out; what the driver station writes is stored only.  Entries travel as lines, so
line breaks are taken out of the keys that the robot writes.  An entry that the sink refuses leaves
a line in the log, and is stored all the same.
-/
set_option autoImplicit false

namespace RobotControl

structure NetworkTable where
  entries : Assoc String String := ∅
  sink : Sink

namespace NetworkTable

def stateKey : String := "robotstate"

/-- A key as it is stored and sent. -/
def cleanKey (key : String) : String := String.ofList (key.toList.filter (· ≠ '\n'))

def set (t : NetworkTable) (key value : String) : NetworkTable :=
  { entries := t.entries.put (cleanKey key) value
    sink := t.sink.sendEntry (cleanKey key) value }

def setFromRemote (t : NetworkTable) (key value : String) : NetworkTable :=
  { t with entries := t.entries.put key value }

/-- Who writes.  The robot is answered by the sink. -/
inductive Writer where
  | robot (accepted : Bool)
  | station
  deriving DecidableEq, Repr

/-- A write through one of the handles; they all share the table. -/
structure Write where
  handle : Nat := 0
  writer : Writer
  key : String
  value : String
  deriving DecidableEq, Repr

/-- What the log says of an entry that the sink refuses. -/
def undelivered (key : String) : Line :=
  ⟨.trace, "pirobot_middleware::network_table", "network table entry not delivered",
    [("key", .shown key)]⟩

/-- The table after a write, with what the write leaves in the log. -/
def accept (t : NetworkTable) (w : Write) : NetworkTable × List Line :=
  match w.writer with
  | .robot true => (t.set w.key w.value, [])
  | .robot false => (t.set w.key w.value, [undelivered (cleanKey w.key)])
  | .station => (t.setFromRemote w.key w.value, [])

def get? (t : NetworkTable) (key : String) : Option String := t.entries.get? key

theorem get?_set (t : NetworkTable) (key value other : String) :
    (t.set key value).get? other = if cleanKey key = other then some value else t.get? other :=
  Assoc.get?_put t.entries (cleanKey key) other value

theorem get?_setFromRemote (t : NetworkTable) (key value other : String) :
    (t.setFromRemote key value).get? other = if key = other then some value else t.get? other :=
  Assoc.get?_put t.entries key other value

def has (t : NetworkTable) (key : String) : Bool := t.entries.contains key

def snapshot (t : NetworkTable) : List (String × String) := t.entries.entries

def describe (t : NetworkTable) : String :=
  "NetworkTable \x7b entries: " ++ toString t.entries.size ++ " \x7d"

end NetworkTable

/-- Of several voltage monitors one is the main one; only its readings are published. -/
structure BatteryMonitor where
  main : Option DeviceId := none
  deriving DecidableEq, Repr

namespace BatteryMonitor

def key : String := "vbat0"

def voltageText (volts : Float) : String := Number.fixed 2 volts

def isMain (m : BatteryMonitor) (d : DeviceId) : Bool := m.main = some d

def report (m : BatteryMonitor) (t : NetworkTable) (d : DeviceId) (volts : Float) :
    NetworkTable × Bool :=
  if m.isMain d then (t.set key (voltageText volts), true) else (t, false)

end BatteryMonitor

end RobotControl
