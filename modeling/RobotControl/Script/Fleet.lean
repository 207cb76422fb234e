import RobotControl.Device.Watchdog
import RobotControl.Script.Device

/-!
# Scripted fleets

A fleet with its roster and a watchdog, driven command by command.
-/
set_option autoImplicit false

namespace RobotControl.Script

inductive FleetCommand where
  | device (c : DeviceCommand)
  | register (label : String)
  | startRoster
  | isStarted
  | size
  | names
  | enableMatching
  | disableMatching
  | disableWatched
  | enableWatched (robotEnabled : Bool)
  | disableAll
  | advance (time : Nat)
  | feed (robotEnabled : Bool)
  | check
  | tripped
  | timeout
  | whileArmed

structure FleetBench where
  cast : Cast := {}
  fleet : Fleet := {}
  watchdog : Watchdog

namespace FleetBench

def ofDevices (timeout : Nat) (devices : List DeviceSpec) : FleetBench :=
  let r := Cast.enterAll {} {} devices
  { cast := r.1, fleet := r.2, watchdog := .armed timeout 0 }

def guarded : Nat := 7

def texts (names : List String) : Value := .list (names.map .text)

def command (b : FleetBench) : FleetCommand → FleetBench × Value
  | .device c =>
      let r := c.run b.cast b.fleet
      ({ b with fleet := r.1 }, r.2)
  | .register l =>
      match b.cast.handle? b.fleet l with
      | some h => ({ b with fleet := b.fleet.register h }, .ok)
      | none => (b, .null)
  | .startRoster => ({ b with fleet := b.fleet.startRoster }, .ok)
  | .isStarted => (b, .flag b.fleet.roster.started)
  | .size =>
      let n := b.fleet.live.length
      (b, .list [.count n, .flag (n == 0)])
  | .names => (b, texts b.fleet.names)
  | .enableMatching => ({ b with fleet := b.fleet.enableMatching }, .ok)
  | .disableMatching => ({ b with fleet := b.fleet.disableMatching }, .ok)
  | .disableWatched => ({ b with fleet := b.fleet.disableWatched }, texts b.fleet.watchedOn)
  | .enableWatched e => ({ b with fleet := b.fleet.enableWatched e }, .ok)
  | .disableAll => ({ b with fleet := b.fleet.disableAll }, .ok)
  | .advance time => ({ b with fleet := { b.fleet with now := b.fleet.now + time } }, .ok)
  | .feed e =>
      let r := b.watchdog.feed b.fleet e
      ({ b with watchdog := r.1, fleet := r.2 }, .ok)
  | .check =>
      let r := b.watchdog.check b.fleet
      ({ b with watchdog := r.1, fleet := r.2 }, .flag r.1.tripped)
  | .tripped => (b, .flag b.watchdog.tripped)
  | .timeout => (b, .count (b.watchdog.timeout / 1000))
  | .whileArmed =>
      ({ b with fleet := b.watchdog.whileArmed b.fleet Fleet.enableMatching },
        if b.watchdog.tripped then .null else .count guarded)

def answers (b : FleetBench) : List FleetCommand → List Value
  | [] => []
  | c :: rest =>
      let r := { b with fleet := { b.fleet with log := [] } }.command c
      .fields [("r", r.2), ("dev", r.1.cast.states r.1.fleet),
        ("log", texts (r.1.fleet.log.map Line.render))] :: answers r.1 rest

end FleetBench

end RobotControl.Script
