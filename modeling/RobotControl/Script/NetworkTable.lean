import RobotControl.Telemetry.NetworkTable
import RobotControl.Value

/-!
# Scripted network tables

A network table with a battery monitor on it, driven command by command.
-/
set_option autoImplicit false

namespace RobotControl.Script

inductive TableCommand where
  | set (key value : String)
  | remote (key value : String)
  | get (key : String)
  | has (key : String)
  | snapshot
  | describe
  | switchHandle

namespace TableCommand

def answer (t : NetworkTable) : TableCommand → Value
  | .set _ _ | .remote _ _ | .switchHandle => .ok
  | .get key => .ofOption .text (t.get? key)
  | .has key => .flag (t.has key)
  | .snapshot => .fields (t.snapshot.map fun e => (e.1, .text e.2))
  | .describe => .text t.describe

end TableCommand

inductive TableBenchCommand where
  | table (c : TableCommand)
  | makeMain (label : String)
  | isMain (label : String)
  | volts (label : String) (volts : Float)

structure TableBench where
  table : NetworkTable
  battery : BatteryMonitor := {}
  labels : Assoc String DeviceId := ∅

namespace TableBench

def identify (b : TableBench) (label : String) : TableBench × DeviceId :=
  match b.labels.get? label with
  | some id => (b, id)
  | none =>
      let id : DeviceId := ⟨firstNumber + b.labels.size⟩
      ({ b with labels := b.labels.put label id }, id)

def command (b : TableBench) : TableBenchCommand → TableBench × Value
  | .table c =>
      let t :=
        match c with
        | .set key value => b.table.set key value
        | .remote key value => b.table.setFromRemote key value
        | _ => b.table
      ({ b with table := t }, c.answer b.table)
  | .makeMain l =>
      let r := b.identify l
      ({ r.1 with battery := { main := some r.2 } }, .ok)
  | .isMain l =>
      let r := b.identify l
      (r.1, .flag (r.1.battery.isMain r.2))
  | .volts l x =>
      let r := b.identify l
      let sent := r.1.battery.report r.1.table r.2 x
      ({ r.1 with table := sent.1 }, .flag sent.2)

def answers (b : TableBench) : List TableBenchCommand → List Value
  | [] => []
  | c :: rest =>
      let quiet : NetworkTable := { b.table with sink := { b.table.sink with delivered := [] } }
      let r := { b with table := quiet }.command c
      .list [r.2, .list (r.1.table.sink.delivered.map Delivery.value)] :: answers r.1 rest

end TableBench

end RobotControl.Script
