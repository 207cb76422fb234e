import RobotControl.Device.Controller
import RobotControl.Telemetry.Line

/-!
# Motors

A controller joined to its output.  Writes that fail are reported in the log and otherwise
ignored.
-/
set_option autoImplicit false

namespace RobotControl

structure Motor where
  name : String
  output : Output
  controller : Controller := {}

namespace Motor

private def failure (m : Motor) (message : String) (f : Fault) : Line :=
  ⟨.warning, "pirobot_hal::motor", message,
    [("device", .shown m.name), ("error", .shown f.message)]⟩

def settle (m : Motor) (message : String) (change : Controller × Option Command) :
    Motor × List Line :=
  match change.2 with
  | none => ({ m with controller := change.1 }, [])
  | some c =>
      let w := m.output.write c
      ({ m with controller := change.1, output := w.1 },
        match w.2 with
        | .ok () => []
        | .error f => [m.failure message f])

def change (m : Motor) (op : Controller → Controller × Option Command) : Motor × List Line :=
  m.settle "motor output write failed" (op m.controller)

/-- Initialises the output unless that has succeeded before. -/
def start (m : Motor) : Motor × List Line × Except Fault Unit :=
  if m.controller.initialised then (m, [], .ok ())
  else
    let r := m.output.initialise
    let m : Motor := { m with output := r.1 }
    match r.2 with
    | .error f => (m, [], .error f)
    | .ok () =>
        let started := m.change Controller.initialise
        (started.1, started.2, .ok ())

def enable (m : Motor) : Motor := { m with controller := m.controller.enable }

def disable (m : Motor) : Motor × List Line := m.change Controller.disable

/-- A motor that nobody holds any more is stopped once again. -/
def release (m : Motor) : Motor × List Line :=
  m.settle "motor output write failed on drop" m.controller.disable

end Motor

end RobotControl
