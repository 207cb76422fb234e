import RobotControl.Fault
import RobotControl.Text.Blank
import RobotControl.Text.Quoted

/-!
# Console log formats
-/
set_option autoImplicit false

namespace RobotControl

inductive LogFormat where
  | compact
  | json
  deriving DecidableEq, Repr, Inhabited

namespace LogFormat

def name : LogFormat → String
  | .compact => "compact"
  | .json => "json"

def ofName? : String → Option LogFormat
  | "compact" => some .compact
  | "json" => some .json
  | _ => none

/-- Reads a name in any case and with blanks around it. -/
def parse (s : String) : Except Fault LogFormat :=
  let wanted := Text.lowerAscii (Text.trim s)
  match ofName? wanted with
  | some f => .ok f
  | none => .error (.config ("unknown log format " ++ Text.quoted wanted))

theorem ofName?_name (f : LogFormat) : ofName? f.name = some f := by
  cases f <;> rfl

end LogFormat

end RobotControl
