import RobotControl.Value

/-!
# The operating mode

A robot is enabled or disabled; it starts out disabled.
-/
set_option autoImplicit false

namespace RobotControl

inductive Mode where
  | enabled
  | disabled
  deriving DecidableEq, Repr

namespace Mode

instance : Inhabited Mode := ⟨.disabled⟩

def isEnabled : Mode → Bool
  | .enabled => true
  | .disabled => false

def ofBool (enabled : Bool) : Mode := if enabled then .enabled else .disabled

def label : Mode → String
  | .enabled => "ENABLED"
  | .disabled => "DISABLED"

def name : Mode → String
  | .enabled => "Enabled"
  | .disabled => "Disabled"

/-- Reads the written form, a bare name that may carry an empty value. -/
def decode : Value → Option Mode
  | .text "Enabled" => some .enabled
  | .text "Disabled" => some .disabled
  | .fields [("Enabled", .null)] => some .enabled
  | .fields [("Disabled", .null)] => some .disabled
  | _ => none

end Mode

end RobotControl
