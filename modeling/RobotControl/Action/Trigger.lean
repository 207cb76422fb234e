import RobotControl.Device.Gamepad

/-!
# Button triggers

A trigger looks at a button of a gamepad and fires when the button has changed in its direction
since the last look at which its state was known.
-/
set_option autoImplicit false

namespace RobotControl

inductive Edge where
  | pressed
  | released
  deriving DecidableEq, Repr

structure ButtonTrigger where
  gamepad : Gamepad
  button : Nat
  edge : Edge
  last : Bool := false

namespace ButtonTrigger

def fires (edge : Edge) (before now : Bool) : Bool :=
  match edge with
  | .pressed => now && !before
  | .released => !now && before

/-- A look at the button's state.  An unknown state changes nothing. -/
def see (t : ButtonTrigger) : Option Bool → ButtonTrigger × Bool
  | none => (t, false)
  | some value => ({ t with last := value }, fires t.edge t.last value)

def poll (t : ButtonTrigger) (hub : Hub) (now : Nat) : ButtonTrigger × Bool :=
  t.see (t.gamepad.button hub now t.button)

end ButtonTrigger

end RobotControl
