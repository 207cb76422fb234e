import RobotControl.Fault

/-!
# Motor outputs

The hardware behind a motor controller: it is initialised once and then takes commands, each of
which it may refuse.  It remembers the last command that reached it.
-/
set_option autoImplicit false

namespace RobotControl

/-- What a motor is told: a speed in `[-1, 1]` and what a speed of zero means. -/
structure Command where
  speed : Float
  brake : Bool

/-- A motor output.  Attempts are counted from one, failed ones included. -/
structure Output where
  label : String
  refusesInit : Nat → Bool := fun _ => false
  refusesWrite : Nat → Bool := fun _ => false
  initAttempts : Nat := 0
  initCalls : Nat := 0
  attempts : Nat := 0
  writes : Nat := 0
  applied : Command := ⟨0.0, false⟩

namespace Output

def initialise (o : Output) : Output × Except Fault Unit :=
  let attempt := o.initAttempts + 1
  if o.refusesInit attempt then
    ({ o with initAttempts := attempt },
      .error (.hardware o.label "simulated driver not present"))
  else ({ o with initAttempts := attempt, initCalls := o.initCalls + 1 }, .ok ())

def write (o : Output) (c : Command) : Output × Except Fault Unit :=
  let attempt := o.attempts + 1
  if o.refusesWrite attempt then
    ({ o with attempts := attempt },
      .error (.hardware o.label ("write " ++ toString attempt ++ " failed")))
  else ({ o with attempts := attempt, writes := o.writes + 1, applied := c }, .ok ())

end Output

end RobotControl
