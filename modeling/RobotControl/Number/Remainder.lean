import RobotControl.Number.Double

/-!
# Remainders of doubles

The remainder of a double in a division by a natural number.  It is exact: a multiple of the
double's last place that is no larger than the double itself is again a double.
-/
set_option autoImplicit false

namespace RobotControl.Number

/-- What is left of `x` after taking away multiples of `n`, under the sign of `x`. -/
def remainder (x : Float) (n : Nat) : Float :=
  let d := Double.ofFloat x
  match d.magnitude with
  | .nan | .infinite => 0.0 / 0.0
  | .finite m e _ =>
      if n = 0 then 0.0 / 0.0
      else
        let r := ratio m e
        let rest := Float.ofNat (r.1 % (n * r.2)) / Float.ofNat r.2
        if d.negative then -rest else rest

end RobotControl.Number
