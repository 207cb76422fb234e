import RobotControl.Number.Double

/-!
# Numbers with a fixed count of places

The exact value of a double is rounded to the nearest multiple of `10^-places`, a tie to the even
one.  The sign written is the sign of the double, also where the digits are all zero.
-/
set_option autoImplicit false

namespace RobotControl.Number

/-- The quotient rounded to nearest, a tie to the even neighbour. -/
def roundDiv (num den : Nat) : Nat :=
  let q := num / den
  let r := 2 * (num % den)
  if r < den then q
  else if den < r then q + 1
  else if q % 2 = 0 then q else q + 1

def placesText (n places : Nat) : String :=
  let digits := (toString n).toList
  let padded := List.replicate (places + 1 - digits.length) '0' ++ digits
  let cut := padded.length - places
  String.ofList (padded.take cut) ++ (if places = 0 then "" else ".") ++
    String.ofList (padded.drop cut)

def fixed (places : Nat) (x : Float) : String :=
  let d := Double.ofFloat x
  let sign := if d.negative then "-" else ""
  match d.magnitude with
  | .nan => "NaN"
  | .infinite => sign ++ "inf"
  | .finite m e _ =>
      let r := ratio m e
      sign ++ placesText (roundDiv (r.1 * tenPow places) r.2) places

end RobotControl.Number
