import RobotControl.Number.Shortest

/-!
# Numbers in log lines

A double is written with the fewest digits that identify it: positionally, and always with a point,
from `10^-4` up to below `10^16`, otherwise with a bare exponent.
-/
set_option autoImplicit false

namespace RobotControl.Number

def digitCount (n : Nat) : Nat := (toString n).length

def positional (d : Decimal) : String :=
  let ds := (toString d.digits).toList
  if 0 ≤ d.exponent then
    String.ofList (ds ++ List.replicate d.exponent.toNat '0') ++ ".0"
  else
    let p := (-d.exponent).toNat
    let padded := List.replicate (p + 1 - ds.length) '0' ++ ds
    let cut := padded.length - p
    String.ofList (padded.take cut) ++ "." ++ String.ofList (padded.drop cut)

def scientific (d : Decimal) : String :=
  let ds := (toString d.digits).toList
  let e := d.exponent + (ds.length : Int) - 1
  let mantissa :=
    match ds with
    | [] => ""
    | [c] => String.ofList [c]
    | c :: rest => String.ofList (c :: '.' :: rest)
  mantissa ++ "e" ++ toString e

def plain (x : Float) : String :=
  let d := Double.ofFloat x
  let sign := if d.negative then "-" else ""
  match d.magnitude with
  | .nan => "NaN"
  | .infinite => sign ++ "inf"
  | .finite m e narrow =>
      if m = 0 then sign ++ "0.0"
      else
        let s := shortest m e narrow
        let lead := s.exponent + (digitCount s.digits : Int)
        sign ++ (if -4 < lead ∧ lead ≤ 16 then positional s else scientific s)

end RobotControl.Number
