import RobotControl.Number.Fixed
import RobotControl.Value

/-!
# Doubles in answers

An exact double is answered by the sixteen hexadecimal digits of its bits, a value that went
through a fitted curve with nine places; in both, what is not a number is one word.
-/
set_option autoImplicit false

namespace RobotControl.Number

def bitsText (x : Float) : String :=
  if x.isNaN then "nan" else String.ofList (Value.hexDigits 16 x.toBits.toNat)

def curveText (x : Float) : String :=
  if x.isNaN then "nan" else fixed 9 x

/-- The double with these bits, written as sixteen hexadecimal digits, or one of the words for
special values. -/
def ofText? (s : String) : Option Float :=
  match s with
  | "nan" => some (0.0 / 0.0)
  | "inf" => some (1.0 / 0.0)
  | "-inf" => some (-1.0 / 0.0)
  | _ =>
      let cs := s.toList
      let digit (c : Char) : Option Nat :=
        if c.isDigit then some (c.toNat - 48)
        else if 'a' ≤ c ∧ c ≤ 'f' then some (c.toNat - 87) else none
      if cs.length = 16 then
        (cs.foldlM (fun n c => (digit c).map (16 * n + ·)) 0).map fun n => Float.ofBits n.toUInt64
      else none

end RobotControl.Number
