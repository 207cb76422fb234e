import RobotControl.Number.Double

/-!
# Arithmetic for control laws

The control laws (drive mixing, the controller, stick shaping, curve fitting) are written once over
`Arith` and run on doubles.  Every operation is named for what it means on numbers, so that the
same laws can be read in exact arithmetic.
-/
set_option autoImplicit false

namespace RobotControl

class Arith (α : Type) extends Add α, Sub α, Mul α, Div α, Neg α where
  zero : α
  one : α
  /-- `x < y`, false where one of them is not a number. -/
  less : α → α → Bool
  atMost : α → α → Bool
  same : α → α → Bool
  isNaN : α → Bool
  magnitude : α → α
  withSignOf : α → α → α

namespace Arith

variable {α : Type} [Arith α]

/-- The larger of two; the other one where one is not a number, and the second one where both are
equal, such as two zeros. -/
def larger (x y : α) : α := if isNaN y then x else if less y x then x else y

def smaller (x y : α) : α := if isNaN y then x else if less x y then x else y

def clamp (lo hi x : α) : α :=
  let y := if less x lo then lo else x
  if less hi y then hi else y

/-- An input in `[-1, 1]`; what is not a number reads as zero. -/
def unitInput (x : α) : α := if isNaN x then zero else clamp (-one) one x

def power (x : α) : Nat → α
  | 0 => one
  | n + 1 => power x n * x

def sum (xs : List α) : α := xs.foldl (· + ·) zero

end Arith

/-- Doubles, with signed zeros, infinities and one value that is not a number. -/
instance : Arith Float where
  zero := 0.0
  one := 1.0
  less x y := x < y
  atMost x y := x ≤ y
  same x y := x == y
  isNaN x := x.isNaN
  magnitude x := x.abs
  withSignOf x y := if (Number.Double.ofFloat y).negative then -x.abs else x.abs

end RobotControl
