import Mathlib.Algebra.Order.Field.Rat
import Mathlib.Algebra.Order.Group.Abs
import RobotControl.Number.Arith

/-!
# Exact arithmetic for control laws

The control laws are read on rational numbers, where every operation is what its name says
(`larger_eq_max`, `unitInput_eq`, `power_eq_pow`, `sum_eq`).  An input can also be infinite or no
number at all: `Exact` adds these to the rational numbers, and brought into `[-1, 1]` each of them
is a rational number again (`Exact.unitInput_eq`).
-/
set_option autoImplicit false

namespace RobotControl

/-! ### Rational numbers -/

/-- Nothing is rounded, everything is a number, and there is one zero. -/
instance : Arith ℚ where
  zero := 0
  one := 1
  less x y := x < y
  atMost x y := x ≤ y
  same x y := x = y
  isNaN _ := false
  magnitude x := |x|
  withSignOf x y := if y < 0 then -|x| else |x|

namespace Arith

theorem larger_eq_max (x y : ℚ) : larger x y = max x y := by
  show (if decide (y < x) then x else y) = max x y
  by_cases less : y < x
  · simp [less, max_eq_left less.le]
  · simp [less, max_eq_right (not_lt.mp less)]

theorem smaller_eq_min (x y : ℚ) : smaller x y = min x y := by
  show (if decide (x < y) then x else y) = min x y
  by_cases less : x < y
  · simp [less, min_eq_left less.le]
  · simp [less, min_eq_right (not_lt.mp less)]

theorem power_eq_pow (x : ℚ) (n : ℕ) : power x n = x ^ n := by
  induction n with
  | zero => exact (pow_zero x).symm
  | succ n ih => exact (congrArg (· * x) ih).trans (pow_succ x n).symm

theorem sum_eq (xs : List ℚ) : sum xs = xs.sum := List.sum_eq_foldl.symm

theorem unitInput_eq (x : ℚ) : unitInput x = max (-1) (min x 1) := by
  show (if decide (1 < if decide (x < -1) then -1 else x) then (1 : ℚ)
    else if decide (x < -1) then -1 else x) = _
  rcases lt_or_ge x (-1) with low | low
  · simp [low, min_eq_left (low.le.trans (by decide : (-1 : ℚ) ≤ 1)), max_eq_left low.le]
  · rcases lt_or_ge 1 x with high | high
    · simp [not_lt.mpr low, high, min_eq_right high.le]
    · simp [not_lt.mpr low, not_lt.mpr high, min_eq_left high, max_eq_right low]

end Arith

/-! ### Inputs that are no numbers -/

/-- A rational number, or one of the things that an input can be without being a number. -/
inductive Exact where
  | nan
  | infinite (negative : Bool)
  | number (x : ℚ)
  deriving DecidableEq, Repr

namespace Exact

def isNegative : Exact → Bool
  | nan => false
  | infinite negative => negative
  | number x => x < 0

def add : Exact → Exact → Exact
  | number x, number y => number (x + y)
  | infinite s, infinite t => if s = t then infinite s else nan
  | infinite s, number _ | number _, infinite s => infinite s
  | nan, _ | _, nan => nan

def neg : Exact → Exact
  | nan => nan
  | infinite negative => infinite !negative
  | number x => number (-x)

def mul : Exact → Exact → Exact
  | number x, number y => number (x * y)
  | nan, _ | _, nan => nan
  | x, y =>
      if x = number 0 ∨ y = number 0 then nan else infinite (x.isNegative ^^ y.isNegative)

def div : Exact → Exact → Exact
  | nan, _ | _, nan | infinite _, infinite _ => nan
  | number _, infinite _ => number 0
  | infinite s, y => infinite (s ^^ y.isNegative)
  | number x, number y =>
      if y ≠ 0 then number (x / y) else if x = 0 then nan else infinite (x < 0)

def less : Exact → Exact → Bool
  | number x, number y => x < y
  | infinite s, infinite t => s && !t
  | infinite s, number _ => s
  | number _, infinite t => !t
  | nan, _ | _, nan => false

def magnitude : Exact → Exact
  | nan => nan
  | infinite _ => infinite false
  | number x => number |x|

/-- As in doubles, but for the sign of a zero and of what is not a number. -/
instance : Arith Exact where
  add := add
  sub x y := add x (neg y)
  mul := mul
  div := div
  neg := neg
  zero := number 0
  one := number 1
  less := less
  atMost x y := less x y || (x = y && x ≠ nan)
  same x y := x = y && x ≠ nan
  isNaN x := x = nan
  magnitude := magnitude
  withSignOf x y := if y.isNegative then neg (magnitude x) else magnitude x

section

variable (x y : ℚ)

@[simp] theorem zero_eq : (Arith.zero : Exact) = number Arith.zero := rfl

@[simp] theorem add_number : number x + number y = number (x + y) := rfl

@[simp] theorem sub_number : number x - number y = number (x - y) :=
  congrArg number (sub_eq_add_neg x y).symm

@[simp] theorem less_number : Arith.less (number x) (number y) = Arith.less x y := rfl

@[simp] theorem magnitude_number :
    Arith.magnitude (number x) = number (Arith.magnitude x) := rfl

@[simp] theorem atMost_number : Arith.atMost (number x) (number y) = Arith.atMost x y := by
  show (decide (x < y) || (decide (number x = number y) && decide (number x ≠ nan))) =
    decide (x ≤ y)
  simp [le_iff_lt_or_eq]

@[simp] theorem withSignOf_number :
    Arith.withSignOf (number x) (number y) = number (Arith.withSignOf x y) := by
  show (if decide (y < 0) then number (-|x|) else number |x|) = number (if y < 0 then -|x| else |x|)
  split <;> simp_all

theorem ite_number (test : Bool) :
    (if test then number x else number y) = number (if test then x else y) := by
  cases test <;> rfl

@[simp] theorem larger_number :
    Arith.larger (number x) (number y) = number (Arith.larger x y) :=
  ite_number x y (Arith.less y x)

theorem unitInput_number : Arith.unitInput (number x) = number (Arith.unitInput x) := by
  show Arith.clamp (number (-1)) (number 1) (number x) = number (Arith.clamp (-1) 1 x)
  unfold Arith.clamp
  dsimp only
  rw [less_number, ite_number, less_number, ite_number]

end

/-- The nearest number in `[-1, 1]`, and zero for what is not a number. -/
def clamped : Exact → ℚ
  | nan => 0
  | infinite negative => if negative then -1 else 1
  | number x => max (-1) (min x 1)

theorem abs_clamped_le (x : Exact) : |x.clamped| ≤ 1 := by
  cases x with
  | nan => decide
  | infinite negative => cases negative <;> decide
  | number x => exact abs_le.mpr ⟨le_max_left .., max_le (by decide) (min_le_right ..)⟩

theorem unitInput_eq (x : Exact) : Arith.unitInput x = number x.clamped := by
  cases x with
  | nan => rfl
  | infinite negative => cases negative <;> rfl
  | number x => rw [unitInput_number, Arith.unitInput_eq, clamped]

end Exact

end RobotControl
