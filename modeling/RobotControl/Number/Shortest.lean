import RobotControl.Number.Double

/-!
# The fewest digits that identify a double

The numbers that round to a double form an interval around it.  `shortest` gives the decimal with
the fewest digits in that interval, the nearest one where several have as few, and the upper one of
two equally near.
-/
set_option autoImplicit false

namespace RobotControl.Number

structure Decimal where
  digits : Nat
  exponent : Int
  deriving DecidableEq, Repr

/-- The numbers that round to one double, in quarters of `1/denominator`: from `low` to `high`
around `centre`, with the ends where `closed`. -/
structure Interval where
  low : Nat
  centre : Nat
  high : Nat
  denominator : Nat
  closed : Bool

def Interval.of (m : Nat) (e : Int) (narrow : Bool) : Interval :=
  let unit := twoPow e.toNat
  let centre := 4 * m * unit
  { low := centre - (if narrow then unit else 2 * unit)
    centre := centre
    high := centre + 2 * unit
    denominator := 4 * twoPow (-e).toNat
    closed := m % 2 = 0 }

/-- Compares the decimal `d · 10^k` with `x / denominator`, both sides multiplied out. -/
def scaledPair (i : Interval) (d : Nat) (k : Int) (x : Nat) : Nat × Nat :=
  (d * tenPow k.toNat * i.denominator, x * tenPow (-k).toNat)

def Interval.holds (i : Interval) (d : Nat) (k : Int) : Bool :=
  let lo := scaledPair i d k i.low
  let hi := scaledPair i d k i.high
  if i.closed then lo.2 ≤ lo.1 && hi.1 ≤ hi.2 else lo.2 < lo.1 && hi.1 < hi.2

def Interval.floorAt (i : Interval) (k : Int) : Nat :=
  i.centre * tenPow (-k).toNat / (i.denominator * tenPow k.toNat)

def Interval.below (i : Interval) (k : Int) : Bool :=
  let p := scaledPair i 1 k i.centre
  p.2 < p.1

def Interval.scaleFrom (i : Interval) : Nat → Int → Int
  | 0, k => k
  | fuel + 1, k => if i.below k then k else i.scaleFrom fuel (k + 1)

/-- Of the neighbours `d` and `d + 1` of the centre on the grid `10^k`, the one that identifies the
double, the nearer one if both do, the upper one if both are equally near. -/
def Interval.pick (i : Interval) (k : Int) : Option Nat :=
  let d := i.floorAt k
  match i.holds d k, i.holds (d + 1) k with
  | false, false => none
  | true, false => some d
  | false, true => some (d + 1)
  | true, true =>
      let p := scaledPair i (2 * d + 1) k (2 * i.centre)
      some (if p.2 < p.1 then d else d + 1)

/-- The first of the grids `10^(k-n)`, `10^(k-n-1)`, … with a decimal that identifies the double. -/
def Interval.search (i : Interval) (k : Int) : Nat → Nat → Decimal
  | 0, n => ⟨i.floorAt (k - n), k - n⟩
  | fuel + 1, n =>
      match i.pick (k - n) with
      | some d => ⟨d, k - n⟩
      | none => i.search k fuel (n + 1)

def Decimal.strip : Nat → Decimal → Decimal
  | 0, d => d
  | fuel + 1, d =>
      if d.digits ≠ 0 ∧ d.digits % 10 = 0 then strip fuel ⟨d.digits / 10, d.exponent + 1⟩ else d

def shortest (m : Nat) (e : Int) (narrow : Bool) : Decimal :=
  let i := Interval.of m e narrow
  let k := i.scaleFrom 700 (-330)
  (i.search k 17 1).strip 20

end RobotControl.Number
