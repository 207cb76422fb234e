/-!
# Doubles as exact numbers

A double is read from its bits as a sign and a magnitude: not a number, infinite, or a natural
number times a power of two.
-/
set_option autoImplicit false

namespace RobotControl.Number

def twoPow (n : Nat) : Nat := Nat.pow 2 n

def tenPow (n : Nat) : Nat := Nat.pow 10 n

/-- The size of a double.  `finite m e narrow` is `m · 2^e`; `narrow` says that the next smaller
double is only half as far away as the next larger one. -/
inductive Magnitude where
  | nan
  | infinite
  | finite (mantissa : Nat) (exponent : Int) (narrow : Bool)
  deriving DecidableEq, Repr

structure Double where
  negative : Bool
  magnitude : Magnitude
  deriving DecidableEq, Repr

def Double.ofBits (bits : UInt64) : Double :=
  let n := bits.toNat
  let field : Nat := n / twoPow 52 % twoPow 11
  let fraction : Nat := n % twoPow 52
  { negative := twoPow 63 ≤ n
    magnitude :=
      if field = 2047 then (if fraction = 0 then .infinite else .nan)
      else if field = 0 then .finite fraction (-1074) false
      else .finite (twoPow 52 + fraction) ((field : Int) - 1075) (fraction == 0 && 1 < field) }

def Double.ofFloat (x : Float) : Double := .ofBits x.toBits

def ratio (m : Nat) (e : Int) : Nat × Nat :=
  (m * twoPow e.toNat, twoPow (-e).toNat)

end RobotControl.Number
