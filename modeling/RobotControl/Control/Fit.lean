import RobotControl.Number.Arith

/-!
# Least-squares polynomials

The polynomial of a given order whose squared distances to a list of points sum up to the least
value.  Its coefficients, lowest power first, solve the normal equations, which are reduced row by
row: the row with the largest leading entry becomes the pivot, and a multiple of it is taken from
every other row.
-/
set_option autoImplicit false

namespace RobotControl.Fit

open Arith

variable {α : Type} [Arith α]

/-- One row of the normal equations: sums of the powers `row, row + 1, …, row + order` of the
abscissas, and last the sum of the ordinates weighted with the power `row`. -/
def normalRow (xs ys : List α) (order row : Nat) : List α :=
  (List.range (order + 1)).map (fun col => sum (xs.map fun x => power x (row + col))) ++
    [sum (xs.zipWith (fun x y => power x row * y) ys)]

def normalRows (xs ys : List α) (order : Nat) : List (List α) :=
  (List.range (order + 1)).map (normalRow xs ys order)

def leading (row : List α) : α := row.headD zero

def pivotIndex : List (List α) → Nat
  | [] => 0
  | row :: rest =>
      let rec go (best : α) (place next : Nat) : List (List α) → Nat
        | [] => place
        | row :: rest =>
            let m := magnitude (leading row)
            if atMost best m then go m next (next + 1) rest else go best place (next + 1) rest
      go (magnitude (leading row)) 0 1 rest

def takePivot : List (List α) → Option (List α × List (List α))
  | [] => none
  | first :: rest =>
      match pivotIndex (first :: rest) with
      | 0 => some (first, rest)
      | p + 1 => some (rest.getD p first, rest.set p first)

def reduceRow (pivot row : List α) : List α :=
  let factor := leading row / leading pivot
  List.zipWith (fun a p => a - factor * p) row.tail pivot.tail

def eliminate : Nat → List (List α) → List (List α)
  | 0, _ => []
  | n + 1, rows =>
      match takePivot rows with
      | none => []
      | some (pivot, others) => pivot :: eliminate n (others.map (reduceRow pivot))

def dot (as bs : List α) : α := sum (List.zipWith (· * ·) as bs)

/-- Solves a triangle from its last row upwards: the unknown of a row is what is left of its last
entry after the later unknowns, over its leading entry. -/
def solve : List (List α) → List α
  | [] => []
  | row :: rest =>
      let later := solve rest
      (row.getLastD zero - dot row.tail later) / leading row :: later

def polynomial (xs ys : List α) (order : Nat) : List α :=
  solve (eliminate (order + 1) (normalRows xs ys order))

end RobotControl.Fit
