import RobotControl.Number.Arith

/-!
# Differential drive

A robot with motors on two sides is steered either by a speed and a rotation (`Mixing.arcade`) or
by one speed a side.  A `Drive` keeps the last inputs and answers every change with the speeds
of the two sides; a `Drivetrain` hands them to the motors there.
-/
set_option autoImplicit false

namespace RobotControl

open Arith

structure Sides (α : Type) where
  left : α
  right : α
  deriving DecidableEq, Repr

/-- Side speeds from a speed and a rotation.  The faster side gets the larger of the two inputs
under the sign of the speed; positive rotation slows the right side down. -/
def arcade {α : Type} [Arith α] (speed rotation : α) : Sides α :=
  let s := speed + zero
  let r := rotation + zero
  let top := withSignOf (larger (magnitude s) (magnitude r)) s
  if (atMost zero r && atMost zero s) || (less r zero && less s zero) then
    ⟨top, s - r⟩
  else
    ⟨s + r, top⟩

inductive Steering where
  | arcade
  | tank
  deriving DecidableEq, Repr

structure Drive (α : Type) where
  steering : Steering
  first : α
  second : α

inductive DriveInput (α : Type) where
  | first (x : α)
  | second (x : α)
  | both (x y : α)

namespace Drive

variable {α : Type} [Arith α]

def atRest (steering : Steering) : Drive α := ⟨steering, zero, zero⟩

def speeds (d : Drive α) : Sides α :=
  match d.steering with
  | .arcade => RobotControl.arcade d.first d.second
  | .tank => ⟨d.first, d.second⟩

def feed (d : Drive α) : DriveInput α → Drive α
  | .first x => { d with first := unitInput x }
  | .second y => { d with second := unitInput y }
  | .both x y => { d with first := unitInput x, second := unitInput y }

def feeds (d : Drive α) : List (DriveInput α) → List (Sides α)
  | [] => []
  | i :: rest => (d.feed i).speeds :: (d.feed i).feeds rest

end Drive

/-- A drive with the motors of its two sides, any number on each. -/
structure Drivetrain (α μ : Type) where
  drive : Drive α
  left : List μ
  right : List μ

namespace Drivetrain

variable {α μ : Type}

/-- What the motors are told, those on the left first. -/
def orders (t : Drivetrain α μ) (s : Sides α) : List (μ × α) :=
  t.left.map (·, s.left) ++ t.right.map (·, s.right)

/-- The orders that go out at each input. -/
def feeds [Arith α] (t : Drivetrain α μ) (inputs : List (DriveInput α)) : List (List (μ × α)) :=
  (t.drive.feeds inputs).map t.orders

end Drivetrain

end RobotControl
