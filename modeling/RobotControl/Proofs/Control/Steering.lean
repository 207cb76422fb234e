import Mathlib.Algebra.Order.Group.MinMax
import Mathlib.Tactic.Linarith
import RobotControl.Control.Mixing
import RobotControl.Proofs.Number.Exact

/-!
# Mixing speed and rotation

In exact arithmetic the side speeds are one formula for each quadrant of the inputs, and the
formulas agree where the quadrants meet (`arcade_forward_right` and its three siblings).  So turning
the rotation round swaps the sides, turning both inputs round turns both sides round, and the
faster side goes exactly as fast as the larger input asks.  Whatever a drivetrain was steered with
before, at each input all motors of a side are told the same speed, which is in `[-1, 1]` and mixed
from the last speed and the last rotation (`Drivetrain.mixes_last_inputs`).
-/
set_option autoImplicit false

namespace RobotControl

/-! ### Side speeds by quadrant -/

/-- The larger input under the sign of the speed. -/
def topSpeed (s r : ℚ) : ℚ := if s < 0 then -max |s| |r| else max |s| |r|

theorem arcade_eq (s r : ℚ) :
    arcade s r = if (0 ≤ r ∧ 0 ≤ s) ∨ (r < 0 ∧ s < 0) then ⟨topSpeed s r, s - r⟩
      else ⟨s + r, topSpeed s r⟩ := by
  have zero (x : ℚ) : x + (Arith.zero : ℚ) = x := add_zero x
  have top : Arith.withSignOf (Arith.larger (Arith.magnitude s) (Arith.magnitude r)) s =
      topSpeed s r := by
    have size : abs (max |s| |r|) = max |s| |r| := abs_of_nonneg (le_max_of_le_left (abs_nonneg s))
    rw [Arith.larger_eq_max]
    exact congrArg₂ (fun x y => if s < 0 then x else y) (congrArg Neg.neg size) size
  have test : ((Arith.atMost Arith.zero r && Arith.atMost Arith.zero s) ||
      (Arith.less r Arith.zero && Arith.less s Arith.zero)) = true ↔
      (0 ≤ r ∧ 0 ≤ s) ∨ (r < 0 ∧ s < 0) := by
    show ((decide (0 ≤ r) && decide (0 ≤ s)) || (decide (r < 0) && decide (s < 0))) = true ↔ _
    simp
  unfold arcade
  simp only [zero, top, test]

section

variable {s r : ℚ}

theorem arcade_forward_right (forward : 0 ≤ s) (right : 0 ≤ r) :
    arcade s r = ⟨max s r, s - r⟩ := by
  rw [arcade_eq, if_pos (.inl ⟨right, forward⟩), topSpeed, if_neg forward.not_gt,
    abs_of_nonneg forward, abs_of_nonneg right]

theorem arcade_forward_left (forward : 0 ≤ s) (left : r ≤ 0) :
    arcade s r = ⟨s + r, max s (-r)⟩ := by
  rcases left.eq_or_lt with rfl | left
  · rw [arcade_forward_right forward le_rfl, add_zero, sub_zero, neg_zero]
    simp [forward]
  · have other : ¬((0 ≤ r ∧ 0 ≤ s) ∨ (r < 0 ∧ s < 0)) := by
      rintro (⟨right, _⟩ | ⟨_, backward⟩)
      · exact right.not_gt left
      · exact forward.not_gt backward
    rw [arcade_eq, if_neg other, topSpeed, if_neg forward.not_gt, abs_of_nonneg forward,
      abs_of_neg left]

theorem arcade_backward_right (backward : s ≤ 0) (right : 0 ≤ r) :
    arcade s r = ⟨s + r, min s (-r)⟩ := by
  rcases backward.eq_or_lt with rfl | backward
  · rw [arcade_forward_right le_rfl right]
    simp [right]
  · have other : ¬((0 ≤ r ∧ 0 ≤ s) ∨ (r < 0 ∧ s < 0)) := by
      rintro (⟨_, forward⟩ | ⟨left, _⟩)
      · exact forward.not_gt backward
      · exact right.not_gt left
    rw [arcade_eq, if_neg other, topSpeed, if_pos backward, abs_of_neg backward,
      abs_of_nonneg right, ← min_neg_neg, neg_neg]

theorem arcade_backward_left (backward : s ≤ 0) (left : r ≤ 0) :
    arcade s r = ⟨min s r, s - r⟩ := by
  rcases backward.eq_or_lt with rfl | backward
  · rw [arcade_forward_left le_rfl left]
    simp [left]
  · rcases left.eq_or_lt with rfl | left
    · rw [arcade_backward_right backward.le le_rfl]
      simp [backward.le]
    · rw [arcade_eq, if_pos (.inr ⟨left, backward⟩), topSpeed, if_pos backward,
        abs_of_neg backward, abs_of_neg left, ← min_neg_neg, neg_neg, neg_neg]

end

section

variable (s r : ℚ)

theorem arcade_turned : arcade s (-r) = ⟨(arcade s r).right, (arcade s r).left⟩ := by
  rcases le_total 0 s with forward | backward <;> rcases le_total 0 r with right | left
  · rw [arcade_forward_right forward right, arcade_forward_left forward (neg_nonpos.mpr right),
      neg_neg, sub_eq_add_neg]
  · rw [arcade_forward_left forward left, arcade_forward_right forward (neg_nonneg.mpr left),
      sub_neg_eq_add]
  · rw [arcade_backward_right backward right, arcade_backward_left backward (neg_nonpos.mpr right),
      sub_neg_eq_add]
  · rw [arcade_backward_left backward left, arcade_backward_right backward (neg_nonneg.mpr left),
      neg_neg, sub_eq_add_neg]

theorem arcade_reversed : arcade (-s) (-r) = ⟨-(arcade s r).left, -(arcade s r).right⟩ := by
  rcases le_total 0 s with forward | backward <;> rcases le_total 0 r with right | left
  · rw [arcade_forward_right forward right,
      arcade_backward_left (neg_nonpos.mpr forward) (neg_nonpos.mpr right), min_neg_neg]
    simp [neg_add_eq_sub]
  · rw [arcade_forward_left forward left,
      arcade_backward_right (neg_nonpos.mpr forward) (neg_nonneg.mpr left), min_neg_neg, neg_add]
  · rw [arcade_backward_right backward right,
      arcade_forward_left (neg_nonneg.mpr backward) (neg_nonpos.mpr right), max_neg_neg, neg_add]
  · rw [arcade_backward_left backward left,
      arcade_forward_right (neg_nonneg.mpr backward) (neg_nonneg.mpr left), max_neg_neg]
    simp [neg_add_eq_sub]

theorem max_abs_arcade_forward_right {s r : ℚ} (forward : 0 ≤ s) (right : 0 ≤ r) :
    max |(arcade s r).left| |(arcade s r).right| = max |s| |r| := by
  have slower : |s - r| ≤ max s r :=
    abs_sub_le_iff.mpr ⟨by linarith [le_max_left s r], by linarith [le_max_right s r]⟩
  rw [arcade_forward_right forward right, abs_of_nonneg forward, abs_of_nonneg right,
    abs_of_nonneg (le_max_of_le_left forward), max_eq_left slower]

/-- The other quadrants are the first one turned or reversed. -/
theorem max_abs_arcade : max |(arcade s r).left| |(arcade s r).right| = max |s| |r| := by
  have forward_any {s r : ℚ} (forward : 0 ≤ s) :
      max |(arcade s r).left| |(arcade s r).right| = max |s| |r| := by
    rcases le_total 0 r with right | left
    · exact max_abs_arcade_forward_right forward right
    · have turned := max_abs_arcade_forward_right forward (neg_nonneg.mpr left)
      rwa [arcade_turned, abs_neg, max_comm] at turned
  rcases le_total 0 s with forward | backward
  · exact forward_any forward
  · have reversed := forward_any (r := -r) (neg_nonneg.mpr backward)
    rwa [arcade_reversed, abs_neg, abs_neg, abs_neg, abs_neg] at reversed

theorem abs_arcade_le {s r : ℚ} (speed : |s| ≤ 1) (rotation : |r| ≤ 1) :
    |(arcade s r).left| ≤ 1 ∧ |(arcade s r).right| ≤ 1 :=
  max_le_iff.mp ((max_abs_arcade s r).le.trans (max_le speed rotation))

theorem arcade_number :
    arcade (Exact.number s) (Exact.number r) =
      ⟨.number (arcade s r).left, .number (arcade s r).right⟩ := by
  unfold arcade
  dsimp only
  simp only [Exact.zero_eq, Exact.add_number, Exact.sub_number, Exact.atMost_number,
    Exact.less_number, Exact.magnitude_number, Exact.larger_number, Exact.withSignOf_number]
  split <;> rfl

end

/-! ### Inputs in their order -/

namespace DriveInput

variable {α : Type}

def first? : DriveInput α → Option α
  | .first x | .both x _ => some x
  | .second _ => none

def second? : DriveInput α → Option α
  | .second y | .both _ y => some y
  | .first _ => none

end DriveInput

namespace Drive

variable {α : Type} [Arith α]

/-- A drive after all its inputs, the latest first. -/
def after (d : Drive α) : List (DriveInput α) → Drive α
  | [] => d
  | i :: earlier => (d.after earlier).feed i

theorem after_append (d : Drive α) (later earlier : List (DriveInput α)) :
    d.after (later ++ earlier) = (d.after earlier).after later := by
  induction later with
  | nil => rfl
  | cons i later ih => exact congrArg (feed · i) ih

theorem feeds_concat (d : Drive α) (inputs : List (DriveInput α)) (i : DriveInput α) :
    d.feeds (inputs ++ [i]) = d.feeds inputs ++ [(d.after (i :: inputs.reverse)).speeds] := by
  induction inputs generalizing d with
  | nil => rfl
  | cons j inputs ih =>
      rw [List.reverse_cons, ← List.cons_append, after_append]
      exact congrArg ((d.feed j).speeds :: ·) (ih (d.feed j))

/-- The last speed asked for, brought into `[-1, 1]`; at rest until there is one. -/
def lastSpeed (history : List (DriveInput Exact)) : ℚ :=
  ((history.findSome? DriveInput.first?).map Exact.clamped).getD 0

/-- The last rotation asked for, brought into `[-1, 1]`. -/
def lastRotation (history : List (DriveInput Exact)) : ℚ :=
  ((history.findSome? DriveInput.second?).map Exact.clamped).getD 0

theorem after_atRest (history : List (DriveInput Exact)) :
    (atRest .arcade).after history =
      ⟨.arcade, .number (lastSpeed history), .number (lastRotation history)⟩ := by
  induction history with
  | nil => rfl
  | cons i earlier ih =>
      rw [after, ih]
      cases i with
      | first x => rw [feed, Exact.unitInput_eq]; rfl
      | second y => rw [feed, Exact.unitInput_eq]; rfl
      | both x y => rw [feed, Exact.unitInput_eq, Exact.unitInput_eq]; rfl

/-- The side speeds for the last inputs. -/
def mix (history : List (DriveInput Exact)) : Sides ℚ :=
  arcade (lastSpeed history) (lastRotation history)

theorem speeds_after_atRest (history : List (DriveInput Exact)) :
    ((atRest .arcade).after history).speeds =
      ⟨.number (mix history).left, .number (mix history).right⟩ := by
  rw [after_atRest]
  exact arcade_number _ _

theorem abs_mix_le (history : List (DriveInput Exact)) :
    |(mix history).left| ≤ 1 ∧ |(mix history).right| ≤ 1 := by
  have bounded (input : Option Exact) : |(input.map Exact.clamped).getD 0| ≤ 1 := by
    cases input with
    | none => decide
    | some x => exact x.abs_clamped_le
  exact abs_arcade_le (bounded _) (bounded _)

end Drive

/-! ### Motors -/

namespace Drivetrain

variable {μ : Type}

/-- Swapping, reversal and the size of the side speeds, and what the motors of a drivetrain are told
at an input, whatever it and the inputs before it were. -/
theorem mixes_last_inputs (left right : List μ) (i : DriveInput Exact)
    (earlier : List (DriveInput Exact)) :
    (∀ s r : ℚ,
      arcade s (-r) = ⟨(arcade s r).right, (arcade s r).left⟩ ∧
      arcade (-s) (-r) = ⟨-(arcade s r).left, -(arcade s r).right⟩ ∧
      max |(arcade s r).left| |(arcade s r).right| = max |s| |r| ∧
      (|s| ≤ 1 → |r| ≤ 1 → |(arcade s r).left| ≤ 1 ∧ |(arcade s r).right| ≤ 1)) ∧
    |(Drive.mix (i :: earlier)).left| ≤ 1 ∧ |(Drive.mix (i :: earlier)).right| ≤ 1 ∧
    feeds ⟨.atRest .arcade, left, right⟩ (i :: earlier).reverse =
      feeds ⟨.atRest .arcade, left, right⟩ earlier.reverse ++
        [left.map (·, .number (Drive.mix (i :: earlier)).left) ++
          right.map (·, .number (Drive.mix (i :: earlier)).right)] := by
  obtain ⟨leftBound, rightBound⟩ := Drive.abs_mix_le (i :: earlier)
  refine ⟨fun s r => ⟨arcade_turned s r, arcade_reversed s r, max_abs_arcade s r, abs_arcade_le⟩,
    leftBound, rightBound, ?_⟩
  rw [List.reverse_cons, feeds, Drive.feeds_concat, List.reverse_reverse,
    Drive.speeds_after_atRest, List.map_append]
  rfl

/-- Two motors on the left and one on the right. -/
def lopsided : Drivetrain Exact String := ⟨.atRest .arcade, ["front", "rear"], ["middle"]⟩

/-- Full speed ahead, and then backwards with a rotation that is no number. -/
def shunting : List (DriveInput Exact) :=
  [.both (.number (-3 / 4)) .nan, .first (.infinite false)]

theorem mixes_last_inputs_shunting :
    |(-3 / 4 : ℚ)| ≤ 1 ∧ |(1 / 2 : ℚ)| ≤ 1 ∧
    |(arcade (-3 / 4 : ℚ) (1 / 2)).left| ≤ 1 ∧ |(arcade (-3 / 4 : ℚ) (1 / 2)).right| ≤ 1 ∧
    lopsided.feeds (.second (.number (1 / 2)) :: shunting).reverse =
      [[("front", .number 1), ("rear", .number 1), ("middle", .number 1)],
        [("front", .number (-3 / 4)), ("rear", .number (-3 / 4)), ("middle", .number (-3 / 4))],
        [("front", .number (-1 / 4)), ("rear", .number (-1 / 4)), ("middle", .number (-3 / 4))]] := by
  obtain ⟨mixing, _, _, told⟩ :=
    mixes_last_inputs lopsided.left lopsided.right (.second (.number (1 / 2))) shunting
  have speed : |(-3 / 4 : ℚ)| ≤ 1 := by decide +kernel
  have rotation : |(1 / 2 : ℚ)| ≤ 1 := by decide +kernel
  obtain ⟨leftBound, rightBound⟩ := (mixing (-3 / 4) (1 / 2)).2.2.2 speed rotation
  exact ⟨speed, rotation, leftBound, rightBound, told.trans (by decide +kernel)⟩

end Drivetrain

end RobotControl
