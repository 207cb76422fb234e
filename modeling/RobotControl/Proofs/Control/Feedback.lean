import Mathlib.Algebra.Order.Group.MinMax
import RobotControl.Control.Pid
import RobotControl.Proofs.Number.Exact

/-!
# The controller in closed form

A history lists what a controller was told, the latest first: settings, set-points, resets and
measurements.  In exact arithmetic the answer to a measurement is one formula in the settings in
force, the set-point, and the errors of the measurements since the last reset (`Pid.answer`,
`Pid.closed_form`).  What the controller remembers of a history are these errors, so two controllers
with any gains and limits remember the same of the same set-points, resets and measurements.
-/
set_option autoImplicit false

namespace RobotControl

namespace Pid

/-- What a controller was told, the latest first. -/
abbrev History := List (PidInput ℚ)

def after (c : Pid ℚ) : History → Pid ℚ
  | [] => c
  | i :: earlier => ((c.after earlier).feed i).2

theorem after_append (c : Pid ℚ) (later earlier : History) :
    c.after (later ++ earlier) = (c.after earlier).after later := by
  induction later with
  | nil => rfl
  | cons i later ih => exact congrArg (fun c => (c.feed i).2) ih

theorem feeds_cons (c : Pid ℚ) (i : PidInput ℚ) (later : List (PidInput ℚ)) :
    c.feeds (i :: later) = (c.feed i).1.toList ++ (c.feed i).2.feeds later := by
  rw [feeds]
  cases i <;> rfl

theorem feeds_concat (c : Pid ℚ) (inputs : List (PidInput ℚ)) (i : PidInput ℚ) :
    c.feeds (inputs ++ [i]) = c.feeds inputs ++ ((c.after inputs.reverse).feed i).1.toList := by
  induction inputs generalizing c with
  | nil =>
      rw [List.nil_append, feeds_cons]
      exact List.append_nil _
  | cons j inputs ih =>
      rw [List.cons_append, feeds_cons, feeds_cons, ih, List.reverse_cons, after_append,
        List.append_assoc]
      rfl

/-! ### What a history says -/

/-- The last value of one kind that the history gives. -/
def inForce {α : Type} (given? : PidInput ℚ → Option α) (initial : α) (history : History) : α :=
  (history.findSome? given?).getD initial

end Pid

namespace PidInput

/-- Proportional, integral and derivative gain. -/
def gains? : PidInput ℚ → Option (ℚ × ℚ × ℚ)
  | .gains kp ki kd => some (kp, ki, kd)
  | _ => none

def feedForward? : PidInput ℚ → Option ℚ
  | .feedForward kf => some kf
  | _ => none

def limits? : PidInput ℚ → Option (ℚ × ℚ)
  | .limits min max => some (min, max)
  | _ => none

def setpoint? : PidInput ℚ → Option ℚ
  | .setpoint x => some x
  | _ => none

/-- Neither gains nor limits. -/
def isCourse : PidInput ℚ → Bool
  | .setpoint _ | .reset | .measured _ => true
  | .gains .. | .feedForward _ | .limits .. => false

end PidInput

namespace Pid

def target (history : History) : ℚ := inForce PidInput.setpoint? 0 history

/-- Errors of the measurements since the last reset, the latest first. -/
def errors : History → List ℚ
  | [] | .reset :: _ => []
  | .measured pv :: earlier => (target earlier - pv) :: errors earlier
  | .gains .. :: earlier | .feedForward _ :: earlier | .limits .. :: earlier
  | .setpoint _ :: earlier => errors earlier

/-- The answer to a measurement, from the gains and limits in force, the set-point, the sum of the
errors since the last reset and the change of the error. -/
def answer (start : Pid ℚ) (earlier : History) (pv : ℚ) : ℚ :=
  let gains := inForce PidInput.gains? (start.kp, start.ki, start.kd) earlier
  let kf := inForce PidInput.feedForward? start.kf earlier
  let limits := inForce PidInput.limits? (start.min, start.max) earlier
  let error := target earlier - pv
  let sum := kf * target earlier + gains.1 * error +
    gains.2.1 * (errors (.measured pv :: earlier)).sum +
    gains.2.2 * (error - (errors earlier).headD 0)
  Min.min (Max.max sum limits.1) limits.2

/-! ### What a controller remembers -/

section

variable (kp ki kd kf min max : ℚ)

theorem after_withLimits (history : History) :
    (withLimits kp ki kd kf min max).after history =
      { kp := (inForce PidInput.gains? (kp, ki, kd) history).1
        ki := (inForce PidInput.gains? (kp, ki, kd) history).2.1
        kd := (inForce PidInput.gains? (kp, ki, kd) history).2.2
        kf := inForce PidInput.feedForward? kf history
        min := (inForce PidInput.limits? (min, max) history).1
        max := (inForce PidInput.limits? (min, max) history).2
        setpoint := target history
        integral := (errors history).sum
        lastError := (errors history).headD 0 } := by
  induction history with
  | nil => rfl
  | cons i earlier ih =>
      rw [after, ih]
      cases i with
      | measured pv =>
          have sum : (errors earlier).sum + (target earlier - pv) =
              (errors (.measured pv :: earlier)).sum := add_comm _ _
          rw [← sum]
          rfl
      | gains | feedForward | limits | setpoint | reset => rfl

theorem output_after (history : History) (pv : ℚ) :
    (((withLimits kp ki kd kf min max).after history).output pv).1 =
      answer (withLimits kp ki kd kf min max) history pv := by
  have sum : (errors history).sum + (target history - pv) =
      (errors (.measured pv :: history)).sum := add_comm _ _
  rw [after_withLimits, output]
  dsimp only
  rw [Arith.smaller_eq_min, Arith.larger_eq_max, sum]
  rfl

end

theorem answer_bounds (start : Pid ℚ) (earlier : History) (pv : ℚ)
    (ordered : (inForce PidInput.limits? (start.min, start.max) earlier).1 ≤
      (inForce PidInput.limits? (start.min, start.max) earlier).2) :
    (inForce PidInput.limits? (start.min, start.max) earlier).1 ≤ answer start earlier pv ∧
      answer start earlier pv ≤ (inForce PidInput.limits? (start.min, start.max) earlier).2 :=
  ⟨le_min (le_max_right _ _) ordered, min_le_right _ _⟩

/-! ### Gains and limits leave no trace -/

theorem target_filter (history : History) :
    target (history.filter PidInput.isCourse) = target history := by
  induction history with
  | nil => rfl
  | cons i earlier ih =>
      cases i with
      | setpoint x => rfl
      | gains | feedForward | limits | reset | measured => exact ih

theorem errors_filter (history : History) :
    errors (history.filter PidInput.isCourse) = errors history := by
  induction history with
  | nil => rfl
  | cons i earlier ih =>
      cases i with
      | measured pv => exact congrArg₂ (fun sp es => (sp - pv) :: es) (target_filter earlier) ih
      | reset => rfl
      | gains | feedForward | limits | setpoint => exact ih

theorem remembers_course {history other : History}
    (course : other.filter PidInput.isCourse = history.filter PidInput.isCourse)
    (kp ki kd kf min max kp' ki' kd' kf' min' max' : ℚ) :
    ((withLimits kp' ki' kd' kf' min' max').after other).integral =
        ((withLimits kp ki kd kf min max).after history).integral ∧
      ((withLimits kp' ki' kd' kf' min' max').after other).lastError =
        ((withLimits kp ki kd kf min max).after history).lastError := by
  have same : errors other = errors history := by
    rw [← errors_filter, course, errors_filter]
  rw [after_withLimits, after_withLimits, same]
  exact ⟨rfl, rfl⟩

/-- A new controller answers each measurement by the formula, inside the limits in force if these
are in order.  The sum and the last of the errors since the last reset are all that it remembers of
the measurements, and neither depends on the gains and limits at any time, and so on whether an
answer was cut off. -/
theorem closed_form (kp ki kd kf min max pv : ℚ) (earlier : History) :
    let c := withLimits kp ki kd kf min max
    let limits := inForce PidInput.limits? (min, max) earlier
    c.feeds (.measured pv :: earlier).reverse =
      c.feeds earlier.reverse ++ [answer c earlier pv] ∧
    (limits.1 ≤ limits.2 → limits.1 ≤ answer c earlier pv ∧ answer c earlier pv ≤ limits.2) ∧
    (c.after earlier).integral = (errors earlier).sum ∧
    (c.after earlier).lastError = (errors earlier).headD 0 ∧
    ∀ (kp' ki' kd' kf' min' max' : ℚ) (other : History),
      other.filter PidInput.isCourse = earlier.filter PidInput.isCourse →
      ((withLimits kp' ki' kd' kf' min' max').after other).integral = (c.after earlier).integral ∧
      ((withLimits kp' ki' kd' kf' min' max').after other).lastError =
        (c.after earlier).lastError := by
  intro c limits
  have remembered := after_withLimits kp ki kd kf min max earlier
  refine ⟨?_, answer_bounds c earlier pv, congrArg integral remembered,
    congrArg lastError remembered, fun kp' ki' kd' kf' min' max' other course =>
      remembers_course course kp ki kd kf min max kp' ki' kd' kf' min' max'⟩
  rw [List.reverse_cons, feeds_concat, List.reverse_reverse]
  exact congrArg (c.feeds earlier.reverse ++ [·]) (output_after kp ki kd kf min max earlier pv)

/-- An answer cut off at the limits, which are then widened while the gains change. -/
def widened : History :=
  [.gains 2 1 (1 / 2), .limits (-10) 10, .measured 1, .setpoint 3]

theorem closed_form_widened :
    (-10 : ℚ) ≤ 10 ∧
    (withLimits 1 (1 / 2) 2 0 (-1) 1).feeds (.measured 2 :: widened).reverse = [1, 9 / 2] ∧
    answer (withLimits 1 (1 / 2) 2 0 (-1) 1) widened 2 ≤ 10 ∧
    List.filter PidInput.isCourse [.measured 1, .setpoint 3] =
      widened.filter PidInput.isCourse ∧
    ((withLimits 0 0 0 0 0 0).after [.measured 1, .setpoint 3]).integral = 2 := by
  obtain ⟨answered, bounds, integral, _, course⟩ := closed_form 1 (1 / 2) 2 0 (-1) 1 2 widened
  have ordered : (-10 : ℚ) ≤ 10 := by decide
  have same : List.filter PidInput.isCourse [.measured 1, .setpoint 3] =
      widened.filter PidInput.isCourse := rfl
  have remembered := (course 0 0 0 0 0 0 [.measured 1, .setpoint 3] same).1
  exact ⟨ordered, answered.trans (by decide +kernel), (bounds ordered).2, same,
    (remembered.trans integral).trans (by decide +kernel)⟩

end Pid

end RobotControl
