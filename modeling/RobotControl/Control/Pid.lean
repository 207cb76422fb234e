import RobotControl.Number.Arith

/-!
# Feedback controller

A discrete controller with proportional, integral and derivative gain and a feed-forward share of
the set-point.  It is stepped once per control period: the integral is the running sum of errors,
the derivative the change of the error since the step before.  Outputs lie in `[min, max]`.
-/
set_option autoImplicit false

namespace RobotControl

open Arith

structure Pid (α : Type) where
  kp : α
  ki : α
  kd : α
  kf : α
  min : α
  max : α
  setpoint : α
  integral : α
  lastError : α

inductive PidInput (α : Type) where
  | gains (kp ki kd : α)
  | feedForward (kf : α)
  | limits (min max : α)
  | setpoint (x : α)
  | reset
  | measured (pv : α)

namespace Pid

variable {α : Type} [Arith α]

def withLimits (kp ki kd kf min max : α) : Pid α :=
  { kp, ki, kd, kf, min, max, setpoint := zero, integral := zero, lastError := zero }

def new (kp ki kd : α) : Pid α := withLimits kp ki kd zero (-one) one

/-- One control step for the measured value `pv`: the output and the controller after it. -/
def output (c : Pid α) (pv : α) : α × Pid α :=
  let error := c.setpoint - pv
  let integral := c.integral + error
  let sum := c.kf * c.setpoint + c.kp * error + c.ki * integral + c.kd * (error - c.lastError)
  (smaller (larger sum c.min) c.max, { c with integral := integral, lastError := error })

def feed (c : Pid α) : PidInput α → Option α × Pid α
  | .gains kp ki kd => (none, { c with kp := kp, ki := ki, kd := kd })
  | .feedForward kf => (none, { c with kf := kf })
  | .limits lo hi => (none, { c with min := lo, max := hi })
  | .setpoint x => (none, { c with setpoint := x })
  | .reset => (none, { c with integral := zero, lastError := zero })
  | .measured pv => let r := c.output pv; (some r.1, r.2)

def feeds (c : Pid α) : List (PidInput α) → List α
  | [] => []
  | i :: rest =>
      match c.feed i with
      | (none, c') => c'.feeds rest
      | (some x, c') => x :: c'.feeds rest

end Pid

end RobotControl
