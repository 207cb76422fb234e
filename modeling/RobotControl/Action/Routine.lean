import RobotControl.Action.Table
import RobotControl.Fault

/-!
# Routines

A piece of application code, such as a callback of an action or a hook of the robot, as the tree of
what it can do next: ask the action manager for something, have an effect on the world, look at
the state, note something for itself, try another routine, and end well, with a fault or by a
panic.  The world is `Ω`, what the application keeps for itself is `σ`, and `ε` are the effects it
has at hand.
-/
set_option autoImplicit false

namespace RobotControl

/-- What can be asked of the action manager.  Asking answers a truth value. -/
inductive Request where
  /-- Starts an action; a running one only if it is to be restarted. -/
  | start (action : ActionId) (restart : Bool)
  | stop (action : ActionId)
  | stopAll
  | tick
  | poll
  | bind (target : ActionId) (restart : Bool)
  | unbind (trigger : TriggerId)
  deriving DecidableEq, Repr

inductive Routine (ε Ω σ : Type) where
  | done (outcome : Except Fault Unit)
  | panic (p : Panic)
  | ask (r : Request) (next : Bool → Routine ε Ω σ)
  | act (e : ε) (next : Except Fault Unit → Routine ε Ω σ)
  | look (next : ActionTable → Ω → σ → Routine ε Ω σ)
  | note (change : σ → σ) (next : Routine ε Ω σ)
  /-- Runs a routine and goes on whatever its end was. -/
  | attempt (body : Routine ε Ω σ) (next : Except Failure Unit → Routine ε Ω σ)

namespace Routine

variable {ε ε' Ω σ : Type}

def skip : Routine ε Ω σ := .done (.ok ())

def fail (f : Fault) : Routine ε Ω σ := .done (.error f)

/-- Has an effect whose answer does not matter, then goes on. -/
def andThen (e : ε) (next : Routine ε Ω σ) : Routine ε Ω σ := .act e fun _ => next

def map (f : ε → ε') : Routine ε Ω σ → Routine ε' Ω σ
  | .done o => .done o
  | .panic p => .panic p
  | .ask r next => .ask r fun b => (next b).map f
  | .act e next => .act (f e) fun o => (next o).map f
  | .look next => .look fun t w s => (next t w s).map f
  | .note change next => .note change (next.map f)
  | .attempt body next => .attempt (body.map f) fun o => (next o).map f

end Routine

end RobotControl
