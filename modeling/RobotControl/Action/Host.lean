import RobotControl.Action.Routine
import RobotControl.Telemetry.Line

/-!
# What the action manager needs to know

The application behind the actions: their names, the devices they need, the routines of their
callbacks; its triggers; and how effects change the world.
-/
set_option autoImplicit false

namespace RobotControl

inductive Callback where
  | begin
  | process
  /-- Asked after every `process`: is there more to do? -/
  | proceed
  | finish (interrupted : Bool)
  deriving DecidableEq, Repr

structure Host (ε Ω σ : Type) where
  name : σ → ActionId → String
  needs : σ → ActionId → σ × Except Panic (List DeviceId)
  routine : ActionId → Callback → Routine ε Ω σ
  wantsMore : σ → ActionId → Bool
  poll : Ω → σ → TriggerId → σ × Except Panic Bool
  isAlive : List ActionId → σ → ActionId → Bool
  /-- A trigger is bound no more: what it kept is let go. -/
  forget : σ → TriggerId → Ω → Ω
  /-- An effect: the world after it, and a routine that runs in its place and answers. -/
  perform : ε → ActionTable → Ω → Ω × Routine ε Ω σ
  log : Line → Ω → Ω

private def managerError (message name : String) (field : String) (text : String) : Line :=
  ⟨.error, "pirobot_runtime::action_manager", message,
    [("action", .shown name), (field, .shown text)]⟩

namespace Callback

def failure (name : String) (f : Failure) : Callback → Line
  | .begin => managerError "action begin failed" name "error" f.details
  | .process => managerError "action process failed" name "error" f.details
  | .proceed =>
      managerError "action should_continue panicked" name "panic"
        (match f with
        | .panic p => p.message
        | .fault e => e.message)
  | .finish _ => managerError "action finish failed" name "error" f.details

end Callback

def triggerFailure (name : String) (p : Panic) : Line :=
  managerError "action trigger panicked" name "panic" p.message

end RobotControl
