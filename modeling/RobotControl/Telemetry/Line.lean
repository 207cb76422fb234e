import RobotControl.Number.Plain
import RobotControl.Text.Quoted

/-!
# Log lines

An event with a level, a target, a message and named fields, and the one line it becomes on its
way to the operator: `[LEVEL]: target - message name=value …`.
-/
set_option autoImplicit false

namespace RobotControl

inductive Level where
  | error
  | warning
  | info
  | debug
  | trace
  deriving DecidableEq, Repr

namespace Level

def label : Level → String
  | .error => "ERROR"
  | .warning => "WARNING"
  | .info => "INFO"
  | .debug => "DEBUG"
  | .trace => "TRACE"

end Level

inductive FieldValue where
  | shown (s : String)
  | quoted (s : String)
  | whole (n : Int)
  | real (x : Float)
  | flag (b : Bool)
  /-- A value that may be absent; an absent one leaves no trace. -/
  | optional (n : Option Int)

namespace FieldValue

def render : FieldValue → Option String
  | .shown s => some s
  | .quoted s => some (Text.quoted s)
  | .whole n => some (toString n)
  | .real x => some (Number.plain x)
  | .flag b => some (if b then "true" else "false")
  | .optional n => n.map toString

end FieldValue

structure Line where
  level : Level
  target : String
  message : String
  fields : List (String × FieldValue) := []

namespace Line

def renderField (f : String × FieldValue) : String :=
  match f.2.render with
  | none => ""
  | some text => " " ++ f.1 ++ "=" ++ text

def render (l : Line) : String :=
  "[" ++ l.level.label ++ "]: " ++ l.target ++ " - " ++ l.message ++
    String.join (l.fields.map renderField)

end Line

end RobotControl
