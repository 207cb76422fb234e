/-!
# Stop signals

A one-shot request to stop, shared by everyone who waits for it: once triggered it stays triggered.
-/
set_option autoImplicit false

namespace RobotControl

structure StopSignal where
  triggered : Bool := false
  deriving DecidableEq, Repr

namespace StopSignal

def trigger (_ : StopSignal) : StopSignal := ⟨true⟩

def waitTimeout (s : StopSignal) : Bool := s.triggered

def describe (s : StopSignal) : String :=
  "StopSignal \x7b triggered: " ++ (if s.triggered then "true" else "false") ++ " \x7d"

end StopSignal

end RobotControl
