import RobotControl.Telemetry.Bus

/-!
# Sinks

Where log lines and table entries leave the robot.  A sink that knows lines only gets an entry as
the line `key=value`.  Sending is best effort: a refused delivery changes nothing for the sender.
-/
set_option autoImplicit false

namespace RobotControl

inductive Delivery where
  | line (text : String)
  | entry (key value : String)
  | event (e : Event)
  deriving DecidableEq

def Delivery.value : Delivery → Value
  | .line text => .text text
  | .entry key value => .list [.text key, .text value]
  | .event e => e.pair

inductive SinkForm where
  | nothing
  | lines
  | entries
  | events
  deriving DecidableEq, Repr

structure Sink where
  form : SinkForm
  delivered : List Delivery := []

namespace Sink

def entryLine (key value : String) : String := key ++ "=" ++ value

def delivery (form : SinkForm) (key value : String) : List Delivery :=
  match form with
  | .nothing => []
  | .lines => [.line (entryLine key value)]
  | .entries => [.entry key value]
  | .events => [.event ⟨Bus.sinkSource, .entry key value⟩]

def sendEntry (s : Sink) (key value : String) : Sink :=
  { s with delivered := s.delivered ++ delivery s.form key value }

end Sink

end RobotControl
