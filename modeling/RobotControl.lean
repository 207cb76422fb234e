import RobotControl.Action.Agenda
import RobotControl.Action.Host
import RobotControl.Action.Routine
import RobotControl.Action.Series
import RobotControl.Action.Table
import RobotControl.Action.Trigger
import RobotControl.Assoc
import RobotControl.Config.Basic
import RobotControl.Config.File
import RobotControl.Config.LogFormat
import RobotControl.Control.Fit
import RobotControl.Control.Mixing
import RobotControl.Control.Pid
import RobotControl.Control.Stick
import RobotControl.Demo.App
import RobotControl.Demo.Session
import RobotControl.Device.Basic
import RobotControl.Device.Controller
import RobotControl.Device.Fleet
import RobotControl.Device.Gamepad
import RobotControl.Device.Input
import RobotControl.Device.Motor
import RobotControl.Device.Output
import RobotControl.Device.Relay
import RobotControl.Device.Watchdog
import RobotControl.Fault
import RobotControl.Identity
import RobotControl.Main
import RobotControl.Mode
import RobotControl.Number.Arith
import RobotControl.Number.Bits
import RobotControl.Number.Double
import RobotControl.Number.Fixed
import RobotControl.Number.Plain
import RobotControl.Number.Remainder
import RobotControl.Number.Shortest
import RobotControl.Profile
import RobotControl.Robot.App
import RobotControl.Robot.Run
import RobotControl.Robot.Session
import RobotControl.Robot.World
import RobotControl.Schedule.Basic
import RobotControl.Script.Bench
import RobotControl.Script.Bus
import RobotControl.Script.Command
import RobotControl.Script.Device
import RobotControl.Script.Fleet
import RobotControl.Script.NetworkTable
import RobotControl.Script.Play
import RobotControl.Script.Scheduler
import RobotControl.Script.Stage
import RobotControl.StopSignal
import RobotControl.Telemetry.Bus
import RobotControl.Telemetry.Event
import RobotControl.Telemetry.Line
import RobotControl.Telemetry.NetworkTable
import RobotControl.Telemetry.Sink
import RobotControl.Text.Blank
import RobotControl.Text.Printable
import RobotControl.Text.Quoted
import RobotControl.Toml.Document
import RobotControl.Toml.Reader
import RobotControl.Toml.Scalar
import RobotControl.Value
import RobotControl.Proofs.Action.Locks
import RobotControl.Proofs.Action.Moves
import RobotControl.Proofs.Action.Run
import RobotControl.Proofs.Action.Begin
import RobotControl.Proofs.Action.HandOver
import RobotControl.Proofs.Device.Guard
import RobotControl.Proofs.Robot.Guard
import RobotControl.Proofs.Robot.Safety
import RobotControl.Proofs.Action.Ending
import RobotControl.Proofs.Action.Finish
import RobotControl.Proofs.Device.Lasting
import RobotControl.Proofs.Device.Motor
import RobotControl.Proofs.Device.Following
import RobotControl.Proofs.Device.Timing
import RobotControl.Proofs.Number.Signed
import RobotControl.Proofs.Device.Output
import RobotControl.Proofs.Robot.Monitor
import RobotControl.Proofs.Robot.Dispatch
import RobotControl.Proofs.Action.Running
import RobotControl.Proofs.Action.Attempt
import RobotControl.Proofs.Robot.Life
import RobotControl.Proofs.Robot.ModeHooks
import RobotControl.Proofs.Device.Handles
import RobotControl.Proofs.Robot.Halted
import RobotControl.Proofs.Robot.Nesting
import RobotControl.Proofs.Robot.Lifecycle
import RobotControl.Proofs.Robot.Shutdown
import RobotControl.Proofs.Robot.Finality
import RobotControl.Proofs.Schedule.Safety
import RobotControl.Proofs.Series.Performance
import RobotControl.Proofs.Action.Start
import RobotControl.Proofs.Robot.Leftover
import RobotControl.Proofs.Robot.Mirror
import RobotControl.Proofs.Action.Triggers
import RobotControl.Proofs.Action.Tick
import RobotControl.Proofs.Action.Edges
import RobotControl.Proofs.Schedule.Beat
import RobotControl.Proofs.Device.Begun
import RobotControl.Proofs.Telemetry.Lag
import RobotControl.Proofs.Config.Validation
import RobotControl.Proofs.Telemetry.Table
import RobotControl.Proofs.Telemetry.Wire
import RobotControl.Proofs.Toml.Numbers
import RobotControl.Proofs.Toml.Lines
import RobotControl.Proofs.Toml.Pages
import RobotControl.Proofs.Config.RoundTrip
import RobotControl.Proofs.Control.Steering
import RobotControl.Proofs.Control.Feedback
import RobotControl.Proofs.Control.Deadband
import RobotControl.Proofs.Control.Elimination
import RobotControl.Proofs.Control.LeastSquares
