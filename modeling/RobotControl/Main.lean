import RobotControl.Config.File
import RobotControl.Demo.Session

/-!
# The command line

Runs the demo robot on simulated hardware with the user's configuration until it is interrupted,
and shows the entries of the network table on the console.  This is the only module that talks to
the outside world; everything it does is decided by the library.
-/
set_option autoImplicit false

namespace RobotControl.Console

def consulted : List String :=
  ["HOME", "USERPROFILE", "PIROBOT_AUTO_ENABLE", "PIROBOT_SCHEDULER_THREADS",
    "PIROBOT_PERIODIC_RATE_MS", "PIROBOT_ACTION_PERIOD_MS", "PIROBOT_MAX_GAMEPAD_AGE_MS"]

def environment : IO Config.Environment := do
  let mut found : List (String × String) := []
  for name in consulted do
    if let some value ← IO.getEnv name then
      found := (name, value) :: found
  let all := found
  return fun name => (all.find? fun e => e.1 = name).map (·.2)

def stored (path : String) : IO Config.Stored := do
  try
    return .bytes (← IO.FS.readBinFile path)
  catch
    | .noFileOrDirectory .. => return .missing
    | _ => return .directory

def directoryOf (path : String) : String :=
  "/".intercalate ((path.splitOn "/").dropLast)

def save (path : String) (c : Config) : IO (Option String) := do
  match c.save with
  | .error f => return some f.message
  | .ok text =>
      try
        IO.FS.createDirAll (directoryOf path)
        IO.FS.writeFile path text
        return none
      catch e =>
        return some (Fault.config ("failed to write " ++ path ++ ": " ++ toString e)).message

def loadConfig (env : Config.Environment) : IO Config := do
  let path := Config.path env
  let c ←
    match Config.load path (← stored path) with
    | .ok (some c) =>
        IO.println ("  Config loaded from " ++ path)
        pure c
    | .ok none =>
        let c : Config := {}
        match ← save path c with
        | none => IO.println ("  ✓ Default config written to " ++ path)
        | some problem => IO.println ("Error saving config: " ++ problem)
        pure c
    | .error f =>
        IO.println ("Config error: " ++ f.message)
        IO.println "  Using default configuration."
        pure ({} : Config)
  return c.override env

def patience : Nat := 1000000

def tick : UInt32 := 5

def echo (d : Demo.DemoSession) : IO Demo.DemoSession := do
  for e in d.delivered do
    match e with
    | .entry key value => IO.println ("  ▸ " ++ key ++ " = " ++ value)
    | .line text => IO.println text
    | .event _ => pure ()
  for l in d.log do
    IO.println l.render
  (← IO.getStdout).flush
  return d.quiet

/-- Lets the robot catch up with the clock, again and again. -/
partial def follow (autoEnable : Bool) (last : Nat) (d : Demo.DemoSession) : IO Unit := do
  IO.sleep tick
  let now ← IO.monoNanosNow
  let d ← echo (d.wait (Demo.app autoEnable) patience (now - last))
  if d.world.stop.triggered then
    let _ ← echo (Demo.DemoSession.perform autoEnable patience d .shutdown)
  else follow autoEnable now d

def banner : List String :=
  ["", "   ___  _ ___       _         _   ", "  | _ \\(_) _ \\ ___ | |__  ___| |_ ",
    "  |  _/| |   // _ \\| '_ \\/ _ \\  _|", "  |_|  |_|_|_\\\\___/|_.__/\\___/\\__|", "",
    "  PiRobot v0.1.0", "  Robot control loop on simulated hardware", ""]

end RobotControl.Console

open RobotControl Console in
def main : IO UInt32 := do
  for l in banner do
    IO.println l
  let c ← loadConfig (← environment)
  match Demo.DemoSession.create c.profile with
  | .error f =>
      IO.println ("Invalid configuration: " ++ f.message)
      return 1
  | .ok d =>
      IO.println ("  Rate " ++ toString c.profile.periodicRateMs ++ " ms, watchdog " ++
        toString c.profile.timeoutMs ++ " ms, auto-enable " ++
        (if c.autoEnable then "on" else "off") ++ ".  Press Ctrl-C to stop.\n")
      let d ← echo (Demo.DemoSession.perform c.autoEnable patience d .start)
      follow c.autoEnable (← IO.monoNanosNow) d
      IO.println "  ✓ Robot stopped."
      return 0
