import RobotControl.Config.LogFormat
import RobotControl.Profile

/-!
# Configuration

What a robot program keeps between runs, where it keeps it, and how the environment overrides it.
-/
set_option autoImplicit false

namespace RobotControl

structure Config where
  autoEnable : Bool := false
  logFormat : LogFormat := .compact
  profile : Profile := {}
  deriving DecidableEq, Repr, Inhabited

namespace Config

def encode (c : Config) : Value :=
  .fields [("auto_enable", .flag c.autoEnable), ("log_format", .text c.logFormat.name),
    ("profile", c.profile.encode)]

def joinPath (base component : String) : String :=
  if base = "" then component
  else if base.endsWith "/" then base ++ component
  else base ++ "/" ++ component

def pathUnder (home : String) : String := joinPath (joinPath home ".pirobot") "config.toml"

abbrev Environment := String → Option String

/-- The file of the current user; the working directory where no home is known. -/
def path (env : Environment) : String :=
  pathUnder (((env "HOME").orElse fun _ => env "USERPROFILE").getD ".")

def parseWord (s : String) : Option UInt64 :=
  let digits :=
    match s.toList with
    | '+' :: rest => rest
    | cs => cs
  if digits.isEmpty || digits.any (fun c => !c.isDigit) then none
  else
    let n : Nat := digits.foldl (fun n c => 10 * n + (c.toNat - 48)) 0
    if n < UInt64.size then some n.toUInt64 else none

def wordVariable (env : Environment) (name : String) : Option UInt64 :=
  (env name).bind fun s => parseWord (Text.trim s)

def parseSwitch (s : String) : Option Bool :=
  let word := Text.lowerAscii (Text.trim s)
  if ["1", "true", "yes", "on"].contains word then some true
  else if ["0", "false", "no", "off"].contains word then some false
  else none

/-- The configuration with everything the environment sets; what cannot be read is ignored. -/
def override (c : Config) (env : Environment) : Config :=
  let p := c.profile
  { c with
    autoEnable := ((env "PIROBOT_AUTO_ENABLE").bind parseSwitch).getD c.autoEnable
    profile :=
      { p with
        schedulerThreads := (wordVariable env "PIROBOT_SCHEDULER_THREADS").getD p.schedulerThreads
        periodicRateMs := (wordVariable env "PIROBOT_PERIODIC_RATE_MS").getD p.periodicRateMs
        actionPeriodMs := (wordVariable env "PIROBOT_ACTION_PERIOD_MS").getD p.actionPeriodMs
        maxGamepadAgeMs :=
          (wordVariable env "PIROBOT_MAX_GAMEPAD_AGE_MS").getD p.maxGamepadAgeMs } }

def formatFrom (env : Environment) : Option LogFormat :=
  (env "PIROBOT_LOG_FORMAT").bind fun s => (LogFormat.parse s).toOption

end Config

end RobotControl
