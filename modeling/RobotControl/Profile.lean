import RobotControl.Fault

/-!
# Robot profiles

The settings a robot is built from, fixed once it exists, and the durations derived from them.
Durations are natural numbers of nanoseconds.
-/
set_option autoImplicit false

namespace RobotControl

def millisecond : Nat := 1000000

structure Profile where
  schedulerThreads : UInt64 := 10
  periodicRateMs : UInt64 := 50
  /-- Age in milliseconds after which gamepad data does not count any more. -/
  maxGamepadAgeMs : UInt64 := 100
  actionPeriodMs : UInt64 := 50
  watchdogTimeoutMs : Option UInt64 := none
  deriving DecidableEq, Repr, Inhabited

namespace Profile

def timeoutFactor : UInt64 := 3

def maxPeriodMs : UInt64 := 3600000

def pollsPerPeriod : Nat := 10

private def invalid {α : Type} (field reason : String) : Except Fault α :=
  .error (.invalidProfile field reason)

def checkPeriod (field : String) (ms : UInt64) : Except Fault Unit :=
  if ms = 0 then invalid field "must be at least 1 ms"
  else if maxPeriodMs < ms then invalid field ("must not exceed " ++ toString maxPeriodMs ++ " ms")
  else .ok ()

/-- All that is checked before the timeout. -/
def checkSettings (p : Profile) : Except Fault Unit := do
  if p.schedulerThreads = 0 then invalid "main_scheduler_threads" "must be at least 1"
  checkPeriod "periodic_function_rate_ms" p.periodicRateMs
  checkPeriod "max_gamepad_data_age_ms" p.maxGamepadAgeMs
  checkPeriod "action_function_period_ms" p.actionPeriodMs

def checkGiven (p : Profile) (timeout : UInt64) : Except Fault Unit := do
  checkPeriod "watchdog_timeout_ms" timeout
  if timeout ≤ p.periodicRateMs then
    invalid "watchdog_timeout_ms"
      (toString timeout ++ " ms must be larger than the periodic rate (" ++
        toString p.periodicRateMs ++ " ms)")
  else .ok ()

def checkDerived (timeout : UInt64) : Except Fault Unit :=
  if maxPeriodMs < timeout then
    invalid "periodic_function_rate_ms"
      ("derived watchdog timeout must not exceed " ++ toString maxPeriodMs ++ " ms")
  else .ok ()

/-- All checks in their order.  How machine words are multiplied is up to the build: a product that
is no machine word wraps around, or it ends the program. -/
def validateWith {m : Type → Type} [Monad m] (times : UInt64 → UInt64 → m UInt64) (p : Profile) :
    m (Except Fault Unit) :=
  match p.checkSettings with
  | .error fault => pure (.error fault)
  | .ok () =>
      match p.watchdogTimeoutMs with
      | some timeout => pure (p.checkGiven timeout)
      | none => checkDerived <$> times p.periodicRateMs timeoutFactor

def validate (p : Profile) : Except Fault Unit :=
  Id.run (p.validateWith fun a b => pure (a * b))

/-- The product of two machine words, if it is one itself. -/
def product? (a b : UInt64) : Option UInt64 :=
  if a.toNat * b.toNat < UInt64.size then some (a * b) else none

/-- Validation that is given up where it comes to a product that is no machine word. -/
def validate? (p : Profile) : Option (Except Fault Unit) := p.validateWith product?

def periodicRate (p : Profile) : Nat := p.periodicRateMs.toNat * millisecond

def actionPeriod (p : Profile) : Nat := p.actionPeriodMs.toNat * millisecond

def maxGamepadAge (p : Profile) : Nat := p.maxGamepadAgeMs.toNat * millisecond

/-- Milliseconds without a feed after which the watchdog trips; the derived value stays within
64 bits. -/
def timeoutMs (p : Profile) : Nat :=
  match p.watchdogTimeoutMs with
  | some ms => ms.toNat
  | none => min (p.periodicRateMs.toNat * timeoutFactor.toNat) (UInt64.size - 1)

def watchdogTimeout (p : Profile) : Nat := p.timeoutMs * millisecond

/-- Time between two looks of the watchdog monitor, at least one millisecond. -/
def pollInterval (p : Profile) : Nat := max (p.periodicRate / pollsPerPeriod) millisecond

def encode (p : Profile) : Value :=
  .fields ([("main_scheduler_threads", .count p.schedulerThreads.toNat),
    ("periodic_function_rate_ms", .count p.periodicRateMs.toNat),
    ("max_gamepad_data_age_ms", .count p.maxGamepadAgeMs.toNat),
    ("action_function_period_ms", .count p.actionPeriodMs.toNat)] ++
    match p.watchdogTimeoutMs with
    | some ms => [("watchdog_timeout_ms", .count ms.toNat)]
    | none => [])

end Profile

end RobotControl
