import RobotControl.Assoc
import RobotControl.Fault
import RobotControl.Profile
import RobotControl.Telemetry.Line
import RobotControl.Text.Quoted

/-!
# The scheduler

Jobs run once or again and again at fixed intervals.  A dispatcher pass hands every job that is due
to the workers' queue, unless its previous run is still queued or running, and moves repeating
timers past the present; a worker takes the queue in order.  Missed periods are not made up for.
There is a last instant, and a pass that has to move a timer past it is the last one.  Jobs carry
their work as data of a type `ι`, so that a schedule is a plain value.
-/
set_option autoImplicit false

namespace RobotControl

structure JobId where
  number : Nat
  deriving DecidableEq, Repr, Inhabited

structure Job (ι : Type) where
  name : String
  work : ι
  /-- From the moment a run is queued until it returns. -/
  active : Bool := false
  cancelled : Bool := false

structure Timer where
  due : Nat
  interval : Option Nat
  job : JobId
  deriving DecidableEq, Repr

structure Schedule (ι : Type) where
  jobs : Assoc JobId (Job ι) := ∅
  timers : List Timer := []
  queue : List JobId := []
  started : Bool := false
  stopped : Bool := false
  /-- The dispatcher has died in a pass. -/
  crashed : Bool := false

def minInterval : Nat := millisecond

/-- The last instant of the clock, which tells whole seconds in 63 bits, and nanoseconds. -/
def lastInstant : Nat := 9223372036854775807999999999

/-- An instant was to be told that comes after the last one. -/
def instantOverflow : Panic := .text "overflow when adding duration to instant"

namespace Timer

/-- The least due time after `now` that lies whole intervals after the old one. -/
def nextDue (due interval now : Nat) : Nat := due + interval * ((now - due) / interval + 1)

/-- A timer after a pass at an instant: one that was due moves on, or is gone if it does not
repeat. -/
def after (now : Nat) (t : Timer) : Option Timer :=
  if now < t.due then some t
  else t.interval.map fun i => { t with due := nextDue t.due i now }

/-- The timer is due, and moving it takes it past the last instant. -/
def overflows (now : Nat) (t : Timer) : Bool :=
  t.due ≤ now && t.interval.any fun i => lastInstant < nextDue t.due i now

/-- The timers up to the first one that overflows, and this one. -/
def upToOverflow (now : Nat) : List Timer → List Timer
  | [] => []
  | t :: rest => if t.overflows now then [t] else t :: upToOverflow now rest

theorem nextDue_bounds (due interval now : Nat) (hi : 0 < interval) (hd : due ≤ now) :
    now < nextDue due interval now ∧ nextDue due interval now ≤ now + interval := by
  have hsplit := Nat.div_add_mod (now - due) interval
  have hrest := Nat.mod_lt (now - due) hi
  have hmul : interval * ((now - due) / interval + 1) =
      interval * ((now - due) / interval) + interval := Nat.mul_succ _ _
  unfold nextDue
  omega

theorem after_of_lt (now : Nat) (t : Timer) (h : now < t.due) : t.after now = some t := by
  simp [after, h]

end Timer

namespace Schedule

variable {ι : Type}

def isRunning (s : Schedule ι) : Bool := s.started && !s.stopped

def isCancelled (s : Schedule ι) (j : JobId) : Bool := (s.jobs.get? j).any (·.cancelled)

def isActive (s : Schedule ι) (j : JobId) : Bool := (s.jobs.get? j).any (·.active)

def cancel (s : Schedule ι) (j : JobId) : Schedule ι :=
  { s with jobs := s.jobs.modify j fun job => { job with cancelled := true } }

def nextId (s : Schedule ι) : JobId := ⟨s.jobs.size⟩

/-- Registers a job; after a shutdown it is cancelled from the start. -/
def insert (s : Schedule ι) (name : String) (work : ι) (due : Nat) (interval : Option Nat) :
    Schedule ι :=
  if s.stopped then { s with jobs := s.jobs.put s.nextId ⟨name, work, false, true⟩ }
  else
    { s with
      jobs := s.jobs.put s.nextId ⟨name, work, false, false⟩
      timers := s.timers ++ [⟨due, interval, s.nextId⟩] }

def repeated (s : Schedule ι) (name : String) (work : ι) (now interval : Nat) : Schedule ι :=
  s.insert name work now (some (max interval minInterval))

/-- A job that runs as soon as a worker is free. -/
def soon (s : Schedule ι) (name : String) (work : ι) (now : Nat) : Schedule ι :=
  s.insert name work now none

def once (s : Schedule ι) (name : String) (work : ι) (now delay : Nat) :
    Except Panic (Schedule ι) :=
  if lastInstant < now + delay then .error instantOverflow
  else .ok (s.insert name work (now + delay) none)

def start (s : Schedule ι) : Except Fault (Schedule ι) :=
  if s.started then .error .alreadyStarted else .ok { s with started := true }

def shutdown (s : Schedule ι) : Schedule ι :=
  if s.stopped then s
  else
    let s := (s.timers.map (·.job)).foldl cancel s
    { s with stopped := true, timers := [] }

/-- What a shutdown logs when it finds that the dispatcher has died. -/
def obituary (s : Schedule ι) : List Line :=
  if s.crashed && !s.stopped then
    [⟨.error, "pirobot_kernel::scheduler", "scheduler thread panicked during shutdown", []⟩]
  else []

def kept (s : Schedule ι) : List Timer := s.timers.filter fun t => !s.isCancelled t.job

def overflows (s : Schedule ι) (now : Nat) : Bool := s.kept.any (·.overflows now)

/-- The jobs that a pass hands out.  It gets no further than the first timer that overflows, whose
job it hands out before it moves the timer. -/
def handed (s : Schedule ι) (now : Nat) : List JobId :=
  ((Timer.upToOverflow now s.kept).filter fun t => t.due ≤ now && !s.isActive t.job).map (·.job)

def mark (active : Bool) (s : Schedule ι) (j : JobId) : Schedule ι :=
  { s with jobs := s.jobs.modify j fun job => { job with active := active } }

def dispatches (s : Schedule ι) : Bool := s.isRunning && !s.crashed

/-- A pass at an instant.  All timers are gone if one of them overflows. -/
def pass (s : Schedule ι) (now : Nat) : Schedule ι :=
  if s.dispatches then
    let ready := s.handed now
    let crashes := s.overflows now
    let timers := if crashes then [] else s.kept.filterMap (Timer.after now)
    let s := ready.foldl (mark true) s
    { s with timers := timers, queue := s.queue ++ ready, crashed := crashes }
  else s

def take (s : Schedule ι) : Option (JobId × Schedule ι) :=
  match s.queue with
  | [] => none
  | j :: rest => some (j, { s with queue := rest })

def mayRun (s : Schedule ι) (j : JobId) : Bool := !s.stopped && !s.isCancelled j

def release (s : Schedule ι) (j : JobId) : Schedule ι := mark false s j

def failure (name : String) : Failure → Line
  | .fault f =>
      ⟨.error, "pirobot_kernel::scheduler", "scheduled job failed",
        [("job", .shown name), ("error", .shown f.message)]⟩
  | .panic p =>
      ⟨.error, "pirobot_kernel::scheduler", "scheduled job panicked",
        [("job", .shown name), ("panic", .shown p.message)]⟩

def describe (name : String) (cancelled : Bool) : String :=
  "JobHandle \x7b name: " ++ Text.quoted name ++ ", cancelled: " ++
    (if cancelled then "true" else "false") ++ " \x7d"

end Schedule

end RobotControl
