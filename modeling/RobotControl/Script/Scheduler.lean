import RobotControl.Schedule.Basic
import RobotControl.Value

/-!
# Scripted schedules

A scheduler with one worker, driven by commands from outside and by the commands of its own jobs.
A job may block until it is released; the runs behind it wait.  After every command everything that
is due runs.
-/
set_option autoImplicit false

namespace RobotControl.Script

mutual

inductive JobCommand where
  | fail (text : String)
  | panic (p : Panic)
  | cancel (label : String)
  | shutdown
  | schedule (spec : JobSpec)
  | block
  /-- A command for one run only, counted from one. -/
  | inRun (run : Nat) (command : JobCommand)

inductive JobSpec where
  /-- A job repeats if it has an interval and runs once after the delay otherwise. -/
  | mk (label name : String) (interval : Option Nat) (delay : Nat) (commands : List JobCommand)

end

instance : Inhabited JobCommand := ⟨.shutdown⟩

instance : Inhabited JobSpec := ⟨.mk "" "" none 0 []⟩

namespace JobSpec

def label : JobSpec → String
  | .mk l _ _ _ _ => l

def name : JobSpec → String
  | .mk _ n _ _ _ => n

def interval : JobSpec → Option Nat
  | .mk _ _ i _ _ => i

def delay : JobSpec → Nat
  | .mk _ _ _ d _ => d

def commands : JobSpec → List JobCommand
  | .mk _ _ _ _ cs => cs

end JobSpec

inductive ScheduleCommand where
  | schedule (spec : JobSpec)
  | start
  | advance (time : Nat)
  | cancel (label : String)
  | isRunning
  | shutdown
  | handle (label : String)
  | release

structure ScheduleBench where
  now : Nat := 0
  schedule : Schedule JobSpec := {}
  labels : Assoc String JobId := ∅
  runs : Assoc JobId Nat := ∅
  /-- The run that is blocked, with the commands it has left. -/
  blocked : Option (JobId × Nat × List JobCommand) := none
  ran : List String := []
  log : List Line := []

namespace ScheduleBench

def add (b : ScheduleBench) (spec : JobSpec) : Except Panic ScheduleBench := do
  let s ←
    match spec.interval with
    | some i => .ok (b.schedule.repeated spec.name spec b.now i)
    | none => b.schedule.once spec.name spec b.now spec.delay
  return { b with schedule := s, labels := b.labels.put spec.label b.schedule.nextId }

def cancel (b : ScheduleBench) (label : String) : ScheduleBench :=
  match b.labels.get? label with
  | some j => { b with schedule := b.schedule.cancel j }
  | none => b

def shutdown (b : ScheduleBench) : ScheduleBench :=
  { b with schedule := b.schedule.shutdown, log := b.log ++ b.schedule.obituary }

def jobName (b : ScheduleBench) (j : JobId) : String :=
  ((b.schedule.jobs.get? j).map (·.name)).getD ""

def finishRun (b : ScheduleBench) (j : JobId) (failed : Option Failure) : ScheduleBench :=
  { b with
    schedule := b.schedule.release j
    log := b.log ++ (failed.map (Schedule.failure (b.jobName j))).toList }

def JobCommand.inTurn (run : Nat) : JobCommand → Option JobCommand
  | .inRun k c => if k = run then some c else none
  | c => some c

/-- One command of a run: the bench after it, or the way in which it ended the run. -/
def obey (b : ScheduleBench) (label : String) : JobCommand → ScheduleBench × Option Failure
  | .fail text => (b, some (.fault (.hardware label text)))
  | .panic p => (b, some (.panic p))
  | .cancel l => (b.cancel l, none)
  | .shutdown => (b.shutdown, none)
  | .schedule spec =>
      match b.add spec with
      | .ok b => (b, none)
      | .error p => (b, some (.panic p))
  | .block | .inRun _ _ => (b, none)

def play (b : ScheduleBench) (j : JobId) (label : String) (run : Nat) :
    List JobCommand → ScheduleBench
  | [] => b.finishRun j none
  | c :: rest =>
      match JobCommand.inTurn run c with
      | none => b.play j label run rest
      | some .block => { b with blocked := some (j, run, rest) }
      | some c =>
          match b.obey label c with
          | (b, some f) => b.finishRun j (some f)
          | (b, none) => b.play j label run rest

def beginRun (b : ScheduleBench) (j : JobId) : ScheduleBench :=
  match b.schedule.jobs.get? j with
  | none => b
  | some job =>
      let spec := job.work
      let run := b.runs.getD j 0 + 1
      { b with runs := b.runs.put j run, ran := b.ran ++ [spec.label] }.play j spec.label run
        spec.commands

def settle : Nat → ScheduleBench → ScheduleBench
  | 0, b => b
  | n + 1, b =>
      let b : ScheduleBench := { b with schedule := b.schedule.pass b.now }
      if b.blocked.isSome then b
      else
        match b.schedule.take with
        | none => b
        | some (j, s) =>
            let b : ScheduleBench := { b with schedule := s }
            settle n (if s.mayRun j then b.beginRun j else { b with schedule := s.release j })

def labelOf (b : ScheduleBench) (j : JobId) : String :=
  ((b.schedule.jobs.get? j).map (·.work.label)).getD ""

def command (b : ScheduleBench) : ScheduleCommand → ScheduleBench × Value
  | .schedule spec =>
      let id := b.schedule.nextId
      match b.add spec with
      | .ok b => (b, .flag (!b.schedule.isCancelled id))
      | .error p => (b, p.report)
  | .start =>
      match b.schedule.start with
      | .ok s => ({ b with schedule := s }, .ok)
      | .error f => (b, f.report)
  | .advance time => ({ b with now := b.now + time }, .ok)
  | .cancel label => (b.cancel label, .ok)
  | .isRunning => (b, .flag b.schedule.isRunning)
  | .shutdown => (b.shutdown, .ok)
  | .handle label =>
      match b.labels.get? label with
      | none => (b, .null)
      | some j =>
          let name := b.jobName j
          let cancelled := b.schedule.isCancelled j
          (b, .list [.text name, .flag cancelled, .text (Schedule.describe name cancelled)])
  | .release =>
      match b.blocked with
      | none => (b, .flag false)
      | some (j, run, rest) =>
          ({ b with blocked := none }.play j (b.labelOf j) run rest, .flag true)

def answers (patience : Nat) (b : ScheduleBench) :
    List ScheduleCommand → List (Value × List String × List String)
  | [] => []
  | c :: rest =>
      let r := { b with ran := [], log := [] }.command c
      let b := settle patience r.1
      (r.2, b.ran, b.log.map Line.render) :: answers patience b rest

end ScheduleBench

end RobotControl.Script
