import RobotControl.Action.Agenda
import RobotControl.Robot.App

/-!
# Running a robot

The effects of an application, and what the robot does on its own account, are carried out here.
Some of them run application code in their turn: a change of mode calls a hook, and settling runs
the jobs that are due.  The code of hooks and jobs runs under a guard; its failures are logged.
-/
set_option autoImplicit false

namespace RobotControl

/-- What a robot does on its own account. -/
inductive Duty where
  | call (h : Hook)
  | hookFailed (h : Hook) (f : Failure)
  | switchTo (m : Mode)
  | applyMode
  | powerUp
  | scheduleLoops
  | retireUnstarted
  | halt
  | wrapUp
  | noteStopRequest
  | advance (time : Nat)
  | look
  | settle
  | jobEnded (j : JobId) (failed : Option Failure)

inductive Effect (ι : Type) where
  | act (a : Act ι)
  | duty (d : Duty)

namespace Robot

variable {ι σ : Type}

abbrev Code (ι σ : Type) := Routine (Effect ι) (World ι) σ

def doing (d : Duty) (next : Code ι σ) : Code ι σ := .andThen (.duty d) next

def lift (r : Routine (Act ι) (World ι) σ) : Code ι σ := r.map .act

/-- Switches the mode of a started robot and calls the hook of the new mode. -/
def setEnabled (enabled : Bool) : Code ι σ :=
  .look fun _ w _ =>
    if w.lifecycle ≠ .started then .fail .notStarted
    else if w.mode = .ofBool enabled then .skip
    else
      doing (.switchTo (.ofBool enabled))
        (doing (.call (.ofMode (.ofBool enabled))) .skip)

/-- One run of the mode dispatcher: the hook of the mode, then the devices. -/
def dispatchMode : Code ι σ :=
  .look fun _ w _ => doing (.call (.periodicIn w.mode)) (doing .applyMode .skip)

def start : Code ι σ :=
  .look fun _ w _ =>
    if w.lifecycle ≠ .created then .fail .alreadyStarted
    else
      doing .powerUp <| doing (.call .robotStarted) <| doing (.call .robotDisabled) <|
        doing .scheduleLoops .skip

def shutdown : Code ι σ :=
  .look fun _ w _ =>
    match w.lifecycle with
    | .stopped => .skip
    | .created => doing .retireUnstarted .skip
    | .started => doing .halt (.ask .stopAll fun _ => doing .wrapUp .skip)

/-- Starts a robot and, a stop having been requested, stops it again. -/
def run : Code ι σ :=
  .attempt start fun
    | .ok () => doing .noteStopRequest shutdown
    | .error (.fault f) => .fail f
    | .error (.panic p) => .panic p

def jobCode (app : App ι σ) : Work ι → Code ι σ
  | .modeDispatch => dispatchMode
  | .periodic => doing (.call .periodic) .skip
  | .actionTick => .ask .tick fun _ => .skip
  | .triggerTick => .ask .poll fun _ => .skip
  | .user j => lift (app.job j)

def failureOf : Except Failure Unit → Option Failure
  | .ok () => none
  | .error f => some f

def hookFailure (h : Hook) (f : Failure) : Line :=
  ⟨.error, "pirobot_runtime::context", (Fault.hook h.name f.details).message,
    [("hook", .quoted h.name)]⟩

def jobName (s : Schedule (Work ι)) (j : JobId) : String :=
  ((s.jobs.get? j).map (·.name)).getD ""

/-- Hands over what is due and runs the first entry of the queue; the others follow. -/
def settle (app : App ι σ) (w : World ι) : World ι × Code ι σ :=
  let s := w.schedule.pass w.now
  match s.take with
  | none => ({ w with schedule := s }, .skip)
  | some (j, s) =>
      match s.jobs.get? j with
      | some job =>
          if s.mayRun j then
            ({ w with schedule := s },
              .attempt (jobCode app job.work) fun o =>
                doing (.jobEnded j (failureOf o)) (doing .settle .skip))
          else ({ w with schedule := s.release j }, doing .settle .skip)
      | none => ({ w with schedule := s }, doing .settle .skip)

def jobEnded (w : World ι) (j : JobId) (failed : Option Failure) : World ι :=
  let w' : World ι := { w with schedule := w.schedule.release j }
  match failed with
  | none => w'
  | some f => w'.log (Schedule.failure (jobName w.schedule j) f)

/-- What the robot does on its own account: the world after it and the code that it runs. -/
def attend (app : App ι σ) (w : World ι) : Duty → World ι × Code ι σ
  | .call h =>
      (w, .attempt (lift (app.hook h)) fun
        | .ok () => .skip
        | .error f => doing (.hookFailed h f) .skip)
  | .hookFailed h f => (w.log (hookFailure h f), .skip)
  | .switchTo m => (w.switchTo m, .skip)
  | .applyMode => (w.applyMode, .skip)
  | .powerUp => (w.powerUp, .skip)
  | .scheduleLoops => (w.scheduleLoops, .skip)
  | .retireUnstarted => (w.retireUnstarted, .skip)
  | .halt => (w.halt, .skip)
  | .wrapUp => (w.wrapUp, .skip)
  | .noteStopRequest => (w.noteStopRequest, .skip)
  | .advance time => (w.advance time, .skip)
  | .look => (w.look, .skip)
  | .settle => settle app w
  | .jobEnded j failed => (jobEnded w j failed, .skip)

def carryOut (w : World ι) : Act ι → World ι × Code ι σ
  | .device i =>
      let r := w.fleet.accept i
      ({ w with fleet := r.1 }, .done r.2)
  | .register h => ({ w with fleet := w.fleet.register h }, .skip)
  | .gamepad controller id =>
      let g : Gamepad := { controller := controller, maxAge := w.profile.maxGamepadAge }
      let r := w.fleet.add id (.gamepad g)
      ({ w with fleet := r.1.register r.2 }, .skip)
  | .watch h => ({ w with fleet := w.fleet.watch h }, .skip)
  | .setEnabled enabled => (w, setEnabled enabled)
  | .feed => (w.feed, .skip)
  | .requestStop => ({ w with stop := w.stop.trigger }, .skip)
  | .setEntry key value => ({ w with table := w.table.set key value }, .skip)
  | .remoteEntry key value => ({ w with table := w.table.setFromRemote key value }, .skip)
  | .makeMain monitor => ({ w with battery := { main := some monitor } }, .skip)
  | .volts monitor volts => ({ w with table := (w.battery.report w.table monitor volts).1 }, .skip)
  | .schedule name job interval => (w.enlist name (.user job) interval, .skip)
  | .cancel job => ({ w with schedule := w.schedule.cancel job }, .skip)

def perform (app : App ι σ) (w : World ι) : Effect ι → World ι × Code ι σ
  | .act a => carryOut w a
  | .duty d => attend app w d

def forget (app : App ι σ) (own : σ) (id : TriggerId) (w : World ι) : World ι :=
  match app.watching own id with
  | some h => { w with fleet := w.fleet.unwatch h }
  | none => w

def host (app : App ι σ) : Host (Effect ι) (World ι) σ where
  name := app.actionName
  needs := app.needs
  routine a cb := lift (app.callback a cb)
  wantsMore := app.wantsMore
  poll := app.poll
  isAlive := app.isAlive
  forget := forget app
  perform e _ w := perform app w e
  log l w := w.log l

end Robot

end RobotControl
