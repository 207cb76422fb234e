import RobotControl.Robot.Session
import RobotControl.Script.Play

/-!
# The robot bench

A robot with a scripted application, driven step by step from outside.  After every step everything
that is due runs; when time has passed, the watchdog's monitor looks after that.
-/
set_option autoImplicit false

namespace RobotControl.Script

inductive Step where
  | command (c : Command)
  | add (spec : ActionSpec)
  | drop (action : String)
  | isAlive (action : String)
  | advance (time : Nat)
  | start
  | shutdown
  | discard
  | run
  | enable (enabled : Bool)
  | job (label : String) (interval : Option Nat) (cues : List Cue)
  | cancel (job : String)

abbrev Bench := Session JobScript Stage

namespace Bench

structure Setup where
  world : World JobScript
  devices : List DeviceSpec
  actions : List ActionSpec
  hooks : List (String × List Cue)

def ofSetup (s : Setup) : Bench :=
  let r := Cast.enterAll {} s.world.fleet s.devices
  let stage : Stage := { cast := r.1, hooks := s.hooks.foldl (fun m e => m.put e.1 e.2) ∅ }
  .ofWorld { s.world with fleet := r.2 } (s.actions.foldl (Stage.add []) stage)

def reply (v : Value) : Robot.Code JobScript Stage := .note (Stage.answering v) .skip

/-- Runs an operation of the robot and answers how it ended. -/
def operating (c : Robot.Code JobScript Stage) : Robot.Code JobScript Stage :=
  .attempt c fun
    | .ok () => reply .ok
    | .error (.fault f) => reply f.report
    | .error (.panic p) => .panic p

def onRobot (c : Robot.Code JobScript Stage) : Robot.Code JobScript Stage :=
  .look fun _ _ s => if s.discarded then reply .null else operating c

def addJob (label : String) (interval : Option Nat) (cues : List Cue) :
    Robot.Code JobScript Stage :=
  Robot.lift <| .look fun _ w s =>
    let id := w.schedule.nextId
    let number := s.jobCount
    .note (fun s => { s with jobs := s.jobs.put label id, jobCount := number + 1 })
      (.andThen (.schedule label ⟨number, label, cues⟩ interval)
        (seeing (fun _ w _ => .flag (!w.schedule.isCancelled id))
          fun v => .note (Stage.answering v) .skip))

def stepCode : Step → Robot.Code JobScript Stage
  | .command c => Robot.lift (c.code fun v => .note (Stage.answering v) .skip)
  | .add spec => .look fun t _ _ => .note (fun s => s.add t.refers spec) (reply .ok)
  | .drop label =>
      .look fun _ _ s =>
        .note (fun s => { s with held := s.held.erase label })
          (reply (.flag (s.held.contains label)))
  | .isAlive label =>
      .look fun t _ s => reply (.flag (s.action? t.refers label).isSome)
  | .advance time => Robot.doing (.advance time) .skip
  | .start => onRobot Robot.start
  | .shutdown => onRobot Robot.shutdown
  | .discard => onRobot (.note (fun s => { s with discarded := true }) Robot.shutdown)
  | .run => onRobot Robot.run
  | .enable enabled => onRobot (Robot.setEnabled enabled)
  | .job label interval cues => addJob label interval cues
  | .cancel label =>
      .look fun _ _ s =>
        match s.jobs.get? label with
        | some j => .andThen (.act (.cancel j)) (reply .ok)
        | none => reply .null

def guarded (c : Robot.Code JobScript Stage) : Robot.Code JobScript Stage :=
  .attempt c fun
    | .error (.panic p) => reply p.report
    | _ => .skip

def perform (patience : Nat) (b : Bench) (s : Step) : Bench :=
  let b : Bench := b.quiet
  let b : Bench := { b with own := { b.own with calls := [], reply := .null } }
  match s with
  | .advance time =>
      let b := b.wait app patience time
      { b with own := b.own.answering .ok }
  | s => b.call app patience (guarded (stepCode s))

/-! ### Answers -/

def texts (ts : List String) : Value := .list (ts.map .text)

def actionState (b : Bench) : Value :=
  .fields
    [("states", .fields (b.own.held.entries.map fun e =>
        (e.1, .text (b.table.phase e.2).name))),
      ("running", texts (b.table.running.map b.own.labelOf)),
      ("locks", .fields (b.own.claimed.filterMap fun l => do
        let d ← b.own.cast.ids.get? l
        let a ← b.table.owner d
        return (l, .text (b.own.labelOf a))))]

def devices (b : Bench) : Value := b.own.cast.states b.world.fleet

def lines (b : Bench) : Value := texts (b.log.map Line.render)

def actionAnswer (withDevices : Bool) (b : Bench) : Value :=
  .fields ([("r", b.own.reply), ("calls", texts b.own.calls), ("log", lines b),
    ("st", actionState b)] ++ if withDevices then [("dev", devices b)] else [])

def robotAnswer (b : Bench) : Value :=
  .fields [("r", b.own.reply), ("calls", texts b.own.calls), ("log", lines b),
    ("sent", .list (b.delivered.map Delivery.value)),
    ("mode", .text b.world.mode.label), ("tripped", .flag b.world.watchdog.tripped),
    ("act", actionState b), ("dev", devices b)]

def answers (patience : Nat) (view : Bench → Value) (b : Bench) : List Step → List Value
  | [] => []
  | s :: rest =>
      let b := perform patience b s
      view b :: answers patience view b rest

end Bench

end RobotControl.Script
