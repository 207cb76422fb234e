import RobotControl.Robot.Run
import RobotControl.Script.Stage

/-!
# Playing a script

The routines of a scripted application.  Every command becomes a routine that ends with the answer
to the command; a list of cues is played one by one, and the answers are recorded.
-/
set_option autoImplicit false

namespace RobotControl.Script

abbrev Code := Routine (Act JobScript) (World JobScript) Stage

def seeing (f : ActionTable → World JobScript → Stage → Value) (next : Value → Code) : Code :=
  .look fun t w s => next (f t w s)

def withAction (label : String) (next : Value → Code) (f : ActionId → Code) : Code :=
  .look fun t _ s =>
    match s.action? t.refers label with
    | some a => f a
    | none => next .null

def actionFacts (t : ActionTable) (s : Stage) (a : ActionId) : Value :=
  .list [.text (s.nameOf a), .flag (t.isRunning a), .flag (t.isFinished a),
    .flag (t.phase a ≠ .idle), .flag true, .count (t.claims a).length]

def ownerOf (t : ActionTable) (s : Stage) (label : String) : Value :=
  .ofOption (fun a => .text (s.labelOf a)) ((s.cast.ids.get? label).bind t.owner)

def watchOf (w : World JobScript) (s : Stage) : TriggerSpec → Watch
  | .button label n edge =>
      match s.cast.handle? w.fleet label, s.cast.gamepad? w.fleet label with
      | some h, some g => .button { gamepad := g, button := n, edge := edge } h
      | _, _ => .looks []
  | .looks answers => .looks answers

namespace Command

def ofDevice (c : DeviceCommand) (next : Value → Code) : Code :=
  .look fun _ w s =>
    match c.input? s.cast w.fleet with
    | some i => .act (.device i) fun o => next (c.answer s.cast w.fleet o)
    | none => next (c.answer s.cast w.fleet (.ok ()))

def ofTable (c : TableCommand) (next : Value → Code) : Code :=
  .look fun _ w _ =>
    let answer := c.answer w.table
    match c with
    | .set key value => .andThen (.setEntry key value) (next answer)
    | .remote key value => .andThen (.remoteEntry key value) (next answer)
    | _ => next answer

def withIdentity (label : String) (f : DeviceId → Code) : Code :=
  .look fun _ _ s =>
    let r := s.cast.identify label
    .note (fun s => { s with cast := r.1 }) (f r.2)

def code (c : Command) (next : Value → Code) : Code :=
  match c with
  | .start label restart =>
      withAction label next fun a => .ask (.start a restart) fun b => next (.flag b)
  | .stop label => withAction label next fun a => .ask (.stop a) fun b => next (.flag b)
  | .stopAll => .ask .stopAll fun _ => next .ok
  | .tick => .ask .tick fun _ => next .ok
  | .check => .ask .poll fun _ => next .ok
  | .running => seeing (fun t _ s => .list (t.running.map fun a => .text (s.labelOf a))) next
  | .owner label =>
      .note (fun s => (s.claim [label]).1) (seeing (fun t _ s => ownerOf t s label) next)
  | .describeAction label =>
      withAction label next fun a => seeing (fun t _ s => actionFacts t s a) next
  | .bind trigger label restart spec =>
      withAction label next fun a =>
        .look fun t w s =>
          let id := t.nextTrigger
          let watch := watchOf w s spec
          let binding : Code :=
            .ask (.bind a restart) fun _ => seeing (fun t _ _ => .count t.bindings.length) next
          .note (fun s =>
              { s with
                watches := s.watches.put id watch, triggers := s.triggers.put trigger id })
            (match watch with
              | .button _ h => .andThen (.watch h) binding
              | .looks _ => binding)
  | .unbind trigger =>
      .look fun _ _ s =>
        match s.triggers.get? trigger with
        | some id => .ask (.unbind id) fun b => next (.flag b)
        | none => next .null
  | .triggerCount => seeing (fun t _ _ => .count t.bindings.length) next
  | .device c => ofDevice c next
  | .setEnabled enabled => .act (.setEnabled enabled) fun o => next (DeviceCommand.ofOutcome o)
  | .mode => seeing (fun _ w _ => .list [.text w.mode.label, .flag w.mode.isEnabled]) next
  | .feed => .andThen .feed (next .ok)
  | .tripped => seeing (fun _ w _ => .flag w.watchdog.tripped) next
  | .requestStop => .andThen .requestStop (next .ok)
  | .stopRequested => seeing (fun _ w _ => .flag w.stop.triggered) next
  | .register label =>
      .look fun _ w s =>
        match s.cast.handle? w.fleet label with
        | some h => .andThen (.register h) (next .ok)
        | none => next .null
  | .gamepad label controller =>
      .look fun _ w s =>
        let r := s.cast.assign label ⟨w.fleet.slots.size⟩
        .note (fun s => { s with cast := r.1 }) <| .andThen (.gamepad controller r.2) <|
          match s.cast.handle? w.fleet label with
          | some h => .andThen (.device (.drop h)) (next .ok)
          | none => next .ok
  | .table c => ofTable c next
  | .makeMain label => withIdentity label fun d => .andThen (.makeMain d) (next .ok)
  | .isMain label =>
      withIdentity label fun d => seeing (fun _ w _ => .flag (w.battery.isMain d)) next
  | .volts label x =>
      withIdentity label fun d =>
        .look fun _ w _ => .andThen (.volts d x) (next (.flag (w.battery.isMain d)))
  | .describeRobot => seeing (fun _ w _ => .text w.describe) next
  | .profile => seeing (fun _ w _ => w.profile.encode) next
  | .fail _ | .panic _ | .claim _ | .say _ => next .null

end Command

/-- Who plays: the name under which answers are recorded, the fault that a failing cue stands for,
and what claiming devices changes. -/
structure Voice where
  label : String
  fault : String → Fault
  claims : List DeviceId → Stage → Stage := fun _ s => s

def play (v : Voice) (turn : Nat) : List Cue → Code
  | [] => .skip
  | cue :: rest =>
      if cue.turn.any (· ≠ turn) then play v turn rest
      else
        match cue.command with
        | .fail text => .fail (v.fault text)
        | .panic p => .panic p
        | .claim labels =>
            .look fun _ _ s =>
              let ids := (s.claim labels).2
              .note (fun s => v.claims ids (s.claim labels).1) (play v turn rest)
        | .say text => .note (Stage.record (v.label ++ "> " ++ text)) (play v turn rest)
        | c => c.code fun answer =>
            .note (Stage.record (v.label ++ "> " ++ cue.word ++ " = " ++ answer.render))
              (play v turn rest)

def hookCode (h : Hook) : Code :=
  .look fun _ _ s =>
    match s.hooks.get? h.name with
    | none => .skip
    | some cues =>
        let turn := s.hookCalls.getD h.name 0 + 1
        .note (fun s => { s with hookCalls := s.hookCalls.put h.name turn }.record h.name)
          (play { label := h.name, fault := .config } turn cues)

def jobCode (j : JobScript) : Code :=
  .look fun _ _ s =>
    let turn := s.jobCalls.getD j.number 0 + 1
    .note (fun s => { s with jobCalls := s.jobCalls.put j.number turn }.record j.label)
      (play { label := j.label, fault := .config } turn j.cues)

/-- The same code, which a fault ends early but not badly. -/
def pardoning (c : Code) : Code :=
  .attempt c fun
    | .error (.panic p) => .panic p
    | _ => .skip

/-- Plays a callback; whether an action goes on does not depend on a failing cue. -/
def cuedCode (a : ActionId) (cb : Callback) (p : Player) (c : Cued) : Code :=
  let c := c.entered cb
  let voice : Voice :=
    { label := p.label
      fault := .action p.name
      claims := fun ids => Stage.onCued a fun c => { c with claims := ids } }
  let played := play voice (c.calls cb) (c.cues cb)
  .note (fun s => (s.onCued a fun _ => c).record (callbackRecord p.label cb))
    (if cb = .proceed then pardoning played else played)

def callbackCode (a : ActionId) (cb : Callback) : Code :=
  .look fun _ _ s =>
    match s.players.get? a with
    | none => .skip
    | some p =>
        match p.part with
        | .cued c => cuedCode a cb p c
        | .series _ => Series.routine (Stage.seriesOf a) (Stage.setSeries a) cb

def app : App JobScript Stage where
  hook := hookCode
  job := jobCode
  callback := callbackCode
  actionName := Stage.nameOf
  needs := Stage.needs
  wantsMore := Stage.wantsMore
  poll := Stage.poll
  isAlive := Stage.isAlive
  watching := Stage.watching

end RobotControl.Script
