import RobotControl.Robot.App
import RobotControl.Script.Command

/-!
# The state of a scripted application

What a scripted application keeps for itself: who its labels stand for, how often every hook,
callback and job has been called, and what has been recorded since the last answer.
-/
set_option autoImplicit false

namespace RobotControl.Script

structure Cued where
  claims : List DeviceId
  ticks : Option Nat
  left : Option Nat
  reset : Bool
  refuses : Option String
  cues : Callback → List Cue
  begun : Nat := 0
  processed : Nat := 0
  proceeded : Nat := 0
  finished : Nat := 0

inductive Part where
  | cued (c : Cued)
  | series (s : Series)

structure Player where
  label : String
  name : String
  part : Part

inductive Watch where
  | button (t : ButtonTrigger) (gamepad : Handle)
  | looks (answers : List (Except Panic Bool))

/-- A job of a script; jobs with the same label differ in their number. -/
structure JobScript where
  number : Nat
  label : String
  cues : List Cue

structure Stage where
  cast : Cast := {}
  claimed : List String := []
  players : Assoc ActionId Player := ∅
  actions : Assoc String ActionId := ∅
  held : Assoc String ActionId := ∅
  watches : Assoc TriggerId Watch := ∅
  triggers : Assoc String TriggerId := ∅
  hooks : Assoc String (List Cue) := ∅
  hookCalls : Assoc String Nat := ∅
  jobs : Assoc String JobId := ∅
  jobCount : Nat := 0
  jobCalls : Assoc Nat Nat := ∅
  discarded : Bool := false
  calls : List String := []
  reply : Value := .null

namespace Cued

def calls (c : Cued) : Callback → Nat
  | .begin => c.begun
  | .process => c.processed
  | .proceed => c.proceeded
  | .finish _ => c.finished

def entered (c : Cued) : Callback → Cued
  | .begin => { c with begun := c.begun + 1, left := if c.reset then c.ticks else c.left }
  | .process => { c with processed := c.processed + 1, left := c.left.map (· - 1) }
  | .proceed => { c with proceeded := c.proceeded + 1 }
  | .finish _ => { c with finished := c.finished + 1 }

end Cued

def callbackRecord (label : String) : Callback → String
  | .begin => label ++ ":begin"
  | .process => label ++ ":process"
  | .proceed => label ++ ":continue?"
  | .finish false => label ++ ":finish"
  | .finish true => label ++ ":finish(interrupted)"

namespace Stage

def record (text : String) (s : Stage) : Stage := { s with calls := s.calls ++ [text] }

def answering (v : Value) (s : Stage) : Stage := { s with reply := v }

def claim (s : Stage) (labels : List String) : Stage × List DeviceId :=
  let r := s.cast.identifyAll labels
  ({ s with cast := r.1, claimed := (s.claimed ++ labels).eraseDups }, r.2)

def labelOf (s : Stage) (a : ActionId) : String := ((s.players.get? a).map (·.label)).getD ""

def nameOf (s : Stage) (a : ActionId) : String := ((s.players.get? a).map (·.name)).getD ""

def part? (s : Stage) (a : ActionId) : Option Part := (s.players.get? a).map (·.part)

def onCued (a : ActionId) (f : Cued → Cued) (s : Stage) : Stage :=
  { s with
    players := s.players.modify a fun p =>
      match p.part with
      | .cued c => { p with part := .cued (f c) }
      | .series _ => p }

def seriesOf (a : ActionId) (s : Stage) : Series :=
  match s.part? a with
  | some (.series x) => x
  | _ => { children := [] }

def setSeries (a : ActionId) (x : Series) (s : Stage) : Stage :=
  { s with players := s.players.modify a fun p => { p with part := .series x } }

def members (s : Stage) (a : ActionId) : List ActionId :=
  match s.part? a with
  | some (.series x) => x.members
  | _ => []

def closure (s : Stage) : Nat → List ActionId → List ActionId
  | 0, as => as
  | n + 1, as => s.closure n (as ++ as.flatMap s.members).eraseDups

/-- An action is there as long as the script holds it, the manager refers to it, or a series that
is there keeps it. -/
def isAlive (referred : List ActionId) (s : Stage) (a : ActionId) : Bool :=
  (s.closure s.players.size (s.held.values ++ referred)).contains a

def action? (referred : List ActionId) (s : Stage) (label : String) : Option ActionId :=
  (s.actions.get? label).filter (s.isAlive referred)

def partOf (referred : List ActionId) (s : Stage) (p : PartSpec) : Stage × Part :=
  match p with
  | .cued devices ticks reset refuses onBegin onProcess onProceed onFinish =>
      let r := s.claim devices
      (r.1, .cued
        { claims := r.2, ticks := ticks, left := ticks, reset := reset, refuses := refuses
          cues := fun
            | .begin => onBegin
            | .process => onProcess
            | .proceed => onProceed
            | .finish _ => onFinish })
  | .series children followUp =>
      (s, .series
        { children := children.filterMap (s.action? referred)
          followUp := followUp.bind (s.action? referred) })

/-- Adds an action, which the script holds; it takes the place of one with its label. -/
def add (referred : List ActionId) (s : Stage) (spec : ActionSpec) : Stage :=
  let a : ActionId := ⟨firstNumber + s.players.size⟩
  let r := s.partOf referred spec.part
  { r.1 with
    players := r.1.players.put a ⟨spec.label, spec.name, r.2⟩
    actions := r.1.actions.put spec.label a
    held := r.1.held.put spec.label a }

def wantsMore (s : Stage) (a : ActionId) : Bool :=
  match s.part? a with
  | some (.cued c) => c.left ≠ some 0
  | some (.series x) => x.wantsMore
  | none => false

def needs (s : Stage) (a : ActionId) : Stage × Except Panic (List DeviceId) :=
  match s.players.get? a with
  | some ⟨label, _, .cued c⟩ =>
      (s.record (label ++ ":devices"),
        match c.refuses with
        | some text => .error (.text text)
        | none => .ok c.claims)
  | _ => (s, .ok [])

def poll {ι : Type} (w : World ι) (s : Stage) (id : TriggerId) : Stage × Except Panic Bool :=
  match s.watches.get? id with
  | some (.button t h) =>
      let r := t.poll w.fleet.hub w.now
      ({ s with watches := s.watches.put id (.button r.1 h) }, .ok r.2)
  | some (.looks (x :: rest)) => ({ s with watches := s.watches.put id (.looks rest) }, x)
  | _ => (s, .ok false)

def watching (s : Stage) (id : TriggerId) : Option Handle :=
  match s.watches.get? id with
  | some (.button _ h) => some h
  | _ => none

end Stage

end RobotControl.Script
