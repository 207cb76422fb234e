import RobotControl.Assoc
import RobotControl.Identity

/-!
# The action table

What is known about every action: its phase, the devices it claimed at its last start, whether it
is inside one of its callbacks and which callbacks it owes for afterwards; the running actions in
the order of their start; the owner of every locked device; the actions that operations under way
work on; and the bindings of triggers to actions.  All changes of these stores are made by the
functions of this module.
-/
set_option autoImplicit false

namespace RobotControl

/-- Where an action is in its life.  A finished action stays finished until it is started again. -/
inductive Phase where
  | idle
  | running
  | finished
  deriving DecidableEq, Repr, Inhabited

namespace Phase

def name : Phase → String
  | .idle => "Idle"
  | .running => "Running"
  | .finished => "Finished"

end Phase

inductive Deferred where
  | begin
  | process
  | finish (interrupted : Bool)
  /-- Every deferred hand-over of one ticket done, `next` begins. -/
  | handOver (next : ActionId) (ticket : Nat)
  deriving DecidableEq, Repr

def Deferred.refers : Deferred → List ActionId
  | .handOver next _ => [next]
  | _ => []

structure Entry where
  phase : Phase := .idle
  claims : List DeviceId := []
  busy : Bool := false
  owed : List Deferred := []
  deriving Repr, Inhabited

structure TriggerId where
  number : Nat
  deriving DecidableEq, Repr, Inhabited

structure Binding where
  trigger : TriggerId
  target : ActionId
  restart : Bool
  deriving DecidableEq, Repr

structure ActionTable where
  entries : Assoc ActionId Entry := ∅
  running : List ActionId := []
  locks : Assoc DeviceId ActionId := ∅
  /-- The actions that operations under way work on, once for each operation. -/
  inUse : List ActionId := []
  bindings : List Binding := []
  nextTrigger : TriggerId := ⟨firstNumber⟩
  nextTicket : Nat := 0

namespace ActionTable

/-! ### Views -/

def entry (t : ActionTable) (a : ActionId) : Entry := t.entries.getD a {}

def phase (t : ActionTable) (a : ActionId) : Phase := (t.entry a).phase

def isRunning (t : ActionTable) (a : ActionId) : Bool := t.phase a = .running

def isFinished (t : ActionTable) (a : ActionId) : Bool := t.phase a = .finished

def isBusy (t : ActionTable) (a : ActionId) : Bool := (t.entry a).busy

def claims (t : ActionTable) (a : ActionId) : List DeviceId := (t.entry a).claims

def owed (t : ActionTable) (a : ActionId) : List Deferred := (t.entry a).owed

def owner (t : ActionTable) (d : DeviceId) : Option ActionId := t.locks.get? d

/-- The actions that the table refers to: those that run, those that operations work on, and those
that are to begin after another one. -/
def refers (t : ActionTable) : List ActionId :=
  t.running ++ t.inUse ++ t.entries.values.flatMap fun e => e.owed.flatMap Deferred.refers

/-! ### Changes -/

def update (t : ActionTable) (a : ActionId) (f : Entry → Entry) : ActionTable :=
  { t with entries := t.entries.put a (f (t.entry a)) }

theorem entry_update (t : ActionTable) (a b : ActionId) (f : Entry → Entry) :
    (t.update a f).entry b = if a = b then f (t.entry a) else t.entry b := by
  unfold update entry Assoc.getD
  by_cases h : a = b <;> simp [Assoc.get?_put, h]

/-- Ends the run of an action: it is finished, off the list and without locks. -/
def retire (t : ActionTable) (a : ActionId) : ActionTable :=
  let t := t.update a fun e => { e with phase := .finished }
  { t with
    locks := t.locks.filter fun _ o => o ≠ a
    running := t.running.filter fun b => b ≠ a }

theorem phase_retire (t : ActionTable) (a b : ActionId) :
    (t.retire a).phase b = if a = b then .finished else t.phase b := by
  have h := entry_update t a b fun e => { e with phase := .finished }
  by_cases hab : a = b
  · rw [if_pos hab] at h ⊢
    exact congrArg Entry.phase h
  · rw [if_neg hab] at h ⊢
    exact congrArg Entry.phase h

theorem running_retire (t : ActionTable) (a : ActionId) :
    (t.retire a).running = t.running.filter fun b => b ≠ a := rfl

theorem owner_retire (t : ActionTable) (a : ActionId) (d : DeviceId) :
    (t.retire a).owner d = (t.owner d).filter fun o => o ≠ a :=
  Assoc.get?_filter t.locks (fun _ o => o ≠ a) d

/-- The other running actions that own one of the devices, each once, in the order of the
devices. -/
def holders (t : ActionTable) (a : ActionId) (ds : List DeviceId) : List ActionId :=
  ((ds.filterMap t.owner).filter fun o => o ≠ a && t.running.contains o).eraseDups

def lock (t : ActionTable) (a : ActionId) (ds : List DeviceId) : ActionTable :=
  { t with locks := ds.foldl (fun m d => m.put d a) t.locks }

theorem owner_lock (t : ActionTable) (a : ActionId) (ds : List DeviceId) (d : DeviceId) :
    (t.lock a ds).owner d = if d ∈ ds then some a else t.owner d := by
  unfold lock owner
  induction ds generalizing t with
  | nil => simp
  | cons e rest ih =>
      have h := ih { t with locks := t.locks.put e a }
      simp only [List.foldl_cons, List.mem_cons, Assoc.get?_put] at h ⊢
      rw [h]
      by_cases hr : d ∈ rest
      · simp [hr]
      · by_cases he : e = d
        · simp [he]
        · simp [hr, he, Ne.symm he]

/-- Starts the run of an action in one change: the holders of its devices end theirs, the devices
become its own, and it goes to the end of the list. -/
def seize (t : ActionTable) (a : ActionId) (ds : List DeviceId) : ActionTable :=
  let t := (t.holders a ds).foldl retire t
  let t := (t.update a fun e => { e with phase := .running }).lock a ds
  { t with running := t.running ++ [a] }

def setClaims (t : ActionTable) (a : ActionId) (ds : List DeviceId) : ActionTable :=
  t.update a fun e => { e with claims := ds }

def enter (t : ActionTable) (a : ActionId) : ActionTable :=
  t.update a fun e => { e with busy := true }

def leave (t : ActionTable) (a : ActionId) : ActionTable :=
  t.update a fun e => { e with busy := false }

def defer (t : ActionTable) (a : ActionId) (d : Deferred) : ActionTable :=
  t.update a fun e => { e with owed := e.owed ++ [d] }

def setOwed (t : ActionTable) (a : ActionId) (ds : List Deferred) : ActionTable :=
  t.update a fun e => { e with owed := ds }

/-- Leaves a hand-over to `next` with each of the actions, all under one new ticket. -/
def deferHandOver (t : ActionTable) (next : ActionId) (late : List ActionId) : ActionTable :=
  let ticket := t.nextTicket
  let t := late.foldl (fun t a => t.defer a (.handOver next ticket)) t
  { t with nextTicket := ticket + 1 }

def awaits (t : ActionTable) (ticket : Nat) : Bool :=
  t.entries.values.any fun e => e.owed.any fun
    | .handOver _ k => k = ticket
    | _ => false

def runningBackwards (t : ActionTable) : List ActionId := t.running.reverse.eraseDups

def hold (t : ActionTable) (as : List ActionId) : ActionTable := { t with inUse := as ++ t.inUse }

def letGo (t : ActionTable) (as : List ActionId) : ActionTable :=
  { t with inUse := as.foldl List.erase t.inUse }

def retireAll (t : ActionTable) : ActionTable := t.runningBackwards.foldl retire t

/-! ### Bindings -/

def bind (t : ActionTable) (target : ActionId) (restart : Bool) : ActionTable :=
  { t with
    bindings := t.bindings ++ [⟨t.nextTrigger, target, restart⟩]
    nextTrigger := ⟨t.nextTrigger.number + 1⟩ }

def unbind (t : ActionTable) (id : TriggerId) : ActionTable :=
  { t with bindings := t.bindings.filter fun b => b.trigger ≠ id }

def isBound (t : ActionTable) (id : TriggerId) : Bool := t.bindings.any fun b => b.trigger = id

end ActionTable

end RobotControl
