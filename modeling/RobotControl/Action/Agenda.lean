import RobotControl.Action.Host

/-!
# The action manager

The manager works off an agenda, the task in front first.  A task leaves other tasks in front of
the rest: starting an action leaves the `finish` of those it interrupted and its own `begin`, a
callback leaves what the application asks for in it.  A callback for an action that is inside
another of its callbacks is deferred until that one returns.  A failure drops the tasks down to
the callback, or to the attempt, in which it happened.  An operation keeps the actions that it
works on in use until it is done, so that they can be named meanwhile.
-/
set_option autoImplicit false

namespace RobotControl

inductive Task (ε Ω σ : Type) where
  | run (r : Routine ε Ω σ)
  | bound (next : Except Fault Unit → Routine ε Ω σ)
  | caught (next : Except Failure Unit → Routine ε Ω σ)
  /-- The action's callback is above; what follows its end. -/
  | returned (a : ActionId) (cb : Callback)
  | start (a : ActionId) (restart : Bool)
  | launch (a : ActionId)
  /-- Lets an action begin, at once or after the actions that have yet to finish. -/
  | succeed (a : ActionId) (late : List ActionId)
  | invoke (a : ActionId) (d : Deferred)
  | serve (a : ActionId) (d : Deferred)
  /-- The action's work is done; what it owes comes next. -/
  | drain (a : ActionId)
  | turn (a : ActionId)
  | letGo (as : List ActionId)

/-- The manager at work: its table, the world, what the application keeps, and what is left to
do.  `unhandled` holds a panic that nothing above caught. -/
structure Machine (ε Ω σ : Type) where
  table : ActionTable
  world : Ω
  own : σ
  agenda : List (Task ε Ω σ) := []
  unhandled : Option Failure := none

namespace Machine

variable {ε Ω σ : Type}

def todo (m : Machine ε Ω σ) (tasks : List (Task ε Ω σ)) : Machine ε Ω σ :=
  { m with agenda := tasks }

def holding (m : Machine ε Ω σ) (as : List ActionId) : Machine ε Ω σ :=
  { m with table := m.table.hold as }

def workingOn (m : Machine ε Ω σ) (as : List ActionId) (tasks rest : List (Task ε Ω σ)) :
    Machine ε Ω σ :=
  (m.holding as).todo (tasks ++ .letGo as :: rest)

def interrupting (m : Machine ε Ω σ) (a : ActionId) (rest : List (Task ε Ω σ)) :
    Machine ε Ω σ :=
  { m with table := m.table.retire a, agenda := .invoke a (.finish true) :: rest }

def returnWell (h : Host ε Ω σ) (m : Machine ε Ω σ) (a : ActionId) (rest : List (Task ε Ω σ)) :
    Callback → Machine ε Ω σ
  | .begin | .finish _ => m.todo rest
  | .process =>
      if m.table.isRunning a then
        m.todo (.run (h.routine a .proceed) :: .returned a .proceed :: rest)
      else m.todo rest
  | .proceed =>
      if m.table.isRunning a && !h.wantsMore m.own a then
        { m with table := m.table.retire a, agenda := .serve a (.finish false) :: rest }
      else m.todo rest

/-- After a callback that failed: a running action ends as interrupted. -/
def returnFailed (h : Host ε Ω σ) (m : Machine ε Ω σ) (a : ActionId) (rest : List (Task ε Ω σ))
    (f : Failure) (cb : Callback) : Machine ε Ω σ :=
  let m : Machine ε Ω σ := { m with world := h.log (cb.failure (h.name m.own a) f) m.world }
  match cb with
  | .finish _ => m.todo rest
  | _ =>
      if m.table.isRunning a then
        { m with table := m.table.retire a, agenda := .serve a (.finish true) :: rest }
      else m.todo rest

/-- Hands a failure to the callback or attempt in which it happened. -/
def unwind (h : Host ε Ω σ) (m : Machine ε Ω σ) (f : Failure) :
    List (Task ε Ω σ) → Machine ε Ω σ
  | [] => { m with agenda := [], unhandled := some f }
  | .caught next :: rest => m.todo (.run (next (.error f)) :: rest)
  | .returned a cb :: rest => m.returnFailed h a rest f cb
  | .letGo as :: rest => unwind h { m with table := m.table.letGo as } f rest
  | _ :: rest => m.unwind h f rest

def finishRoutine (h : Host ε Ω σ) (m : Machine ε Ω σ) (o : Except Fault Unit) :
    List (Task ε Ω σ) → Machine ε Ω σ
  | .bound next :: rest => m.todo (.run (next o) :: rest)
  | .caught next :: rest => m.todo (.run (next (o.mapError Failure.fault)) :: rest)
  | .returned a cb :: rest =>
      match o with
      | .ok () => m.returnWell h a rest cb
      | .error f => m.returnFailed h a rest (.fault f) cb
  | rest => m.todo rest

/-- Polls a binding and adds it to those that fired.  It is passed over if its target has gone in
the meantime; those that fired keep theirs. -/
def pollOne (h : Host ε Ω σ) (m : Machine ε Ω σ) (fired : List Binding) (b : Binding) :
    Machine ε Ω σ × List Binding :=
  if h.isAlive (fired.map (·.target) ++ m.table.refers) m.own b.target then
    let r := h.poll m.world m.own b.trigger
    let m : Machine ε Ω σ := { m with own := r.1 }
    match r.2 with
    | .ok fires => (m, if fires then fired ++ [b] else fired)
    | .error p =>
        let line := triggerFailure (h.name m.own b.target) p
        ({ m with world := h.log line m.world }, fired)
  else (m, fired)

def pollAll (h : Host ε Ω σ) (m : Machine ε Ω σ) (fired : List Binding) :
    List Binding → Machine ε Ω σ × List Binding
  | [] => (m, fired)
  | b :: rest =>
      let r := m.pollOne h fired b
      r.1.pollAll h r.2 rest

/-- One look at all triggers: bindings whose target is gone are dropped, the others are polled,
and then the targets of those that fired are started. -/
def pollTriggers (h : Host ε Ω σ) (m : Machine ε Ω σ) (rest : List (Task ε Ω σ)) :
    Machine ε Ω σ :=
  let alive := h.isAlive m.table.refers m.own
  let (bindings, gone) := m.table.bindings.partition fun b => alive b.target
  let world := gone.foldl (fun w b => h.forget m.own b.trigger w) m.world
  let m : Machine ε Ω σ :=
    { m with table := { m.table with bindings := bindings }, world := world }
  let r := m.pollAll h [] bindings
  let starts := r.2.flatMap fun b => [.start b.target b.restart, .letGo [b.target]]
  (r.1.holding (r.2.map (·.target))).todo (starts ++ rest)

def grant (h : Host ε Ω σ) (m : Machine ε Ω σ) (next : Bool → Routine ε Ω σ)
    (rest : List (Task ε Ω σ)) : Request → Machine ε Ω σ
  | .start a restart =>
      if m.table.isRunning a && !restart then m.todo (.run (next false) :: rest)
      else m.workingOn [a] [.start a restart] (.run (next true) :: rest)
  | .stop a =>
      if m.table.isRunning a then
        (m.holding [a]).interrupting a (.letGo [a] :: .run (next true) :: rest)
      else m.todo (.run (next false) :: rest)
  | .stopAll =>
      let stopped := m.table.runningBackwards
      let m : Machine ε Ω σ := { m with table := m.table.retireAll }
      m.workingOn stopped (stopped.map fun a => .invoke a (.finish true)) (.run (next true) :: rest)
  | .tick => m.workingOn m.table.running (m.table.running.map .turn) (.run (next true) :: rest)
  | .poll => m.pollTriggers h (.run (next true) :: rest)
  | .bind target restart =>
      { m with table := m.table.bind target restart, agenda := .run (next true) :: rest }
  | .unbind trigger =>
      let bound := m.table.isBound trigger
      { m with
        table := m.table.unbind trigger
        world := if bound then h.forget m.own trigger m.world else m.world
        agenda := .run (next bound) :: rest }

/-- The tasks of a start after the table has changed: the interrupted actions finish in order, and
the new one begins when those that are inside a callback have finished too. -/
def afterSeizing (t : ActionTable) (a : ActionId) (holders : List ActionId) :
    List (Task ε Ω σ) :=
  holders.map (fun o => .invoke o (.finish true)) ++ [.succeed a (holders.filter t.isBusy)]

def seize (m : Machine ε Ω σ) (a : ActionId) (ds : List DeviceId) (rest : List (Task ε Ω σ)) :
    Machine ε Ω σ :=
  let holders := m.table.holders a ds
  let seized : Machine ε Ω σ := { m with table := m.table.seize a ds }
  seized.workingOn holders (afterSeizing m.table a holders) rest

/-- Starts an action that is not running.  An action inside one of its callbacks keeps the claims
of its last start, any other one is asked what it needs. -/
def launch (h : Host ε Ω σ) (m : Machine ε Ω σ) (a : ActionId) (rest : List (Task ε Ω σ)) :
    Machine ε Ω σ :=
  if m.table.isBusy a then m.seize a (m.table.claims a) rest
  else
    let r := h.needs m.own a
    let m : Machine ε Ω σ := { m with own := r.1 }
    match r.2 with
    | .error p => m.unwind h (.panic p) rest
    | .ok ds =>
        let ds := ds.eraseDups
        { m with table := m.table.setClaims a ds }.seize a ds rest

def serve (h : Host ε Ω σ) (m : Machine ε Ω σ) (a : ActionId) (rest : List (Task ε Ω σ)) :
    Deferred → Machine ε Ω σ
  | .begin => m.todo (.run (h.routine a .begin) :: .returned a .begin :: rest)
  | .process =>
      if m.table.isRunning a then
        m.todo (.run (h.routine a .process) :: .returned a .process :: rest)
      else m.todo rest
  | .finish interrupted =>
      m.todo (.run (h.routine a (.finish interrupted)) :: .returned a (.finish interrupted) :: rest)
  | .handOver next ticket =>
      if !m.table.awaits ticket && m.table.isRunning next then
        m.workingOn [next] [.invoke next .begin] rest
      else m.todo rest

def runRoutine (h : Host ε Ω σ) (m : Machine ε Ω σ) (rest : List (Task ε Ω σ)) :
    Routine ε Ω σ → Machine ε Ω σ
  | .done o => m.finishRoutine h o rest
  | .panic p => m.unwind h (.panic p) rest
  | .ask r next => m.grant h next rest r
  | .act e next =>
      let r := h.perform e m.table m.world
      { m with world := r.1, agenda := .run r.2 :: .bound next :: rest }
  | .look next => m.todo (.run (next m.table m.world m.own) :: rest)
  | .note change next => { m with own := change m.own, agenda := .run next :: rest }
  | .attempt body next => m.todo (.run body :: .caught next :: rest)

def step (h : Host ε Ω σ) (m : Machine ε Ω σ) : Machine ε Ω σ :=
  match m.agenda with
  | [] => m
  | .run r :: rest => m.runRoutine h rest r
  | .bound next :: rest => m.todo (.run (next (.ok ())) :: rest)
  | .caught next :: rest => m.todo (.run (next (.ok ())) :: rest)
  | .returned _ _ :: rest => m.todo rest
  | .start a restart :: rest =>
      if m.table.isRunning a then
        if restart then m.interrupting a (.launch a :: rest) else m.todo rest
      else m.todo (.launch a :: rest)
  | .launch a :: rest => m.launch h a rest
  | .succeed a late :: rest =>
      if late.isEmpty then m.todo (.invoke a .begin :: rest)
      else { m with table := m.table.deferHandOver a late, agenda := rest }
  | .invoke a d :: rest =>
      if m.table.isBusy a then { m with table := m.table.defer a d, agenda := rest }
      else { m with table := m.table.enter a, agenda := .serve a d :: .drain a :: rest }
  | .serve a d :: rest => m.serve h a rest d
  | .drain a :: rest =>
      match m.table.owed a with
      | [] => { m with table := m.table.leave a, agenda := rest }
      | d :: ds =>
          { m with table := m.table.setOwed a ds, agenda := .serve a d :: .drain a :: rest }
  | .turn a :: rest =>
      if m.table.isRunning a then m.todo (.invoke a .process :: rest) else m.todo rest
  | .letGo as :: rest => { m with table := m.table.letGo as, agenda := rest }

def steps (h : Host ε Ω σ) : Nat → Machine ε Ω σ → Machine ε Ω σ
  | 0, m => m
  | n + 1, m => steps h n (m.step h)

def isIdle (m : Machine ε Ω σ) : Bool := m.agenda.isEmpty

def work (h : Host ε Ω σ) : Nat → Machine ε Ω σ → Machine ε Ω σ
  | 0, m => m
  | n + 1, m => if m.isIdle then m else work h n (m.step h)

end Machine

end RobotControl
