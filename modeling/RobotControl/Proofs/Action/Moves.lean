import RobotControl.Action.Agenda
import RobotControl.Proofs.Action.Locks

/-!
# What one step of the manager does

`Move` lists the ways in which a step changes the table and the agenda, each with what it takes for
it to happen; world and application state are left open.  `step_move` says that every step is one
of them.  This holds for agendas that are `Framed`: between code that may fail and the callback in
which it runs there is nothing but code, so that a failure loses no work for an action.
-/
set_option autoImplicit false

namespace RobotControl

variable {ε Ω σ : Type}

namespace Task

/-- Application code and starts that have changed nothing yet: no work for an action hangs on
it. -/
def isCode : Task ε Ω σ → Bool
  | .run _ | .bound _ | .caught _ | .start _ _ | .launch _ | .letGo _ => true
  | _ => false

/-- Code whose failure is handed to the tasks below. -/
def mayFail : Task ε Ω σ → Bool
  | .run _ | .bound _ | .caught _ | .start _ _ | .launch _ => true
  | _ => false

/-- Tasks that may be dropped without a trace. -/
def isLight : Task ε Ω σ → Bool
  | .returned _ _ | .turn _ => true
  | t => t.isCode

/-- Tasks that are done as soon as they are there. -/
def isFleeting : Task ε Ω σ → Bool
  | .serve _ _ | .invoke _ .begin | .invoke _ .process | .invoke _ (.handOver _ _) => true
  | _ => false

def inside : Task ε Ω σ → Option ActionId
  | .returned a _ | .serve a _ => some a
  | _ => none

def frame : Task ε Ω σ → Option ActionId
  | .drain a => some a
  | _ => none

theorem isCode_of_mayFail (t : Task ε Ω σ) (fails : t.mayFail = true) : t.isCode = true := by
  cases t <;> first | rfl | cases fails

theorem isLight_of_isCode (t : Task ε Ω σ) (code : t.isCode = true) : t.isLight = true := by
  cases t <;> first | rfl | cases code

theorem inside_of_isCode (t : Task ε Ω σ) (code : t.isCode = true) : t.inside = none := by
  cases t <;> first | rfl | cases code

theorem isFleeting_of_isCode (t : Task ε Ω σ) (code : t.isCode = true) :
    t.isFleeting = false := by
  cases t <;> first | rfl | cases code

end Task

/-- Nothing but code down to the callback that catches a failure. -/
def Unwindable : List (Task ε Ω σ) → Prop
  | [] => True
  | .returned _ _ :: _ => True
  | t :: rest => t.isCode = true ∧ Unwindable rest

def Steady (tasks : List (Task ε Ω σ)) : Prop := ∀ x ∈ tasks, x.isFleeting = false

/-- The shape of an agenda: failures lose no work, every callback stands directly on the task that
ends it, and fleeting tasks are in front. -/
def Framed : List (Task ε Ω σ) → Prop
  | [] => True
  | t :: rest =>
      (t.mayFail = true → Unwindable rest) ∧
        (∀ a, t.inside = some a → ∃ below, rest = .drain a :: below) ∧
          Steady rest ∧ Framed rest

/-! ### Shapes of agendas -/

theorem Unwindable.append {new rest : List (Task ε Ω σ)} (codes : ∀ x ∈ new, x.isCode = true)
    (below : Unwindable rest) : Unwindable (new ++ rest) := by
  induction new with
  | nil => exact below
  | cons t more ih =>
      have code := codes t (List.mem_cons_self ..)
      have tail := ih fun x member => codes x (List.mem_cons_of_mem _ member)
      cases t <;> first | exact ⟨code, tail⟩ | cases code

theorem Steady.cons {rest : List (Task ε Ω σ)} (t : Task ε Ω σ) (stays : t.isFleeting = false)
    (steady : Steady rest) : Steady (t :: rest) := by
  intro x member
  rcases List.mem_cons.mp member with rfl | below
  · exact stays
  · exact steady x below

theorem Steady.append {new rest : List (Task ε Ω σ)} (stay : ∀ x ∈ new, x.isFleeting = false)
    (steady : Steady rest) : Steady (new ++ rest) := by
  intro x member
  rcases List.mem_append.mp member with early | late
  · exact stay x early
  · exact steady x late

theorem Steady.append_code {new rest : List (Task ε Ω σ)} (codes : ∀ x ∈ new, x.isCode = true)
    (steady : Steady rest) : Steady (new ++ rest) :=
  steady.append fun x member => x.isFleeting_of_isCode (codes x member)

namespace Framed

theorem tail {t : Task ε Ω σ} {rest : List (Task ε Ω σ)} (framed : Framed (t :: rest)) :
    Framed rest := framed.2.2.2

theorem suffix {front rest : List (Task ε Ω σ)} (framed : Framed (front ++ rest)) :
    Framed rest := by
  induction front with
  | nil => exact framed
  | cons t more ih => exact ih framed.tail

theorem steady {t : Task ε Ω σ} {rest : List (Task ε Ω σ)} (framed : Framed (t :: rest)) :
    Steady rest := framed.2.2.1

theorem cons {rest : List (Task ε Ω σ)} (framed : Framed rest) (t : Task ε Ω σ)
    (steady : Steady rest) (safe : t.mayFail = false) (outside : t.inside = none) :
    Framed (t :: rest) :=
  ⟨fun fails => by simp [safe] at fails, fun a within => by simp [outside] at within, steady,
    framed⟩

theorem append {new rest : List (Task ε Ω σ)} (framed : Framed rest) (steady : Steady rest)
    (plain : ∀ x ∈ new, x.mayFail = false ∧ x.inside = none ∧ x.isFleeting = false) :
    Framed (new ++ rest) := by
  induction new with
  | nil => exact framed
  | cons t more ih =>
      have head := plain t (List.mem_cons_self ..)
      have others : ∀ x ∈ more, x.mayFail = false ∧ x.inside = none ∧ x.isFleeting = false :=
        fun x member => plain x (List.mem_cons_of_mem _ member)
      exact (ih others).cons t (steady.append fun x member => (others x member).2.2) head.1 head.2.1

theorem append_code {new rest : List (Task ε Ω σ)} (framed : Framed rest) (steady : Steady rest)
    (below : Unwindable rest) (codes : ∀ x ∈ new, x.isCode = true) : Framed (new ++ rest) := by
  induction new with
  | nil => exact framed
  | cons t more ih =>
      have code := codes t (List.mem_cons_self ..)
      have others : ∀ x ∈ more, x.isCode = true :=
        fun x member => codes x (List.mem_cons_of_mem _ member)
      refine ⟨fun _ => Unwindable.append others below, fun a within => ?_,
        steady.append_code others, ih others⟩
      rw [t.inside_of_isCode code] at within
      cases within

theorem serving {a : ActionId} {rest : List (Task ε Ω σ)} (framed : Framed rest)
    (steady : Steady rest) (d : Deferred) : Framed (.serve a d :: .drain a :: rest) :=
  ⟨fun fails => Bool.noConfusion fails, fun _ within => ⟨rest, by cases within; rfl⟩,
    steady.cons (.drain a) rfl, framed.cons (.drain a) steady rfl rfl⟩

theorem inside {t : Task ε Ω σ} {rest : List (Task ε Ω σ)} (framed : Framed (t :: rest))
    (s : Task ε Ω σ) (same : s.inside = t.inside) (safe : s.mayFail = false) :
    Framed (s :: rest) :=
  ⟨fun fails => by simp [safe] at fails, fun a within => framed.2.1 a (same ▸ within),
    framed.steady, framed.tail⟩

theorem calling {t : Task ε Ω σ} {a : ActionId} {rest : List (Task ε Ω σ)}
    (framed : Framed (t :: rest)) (within : t.inside = some a) (cb : Callback)
    (r : Routine ε Ω σ) : Framed (.run r :: .returned a cb :: rest) := by
  refine ⟨fun _ => trivial, fun b nowhere => ?_, framed.steady.cons (.returned a cb) rfl,
    framed.inside (.returned a cb) within.symm rfl⟩
  cases nowhere

end Framed

/-! ### Tables that differ only in bookkeeping -/

/-- Two tables that agree on the actions: only the actions in use and the bindings may differ. -/
structure ActionTable.Alike (t t' : ActionTable) : Prop where
  entries : t'.entries = t.entries
  running : t'.running = t.running
  locks : t'.locks = t.locks
  nextTicket : t'.nextTicket = t.nextTicket

namespace ActionTable.Alike

theorem refl (t : ActionTable) : t.Alike t := ⟨rfl, rfl, rfl, rfl⟩

theorem trans {t t' t'' : ActionTable} (first : t.Alike t') (second : t'.Alike t'') :
    t.Alike t'' where
  entries := second.entries.trans first.entries
  running := second.running.trans first.running
  locks := second.locks.trans first.locks
  nextTicket := second.nextTicket.trans first.nextTicket

theorem letGo (t : ActionTable) (as : List ActionId) : t.Alike (t.letGo as) := ⟨rfl, rfl, rfl, rfl⟩

theorem hold (t : ActionTable) (as : List ActionId) : t.Alike (t.hold as) := ⟨rfl, rfl, rfl, rfl⟩

theorem entry {t t' : ActionTable} (alike : t.Alike t') (a : ActionId) :
    t'.entry a = t.entry a := by
  rw [ActionTable.entry, ActionTable.entry, alike.entries]

theorem phase {t t' : ActionTable} (alike : t.Alike t') (a : ActionId) :
    t'.phase a = t.phase a := congrArg Entry.phase (alike.entry a)

theorem isRunning {t t' : ActionTable} (alike : t.Alike t') (a : ActionId) :
    t'.isRunning a = t.isRunning a := by
  rw [ActionTable.isRunning, ActionTable.isRunning, alike.phase]

theorem isBusy {t t' : ActionTable} (alike : t.Alike t') (a : ActionId) :
    t'.isBusy a = t.isBusy a := congrArg Entry.busy (alike.entry a)

theorem owed {t t' : ActionTable} (alike : t.Alike t') (a : ActionId) :
    t'.owed a = t.owed a := congrArg Entry.owed (alike.entry a)

theorem claims {t t' : ActionTable} (alike : t.Alike t') (a : ActionId) :
    t'.claims a = t.claims a := congrArg Entry.claims (alike.entry a)

theorem owner {t t' : ActionTable} (alike : t.Alike t') (d : DeviceId) :
    t'.owner d = t.owner d := by
  rw [ActionTable.owner, ActionTable.owner, alike.locks]

theorem retire {t t' : ActionTable} (alike : t.Alike t') (a : ActionId) :
    (t.retire a).Alike (t'.retire a) where
  entries := by
    change t'.entries.put a _ = t.entries.put a _
    rw [alike.entries, alike.entry]
  running := congrArg (List.filter fun b => b ≠ a) alike.running
  locks := congrArg (Assoc.filter · fun _ o => o ≠ a) alike.locks
  nextTicket := alike.nextTicket

theorem sameLocks {t t' : ActionTable} (alike : t.Alike t') : t.SameLocks t' :=
  ⟨alike.phase, alike.claims, alike.running, alike.locks⟩

end ActionTable.Alike

def Task.launches : Task ε Ω σ → Option ActionId
  | .launch a => some a
  | _ => none

namespace Machine

theorem step_of_idle {h : Host ε Ω σ} {m : Machine ε Ω σ} (idle : m.agenda = []) :
    m.step h = m := by
  rw [step, idle]

/-! ### Events of a step -/

def Starts (h : Host ε Ω σ) (m : Machine ε Ω σ) (a : ActionId) : Prop :=
  ∃ rest, m.agenda = .launch a :: rest ∧
    (m.table.isBusy a = true ∨ ∃ ds, (h.needs m.own a).2 = .ok ds)

theorem starts_iff (h : Host ε Ω σ) (m : Machine ε Ω σ) (a : ActionId) :
    m.Starts h a ↔ m.agenda.head?.bind Task.launches = some a ∧
      (m.table.isBusy a = true ∨ (h.needs m.own a).2.toOption.isSome = true) := by
  constructor
  · rintro ⟨rest, front, inside | ⟨ds, known⟩⟩
    · exact ⟨by rw [front]; rfl, .inl inside⟩
    · exact ⟨by rw [front]; rfl, .inr (by rw [known]; rfl)⟩
  · rintro ⟨front, known⟩
    cases agenda : m.agenda with
    | nil => simp [agenda] at front
    | cons t rest =>
        rw [agenda] at front
        cases t with
        | launch b =>
            cases front
            refine ⟨rest, agenda, known.imp_right fun some => ?_⟩
            cases needed : (h.needs m.own a).2 with
            | ok ds => exact ⟨ds, rfl⟩
            | error p => simp [needed, Except.toOption] at some
        | _ => cases front

instance (h : Host ε Ω σ) (m : Machine ε Ω σ) (a : ActionId) : Decidable (m.Starts h a) :=
  decidable_of_iff _ (m.starts_iff h a).symm

/-- The step ends the run of the action. -/
def Leaves (h : Host ε Ω σ) (m : Machine ε Ω σ) (a : ActionId) : Prop :=
  m.table.isRunning a = true ∧ (m.step h).table.isRunning a = false

instance (h : Host ε Ω σ) (m : Machine ε Ω σ) (a : ActionId) : Decidable (m.Leaves h a) :=
  inferInstanceAs (Decidable (_ ∧ _))

inductive Enters (m : Machine ε Ω σ) (a : ActionId) : Callback → Prop
  | begin {rest : List (Task ε Ω σ)} (front : m.agenda = .serve a .begin :: rest) :
      Enters m a .begin
  /-- What was to be processed is passed over when it does not run any more. -/
  | process {rest : List (Task ε Ω σ)} (front : m.agenda = .serve a .process :: rest)
      (runs : m.table.isRunning a = true) : Enters m a .process
  | finish {rest : List (Task ε Ω σ)} {interrupted : Bool}
      (front : m.agenda = .serve a (.finish interrupted) :: rest) :
      Enters m a (.finish interrupted)

/-- The ways in which a step changes the table and the agenda. -/
inductive Move (h : Host ε Ω σ) (m : Machine ε Ω σ) :
    ActionTable → List (Task ε Ω σ) → Prop
  | idle (agenda : m.agenda = []) : Move h m m.table []
  /-- Code leads to other code, possibly by a failure that a part of it catches. -/
  | code {f n rest : List (Task ε Ω σ)} {t : Task ε Ω σ} {table : ActionTable}
      (agenda : m.agenda = f ++ t :: rest) (codes : ∀ x ∈ f, x.isCode = true)
      (fails : t.mayFail = true) (newCodes : ∀ x ∈ n, x.isCode = true)
      (alike : m.table.Alike table) (quiet : ∀ a, ¬ m.Starts h a) : Move h m table (n ++ rest)
  | drop {f rest : List (Task ε Ω σ)} {table : ActionTable}
      (agenda : m.agenda = f ++ rest) (some : f ≠ [])
      (light : ∀ x ∈ f, x.isLight = true) (alike : m.table.Alike table)
      (quiet : ∀ a, ¬ m.Starts h a) : Move h m table rest
  | proceed {f rest : List (Task ε Ω σ)} {a : ActionId}
      (agenda : m.agenda = f ++ .returned a .process :: rest)
      (codes : ∀ x ∈ f, x.isCode = true) (some : f ≠ []) (quiet : ∀ a, ¬ m.Starts h a) :
      Move h m m.table (.run (h.routine a .proceed) :: .returned a .proceed :: rest)
  /-- A callback ends the run of its action, which finishes at once. -/
  | ended {f rest : List (Task ε Ω σ)} {a : ActionId} {cb : Callback} {table : ActionTable}
      (interrupted : Bool) (agenda : m.agenda = f ++ .returned a cb :: rest)
      (codes : ∀ x ∈ f, x.isCode = true) (some : f ≠ [])
      (runs : m.table.isRunning a = true) (alike : (m.table.retire a).Alike table)
      (quiet : ∀ a, ¬ m.Starts h a) : Move h m table (.serve a (.finish interrupted) :: rest)
  | interrupt {n rest : List (Task ε Ω σ)} {t : Task ε Ω σ} {a : ActionId}
      {table : ActionTable} (agenda : m.agenda = t :: rest) (fails : t.mayFail = true)
      (notLaunch : ∀ b, t ≠ .launch b) (newCodes : ∀ x ∈ n, x.isCode = true)
      (runs : m.table.isRunning a = true) (alike : (m.table.retire a).Alike table) :
      Move h m table (.invoke a (.finish true) :: (n ++ rest))
  | stopAll {n rest : List (Task ε Ω σ)} {next : Bool → Routine ε Ω σ} {table : ActionTable}
      (agenda : m.agenda = .run (.ask .stopAll next) :: rest)
      (newCodes : ∀ x ∈ n, x.isCode = true) (alike : m.table.retireAll.Alike table) :
      Move h m table
        (m.table.runningBackwards.map (fun a => .invoke a (.finish true)) ++ (n ++ rest))
  | tick {n rest : List (Task ε Ω σ)} {next : Bool → Routine ε Ω σ} {table : ActionTable}
      (agenda : m.agenda = .run (.ask .tick next) :: rest)
      (newCodes : ∀ x ∈ n, x.isCode = true) (alike : m.table.Alike table) :
      Move h m table (m.table.running.map .turn ++ (n ++ rest))
  /-- An action starts, with new claims unless it is inside one of its callbacks. -/
  | seize {rest : List (Task ε Ω σ)} {a : ActionId} {ds : List DeviceId}
      {claimed table : ActionTable} (agenda : m.agenda = .launch a :: rest)
      (claims : (claimed = m.table ∧ ds = m.table.claims a ∧ m.table.isBusy a = true) ∨
        (claimed = m.table.setClaims a ds ∧ m.table.isBusy a = false))
      (starts : m.Starts h a) (alike : (claimed.seize a ds).Alike table) :
      Move h m table
        (afterSeizing claimed a (claimed.holders a ds) ++ .letGo (claimed.holders a ds) :: rest)
  | succeedNow {rest : List (Task ε Ω σ)} {a : ActionId}
      (agenda : m.agenda = .succeed a [] :: rest) : Move h m m.table (.invoke a .begin :: rest)
  | succeedLater {rest : List (Task ε Ω σ)} {a : ActionId} {late : List ActionId}
      (agenda : m.agenda = .succeed a late :: rest) (some : late ≠ []) :
      Move h m (m.table.deferHandOver a late) rest
  | defer {rest : List (Task ε Ω σ)} {a : ActionId} {d : Deferred}
      (agenda : m.agenda = .invoke a d :: rest) (busy : m.table.isBusy a = true) :
      Move h m (m.table.defer a d) rest
  | enter {rest : List (Task ε Ω σ)} {a : ActionId} {d : Deferred}
      (agenda : m.agenda = .invoke a d :: rest) (free : m.table.isBusy a = false) :
      Move h m (m.table.enter a) (.serve a d :: .drain a :: rest)
  | call {rest : List (Task ε Ω σ)} {a : ActionId} {d : Deferred} {cb : Callback}
      (agenda : m.agenda = .serve a d :: rest) (enters : m.Enters a cb) :
      Move h m m.table (.run (h.routine a cb) :: .returned a cb :: rest)
  | pass {rest : List (Task ε Ω σ)} {a : ActionId}
      (agenda : m.agenda = .serve a .process :: rest) (stands : m.table.isRunning a = false) :
      Move h m m.table rest
  /-- A hand-over that is not the last of its ticket, or whose action was stopped meanwhile. -/
  | wait {rest : List (Task ε Ω σ)} {a next : ActionId} {ticket : Nat}
      (agenda : m.agenda = .serve a (.handOver next ticket) :: rest)
      (reason : m.table.awaits ticket = true ∨ m.table.isRunning next = false) :
      Move h m m.table rest
  | handOver {rest : List (Task ε Ω σ)} {a next : ActionId} {ticket : Nat}
      {table : ActionTable} (agenda : m.agenda = .serve a (.handOver next ticket) :: rest)
      (last : m.table.awaits ticket = false) (runs : m.table.isRunning next = true)
      (alike : m.table.Alike table) :
      Move h m table (.invoke next .begin :: .letGo [next] :: rest)
  | leave {rest : List (Task ε Ω σ)} {a : ActionId} (agenda : m.agenda = .drain a :: rest)
      (owed : m.table.owed a = []) : Move h m (m.table.leave a) rest
  | drain {rest : List (Task ε Ω σ)} {a : ActionId} {d : Deferred} {ds : List Deferred}
      (agenda : m.agenda = .drain a :: rest) (owed : m.table.owed a = d :: ds) :
      Move h m (m.table.setOwed a ds) (.serve a d :: .drain a :: rest)
  | turn {rest : List (Task ε Ω σ)} {a : ActionId} (agenda : m.agenda = .turn a :: rest)
      (runs : m.table.isRunning a = true) : Move h m m.table (.invoke a .process :: rest)

/-! ### Every step is a move -/

theorem not_starts_of_front (h : Host ε Ω σ) (m : Machine ε Ω σ) {t : Task ε Ω σ}
    {rest : List (Task ε Ω σ)} (agenda : m.agenda = t :: rest) (other : ∀ a, t ≠ .launch a)
    (a : ActionId) : ¬ m.Starts h a := by
  rintro ⟨below, front, _⟩
  rw [agenda] at front
  exact other a (List.cons.inj front).1

theorem returnFailed_move (h : Host ε Ω σ) (m m' : Machine ε Ω σ) (f : Failure) (cb : Callback)
    (front : List (Task ε Ω σ)) {rest : List (Task ε Ω σ)} {a : ActionId}
    (agenda : m.agenda = front ++ .returned a cb :: rest)
    (codes : ∀ x ∈ front, x.isCode = true) (some : front ≠ [])
    (quiet : ∀ b, ¬ m.Starts h b) (alike : m.table.Alike m'.table) :
    Move h m (m'.returnFailed h a rest f cb).table (m'.returnFailed h a rest f cb).agenda := by
  have dropped : Move h m m'.table rest := by
    refine .drop (f := front ++ [.returned a cb]) (by simp [agenda]) (by simp) ?_ alike quiet
    intro x member
    rcases List.mem_append.mp member with early | last
    · exact x.isLight_of_isCode (codes x early)
    · rw [List.mem_singleton.mp last]
      rfl
  by_cases runs : m'.table.isRunning a = true
  · have ended : Move h m (m'.table.retire a) (.serve a (.finish true) :: rest) :=
      .ended true agenda codes some (alike.isRunning a ▸ runs) (alike.retire a) quiet
    cases cb with
    | finish _ => exact dropped
    | begin => simpa [returnFailed, runs] using ended
    | process => simpa [returnFailed, runs] using ended
    | proceed => simpa [returnFailed, runs] using ended
  · cases cb <;> simpa [returnFailed, todo, runs] using dropped

theorem unwind_move (h : Host ε Ω σ) (m : Machine ε Ω σ) (f : Failure)
    (quiet : ∀ b, ¬ m.Starts h b) :
    ∀ (rest front : List (Task ε Ω σ)) (m' : Machine ε Ω σ), m.agenda = front ++ rest →
      (∀ x ∈ front, x.isCode = true) → front ≠ [] → Unwindable rest → m.table.Alike m'.table →
        Move h m (m'.unwind h f rest).table (m'.unwind h f rest).agenda := by
  intro rest
  induction rest with
  | nil =>
      intro front m' agenda codes some _ alike
      exact .drop agenda some (fun x member => x.isLight_of_isCode (codes x member)) alike quiet
  | cons t below ih =>
      intro front m' agenda codes some unwindable alike
      have deeper : ∀ m'' : Machine ε Ω σ, t.isCode = true → Unwindable below →
          m.table.Alike m''.table →
            Move h m (m''.unwind h f below).table (m''.unwind h f below).agenda := by
        intro m'' code more alike''
        refine ih (front ++ [t]) m'' (by simp [agenda]) ?_ (by simp) more alike''
        intro x member
        rcases List.mem_append.mp member with early | last
        · exact codes x early
        · exact List.mem_singleton.mp last ▸ code
      cases t with
      | caught next =>
          exact .code (n := [.run (next (.error f))]) agenda codes rfl (by simp [Task.isCode])
            alike quiet
      | returned a cb => exact returnFailed_move h m m' f cb front agenda codes some quiet alike
      | letGo as => exact deeper _ rfl unwindable.2 (alike.trans (.letGo _ as))
      | run r => exact deeper m' rfl unwindable.2 alike
      | bound next => exact deeper m' rfl unwindable.2 alike
      | start a restart => exact deeper m' rfl unwindable.2 alike
      | launch a => exact deeper m' rfl unwindable.2 alike
      | succeed a late => cases unwindable.1
      | invoke a d => cases unwindable.1
      | serve a d => cases unwindable.1
      | drain a => cases unwindable.1
      | turn a => cases unwindable.1

theorem returnWell_move (h : Host ε Ω σ) (m : Machine ε Ω σ) (cb : Callback)
    (front : List (Task ε Ω σ)) {rest : List (Task ε Ω σ)} {a : ActionId}
    (agenda : m.agenda = front ++ .returned a cb :: rest)
    (codes : ∀ x ∈ front, x.isCode = true) (some : front ≠ [])
    (quiet : ∀ b, ¬ m.Starts h b) :
    Move h m (m.returnWell h a rest cb).table (m.returnWell h a rest cb).agenda := by
  have dropped : Move h m m.table rest := by
    refine .drop (f := front ++ [.returned a cb]) (by simp [agenda]) (by simp) ?_
      (.refl _) quiet
    intro x member
    rcases List.mem_append.mp member with early | last
    · exact x.isLight_of_isCode (codes x early)
    · rw [List.mem_singleton.mp last]
      rfl
  cases cb with
  | begin => exact dropped
  | finish _ => exact dropped
  | process =>
      by_cases runs : m.table.isRunning a = true
      · simpa [returnWell, todo, runs] using Move.proceed agenda codes some quiet
      · simpa [returnWell, todo, runs] using dropped
  | proceed =>
      by_cases stops : (m.table.isRunning a && !h.wantsMore m.own a) = true
      · have runs := (Bool.and_eq_true_iff.mp stops).1
        have ended := Move.ended false agenda codes some runs (.refl _) quiet
        simpa [returnWell, todo, stops] using ended
      · simpa [returnWell, todo, stops] using dropped

theorem table_pollOne (h : Host ε Ω σ) (m : Machine ε Ω σ) (fired : List Binding) (b : Binding) :
    (m.pollOne h fired b).1.table = m.table := by
  unfold pollOne
  split
  · dsimp only
    split <;> rfl
  · rfl

theorem table_pollAll (h : Host ε Ω σ) (bs : List Binding) :
    ∀ (m : Machine ε Ω σ) (fired : List Binding), (m.pollAll h fired bs).1.table = m.table := by
  induction bs with
  | nil => exact fun _ _ => rfl
  | cons b rest ih => exact fun m fired => (ih _ _).trans (table_pollOne h m fired b)

theorem pollTriggers_spec (h : Host ε Ω σ) (m : Machine ε Ω σ) (rest : List (Task ε Ω σ)) :
    m.table.Alike (m.pollTriggers h rest).table ∧
      ∃ new, (m.pollTriggers h rest).agenda = new ++ rest ∧ ∀ x ∈ new, x.isCode = true := by
  simp only [pollTriggers, todo, holding, table_pollAll]
  refine ⟨⟨rfl, rfl, rfl, rfl⟩, _, rfl, ?_⟩
  intro x member
  obtain ⟨b, _, task⟩ := List.mem_flatMap.mp member
  simp only [List.mem_cons, List.not_mem_nil, or_false] at task
  rcases task with rfl | rfl <;> rfl

theorem grant_move (h : Host ε Ω σ) (m : Machine ε Ω σ) (r : Request)
    (next : Bool → Routine ε Ω σ) (rest : List (Task ε Ω σ))
    (agenda : m.agenda = .run (.ask r next) :: rest) :
    Move h m (m.grant h next rest r).table (m.grant h next rest r).agenda := by
  have quiet : ∀ a, ¬ m.Starts h a := not_starts_of_front h m agenda fun a same => by cases same
  have code : ∀ (new : List (Task ε Ω σ)) (table : ActionTable), (∀ x ∈ new, x.isCode = true) →
      m.table.Alike table → Move h m table (new ++ rest) := fun new table codes alike =>
    .code (f := []) agenda (by simp) rfl codes alike quiet
  cases r with
  | start a restart =>
      by_cases refused : (m.table.isRunning a && !restart) = true
      · simp only [grant, if_pos refused]
        exact code [.run (next false)] _ (by simp [Task.isCode]) (.refl _)
      · simp only [grant, if_neg refused]
        exact code [.start a restart, .letGo [a], .run (next true)] _ (by simp [Task.isCode])
          (.hold _ _)
  | stop a =>
      by_cases runs : m.table.isRunning a = true
      · simp only [grant, if_pos runs]
        exact .interrupt (n := [.letGo [a], .run (next true)]) agenda rfl
          (fun b same => by cases same) (by simp [Task.isCode]) runs ⟨rfl, rfl, rfl, rfl⟩
      · simp only [grant, if_neg runs]
        exact code [.run (next false)] _ (by simp [Task.isCode]) (.refl _)
  | stopAll =>
      exact .stopAll (n := [.letGo m.table.runningBackwards, .run (next true)]) agenda
        (by simp [Task.isCode]) (.hold _ _)
  | tick =>
      exact .tick (n := [.letGo m.table.running, .run (next true)]) agenda
        (by simp [Task.isCode]) (.hold _ _)
  | poll =>
      obtain ⟨alike, new, tasks, codes⟩ := pollTriggers_spec h m (.run (next true) :: rest)
      have moved := code (new ++ [.run (next true)]) _ (fun x member => by
        rcases List.mem_append.mp member with early | last
        · exact codes x early
        · rw [List.mem_singleton.mp last]
          rfl) alike
      have whole : (m.pollTriggers h (.run (next true) :: rest)).agenda =
          (new ++ [.run (next true)]) ++ rest := by rw [tasks]; simp
      change Move h m (m.pollTriggers h (.run (next true) :: rest)).table
        (m.pollTriggers h (.run (next true) :: rest)).agenda
      rw [whole]
      exact moved
  | bind target restart =>
      exact code [.run (next true)] _ (by simp [Task.isCode]) ⟨rfl, rfl, rfl, rfl⟩
  | unbind trigger =>
      exact code [.run (next _)] _ (by simp [Task.isCode]) ⟨rfl, rfl, rfl, rfl⟩

theorem finishRoutine_move (h : Host ε Ω σ) (m : Machine ε Ω σ) (o : Except Fault Unit)
    (rest : List (Task ε Ω σ)) (agenda : m.agenda = .run (.done o) :: rest) :
    Move h m (m.finishRoutine h o rest).table (m.finishRoutine h o rest).agenda := by
  have quiet : ∀ a, ¬ m.Starts h a := not_starts_of_front h m agenda fun a same => by cases same
  have single : ∀ x ∈ [Task.run (.done o)], (x : Task ε Ω σ).isCode = true := by
    simp [Task.isCode]
  have alone : Move h m m.table rest :=
    .drop (f := [.run (.done o)]) agenda (by simp) (by simp [Task.isLight, Task.isCode])
      (.refl _) quiet
  cases rest with
  | nil => exact alone
  | cons t below =>
      cases t with
      | bound next =>
          exact .code (f := [.run (.done o)]) (n := [.run (next o)]) agenda single rfl
            (by simp [Task.isCode]) (.refl _) quiet
      | caught next =>
          exact .code (f := [.run (.done o)])
            (n := [.run (next (o.mapError Failure.fault))]) agenda single rfl
            (by simp [Task.isCode]) (.refl _) quiet
      | returned a cb =>
          cases o with
          | ok _ =>
              exact returnWell_move h m cb [.run (.done (.ok ()))] agenda single
                (by simp) quiet
          | error f =>
              exact returnFailed_move h m m (.fault f) cb [.run (.done (.error f))]
                agenda single (by simp) quiet (.refl _)
      | run _ => exact alone
      | start _ _ => exact alone
      | launch _ => exact alone
      | succeed _ _ => exact alone
      | invoke _ _ => exact alone
      | serve _ _ => exact alone
      | drain _ => exact alone
      | turn _ => exact alone
      | letGo _ => exact alone

theorem runRoutine_move (h : Host ε Ω σ) (m : Machine ε Ω σ) (r : Routine ε Ω σ)
    (rest : List (Task ε Ω σ)) (agenda : m.agenda = .run r :: rest)
    (below : Unwindable rest) :
    Move h m (m.runRoutine h rest r).table (m.runRoutine h rest r).agenda := by
  have quiet : ∀ a, ¬ m.Starts h a := not_starts_of_front h m agenda fun a same => by cases same
  have code : ∀ (new : List (Task ε Ω σ)), (∀ x ∈ new, x.isCode = true) →
      Move h m m.table (new ++ rest) := fun new codes =>
    .code (f := []) agenda (by simp) rfl codes (.refl _) quiet
  cases r with
  | done o => exact finishRoutine_move h m o rest agenda
  | panic p =>
      exact unwind_move h m _ quiet rest [.run (.panic p)] m agenda (by simp [Task.isCode])
        (by simp) below (.refl _)
  | ask r next => exact grant_move h m r next rest agenda
  | act e next => exact code [.run _, .bound next] (by simp [Task.isCode])
  | look next => exact code [.run _] (by simp [Task.isCode])
  | note change next => exact code [.run _] (by simp [Task.isCode])
  | attempt body next => exact code [.run body, .caught next] (by simp [Task.isCode])

theorem launch_move (h : Host ε Ω σ) (m : Machine ε Ω σ) (a : ActionId)
    (rest : List (Task ε Ω σ)) (agenda : m.agenda = .launch a :: rest)
    (below : Unwindable rest) :
    Move h m (m.launch h a rest).table (m.launch h a rest).agenda := by
  by_cases busy : m.table.isBusy a = true
  · simp only [launch, if_pos busy, seize, workingOn, todo, holding]
    exact .seize agenda (.inl ⟨rfl, rfl, busy⟩) ⟨rest, agenda, .inl busy⟩ (.hold _ _)
  · simp only [launch, if_neg busy]
    cases needed : (h.needs m.own a).2 with
    | error p =>
        have quiet : ∀ b, ¬ m.Starts h b := by
          rintro b ⟨more, front, starts⟩
          rw [agenda] at front
          cases front
          rcases starts with inside | ⟨ds, known⟩
          · exact busy inside
          · rw [needed] at known
            cases known
        exact unwind_move h m _ quiet rest [.launch a] { m with own := (h.needs m.own a).1 }
          agenda (by simp [Task.isCode]) (by simp) below (.refl _)
    | ok ds =>
        simp only [seize, workingOn, todo, holding]
        exact .seize agenda (.inr ⟨rfl, by simpa using busy⟩) ⟨rest, agenda, .inr ⟨ds, needed⟩⟩
          (.hold _ _)

theorem serve_move (h : Host ε Ω σ) (m : Machine ε Ω σ) (a : ActionId) (d : Deferred)
    (rest : List (Task ε Ω σ)) (agenda : m.agenda = .serve a d :: rest) :
    Move h m (m.serve h a rest d).table (m.serve h a rest d).agenda := by
  cases d with
  | begin => exact .call agenda (.begin agenda)
  | finish interrupted => exact .call agenda (.finish agenda)
  | process =>
      by_cases runs : m.table.isRunning a = true
      · simp only [serve, if_pos runs]
        exact .call agenda (.process agenda runs)
      · simp only [serve, if_neg runs]
        exact .pass agenda (by simpa using runs)
  | handOver next ticket =>
      by_cases ready : (!m.table.awaits ticket && m.table.isRunning next) = true
      · simp only [serve, if_pos ready]
        have both := Bool.and_eq_true_iff.mp ready
        exact .handOver agenda (by simpa using both.1) both.2 (.hold _ _)
      · simp only [serve, if_neg ready]
        refine .wait agenda ?_
        cases late : m.table.awaits ticket
        · exact .inr (by simpa [late] using ready)
        · exact .inl rfl

/-- Every step on a framed agenda is one of the moves. -/
theorem step_move (h : Host ε Ω σ) (m : Machine ε Ω σ) (framed : Framed m.agenda) :
    Move h m (m.step h).table (m.step h).agenda := by
  cases agenda : m.agenda with
  | nil =>
      simp only [step, agenda]
      exact .idle agenda
  | cons t rest =>
      rw [agenda] at framed
      cases t with
      | run r =>
          simp only [step, agenda]
          exact runRoutine_move h m r rest agenda (framed.1 rfl)
      | launch a =>
          simp only [step, agenda]
          exact launch_move h m a rest agenda (framed.1 rfl)
      | serve a d =>
          simp only [step, agenda]
          exact serve_move h m a d rest agenda
      | bound next =>
          simp only [step, agenda, todo]
          exact .code (f := []) (n := [.run (next (.ok ()))]) agenda (by simp) rfl
            (by simp [Task.isCode]) (.refl _)
            (not_starts_of_front h m agenda fun a same => by cases same)
      | caught next =>
          simp only [step, agenda, todo]
          exact .code (f := []) (n := [.run (next (.ok ()))]) agenda (by simp) rfl
            (by simp [Task.isCode]) (.refl _)
            (not_starts_of_front h m agenda fun a same => by cases same)
      | returned a cb =>
          simp only [step, agenda, todo]
          exact .drop (f := [.returned a cb]) agenda (by simp) (by simp [Task.isLight])
            (.refl _) (not_starts_of_front h m agenda fun a same => by cases same)
      | letGo as =>
          simp only [step, agenda]
          exact .drop (f := [.letGo as]) agenda (by simp)
            (by simp [Task.isLight, Task.isCode]) (.letGo _ as)
            (not_starts_of_front h m agenda fun a same => by cases same)
      | start a restart =>
          have quiet := not_starts_of_front h m agenda fun a same => by cases same
          by_cases runs : m.table.isRunning a = true
          · cases restart with
            | true =>
                simp only [step, agenda, if_pos runs, interrupting]
                exact .interrupt (n := [.launch a]) agenda rfl (fun b same => by cases same)
                  (by simp [Task.isCode]) runs (.refl _)
            | false =>
                simp only [step, agenda, if_pos runs, Bool.false_eq_true, if_false, todo]
                exact .drop (f := [.start a false]) agenda (by simp)
                  (by simp [Task.isLight, Task.isCode]) (.refl _) quiet
          · simp only [step, agenda, if_neg runs, todo]
            exact .code (f := []) (n := [.launch a]) agenda (by simp) rfl
              (by simp [Task.isCode]) (.refl _) quiet
      | succeed a late =>
          cases late with
          | nil =>
              simp only [step, agenda, List.isEmpty_nil, if_true, todo]
              exact .succeedNow agenda
          | cons o more =>
              simp only [step, agenda, List.isEmpty_cons, Bool.false_eq_true, if_false]
              exact .succeedLater agenda (by simp)
      | invoke a d =>
          by_cases busy : m.table.isBusy a = true
          · simp only [step, agenda, if_pos busy]
            exact .defer agenda busy
          · simp only [step, agenda, if_neg busy]
            exact .enter agenda (by simpa using busy)
      | drain a =>
          cases owed : m.table.owed a with
          | nil =>
              simp only [step, agenda, owed]
              exact .leave agenda owed
          | cons d ds =>
              simp only [step, agenda, owed]
              exact .drain agenda owed
      | turn a =>
          by_cases runs : m.table.isRunning a = true
          · simp only [step, agenda, if_pos runs, todo]
            exact .turn agenda runs
          · simp only [step, agenda, if_neg runs, todo]
            exact .drop (f := [.turn a]) agenda (by simp) (by simp [Task.isLight])
              (.refl _) (not_starts_of_front h m agenda fun a same => by cases same)

/-! ### What every move keeps -/

theorem Move.framed {h : Host ε Ω σ} {m : Machine ε Ω σ} {table : ActionTable}
    {agenda : List (Task ε Ω σ)} (move : Move h m table agenda) (framed : Framed m.agenda) :
    Framed agenda := by
  cases move with
  | idle _ => trivial
  | code front _ fails newCodes _ _ =>
      have below := Framed.suffix (front ▸ framed)
      exact below.tail.append_code below.steady (below.1 fails) newCodes
  | drop front _ _ _ _ => exact Framed.suffix (front ▸ framed)
  | proceed front _ _ _ => exact (Framed.suffix (front ▸ framed)).calling rfl _ _
  | ended _ front _ _ _ _ _ =>
      rw [front] at framed
      exact framed.suffix.inside (.serve _ _) rfl rfl
  | interrupt front fails _ newCodes _ _ =>
      rw [front] at framed
      exact (framed.tail.append_code framed.steady (framed.1 fails) newCodes).cons
        (.invoke _ (.finish true)) (framed.steady.append_code newCodes) rfl rfl
  | stopAll front newCodes _ =>
      rw [front] at framed
      refine (framed.tail.append_code framed.steady (framed.1 rfl) newCodes).append
        (framed.steady.append_code newCodes) fun x member => ?_
      obtain ⟨a, _, rfl⟩ := List.mem_map.mp member
      exact ⟨rfl, rfl, rfl⟩
  | tick front newCodes _ =>
      rw [front] at framed
      refine (framed.tail.append_code framed.steady (framed.1 rfl) newCodes).append
        (framed.steady.append_code newCodes) fun x member => ?_
      obtain ⟨a, _, rfl⟩ := List.mem_map.mp member
      exact ⟨rfl, rfl, rfl⟩
  | @seize _ a ds claimed _ front _ _ _ =>
      rw [front] at framed
      refine (framed.tail.cons (.letGo (claimed.holders a ds)) framed.steady rfl rfl).append
        (framed.steady.cons (.letGo _) rfl) fun x member => ?_
      rcases List.mem_append.mp member with early | last
      · obtain ⟨o, _, rfl⟩ := List.mem_map.mp early
        exact ⟨rfl, rfl, rfl⟩
      · rw [List.mem_singleton.mp last]
        exact ⟨rfl, rfl, rfl⟩
  | succeedNow front =>
      rw [front] at framed
      exact framed.tail.cons (.invoke _ .begin) framed.steady rfl rfl
  | succeedLater front _ => exact (front ▸ framed).tail
  | defer front _ => exact (front ▸ framed).tail
  | enter front _ =>
      rw [front] at framed
      exact framed.tail.serving framed.steady _
  | call front _ =>
      rw [front] at framed
      exact framed.calling rfl _ _
  | pass front _ => exact (front ▸ framed).tail
  | wait front _ => exact (front ▸ framed).tail
  | @handOver _ _ next _ _ front _ _ _ =>
      rw [front] at framed
      exact (framed.tail.cons (.letGo [next]) framed.steady rfl rfl).cons (.invoke _ .begin)
        (framed.steady.cons (.letGo [next]) rfl) rfl rfl
  | leave front _ => exact (front ▸ framed).tail
  | drain front _ =>
      rw [front] at framed
      exact framed.tail.serving framed.steady _
  | turn front _ =>
      rw [front] at framed
      exact framed.tail.cons (.invoke _ .process) framed.steady rfl rfl

theorem Move.consistent {h : Host ε Ω σ} {m : Machine ε Ω σ} {table : ActionTable}
    {agenda : List (Task ε Ω σ)} (move : Move h m table agenda)
    (consistent : m.table.Consistent) : table.Consistent := by
  cases move with
  | code _ _ _ _ alike _ => exact consistent.of_same alike.sameLocks
  | drop _ _ _ alike _ => exact consistent.of_same alike.sameLocks
  | tick _ _ alike => exact consistent.of_same alike.sameLocks
  | handOver _ _ _ alike => exact consistent.of_same alike.sameLocks
  | ended _ _ _ _ _ alike _ => exact (consistent.retire _).of_same alike.sameLocks
  | interrupt _ _ _ _ _ alike => exact (consistent.retire _).of_same alike.sameLocks
  | stopAll _ _ alike =>
      exact (consistent.retireEach m.table.runningBackwards).of_same alike.sameLocks
  | seize _ claims _ alike =>
      rcases claims with ⟨rfl, rfl, _⟩ | ⟨rfl, _⟩
      · exact (consistent.seize_claims _).of_same alike.sameLocks
      · exact (consistent.seize_setClaims _ _).of_same alike.sameLocks
  | succeedLater _ _ => exact consistent.of_same (.deferHandOver _ _ _)
  | defer _ _ => exact consistent.of_same (.defer _ _ _)
  | enter _ _ => exact consistent.of_same (.enter _ _)
  | leave _ _ => exact consistent.of_same (.leave _ _)
  | drain _ _ => exact consistent.of_same (.setOwed _ _ _)
  | idle _ => exact consistent
  | proceed _ _ _ _ => exact consistent
  | succeedNow _ => exact consistent
  | call _ _ => exact consistent
  | pass _ _ => exact consistent
  | wait _ _ => exact consistent
  | turn _ _ => exact consistent

end Machine

end RobotControl
