import RobotControl.Proofs.Action.Ending

/-!
# What shows of the manager's work

`Machine.record` is the list of what shows of a number of steps: what is asked of the manager, which
devices an action needs, and which callbacks are entered and left; `Machine.Shows` says where each
note comes from.  `Machine.Goes` says that the manager comes from one machine to another with a
record.  Code that asks for nothing and comes to an end (`Routine.Tame`) shows nothing and leaves
the table alone (`Routine.Tame.lands`).
-/
set_option autoImplicit false

namespace RobotControl

variable {ε Ω σ β : Type}

inductive Note where
  /-- What is asked in a callback of an action, or outside all callbacks, and the answer. -/
  | asks (caller : Option ActionId) (r : Request) (answer : Bool)
  /-- An action that is to start says which devices it needs. -/
  | needs (a : ActionId) (ds : List DeviceId)
  | enters (a : ActionId) (cb : Callback)
  | leaves (a : ActionId) (cb : Callback) (failed : Bool)
  deriving DecidableEq, Repr

/-- What the manager answers at once. -/
def ActionTable.answer (t : ActionTable) : Request → Bool
  | .start a restart => !(t.isRunning a && !restart)
  | .stop a => t.isRunning a
  | .unbind trigger => t.isBound trigger
  | .stopAll | .tick | .poll | .bind _ _ => true

/-- The callback that a failure above the tasks makes fail. -/
def fallen (tasks : List (Task ε Ω σ)) : List Note :=
  (handler tasks).toList.map fun c => .leaves c.1 c.2 true

namespace Machine

/-- What shows of the next step. -/
def notes (h : Host ε Ω σ) (m : Machine ε Ω σ) : List Note :=
  match m.agenda with
  | .run (.ask r _) :: rest => [.asks (frames rest).head? r (m.table.answer r)]
  | .run (.panic _) :: rest => fallen rest
  | .run (.done (.error _)) :: .returned a cb :: _ => [.leaves a cb true]
  | .run (.done (.ok ())) :: .returned a cb :: _ =>
      .leaves a cb false ::
        if cb = .process ∧ m.table.isRunning a = true then [.enters a .proceed] else []
  | .launch a :: rest =>
      match m.demands h a with
      | .ok ds => if m.table.isBusy a then [] else [.needs a ds]
      | .error _ => fallen rest
  | .serve a .begin :: _ => [.enters a .begin]
  | .serve a .process :: _ => if m.table.isRunning a then [.enters a .process] else []
  | .serve a (.finish interrupted) :: _ => [.enters a (.finish interrupted)]
  | _ => []

/-- The ways in which a callback is left, and whether it has failed. -/
inductive Leaving (h : Host ε Ω σ) (m : Machine ε Ω σ) (a : ActionId) (cb : Callback) : Bool → Prop
  | well {rest : List (Task ε Ω σ)}
      (front : m.agenda = .run (.done (.ok ())) :: .returned a cb :: rest) : Leaving h m a cb false
  | failed {f : Fault} {rest : List (Task ε Ω σ)}
      (front : m.agenda = .run (.done (.error f)) :: .returned a cb :: rest) : Leaving h m a cb true
  | panicked {p : Panic} {rest : List (Task ε Ω σ)} (front : m.agenda = .run (.panic p) :: rest)
      (own : handler rest = some (a, cb)) : Leaving h m a cb true
  /-- An action that the callback has started fails to say what it needs. -/
  | refused {b : ActionId} {p : Panic} {rest : List (Task ε Ω σ)}
      (front : m.agenda = .launch b :: rest) (demands : m.demands h b = .error p)
      (own : handler rest = some (a, cb)) : Leaving h m a cb true

/-- Where a note comes from. -/
inductive Shows (h : Host ε Ω σ) (m : Machine ε Ω σ) : Note → Prop
  | asks {r : Request} {next : Bool → Routine ε Ω σ} {rest : List (Task ε Ω σ)}
      (front : m.agenda = .run (.ask r next) :: rest) :
      Shows h m (.asks (frames rest).head? r (m.table.answer r))
  | needs {a : ActionId} {ds : List DeviceId} {rest : List (Task ε Ω σ)}
      (front : m.agenda = .launch a :: rest) (demands : m.demands h a = .ok ds) :
      Shows h m (.needs a ds)
  | enters {a : ActionId} {cb : Callback} (enters : m.Enters a cb) : Shows h m (.enters a cb)
  | proceeds {a : ActionId} {rest : List (Task ε Ω σ)}
      (front : m.agenda = .run (.done (.ok ())) :: .returned a .process :: rest) :
      Shows h m (.enters a .proceed)
  | leaves {a : ActionId} {cb : Callback} {failed : Bool} (leaving : Leaving h m a cb failed) :
      Shows h m (.leaves a cb failed)

theorem handler_of_mem_fallen {tasks : List (Task ε Ω σ)} {note : Note}
    (falls : note ∈ fallen tasks) :
    ∃ a cb, note = .leaves a cb true ∧ handler tasks = some (a, cb) := by
  unfold fallen at falls
  obtain ⟨⟨a, cb⟩, caught, rfl⟩ := List.mem_map.mp falls
  exact ⟨a, cb, rfl, by simpa using caught⟩

theorem shows_of_mem {h : Host ε Ω σ} {m : Machine ε Ω σ} {note : Note}
    (member : note ∈ m.notes h) : Shows h m note := by
  unfold notes at member
  split at member
  · next front =>
      cases List.mem_singleton.mp member
      exact .asks front
  · next front =>
      obtain ⟨a, cb, rfl, own⟩ := handler_of_mem_fallen member
      exact .leaves (.panicked front own)
  · next front =>
      cases List.mem_singleton.mp member
      exact .leaves (.failed front)
  · next front =>
      rcases List.mem_cons.mp member with rfl | proceeds
      · exact .leaves (.well front)
      · split at proceeds
        · next asked =>
            cases List.mem_singleton.mp proceeds
            obtain ⟨rfl, _⟩ := asked
            exact .proceeds front
        · cases proceeds
  · next front =>
      split at member
      · next demands =>
          split at member
          · cases member
          · cases List.mem_singleton.mp member
            exact .needs front demands
      · next demands =>
          obtain ⟨a, cb, rfl, own⟩ := handler_of_mem_fallen member
          exact .leaves (.refused front demands own)
  · next front =>
      cases List.mem_singleton.mp member
      exact .enters (.begin front)
  · next front =>
      split at member
      · next runs =>
          cases List.mem_singleton.mp member
          exact .enters (.process front runs)
      · cases member
  · next front =>
      cases List.mem_singleton.mp member
      exact .enters (.finish front)
  · cases member

theorem leaving_of_mem {h : Host ε Ω σ} {m : Machine ε Ω σ} {a : ActionId} {cb : Callback}
    {failed : Bool} (left : .leaves a cb failed ∈ m.notes h) : Leaving h m a cb failed := by
  cases shows_of_mem left with
  | leaves leaving => exact leaving

/-- What shows of so many steps, the first note first. -/
def record (h : Host ε Ω σ) : Nat → Machine ε Ω σ → List Note
  | 0, _ => []
  | n + 1, m => m.notes h ++ record h n (m.step h)

def Goes (h : Host ε Ω σ) (m : Machine ε Ω σ) (log : List Note) (m' : Machine ε Ω σ) : Prop :=
  ∃ n, m.steps h n = m' ∧ m.record h n = log

section Goes

variable {h : Host ε Ω σ} {m m' m'' : Machine ε Ω σ} {log log' : List Note}
  {rest : List (Task ε Ω σ)}

theorem Goes.refl : Goes h m [] m := ⟨0, rfl, rfl⟩

theorem Goes.one (h : Host ε Ω σ) (m : Machine ε Ω σ) : Goes h m (m.notes h) (m.step h) :=
  ⟨1, rfl, List.append_nil _⟩

theorem steps_add (n k : Nat) (m : Machine ε Ω σ) :
    m.steps h (n + k) = (m.steps h n).steps h k := by
  induction n generalizing m with
  | zero => rw [Nat.zero_add]; rfl
  | succ n ih => rw [Nat.succ_add]; exact ih (m.step h)

theorem record_add (n k : Nat) (m : Machine ε Ω σ) :
    m.record h (n + k) = m.record h n ++ (m.steps h n).record h k := by
  induction n generalizing m with
  | zero => rw [Nat.zero_add]; rfl
  | succ n ih =>
      rw [Nat.succ_add]
      show m.notes h ++ (m.step h).record h (n + k) = _
      rw [ih (m.step h), ← List.append_assoc]
      rfl

theorem Goes.trans (first : Goes h m log m') (second : Goes h m' log' m'') :
    Goes h m (log ++ log') m'' := by
  obtain ⟨n, rfl, rfl⟩ := first
  obtain ⟨k, rfl, rfl⟩ := second
  exact ⟨n + k, steps_add n k m, record_add n k m⟩

theorem Goes.after (step : m.step h = m') (second : Goes h m' log m'') :
    Goes h m (m.notes h ++ log) m'' := (Goes.one h m).trans (step ▸ second)

theorem Goes.silently (silent : m.notes h = []) (step : m.step h = m')
    (second : Goes h m' log m'') : Goes h m log m'' := by
  have goes := Goes.after step second
  rwa [silent] at goes

end Goes

end Machine

/-! ### Code that keeps to itself -/

/-- Code that asks the manager for nothing and comes to an end, whatever its effects answer.  Its
notes leave a view of the application's state as it is. -/
inductive Routine.Tame (h : Host ε Ω σ) (view : σ → β) : Routine ε Ω σ → Prop
  | done (o : Except Fault Unit) : Tame h view (.done o)
  | panic (p : Panic) : Tame h view (.panic p)
  | act {e : ε} {next : Except Fault Unit → Routine ε Ω σ}
      (answer : ∀ t w, Tame h view (h.perform e t w).2) (more : ∀ o, Tame h view (next o)) :
      Tame h view (.act e next)
  | look {next : ActionTable → Ω → σ → Routine ε Ω σ}
      (more : ∀ t w own, Tame h view (next t w own)) : Tame h view (.look next)
  | note {change : σ → σ} {next : Routine ε Ω σ} (keeps : ∀ own, view (change own) = view own)
      (more : Tame h view next) : Tame h view (.note change next)
  | attempt {body : Routine ε Ω σ} {next : Except Failure Unit → Routine ε Ω σ}
      (tame : Tame h view body) (more : ∀ o, Tame h view (next o)) :
      Tame h view (.attempt body next)

/-- Code that ends at once in a given way. -/
def Routine.ending : Except Failure Unit → Routine ε Ω σ
  | .ok () => .done (.ok ())
  | .error (.fault f) => .done (.error f)
  | .error (.panic p) => .panic p

namespace Machine

variable {h : Host ε Ω σ} {view : σ → β}

theorem unwind_todo (f : Failure) (tasks front : List (Task ε Ω σ)) (m : Machine ε Ω σ) :
    (m.todo front).unwind h f tasks = m.unwind h f tasks := by
  induction tasks generalizing m with
  | nil => rfl
  | cons t rest ih =>
      cases t with
      | caught next => rfl
      | returned a cb => cases cb <;> rfl
      | letGo as => exact ih { m with table := m.table.letGo as }
      | _ => exact ih m

/-- At the end of its code: nothing else has changed but the world and what the application keeps
for itself out of view. -/
structure Ends (view : σ → β) (m : Machine ε Ω σ) (o : Except Failure Unit)
    (rest : List (Task ε Ω σ)) (m' : Machine ε Ω σ) : Prop where
  agenda : m'.agenda = .run (.ending o) :: rest
  table : m'.table = m.table
  own : view m'.own = view m.own
  unhandled : m'.unhandled = m.unhandled

variable {m m₁ : Machine ε Ω σ} {rest : List (Task ε Ω σ)} {o : Except Failure Unit}

theorem goes_act {e : ε} {next : Except Fault Unit → Routine ε Ω σ}
    (front : m.agenda = .run (.act e next) :: rest) : Goes h m [] { m with
      world := (h.perform e m.table m.world).1
      agenda := .run (h.perform e m.table m.world).2 :: .bound next :: rest } := by
  have silent : m.notes h = [] := by simp only [notes, front]
  exact .silently silent (by simp only [Machine.step, front, runRoutine]) .refl

theorem goes_look {next : ActionTable → Ω → σ → Routine ε Ω σ}
    (front : m.agenda = .run (.look next) :: rest) :
    Goes h m [] (m.todo (.run (next m.table m.world m.own) :: rest)) := by
  have silent : m.notes h = [] := by simp only [notes, front]
  exact .silently silent (by simp only [Machine.step, front, runRoutine]) .refl

theorem goes_note {change : σ → σ} {next : Routine ε Ω σ}
    (front : m.agenda = .run (.note change next) :: rest) :
    Goes h m [] { m with own := change m.own, agenda := .run next :: rest } := by
  have silent : m.notes h = [] := by simp only [notes, front]
  exact .silently silent (by simp only [Machine.step, front, runRoutine]) .refl

theorem goes_attempt {body : Routine ε Ω σ} {next : Except Failure Unit → Routine ε Ω σ}
    (front : m.agenda = .run (.attempt body next) :: rest) :
    Goes h m [] (m.todo (.run body :: .caught next :: rest)) := by
  have silent : m.notes h = [] := by simp only [notes, front]
  exact .silently silent (by simp only [Machine.step, front, runRoutine]) .refl

theorem Ends.caught {next : Except Failure Unit → Routine ε Ω σ}
    (ends : Ends view m o (.caught next :: rest) m₁) :
    m₁.notes h = [] ∧ m₁.step h = m₁.todo (.run (next o) :: rest) := by
  have agenda := ends.agenda
  cases o with
  | ok =>
      simp [notes, Machine.step, agenda, Routine.ending, runRoutine, finishRoutine,
        Except.mapError]
  | error f =>
      cases f with
      | fault f =>
          simp [notes, Machine.step, agenda, Routine.ending, runRoutine, finishRoutine,
            Except.mapError]
      | panic p =>
          simp [notes, Machine.step, agenda, Routine.ending, runRoutine, unwind, fallen, handler]

/-- What an effect answers goes to the code that waits for it; a panic passes over that. -/
theorem Ends.bound {next : Except Fault Unit → Routine ε Ω σ}
    (ends : Ends view m o (.bound next :: rest) m₁) :
    (∃ answer, m₁.notes h = [] ∧ m₁.step h = m₁.todo (.run (next answer) :: rest)) ∨
      ∃ m', Ends view m o rest m' ∧ m'.notes h = m₁.notes h ∧ m'.step h = m₁.step h := by
  have agenda := ends.agenda
  cases o with
  | ok =>
      refine .inl ⟨.ok (), ?_, ?_⟩
      · simp only [notes, agenda, Routine.ending]
      · simp only [Machine.step, agenda, Routine.ending, runRoutine, finishRoutine]
  | error f =>
      cases f with
      | fault f =>
          refine .inl ⟨.error f, ?_, ?_⟩
          · simp only [notes, agenda, Routine.ending]
          · simp only [Machine.step, agenda, Routine.ending, runRoutine, finishRoutine]
      | panic p =>
          refine .inr ⟨m₁.todo (.run (.panic p) :: rest),
            ⟨rfl, ends.table, ends.own, ends.unhandled⟩, ?_, ?_⟩
          · simp only [notes, todo, agenda, Routine.ending, fallen, handler]
          · simp only [Machine.step, agenda, Routine.ending, runRoutine]
            exact unwind_todo ..

end Machine

open Machine in
theorem Routine.Tame.lands {h : Host ε Ω σ} {view : σ → β} {r : Routine ε Ω σ}
    (tame : r.Tame h view) (m : Machine ε Ω σ) {rest : List (Task ε Ω σ)}
    (front : m.agenda = .run r :: rest) :
    ∃ m' o, Ends view m o rest m' ∧ Goes h m (m'.notes h) (m'.step h) := by
  induction tame generalizing m rest with
  | done o =>
      cases o with
      | ok => exact ⟨m, .ok (), ⟨front, rfl, rfl, rfl⟩, .one h m⟩
      | error f => exact ⟨m, .error (.fault f), ⟨front, rfl, rfl, rfl⟩, .one h m⟩
  | panic p => exact ⟨m, .error (.panic p), ⟨front, rfl, rfl, rfl⟩, .one h m⟩
  | @act e next answer more ihAnswer ih =>
      obtain ⟨m₁, o, ends, goes⟩ := ihAnswer m.table m.world { m with
        world := (h.perform e m.table m.world).1
        agenda := .run (h.perform e m.table m.world).2 :: .bound next :: rest } rfl
      have goes : Goes h m (m₁.notes h) (m₁.step h) := (goes_act front).trans goes
      rcases ends.bound (h := h) with ⟨o', silent, step⟩ | ⟨m', ends', notes, step⟩
      · rw [silent, step] at goes
        obtain ⟨m', o, ends', goes'⟩ := ih o' (m₁.todo (.run (next o') :: rest)) rfl
        exact ⟨m', o, ⟨ends'.agenda, ends'.table.trans ends.table, ends'.own.trans ends.own,
          ends'.unhandled.trans ends.unhandled⟩, goes.trans goes'⟩
      · rw [← notes, ← step] at goes
        exact ⟨m', o, ⟨ends'.agenda, ends'.table, ends'.own, ends'.unhandled⟩, goes⟩
  | @look next more ih =>
      obtain ⟨m', o, ends, goes⟩ := ih m.table m.world m.own
        (m.todo (.run (next m.table m.world m.own) :: rest)) rfl
      exact ⟨m', o, ⟨ends.agenda, ends.table, ends.own, ends.unhandled⟩,
        (goes_look front).trans goes⟩
  | @note change next keeps more ih =>
      obtain ⟨m', o, ends, goes⟩ := ih
        { m with own := change m.own, agenda := .run next :: rest } rfl
      exact ⟨m', o, ⟨ends.agenda, ends.table, ends.own.trans (keeps m.own), ends.unhandled⟩,
        (goes_note front).trans goes⟩
  | @attempt body next tame more ihBody ih =>
      obtain ⟨m₁, o, ends, goes⟩ := ihBody (m.todo (.run body :: .caught next :: rest)) rfl
      have goes : Goes h m (m₁.notes h) (m₁.step h) := (goes_attempt front).trans goes
      obtain ⟨silent, step⟩ := ends.caught (h := h)
      rw [silent, step] at goes
      obtain ⟨m', o', ends', goes'⟩ := ih o (m₁.todo (.run (next o) :: rest)) rfl
      exact ⟨m', o', ⟨ends'.agenda, ends'.table.trans ends.table, ends'.own.trans ends.own,
        ends'.unhandled.trans ends.unhandled⟩, goes.trans goes'⟩

end RobotControl
