import RobotControl.Proofs.Action.Notes

/-!
# Callbacks from beginning to end

What a task on the agenda comes to when the callbacks of its actions are tame: `Machine.Comes` says
that the tasks below are reached with a record and a table.  Tables are compared by what they say
of each action (`ActionTable.Agrees`).
-/
set_option autoImplicit false

namespace RobotControl

variable {ε Ω σ β : Type}

namespace ActionTable

theorem entry_retire (t : ActionTable) (a b : ActionId) : (t.retire a).entry b =
    if a = b then { t.entry a with phase := .finished } else t.entry b :=
  entry_update t a b fun e => { e with phase := .finished }

/-- Two tables that say the same of every action and device. -/
structure Agrees (t t' : ActionTable) : Prop where
  entry : ∀ a, t'.entry a = t.entry a
  running : t'.running = t.running
  locks : t'.locks = t.locks

namespace Agrees

variable {t t' t'' : ActionTable}

theorem refl (t : ActionTable) : t.Agrees t := ⟨fun _ => rfl, rfl, rfl⟩

theorem trans (first : t.Agrees t') (second : t'.Agrees t'') : t.Agrees t'' where
  entry a := (second.entry a).trans (first.entry a)
  running := second.running.trans first.running
  locks := second.locks.trans first.locks

theorem of_alike (alike : t.Alike t') : t.Agrees t' := ⟨alike.entry, alike.running, alike.locks⟩

theorem phase (agrees : t.Agrees t') (a : ActionId) : t'.phase a = t.phase a :=
  congrArg Entry.phase (agrees.entry a)

theorem isRunning (agrees : t.Agrees t') (a : ActionId) : t'.isRunning a = t.isRunning a := by
  rw [ActionTable.isRunning, ActionTable.isRunning, agrees.phase]

theorem isBusy (agrees : t.Agrees t') (a : ActionId) : t'.isBusy a = t.isBusy a :=
  congrArg Entry.busy (agrees.entry a)

theorem owed (agrees : t.Agrees t') (a : ActionId) : t'.owed a = t.owed a :=
  congrArg Entry.owed (agrees.entry a)

theorem owner (agrees : t.Agrees t') (d : DeviceId) : t'.owner d = t.owner d := by
  rw [ActionTable.owner, ActionTable.owner, agrees.locks]

theorem update (agrees : t.Agrees t') (a : ActionId) (f : Entry → Entry) :
    (t.update a f).Agrees (t'.update a f) where
  entry b := by rw [entry_update, entry_update, agrees.entry, agrees.entry]
  running := agrees.running
  locks := agrees.locks

theorem setClaims (agrees : t.Agrees t') (a : ActionId) (ds : List DeviceId) :
    (t.setClaims a ds).Agrees (t'.setClaims a ds) := agrees.update a _

theorem leave (agrees : t.Agrees t') (a : ActionId) : (t.leave a).Agrees (t'.leave a) :=
  agrees.update a _

theorem retire (agrees : t.Agrees t') (a : ActionId) : (t.retire a).Agrees (t'.retire a) where
  entry := (agrees.update a fun e => { e with phase := .finished }).entry
  running := by rw [running_retire, running_retire, agrees.running]
  locks := congrArg (Assoc.filter · fun _ o => o ≠ a) agrees.locks

theorem retireEach (agrees : t.Agrees t') (as : List ActionId) :
    (as.foldl ActionTable.retire t).Agrees (as.foldl ActionTable.retire t') := by
  induction as generalizing t t' with
  | nil => exact agrees
  | cons a rest ih => exact ih (agrees.retire a)

theorem holders (agrees : t.Agrees t') (a : ActionId) (ds : List DeviceId) :
    t'.holders a ds = t.holders a ds := by
  unfold ActionTable.holders
  rw [agrees.running, show t'.owner = t.owner from funext agrees.owner]

theorem lock (agrees : t.Agrees t') (a : ActionId) (ds : List DeviceId) :
    (t.lock a ds).Agrees (t'.lock a ds) where
  entry := agrees.entry
  running := agrees.running
  locks := by
    unfold ActionTable.lock
    rw [agrees.locks]

theorem seize (agrees : t.Agrees t') (a : ActionId) (ds : List DeviceId) :
    (t.seize a ds).Agrees (t'.seize a ds) := by
  have started := ((agrees.retireEach (t.holders a ds)).update a
    fun e => { e with phase := .running }).lock a ds
  unfold ActionTable.seize
  rw [agrees.holders]
  exact ⟨started.entry, congrArg (· ++ [a]) started.running, started.locks⟩

theorem leave_enter {a : ActionId} (free : t.isBusy a = false) (agrees : (t.enter a).Agrees t') :
    t.Agrees (t'.leave a) where
  entry b := by
    rw [ActionTable.leave, entry_update, agrees.entry, agrees.entry, ActionTable.enter,
      entry_update, entry_update]
    by_cases same : a = b
    · subst same
      simp only [if_true]
      exact congrArg (fun busy => { t.entry a with busy := busy }) free.symm
    · simp [same]
  running := agrees.running
  locks := agrees.locks

end Agrees

end ActionTable

/-- The callbacks of the action are tame. -/
def Host.Tames (h : Host ε Ω σ) (view : σ → β) (a : ActionId) : Prop :=
  ∀ cb, (h.routine a cb).Tame h view

namespace ActionTable

/-- The action is inside no callback and owes none. -/
def Free (t : ActionTable) (a : ActionId) : Prop := t.isBusy a = false ∧ t.owed a = []

theorem Free.congr {t t' : ActionTable} {a : ActionId} (free : t.Free a)
    (same : t'.isBusy a = t.isBusy a ∧ t'.owed a = t.owed a) : t'.Free a :=
  ⟨same.1.trans free.1, same.2.trans free.2⟩

theorem Free.agrees {t t' : ActionTable} {a : ActionId} (free : t.Free a) (same : t.Agrees t') :
    t'.Free a := free.congr ⟨same.isBusy a, same.owed a⟩

end ActionTable

namespace Machine

variable {h : Host ε Ω σ} {view : σ → β} {m : Machine ε Ω σ} {rest : List (Task ε Ω σ)}
  {a : ActionId} {t : ActionTable} {log log' : List Note}

/-- The machine comes to the tasks below with a record and a table, and what the application keeps
for itself has changed out of view at most. -/
def Comes (h : Host ε Ω σ) (view : σ → β) (m : Machine ε Ω σ) (log : List Note)
    (t : ActionTable) (rest : List (Task ε Ω σ)) : Prop :=
  ∃ m', Goes h m log m' ∧ m'.agenda = rest ∧ t.Agrees m'.table ∧ view m'.own = view m.own ∧
    m'.unhandled = m.unhandled

theorem Comes.refl (front : m.agenda = rest) : Comes h view m [] m.table rest :=
  ⟨m, .refl, front, .refl _, rfl, rfl⟩

theorem Comes.trans {t' : ActionTable} {rest' : List (Task ε Ω σ)}
    (first : Comes h view m log t rest)
    (second : ∀ m' : Machine ε Ω σ, m'.agenda = rest → t.Agrees m'.table →
      view m'.own = view m.own → Comes h view m' log' t' rest') :
    Comes h view m (log ++ log') t' rest' := by
  obtain ⟨m', goes, agenda, agrees, own, unhandled⟩ := first
  obtain ⟨m'', goes', agenda', agrees', own', unhandled'⟩ := second m' agenda agrees own
  exact ⟨m'', goes.trans goes', agenda', agrees', own'.trans own, unhandled'.trans unhandled⟩

theorem Comes.agrees {t' : ActionTable} (comes : Comes h view m log t rest)
    (same : t'.Agrees t) : Comes h view m log t' rest := by
  obtain ⟨m', goes, agenda, agrees, own, unhandled⟩ := comes
  exact ⟨m', goes, agenda, same.trans agrees, own, unhandled⟩

theorem Comes.goes {m' : Machine ε Ω σ} (comes : Comes h view m' log' t rest)
    (goes : Goes h m log m') (own : view m'.own = view m.own)
    (unhandled : m'.unhandled = m.unhandled) : Comes h view m (log ++ log') t rest := by
  obtain ⟨m'', goes', agenda, agrees, own', unhandled'⟩ := comes
  exact ⟨m'', goes.trans goes', agenda, agrees, own'.trans own, unhandled'.trans unhandled⟩

theorem Comes.after {m' : Machine ε Ω σ} (comes : Comes h view m' log t rest)
    (step : m.step h = m') (own : view m'.own = view m.own)
    (unhandled : m'.unhandled = m.unhandled) : Comes h view m (m.notes h ++ log) t rest :=
  comes.goes (step ▸ Goes.one h m) own unhandled

theorem Comes.silently {m' : Machine ε Ω σ} (comes : Comes h view m' log t rest)
    (silent : m.notes h = []) (step : m.step h = m') (own : view m'.own = view m.own)
    (unhandled : m'.unhandled = m.unhandled) : Comes h view m log t rest := by
  have after := comes.after step own unhandled
  rwa [silent] at after

/-! ### The end of a callback -/

section Ends

variable {m' : Machine ε Ω σ} {cb : Callback}

theorem Ends.failed {f : Failure} (ends : Ends view m (.error f) (.returned a cb :: rest) m') :
    m'.notes h = [.leaves a cb true] ∧ m'.step h = m'.returnFailed h a rest f cb := by
  have agenda := ends.agenda
  cases f with
  | fault f => simp [notes, Machine.step, agenda, Routine.ending, runRoutine, finishRoutine]
  | panic p =>
      simp [notes, Machine.step, agenda, Routine.ending, runRoutine, unwind, fallen, handler]

theorem Ends.well (ends : Ends view m (.ok ()) (.returned a cb :: rest) m') :
    m'.notes h = .leaves a cb false ::
        (if cb = .process ∧ m.table.isRunning a = true then [.enters a .proceed] else []) ∧
      m'.step h = m'.returnWell h a rest cb := by
  have agenda := ends.agenda
  simp [notes, Machine.step, agenda, Routine.ending, runRoutine, finishRoutine, ends.table]

end Ends

/-- A callback from its entry to its return. -/
def visit (a : ActionId) (cb : Callback) (failed : Bool) : List Note :=
  [.enters a cb, .leaves a cb failed]

def called (h : Host ε Ω σ) (m : Machine ε Ω σ) (a : ActionId) (cb : Callback)
    (rest : List (Task ε Ω σ)) : Machine ε Ω σ :=
  m.todo (.run (h.routine a cb) :: .returned a cb :: rest)

theorem comes_called_finish {interrupted : Bool}
    (tame : h.Tames view a) :
    ∃ failed, Comes h view (m.called h a (.finish interrupted) rest)
      [.leaves a (.finish interrupted) failed] m.table rest := by
  obtain ⟨m', o, ends, goes⟩ := (tame _).lands (m.called h a (.finish interrupted) rest) rfl
  cases o with
  | ok =>
      obtain ⟨notes, step⟩ := ends.well (h := h)
      refine ⟨false, m'.step h, notes ▸ goes, ?_⟩
      rw [step]
      exact ⟨rfl, ends.table ▸ .refl _, ends.own, ends.unhandled⟩
  | error f =>
      obtain ⟨notes, step⟩ := ends.failed (h := h)
      refine ⟨true, m'.step h, notes ▸ goes, ?_⟩
      rw [step]
      exact ⟨rfl, ends.table ▸ .refl _, ends.own, ends.unhandled⟩

theorem comes_serve_finish {interrupted : Bool} (tame : h.Tames view a)
    (front : m.agenda = .serve a (.finish interrupted) :: rest) :
    ∃ failed, Comes h view m (visit a (.finish interrupted) failed) m.table rest := by
  have step : m.step h = m.called h a (.finish interrupted) rest := by
    simp only [Machine.step, front, serve, called]
  have shown : m.notes h = [.enters a (.finish interrupted)] := by simp only [notes, front]
  obtain ⟨failed, comes⟩ := comes_called_finish (m := m) tame
  refine ⟨failed, ?_⟩
  have after := comes.after step rfl rfl
  rwa [shown] at after

theorem comes_drain (front : m.agenda = .drain a :: rest) (owed : m.table.owed a = []) :
    Comes h view m [] (m.table.leave a) rest := by
  have step : m.step h = { m with table := m.table.leave a, agenda := rest } := by
    simp only [Machine.step, front, owed]
  have silent : m.notes h = [] := by simp only [notes, front]
  exact (Comes.refl (m := { m with table := m.table.leave a, agenda := rest }) rfl).silently
    silent step rfl rfl

theorem comes_invoke {d : Deferred} (front : m.agenda = .invoke a d :: rest)
    (free : m.table.isBusy a = false)
    (comes : Comes h view
      { m with table := m.table.enter a, agenda := .serve a d :: .drain a :: rest } log t
        (.drain a :: rest)) (owed : t.owed a = []) :
    Comes h view m log (t.leave a) rest := by
  have step : m.step h =
      { m with table := m.table.enter a, agenda := .serve a d :: .drain a :: rest } := by
    simp only [Machine.step, front, free]
    rfl
  have silent : m.notes h = [] := by simp only [notes, front]
  have served := comes.silently silent step rfl rfl
  rw [← List.append_nil log]
  refine served.trans fun m' agenda agrees _ => ?_
  exact (comes_drain agenda ((agrees.owed a).trans owed)).agrees (agrees.leave a)

theorem comes_finish {interrupted : Bool} (tame : h.Tames view a)
    (front : m.agenda = .invoke a (.finish interrupted) :: rest) (free : m.table.Free a) :
    ∃ failed, Comes h view m (visit a (.finish interrupted) failed) m.table rest := by
  obtain ⟨failed, comes⟩ := comes_serve_finish (m := { m with
    table := m.table.enter a
    agenda := .serve a (.finish interrupted) :: .drain a :: rest }) tame rfl
  refine ⟨failed, ?_⟩
  have left := comes_invoke front free.1 comes ((ActionTable.owed_enter ..).trans free.2)
  exact left.agrees (.leave_enter free.1 (.refl _))

/-! ### Callbacks of a running action -/

/-- The table once the run of an action is over, if it is. -/
def retiredIf (t : ActionTable) (a : ActionId) (ended : Bool) : ActionTable :=
  if ended then t.retire a else t

theorem agrees_retiredIf {t t' : ActionTable} (agrees : t.Agrees t') (ended : Bool) :
    (retiredIf t a ended).Agrees (retiredIf t' a ended) := by
  cases ended with
  | false => exact agrees
  | true => exact agrees.retire a

/-- A callback that fails ends the run of its action, which finishes as interrupted. -/
theorem comes_failed {m' : Machine ε Ω σ} {cb : Callback} {f : Failure}
    (tame : h.Tames view a) (goes : Goes h m (m'.notes h) (m'.step h))
    (ends : Ends view m (.error f) (.returned a cb :: rest) m') (early : cb.isLast = false)
    (runs : m.table.isRunning a = true) :
    ∃ last, Comes h view m (.leaves a cb true :: visit a (.finish true) last)
      (m.table.retire a) rest := by
  obtain ⟨notes, step⟩ := ends.failed (h := h)
  rw [← ends.table] at runs
  have agenda := agenda_returnFailed (h := h) runs rest f early
  have fields : (m'.returnFailed h a rest f cb).table = m'.table.retire a ∧
      (m'.returnFailed h a rest f cb).own = m'.own ∧
        (m'.returnFailed h a rest f cb).unhandled = m'.unhandled := by
    cases cb with
    | finish _ => cases early
    | _ => simp [returnFailed, runs]
  obtain ⟨last, comes⟩ := comes_serve_finish tame agenda
  rw [fields.1, ends.table] at comes
  rw [notes, step] at goes
  exact ⟨last, comes.goes goes ((congrArg view fields.2.1).trans ends.own)
    (fields.2.2.trans ends.unhandled)⟩

/-- A begin, and the finish that follows if it fails. -/
def beginning (a : ActionId) (failed last : Bool) : List Note :=
  visit a .begin failed ++ if failed then visit a (.finish true) last else []

theorem comes_serve_begin (tame : h.Tames view a)
    (front : m.agenda = .serve a .begin :: rest) (runs : m.table.isRunning a = true) :
    ∃ failed last, Comes h view m (beginning a failed last) (retiredIf m.table a failed) rest := by
  have step : m.step h = m.called h a .begin rest := by
    simp only [Machine.step, front, serve, called]
  have shown : m.notes h = [.enters a .begin] := by simp only [notes, front]
  obtain ⟨m', o, ends, goes⟩ := (tame _).lands (m.called h a .begin rest) rfl
  cases o with
  | ok =>
      obtain ⟨notes, step'⟩ := ends.well (h := h)
      rw [notes, step'] at goes
      have comes : Comes h view (m.called h a .begin rest) [.leaves a .begin false] m.table rest :=
        ⟨m'.todo rest, goes, rfl, ends.table ▸ .refl _, ends.own, ends.unhandled⟩
      refine ⟨false, false, ?_⟩
      have after := comes.after step rfl rfl
      rwa [shown] at after
  | error f =>
      obtain ⟨last, comes⟩ := comes_failed tame goes ends rfl runs
      refine ⟨true, last, ?_⟩
      have after := comes.after step rfl rfl
      rwa [shown] at after

theorem owed_retiredIf (t : ActionTable) (a b : ActionId) (ended : Bool) :
    (retiredIf t a ended).owed b = t.owed b := by
  cases ended with
  | false => rfl
  | true => exact (sameCalls_retireEach t [a] b).2

theorem agrees_retiredIf_leave {t : ActionTable} (free : t.isBusy a = false) (ended : Bool) :
    (retiredIf t a ended).Agrees ((retiredIf (t.enter a) a ended).leave a) := by
  cases ended with
  | false => exact .leave_enter free (.refl _)
  | true =>
      refine ⟨fun b => ?_, rfl, rfl⟩
      have left : ((retiredIf (t.enter a) a true).leave a).entry b = if a = b then
          { ((t.enter a).retire a).entry a with busy := false }
        else ((t.enter a).retire a).entry b := ActionTable.entry_update ..
      have entered : ∀ c, (t.enter a).entry c =
          if a = c then { t.entry a with busy := true } else t.entry c :=
        fun c => ActionTable.entry_update ..
      rw [left, ActionTable.entry_retire, ActionTable.entry_retire, entered, entered]
      show _ = (t.retire a).entry b
      rw [ActionTable.entry_retire]
      by_cases same : a = b
      · simp only [same, if_true, Entry.mk.injEq, true_and, and_true]
        exact same ▸ free.symm
      · simp [same]

theorem comes_begin (tame : h.Tames view a)
    (front : m.agenda = .invoke a .begin :: rest) (free : m.table.Free a)
    (runs : m.table.isRunning a = true) :
    ∃ failed last, Comes h view m (beginning a failed last) (retiredIf m.table a failed) rest := by
  have runs' : (m.table.enter a).isRunning a = true :=
    ((ActionTable.SameLocks.enter m.table a).isRunning a).trans runs
  obtain ⟨failed, last, comes⟩ := comes_serve_begin (m := { m with
    table := m.table.enter a, agenda := .serve a .begin :: .drain a :: rest }) tame rfl runs'
  refine ⟨failed, last, ?_⟩
  have left := comes_invoke front free.1 comes ?_
  · exact left.agrees (agrees_retiredIf_leave free.1 failed)
  · rw [owed_retiredIf, ActionTable.owed_enter, free.2]

/-- What shows of the work of a running action, apart from its end. -/
def working (a : ActionId) (n : Note) : Prop :=
  ∃ cb, (cb = .process ∨ cb = .proceed) ∧ (n = .enters a cb ∨ ∃ failed, n = .leaves a cb failed)

/-- The end of a run, if there is one. -/
def ending (a : ActionId) : Option (Bool × Bool) → List Note
  | none => []
  | some (interrupted, failed) => visit a (.finish interrupted) failed

theorem comes_called_proceed (tame : h.Tames view a) (runs : m.table.isRunning a = true)
    (rest : List (Task ε Ω σ)) :
    ∃ log ended, (∀ n ∈ log, working a n) ∧
      Comes h view (m.called h a .proceed rest) (log ++ ending a ended)
        (retiredIf m.table a ended.isSome) rest := by
  obtain ⟨m', o, ends, goes⟩ := (tame _).lands (m.called h a .proceed rest) rfl
  have shows : ∀ failed, ∀ n ∈ [Note.leaves a .proceed failed], working a n := by
    intro failed n listed
    exact ⟨.proceed, .inr rfl, .inr ⟨failed, List.mem_singleton.mp listed⟩⟩
  cases o with
  | ok =>
      obtain ⟨notes, step⟩ := ends.well (h := h)
      have notes' : m'.notes h = [.leaves a .proceed false] := notes
      rw [notes', step] at goes
      by_cases more : h.wantsMore m'.own a = true
      · have stays : m'.returnWell h a rest .proceed = m'.todo rest := by
          simp [returnWell, more]
        rw [stays] at goes
        exact ⟨_, none, shows false, m'.todo rest, goes, rfl, ends.table ▸ .refl _, ends.own,
          ends.unhandled⟩
      · have runs' : m'.table.isRunning a = true := ends.table ▸ runs
        have ended : m'.returnWell h a rest .proceed =
            { m' with table := m'.table.retire a, agenda := .serve a (.finish false) :: rest } := by
          simp [returnWell, more, runs']
        rw [ended] at goes
        obtain ⟨last, comes⟩ := comes_serve_finish (m := { m' with
          table := m'.table.retire a, agenda := .serve a (.finish false) :: rest }) tame rfl
        have retired : m'.table.retire a = m.table.retire a := congrArg (·.retire a) ends.table
        exact ⟨_, some (false, last), shows false,
          (comes.agrees (retired ▸ .refl _)).goes goes ends.own ends.unhandled⟩
  | error f =>
      obtain ⟨last, comes⟩ := comes_failed tame goes ends rfl runs
      exact ⟨_, some (true, last), shows true, comes⟩

theorem comes_serve_process (tame : h.Tames view a) (front : m.agenda = .serve a .process :: rest)
    (runs : m.table.isRunning a = true) :
    ∃ log ended, (∀ n ∈ log, working a n) ∧
      Comes h view m (log ++ ending a ended) (retiredIf m.table a ended.isSome) rest := by
  have step : m.step h = m.called h a .process rest := by
    simp only [Machine.step, front, serve, runs, called, if_true]
  have shown : m.notes h = [.enters a .process] := by simp only [notes, front, runs, if_true]
  have enters : working a (.enters a .process) := ⟨.process, .inl rfl, .inl rfl⟩
  have leaves : ∀ failed, working a (.leaves a .process failed) := fun failed =>
    ⟨.process, .inl rfl, .inr ⟨failed, rfl⟩⟩
  obtain ⟨m', o, ends, goes⟩ := (tame _).lands (m.called h a .process rest) rfl
  cases o with
  | ok =>
      obtain ⟨notes, step'⟩ := ends.well (h := h)
      have notes' : m'.notes h = [.leaves a .process false, .enters a .proceed] := by
        simpa [called, todo, runs] using notes
      have runs' : m'.table.isRunning a = true := ends.table ▸ runs
      have goesOn : m'.returnWell h a rest .process = m'.called h a .proceed rest := by
        simp only [returnWell, runs', if_true, called]
      rw [notes', step', goesOn] at goes
      obtain ⟨log, ended, all, comes⟩ := comes_called_proceed tame runs' rest
      rw [ends.table] at comes
      have after := (comes.goes goes ends.own ends.unhandled).after step rfl rfl
      rw [shown] at after
      refine ⟨.enters a .process :: .leaves a .process false :: .enters a .proceed :: log, ended,
        ?_, after⟩
      simp only [List.forall_mem_cons]
      exact ⟨enters, leaves false, ⟨.proceed, .inr rfl, .inl rfl⟩, all⟩
  | error f =>
      obtain ⟨last, comes⟩ := comes_failed tame goes ends rfl runs
      have after := comes.after step rfl rfl
      rw [shown] at after
      refine ⟨[.enters a .process, .leaves a .process true], some (true, last), ?_, after⟩
      simp only [List.forall_mem_cons]
      exact ⟨enters, leaves true, fun _ none => by cases none⟩

/-- The turn of a tame action, whether it still runs or not. -/
theorem comes_turn (tame : h.Tames view a) (front : m.agenda = .turn a :: rest)
    (free : m.table.Free a) :
    ∃ log ended, (∀ n ∈ log, working a n) ∧ (ended.isSome = true → m.table.isRunning a = true) ∧
      Comes h view m (log ++ ending a ended) (retiredIf m.table a ended.isSome) rest := by
  have silent : m.notes h = [] := by simp only [notes, front]
  by_cases runs : m.table.isRunning a = true
  · have step : m.step h = m.todo (.invoke a .process :: rest) := by
      simp only [Machine.step, front, runs, if_true]
    have runs' : (m.table.enter a).isRunning a = true :=
      ((ActionTable.SameLocks.enter m.table a).isRunning a).trans runs
    obtain ⟨log, ended, all, comes⟩ := comes_serve_process (m := { m with
      table := m.table.enter a, agenda := .serve a .process :: .drain a :: rest }) tame rfl runs'
    have left := comes_invoke (m := m.todo (.invoke a .process :: rest)) rfl free.1 comes
      (by rw [owed_retiredIf, ActionTable.owed_enter, free.2])
    exact ⟨log, ended, all, fun _ => runs,
      (left.agrees (agrees_retiredIf_leave free.1 _)).silently silent step rfl rfl⟩
  · have step : m.step h = m.todo rest := by
      simp only [Machine.step, front, if_neg runs]
    refine ⟨[], none, by simp, by simp, ?_⟩
    exact (Comes.refl (m := m.todo rest) rfl).silently silent step rfl rfl

/-! ### Finishes one after the other -/

theorem comes_finishes (os : List ActionId) (distinct : os.Nodup)
    (tame : ∀ o ∈ os, h.Tames view o) (m : Machine ε Ω σ)
    (front : m.agenda = os.map (fun o => .invoke o (.finish true)) ++ rest)
    (free : ∀ o ∈ os, m.table.Free o) :
    ∃ failed : ActionId → Bool,
      Comes h view m (os.flatMap fun o => visit o (.finish true) (failed o)) m.table rest := by
  induction os generalizing m with
  | nil => exact ⟨fun _ => false, .refl front⟩
  | cons o os ih =>
      obtain ⟨new, distinct⟩ := List.nodup_cons.mp distinct
      obtain ⟨first, m₁, goes, agenda, agrees, own, unhandled⟩ :=
        comes_finish (tame o List.mem_cons_self) front (free o List.mem_cons_self)
      obtain ⟨failed, comes⟩ := ih distinct
        (fun p later => tame p (List.mem_cons_of_mem _ later)) m₁ agenda
        fun p later => (free p (List.mem_cons_of_mem _ later)).agrees agrees
      have others :
          (os.flatMap fun p => visit p (.finish true) (Function.update failed o first p)) =
          os.flatMap fun p => visit p (.finish true) (failed p) := by
        refine List.flatMap_congr fun p later => ?_
        rw [Function.update_of_ne fun same : p = o => new (same ▸ later)]
      refine ⟨Function.update failed o first, ?_⟩
      rw [List.flatMap_cons, Function.update_self, others]
      exact (comes.goes goes own unhandled).agrees agrees

end Machine

end RobotControl
