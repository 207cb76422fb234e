import RobotControl.Proofs.Action.Start
import RobotControl.Proofs.Series.Sequence

/-!
# The callbacks of a series

What the begin, the process and the finish of a series come to when all other callbacks are tame:
they ask the manager for the start or the stop of one child, and the call comes back when that is
done.  `Host.Conducts` says what an application that keeps a series has to do for it.
-/
set_option autoImplicit false

namespace RobotControl

variable {ε Ω σ : Type}

/-- The application has an action that is a series: `score` is what it keeps for it.  All other
callbacks are tame, and every action says which devices it needs. -/
structure Host.Conducts (h : Host ε Ω σ) (s : ActionId) (score : σ → Option Series)
    (read : σ → Series) (write : Series → σ → σ) : Prop where
  reads : ∀ own x, score own = some x → read own = x
  writes : ∀ own x y, score own = some x → score (write y own) = some y
  /-- Its callbacks are those of a series, maybe after a look at the state. -/
  plays : ∀ (cb : Callback) (m : Machine ε Ω σ) (rest : List (Task ε Ω σ)) (x : Series),
    score m.own = some x → m.agenda = .run (h.routine s cb) :: rest →
      Machine.Goes h m [] (m.todo (.run (Series.routine read write cb) :: rest))
  /-- It needs no devices itself. -/
  unclaimed : ∀ own x, score own = some x →
    (h.needs own s).2 = .ok [] ∧ score (h.needs own s).1 = some x
  goesOn : ∀ own x, score own = some x → h.wantsMore own s = x.wantsMore
  tame : ∀ b, b ≠ s → h.Tames score b
  claims : ∀ own b, b ≠ s → ∃ ds, (h.needs own b).2 = .ok ds ∧ score (h.needs own b).1 = score own

namespace Machine

section Reaches

variable {h : Host ε Ω σ} {score : σ → Option Series} {m m' : Machine ε Ω σ} {t t' : ActionTable}
  {x x' : Series} {log log' : List Note} {rest rest' : List (Task ε Ω σ)} {a : ActionId}

/-- The machine comes to the tasks below with a record, a table and what is kept for a series. -/
def Reaches (h : Host ε Ω σ) (score : σ → Option Series) (m : Machine ε Ω σ) (log : List Note)
    (t : ActionTable) (x : Series) (rest : List (Task ε Ω σ)) : Prop :=
  ∃ m', Goes h m log m' ∧ m'.agenda = rest ∧ t.Agrees m'.table ∧ score m'.own = some x

theorem Comes.reaches (comes : Comes h score m log t rest) (known : score m.own = some x) :
    Reaches h score m log t x rest := by
  obtain ⟨m', goes, agenda, agrees, own, -⟩ := comes
  exact ⟨m', goes, agenda, agrees, own.trans known⟩

theorem Reaches.trans (first : Reaches h score m log t x rest)
    (second : ∀ m' : Machine ε Ω σ, m'.agenda = rest → t.Agrees m'.table →
      score m'.own = some x → Reaches h score m' log' t' x' rest') :
    Reaches h score m (log ++ log') t' x' rest' := by
  obtain ⟨m', goes, agenda, agrees, known⟩ := first
  obtain ⟨m'', goes', agenda', agrees', known'⟩ := second m' agenda agrees known
  exact ⟨m'', goes.trans goes', agenda', agrees', known'⟩

theorem Reaches.goes (reaches : Reaches h score m' log' t x rest) (goes : Goes h m log m') :
    Reaches h score m (log ++ log') t x rest := by
  obtain ⟨m'', goes', agenda, agrees, known⟩ := reaches
  exact ⟨m'', goes.trans goes', agenda, agrees, known⟩

theorem Reaches.drained (reaches : Reaches h score m log t x (.drain a :: rest))
    (owed : t.owed a = []) : Reaches h score m log (t.leave a) x rest := by
  rw [← List.append_nil log]
  refine reaches.trans fun m' agenda agrees known => ?_
  exact ((comes_drain agenda ((agrees.owed a).trans owed)).agrees (agrees.leave a)).reaches known

theorem goes_invoke {d : Deferred} (front : m.agenda = .invoke a d :: rest)
    (free : m.table.Free a) : Goes h m []
      { m with table := m.table.enter a, agenda := .serve a d :: .drain a :: rest } := by
  have step : m.step h =
      { m with table := m.table.enter a, agenda := .serve a d :: .drain a :: rest } := by
    simp only [Machine.step, front, free.1]
    rfl
  have silent : m.notes h = [] := by simp only [notes, front]
  exact silent ▸ step ▸ Goes.one h m

end Reaches

/-! ### What a series asks for -/

section Asks

variable {h : Host ε Ω σ} {β : Type} {view : σ → β} {m : Machine ε Ω σ}
  {rest : List (Task ε Ω σ)} {a : ActionId} {next : Bool → Routine ε Ω σ}

def stopping (caller : Option ActionId) (a : ActionId) (runs failed : Bool) : List Note :=
  .asks caller (.stop a) runs :: if runs then visit a (.finish true) failed else []

theorem comes_ask_stop (front : m.agenda = .run (.ask (.stop a) next) :: rest)
    (tame : h.Tames view a) (free : m.table.Free a) :
    ∃ failed, Comes h view m (stopping (frames rest).head? a (m.table.isRunning a) failed)
      (retiredIf m.table a (m.table.isRunning a)) (.run (next (m.table.isRunning a)) :: rest) := by
  have shown : m.notes h = [.asks (frames rest).head? (.stop a) (m.table.isRunning a)] := by
    simp only [notes, front, ActionTable.answer]
  cases runs : m.table.isRunning a with
  | false =>
      have step : m.step h = m.todo (.run (next false) :: rest) := by
        simp [Machine.step, front, runRoutine, grant, runs]
      have still : Comes h view (m.todo (.run (next false) :: rest)) [] m.table
        (.run (next false) :: rest) := .refl rfl
      have after := still.after step rfl rfl
      rw [shown, runs] at after
      exact ⟨false, after⟩
  | true =>
      have step : m.step h =
          (m.holding [a]).interrupting a (.letGo [a] :: .run (next true) :: rest) := by
        simp [Machine.step, front, runRoutine, grant, runs]
      have free' : ((m.table.hold [a]).retire a).Free a :=
        free.congr (sameCalls_retireEach (m.table.hold [a]) [a] a)
      obtain ⟨failed, comes⟩ := comes_finish
        (m := (m.holding [a]).interrupting a (.letGo [a] :: .run (next true) :: rest)) tame rfl
        free'
      have after := comes.after step rfl rfl
      rw [shown, runs] at after
      refine ⟨failed, ?_⟩
      rw [← List.append_nil (stopping ..)]
      refine after.trans fun m' agenda agrees _ => ?_
      have same : (m.table.retire a).Agrees m'.table :=
        .trans ((ActionTable.Agrees.of_alike (.hold m.table [a])).retire a) agrees
      exact (comes_letGo agenda).agrees same

theorem comes_refused (front : m.agenda = .run (.ask (.start a false) next) :: rest)
    (runs : m.table.isRunning a = true) :
    Comes h view m [.asks (frames rest).head? (.start a false) false] m.table
      (.run (next false) :: rest) := by
  have shown : m.notes h = [.asks (frames rest).head? (.start a false) false] := by
    simp [notes, front, ActionTable.answer, runs]
  have step : m.step h = m.todo (.run (next false) :: rest) := by
    simp [Machine.step, front, runRoutine, grant, runs]
  have still : Comes h view (m.todo (.run (next false) :: rest)) [] m.table
    (.run (next false) :: rest) := .refl rfl
  have after := still.after step rfl rfl
  rwa [shown] at after

theorem comes_returned {cb : Callback} (front : m.agenda = .run .skip :: .returned a cb :: rest)
    (plain : cb = .begin ∨ ∃ interrupted, cb = .finish interrupted) :
    Comes h view m [.leaves a cb false] m.table rest := by
  have shown : m.notes h = [.leaves a cb false] := by
    rcases plain with rfl | ⟨_, rfl⟩ <;> simp [notes, front, Routine.skip]
  have step : m.step h = m.todo rest := by
    rcases plain with rfl | ⟨_, rfl⟩ <;>
      simp [Machine.step, front, Routine.skip, runRoutine, finishRoutine, returnWell]
  have still : Comes h view (m.todo rest) [] m.table rest := .refl rfl
  have after := still.after step rfl rfl
  rwa [shown] at after

end Asks

end Machine

/-! ### The code of a series -/

namespace Host.Conducts

open Machine

variable {h : Host ε Ω σ} {s : ActionId} {score : σ → Option Series} {read : σ → Series}
  {write : Series → σ → σ} {m : Machine ε Ω σ} {rest : List (Task ε Ω σ)} {x : Series}

theorem goes_serve (conducts : h.Conducts s score read write) (cb : Callback)
    (rest : List (Task ε Ω σ)) (known : score m.own = some x) (shown : m.notes h = [.enters s cb])
    (step : m.step h = m.todo (.run (h.routine s cb) :: .returned s cb :: rest)) :
    Goes h m [.enters s cb]
      (m.todo (.run (Series.routine read write cb) :: .returned s cb :: rest)) := by
  have plays := conducts.plays cb (m.step h) (.returned s cb :: rest) x (step ▸ known) (step ▸ rfl)
  have goes := (Goes.one h m).trans plays
  rw [shown, step] at goes
  exact goes

theorem goes_begin (conducts : h.Conducts s score read write)
    (front : m.agenda = .serve s .begin :: rest) (known : score m.own = some x) :
    ∃ m', Goes h m [.enters s .begin] m' ∧
      m'.agenda = .run (Series.starting x.rewound.current) :: .returned s .begin :: rest ∧
      m'.table = m.table ∧ score m'.own = some x.rewound := by
  have served := conducts.goes_serve .begin rest known (by simp only [notes, front])
    (by simp only [Machine.step, front, serve])
  have looks := goes_look (h := h) (m := m.todo
    (.run (Series.routine read write .begin) :: .returned s .begin :: rest)) rfl
  obtain rfl := conducts.reads m.own x known
  exact ⟨_, (served.trans looks).trans (goes_note rfl), rfl, rfl, conducts.writes m.own _ _ known⟩

theorem goes_process (conducts : h.Conducts s score read write)
    (front : m.agenda = .serve s .process :: rest) (runs : m.table.isRunning s = true)
    (known : score m.own = some x) :
    ∃ m', Goes h m [.enters s .process] m' ∧
      m'.agenda = .run (if (x.advanced m.table.isFinished).index = x.index then .skip
        else Series.starting (x.advanced m.table.isFinished).current) ::
          .returned s .process :: rest ∧
      m'.table = m.table ∧ score m'.own = some (x.advanced m.table.isFinished) := by
  have served := conducts.goes_serve .process rest known (by simp [notes, front, runs])
    (by simp only [Machine.step, front, serve, runs, if_true])
  have looks := goes_look (h := h) (m := m.todo
    (.run (Series.routine read write .process) :: .returned s .process :: rest)) rfl
  obtain rfl := conducts.reads m.own x known
  exact ⟨_, (served.trans looks).trans (goes_note rfl), rfl, rfl, conducts.writes m.own _ _ known⟩

theorem goes_finish (conducts : h.Conducts s score read write) {interrupted : Bool}
    (front : m.agenda = .serve s (.finish interrupted) :: rest) (known : score m.own = some x) :
    ∃ m', Goes h m [.enters s (.finish interrupted)] m' ∧
      m'.agenda = .run (Series.asking (x.ending interrupted)) ::
        .returned s (.finish interrupted) :: rest ∧
      m'.table = m.table ∧ score m'.own = some x := by
  have served := conducts.goes_serve (.finish interrupted) rest known
    (by simp only [notes, front]) (by simp only [Machine.step, front, serve])
  have looks := goes_look (h := h) (m := m.todo
    (.run (Series.routine read write (.finish interrupted)) :: .returned s (.finish interrupted) ::
      rest)) rfl
  obtain rfl := conducts.reads m.own x known
  exact ⟨_, served.trans looks, rfl, rfl, known⟩

theorem goes_processed (conducts : h.Conducts s score read write)
    (front : m.agenda = .run .skip :: .returned s .process :: rest)
    (runs : m.table.isRunning s = true) (known : score m.own = some x) :
    Goes h m [.leaves s .process false, .enters s .proceed, .leaves s .proceed false]
      (if x.wantsMore then m.todo rest else
        { m with table := m.table.retire s, agenda := .serve s (.finish false) :: rest }) := by
  have shown : m.notes h = [.leaves s .process false, .enters s .proceed] := by
    simp [notes, front, Routine.skip, runs]
  have step : m.step h = m.todo (.run (h.routine s .proceed) :: .returned s .proceed :: rest) := by
    simp [Machine.step, front, Routine.skip, runRoutine, finishRoutine, returnWell, runs]
  have plays := conducts.plays .proceed (m.step h) (.returned s .proceed :: rest) x (step ▸ known)
    (step ▸ rfl)
  have asked := (Goes.one h m).trans plays
  rw [shown, step] at asked
  have shown' : (m.todo (.run .skip :: .returned s .proceed :: rest)).notes h =
      [.leaves s .proceed false] := by
    simp [notes, todo, Routine.skip]
  have step' : (m.todo (.run .skip :: .returned s .proceed :: rest)).step h =
      if x.wantsMore then m.todo rest else
        { m with table := m.table.retire s, agenda := .serve s (.finish false) :: rest } := by
    have more : h.wantsMore m.own s = x.wantsMore := conducts.goesOn m.own x known
    cases goesOn : x.wantsMore <;>
      simp [Machine.step, todo, Routine.skip, runRoutine, finishRoutine, returnWell, runs, more,
        goesOn]
  have last := Goes.one h (m.todo (.run .skip :: .returned s .proceed :: rest))
  rw [shown', step'] at last
  exact asked.trans last

end Host.Conducts

end RobotControl
