import RobotControl.Proofs.Action.HandOver

/-!
# Why runs end

A run of an action ends for one of six causes, and all but one of them interrupt it.
`Machine.endOf` reads the cause off the task in front.  A step ends the run of an action exactly
when there is a cause for it (`Machine.leaves_iff`), and it leaves one finish on the agenda that
is told whether the run was interrupted (`Machine.Orderly.finish_due`).
-/
set_option autoImplicit false

namespace RobotControl

variable {ε Ω σ : Type}

/-- What ends the run of an action. -/
inductive Cause where
  | stopped
  /-- It is started again while it runs. -/
  | restarted
  /-- Another action takes one of its devices. -/
  | interrupted
  | allStopped
  /-- A callback of it other than the last one failed. -/
  | failed
  /-- Asked after it was processed, it has no more to do. -/
  | completed
  deriving DecidableEq, Repr

/-- What the last callback of the run is told. -/
def Cause.interrupts : Cause → Bool
  | .completed => false
  | _ => true

def Callback.isLast : Callback → Bool
  | .finish _ => true
  | _ => false

/-- The callback that a failure above the tasks ends, unless an attempt catches it. -/
def handler : List (Task ε Ω σ) → Option (ActionId × Callback)
  | [] => none
  | .caught _ :: _ => none
  | .returned a cb :: _ => some (a, cb)
  | _ :: rest => handler rest

/-- A failure above the tasks ends the run of the action. -/
def failsIn (tasks : List (Task ε Ω σ)) (b : ActionId) : Bool :=
  (handler tasks).any fun c => c.1 = b && !c.2.isLast

namespace Machine

def demands (h : Host ε Ω σ) (m : Machine ε Ω σ) (a : ActionId) :
    Except Panic (List DeviceId) :=
  if m.table.isBusy a then .ok (m.table.claims a) else (h.needs m.own a).2

theorem demands_eq_error {h : Host ε Ω σ} {m : Machine ε Ω σ} {a : ActionId} {p : Panic}
    (refused : m.demands h a = .error p) :
    m.table.isBusy a = false ∧ (h.needs m.own a).2 = .error p := by
  unfold demands at refused
  split at refused
  · cases refused
  · next free => exact ⟨by simpa using free, refused⟩

theorem step_of_refused {h : Host ε Ω σ} {m : Machine ε Ω σ} {a : ActionId} {p : Panic}
    {rest : List (Task ε Ω σ)} (front : m.agenda = .launch a :: rest)
    (refused : m.demands h a = .error p) :
    m.step h =
      ({ m with own := (h.needs m.own a).1 } : Machine ε Ω σ).unwind h (.panic p) rest := by
  obtain ⟨free, needs⟩ := demands_eq_error refused
  simp only [step, front, launch, free, Bool.false_eq_true, if_false, needs]

/-- Why the step ends the run of the action, if it does. -/
def endOf (h : Host ε Ω σ) (m : Machine ε Ω σ) (b : ActionId) : Option Cause :=
  if m.table.isRunning b then
    match m.agenda with
    | .run (.ask (.stop a) _) :: _ => if a = b then some .stopped else none
    | .run (.ask .stopAll _) :: _ => some .allStopped
    | .start a true :: _ => if a = b then some .restarted else none
    | .launch a :: rest =>
        match m.demands h a with
        | .ok ds =>
            if a ≠ b ∧ ∃ d ∈ ds, m.table.owner d = some b then some .interrupted else none
        | .error _ => if failsIn rest b then some .failed else none
    | .run (.panic _) :: rest => if failsIn rest b then some .failed else none
    | .run (.done (.error _)) :: .returned a cb :: _ =>
        if a = b && !cb.isLast then some .failed else none
    | .run (.done (.ok ())) :: .returned a .proceed :: _ =>
        if a = b && !h.wantsMore m.own a then some .completed else none
    | _ => none
  else none

/-! ### A step ends a run exactly for a cause -/

theorem isNone_cause (p : Prop) [Decidable p] (c : Cause) :
    (if p then some c else none).isNone = !decide p := by
  by_cases holds : p <;> simp [holds]

section Causes

variable {h : Host ε Ω σ} {m : Machine ε Ω σ}

theorem isRunning_retire (t : ActionTable) (a b : ActionId) :
    (t.retire a).isRunning b = (t.isRunning b && !decide (a = b)) := by
  simpa [eq_comm] using isRunning_foldl_retire [a] t b

theorem isRunning_returnFailed (a : ActionId) (rest : List (Task ε Ω σ)) (f : Failure)
    (cb : Callback) (b : ActionId) :
    (m.returnFailed h a rest f cb).table.isRunning b =
      (m.table.isRunning b && !(decide (a = b) && !cb.isLast)) := by
  have ended : (if m.table.isRunning a = true then m.table.retire a else m.table).isRunning b =
      (m.table.isRunning b && !decide (a = b)) := by
    by_cases runs : m.table.isRunning a = true
    · rw [if_pos runs, isRunning_retire]
    · rw [if_neg runs]
      by_cases same : a = b
      · subst same
        simpa using runs
      · simp [same]
  cases cb with
  | finish _ => simp [returnFailed, todo, Callback.isLast]
  | begin => simpa [returnFailed, todo, apply_ite Machine.table, Callback.isLast] using ended
  | process => simpa [returnFailed, todo, apply_ite Machine.table, Callback.isLast] using ended
  | proceed => simpa [returnFailed, todo, apply_ite Machine.table, Callback.isLast] using ended

theorem isRunning_unwind (f : Failure) (b : ActionId) (tasks : List (Task ε Ω σ)) :
    ∀ m : Machine ε Ω σ, (m.unwind h f tasks).table.isRunning b =
      (m.table.isRunning b && !failsIn tasks b) := by
  induction tasks with
  | nil => intro m; simp [unwind, failsIn, handler]
  | cons t rest ih =>
      intro m
      cases t with
      | caught next => simp [unwind, todo, failsIn, handler]
      | returned a cb => simpa [unwind, failsIn, handler] using isRunning_returnFailed a rest f cb b
      | letGo as => exact ih _
      | run r => exact ih m
      | bound next => exact ih m
      | start a restart => exact ih m
      | launch a => exact ih m
      | succeed a late => exact ih m
      | invoke a d => exact ih m
      | serve a d => exact ih m
      | drain a => exact ih m
      | turn a => exact ih m

theorem isRunning_launch {b : ActionId} (consistent : m.table.Consistent)
    (runs : m.table.isRunning b = true) (a : ActionId) (rest : List (Task ε Ω σ))
    (front : m.agenda = .launch a :: rest) :
    (m.launch h a rest).table.isRunning b = (m.endOf h b).isNone := by
  have listed : b ∈ m.table.running := by
    rwa [← consistent.running_iff, ← ActionTable.isRunning_iff]
  have seized : ∀ (claimed : ActionTable) (ds : List DeviceId),
      claimed.isRunning b = true → claimed.running = m.table.running →
        claimed.owner = m.table.owner →
          (claimed.seize a ds).isRunning b =
            !decide (a ≠ b ∧ ∃ d ∈ ds, m.table.owner d = some b) := by
    intro claimed ds still list owners
    rw [isRunning_seize, still, Bool.true_and]
    by_cases self : a = b
    · simp [self]
    · simp [ActionTable.mem_holders, list, owners, listed, Ne.symm self, self]
  unfold launch endOf demands
  rw [if_pos runs, front]
  by_cases busy : m.table.isBusy a = true
  · simpa [busy, seize, workingOn, todo, holding, (ActionTable.Alike.hold _ _).isRunning,
      isNone_cause] using seized m.table (m.table.claims a) runs rfl rfl
  · cases needed : (h.needs m.own a).2 with
    | error p => simp [busy, needed, isRunning_unwind, runs, isNone_cause]
    | ok ds =>
        have claimed := seized (m.table.setClaims a ds.eraseDups) ds.eraseDups
          ((ActionTable.isRunning_setClaims ..).trans runs) rfl rfl
        simpa [busy, needed, seize, workingOn, todo, holding,
          (ActionTable.Alike.hold _ _).isRunning, isNone_cause] using claimed

theorem isRunning_pollTriggers (rest : List (Task ε Ω σ)) (b : ActionId) :
    (m.pollTriggers h rest).table.isRunning b = m.table.isRunning b :=
  (pollTriggers_spec h m rest).1.isRunning b

theorem isRunning_grant {b : ActionId} (consistent : m.table.Consistent)
    (runs : m.table.isRunning b = true) (r : Request) (next : Bool → Routine ε Ω σ)
    (rest : List (Task ε Ω σ)) (front : m.agenda = .run (.ask r next) :: rest) :
    (m.grant h next rest r).table.isRunning b = (m.endOf h b).isNone := by
  unfold endOf
  rw [if_pos runs, front]
  cases r with
  | start a restart =>
      simp only [grant]
      split
      · exact runs
      · exact runs
  | stop a =>
      by_cases ran : m.table.isRunning a = true
      · simp [grant, ran, interrupting, holding, (ActionTable.Alike.hold _ _).isRunning,
          isRunning_retire, runs, isNone_cause]
      · have other : a ≠ b := fun same => ran (same ▸ runs)
        simp [grant, ran, todo, runs, other]
  | stopAll =>
      have listed : b ∈ m.table.runningBackwards := by
        rw [ActionTable.runningBackwards, List.mem_eraseDups, List.mem_reverse,
          ← consistent.running_iff, ← ActionTable.isRunning_iff]
        exact runs
      simp [grant, workingOn, todo, holding, (ActionTable.Alike.hold _ _).isRunning,
        ActionTable.retireAll, isRunning_foldl_retire, listed]
  | tick => exact runs
  | poll => exact (isRunning_pollTriggers _ b).trans runs
  | bind target restart => exact runs
  | unbind trigger => exact runs

theorem isRunning_finishRoutine {b : ActionId} (runs : m.table.isRunning b = true)
    (o : Except Fault Unit) (rest : List (Task ε Ω σ))
    (front : m.agenda = .run (.done o) :: rest) :
    (m.finishRoutine h o rest).table.isRunning b = (m.endOf h b).isNone := by
  unfold endOf
  rw [if_pos runs, front]
  cases rest with
  | nil => cases o <;> simpa [finishRoutine, todo] using runs
  | cons t below =>
      cases t with
      | returned a cb =>
          cases o with
          | error f => simp [finishRoutine, isRunning_returnFailed, runs, isNone_cause]
          | ok _ =>
              cases cb with
              | proceed =>
                  by_cases self : a = b
                  · subst self
                    cases more : h.wantsMore m.own a <;>
                      simp [finishRoutine, returnWell, todo, isRunning_retire, runs, more]
                  · have stays : (m.returnWell h a below .proceed).table.isRunning b = true := by
                      simp only [returnWell]
                      split
                      · simp [isRunning_retire, runs, self]
                      · exact runs
                    simpa [finishRoutine, self] using stays
              | process =>
                  simp only [finishRoutine, returnWell]
                  split
                  · exact runs
                  · exact runs
              | begin => exact runs
              | finish _ => exact runs
      | bound _ => cases o <;> exact runs
      | caught _ => cases o <;> exact runs
      | run _ => cases o <;> exact runs
      | start _ _ => cases o <;> exact runs
      | launch _ => cases o <;> exact runs
      | succeed _ _ => cases o <;> exact runs
      | invoke _ _ => cases o <;> exact runs
      | serve _ _ => cases o <;> exact runs
      | drain _ => cases o <;> exact runs
      | turn _ => cases o <;> exact runs
      | letGo _ => cases o <;> exact runs

theorem isRunning_step {b : ActionId} (consistent : m.table.Consistent)
    (runs : m.table.isRunning b = true) :
    (m.step h).table.isRunning b = (m.endOf h b).isNone := by
  have stays : ∀ (table : ActionTable), m.endOf h b = none →
      table.isRunning b = m.table.isRunning b → table.isRunning b = (m.endOf h b).isNone :=
    fun table none same => by rw [same, runs, none]; rfl
  cases front : m.agenda with
  | nil =>
      simp only [step, front]
      exact stays m.table (by simp [endOf, front]) rfl
  | cons t rest =>
      cases t with
      | run r =>
          simp only [step, front]
          cases r with
          | done o => exact isRunning_finishRoutine runs o rest front
          | ask r next => exact isRunning_grant consistent runs r next rest front
          | panic p => simp [runRoutine, isRunning_unwind, endOf, front, runs, isNone_cause]
          | act e next => exact stays _ (by simp [endOf, front]) rfl
          | look next => exact stays _ (by simp [endOf, front]) rfl
          | note change next => exact stays _ (by simp [endOf, front]) rfl
          | attempt body next => exact stays _ (by simp [endOf, front]) rfl
      | launch a =>
          simp only [step, front]
          exact isRunning_launch consistent runs a rest front
      | start a restart =>
          cases restart with
          | true =>
              by_cases ran : m.table.isRunning a = true
              · simp [step, front, ran, interrupting, isRunning_retire, endOf, runs, isNone_cause]
              · have other : a ≠ b := fun same => ran (same ▸ runs)
                simp [step, front, ran, todo, endOf, runs, other]
          | false =>
              simp only [step, front]
              split
              · exact stays _ (by simp [endOf, front]) rfl
              · exact stays _ (by simp [endOf, front]) rfl
      | bound next => exact stays _ (by simp [endOf, front]) (by simp only [step, front]; rfl)
      | caught next => exact stays _ (by simp [endOf, front]) (by simp only [step, front]; rfl)
      | returned a cb => exact stays _ (by simp [endOf, front]) (by simp only [step, front]; rfl)
      | letGo as => exact stays _ (by simp [endOf, front]) (by simp only [step, front]; rfl)
      | succeed a late =>
          simp only [step, front]
          split
          · exact stays _ (by simp [endOf, front]) rfl
          · exact stays _ (by simp [endOf, front])
              ((ActionTable.SameLocks.deferHandOver ..).isRunning b)
      | invoke a d =>
          simp only [step, front]
          split
          · exact stays _ (by simp [endOf, front]) ((ActionTable.SameLocks.defer ..).isRunning b)
          · exact stays _ (by simp [endOf, front]) ((ActionTable.SameLocks.enter ..).isRunning b)
      | serve a d =>
          simp only [step, front]
          refine stays _ (by simp [endOf, front]) ?_
          cases d with
          | begin => rfl
          | finish interrupted => rfl
          | process => simp only [serve, todo, apply_ite Machine.table, ite_self]
          | handOver next ticket =>
              simp only [serve]
              split
              · rfl
              · rfl
      | drain a =>
          simp only [step, front]
          split
          · exact stays _ (by simp [endOf, front]) ((ActionTable.SameLocks.leave ..).isRunning b)
          · exact stays _ (by simp [endOf, front]) ((ActionTable.SameLocks.setOwed ..).isRunning b)
      | turn a =>
          simp only [step, front]
          split
          · exact stays _ (by simp [endOf, front]) rfl
          · exact stays _ (by simp [endOf, front]) rfl

theorem leaves_iff (consistent : m.table.Consistent) (b : ActionId) :
    m.Leaves h b ↔ (m.endOf h b).isSome = true := by
  by_cases runs : m.table.isRunning b = true
  · simp [Leaves, runs, isRunning_step consistent runs]
  · simp [Leaves, endOf, runs]

theorem Move.phase_ne_idle {table : ActionTable} {agenda : List (Task ε Ω σ)} {b : ActionId}
    (move : Move h m table agenda) (started : m.table.phase b ≠ .idle) :
    table.phase b ≠ .idle := by
  have alike : ∀ {t : ActionTable}, t.phase b ≠ .idle → t.Alike table → table.phase b ≠ .idle :=
    fun known same => same.phase b ▸ known
  have retired : ∀ as : List ActionId, (as.foldl ActionTable.retire m.table).phase b ≠ .idle := by
    intro as
    rw [ActionTable.phase_foldl_retire]
    split
    · exact Phase.noConfusion
    · exact started
  cases move with
  | code _ _ _ _ same _ => exact alike started same
  | drop _ _ _ same _ => exact alike started same
  | tick _ _ same => exact alike started same
  | handOver _ _ _ same => exact alike started same
  | @ended _ _ a _ _ _ _ _ _ _ same _ => exact alike (retired [a]) same
  | @interrupt _ _ _ a _ _ _ _ _ _ same => exact alike (retired [a]) same
  | stopAll _ _ same => exact alike (retired _) same
  | @seize _ a ds claimed _ _ claims _ same =>
      have before : claimed.phase b ≠ .idle := by
        rcases claims with ⟨rfl, _, _⟩ | ⟨rfl, _⟩
        · exact started
        · rwa [ActionTable.phase_setClaims]
      refine alike ?_ same
      rw [ActionTable.phase_seize]
      split
      · exact Phase.noConfusion
      · split
        · exact Phase.noConfusion
        · exact before
  | succeedLater _ _ => rwa [(ActionTable.SameLocks.deferHandOver ..).phase]
  | defer _ _ => rwa [(ActionTable.SameLocks.defer ..).phase]
  | enter _ _ => rwa [(ActionTable.SameLocks.enter ..).phase]
  | leave _ _ => rwa [(ActionTable.SameLocks.leave ..).phase]
  | drain _ _ => rwa [(ActionTable.SameLocks.setOwed ..).phase]
  | _ => exact started

theorem Run.leaves_iff_phase {past : List (Machine ε Ω σ)} (run : Run h m past) (b : ActionId) :
    m.Leaves h b ↔ m.table.phase b = .running ∧ (m.step h).table.phase b = .finished := by
  unfold Leaves
  rw [ActionTable.isRunning_iff]
  refine and_congr_right fun runs => ?_
  have started : (m.step h).table.phase b ≠ .idle := run.move.phase_ne_idle (by simp [runs])
  cases after : (m.step h).table.phase b with
  | idle => exact absurd after started
  | running => simp [ActionTable.isRunning, after]
  | finished => simp [ActionTable.isRunning, after]

/-! ### What the last callback is told -/

theorem agenda_returnFailed {a : ActionId} (runs : m.table.isRunning a = true)
    (rest : List (Task ε Ω σ)) (f : Failure) {cb : Callback} (early : cb.isLast = false) :
    (m.returnFailed h a rest f cb).agenda = .serve a (.finish true) :: rest := by
  cases cb with
  | finish _ => cases early
  | begin => simp [returnFailed, runs]
  | process => simp [returnFailed, runs]
  | proceed => simp [returnFailed, runs]

theorem agenda_unwind {b : ActionId} (f : Failure) (tasks : List (Task ε Ω σ))
    (unwindable : Unwindable tasks) (fails : failsIn tasks b = true) :
    ∀ m : Machine ε Ω σ, m.table.isRunning b = true → ∃ codes cb below,
      tasks = codes ++ .returned b cb :: below ∧ (∀ x ∈ codes, x.isCode = true) ∧
        (m.unwind h f tasks).agenda = .serve b (.finish true) :: below := by
  induction tasks with
  | nil => simp [failsIn, handler] at fails
  | cons t rest ih =>
      intro m runs
      have deeper : ∀ m' : Machine ε Ω σ, m'.table.isRunning b = true → t.isCode = true →
          Unwindable rest → failsIn rest b = true → ∃ codes cb below,
            t :: rest = codes ++ .returned b cb :: below ∧ (∀ x ∈ codes, x.isCode = true) ∧
              (m'.unwind h f rest).agenda = .serve b (.finish true) :: below := by
        intro m' runs code more fails
        obtain ⟨codes, cb, below, whole, only, after⟩ := ih more fails m' runs
        exact ⟨t :: codes, cb, below, congrArg (t :: ·) whole,
          List.forall_mem_cons.mpr ⟨code, only⟩, after⟩
      cases t with
      | caught next => simp [failsIn, handler] at fails
      | returned a cb =>
          simp only [failsIn, handler, Option.any_some, Bool.and_eq_true, decide_eq_true_eq,
            Bool.not_eq_true'] at fails
          obtain ⟨rfl, early⟩ := fails
          exact ⟨[], cb, rest, rfl, by simp, agenda_returnFailed runs rest f early⟩
      | letGo as => exact deeper { m with table := m.table.letGo as } runs rfl unwindable.2 fails
      | run r => exact deeper m runs rfl unwindable.2 fails
      | bound next => exact deeper m runs rfl unwindable.2 fails
      | start a restart => exact deeper m runs rfl unwindable.2 fails
      | launch a => exact deeper m runs rfl unwindable.2 fails
      | succeed a late => cases unwindable.1
      | invoke a d => cases unwindable.1
      | serve a d => cases unwindable.1
      | drain a => cases unwindable.1
      | turn a => cases unwindable.1

/-- The step puts work on the agenda and takes none off. -/
def Adds (h : Host ε Ω σ) (m : Machine ε Ω σ) (w : Item) : Prop :=
  ∃ gone new kept, m.agenda = gone ++ kept ∧ (m.step h).agenda = new ++ kept ∧
    items gone = [] ∧ w ∈ items new

theorem adds_of_failsIn {b : ActionId} {t : Task ε Ω σ} {rest : List (Task ε Ω σ)} (f : Failure)
    (front : m.agenda = t :: rest) (framed : Framed m.agenda) (fails : t.mayFail = true)
    (ends : failsIn rest b = true) {m' : Machine ε Ω σ} (runs : m'.table.isRunning b = true)
    (stepped : m.step h = m'.unwind h f rest) : m.Adds h (b, some (.finish true)) := by
  obtain ⟨codes, cb, below, whole, only, after⟩ :=
    agenda_unwind (h := h) f rest ((front ▸ framed).1 fails) ends m' runs
  refine ⟨t :: (codes ++ [.returned b cb]), [.serve b (.finish true)], below, ?_, ?_, ?_, ?_⟩
  · simp [front, whole]
  · rw [stepped, after]
    rfl
  · refine items_of_isLight fun x member => ?_
    rcases List.mem_cons.mp member with rfl | member
    · exact x.isLight_of_isCode (x.isCode_of_mayFail fails)
    · rcases List.mem_append.mp member with early | last
      · exact x.isLight_of_isCode (only x early)
      · exact List.mem_singleton.mp last ▸ rfl
  · exact List.mem_singleton_self _

theorem starts_of_demands {a : ActionId} {ds : List DeviceId} {rest : List (Task ε Ω σ)}
    (front : m.agenda = .launch a :: rest) (needed : m.demands h a = .ok ds) :
    m.Starts h a := by
  refine ⟨rest, front, ?_⟩
  unfold demands at needed
  split at needed
  · rename_i busy
    exact .inl busy
  · exact .inr ⟨ds, needed⟩

theorem adds_of_starts (consistent : m.table.Consistent) {a b : ActionId}
    (starts : m.Starts h a) (leaves : m.Leaves h b) : m.Adds h (b, some (.finish true)) := by
  obtain ⟨rest, holders, front, after, interrupted⟩ := agenda_of_starts consistent starts
  refine ⟨[.launch a], holders.map (fun o => .invoke o (.finish true)) ++
    [.succeed a (holders.filter m.table.isBusy), .letGo holders], rest, front, ?_, rfl, ?_⟩
  · rw [after, List.append_assoc]
    rfl
  · rw [items_append, items_invokes]
    exact List.mem_append_left _ (List.mem_map_of_mem ((interrupted b).mpr leaves))

/-- The finish of a run that ends is put on the agenda with what the cause makes of it. -/
theorem adds_of_endOf (framed : Framed m.agenda) (consistent : m.table.Consistent) {b : ActionId}
    {c : Cause} (ends : m.endOf h b = some c) : m.Adds h (b, some (.finish c.interrupts)) := by
  have leaves : m.Leaves h b := (leaves_iff consistent b).mpr (by simp [ends])
  have runs := leaves.1
  unfold endOf at ends
  rw [if_pos runs] at ends
  have told : ∀ {p : Prop} [Decidable p] {c' : Cause}, (if p then some c' else none) = some c →
      p ∧ c' = c := fun same => by simpa using same
  split at ends
  · rename_i a next rest front
    obtain ⟨rfl, rfl⟩ := told ends
    exact ⟨[.run (.ask (.stop a) next)],
      [.invoke a (.finish true), .letGo [a], .run (next true)], rest, front,
      by simp [step, front, runRoutine, grant, runs, interrupting], rfl,
      by simp [items, Task.item, Cause.interrupts]⟩
  · rename_i next rest front
    cases ends
    have listed : b ∈ m.table.runningBackwards := by
      rw [ActionTable.runningBackwards, List.mem_eraseDups, List.mem_reverse,
        ← consistent.running_iff, ← ActionTable.isRunning_iff]
      exact runs
    refine ⟨[.run (.ask .stopAll next)], m.table.runningBackwards.map
      (fun a => .invoke a (.finish true)) ++ [.letGo m.table.runningBackwards, .run (next true)],
      rest, front, ?_, rfl, ?_⟩
    · simp [step, front, runRoutine, grant, workingOn, todo]
    · rw [items_append, items_invokes]
      exact List.mem_append_left _ (List.mem_map_of_mem listed)
  · rename_i a rest front
    obtain ⟨rfl, rfl⟩ := told ends
    exact ⟨[.start a true], [.invoke a (.finish true), .launch a], rest, front,
      by simp [step, front, runs, interrupting], rfl,
      by simp [items, Task.item, Cause.interrupts]⟩
  · rename_i a rest front
    split at ends
    · rename_i ds needed
      obtain ⟨_, rfl⟩ := told ends
      exact adds_of_starts consistent (starts_of_demands front needed) leaves
    · rename_i p needed
      obtain ⟨fails, rfl⟩ := told ends
      refine adds_of_failsIn (.panic p) front framed rfl fails ?_ (step_of_refused front needed)
      exact runs
  · rename_i p rest front
    obtain ⟨fails, rfl⟩ := told ends
    exact adds_of_failsIn (.panic p) front framed rfl fails runs
      (by simp only [step, front, runRoutine])
  · rename_i f a cb rest front
    obtain ⟨fails, rfl⟩ := told ends
    exact adds_of_failsIn (.fault f) front framed rfl fails runs
      (by simp only [step, front, runRoutine, finishRoutine, unwind])
  · rename_i a rest front
    obtain ⟨both, rfl⟩ := told ends
    simp only [Bool.and_eq_true, decide_eq_true_eq, Bool.not_eq_true'] at both
    obtain ⟨rfl, done⟩ := both
    exact ⟨[.run (.done (.ok ())), .returned a .proceed], [.serve a (.finish false)], rest, front,
      by simp [step, front, runRoutine, finishRoutine, returnWell, runs, done], rfl,
      by simp [items, Task.item, Cause.interrupts]⟩
  · cases ends

theorem Adds.count_lt {w : Item} (adds : m.Adds h w) :
    (items m.agenda).count w < (items (m.step h).agenda).count w := by
  obtain ⟨gone, new, kept, before, after, none, member⟩ := adds
  have some := List.count_pos_iff.mpr member
  rw [before, after, items_append, items_append, none, List.nil_append, List.count_append]
  omega

theorem Move.owes_le {table : ActionTable} {agenda : List (Task ε Ω σ)}
    (move : Move h m table agenda) {b : ActionId} (elsewhere : ∀ rest, m.agenda ≠ .drain b :: rest)
    (d : Deferred) : m.table.owes (b, some d) ≤ table.owes (b, some d) := by
  rcases move.owed b with ⟨more, added⟩ | ⟨_, rest, _, front, _⟩
  · simp [ActionTable.owes, added]
  · exact absurd front (elsewhere rest)

/-- Every run that ends makes one finish due, which is told whether the run was interrupted. -/
theorem Orderly.finish_due (orderly : m.Orderly) (b : ActionId) (interrupted : Bool) :
    pending (m.step h).table (m.step h).agenda (b, some (.finish interrupted)) +
        m.doing.toList.count (b, some (.finish interrupted)) =
      pending m.table m.agenda (b, some (.finish interrupted)) +
        if (m.endOf h b).map Cause.interrupts = some interrupted then 1 else 0 := by
  have accounted : Accounted h m (m.step h).table (m.step h).agenda := orderly.accounted
  have both := accounted.finishing b
  have done := count_doing m b
  rw [finishing_eq, finishing_eq] at both
  obtain ⟨new, _, count⟩ : Accounted h m (m.step h).table (m.step h).agenda := orderly.accounted
  have wholly := count (b, some (.finish true))
  have partly := count (b, some (.finish false))
  cases ends : m.endOf h b with
  | none =>
      have stays : ¬ m.Leaves h b := by simp [leaves_iff orderly.consistent, ends]
      rw [if_neg stays] at both
      cases interrupted <;> simp only [Option.map_none, reduceCtorEq, if_false] <;> omega
  | some c =>
      have leaves : m.Leaves h b := by simp [leaves_iff orderly.consistent, ends]
      have idle := accounted.doing_of_leaves leaves
      have elsewhere : ∀ rest, m.agenda ≠ .drain b :: rest := fun rest front => by
        simp [endOf, front] at ends
      have more := (adds_of_endOf orderly.sound.framed orderly.consistent ends).count_lt
      have move : Move h m (m.step h).table (m.step h).agenda := orderly.move
      have owes := move.owes_le elsewhere (.finish c.interrupts)
      have grows : pending m.table m.agenda (b, some (.finish c.interrupts)) <
          pending (m.step h).table (m.step h).agenda (b, some (.finish c.interrupts)) :=
        Nat.add_lt_add_of_lt_of_le more owes
      rw [if_pos leaves] at both
      rw [idle] at done wholly partly ⊢
      simp only [Option.toList_none, List.count_nil, Option.map_some, Option.some.injEq]
        at done wholly partly ⊢
      cases interrupted <;> cases told : c.interrupts <;> rw [told] at grows <;>
        simp only [reduceCtorEq, if_true, if_false] <;> omega

end Causes

end Machine

end RobotControl
