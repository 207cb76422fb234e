import RobotControl.Proofs.Action.Finish

/-!
# How often an action is on the list

The list of running actions holds an action once for every start since it last did not run
(`Machine.Run.count_running`).  A start that finds its action running comes from a restart: the
finish of the run that the restart ended has started the action by itself, and the restart starts
it once more (`Machine.Run.overtaken`).  A tick processes an action at most as often as it is on the
list (`Machine.Run.processed_le`).
-/
set_option autoImplicit false

namespace RobotControl

variable {ε Ω σ : Type}

/-! ### The list -/

namespace ActionTable

theorem count_running_foldl_retire (as : List ActionId) (t : ActionTable) {b : ActionId}
    (other : b ∉ as) : (as.foldl retire t).running.count b = t.running.count b := by
  induction as generalizing t with
  | nil => rfl
  | cons a rest ih =>
      have apart : b ≠ a := fun same => other (same ▸ List.mem_cons_self ..)
      rw [List.foldl_cons, ih _ fun member => other (List.mem_cons_of_mem _ member),
        running_retire, List.count_filter (by simpa using apart)]

theorem count_running_seize (t : ActionTable) (a : ActionId) (ds : List DeviceId) {b : ActionId}
    (other : b ∉ t.holders a ds) :
    (t.seize a ds).running.count b = t.running.count b + if a = b then 1 else 0 := by
  have listed : (t.seize a ds).running = ((t.holders a ds).foldl retire t).running ++ [a] := rfl
  rw [listed, List.count_append, count_running_foldl_retire _ _ other, List.count_singleton]
  simp only [beq_iff_eq]

end ActionTable

namespace Machine

/-- The starts of the action since it last did not run. -/
def rounds (h : Host ε Ω σ) (a : ActionId) : List (Machine ε Ω σ) → Nat
  | [] => 0
  | m :: past =>
      if (m.step h).table.isRunning a = true then
        rounds h a past + if m.Starts h a then 1 else 0
      else 0

section List

variable {h : Host ε Ω σ} {m : Machine ε Ω σ} {table : ActionTable} {agenda : List (Task ε Ω σ)}

theorem Move.count_running (move : Move h m table agenda) {a : ActionId}
    (runs : table.isRunning a = true) :
    table.running.count a = m.table.running.count a + if m.Starts h a then 1 else 0 := by
  have kept : ¬ m.Starts h a → table.running = m.table.running → table.running.count a =
      m.table.running.count a + if m.Starts h a then 1 else 0 := by
    intro quiet same
    rw [same, if_neg quiet, Nat.add_zero]
  have asleep : ∀ {t : Task ε Ω σ} {rest : List (Task ε Ω σ)}, m.agenda = t :: rest →
      (∀ b, t ≠ .launch b) → ¬ m.Starts h a := fun front other =>
    not_starts_of_front h m front other a
  have ended : ∀ as : List ActionId, ¬ m.Starts h a →
      (as.foldl ActionTable.retire m.table).Alike table → table.running.count a =
        m.table.running.count a + if m.Starts h a then 1 else 0 := by
    intro as quiet alike
    rw [alike.isRunning, isRunning_foldl_retire, Bool.and_eq_true] at runs
    rw [alike.running, ActionTable.count_running_foldl_retire as m.table (by simpa using runs.2),
      if_neg quiet, Nat.add_zero]
  cases move with
  | idle front => exact kept (by rintro ⟨rest, task, _⟩; simp [front] at task) rfl
  | code _ _ _ _ alike quiet => exact kept (quiet a) alike.running
  | drop _ _ _ alike quiet => exact kept (quiet a) alike.running
  | proceed _ _ _ quiet => exact kept (quiet a) rfl
  | ended _ _ _ _ _ alike quiet => exact ended [_] (quiet a) alike
  | interrupt front _ notLaunch _ _ alike => exact ended [_] (asleep front notLaunch) alike
  | stopAll front _ alike => exact ended _ (asleep front fun b same => by cases same) alike
  | tick front _ alike => exact kept (asleep front fun b same => by cases same) alike.running
  | @seize rest b ds claimed _ front claims starts alike =>
      have before : claimed.running = m.table.running ∧
          claimed.isRunning a = m.table.isRunning a := by
        rcases claims with ⟨rfl, _, _⟩ | ⟨rfl, _⟩
        · exact ⟨rfl, rfl⟩
        · exact ⟨rfl, ActionTable.isRunning_setClaims m.table b a ds⟩
      have free : a ∉ claimed.holders b ds := by
        intro held
        have other := ((ActionTable.mem_holders claimed b ds a).mp held).1
        rw [alike.isRunning, isRunning_seize] at runs
        simp [other, held] at runs
      rw [alike.running, ActionTable.count_running_seize claimed b ds free, before.1]
      have same : b = a ↔ m.Starts h a :=
        ⟨fun same => same ▸ starts, fun other => starts.unique other⟩
      simp only [same]
  | succeedNow front => exact kept (asleep front fun b same => by cases same) rfl
  | succeedLater front _ =>
      exact kept (asleep front fun b same => by cases same)
        (ActionTable.SameLocks.deferHandOver _ _ _).running
  | defer front _ =>
      exact kept (asleep front fun b same => by cases same)
        (ActionTable.SameLocks.defer _ _ _).running
  | enter front _ =>
      exact kept (asleep front fun b same => by cases same)
        (ActionTable.SameLocks.enter _ _).running
  | call front _ => exact kept (asleep front fun b same => by cases same) rfl
  | pass front _ => exact kept (asleep front fun b same => by cases same) rfl
  | wait front _ => exact kept (asleep front fun b same => by cases same) rfl
  | handOver front _ _ alike =>
      exact kept (asleep front fun b same => by cases same) alike.running
  | leave front _ =>
      exact kept (asleep front fun b same => by cases same)
        (ActionTable.SameLocks.leave _ _).running
  | drain front _ =>
      exact kept (asleep front fun b same => by cases same)
        (ActionTable.SameLocks.setOwed _ _ _).running
  | turn front _ => exact kept (asleep front fun b same => by cases same) rfl

theorem Run.count_running {past : List (Machine ε Ω σ)} (run : Run h m past) (a : ActionId) :
    m.table.running.count a = rounds h a past := by
  induction run with
  | fresh w own => rfl
  | ask r run idle ih => exact ih
  | drift w own run ih => exact ih
  | @step m past run ih =>
      have move := run.move
      by_cases runs : (m.step h).table.isRunning a = true
      · rw [rounds, if_pos runs, move.count_running runs, ih]
      · rw [rounds, if_neg runs, List.count_eq_zero]
        intro listed
        exact runs ((ActionTable.isRunning_iff ..).mpr
          (((move.consistent run.consistent).running_iff a).mpr listed))

end List

/-! ### Where starts come from -/

/-- A step leaves the lower part of an agenda, and above it new tasks that launch nothing. -/
def Launchless (tasks agenda : List (Task ε Ω σ)) : Prop :=
  ∃ gone new kept, tasks = gone ++ kept ∧ agenda = new ++ kept ∧ ∀ x ∈ new, x.launches = none

theorem Launchless.adding (new rest : List (Task ε Ω σ)) (none : ∀ x ∈ new, x.launches = none) :
    Launchless rest (new ++ rest) := ⟨[], new, rest, rfl, rfl, none⟩

theorem Launchless.refl (rest : List (Task ε Ω σ)) : Launchless rest rest :=
  adding [] rest (by simp)

theorem Launchless.below {tasks agenda : List (Task ε Ω σ)} (launchless : Launchless tasks agenda)
    (t : Task ε Ω σ) : Launchless (t :: tasks) agenda := by
  obtain ⟨gone, new, kept, rfl, rfl, none⟩ := launchless
  exact ⟨t :: gone, new, kept, rfl, rfl, none⟩

theorem launches_map (as : List ActionId) (task : ActionId → Task ε Ω σ)
    (own : ∀ a, (task a).launches = none) : ∀ x ∈ as.map task, x.launches = none := by
  intro x member
  obtain ⟨a, _, rfl⟩ := List.mem_map.mp member
  exact own a

section Source

variable {h : Host ε Ω σ} {m : Machine ε Ω σ} {past : List (Machine ε Ω σ)}

theorem launchless_returnWell (a : ActionId) (rest : List (Task ε Ω σ)) (cb : Callback) :
    Launchless rest (m.returnWell h a rest cb).agenda := by
  cases cb with
  | begin => exact .refl rest
  | finish interrupted => exact .refl rest
  | process =>
      simp only [returnWell]
      split
      · exact .adding [.run _, .returned a .proceed] rest (by simp [Task.launches])
      · exact .refl rest
  | proceed =>
      simp only [returnWell]
      split
      · exact .adding [.serve a (.finish false)] rest (by simp [Task.launches])
      · exact .refl rest

theorem launchless_returnFailed (a : ActionId) (rest : List (Task ε Ω σ)) (f : Failure)
    (cb : Callback) : Launchless rest (m.returnFailed h a rest f cb).agenda := by
  have ended : Launchless rest (.serve a (.finish true) :: rest) :=
    .adding [.serve a (.finish true)] rest (by simp [Task.launches])
  cases cb with
  | finish interrupted => exact .refl rest
  | begin =>
      simp only [returnFailed]
      split
      · exact ended
      · exact .refl rest
  | process =>
      simp only [returnFailed]
      split
      · exact ended
      · exact .refl rest
  | proceed =>
      simp only [returnFailed]
      split
      · exact ended
      · exact .refl rest

theorem launchless_unwind (f : Failure) (tasks : List (Task ε Ω σ)) :
    ∀ m : Machine ε Ω σ, Launchless tasks (m.unwind h f tasks).agenda := by
  induction tasks with
  | nil => exact fun m => .refl []
  | cons t rest ih =>
      intro m
      cases t with
      | caught next => exact (Launchless.adding [.run _] rest (by simp [Task.launches])).below _
      | returned a cb => exact (launchless_returnFailed a rest f cb).below _
      | letGo as => exact (ih _).below _
      | run r => exact (ih m).below _
      | bound next => exact (ih m).below _
      | start a restart => exact (ih m).below _
      | launch a => exact (ih m).below _
      | succeed a late => exact (ih m).below _
      | invoke a d => exact (ih m).below _
      | serve a d => exact (ih m).below _
      | drain a => exact (ih m).below _
      | turn a => exact (ih m).below _

theorem launchless_finishRoutine (o : Except Fault Unit) (rest : List (Task ε Ω σ)) :
    Launchless rest (m.finishRoutine h o rest).agenda := by
  cases rest with
  | nil => exact .refl []
  | cons t below =>
      cases t with
      | bound next => exact (Launchless.adding [.run _] below (by simp [Task.launches])).below _
      | caught next => exact (Launchless.adding [.run _] below (by simp [Task.launches])).below _
      | returned a cb =>
          cases o with
          | ok _ => exact (launchless_returnWell a below cb).below _
          | error f => exact (launchless_returnFailed a below (.fault f) cb).below _
      | _ => exact .refl _

theorem launchless_grant (next : Bool → Routine ε Ω σ) (rest : List (Task ε Ω σ)) (q : Request) :
    Launchless rest (m.grant h next rest q).agenda := by
  have each : ∀ (as : List ActionId) (task : ActionId → Task ε Ω σ) (answer : Bool),
      (∀ a, (task a).launches = none) →
        Launchless rest (as.map task ++ .letGo as :: .run (next answer) :: rest) := by
    intro as task answer own
    have whole : as.map task ++ .letGo as :: .run (next answer) :: rest =
        (as.map task ++ [.letGo as, .run (next answer)]) ++ rest := by simp
    rw [whole]
    refine .adding _ rest fun x member => ?_
    rcases List.mem_append.mp member with early | late
    · exact launches_map as task own x early
    · simp only [List.mem_cons, List.not_mem_nil, or_false] at late
      rcases late with rfl | rfl <;> rfl
  cases q with
  | start a restart =>
      simp only [grant]
      split
      · exact .adding [.run _] rest (by simp [Task.launches])
      · exact .adding [.start a restart, .letGo [a], .run _] rest (by simp [Task.launches])
  | stop a =>
      simp only [grant]
      split
      · exact .adding [.invoke a (.finish true), .letGo [a], .run _] rest (by simp [Task.launches])
      · exact .adding [.run _] rest (by simp [Task.launches])
  | stopAll => exact each _ (fun a => .invoke a (.finish true)) true fun _ => rfl
  | tick => exact each _ .turn true fun _ => rfl
  | poll =>
      simp only [grant, pollTriggers, todo, List.append_cons _ (.run (next true)) rest]
      refine .adding _ rest fun x member => ?_
      rcases List.mem_append.mp member with early | last
      · obtain ⟨b, _, task⟩ := List.mem_flatMap.mp early
        simp only [List.mem_cons, List.not_mem_nil, or_false] at task
        rcases task with rfl | rfl <;> rfl
      · rw [List.mem_singleton.mp last]
        rfl
  | bind target restart => exact .adding [.run _] rest (by simp [Task.launches])
  | unbind trigger => exact .adding [.run _] rest (by simp [Task.launches])

theorem launchless_seize (a : ActionId) (ds : List DeviceId) (rest : List (Task ε Ω σ)) :
    Launchless rest (m.seize a ds rest).agenda := by
  have whole : (m.seize a ds rest).agenda = ((m.table.holders a ds).map
      (fun o => .invoke o (.finish true)) ++ [.succeed a ((m.table.holders a ds).filter
        m.table.isBusy), .letGo (m.table.holders a ds)]) ++ rest := by
    simp [seize, workingOn, todo, afterSeizing]
  rw [whole]
  refine .adding _ rest fun x member => ?_
  rcases List.mem_append.mp member with early | late
  · exact launches_map _ _ (fun _ => rfl) x early
  · simp only [List.mem_cons, List.not_mem_nil, or_false] at late
    rcases late with rfl | rfl <;> rfl

theorem launchless_step {t : Task ε Ω σ} {rest : List (Task ε Ω σ)} (front : m.agenda = t :: rest)
    (other : ∀ a restart, t ≠ .start a restart) : Launchless rest (m.step h).agenda := by
  have adding : ∀ new : List (Task ε Ω σ), (∀ x ∈ new, x.launches = none) →
      Launchless rest (new ++ rest) := fun new => .adding new rest
  cases t with
  | run r =>
      simp only [step, front]
      cases r with
      | done o => exact launchless_finishRoutine o rest
      | panic p => exact launchless_unwind (.panic p) rest m
      | ask q next => exact launchless_grant next rest q
      | act e next => exact adding [.run _, .bound next] (by simp [Task.launches])
      | look next => exact adding [.run _] (by simp [Task.launches])
      | note change next => exact adding [.run next] (by simp [Task.launches])
      | attempt body next => exact adding [.run body, .caught next] (by simp [Task.launches])
  | bound next =>
      simp only [step, front]
      exact adding [.run _] (by simp [Task.launches])
  | caught next =>
      simp only [step, front]
      exact adding [.run _] (by simp [Task.launches])
  | returned a cb =>
      simp only [step, front]
      exact .refl rest
  | start a restart => exact absurd rfl (other a restart)
  | launch a =>
      simp only [step, front, launch]
      split
      · exact launchless_seize a _ rest
      · split
        · exact launchless_unwind _ rest _
        · exact launchless_seize a _ rest
  | succeed a late =>
      simp only [step, front]
      split
      · exact adding [.invoke a .begin] (by simp [Task.launches])
      · exact .refl rest
  | invoke a d =>
      simp only [step, front]
      split
      · exact .refl rest
      · exact adding [.serve a d, .drain a] (by simp [Task.launches])
  | serve a d =>
      simp only [step, front]
      cases d with
      | begin => exact adding [.run _, .returned a .begin] (by simp [Task.launches])
      | finish interrupted =>
          exact adding [.run _, .returned a (.finish interrupted)] (by simp [Task.launches])
      | process =>
          simp only [serve]
          split
          · exact adding [.run _, .returned a .process] (by simp [Task.launches])
          · exact .refl rest
      | handOver next ticket =>
          simp only [serve]
          split
          · exact adding [.invoke next .begin, .letGo [next]] (by simp [Task.launches])
          · exact .refl rest
  | drain a =>
      simp only [step, front]
      split
      · exact .refl rest
      · exact adding [.serve a _, .drain a] (by simp [Task.launches])
  | turn a =>
      simp only [step, front]
      split
      · exact adding [.invoke a .process] (by simp [Task.launches])
      · exact .refl rest
  | letGo as =>
      simp only [step, front]
      exact .refl rest

theorem Launchless.launch {tasks agenda front rest : List (Task ε Ω σ)} {a : ActionId}
    (launchless : Launchless tasks agenda) (whole : agenda = front ++ .launch a :: rest) :
    ∃ above, tasks = above ++ .launch a :: rest := by
  obtain ⟨gone, new, kept, rfl, rfl, none⟩ := launchless
  rcases List.append_eq_append_iff.mp whole with ⟨more, _, behind⟩ | ⟨more, within, behind⟩
  · exact ⟨gone ++ more, by rw [behind, List.append_assoc]⟩
  · cases more with
    | nil => exact ⟨gone, by rw [behind, List.nil_append]⟩
    | cons x more =>
        obtain ⟨rfl, _⟩ := List.cons.inj behind
        have launches := none (.launch a) (by simp [within])
        cases launches

/-- Where a launch on the agenda comes from: a start found the action at rest just now, or a restart
found it running and has ended that run; what was done since stood above the launch. -/
def Launching (h : Host ε Ω σ) (m : Machine ε Ω σ) (past : List (Machine ε Ω σ))
    (front : List (Task ε Ω σ)) (a : ActionId) (rest : List (Task ε Ω σ)) : Prop :=
  ∃ newer y older restart, past = newer ++ y :: older ∧ y.agenda = .start a restart :: rest ∧
    (front = [] ∧ m.table.isRunning a = false ∨
      restart = true ∧ y.table.isRunning a = true) ∧
    (∀ x ∈ newer, ∃ above, x.agenda = above ++ .launch a :: rest) ∧
    (m.table.isRunning a = true → ∃ z ∈ newer, z.Starts h a)

theorem Launching.step {front front' rest : List (Task ε Ω σ)} {a : ActionId} (run : Run h m past)
    (launching : Launching h m past front a rest) (whole : m.agenda = front ++ .launch a :: rest)
    (above : front ≠ []) : Launching h (m.step h) (m :: past) front' a rest := by
  obtain ⟨newer, y, older, restart, rfl, start, origin, between, since⟩ := launching
  have found := origin.resolve_left fun fresh => above fresh.1
  refine ⟨m :: newer, y, older, restart, rfl, start, .inr found, fun x member => ?_,
    fun runs => ?_⟩
  · rcases List.mem_cons.mp member with rfl | early
    · exact ⟨front, whole⟩
    · exact between x early
  · by_cases before : m.table.isRunning a = true
    · obtain ⟨z, member, starts⟩ := since before
      exact ⟨z, List.mem_cons_of_mem _ member, starts⟩
    · have rises : m.Rises h a := ⟨by simpa using before, runs⟩
      exact ⟨m, List.mem_cons_self .., run.accounted.starts_of_rises rises⟩

theorem Run.launching (run : Run h m past) :
    ∀ front a rest, m.agenda = front ++ .launch a :: rest → Launching h m past front a rest := by
  induction run with
  | fresh w own => simp
  | ask r run idle ih =>
      intro front a rest whole
      have member : .launch a ∈ (Machine.asked _ r).agenda :=
        whole ▸ List.mem_append_right front (List.mem_cons_self ..)
      cases List.mem_singleton.mp member
  | drift w own run ih => exact ih
  | @step m past run ih =>
      intro front a rest whole
      cases agenda : m.agenda with
      | nil => simp [Machine.step, agenda] at whole
      | cons t below =>
          have deeper : (∃ above, below = above ++ .launch a :: rest) →
              Launching h (m.step h) (m :: past) front a rest := by
            rintro ⟨above, rfl⟩
            exact (ih (t :: above) a rest agenda).step run agenda (by simp)
          by_cases start : ∃ b restart, t = .start b restart
          · obtain ⟨b, restart, rfl⟩ := start
            by_cases runs : m.table.isRunning b = true
            · cases restart with
              | false =>
                  simp only [Machine.step, agenda, if_pos runs, Bool.false_eq_true, if_false,
                    todo] at whole
                  exact deeper ⟨front, whole⟩
              | true =>
                  have stands : (m.step h).table.isRunning b = false := by
                    simp [Machine.step, agenda, runs, interrupting, isRunning_retire]
                  simp only [Machine.step, agenda, if_pos runs, interrupting] at whole
                  rcases front with _ | ⟨x, _ | ⟨y, front⟩⟩
                  · cases whole
                  · cases whole
                    exact ⟨[], m, past, true, rfl, agenda, .inr ⟨rfl, runs⟩, by simp,
                      fun again => by simp [stands] at again⟩
                  · exact deeper ⟨front, (List.cons.inj (List.cons.inj whole).2).2⟩
            · have stands : (m.step h).table.isRunning b = false := by
                simp [Machine.step, agenda, runs, todo]
              simp only [Machine.step, agenda, if_neg runs, todo] at whole
              rcases front with _ | ⟨x, front⟩
              · cases whole
                exact ⟨[], m, past, restart, rfl, agenda, .inl ⟨rfl, stands⟩, by simp,
                  fun again => by simp [stands] at again⟩
              · exact deeper ⟨front, (List.cons.inj whole).2⟩
          · refine deeper ((launchless_step agenda fun b restart same => ?_).launch whole)
            exact start ⟨b, restart, same⟩

/-- A start that finds its action running belongs to a restart: the restart found it running and
ended that run, and while that run finished the action was started again. -/
theorem Run.overtaken {a : ActionId} (run : Run h m past) (starts : m.Starts h a)
    (runs : m.table.isRunning a = true) :
    ∃ newer y older rest, past = newer ++ y :: older ∧ y.agenda = .start a true :: rest ∧
      y.table.isRunning a = true ∧ m.agenda = .launch a :: rest ∧
      (∀ x ∈ newer, ∃ above, x.agenda = above ++ .launch a :: rest) ∧
      ∃ z ∈ newer, z.Starts h a := by
  obtain ⟨rest, front, _⟩ := starts
  obtain ⟨newer, y, older, restart, split, start, origin, between, since⟩ :=
    run.launching [] a rest front
  rcases origin with ⟨_, stands⟩ | ⟨rfl, ran⟩
  · rw [runs] at stands
    cases stands
  · exact ⟨newer, y, older, rest, split, start, ran, front, between, since runs⟩

end Source

/-! ### What a tick processes -/

def Ticks (m : Machine ε Ω σ) : Prop := ∃ next rest, m.agenda = .run (.ask .tick next) :: rest

end Machine

def Task.processes : Task ε Ω σ → Option ActionId
  | .turn a => some a
  | .invoke a d | .serve a d => if d = .process then some a else none
  | _ => none

theorem Task.processes_of_isCode (t : Task ε Ω σ) (code : t.isCode = true) :
    t.processes = none := by
  cases t <;> first | rfl | cases code

/-- The actions that are still to be processed, once for each time. -/
def processing (tasks : List (Task ε Ω σ)) : List ActionId := tasks.filterMap Task.processes

theorem processing_append (new rest : List (Task ε Ω σ)) :
    processing (new ++ rest) = processing new ++ processing rest := List.filterMap_append

theorem processing_turns (as : List ActionId) :
    processing (as.map (Task.turn : ActionId → Task ε Ω σ)) = as := by
  induction as with
  | nil => rfl
  | cons a as ih => exact congrArg (List.cons a) ih

theorem processing_eq_nil {tasks : List (Task ε Ω σ)} (none : ∀ x ∈ tasks, x.processes = none) :
    processing tasks = [] := List.filterMap_eq_nil_iff.mpr none

theorem count_processing_serve (a b : ActionId) (d : Deferred) :
    (processing [(.serve b d : Task ε Ω σ)]).count a = if b = a ∧ d = .process then 1 else 0 := by
  by_cases process : d = .process <;>
    simp [processing, Task.processes, process, List.count_singleton]

theorem count_processing_invoke (a b : ActionId) (d : Deferred) :
    (processing [(.invoke b d : Task ε Ω σ)]).count a = if b = a ∧ d = .process then 1 else 0 := by
  by_cases process : d = .process <;>
    simp [processing, Task.processes, process, List.count_singleton]

theorem processing_of_isCode {tasks : List (Task ε Ω σ)} (codes : ∀ x ∈ tasks, x.isCode = true) :
    processing tasks = [] :=
  processing_eq_nil fun x member => x.processes_of_isCode (codes x member)

namespace Machine

theorem enters_process_iff (m : Machine ε Ω σ) (a : ActionId) :
    m.Enters a .process ↔ m.doing = some (a, some .process) ∧ m.table.isRunning a = true := by
  constructor
  · intro inside
    cases inside with
    | process front runs => exact ⟨by rw [doing_eq front]; rfl, runs⟩
  · rintro ⟨does, runs⟩
    cases front : m.agenda with
    | nil => simp [doing, front] at does
    | cons t rest =>
        rw [doing_eq front] at does
        cases t with
        | serve b d =>
            simp only [Task.does, Option.some.injEq, Prod.mk.injEq] at does
            obtain ⟨rfl, rfl⟩ := does
            exact .process front runs
        | succeed b late => cases late <;> cases does
        | _ => cases does

instance (m : Machine ε Ω σ) (a : ActionId) : Decidable (m.Enters a .process) :=
  decidable_of_iff _ (m.enters_process_iff a).symm

theorem enters_process_le {m : Machine ε Ω σ} {b : ActionId} {d : Deferred}
    {rest : List (Task ε Ω σ)} (front : m.agenda = .serve b d :: rest) (a : ActionId) :
    (if m.Enters a .process then 1 else 0) ≤ (processing [(.serve b d : Task ε Ω σ)]).count a := by
  rw [count_processing_serve]
  by_cases inside : m.Enters a .process
  · obtain ⟨does, _⟩ := (m.enters_process_iff a).mp inside
    rw [doing_eq front] at does
    cases does
    simp [inside]
  · simp [inside]

/-- How often the action is still to be processed. -/
def load (table : ActionTable) (agenda : List (Task ε Ω σ)) (a : ActionId) : Nat :=
  (processing agenda).count a + (table.owed a).count .process

section Tick

variable {h : Host ε Ω σ} {m : Machine ε Ω σ} {table : ActionTable} {agenda : List (Task ε Ω σ)}
  {past : List (Machine ε Ω σ)}

theorem load_moved {a : ActionId} {f n rest : List (Task ε Ω σ)} (whole : m.agenda = f ++ rest)
    (less : (processing n).count a + (table.owed a).count .process +
      (if m.Enters a .process then 1 else 0) ≤
        (processing f).count a + (m.table.owed a).count .process) :
    load table (n ++ rest) a + (if m.Enters a .process then 1 else 0) ≤
      load m.table m.agenda a := by
  rw [load, load, whole, processing_append, processing_append, List.count_append,
    List.count_append]
  omega

theorem load_unserved {a : ActionId} {f n rest : List (Task ε Ω σ)} (whole : m.agenda = f ++ rest)
    (idle : m.doing = none) (none : ∀ x ∈ n, x.processes = none)
    (owed : ∀ b, table.owed b = m.table.owed b) :
    load table (n ++ rest) a + (if m.Enters a .process then 1 else 0) ≤
      load m.table m.agenda a := by
  refine load_moved whole ?_
  rw [processing_eq_nil none, owed, if_neg (by simp [enters_process_iff, idle])]
  simp

/-- A step takes each call of `process` from what is still to be processed; only a tick adds to it,
every action as often as it is on the list. -/
theorem Move.load (move : Move h m table agenda) (a : ActionId) :
    load table agenda a + (if m.Enters a .process then 1 else 0) ≤ load m.table m.agenda a ∨
      m.Ticks ∧ load table agenda a + (if m.Enters a .process then 1 else 0) ≤
        load m.table m.agenda a + m.table.running.count a := by
  cases move with
  | idle front =>
      have idle : m.doing = none := by rw [doing, front]; rfl
      exact .inl (load_unserved (f := []) (n := []) front idle (by simp) fun _ => rfl)
  | @code front new rest t _ whole codes fails newCodes alike quiet =>
      have split : m.agenda = (front ++ [t]) ++ rest := by rw [whole, List.append_assoc]; rfl
      have all : ∀ x ∈ front ++ [t], x.isCode = true := fun x member => by
        rcases List.mem_append.mp member with early | last
        · exact codes x early
        · exact List.mem_singleton.mp last ▸ t.isCode_of_mayFail fails
      exact .inl (load_unserved split (doing_of_isCode split (by simp) all)
        (fun x member => x.processes_of_isCode (newCodes x member)) alike.owed)
  | drop whole some light alike quiet =>
      exact .inl (load_unserved (n := []) whole (doing_of_isLight whole some light) (by simp)
        alike.owed)
  | @proceed front rest b whole codes some quiet =>
      exact .inl (load_unserved (f := front ++ [.returned b .process]) (n := [_, _])
        (by simp [whole]) (doing_of_isCode whole some codes) (by simp [Task.processes])
        fun _ => rfl)
  | @ended front rest b cb _ interrupted whole codes some runs alike quiet =>
      exact .inl (load_unserved (f := front ++ [.returned b cb]) (n := [_]) (by simp [whole])
        (doing_of_isCode whole some codes) (by simp [Task.processes]) fun c =>
          (alike.owed c).trans (sameCalls_retireEach m.table [b] c).2)
  | @interrupt new rest t b _ whole fails notLaunch newCodes runs alike =>
      have code := t.isCode_of_mayFail fails
      refine .inl (load_unserved (f := [t]) (n := .invoke b (.finish true) :: new) whole
        (doing_of_isCode whole (List.cons_ne_nil t []) (by simpa using code))
        (fun x member => ?_) fun c =>
          (alike.owed c).trans (sameCalls_retireEach m.table [b] c).2)
      rcases List.mem_cons.mp member with rfl | later
      · rfl
      · exact x.processes_of_isCode (newCodes x later)
  | @stopAll new rest next _ whole newCodes alike =>
      rw [← List.append_assoc]
      refine .inl (load_unserved (f := [_]) whole (doing_eq whole) (fun x member => ?_) fun c =>
          (alike.owed c).trans (sameCalls_retireEach m.table _ c).2)
      rcases List.mem_append.mp member with finish | code
      · obtain ⟨b, _, rfl⟩ := List.mem_map.mp finish
        rfl
      · exact x.processes_of_isCode (newCodes x code)
  | @tick new rest next _ whole newCodes alike =>
      refine .inr ⟨⟨next, rest, whole⟩, ?_⟩
      have before : processing m.agenda = processing rest := by rw [whole]; rfl
      rw [if_neg (by simp [enters_process_iff, doing_eq whole, Task.does]), Machine.load,
        Machine.load, processing_append, processing_append, processing_turns,
        processing_of_isCode newCodes,
        before, alike.owed, List.count_append, List.nil_append]
      omega
  | @seize rest b ds claimed _ whole claims starts alike =>
      rw [List.append_cons]
      refine .inl (load_unserved (f := [_]) whole (doing_eq whole) (fun x member => ?_) fun c =>
        (sameCalls_start claims alike c).2)
      rcases List.mem_append.mp member with start | last
      · rcases List.mem_append.mp start with finish | succeed
        · obtain ⟨o, _, rfl⟩ := List.mem_map.mp finish
          rfl
        · rw [List.mem_singleton.mp succeed]
          rfl
      · rw [List.mem_singleton.mp last]
        rfl
  | succeedNow whole =>
      exact .inl (load_unserved (f := [_]) (n := [_]) whole (doing_eq whole)
        (by simp [Task.processes]) fun _ => rfl)
  | @succeedLater rest b late whole others =>
      obtain ⟨o, more, rfl⟩ := List.exists_cons_of_ne_nil others
      refine .inl (load_moved (f := [_]) (n := []) whole ?_)
      simp [enters_process_iff, doing_eq whole, Task.does, processing, Task.processes,
        ActionTable.owed_deferHandOver, List.count_replicate]
  | @defer rest b d whole busy =>
      refine .inl (load_moved (f := [_]) (n := []) whole ?_)
      rw [if_neg (by simp [enters_process_iff, doing_eq whole, Task.does]),
        count_processing_invoke, ActionTable.owed_defer]
      by_cases self : b = a
      · simp [self, List.count_singleton, Nat.add_comm, processing]
      · simp [self, processing]
  | @enter rest b d whole free =>
      refine .inl (load_moved (f := [_]) (n := [.serve b d, .drain b]) whole ?_)
      rw [if_neg (by simp [enters_process_iff, doing_eq whole, Task.does]),
        count_processing_invoke, ActionTable.owed_enter, ← count_processing_serve]
      exact Nat.le_refl _
  | @call rest b d cb whole enters =>
      refine .inl (load_moved (f := [_]) (n := [_, _]) whole ?_)
      have less := enters_process_le whole a
      rw [processing_eq_nil (by simp [Task.processes])]
      simpa [Nat.add_comm] using less
  | pass whole stands =>
      refine .inl (load_moved (f := [_]) (n := []) whole ?_)
      simpa [processing, Nat.add_comm] using enters_process_le whole a
  | wait whole reason =>
      refine .inl (load_moved (f := [_]) (n := []) whole ?_)
      simpa [processing, Nat.add_comm] using enters_process_le whole a
  | handOver whole last runs alike =>
      refine .inl (load_moved (f := [_]) (n := [_, _]) whole ?_)
      have less := enters_process_le whole a
      rw [processing_eq_nil (by simp [Task.processes]), alike.owed]
      simpa [Nat.add_comm] using less
  | @leave _ b whole nothing =>
      exact .inl (load_unserved (f := [_]) (n := []) whole (doing_eq whole) (by simp)
        (m.table.owed_leave b))
  | @drain rest b d ds whole owed =>
      refine .inl (load_moved (f := [_]) (n := [.serve b d, .drain b]) whole ?_)
      have served : (processing [(.serve b d : Task ε Ω σ), .drain b]).count a =
          if b = a ∧ d = .process then 1 else 0 := count_processing_serve a b d
      rw [if_neg (by simp [enters_process_iff, doing_eq whole, Task.does]), served,
        ActionTable.owed_setOwed]
      by_cases self : b = a
      · rw [self] at owed
        simp [self, owed, List.count_cons, Nat.add_comm]
      · simp [self]
  | @turn rest b whole runs =>
      refine .inl (load_moved (f := [.turn b]) (n := [.invoke b .process]) whole ?_)
      rw [if_neg (by simp [enters_process_iff, doing_eq whole, Task.does])]
      exact Nat.le_refl _

theorem Run.load_since (run : Run h m past) :
    ∀ newer t older, past = newer ++ t :: older → (∀ x ∈ newer, ¬ x.Ticks) → ∀ a,
      newer.countP (fun x => x.Enters a .process) + Machine.load m.table m.agenda a ≤
        Machine.load t.table t.agenda a + t.table.running.count a := by
  induction run with
  | fresh w own => simp
  | ask r run idle ih =>
      intro newer t older split quiet a
      have same := ih newer t older split quiet a
      rw [idle] at same
      exact same
  | drift w own run ih => exact ih
  | @step m past run ih =>
      intro newer t older split quiet a
      have law := run.move.load a
      cases newer with
      | nil =>
          cases split
          rw [List.countP_nil]
          rcases law with less | ⟨_, less⟩ <;> omega
      | cons x newer =>
          obtain ⟨rfl, rfl⟩ := List.cons.inj split
          have before := ih newer t older rfl
            (fun x member => quiet x (List.mem_cons_of_mem _ member)) a
          have less := law.resolve_right fun ticks => quiet m (List.mem_cons_self ..) ticks.1
          simp only [List.countP_cons, decide_eq_true_eq]
          omega

theorem Run.processed_le {newer older : List (Machine ε Ω σ)} {t : Machine ε Ω σ}
    {next : Bool → Routine ε Ω σ} (run : Run h m past) (split : past = newer ++ t :: older)
    (asked : t.agenda = [.run (.ask .tick next)]) (quiet : ∀ x ∈ newer, ¬ x.Ticks)
    (a : ActionId) :
    newer.countP (fun x => x.Enters a .process) ≤ t.table.running.count a := by
  obtain ⟨before, run'⟩ := run.earlier (x := t) (by simp [split])
  have free : t.table.isBusy a = false := by
    by_contra busy
    rw [Bool.not_eq_false, run'.sound.busy_iff, asked] at busy
    cases busy
  have nothing : Machine.load t.table t.agenda a = 0 := by
    rw [Machine.load, asked, run'.sound.owed_eq_nil free]
    rfl
  have bound := run.load_since newer t older split quiet a
  omega

theorem Run.rounds_le_one {a : ActionId} (run : Run h m past)
    (apart : ∀ x ∈ past, x.Starts h a → x.table.isRunning a = false) : rounds h a past ≤ 1 := by
  induction run with
  | fresh w own => exact Nat.zero_le 1
  | ask r run idle ih => exact ih apart
  | drift w own run ih => exact ih apart
  | @step m past run ih =>
      have before := ih fun x member => apart x (List.mem_cons_of_mem _ member)
      rw [rounds]
      split
      · by_cases starts : m.Starts h a
        · have stands := apart m (List.mem_cons_self ..) starts
          have fresh : rounds h a past = 0 := by
            rw [← run.count_running a, List.count_eq_zero, ← run.consistent.running_iff,
              ← ActionTable.isRunning_iff, stands]
            exact Bool.false_ne_true
          simp [if_pos starts, fresh]
        · rw [if_neg starts]
          exact before
      · exact Nat.zero_le 1

/-- The list of running actions holds an action once for every start since it last did not run,
hence at most once as long as no start finds the action running.  A start that does belongs to a
restart: while the run that the restart has ended finished, above the restart's own start, the
action was started again.  A tick processes an action at most as often as it is on the list. -/
theorem listed_per_start (run : Run h m past) (a : ActionId) :
    m.table.running.count a = rounds h a past ∧
      ((∀ x ∈ past, x.Starts h a → x.table.isRunning a = false) →
        m.table.running.count a ≤ 1) ∧
      (m.Starts h a → m.table.isRunning a = true →
        ∃ newer y older rest, past = newer ++ y :: older ∧ y.agenda = .start a true :: rest ∧
          y.table.isRunning a = true ∧ m.agenda = .launch a :: rest ∧
          (∀ x ∈ newer, ∃ above, x.agenda = above ++ .launch a :: rest) ∧
          ∃ z ∈ newer, z.Starts h a) ∧
      ∀ newer t older next, past = newer ++ t :: older → t.agenda = [.run (.ask .tick next)] →
        (∀ x ∈ newer, ¬ x.Ticks) →
          newer.countP (fun x => x.Enters a .process) ≤ t.table.running.count a := by
  have listed := run.count_running a
  refine ⟨listed, fun apart => ?_, run.overtaken, fun newer t older next split asked quiet => ?_⟩
  · rw [listed]
    exact run.rounds_le_one apart
  · exact run.processed_le split asked quiet a

end Tick

end Machine

def restarted : Machine Empty Unit Unit :=
  Host.quiet.play [(.start ⟨1⟩ true, 15), (.start ⟨1⟩ false, 12)]

/-- An action that is restarted from outside is on the list once. -/
theorem listed_per_start_restarted :
    ∃ past, Machine.Run Host.quiet restarted past ∧ Machine.rounds Host.quiet ⟨1⟩ past = 1 ∧
      restarted.table.running.count ⟨1⟩ ≤ 1 := by
  have first := ((Machine.Run.fresh (h := Host.quiet) () ()).ask (.start ⟨1⟩ false) rfl).steps 12
  have run := (first.ask (.start ⟨1⟩ true) rfl).steps 15
  obtain ⟨listed, once, _, _⟩ := Machine.listed_per_start run ⟨1⟩
  exact ⟨_, run, listed.symm.trans (by decide), once (by decide)⟩

/-- An action that starts itself again when it finishes. -/
def Host.reviving : Host Empty Unit Unit := .plain (fun _ => [⟨1⟩]) fun a cb =>
  match cb with
  | .finish _ => .ask (.start a false) fun _ => .skip
  | _ => .skip

/-- Restarted while it runs, the action ends up on the list twice, and the next tick processes it
twice. -/
theorem listed_twice :
    ∃ past, Machine.Run Host.reviving
        (Host.reviving.play [(.start ⟨1⟩ true, 25), (.start ⟨1⟩ false, 12)]) past ∧
      (Host.reviving.play [(.start ⟨1⟩ true, 25), (.start ⟨1⟩ false, 12)]).agenda = [] ∧
      (Host.reviving.play [(.start ⟨1⟩ true, 25), (.start ⟨1⟩ false, 12)]).table.running =
        [⟨1⟩, ⟨1⟩] ∧
      (((Host.reviving.play [(.start ⟨1⟩ true, 25), (.start ⟨1⟩ false, 12)]).asked .tick).trail
        Host.reviving 15 []).countP (fun x => x.Enters ⟨1⟩ .process) = 2 := by
  have first := ((Machine.Run.fresh (h := Host.reviving) () ()).ask (.start ⟨1⟩ false) rfl).steps 12
  exact ⟨_, (first.ask (.start ⟨1⟩ true) rfl).steps 25, rfl, by decide, by decide⟩

end RobotControl
