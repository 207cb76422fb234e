import RobotControl.Proofs.Action.Finish
import RobotControl.Proofs.Action.Notes

/-!
# Stopping all actions

A stop of all actions ends every run in one change of the table and then lets one action after
another finish, the one started last first.  Whatever their callbacks ask for, each of them is
called once for the run that was stopped, and no other action is called from outside all callbacks
(`Sweeping`).  But what a callback starts meanwhile runs on: `AllStopped` says which actions run and
own devices when the stop returns.
-/
set_option autoImplicit false

namespace RobotControl

variable {ε Ω σ : Type}

def Note.entered : Note → Option (ActionId × Callback)
  | .enters a cb => some (a, cb)
  | _ => none

namespace Machine

variable {h : Host ε Ω σ} {m m' : Machine ε Ω σ} {newer : List (Machine ε Ω σ)}

/-- The manager works on, and world and application change by themselves.  The machines that have
made a step come along, the latest first. -/
inductive Works (h : Host ε Ω σ) (m : Machine ε Ω σ) :
    Machine ε Ω σ → List (Machine ε Ω σ) → Prop
  | still : Works h m m []
  | drift {m' : Machine ε Ω σ} {newer : List (Machine ε Ω σ)} (w : Ω) (own : σ)
      (works : Works h m m' newer) : Works h m { m' with world := w, own := own } newer
  | step {m' : Machine ε Ω σ} {newer : List (Machine ε Ω σ)} (works : Works h m m' newer) :
      Works h m (m'.step h) (m' :: newer)

/-- The action was started, and its run has not ended since its last start. -/
def Outlasts (h : Host ε Ω σ) (b : ActionId) : List (Machine ε Ω σ) → Prop
  | [] => False
  | x :: earlier => x.Starts h b ∨ ¬ x.Leaves h b ∧ Outlasts h b earlier

/-- The callbacks that the step enters outside all others. -/
def outer (h : Host ε Ω σ) (m : Machine ε Ω σ) : List (ActionId × Callback) :=
  if (frames m.agenda).length = 1 then (m.notes h).filterMap Note.entered else []

/-- Each action is called to finish, and then for what it has asked of itself meanwhile. -/
def visited (visits : List (ActionId × List Callback)) : List (ActionId × Callback) :=
  visits.flatMap fun v => (.finish true :: v.2).map (v.1, ·)

/-- What has come of a stop of all actions, from the machine that was asked for it to the one in
which it returns. -/
structure AllStopped (h : Host ε Ω σ) (m : Machine ε Ω σ) (newer : List (Machine ε Ω σ))
    (m' : Machine ε Ω σ) : Prop where
  atOnce : (m.step h).table.running = [] ∧ (∀ d, (m.step h).table.owner d = none) ∧
    ∀ b, m.table.isRunning b = true → (m.step h).table.phase b = .finished
  /-- Those that ran are called in turn, the one started last first, and nobody else is. -/
  calls : ∃ visits : List (ActionId × List Callback),
    visits.map (·.1) = m.table.running.reverse.eraseDups ∧
      newer.reverse.flatMap (outer h) = visited visits
  /-- One finish for every run that was stopped, and for every later one that was interrupted. -/
  interrupts : ∀ b, newer.countP (fun x => x.Enters b (.finish true)) =
    (if m.table.isRunning b then 1 else 0) +
      newer.countP fun x => (x.endOf h b).map Cause.interrupts = some true
  completes : ∀ b, newer.countP (fun x => x.Enters b (.finish false)) =
    newer.countP fun x => (x.endOf h b).map Cause.interrupts = some false
  runs : ∀ b, m'.table.isRunning b = true ↔ Outlasts h b newer
  owners : ∀ d b, m'.table.owner d = some b → Outlasts h b newer
  /-- If nothing is started meanwhile, all is still, and each action was called once. -/
  quiet : (∀ x ∈ newer, ∀ b, ¬ x.Starts h b) →
    m'.table.running = [] ∧ (∀ d, m'.table.owner d = none) ∧
      ∀ b, newer.countP (fun x => x.Enters b (.finish true)) =
        if m.table.isRunning b then 1 else 0

/-! ### Working on -/

theorem Works.orderly (works : Works h m m' newer) (orderly : m.Orderly) : m'.Orderly := by
  induction works with
  | still => exact orderly
  | drift w own works ih => exact ⟨ih.sound, ih.consistent⟩
  | step works ih => exact ih.step

theorem Works.steps (works : Works h m m' newer) (n : Nat) :
    Works h m (m'.steps h n) (m'.trail h n newer) := by
  induction n generalizing m' newer with
  | zero => exact works
  | succ n ih => exact ih works.step

theorem Orderly.runs_step (orderly : m.Orderly) (b : ActionId) :
    (m.step h).table.isRunning b = true ↔
      m.Starts h b ∨ ¬ m.Leaves h b ∧ m.table.isRunning b = true := by
  have accounted : Accounted h m (m.step h).table (m.step h).agenda := orderly.accounted
  by_cases starts : m.Starts h b
  · simp [starts, accounted.runs_of_starts starts]
  · cases ran : m.table.isRunning b with
    | true => simp [starts, Leaves, ran]
    | false =>
        have stands : (m.step h).table.isRunning b ≠ true := fun runs =>
          starts (accounted.starts_of_rises ⟨ran, runs⟩)
        simp [starts, stands]

/-- Where nothing ran, what runs later was started meanwhile. -/
theorem Works.runs (works : Works h m m' newer) (orderly : m.Orderly) {b : ActionId}
    (stands : m.table.isRunning b = false) :
    m'.table.isRunning b = true ↔ Outlasts h b newer := by
  induction works with
  | still => simp [stands, Outlasts]
  | drift w own works ih => exact ih
  | step works ih => rw [(works.orderly orderly).runs_step, ih, Outlasts]

theorem not_outlasts {b : ActionId} (quiet : ∀ x ∈ newer, ¬ x.Starts h b) :
    ¬ Outlasts h b newer := by
  induction newer with
  | nil => exact id
  | cons x earlier ih =>
      obtain ⟨now, before⟩ := List.forall_mem_cons.mp quiet
      rintro (starts | ⟨_, outlasts⟩)
      · exact now starts
      · exact ih before outlasts

theorem Works.countP_endOf (works : Works h m m' newer) (orderly : m.Orderly) {b : ActionId}
    (stands : m.table.isRunning b = false) (quiet : ∀ x ∈ newer, ¬ x.Starts h b) (told : Bool) :
    newer.countP (fun x => (x.endOf h b).map Cause.interrupts = some told) = 0 := by
  induction works with
  | still => rfl
  | drift w own works ih => exact ih quiet
  | @step m' newer works ih =>
      obtain ⟨_, before⟩ := List.forall_mem_cons.mp quiet
      have still : m'.table.isRunning b ≠ true := fun runs =>
        not_outlasts before ((works.runs orderly stands).mp runs)
      rw [List.countP_cons, ih before, endOf, if_neg still]
      rfl

/-- The account of a step: a finish entered, the finishes due, and the run that ends. -/
theorem Orderly.finish_step (orderly : m.Orderly) (b : ActionId) (interrupted : Bool) :
    (if m.Enters b (.finish interrupted) then 1 else 0) +
        pending (m.step h).table (m.step h).agenda (b, some (.finish interrupted)) =
      pending m.table m.agenda (b, some (.finish interrupted)) +
        if (m.endOf h b).map Cause.interrupts = some interrupted then 1 else 0 := by
  have due := orderly.finish_due (h := h) b interrupted
  rw [count_doing_finish] at due
  omega

theorem Works.finishes (works : Works h m m' newer) (orderly : m.Orderly) (b : ActionId)
    (interrupted : Bool) :
    newer.countP (fun x => x.Enters b (.finish interrupted)) +
        pending m'.table m'.agenda (b, some (.finish interrupted)) =
      pending m.table m.agenda (b, some (.finish interrupted)) +
        newer.countP fun x => (x.endOf h b).map Cause.interrupts = some interrupted := by
  induction works with
  | still => simp
  | drift w own works ih => exact ih
  | step works ih =>
      have due := (works.orderly orderly).finish_step (h := h) b interrupted
      rw [List.countP_cons, List.countP_cons]
      simp only [decide_eq_true_eq]
      omega

/-! ### Outside all callbacks -/

theorem isCode_of_frames {tasks : List (Task ε Ω σ)} (unwindable : Unwindable tasks)
    (framed : Framed tasks) (outside : frames tasks = []) : ∀ x ∈ tasks, x.isCode = true := by
  induction tasks with
  | nil => exact fun x none => by cases none
  | cons t rest ih =>
      have below : frames rest = [] := by
        rw [← List.singleton_append, frames_append, List.append_eq_nil_iff] at outside
        exact outside.2
      cases t with
      | returned a cb =>
          obtain ⟨_, rfl⟩ := framed.2.1 a rfl
          cases below
      | _ =>
          obtain ⟨code, more⟩ := unwindable
          exact List.forall_mem_cons.mpr ⟨code, ih more framed.tail below⟩

theorem Orderly.isCode (orderly : m.Orderly) {t : Task ε Ω σ} {rest : List (Task ε Ω σ)}
    (front : m.agenda = t :: rest) (fails : t.mayFail = true) (outside : frames rest = []) :
    ∀ x ∈ rest, x.isCode = true :=
  have framed := front ▸ orderly.sound.framed
  isCode_of_frames (framed.1 fails) framed.tail outside

theorem Orderly.pending_eq_zero (orderly : m.Orderly) {r : Routine ε Ω σ}
    {rest : List (Task ε Ω σ)} (front : m.agenda = .run r :: rest) (outside : frames rest = [])
    (w : Item) : pending m.table m.agenda w = 0 := by
  have codes := orderly.isCode front rfl outside
  refine orderly.pending_eq_zero_of_isLight (fun x member => x.isLight_of_isCode ?_) w
  rw [front] at member
  rcases List.mem_cons.mp member with rfl | below
  · rfl
  · exact codes x below

theorem frames_of_entered (framed : Framed m.agenda) {c : ActionId × Callback}
    (entered : c ∈ (m.notes h).filterMap Note.entered) :
    ∃ deeper, frames m.agenda = c.1 :: deeper := by
  obtain ⟨note, member, enters⟩ := List.mem_filterMap.mp entered
  have own : ∀ {a : ActionId} {t : Task ε Ω σ} {rest : List (Task ε Ω σ)},
      m.agenda = t :: rest → t.inside = some a → ∃ deeper, frames m.agenda = a :: deeper := by
    intro a t rest front within
    rw [front] at framed ⊢
    obtain ⟨below, rfl⟩ := framed.2.1 a within
    cases t with
    | serve b d => exact ⟨frames below, rfl⟩
    | returned b cb => exact ⟨frames below, rfl⟩
    | _ => cases within
  cases shows_of_mem member with
  | asks front => cases enters
  | needs front demands => cases enters
  | leaves leaving => cases enters
  | enters entering =>
      cases enters
      cases entering with
      | begin front => exact own front rfl
      | process front runs => exact own front rfl
      | finish front => exact own front rfl
  | @proceeds a rest front =>
      cases enters
      rw [front] at framed ⊢
      obtain ⟨below, rfl⟩ := framed.tail.2.1 a rfl
      exact ⟨frames below, rfl⟩

theorem outer_inside (framed : Framed m.agenda) {above below : List (Task ε Ω σ)} {a : ActionId}
    (whole : m.agenda = above ++ .drain a :: below) (outside : frames below = []) :
    ∃ own : List Callback, m.outer h = own.map (a, ·) := by
  have alone : ∀ c ∈ m.outer h, c.1 = a := by
    intro c member
    unfold outer at member
    split at member
    · rename_i single
      obtain ⟨deeper, top⟩ := frames_of_entered framed member
      have inside : frames m.agenda = frames above ++ [a] := by
        rw [whole, frames_append, ← List.singleton_append, frames_append, outside]
        rfl
      rw [inside] at single top
      have nothing : frames above = [] := by simpa using single
      rw [nothing] at top
      exact (List.cons.inj top).1.symm
    · cases member
  refine ⟨(m.outer h).map (·.2), ?_⟩
  rw [List.map_map]
  exact (List.map_congr_left fun c member => by rw [← alone c member]; rfl).trans
    (List.map_id _) |>.symm

theorem outer_eq_nil (silent : m.notes h = []) : m.outer h = [] := by
  unfold outer
  rw [silent]
  split <;> rfl

/-! ### The sweep -/

/-- What a stop of all actions has left to do for the actions, above what follows. -/
def sweep (as : List ActionId) (below : List (Task ε Ω σ)) : List (Task ε Ω σ) :=
  as.map (fun a => .invoke a (.finish true)) ++ below

/-- How far the sweep has come: the actions to be visited, and the calls of the visit under way. -/
inductive Sweeping (below : List (Task ε Ω σ)) :
    List ActionId → List (Task ε Ω σ) → List (ActionId × Callback) → Prop
  | between (as : List ActionId) : Sweeping below as (sweep as below) []
  | entering (a : ActionId) (as : List ActionId) :
      Sweeping below (a :: as) (.serve a (.finish true) :: .drain a :: sweep as below) []
  | inside (a : ActionId) (as : List ActionId) (above : List (Task ε Ω σ)) (own : List Callback) :
      Sweeping below (a :: as) (above ++ .drain a :: sweep as below)
        ((.finish true :: own).map (a, ·))

section Sweeping

variable {below agenda : List (Task ε Ω σ)} {as : List ActionId}
  {calls : List (ActionId × Callback)}

theorem Sweeping.length_le (sweeping : Sweeping below as agenda calls) :
    below.length ≤ agenda.length := by
  cases sweeping <;> simp only [sweep, List.length_append, List.length_cons] <;> omega

theorem Sweeping.ended (sweeping : Sweeping below as agenda calls) (last : agenda = below) :
    as = [] ∧ calls = [] := by
  have length := congrArg List.length last
  cases sweeping with
  | between as =>
      cases as with
      | nil => exact ⟨rfl, rfl⟩
      | cons a as =>
          simp only [sweep, List.map_cons, List.length_append, List.length_cons] at length
          omega
  | entering a as =>
      simp only [sweep, List.length_append, List.length_cons] at length
      omega
  | inside a as above own =>
      simp only [sweep, List.length_append, List.length_cons] at length
      omega

theorem frames_sweep (as : List ActionId) (outside : frames below = []) :
    frames (sweep as below) = [] := by
  unfold sweep
  rw [frames_append, outside, List.append_nil]
  exact frames_map fun _ => rfl

/-- A step of the sweep goes on with the visit under way, or ends it. -/
theorem Sweeping.step (sweeping : Sweeping below as m.agenda calls) (orderly : m.Orderly)
    (outside : frames below = []) (more : m.agenda ≠ below) :
    Sweeping below as (m.step h).agenda (calls ++ m.outer h) ∨
      ∃ a as' own, as = a :: as' ∧ calls ++ m.outer h = (.finish true :: own).map (a, ·) ∧
        Sweeping below as' (m.step h).agenda [] := by
  generalize whole : m.agenda = tasks at sweeping more
  cases sweeping with
  | between as =>
      cases as with
      | nil => exact absurd rfl more
      | cons a as =>
          have front : m.agenda = .invoke a (.finish true) :: sweep as below := whole
          have free : m.table.isBusy a = false := by
            rw [← Bool.not_eq_true, orderly.sound.busy_iff, whole, frames_sweep _ outside]
            exact List.not_mem_nil
          have stepped : (m.step h).agenda =
              .serve a (.finish true) :: .drain a :: sweep as below := by
            simp only [Machine.step, front, free, Bool.false_eq_true, if_false]
          rw [outer_eq_nil (by simp only [notes, front]), stepped]
          exact .inl (.entering a as)
  | entering a as =>
      have stepped : (m.step h).agenda = [.run (h.routine a (.finish true)),
          .returned a (.finish true)] ++ .drain a :: sweep as below := by
        simp only [Machine.step, whole, serve, todo]
        rfl
      have inside : frames m.agenda = [a] := by
        rw [whole]
        exact congrArg (List.cons a) (frames_sweep as outside)
      have called : m.outer h = [(a, .finish true)] := by
        unfold outer
        rw [inside]
        simp only [notes, whole]
        rfl
      rw [called, stepped]
      exact .inl (.inside a as _ [])
  | inside a as above own =>
      obtain ⟨mine, called⟩ := outer_inside (h := h) orderly.sound.framed whole
        (frames_sweep as outside)
      have calls : (.finish true :: own).map (a, ·) ++ m.outer h =
          (.finish true :: (own ++ mine)).map (a, ·) := by
        rw [called, ← List.map_append, List.cons_append]
      cases above with
      | nil =>
          have front : m.agenda = .drain a :: sweep as below := whole
          cases owed : m.table.owed a with
          | nil =>
              have stepped : (m.step h).agenda = sweep as below := by
                simp only [Machine.step, front, owed]
              exact .inr ⟨a, as, own ++ mine, rfl, calls, stepped ▸ .between as⟩
          | cons d ds =>
              have stepped : (m.step h).agenda = [.serve a d] ++ .drain a :: sweep as below := by
                simp only [Machine.step, front, owed]
                rfl
              rw [calls, stepped]
              exact .inl (.inside a as _ _)
      | cons t above =>
          have move : Move h m (m.step h).table (m.step h).agenda := orderly.move
          obtain ⟨above', kept⟩ := move.keeps_below whole (List.cons_ne_nil t above) rfl
          rw [calls, kept]
          exact .inl (.inside a as above' _)

end Sweeping

/-- The sweep under way, or over. -/
def Swept (as done : List ActionId) (after : Task ε Ω σ)
    (rest : List (Task ε Ω σ)) (m : Machine ε Ω σ) (calls : List (ActionId × Callback)) : Prop :=
  (∃ (visits : List (ActionId × List Callback)) (left : List ActionId)
      (now : List (ActionId × Callback)), as = visits.map (·.1) ++ left ∧
    calls = visited visits ++ now ∧ Sweeping (.letGo done :: after :: rest) left m.agenda now) ∨
  m.agenda = after :: rest ∧ ∃ visits : List (ActionId × List Callback),
    as = visits.map (·.1) ∧ calls = visited visits

theorem visited_concat (visits : List (ActionId × List Callback)) (a : ActionId)
    (own : List Callback) :
    visited (visits ++ [(a, own)]) = visited visits ++ (.finish true :: own).map (a, ·) := by
  simp [visited]

theorem Works.swept {as done : List ActionId} {after : Task ε Ω σ} {rest : List (Task ε Ω σ)}
    (works : Works h m m' newer) (orderly : m.Orderly)
    (whole : m.agenda = sweep as (.letGo done :: after :: rest)) (outside : frames rest = [])
    (code : after.isCode = true) (under : ∀ x ∈ newer, x.agenda ≠ after :: rest) :
    Swept as done after rest m' (newer.reverse.flatMap (outer h)) := by
  have below : frames (.letGo done :: after :: rest) = [] := by
    have codes : ∀ x ∈ [Task.letGo done, after], (x : Task ε Ω σ).isCode = true := by
      simpa using ⟨rfl, code⟩
    show frames ([.letGo done, after] ++ rest) = []
    rw [frames_append, frames_of_isCode codes, outside]
    rfl
  induction works with
  | still => exact .inl ⟨[], as, [], rfl, rfl, whole ▸ .between as⟩
  | drift w own works ih => exact ih under
  | @step m' newer works ih =>
      obtain ⟨now, before⟩ := List.forall_mem_cons.mp under
      rw [List.reverse_cons, List.flatMap_append, List.flatMap_singleton]
      rcases ih before with ⟨visits, left, calls, split, so_far, sweeping⟩ | ⟨returned, _⟩
      · rw [so_far, List.append_assoc]
        by_cases last : m'.agenda = .letGo done :: after :: rest
        · -- the last visit is over
          right
          have silent : m'.outer h = [] := outer_eq_nil (by simp only [notes, last])
          have stepped : (m'.step h).agenda = after :: rest := by
            simp only [Machine.step, last]
          refine ⟨stepped, ?_⟩
          rw [silent, List.append_nil]
          obtain ⟨rfl, rfl⟩ := sweeping.ended last
          exact ⟨visits, by simpa using split, by simp⟩
        · rcases sweeping.step (works.orderly orderly) below last with goes | ends
          · exact .inl ⟨visits, left, _, split, rfl, goes⟩
          · obtain ⟨a, left', own, rfl, whole, goes⟩ := ends
            refine .inl ⟨visits ++ [(a, own)], left', [], ?_, ?_, goes⟩
            · rw [split, List.map_append, List.append_assoc]
              rfl
            · rw [visited_concat, whole, List.append_nil]
      · exact absurd returned now

/-! ### What comes of it -/

theorem table_stopAll {next : Bool → Routine ε Ω σ} {rest : List (Task ε Ω σ)}
    (front : m.agenda = .run (.ask .stopAll next) :: rest) :
    m.table.retireAll.Alike (m.step h).table ∧
      (m.step h).agenda = sweep m.table.runningBackwards
        (.letGo m.table.runningBackwards :: .run (next true) :: rest) := by
  simp only [step, front]
  exact ⟨.hold _ _, rfl⟩

theorem Orderly.mem_runningBackwards (orderly : m.Orderly) (b : ActionId) :
    b ∈ m.table.runningBackwards ↔ m.table.isRunning b = true := by
  rw [ActionTable.runningBackwards, List.mem_eraseDups, List.mem_reverse,
    ← orderly.consistent.running_iff, ← ActionTable.isRunning_iff]

theorem endOf_stopAll {next : Bool → Routine ε Ω σ} {rest : List (Task ε Ω σ)}
    (front : m.agenda = .run (.ask .stopAll next) :: rest) (b : ActionId) :
    m.endOf h b = if m.table.isRunning b then some .allStopped else none := by
  unfold endOf
  rw [front]

theorem nothing_listed {t : ActionTable} (consistent : t.Consistent)
    (still : ∀ b, t.isRunning b ≠ true) : t.running = [] ∧ ∀ d, t.owner d = none := by
  have empty : t.running = [] := List.eq_nil_iff_forall_not_mem.mpr fun b listed =>
    still b ((t.isRunning_iff b).mpr ((consistent.running_iff b).mpr listed))
  refine ⟨empty, fun d => Option.eq_none_iff_forall_ne_some.mpr fun o owns => ?_⟩
  have runs := consistent.owner_runs d o owns
  rw [empty] at runs
  cases runs

/-- From a stop to its return, those that ran finish as interrupted, once, and any other finish has
its own cause. -/
theorem Orderly.finishes_stopAll (orderly : m.Orderly) {next : Bool → Routine ε Ω σ}
    {rest : List (Task ε Ω σ)} (front : m.agenda = .run (.ask .stopAll next) :: rest)
    (outside : frames rest = []) (works : Works h (m.step h) m' newer)
    (returned : m'.agenda = .run (next true) :: rest) (b : ActionId) (interrupted : Bool) :
    newer.countP (fun x => x.Enters b (.finish interrupted)) =
      (if m.table.isRunning b = true ∧ interrupted = true then 1 else 0) +
        newer.countP fun x => (x.endOf h b).map Cause.interrupts = some interrupted := by
  have stepped : (m.step h).Orderly := orderly.step
  have all := works.finishes stepped b interrupted
  have due := orderly.finish_step (h := h) b interrupted
  rw [orderly.pending_eq_zero front outside, endOf_stopAll front] at due
  rw [(works.orderly stepped).pending_eq_zero returned outside] at all
  have calm : ¬ m.Enters b (.finish interrupted) := fun enters => by
    cases enters
    simp_all
  rw [if_neg calm] at due
  cases interrupted <;> cases ran : m.table.isRunning b <;>
    simp only [ran, Cause.interrupts, Option.map_some, Option.map_none, if_true, if_false,
      Bool.false_eq_true, reduceCtorEq, and_true, and_false, Option.some.injEq] at due ⊢ <;>
    omega

/-- All that runs or owns anything after a stop was started while it was under way. -/
theorem Orderly.allStopped (orderly : m.Orderly) {next : Bool → Routine ε Ω σ}
    {rest : List (Task ε Ω σ)} (front : m.agenda = .run (.ask .stopAll next) :: rest)
    (outside : frames rest = []) (works : Works h (m.step h) m' newer)
    (returned : m'.agenda = .run (next true) :: rest)
    (under : ∀ x ∈ newer, x.agenda ≠ .run (next true) :: rest) : AllStopped h m newer m' := by
  obtain ⟨alike, whole⟩ := table_stopAll (h := h) front
  have stepped : (m.step h).Orderly := orderly.step
  have reached := works.orderly stepped
  have stands : ∀ b, (m.step h).table.isRunning b = false := fun b => by
    rw [alike.isRunning, ActionTable.retireAll, isRunning_foldl_retire]
    cases ran : m.table.isRunning b with
    | false => rfl
    | true => simp [(orderly.mem_runningBackwards b).mpr ran]
  have runs : ∀ b, m'.table.isRunning b = true ↔ Outlasts h b newer := fun b =>
    works.runs stepped (stands b)
  have finishes := orderly.finishes_stopAll front outside works returned
  refine ⟨?_, ?_, fun b => ?_, fun b => ?_, runs, fun d b owns => ?_, fun quiet => ?_⟩
  · obtain ⟨empty, free⟩ := nothing_listed stepped.consistent fun b => by simp [stands b]
    refine ⟨empty, free, fun b ran => ?_⟩
    rw [alike.phase, ActionTable.retireAll, ActionTable.phase_foldl_retire,
      if_pos ((orderly.mem_runningBackwards b).mpr ran)]
  · rcases works.swept stepped whole outside rfl under with ⟨_, _, _, _, _, sweeping⟩ | ⟨_, all⟩
    · have length := sweeping.length_le
      rw [returned] at length
      simp only [List.length_cons] at length
      omega
    · obtain ⟨visits, ran, calls⟩ := all
      exact ⟨visits, ran.symm, calls⟩
  · simpa using finishes b true
  · simpa using finishes b false
  · refine (runs b).mp ((m'.table.isRunning_iff b).mpr ?_)
    exact (reached.consistent.running_iff b).mpr (reached.consistent.owner_runs d b owns)
  · obtain ⟨empty, free⟩ := nothing_listed reached.consistent fun b runs' =>
      not_outlasts (fun x member => quiet x member b) ((runs b).mp runs')
    refine ⟨empty, free, fun b => ?_⟩
    rw [finishes, works.countP_endOf stepped (stands b) fun x member => quiet x member b]
    simp

end Machine

end RobotControl
