import RobotControl.Proofs.Action.Ending

/-!
# One finish for every run left

Over a whole run the manager enters as many finishes of each kind as runs have ended for a cause of
that kind, less those that are still to come; when it has nothing left to do, none is
(`Machine.finishes_once`).  What fails inside a callback stays there: the work of whoever called the
manager waits below, and a panic gets past the manager only where nothing but the list of needed
devices is asked for, outside all callbacks.
-/
set_option autoImplicit false

namespace RobotControl

variable {ε Ω σ : Type}

/-! ### Code outside all callbacks -/

/-- No code but that of a request from outside. -/
def Task.Plain : Task ε Ω σ → Prop
  | .run r => r = .skip ∨ ∃ q, r = .ask q fun _ => .skip
  | .bound _ => False
  | .caught _ => False
  | _ => True

/-- Code of the application runs only inside callbacks. -/
def Sheltered : List (Task ε Ω σ) → Prop
  | [] => True
  | t :: rest => (frames rest = [] → t.Plain) ∧ Sheltered rest

namespace Sheltered

theorem suffix {front rest : List (Task ε Ω σ)} (sheltered : Sheltered (front ++ rest)) :
    Sheltered rest := by
  induction front with
  | nil => exact sheltered
  | cons t more ih => exact ih sheltered.2

theorem append {rest : List (Task ε Ω σ)} (sheltered : Sheltered rest)
    (new : List (Task ε Ω σ)) (plain : frames rest = [] → ∀ x ∈ new, x.Plain) :
    Sheltered (new ++ rest) := by
  induction new with
  | nil => exact sheltered
  | cons t more ih =>
      have later : frames rest = [] → ∀ x ∈ more, x.Plain := fun outside x member =>
        plain outside x (List.mem_cons_of_mem _ member)
      refine ⟨fun outside => ?_, ih later⟩
      exact plain (List.append_eq_nil_iff.mp ((frames_append ..).symm.trans outside)).2 t
        (List.mem_cons_self ..)

end Sheltered

namespace Machine

variable {h : Host ε Ω σ} {m : Machine ε Ω σ}

theorem agenda_unwind_outside (f : Failure) (tasks : List (Task ε Ω σ)) :
    ∀ m : Machine ε Ω σ, Framed tasks → Sheltered tasks → frames tasks = [] →
      (m.unwind h f tasks).agenda = [] := by
  induction tasks with
  | nil => exact fun m _ _ _ => rfl
  | cons t rest ih =>
      intro m framed sheltered outside
      have below : frames rest = [] := by
        rw [← List.singleton_append, frames_append, List.append_eq_nil_iff] at outside
        exact outside.2
      have deeper := fun m' => ih m' framed.tail sheltered.2 below
      have plain := sheltered.1 below
      cases t with
      | caught next => cases plain
      | returned a cb =>
          obtain ⟨_, rfl⟩ := framed.2.1 a rfl
          cases below
      | letGo as => exact deeper _
      | run r => exact deeper m
      | bound next => exact deeper m
      | start a restart => exact deeper m
      | launch a => exact deeper m
      | succeed a late => exact deeper m
      | invoke a d => exact deeper m
      | serve a d => exact deeper m
      | drain a => exact deeper m
      | turn a => exact deeper m

theorem agenda_grant (next : Bool → Routine ε Ω σ) (rest : List (Task ε Ω σ)) (q : Request) :
    ∃ tasks answer, (m.grant h next rest q).agenda = tasks ++ .run (next answer) :: rest ∧
      ∀ x ∈ tasks, x.Plain := by
  have mapped : ∀ (as : List ActionId) (task : ActionId → Task ε Ω σ), (∀ a, (task a).Plain) →
      ∀ x ∈ as.map task ++ [.letGo as], x.Plain := by
    intro as task own x member
    rcases List.mem_append.mp member with early | last
    · obtain ⟨a, _, rfl⟩ := List.mem_map.mp early
      exact own a
    · rw [List.mem_singleton.mp last]
      trivial
  cases q with
  | start a restart =>
      simp only [grant]
      split
      · exact ⟨[], false, rfl, by simp⟩
      · exact ⟨[.start a restart, .letGo [a]], true, rfl, by simp [Task.Plain]⟩
  | stop a =>
      simp only [grant]
      split
      · exact ⟨[.invoke a (.finish true), .letGo [a]], true, rfl, by simp [Task.Plain]⟩
      · exact ⟨[], false, rfl, by simp⟩
  | stopAll =>
      exact ⟨_, true, List.append_cons .., mapped m.table.runningBackwards
        (fun a => .invoke a (.finish true)) fun _ => trivial⟩
  | tick => exact ⟨_, true, List.append_cons .., mapped m.table.running .turn fun _ => trivial⟩
  | poll =>
      refine ⟨_, true, rfl, fun x member => ?_⟩
      obtain ⟨b, _, task⟩ := List.mem_flatMap.mp member
      simp only [List.mem_cons, List.not_mem_nil, or_false] at task
      rcases task with rfl | rfl <;> trivial
  | bind target restart => exact ⟨[], true, rfl, by simp⟩
  | unbind trigger => exact ⟨[], _, rfl, by simp⟩

theorem agenda_finishRoutine_outside {rest : List (Task ε Ω σ)} (framed : Framed rest)
    (sheltered : Sheltered rest) (outside : frames rest = []) :
    (m.finishRoutine h (.ok ()) rest).agenda = rest := by
  cases rest with
  | nil => rfl
  | cons t below =>
      have deeper : frames below = [] :=
        (List.append_eq_nil_iff.mp ((frames_append [t] below).symm.trans outside)).2
      have plain := sheltered.1 deeper
      cases t with
      | bound next => cases plain
      | caught next => cases plain
      | returned a cb =>
          obtain ⟨_, rfl⟩ := framed.2.1 a rfl
          cases deeper
      | _ => rfl

theorem sheltered_seize (a : ActionId) (ds : List DeviceId) {rest : List (Task ε Ω σ)}
    (sheltered : Sheltered rest) : Sheltered (m.seize a ds rest).agenda := by
  have below : Sheltered (.letGo (m.table.holders a ds) :: rest : List (Task ε Ω σ)) :=
    ⟨fun _ => trivial, sheltered⟩
  refine below.append _ fun _ x member => ?_
  rcases List.mem_append.mp member with early | last
  · obtain ⟨o, _, rfl⟩ := List.mem_map.mp early
    trivial
  · rw [List.mem_singleton.mp last]
    trivial

theorem sheltered_step_outside {t : Task ε Ω σ} {rest : List (Task ε Ω σ)}
    (front : m.agenda = t :: rest) (framed : Framed (t :: rest)) (sheltered : Sheltered (t :: rest))
    (outside : frames rest = []) : Sheltered (m.step h).agenda := by
  have below := sheltered.2
  have plain := sheltered.1 outside
  have adds : ∀ new : List (Task ε Ω σ), (∀ x ∈ new, x.Plain) → Sheltered (new ++ rest) :=
    fun new own => below.append new fun _ => own
  cases t with
  | run r =>
      simp only [step, front]
      rcases plain with rfl | ⟨q, rfl⟩
      · change Sheltered (m.finishRoutine h (.ok ()) rest).agenda
        rw [agenda_finishRoutine_outside framed.tail below outside]
        exact below
      · obtain ⟨tasks, answer, whole, own⟩ :=
          agenda_grant (h := h) (m := m) (fun _ => .skip) rest q
        change Sheltered (m.grant h (fun _ => .skip) rest q).agenda
        rw [whole]
        exact (adds [.run .skip] (by simp [Task.Plain])).append tasks fun _ => own
  | bound next => cases plain
  | caught next => cases plain
  | returned a cb =>
      obtain ⟨_, rfl⟩ := framed.2.1 a rfl
      cases outside
  | serve a d =>
      obtain ⟨_, rfl⟩ := framed.2.1 a rfl
      cases outside
  | start a restart =>
      simp only [step, front]
      split
      · split
        · exact adds [.invoke a (.finish true), .launch a] (by simp [Task.Plain])
        · exact below
      · exact adds [.launch a] (by simp [Task.Plain])
  | launch a =>
      simp only [step, front, launch]
      split
      · exact sheltered_seize a _ below
      · split
        · rw [agenda_unwind_outside _ rest _ framed.tail below outside]
          trivial
        · exact sheltered_seize a _ below
  | succeed a late =>
      simp only [step, front]
      split
      · exact adds [.invoke a .begin] (by simp [Task.Plain])
      · exact below
  | invoke a d =>
      simp only [step, front]
      split
      · exact below
      · exact adds [.serve a d, .drain a] (by simp [Task.Plain])
  | drain a =>
      simp only [step, front]
      split
      · exact below
      · exact adds [.serve a _, .drain a] (by simp [Task.Plain])
  | turn a =>
      simp only [step, front]
      split
      · exact adds [.invoke a .process] (by simp [Task.Plain])
      · exact below
  | letGo as =>
      simp only [step, front]
      exact below

theorem sheltered_step (framed : Framed m.agenda) (sheltered : Sheltered m.agenda) :
    Sheltered (m.step h).agenda := by
  obtain ⟨gone, new, kept, before, after, light⟩ := (step_move h m framed).replaces
  cases front : m.agenda with
  | nil =>
      simp only [step, front]
      rwa [front] at sheltered
  | cons t rest =>
      rw [front] at framed sheltered before
      by_cases outside : frames rest = []
      · exact sheltered_step_outside front framed sheltered outside
      · have inside : frames kept ≠ [] := by
          intro none
          cases gone with
          | nil =>
              rw [List.nil_append] at before
              rw [← before, ← List.singleton_append, frames_append] at none
              exact outside (List.append_eq_nil_iff.mp none).2
          | cons s gone =>
              obtain ⟨rfl, rfl⟩ := List.cons.inj before
              refine outside ((frames_append gone kept).trans ?_)
              rw [none, List.append_nil]
              exact frames_of_isLight light
        rw [after]
        refine Sheltered.append ?_ new fun none => absurd none inside
        exact Sheltered.suffix (before ▸ sheltered)

/-! ### What gets past the manager -/

theorem unhandled_returnFailed (a : ActionId) (rest : List (Task ε Ω σ)) (f : Failure)
    (cb : Callback) : (m.returnFailed h a rest f cb).unhandled = m.unhandled := by
  cases cb <;> simp only [returnFailed, todo, apply_ite Machine.unhandled, ite_self]

theorem unhandled_unwind (f : Failure) (tasks : List (Task ε Ω σ)) :
    ∀ m : Machine ε Ω σ, Unwindable tasks → (m.unwind h f tasks).unhandled = m.unhandled ∨
      (m.unwind h f tasks).unhandled = some f ∧ frames tasks = [] := by
  induction tasks with
  | nil => exact fun m _ => .inr ⟨rfl, rfl⟩
  | cons t rest ih =>
      intro m unwindable
      cases t with
      | caught next => exact .inl rfl
      | returned a cb => exact .inl (unhandled_returnFailed a rest f cb)
      | letGo as => exact ih _ unwindable.2
      | run r => exact ih m unwindable.2
      | bound next => exact ih m unwindable.2
      | start a restart => exact ih m unwindable.2
      | launch a => exact ih m unwindable.2
      | succeed a late => cases unwindable.1
      | invoke a d => cases unwindable.1
      | serve a d => cases unwindable.1
      | drain a => cases unwindable.1
      | turn a => cases unwindable.1

theorem unhandled_pollOne (fired : List Binding) (b : Binding) :
    (m.pollOne h fired b).1.unhandled = m.unhandled := by
  unfold pollOne
  split
  · dsimp only
    split <;> rfl
  · rfl

theorem unhandled_pollAll (bs fired : List Binding) :
    (m.pollAll h fired bs).1.unhandled = m.unhandled := by
  induction bs generalizing m fired with
  | nil => rfl
  | cons b rest ih => exact (ih _).trans (unhandled_pollOne fired b)

theorem unhandled_grant (next : Bool → Routine ε Ω σ) (rest : List (Task ε Ω σ)) (q : Request) :
    (m.grant h next rest q).unhandled = m.unhandled := by
  cases q with
  | start a restart =>
      simp only [grant]
      split <;> rfl
  | stop a =>
      simp only [grant]
      split <;> rfl
  | stopAll => rfl
  | tick => rfl
  | poll => exact unhandled_pollAll _ _
  | bind target restart => rfl
  | unbind trigger => rfl

theorem unhandled_finishRoutine (o : Except Fault Unit) (rest : List (Task ε Ω σ)) :
    (m.finishRoutine h o rest).unhandled = m.unhandled := by
  unfold finishRoutine
  split
  · rfl
  · rfl
  · rename_i a cb below
    cases o with
    | error f => exact unhandled_returnFailed ..
    | ok _ => cases cb <;> simp only [returnWell, todo, apply_ite Machine.unhandled, ite_self]
  · rfl

/-- All that gets past the manager is a panic of what an action needs, asked for from outside. -/
theorem unhandled_step (framed : Framed m.agenda) (sheltered : Sheltered m.agenda) :
    (m.step h).unhandled = m.unhandled ∨ ∃ a p rest, m.agenda = .launch a :: rest ∧
      (h.needs m.own a).2 = .error p ∧ (m.step h).unhandled = some (.panic p) ∧
        frames m.agenda = [] := by
  cases front : m.agenda with
  | nil => exact .inl (by simp only [step, front])
  | cons t rest =>
      rw [front] at framed sheltered
      cases t with
      | run r =>
          simp only [step, front]
          cases r with
          | done o => exact .inl (unhandled_finishRoutine o rest)
          | ask q next => exact .inl (unhandled_grant next rest q)
          | panic p =>
              rcases unhandled_unwind (h := h) (.panic p) rest m (framed.1 rfl) with
                same | ⟨_, outside⟩
              · exact .inl same
              · rcases sheltered.1 outside with plain | ⟨_, plain⟩ <;> cases plain
          | _ => exact .inl rfl
      | launch a =>
          simp only [step, front, launch]
          split
          · exact .inl rfl
          · split
            · rename_i p needed
              rcases unhandled_unwind (.panic p) rest _ (framed.1 rfl) with same | ⟨past, outside⟩
              · exact .inl same
              · exact .inr ⟨a, p, rest, rfl, needed, past, outside⟩
            · exact .inl rfl
      | serve a d =>
          simp only [step, front]
          cases d <;> simp only [serve, workingOn, holding, todo, apply_ite Machine.unhandled,
            ite_self, true_or]
      | start a restart =>
          cases restart <;> simp only [step, front, interrupting, todo,
            apply_ite Machine.unhandled, ite_self, true_or]
      | drain a =>
          simp only [step, front]
          split <;> exact .inl rfl
      | _ => exact .inl (by simp only [step, front, todo, apply_ite Machine.unhandled, ite_self])

/-! ### Runs -/

theorem doing_finish (m : Machine ε Ω σ) (a : ActionId) (interrupted : Bool) :
    m.doing = some (a, some (.finish interrupted)) ↔ m.Enters a (.finish interrupted) := by
  constructor
  · intro does
    cases front : m.agenda with
    | nil => simp [doing, front] at does
    | cons t rest =>
        rw [doing_eq front] at does
        cases t with
        | serve b d =>
            simp only [Task.does, Option.some.injEq, Prod.mk.injEq] at does
            obtain ⟨rfl, rfl⟩ := does
            exact .finish front
        | succeed b late => cases late <;> cases does
        | _ => cases does
  · intro inside
    cases inside with
    | finish front =>
        rw [doing_eq front]
        rfl

instance (m : Machine ε Ω σ) (a : ActionId) (interrupted : Bool) :
    Decidable (m.Enters a (.finish interrupted)) :=
  decidable_of_iff _ (m.doing_finish a interrupted)

theorem count_doing_finish (m : Machine ε Ω σ) (a : ActionId) (interrupted : Bool) :
    m.doing.toList.count (a, some (.finish interrupted)) =
      if m.Enters a (.finish interrupted) then 1 else 0 := by
  simp only [← doing_finish]
  cases m.doing with
  | none => simp
  | some w => simp [List.count_singleton]

namespace Run

variable {past : List (Machine ε Ω σ)}

theorem sheltered (run : Run h m past) : Sheltered m.agenda := by
  induction run with
  | fresh w own => trivial
  | ask r run idle ih => exact ⟨fun _ => .inr ⟨r, rfl⟩, trivial⟩
  | drift w own run ih => exact ih
  | step run ih => exact sheltered_step run.sound.framed ih

theorem earlier {x : Machine ε Ω σ} (run : Run h m past) (member : x ∈ past) :
    ∃ before, Run h x before := by
  induction run with
  | fresh w own => cases member
  | ask r run idle ih => exact ih member
  | drift w own run ih => exact ih member
  | @step m past run ih =>
      rcases List.mem_cons.mp member with rfl | member
      · exact ⟨past, run⟩
      · exact ih member

/-- The finishes entered and those to come are as many as the runs that ended for their cause. -/
theorem finishes_balance (run : Run h m past) (a : ActionId) (interrupted : Bool) :
    past.countP (fun x => x.Enters a (.finish interrupted)) +
        pending m.table m.agenda (a, some (.finish interrupted)) =
      past.countP fun x => (x.endOf h a).map Cause.interrupts = some interrupted := by
  induction run with
  | fresh w own => simp [(Run.fresh (h := h) w own).pending_eq_zero rfl]
  | @ask m past r run idle ih =>
      rw [← ih]
      unfold pending
      rw [idle]
      rfl
  | drift w own run ih => exact ih
  | @step m past run ih =>
      have due := run.orderly.finish_due (h := h) a interrupted
      rw [count_doing_finish] at due
      rw [List.countP_cons, List.countP_cons, ← ih]
      simp only [decide_eq_true_eq]
      omega

end Run

/-- Exactly one finish for every run left.  A run ends exactly for one of the causes.  When nothing
is left to do, no action owes anything, and as many finishes of each kind have been entered as runs
have ended for a cause of that kind.  Whatever happens in the callbacks of an action, what was to be
done after them stays, and the only failure that gets past the manager is a panic of what an action
needs, outside all callbacks. -/
theorem finishes_once {past : List (Machine ε Ω σ)} (run : Run h m past) :
    (∀ x ∈ past, ∀ a, x.table.phase a = .running ∧ (x.step h).table.phase a = .finished ↔
      ∃ c, x.endOf h a = some c) ∧
    (m.agenda = [] → ∀ a, m.table.owed a = [] ∧
      past.countP (fun x => x.Enters a (.finish true)) =
        past.countP (fun x => ∃ c ∈ x.endOf h a, c ≠ .completed) ∧
      past.countP (fun x => x.Enters a (.finish false)) =
        past.countP fun x => x.endOf h a = some .completed) ∧
    (∀ x ∈ past, ∀ a above below, x.agenda = above ++ .drain a :: below → above ≠ [] →
      ∃ above', (x.step h).agenda = above' ++ .drain a :: below) ∧
    ∀ x ∈ past, (x.step h).unhandled = x.unhandled ∨
      ∃ a p rest, x.agenda = .launch a :: rest ∧ (h.needs x.own a).2 = .error p ∧
        (x.step h).unhandled = some (.panic p) ∧ ∀ b, x.table.isBusy b = false := by
  refine ⟨fun x member a => ?_, fun idle a => ?_, fun x member a above below whole some => ?_,
    fun x member => ?_⟩
  · obtain ⟨before, run⟩ := run.earlier member
    rw [← run.leaves_iff_phase, leaves_iff run.consistent, Option.isSome_iff_exists]
  · have interrupted := run.finishes_balance a true
    have completed := run.finishes_balance a false
    rw [run.pending_eq_zero idle, Nat.add_zero] at interrupted completed
    have free : m.table.isBusy a = false := by
      by_contra busy
      rw [Bool.not_eq_false, run.sound.busy_iff, idle] at busy
      cases busy
    refine ⟨run.sound.owed_eq_nil free, interrupted.trans ?_, completed.trans ?_⟩
    · refine List.countP_congr fun x _ => ?_
      cases x.endOf h a with
      | none => simp
      | some c => cases c <;> simp [Cause.interrupts]
    · refine List.countP_congr fun x _ => ?_
      cases x.endOf h a with
      | none => simp
      | some c => cases c <;> simp [Cause.interrupts]
  · obtain ⟨before, run⟩ := run.earlier member
    exact run.move.keeps_below whole some rfl
  · obtain ⟨before, run⟩ := run.earlier member
    rcases unhandled_step run.sound.framed run.sheltered with same | ⟨a, p, rest, front, rest'⟩
    · exact .inl same
    · obtain ⟨needed, past, outside⟩ := rest'
      refine .inr ⟨a, p, rest, front, needed, past, fun b => ?_⟩
      by_contra busy
      rw [Bool.not_eq_false, run.sound.busy_iff, outside] at busy
      cases busy

end Machine

/-- Two actions on one device.  The first one, when it is processed, starts the second one, which
fails to begin. -/
def Host.failing : Host Empty Unit Unit := .plain (fun _ => [⟨1⟩]) fun a cb =>
  match a, cb with
  | ⟨1⟩, .process => .ask (.start ⟨2⟩ false) fun _ => .skip
  | ⟨2⟩, .begin => .panic .unreadable
  | _, _ => .skip

/-- The first run ends by the interruption, the second one by its failure, and each is finished
once. -/
theorem finishes_once_failing :
    ∃ past, Machine.Run Host.failing
        (Host.failing.play [(.tick, 27), (.start ⟨1⟩ false, 12)]) past ∧
      past.countP (fun x => x.endOf Host.failing ⟨1⟩ = some .interrupted) = 1 ∧
      past.countP (fun x => x.Enters ⟨1⟩ (.finish true)) = 1 ∧
      past.countP (fun x => x.endOf Host.failing ⟨2⟩ = some .failed) = 1 ∧
      past.countP (fun x => x.Enters ⟨2⟩ (.finish true)) = 1 := by
  have first := ((Machine.Run.fresh (h := Host.failing) () ()).ask (.start ⟨1⟩ false) rfl).steps 12
  have run := (first.ask .tick rfl).steps 27
  obtain ⟨_, finishes, _, _⟩ := Machine.finishes_once run
  have idle : (Host.failing.play [(.tick, 27), (.start ⟨1⟩ false, 12)]).agenda = [] := rfl
  exact ⟨_, run, by decide, (finishes idle ⟨1⟩).2.1.trans (by decide), by decide,
    (finishes idle ⟨2⟩).2.1.trans (by decide)⟩

end RobotControl
