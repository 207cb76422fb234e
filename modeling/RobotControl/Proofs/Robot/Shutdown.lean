import RobotControl.Proofs.Device.Handles
import RobotControl.Proofs.Robot.Lifecycle

/-!
# A shutdown is final

While a robot is shut down its actions finish, and their callbacks may still feed the watchdog,
drive motors and schedule jobs.  The shutdown is completed all the same, above whatever was under
way when it began, and from then on (`Session.Over`) only late code is left, whatever the robot is
asked for.
-/
set_option autoImplicit false

namespace RobotControl

variable {ι σ : Type} {app : App ι σ} {opens : Prop}

namespace Session

variable {s : Session ι σ} {past : List (Session ι σ)}
  {foot tasks : List (Task (Effect ι) (World ι) σ)}

/-! ### The end of a shutdown -/

/-- What is left of a shutdown once the robot is halted: the actions finish, above its last step. -/
inductive Closing (foot : List (Task (Effect ι) (World ι) σ)) :
    List (Task (Effect ι) (World ι) σ) → Prop
  | halted : Closing foot (.run .skip :: .bound (fun _ => Robot.closing) :: foot)
  | asking : Closing foot (.run Robot.closing :: foot)
  | finishing {above : List (Task (Effect ι) (World ι) σ)} (late : AllLate False above)
      (enclosed : Enclosed above) :
      Closing foot (above ++ .run (Robot.doing .wrapUp .skip) :: foot)

theorem Closing.above (closing : Closing foot tasks) :
    ∃ above, above ≠ [] ∧ tasks = above ++ foot := by
  cases closing with
  | halted => exact ⟨[.run .skip, .bound fun _ => Robot.closing], by simp, rfl⟩
  | asking => exact ⟨[.run Robot.closing], by simp, rfl⟩
  | @finishing above late enclosed =>
      exact ⟨above ++ [.run (Robot.doing .wrapUp .skip)], by simp, by simp⟩

/-- The step completes a shutdown. -/
def Wraps (foot : List (Task (Effect ι) (World ι) σ)) (s : Session ι σ) : Prop :=
  s.agenda = .run (Robot.doing .wrapUp .skip) :: foot

theorem Wraps.duty (wraps : s.Wraps foot) : s.duty = some .wrapUp := duty_eq wraps

theorem Closing.step (app : App ι σ) (closing : Closing foot s.agenda) (halted : s.world.Halted) :
    s.Wraps foot ∨ (∀ d, s.duty = some d → (Effect.duty d : Effect ι).Late False) ∧
      Closing foot (Machine.step (Robot.host app) s).agenda ∧
        (Machine.step (Robot.host app) s).world.Halted := by
  generalize whole : s.agenda = tasks at closing
  cases closing with
  | halted =>
      refine .inr ⟨fun d carried => ?_, ?_⟩
      · rw [Session.duty, whole] at carried
        cases carried
      · simp only [Machine.step, whole]
        exact ⟨.asking, halted⟩
  | asking =>
      refine .inr ⟨fun d carried => ?_, ?_⟩
      · rw [Session.duty, whole] at carried
        cases carried
      · simp only [Machine.step, whole]
        refine ⟨?_, halted⟩
        show Closing foot (_ ++ _ :: .run (Robot.doing .wrapUp .skip) :: foot)
        rw [List.append_cons]
        refine .finishing ?_ (.of_steady ?_) <;>
        · intro x member
          simp only [List.mem_append, List.mem_map, List.mem_singleton] at member
          rcases member with ⟨a, _, rfl⟩ | rfl <;> trivial
  | @finishing above late enclosed =>
      cases above with
      | nil => exact .inl whole
      | cons t rest =>
          obtain ⟨head, tail⟩ := List.forall_mem_cons.mp late
          obtain ⟨above', after, enclosed', late'⟩ :=
            (leads_late app halted whole head).enclosed enclosed tail
          exact .inr ⟨fun _ => late_duty whole head, after ▸ .finishing late' enclosed',
            halted_step app halted fun e next below acts => late_effect whole head acts⟩

/-- What is called while the actions finish is called from a callback, so that its failure ends
there. -/
theorem Closing.call (closing : Closing foot s.agenda) (listens : s.Listens) (o : Order ι σ) :
    Closing foot (.run o.body :: s.agenda) := by
  generalize whole : s.agenda = tasks at closing
  rcases listens with idle | ⟨r, rest, front, unfinished⟩
  · obtain ⟨above, some, agenda⟩ := closing.above
    rw [← whole, idle] at agenda
    exact absurd (List.append_eq_nil_iff.mp agenda.symm).1 some
  rw [front] at whole
  cases closing with
  | halted =>
      have ended := Task.run.inj (List.cons.inj whole).1
      cases r <;> first | exact unfinished.elim | cases ended
  | asking =>
      have asks := Task.run.inj (List.cons.inj whole).1
      cases r with
      | ask q next => exact absurd (congrFun (Routine.ask.inj asks).2 true) Robot.lift_ne_duty
      | _ => cases asks
  | @finishing above late enclosed =>
      cases above with
      | nil => exact absurd (Task.run.inj (List.cons.inj whole).1) Robot.lift_ne_duty
      | cons t more =>
          obtain rfl := (List.cons.inj whole).1
          obtain ⟨a, cb, member⟩ := enclosed.1 rfl
          have outer : Enclosed (.run o.body :: .run (Robot.lift r) :: more) :=
            ⟨fun _ => ⟨a, cb, List.mem_cons_of_mem _ member⟩, enclosed⟩
          have late' : AllLate False (.run o.body :: .run (Robot.lift r) :: more) :=
            List.forall_mem_cons.mpr ⟨Robot.late_order o, late⟩
          exact .finishing late' outer

/-! ### Robots that were shut down -/

/-- A start that waits for its first hook has another one to call. -/
def StartWaits (s : Session ι σ) : Prop := .bound (fun _ => Robot.opening) ∈ s.agenda

/-- The robot was shut down; a start may have waited for its first hook. -/
structure Over (opens : Prop) (s : Session ι σ) : Prop where
  halted : s.world.Halted
  mode : s.world.mode = .disabled
  late : AllLate opens s.agenda

theorem Wraps.step (app : App ι σ) (wraps : s.Wraps foot) (halted : s.world.Halted)
    (waits : ∀ x ∈ foot, Robot.Patient x) :
    Over s.StartWaits (Machine.step (Robot.host app) s) := by
  have below : AllLate s.StartWaits foot := by
    intro x member
    rcases (waits x member).1 with late | rfl
    · cases x with
      | run c => exact late.mono False.elim
      | bound next => exact fun o => (late o).mono False.elim
      | caught next => exact fun o => (late o).mono False.elim
      | _ => trivial
    · have opens : s.StartWaits := by
        rw [StartWaits, wraps]
        exact List.mem_cons_of_mem _ member
      exact fun _ => Robot.late_doing opens (Robot.late_doing trivial Robot.late_skip)
  rw [step_act app wraps]
  refine ⟨halted.of_same rfl rfl rfl rfl, rfl, ?_⟩
  exact List.forall_mem_cons.mpr ⟨Robot.late_skip,
    List.forall_mem_cons.mpr ⟨fun _ => Robot.late_skip, below⟩⟩

theorem Over.effect (ended : s.Over opens) {e : Effect ι}
    {next : Except Fault Unit → Robot.Code ι σ} {below : List (Task (Effect ι) (World ι) σ)}
    (acts : s.agenda = .run (.act e next) :: below) : e.Late opens :=
  late_effect acts (ended.late _ (acts ▸ List.mem_cons_self ..)) acts

theorem Over.duty (ended : s.Over opens) {d : Duty} (carried : s.duty = some d) :
    (Effect.duty d : Effect ι).Late opens := by
  obtain ⟨_, _, acts⟩ := front_of_duty carried
  exact ended.effect acts

theorem Over.sameRule (app : App ι σ) (ended : s.Over opens) :
    s.world.SameRule (Machine.step (Robot.host app) s).world := by
  refine Machine.world_step (W := s.world.SameRule)
    (Robot.host_keeps_rule fun w w' same _ before =>
      ⟨same.mode.trans before.mode, same.lifecycle.trans before.lifecycle⟩)
    (.refl _) fun e next rest front => ?_
  exact (Robot.sameRule_late app s.world e (ended.effect front)).1

theorem Over.step (app : App ι σ) (ended : s.Over opens) :
    Over opens (Machine.step (Robot.host app) s) := by
  refine ⟨halted_step app ended.halted fun e next rest acts => ended.effect acts,
    (ended.sameRule app).mode.trans ended.mode, ?_⟩
  cases agenda : s.agenda with
  | nil =>
      rw [Machine.step_of_idle agenda]
      exact ended.late
  | cons t rest =>
      have late := ended.late
      rw [agenda] at late
      obtain ⟨head, tail⟩ := List.forall_mem_cons.mp late
      exact (leads_late app ended.halted agenda head).all tail

/-! ### The stages of a history -/

/-- A shutdown has begun above the given tasks. -/
def Begun (foot : List (Task (Effect ι) (World ι) σ)) (past : List (Session ι σ)) : Prop :=
  ∃ x ∈ past, x.duty = some .halt ∧ x.agenda.tail = foot

theorem Begun.step (begun : Begun foot past) (s : Session ι σ) : Begun foot (s :: past) := by
  obtain ⟨x, member, halts⟩ := begun
  exact ⟨x, List.mem_cons_of_mem _ member, halts⟩

/-- A robot is on its course, is being shut down, or was shut down by a step in its past. -/
inductive Stage (s : Session ι σ) : List (Session ι σ) → Prop
  | going {past : List (Session ι σ)} (course : Course s.world.lifecycle s.agenda)
      (quiet : ∀ x ∈ past, x.duty ≠ some .wrapUp)
      (powered : ∀ x ∈ past, x.duty = some .powerUp → s.world.lifecycle = .started) : Stage s past
  | closing {past : List (Session ι σ)} {foot : List (Task (Effect ι) (World ι) σ)}
      (closing : Closing foot s.agenda) (halted : s.world.Halted)
      (waits : ∀ x ∈ foot, Robot.Patient x) (begun : Begun foot past)
      (quiet : ∀ x ∈ past, x.duty ≠ some .wrapUp) : Stage s past
  | finished {newer older : List (Session ι σ)} {x : Session ι σ}
      {foot : List (Task (Effect ι) (World ι) σ)} (wraps : x.Wraps foot) (begun : Begun foot older)
      (ended : s.Over x.StartWaits) (once : ∀ y ∈ newer ++ older, y.duty ≠ some .wrapUp) :
      Stage s (newer ++ x :: older)

theorem Stage.step_going (app : App ι σ) (course : Course s.world.lifecycle s.agenda)
    (quiet : ∀ x ∈ past, x.duty ≠ some .wrapUp)
    (powered : ∀ x ∈ past, x.duty = some .powerUp → s.world.lifecycle = .started) :
    Stage (Machine.step (Robot.host app) s) (s :: past) := by
  have lifecycle := lifecycle_step app s
  have proceeds := course.step app
  generalize Machine.step (Robot.host app) s = s' at proceeds lifecycle
  cases proceeds with
  | on course' duties =>
      refine .going course' (List.forall_mem_cons.mpr ⟨fun wraps => ?_, quiet⟩)
        (List.forall_mem_cons.mpr ⟨fun powers => ?_, fun x member powers => ?_⟩)
      · obtain ⟨_, _, never⟩ := duties _ wraps
        exact never
      · rw [lifecycle, powers]
        rfl
      · have up := powered x member powers
        rw [lifecycle]
        cases carried : s.duty with
        | none => exact up
        | some d =>
            obtain ⟨other, _, fits⟩ := duties d carried
            cases d with
            | halt => exact absurd rfl other
            | retireUnstarted => cases up.symm.trans fits
            | powerUp => rfl
            | _ => exact up
  | halts up front world agenda waits =>
      have halts := duty_eq front
      refine .closing (agenda ▸ .halted) (world ▸ s.world.halted_halt) waits
        ⟨s, List.mem_cons_self .., halts, by rw [front]; rfl⟩
        (List.forall_mem_cons.mpr ⟨fun wraps => ?_, quiet⟩)
      cases halts.symm.trans wraps

theorem Stage.step (app : App ι σ) (stage : Stage s past) :
    Stage (Machine.step (Robot.host app) s) (s :: past) := by
  cases stage with
  | going course quiet powered => exact .step_going app course quiet powered
  | closing closing halted waits begun quiet =>
      rcases closing.step app halted with wraps | ⟨duties, closing', halted'⟩
      · change Stage _ ([] ++ s :: _)
        exact .finished wraps begun (wraps.step app halted waits) quiet
      · refine .closing closing' halted' waits (begun.step s)
          (List.forall_mem_cons.mpr ⟨fun wraps => ?_, quiet⟩)
        exact duties _ wraps
  | @finished newer older x foot wraps begun ended once =>
      change Stage _ ((s :: newer) ++ x :: older)
      refine .finished wraps begun (ended.step app)
        (List.forall_mem_cons.mpr ⟨fun again => ?_, once⟩)
      exact ended.duty again

theorem Stage.of_same {s' : Session ι σ} (stage : Stage s past)
    (agenda : s'.agenda = s.agenda) (same : s.world.SameRule s'.world)
    (halted : s.world.Halted → s'.world.Halted) : Stage s' past := by
  cases stage with
  | going course quiet powered =>
      exact .going (same.lifecycle ▸ agenda ▸ course) quiet fun x member powers =>
        same.lifecycle.trans (powered x member powers)
  | closing closing still waits begun quiet =>
      exact .closing (agenda ▸ closing) (halted still) waits begun quiet
  | finished wraps begun ended once =>
      exact .finished wraps begun
        ⟨halted ended.halted, same.mode.trans ended.mode, agenda ▸ ended.late⟩ once

theorem Stage.call (stage : Stage s past) (listens : s.Listens) (o : Order ι σ) :
    Stage { s with agenda := .run o.body :: s.agenda } past := by
  cases stage with
  | going course quiet powered => exact .going (course.call listens o) quiet powered
  | closing closing halted waits begun quiet =>
      exact .closing (closing.call listens o) halted waits begun quiet
  | finished wraps begun ended once =>
      exact .finished wraps begun ⟨ended.halted, ended.mode,
        List.forall_mem_cons.mpr ⟨Robot.late_order o, ended.late⟩⟩ once

theorem History.stage (history : History app s past) : Stage s past := by
  induction history with
  | created p sink own => exact .going (.front trivial) (by simp) (by simp)
  | call o history listens ih => exact ih.call listens o
  | step history ih => exact ih.step app
  | advance time history ih =>
      exact ih.of_same rfl ⟨rfl, rfl⟩ fun halted => halted.of_same rfl rfl rfl rfl
  | @look s past history ih =>
      exact ih.of_same rfl s.world.sameRule_look.1 fun halted => halted.look.symm ▸ halted
  | make id d history ih =>
      exact ih.of_same rfl ⟨rfl, rfl⟩ fun halted => halted.of_same rfl rfl rfl rfl
  | drift own history ih => exact ih.of_same rfl ⟨rfl, rfl⟩ id

theorem History.finished (history : History app s past) {newer older : List (Session ι σ)}
    {x : Session ι σ} (split : past = newer ++ x :: older) (wraps : x.duty = some .wrapUp) :
    (∃ foot, x.Wraps foot ∧ Begun foot older) ∧ s.Over x.StartWaits := by
  have stage := history.stage
  have member : x ∈ past := split ▸ List.mem_append_right newer (List.mem_cons_self ..)
  cases stage with
  | going course quiet powered => exact absurd wraps (quiet x member)
  | closing closing halted waits begun quiet => exact absurd wraps (quiet x member)
  | finished wraps' begun ended once =>
      obtain ⟨_, rfl, rfl⟩ := split_unique split wraps once
      exact ⟨⟨_, wraps', begun⟩, ended⟩

theorem History.wraps (history : History app s past) (last : s.duty = some .wrapUp) :
    ∃ foot, s.Wraps foot ∧ Begun foot past := by
  have split : s :: past = [] ++ s :: past := rfl
  exact (history.step.finished split last).1

/-- A robot is powered up only as long as nothing has happened to it, and its shutdown is completed
only once it is halted. -/
theorem History.duties (history : History app s past) :
    (s.duty = some .powerUp → s.world.lifecycle = .created) ∧
      (s.duty = some .wrapUp → s.world.lifecycle = .stopped) := by
  have stage := history.stage
  cases stage with
  | going course quiet powered =>
      have proceeds := course.step app
      refine ⟨fun powers => ?_, fun wraps => ?_⟩
      · cases proceeds with
        | on course' duties =>
            obtain ⟨_, _, fresh⟩ := duties _ powers
            exact fresh
        | halts up front world agenda waits => cases (duty_eq front).symm.trans powers
      · cases proceeds with
        | on course' duties =>
            obtain ⟨_, _, never⟩ := duties _ wraps
            exact never.elim
        | halts up front world agenda waits => cases (duty_eq front).symm.trans wraps
  | closing closing halted waits begun quiet =>
      refine ⟨fun powers => ?_, fun _ => halted.lifecycle⟩
      rcases closing.step app halted with wraps | ⟨duties, _⟩
      · cases wraps.duty.symm.trans powers
      · exact (duties _ powers).elim
  | finished wraps begun ended once =>
      exact ⟨fun powers => (ended.duty powers).elim, fun _ => ended.halted.lifecycle⟩

/-- Where a robot is in its life tells whether it was started and whether its shutdown began. -/
theorem History.lifecycle (history : History app s past) :
    (s.world.lifecycle = .created ↔ ∀ x ∈ past, x.duty ≠ some .powerUp ∧ ¬ x.Stops) ∧
      (s.world.lifecycle = .started ↔
        (∃ x ∈ past, x.duty = some .powerUp) ∧ ∀ x ∈ past, ¬ x.Stops) := by
  induction history with
  | created p sink own => exact ⟨⟨fun _ => by simp, fun _ => rfl⟩, ⟨nofun, by simp⟩⟩
  | call o history listens ih => exact ih
  | @step s past history ih =>
      obtain ⟨powers, wraps⟩ := history.duties
      rw [lifecycle_step]
      by_cases power : s.duty = some .powerUp
      · have before := ih.1.mp (powers power)
        have stays : ¬ s.Stops := by
          rintro ⟨d, carried, stops⟩
          obtain rfl := Option.some.inj (power.symm.trans carried)
          cases stops
        rw [power]
        refine ⟨⟨nofun, fun none => absurd power (none s (List.mem_cons_self ..)).1⟩,
          ⟨fun _ => ⟨⟨s, List.mem_cons_self .., power⟩, ?_⟩, fun _ => rfl⟩⟩
        exact List.forall_mem_cons.mpr ⟨stays, fun x member => (before x member).2⟩
      · by_cases stops : s.Stops
        · have stopped : s.duty.elim s.world.lifecycle (·.after s.world.lifecycle) = .stopped := by
            obtain ⟨d, carried, stops⟩ := stops
            rw [carried]
            exact Duty.after_of_stops stops fun last => wraps (last ▸ carried)
          rw [stopped]
          exact ⟨⟨nofun, fun none => absurd stops (none s (List.mem_cons_self ..)).2⟩,
            ⟨nofun, fun up => absurd stops (up.2 s (List.mem_cons_self ..))⟩⟩
        · have same : s.duty.elim s.world.lifecycle (·.after s.world.lifecycle) =
              s.world.lifecycle := by
            cases carried : s.duty with
            | none => rfl
            | some d =>
                exact Duty.after_of_goes _ (duty_goes stops carried) fun powers =>
                  power (powers ▸ carried)
          rw [same, List.forall_mem_cons, List.forall_mem_cons, List.exists_mem_cons_iff]
          simpa [power, stops] using ih
  | advance time history ih => exact ih
  | @look s past history ih =>
      rw [s.world.sameRule_look.1.lifecycle]
      exact ih
  | make id d history ih => exact ih
  | drift own history ih => exact ih

end Session

end RobotControl
