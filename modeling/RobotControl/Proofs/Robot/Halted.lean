import RobotControl.Proofs.Robot.Switch
import RobotControl.Proofs.Schedule.Jobs

/-!
# Robots that were halted

The first part of a shutdown halts a robot: its monitor ends, and its scheduler with it.  Whatever a
halted robot is asked for, and whatever code was under way when it was halted, no job begins any
more, and no hook is called but `robotDisabled` by a start that waited for its first hook
(`Robot.Late`).
-/
set_option autoImplicit false

namespace RobotControl

variable {ι σ : Type} {app : App ι σ} {opens : Prop}

/-- The monitor has ended and no job runs any more. -/
structure World.Halted (w : World ι) : Prop where
  lifecycle : w.lifecycle = .stopped
  stop : w.stop.triggered = true
  monitor : w.nextLook = none
  schedule : w.schedule.stopped = true

/-- What a robot that was halted may still do; whether a start is to call `robotDisabled` is told
apart. -/
def Effect.Late (opens : Prop) : Effect ι → Prop
  | .act _ => True
  | .duty (.call .robotDisabled) => opens
  | .duty (.hookFailed _ _) | .duty .applyMode | .duty .scheduleLoops => True
  | .duty .settle | .duty .noteStopRequest | .duty (.jobEnded _ _) => True
  | .duty _ => False

theorem Effect.Late.call {h : Hook} (late : (Effect.duty (.call h) : Effect ι).Late opens) :
    h = .robotDisabled ∧ opens := by
  cases h with
  | robotDisabled => exact ⟨rfl, late⟩
  | _ => exact late.elim

theorem Effect.Late.mono {opens' : Prop} (le : opens → opens') (e : Effect ι)
    (late : e.Late opens) : e.Late opens' := by
  cases e with
  | act a => trivial
  | duty d =>
      cases d with
      | call h =>
          obtain ⟨rfl, waits⟩ := late.call
          exact le waits
      | _ => exact late

theorem Effect.Late.goes {e : Effect ι} (late : e.Late opens) : e.stops = false := by
  cases e with
  | act a => rfl
  | duty d => cases d <;> first | rfl | exact late.elim

theorem Effect.Late.isTame {d : Duty} (late : (Effect.duty d : Effect ι).Late opens)
    (other : ∀ h, d ≠ .call h) : (Effect.duty d : Effect ι).isTame = true := by
  cases d with
  | call h => exact absurd rfl (other h)
  | _ => first | rfl | exact late.elim

namespace World

variable {w : World ι}

theorem halted_halt (w : World ι) : w.halt.Halted where
  lifecycle := rfl
  stop := rfl
  monitor := rfl
  schedule := w.schedule.stopped_shutdown

theorem Halted.of_same {w' : World ι} (halted : w.Halted) (lifecycle : w'.lifecycle = w.lifecycle)
    (stop : w'.stop = w.stop) (monitor : w'.nextLook = w.nextLook)
    (schedule : w'.schedule.stopped = w.schedule.stopped) : w'.Halted where
  lifecycle := lifecycle.trans halted.lifecycle
  stop := stop ▸ halted.stop
  monitor := monitor.trans halted.monitor
  schedule := schedule.trans halted.schedule

theorem Halted.look (halted : w.Halted) : w.look = w := by
  unfold World.look
  rw [halted.monitor]

theorem Halted.enlist (halted : w.Halted) (name : String) (work : Work ι)
    (interval : Option Nat) : (w.enlist name work interval).Halted := by
  refine halted.of_same rfl rfl rfl ?_
  cases interval <;> exact Schedule.stopped_insert ..

theorem Halted.scheduleLoops (halted : w.Halted) : w.scheduleLoops.Halted := by
  unfold World.scheduleLoops
  exact (((halted.enlist _ _ _).enlist _ _ _).enlist _ _ _).enlist _ _ _

theorem Halted.applyMode (halted : w.Halted) : w.applyMode.Halted := by
  unfold World.applyMode
  split <;> exact halted.of_same rfl rfl rfl rfl

end World

namespace Robot

variable {w : World ι}

theorem settle_of_halted (app : App ι σ) (halted : w.Halted) :
    (settle app w).1.Halted ∧
      ((settle app w).2 = .skip ∨ (settle app w).2 = doing .settle .skip) := by
  obtain ⟨lifecycle, stop, monitor, stopped⟩ := halted
  unfold settle
  dsimp only
  rw [Schedule.pass_of_stopped stopped]
  split
  · exact ⟨⟨lifecycle, stop, monitor, stopped⟩, .inl rfl⟩
  · next j s taken =>
      have same : s.stopped = true := by
        unfold Schedule.take at taken
        split at taken
        · cases taken
        · cases taken
          exact stopped
      split
      · have never : s.mayRun j = false := by simp [Schedule.mayRun, same]
        rw [if_neg (by simp [never])]
        exact ⟨⟨lifecycle, stop, monitor, same⟩, .inr rfl⟩
      · exact ⟨⟨lifecycle, stop, monitor, same⟩, .inr rfl⟩

/-! ### Late code -/

/-- Code that does what a halted robot may do, provided that it is halted when the code looks. -/
def Late (opens : Prop) (c : Code ι σ) : Prop := c.UsesIn World.Halted (Effect.Late opens)

theorem Late.mono {opens' : Prop} (le : opens → opens') {c : Code ι σ} (late : Late opens c) :
    Late opens' c := Routine.UsesIn.mono (Effect.Late.mono le) late

theorem late_lift (r : Routine (Act ι) (World ι) σ) : Late opens (lift r) := by
  have uses : (lift r).Uses (fun _ => True) (Effect.Late opens) := uses_lift (fun _ => trivial) r
  exact uses.within

theorem late_doing {d : Duty} {next : Code ι σ} (now : (Effect.duty d : Effect ι).Late opens)
    (later : Late opens next) : Late opens (doing d next) := ⟨now, fun _ => later⟩

theorem late_skip : Late opens (.skip : Code ι σ) := trivial

theorem late_hookEnd (h : Hook) (o : Except Failure Unit) :
    Late opens (hookEnd h o : Code ι σ) := by
  cases o with
  | ok _ => exact late_skip
  | error f => exact late_doing trivial late_skip

theorem late_start : Late opens (start : Code ι σ) := by
  intro t w own halted
  have down : w.lifecycle ≠ .created := by rw [halted.lifecycle]; nofun
  dsimp only
  rw [if_pos down]
  trivial

theorem late_shutdown : Late opens (shutdown : Code ι σ) := by
  intro t w own halted
  dsimp only
  rw [halted.lifecycle]
  trivial

theorem late_runEnd (o : Except Failure Unit) : Late opens (runEnd o : Code ι σ) := by
  match o with
  | .ok () => exact late_doing trivial late_shutdown
  | .error (.fault f) => trivial
  | .error (.panic p) => trivial

theorem late_setEnabled (enabled : Bool) : Late opens (setEnabled enabled : Code ι σ) := by
  intro t w own halted
  have down : w.lifecycle ≠ .started := by rw [halted.lifecycle]; nofun
  dsimp only
  rw [if_pos down]
  trivial

theorem late_order (o : Order ι σ) : Late opens (o.body : Code ι σ) := by
  cases o with
  | start => exact late_start
  | shutdown => exact late_shutdown
  | run => exact ⟨late_start, late_runEnd⟩
  | setEnabled enabled => exact late_setEnabled enabled
  | settle => exact late_doing trivial late_skip
  | code r => exact late_lift r

theorem late_perform (app : App ι σ) (halted : w.Halted) (e : Effect ι) (late : e.Late opens) :
    Late opens (perform app w e).2 := by
  cases e with
  | act a =>
      cases a with
      | setEnabled enabled => exact late_setEnabled enabled
      | _ => trivial
  | duty d =>
      cases d with
      | call h => exact ⟨late_lift _, late_hookEnd h⟩
      | settle =>
          rcases (settle_of_halted app halted).2 with ended | again
          · exact ended ▸ late_skip
          · exact again ▸ late_doing trivial late_skip
      | _ => exact late_skip

theorem halted_perform (app : App ι σ) (halted : w.Halted) (e : Effect ι) (late : e.Late opens) :
    (perform app w e).1.Halted := by
  cases e with
  | act a =>
      cases a with
      | schedule name job interval => exact halted.enlist name _ interval
      | requestStop =>
          exact ⟨halted.lifecycle, rfl, halted.monitor, halted.schedule⟩
      | _ => exact halted.of_same rfl rfl rfl rfl
  | duty d =>
      cases d with
      | call h => exact halted
      | hookFailed h f => exact halted.of_same rfl rfl rfl rfl
      | applyMode => exact halted.applyMode
      | scheduleLoops => exact halted.scheduleLoops
      | settle => exact (settle_of_halted app halted).1
      | noteStopRequest => exact halted.of_same rfl rfl rfl rfl
      | jobEnded j failed => cases failed <;> exact halted.of_same rfl rfl rfl rfl
      | _ => exact late.elim

/-- Late effects leave the mode of a robot alone, and the entry of the table that tells it. -/
theorem sameRule_late (app : App ι σ) (w : World ι) (e : Effect ι) (late : e.Late opens) :
    w.SameRule (perform app w e).1 ∧
      ((∀ a, e = .act a → a.setsState = false) → (perform app w e).1.stated = w.stated) := by
  cases e with
  | act a => exact ⟨sameRule_carryOut a, fun mine => stated_carryOut a (mine a rfl)⟩
  | duty d =>
      by_cases calls : ∃ h, d = .call h
      · obtain ⟨h, rfl⟩ := calls
        exact ⟨.refl w, fun _ => rfl⟩
      · have tame := late.isTame fun h same => calls ⟨h, same⟩
        have both : w.SameRule (attend app w d).1 ∧ (attend app w d).1.table = w.table :=
          sameRule_attend d tame late.goes
        exact ⟨both.1, fun _ => congrArg (NetworkTable.get? · _) both.2⟩

end Robot

namespace Session

variable {s : Session ι σ} {rest : List (Task (Effect ι) (World ι) σ)}

theorem halted_step (app : App ι σ) (halted : s.world.Halted)
    (late : ∀ e next rest, s.agenda = .run (.act e next) :: rest → e.Late opens) :
    (Machine.step (Robot.host app) s).world.Halted :=
  Machine.world_step (Robot.host_keeps_fleet fun _ _ own => own.of_same rfl rfl rfl rfl)
    halted fun e next rest front => Robot.halted_perform app halted e (late e next rest front)

abbrev AllLate (opens : Prop) (tasks : List (Task (Effect ι) (World ι) σ)) : Prop :=
  ∀ x ∈ tasks, x.Holds (Robot.Late opens)

theorem leads_late (app : App ι σ) (halted : s.world.Halted) {t : Task (Effect ι) (World ι) σ}
    (front : s.agenda = t :: rest) (late : t.Holds (Robot.Late opens)) :
    Leads (Task.Holds (Robot.Late opens)) (Task.Holds (Robot.Late opens)) t rest
      (Machine.step (Robot.host app) s).agenda := by
  refine Routine.inherits_usesIn.leads (h := Robot.host app) (fun _ _ => Robot.late_lift _)
    halted front late fun e next same => ?_
  subst same
  exact Robot.late_perform app halted e late.1

theorem late_effect {t : Task (Effect ι) (World ι) σ} (front : s.agenda = t :: rest)
    (late : t.Holds (Robot.Late opens)) {e : Effect ι} {next : Except Fault Unit → Robot.Code ι σ}
    {below : List (Task (Effect ι) (World ι) σ)} (acts : s.agenda = .run (.act e next) :: below) :
    e.Late opens := by
  obtain rfl := (List.cons.inj (front.symm.trans acts)).1
  exact late.1

theorem late_duty {t : Task (Effect ι) (World ι) σ} (front : s.agenda = t :: rest)
    (late : t.Holds (Robot.Late opens)) {d : Duty} (carried : s.duty = some d) :
    (Effect.duty d : Effect ι).Late opens := by
  obtain ⟨_, _, acts⟩ := front_of_duty carried
  exact late_effect front late acts

end Session

end RobotControl
