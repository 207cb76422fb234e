import RobotControl.Proofs.Device.Output
import RobotControl.Proofs.Robot.Monitor

/-!
# Motors of a disabled robot

Whatever an application does with its devices, every run of the mode dispatcher that finds the robot
disabled leaves its motors off (`Session.dispatched_motors`).  It writes to the motors that it finds
on, and a motor that was off already is left as it is, even if the last write to its output failed.
Such a motor runs on until somebody else writes to it; the watchdog does, with every overdue check.
-/
set_option autoImplicit false

namespace RobotControl

variable {ι σ : Type} {app : App ι σ} {P : Device → Prop}

/-! ### What lasts of the devices of a robot -/

namespace World

variable {w : World ι}

theorem every_applyMode (lasting : Device.Lasting P) (every : w.fleet.Every P) :
    w.applyMode.fleet.Every P := by
  unfold applyMode
  split
  · show (w.watchdog.whileArmed w.fleet Fleet.enableMatching).Every P
    unfold Watchdog.whileArmed
    split
    · exact every
    · exact every.enableMatching lasting
  · exact every.disableMatching lasting

theorem every_look (lasting : Device.Lasting P) (every : w.fleet.Every P) :
    w.look.fleet.Every P := by
  unfold look
  split
  · exact every
  · split
    · exact every
    · split
      · exact every
      · exact every.check lasting w.watchdog

end World

namespace Robot

variable {w : World ι}

theorem every_attend (lasting : Device.Lasting P) (every : w.fleet.Every P) (d : Duty) :
    (attend app w d).1.fleet.Every P := by
  cases d with
  | call h => exact every
  | hookFailed h f => exact every.of_slots rfl
  | switchTo m =>
      have switched : (({ w with mode := m } : World ι).publishMode m).applyMode.fleet.Every P :=
        World.every_applyMode lasting every
      exact switched.of_slots rfl
  | applyMode => exact World.every_applyMode lasting every
  | powerUp => exact ((every.startRoster lasting).feed lasting w.watchdog false).of_slots rfl
  | noteStopRequest => exact every.of_slots rfl
  | wrapUp => exact (every.disableAll lasting).of_slots rfl
  | advance time => exact every.of_slots rfl
  | look => exact World.every_look lasting every
  | settle =>
      show (settle app w).1.fleet.Every P
      unfold settle
      dsimp only
      split
      · exact every
      · split
        · split <;> exact every
        · exact every
  | jobEnded j failed =>
      cases failed with
      | none => exact every
      | some f => exact every.of_slots rfl
  | _ => exact every

theorem every_carryOut (lasting : Device.Lasting P) (every : w.fleet.Every P) (a : Act ι) :
    (carryOut w a : World ι × Code ι σ).1.fleet.Every P := by
  cases a with
  | device i => exact every.accept lasting i
  | register h => exact every.register lasting h
  | gamepad controller id =>
      exact (every.add id (lasting.fresh (.gamepad _) trivial)).register lasting _
  | watch h => exact every.keep h fun _ => rfl
  | feed => exact every.feed lasting w.watchdog w.mode.isEnabled
  | _ => exact every

theorem every_perform (lasting : Device.Lasting P) (every : w.fleet.Every P) (e : Effect ι) :
    (perform app w e).1.fleet.Every P := by
  cases e with
  | act a => exact every_carryOut lasting every a
  | duty d => exact every_attend lasting every d

theorem host_keeps_every (P : Device → Prop) :
    (host app).Keeps (fun _ => True) (fun _ => True) fun w => w.fleet.Every P where
  routine _ _ := Routine.uses_all _
  answer _ _ _ _ _ := Routine.uses_all _
  log _ _ every := every.of_slots rfl
  forget own trigger w every := by
    show (forget app own trigger w).fleet.Every P
    unfold forget
    split
    · exact every.keep _ fun _ => rfl
    · exact every

end Robot

namespace Session

variable {s s' : Session ι σ}

/-- Everything that can happen, whatever the application does with its devices. -/
inductive Happens (app : App ι σ) : Session ι σ → Session ι σ → Prop
  | freely {s s' : Session ι σ} (moves : Freely app s s') : Happens app s s'
  | check (s : Session ι σ) : Happens app s { s with world := s.world.check }

/-- A state of a robot that was created and used in any way. -/
def Occurs (app : App ι σ) (s : Session ι σ) : Prop :=
  ∃ p sink own, Relation.ReflTransGen (Happens app) (ofWorld (.ofProfile p sink) own) s

theorem Happens.every (happens : Happens app s s') (lasting : Device.Lasting P)
    (every : s.world.fleet.Every P) : s'.world.fleet.Every P := by
  cases happens with
  | freely moves =>
      cases moves with
      | step =>
          exact Machine.world_step (Robot.host_keeps_every P) every fun e _ _ _ =>
            Robot.every_perform lasting every e
      | call c => exact every
      | make id d fresh => exact every.add id (lasting.fresh d fresh)
      | drift own => exact every
  | check => exact every.check lasting s.world.watchdog

theorem Occurs.every (occurs : Occurs app s) (lasting : Device.Lasting P) :
    s.world.fleet.Every P := by
  obtain ⟨p, sink, own, path⟩ := occurs
  induction path with
  | refl => exact fun _ _ none => by cases none
  | tail _ happens ih => exact happens.every lasting ih

theorem Occurs.happens (occurs : Occurs app s) (happens : Happens app s s') : Occurs app s' := by
  obtain ⟨p, sink, own, path⟩ := occurs
  exact ⟨p, sink, own, path.tail happens⟩

/-- The last step of a run of the dispatcher, the robot being disabled.  All motors are off after
it, and the hardware of each stands still unless it refused the last command that it was given.  But
only a motor that was on is given a command: one that was off is left as it is, whatever its
hardware does.  A check of the watchdog that is overdue gives a command to every motor. -/
theorem dispatched_motors (occurs : Occurs app s) :
    (∀ next rest, s.agenda = .run (.act (.duty .applyMode) next) :: rest →
      s.world.mode = .disabled →
        ∀ s', s' = Machine.step (Robot.host app) s →
          ∀ h ∈ s'.world.fleet.live, ∀ m', s'.world.fleet.device? h = some (.motor m') →
            m'.controller.initialised = true →
              m'.controller.enabled = false ∧ m'.output.Still ∧
                ∃ m, s.world.fleet.device? h = some (.motor m) ∧
                  (m.controller.enabled = true →
                    m'.output.attempts = m.output.attempts + 1) ∧
                  (m.controller.enabled = false → m' = m)) ∧
    (s.world.watchdog.timeout < s.world.watchdog.age s.world.now →
      ∀ h ∈ s.world.check.fleet.live, ∀ m', s.world.check.fleet.device? h = some (.motor m') →
        m'.controller.initialised = true →
          m'.controller.enabled = false ∧ m'.output.Still ∧
            ∃ m, s.world.fleet.device? h = some (.motor m) ∧
              m.output.attempts < m'.output.attempts) := by
  have sound := occurs.every Device.lasting_sound
  refine ⟨fun next rest front disabled s' stepped h live m' found ready => ?_,
    fun stale h live m' found ready => ?_⟩
  · have obeyed := (stepped ▸ occurs.happens (.freely (.step s)) : Occurs app s').every
      Device.lasting_obeyed
    have fleet : s'.world.fleet = s.world.fleet.disableMatching := by
      rw [stepped]
      unfold Machine.step
      rw [front]
      show s.world.applyMode.fleet = _
      unfold World.applyMode
      rw [disabled]
    obtain ⟨m, before, resting, switched⟩ :=
      Fleet.disableMatching_motor sound (fleet ▸ live) (fleet ▸ found)
    have off : m'.controller.enabled = false := by
      cases on : m.controller.enabled with
      | true => exact (switched on).off
      | false => rw [resting on, on]
    exact ⟨off, obeyed h _ found ready off, m, before, fun on => (switched on).again, resting⟩
  · have obeyed := (occurs.happens (.check s)).every Device.lasting_obeyed
    obtain ⟨off, written⟩ := Watchdog.check_motor stale live found ready
    exact ⟨off, obeyed h _ found ready off, written⟩

theorem Occurs.work (occurs : Occurs app s) (n : Nat) :
    Occurs app (Machine.work (Robot.host app) n s) :=
  Machine.work_keeps (fun s occurs => occurs.happens (.freely (.step s))) n occurs

theorem Occurs.carry (occurs : Occurs app s) (idle : s.agenda = []) (c : Robot.Code ι σ)
    (patience : Nat) : Occurs app (carry app patience s c) := by
  have called := occurs.happens (.freely (.call s c))
  rw [idle] at called
  exact called.work patience

/-- A motor whose fourth write fails, as it has been driven so far. -/
def arm (enabled : Bool) (effective : Float) (attempts writes : Nat) (applied : Float) : Motor where
  name := "arm"
  output :=
    { label := "arm"
      refusesWrite := fun n => n = 4
      initAttempts := 1
      initCalls := 1
      attempts := attempts
      writes := writes
      applied := ⟨applied, false⟩ }
  controller := { initialised := true, enabled := enabled, effective := effective }

/-- A robot with the motor that has done nothing yet. -/
def workshop : Session Empty Unit :=
  let fresh : Session Empty Unit := ofWorld (.ofProfile {} ⟨.nothing, []⟩) ()
  let unused : Motor :=
    { name := "arm", output := { label := "arm", refusesWrite := fun n => n = 4 } }
  { fresh with
    world :=
      { fresh.world with fleet := (fresh.world.fleet.add ⟨1⟩ (.motor unused)).1 } }

def workshop.input (i : FleetInput) : Robot.Code Empty Unit :=
  .act (.act (.device i)) fun _ => .skip

def workshop.started : Session Empty Unit :=
  carry .silent 40 (carry .silent 40 workshop (.act (.act (.register ⟨0⟩)) fun _ => .skip))
    Robot.start

/-- The application has switched the motor on and driven it; the second speed did not get
through. -/
def pushed : Session Empty Unit :=
  [workshop.input (.enable ⟨0⟩), workshop.input (.drive ⟨0⟩ (.speed 0.5)),
    workshop.input (.drive ⟨0⟩ (.speed 0.25))].foldl (carry .silent 40) workshop.started

/-- The motor was driven, and its output refused to stop when the robot was disabled. -/
def jammed : Session Empty Unit :=
  [Robot.setEnabled true, workshop.input (.drive ⟨0⟩ (.speed 0.5)), Robot.setEnabled false].foldl
    (carry .silent 40) workshop.started

/-- The dispatcher has called its hook and turns to the devices. -/
def turning : Session Empty Unit := carry .silent 5 pushed Robot.dispatchMode

def starved : Session Empty Unit :=
  carry .silent 40 jammed (Robot.doing (.advance 1000000000) .skip)

theorem occurs_started : Occurs .silent workshop.started := by
  have made : Occurs .silent workshop :=
    ⟨{}, ⟨.nothing, []⟩, (), .single (.freely (.make _ ⟨1⟩ _ rfl))⟩
  exact (made.carry rfl _ 40).carry rfl Robot.start 40

theorem occurs_pushed : Occurs .silent pushed := by
  have enabled := occurs_started.carry rfl (workshop.input (.enable ⟨0⟩)) 40
  have driven := enabled.carry rfl (workshop.input (.drive ⟨0⟩ (.speed 0.5))) 40
  exact driven.carry rfl (workshop.input (.drive ⟨0⟩ (.speed 0.25))) 40

theorem occurs_jammed : Occurs .silent jammed := by
  have enabled := occurs_started.carry rfl (Robot.setEnabled true) 40
  have driven := enabled.carry rfl (workshop.input (.drive ⟨0⟩ (.speed 0.5))) 40
  exact driven.carry rfl (Robot.setEnabled false) 40

theorem dispatched_motors_arm :
    (pushed.world.fleet.device? ⟨0⟩ = some (.motor (arm true 0.25 4 3 0.5)) ∧
      (Machine.step (Robot.host .silent) turning).world.fleet.device? ⟨0⟩ =
        some (.motor (arm false 0.0 5 4 0.0)) ∧
      (arm false 0.0 5 4 0.0).output.Still) ∧
    starved.world.fleet.device? ⟨0⟩ = some (.motor (arm false 0.0 4 3 0.5)) ∧
      starved.world.check.fleet.device? ⟨0⟩ = some (.motor (arm false 0.0 5 4 0.0)) ∧
      ∃ m, starved.world.fleet.device? ⟨0⟩ = some (.motor m) ∧ m.output.attempts < 5 := by
  have turned := (dispatched_motors (occurs_pushed.carry rfl Robot.dispatchMode 5)).1 _ _ rfl rfl
    _ rfl ⟨0⟩ (by decide) (arm false 0.0 5 4 0.0) rfl rfl
  have checked := (dispatched_motors
    (occurs_jammed.carry rfl (Robot.doing (.advance 1000000000) .skip) 40)).2 (by decide)
    ⟨0⟩ (by decide) (arm false 0.0 5 4 0.0) rfl rfl
  exact ⟨⟨rfl, rfl, turned.2.1⟩, rfl, rfl, checked.2.2⟩

/-- The robot is started and disabled, its motor off, and however often the dispatcher runs, the
motor is not written to again and its hardware turns at half speed. -/
theorem jammed_runs_on :
    Occurs .silent jammed ∧
      (∀ n, (fun s => carry .silent 40 s Robot.dispatchMode)^[n] jammed = jammed) ∧
      jammed.world.lifecycle = .started ∧ jammed.world.mode = .disabled ∧
      ⟨0⟩ ∈ jammed.world.fleet.live ∧
      jammed.world.fleet.device? ⟨0⟩ = some (.motor (arm false 0.0 4 3 0.5)) ∧
      (arm false 0.0 4 3 0.5).controller.initialised = true ∧
      (arm false 0.0 4 3 0.5).output.applied.speed ≠ 0.0 := by
  have unchanged : carry .silent 40 jammed Robot.dispatchMode = jammed := rfl
  exact ⟨occurs_jammed, Function.iterate_fixed unchanged, rfl, rfl, by decide, rfl, rfl, by decide⟩

end Session

end RobotControl
