import RobotControl.Proofs.Action.Code
import RobotControl.Proofs.Device.Guard
import RobotControl.Robot.Session
import Mathlib.Logic.Relation

/-!
# Guarded robots

A robot is guarded if its devices fit its watchdog and its mode.  Every duty of a robot keeps it
guarded, and so does everything that an application does short of switching a device on itself.
Hence a robot is guarded in every state that it reaches (`Session.Reaches.safe`), and a trip lasts
until someone feeds the enabled robot.
-/
set_option autoImplicit false

namespace RobotControl

variable {ι σ : Type}

namespace World

def Guarded (w : World ι) : Prop := w.fleet.Guarded w.watchdog.tripped w.mode

variable {w w' : World ι}

theorem Guarded.of_calmer (guarded : w.Guarded) (fleet : w'.fleet.Calmer w.fleet)
    (watchdog : w'.watchdog = w.watchdog) (mode : w'.mode = w.mode) : w'.Guarded := by
  unfold World.Guarded
  rw [watchdog, mode]
  exact Fleet.Guarded.calmer guarded fleet

theorem Guarded.of_fleet (guarded : w.Guarded) (fleet : w'.fleet = w.fleet)
    (watchdog : w'.watchdog = w.watchdog) (mode : w'.mode = w.mode) : w'.Guarded :=
  guarded.of_calmer (fleet ▸ .refl _) watchdog mode

theorem guarded_ofProfile (p : Profile) (sink : Sink) : (ofProfile p sink : World ι).Guarded where
  sound _ _ none := by cases none
  fits _ _ none := by cases none
  idle _ _ none := by cases none

theorem Guarded.log (guarded : w.Guarded) (l : Line) : (w.log l).Guarded :=
  guarded.of_calmer (w.fleet.calmer_note _) rfl rfl

theorem views_applyMode (w : World ι) :
    w.applyMode.watchdog = w.watchdog ∧ w.applyMode.mode = w.mode := by
  unfold applyMode
  split <;> exact ⟨rfl, rfl⟩

theorem Guarded.applyMode {m : Mode} (guarded : w.fleet.Guarded w.watchdog.tripped m) :
    w.applyMode.Guarded := by
  obtain ⟨watchdog, same⟩ := w.views_applyMode
  unfold World.Guarded
  rw [watchdog, same]
  unfold World.applyMode
  cases mode : w.mode with
  | disabled => exact guarded.disableMatching
  | enabled =>
      dsimp only [Watchdog.whileArmed]
      cases tripped : w.watchdog.tripped with
      | false => exact guarded.enableMatching
      | true =>
          rw [if_pos rfl, ← tripped]
          exact guarded.enabled

theorem Guarded.switchTo (guarded : w.Guarded) (m : Mode) : (w.switchTo m).Guarded := by
  have switched : (({ w with mode := m } : World ι).publishMode m).applyMode.Guarded :=
    Guarded.applyMode (m := w.mode) guarded
  exact switched.log _

theorem Guarded.feed (guarded : w.Guarded) : w.feed.Guarded := by
  unfold World.feed Watchdog.feed World.Guarded
  dsimp only
  split
  · next clears =>
      obtain ⟨_, enabled⟩ := Bool.and_eq_true_iff.mp clears
      have mode : w.mode = .enabled := by
        cases mode : w.mode with
        | enabled => rfl
        | disabled => rw [mode] at enabled; cases enabled
      rw [mode]
      exact (guarded.enableWatched _).calmer (Fleet.calmer_note _ _)
  · exact guarded

theorem Guarded.check (guarded : w.Guarded) : w.check.Guarded := by
  unfold World.check Watchdog.check World.Guarded
  split
  · exact guarded
  · have noted : ∀ lines, (w.fleet.note lines).Guarded w.watchdog.tripped w.mode := fun lines =>
      Fleet.Guarded.calmer guarded (Fleet.calmer_note _ lines)
    exact (noted _).disableWatched.calmer (Fleet.calmer_note _ _)

theorem Guarded.powerUp (guarded : w.Guarded) : w.powerUp.Guarded := by
  refine Guarded.log ?_ _
  have started := Fleet.Guarded.calmer guarded w.fleet.calmer_startRoster
  -- the feed of a start does not count as that of an enabled robot
  simpa only [World.Guarded, publishMode, Watchdog.feed, Bool.and_false, Bool.false_eq_true,
    if_false] using started

theorem Guarded.wrapUp (guarded : w.Guarded) : w.wrapUp.Guarded := by
  refine Guarded.log ?_ _
  exact Fleet.Guarded.disableAll guarded _ _

theorem Guarded.advance (guarded : w.Guarded) (time : Nat) : (w.advance time).Guarded :=
  guarded.of_calmer (.of_eq (fun _ => Fleet.device?_congr rfl _) rfl) rfl rfl

theorem Guarded.look (guarded : w.Guarded) : w.look.Guarded := by
  unfold World.look
  split
  · exact guarded
  · split
    · exact guarded.of_fleet rfl rfl rfl
    · split
      · exact guarded
      · exact guarded.check.of_fleet rfl rfl rfl

end World

/-! ### What an application may do -/

def Act.isModest : Act ι → Bool
  | .device i => i.isModest
  | _ => true

def Effect.isModest : Effect ι → Bool
  | .act a => a.isModest
  | .duty _ => true

def Routine.Modest (r : Routine (Act ι) (World ι) σ) : Prop :=
  r.Uses (fun _ => True) fun a => a.isModest = true

/-- An application that never switches a device on, in no hook, no job and no callback. -/
structure App.Modest (app : App ι σ) : Prop where
  hook : ∀ h, (app.hook h).Modest
  job : ∀ j, (app.job j).Modest
  callback : ∀ a cb, (app.callback a cb).Modest

namespace Robot

/-- Code of a robot that never switches a device on as an application would. -/
def Modest (c : Code ι σ) : Prop := c.Uses (fun _ => True) fun e => e.isModest = true

theorem modest_doing {d : Duty} {next : Code ι σ} (modest : Modest next) :
    Modest (doing d next) := ⟨rfl, fun _ => modest⟩

theorem modest_skip : Modest (.skip : Code ι σ) := trivial

theorem modest_lift {r : Routine (Act ι) (World ι) σ} (modest : r.Modest) : Modest (lift r) := by
  have renamed : ∀ a : Act ι, a.isModest = true → (Effect.act a).isModest = true :=
    fun _ allowed => allowed
  unfold Modest lift
  exact Routine.uses_map renamed modest

theorem modest_setEnabled (enabled : Bool) : Modest (setEnabled enabled : Code ι σ) := by
  intro t w own
  dsimp only
  split
  · trivial
  · split
    · trivial
    · exact modest_doing (modest_doing modest_skip)

theorem modest_dispatchMode : Modest (dispatchMode : Code ι σ) :=
  fun _ _ _ => modest_doing (modest_doing modest_skip)

theorem modest_start : Modest (start : Code ι σ) := by
  intro t w own
  dsimp only
  split
  · trivial
  · exact modest_doing (modest_doing (modest_doing (modest_doing modest_skip)))

variable {app : App ι σ} {w : World ι}

theorem modest_jobCode (modest : app.Modest) (work : Work ι) : Modest (jobCode app work) := by
  cases work with
  | modeDispatch => exact modest_dispatchMode
  | periodic => exact modest_doing modest_skip
  | actionTick => exact ⟨trivial, fun _ => modest_skip⟩
  | triggerTick => exact ⟨trivial, fun _ => modest_skip⟩
  | user j => exact modest_lift (modest.job j)

theorem modest_settle (modest : app.Modest) (w : World ι) : Modest (settle app w).2 := by
  unfold settle
  dsimp only
  split
  · exact modest_skip
  · split
    · split
      · exact ⟨modest_jobCode modest _, fun _ => modest_doing (modest_doing modest_skip)⟩
      · exact modest_doing modest_skip
    · exact modest_doing modest_skip

/-- The jobs that run are part of the schedule, which no device depends on. -/
theorem guarded_settle (guarded : w.Guarded) : (settle app w).1.Guarded := by
  unfold settle
  dsimp only
  split
  · exact guarded.of_fleet rfl rfl rfl
  · split
    · split <;> exact guarded.of_fleet rfl rfl rfl
    · exact guarded.of_fleet rfl rfl rfl

theorem modest_attend (modest : app.Modest) (w : World ι) (d : Duty) :
    Modest (attend app w d).2 := by
  cases d with
  | call h =>
      refine ⟨modest_lift (modest.hook h), fun o => ?_⟩
      cases o with
      | ok _ => exact modest_skip
      | error f => exact modest_doing modest_skip
  | settle => exact modest_settle modest w
  | _ => exact modest_skip

theorem guarded_attend (guarded : w.Guarded) (d : Duty) : (attend app w d).1.Guarded := by
  cases d with
  | call h => exact guarded
  | hookFailed h f => exact guarded.log _
  | switchTo m => exact guarded.switchTo m
  | applyMode => exact World.Guarded.applyMode guarded
  | powerUp => exact guarded.powerUp
  | scheduleLoops => exact guarded.of_fleet rfl rfl rfl
  | retireUnstarted => exact guarded.of_fleet rfl rfl rfl
  | halt => exact guarded.of_calmer (w.fleet.calmer_note _) rfl rfl
  | wrapUp => exact guarded.wrapUp
  | noteStopRequest => exact guarded.log _
  | advance time => exact guarded.advance time
  | look => exact guarded.look
  | settle => exact guarded_settle guarded
  | jobEnded j failed =>
      have released : ({ w with schedule := w.schedule.release j } : World ι).Guarded :=
        guarded.of_fleet rfl rfl rfl
      cases failed with
      | none => exact released
      | some f => exact released.log _

theorem modest_carryOut (w : World ι) (a : Act ι) :
    Modest (carryOut w a : World ι × Code ι σ).2 := by
  cases a with
  | setEnabled enabled => exact modest_setEnabled enabled
  | _ => trivial

theorem guarded_carryOut (guarded : w.Guarded) (a : Act ι) (modest : a.isModest = true) :
    (carryOut w a : World ι × Code ι σ).1.Guarded := by
  cases a with
  | device i => exact guarded.of_calmer (w.fleet.calmer_accept i modest) rfl rfl
  | register h => exact guarded.of_calmer (w.fleet.calmer_register h) rfl rfl
  | gamepad controller id =>
      have made := Fleet.Guarded.add guarded id
        (d := .gamepad { controller := controller, maxAge := w.profile.maxGamepadAge })
        fun _ => ⟨rfl, rfl⟩
      exact made.calmer (Fleet.calmer_register _ _)
  | watch h => exact guarded.of_calmer (w.fleet.calmer_keep h fun _ => rfl) rfl rfl
  | feed => exact guarded.feed
  | _ => exact guarded.of_fleet rfl rfl rfl

theorem host_keeps (modest : app.Modest) :
    (host app).Keeps (fun _ => True) (fun e => e.isModest = true) World.Guarded where
  routine a cb := modest_lift (modest.callback a cb)
  answer e t w allowed guarded := by
    cases e with
    | act a => exact modest_carryOut w a
    | duty d => exact modest_attend modest w d
  log line w guarded := guarded.log line
  forget own trigger w guarded := by
    show (forget app own trigger w).Guarded
    unfold forget
    split
    · exact guarded.of_calmer (Fleet.calmer_keep _ _ fun _ => rfl) rfl rfl
    · exact guarded

theorem guarded_perform (guarded : w.Guarded) (e : Effect ι) (modest : e.isModest = true) :
    (perform app w e).1.Guarded := by
  cases e with
  | act a => exact guarded_carryOut guarded a modest
  | duty d => exact guarded_attend guarded d

end Robot

end RobotControl
