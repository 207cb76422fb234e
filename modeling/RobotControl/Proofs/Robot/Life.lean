import RobotControl.Proofs.Action.Attempt
import RobotControl.Proofs.Action.Run
import RobotControl.Proofs.Robot.Dispatch

/-!
# The life of a robot

A robot is created and then given one call after another from outside: it is started, enabled and
disabled, shut down, and code of the application runs.  Meanwhile time passes, its monitor looks at
the watchdog, devices are made, and the application changes by itself.  `Session.Life` are the
states that come of this, each with the steps that were made on the way.
-/
set_option autoImplicit false

namespace RobotControl

variable {ι σ : Type} {app : App ι σ}

inductive Order (ι σ : Type) where
  | start
  | shutdown
  | run
  | setEnabled (enabled : Bool)
  /-- Everything that is due. -/
  | settle
  | code (r : Routine (Act ι) (World ι) σ)

def Order.body : Order ι σ → Robot.Code ι σ
  | .start => Robot.start
  | .shutdown => Robot.shutdown
  | .run => Robot.run
  | .setEnabled enabled => Robot.setEnabled enabled
  | .settle => Robot.doing .settle .skip
  | .code r => Robot.lift r

namespace Session

/-- The states in the life of a robot, with those that have made a step, the latest first. -/
inductive Life (app : App ι σ) : Session ι σ → List (Session ι σ) → Prop
  | created (p : Profile) (sink : Sink) (own : σ) : Life app (ofWorld (.ofProfile p sink) own) []
  | order {s : Session ι σ} {past : List (Session ι σ)} (o : Order ι σ) (life : Life app s past)
      (idle : s.agenda = []) : Life app { s with agenda := [.run o.body] } past
  | step {s : Session ι σ} {past : List (Session ι σ)} (life : Life app s past) :
      Life app (Machine.step (Robot.host app) s) (s :: past)
  | advance {s : Session ι σ} {past : List (Session ι σ)} (time : Nat) (life : Life app s past) :
      Life app { s with world := s.world.advance time } past
  | look {s : Session ι σ} {past : List (Session ι σ)} (life : Life app s past) :
      Life app { s with world := s.world.look } past
  | make {s : Session ι σ} {past : List (Session ι σ)} (id : DeviceId) (d : Device)
      (life : Life app s past) :
      Life app { s with world := { s.world with fleet := (s.world.fleet.add id d).1 } } past
  | drift {s : Session ι σ} {past : List (Session ι σ)} (own : σ) (life : Life app s past) :
      Life app { s with own := own } past

theorem Life.steps {s : Session ι σ} {past : List (Session ι σ)} (life : Life app s past)
    (n : Nat) : Life app (Machine.steps (Robot.host app) n s)
      (Machine.trail (Robot.host app) n s past) := by
  induction n generalizing s past with
  | zero => exact life
  | succ n ih => exact ih life.step

/-- A life splits in one place only at a step of a kind that it has once. -/
theorem split_unique {P : Session ι σ → Prop} {newer newer' older older' : List (Session ι σ)}
    {x x' : Session ι σ} (same : newer ++ x :: older = newer' ++ x' :: older') (here : P x')
    (once : ∀ y ∈ newer ++ older, ¬ P y) : newer' = newer ∧ x' = x ∧ older' = older := by
  rcases List.append_eq_append_iff.mp same with ⟨more, rfl, behind⟩ | ⟨more, rfl, behind⟩
  · cases more with
    | nil =>
        obtain ⟨rfl, rfl⟩ := List.cons.inj behind
        exact ⟨by simp, rfl, rfl⟩
    | cons y more =>
        obtain ⟨rfl, rfl⟩ := List.cons.inj behind
        exact absurd here (once x' (by simp))
  · cases more with
    | nil =>
        obtain ⟨rfl, rfl⟩ := List.cons.inj behind
        exact ⟨by simp, rfl, rfl⟩
    | cons y more =>
        obtain ⟨rfl, rfl⟩ := List.cons.inj behind
        exact absurd here (once x' (by simp))

def duty (s : Session ι σ) : Option Duty :=
  match s.agenda with
  | .run (.act (.duty d) _) :: _ => some d
  | _ => none

def deed (s : Session ι σ) : Option (Act ι) :=
  match s.agenda with
  | .run (.act (.act a) _) :: _ => some a
  | _ => none

theorem duty_eq {s : Session ι σ} {d : Duty} {next : Except Fault Unit → Robot.Code ι σ}
    {rest : List (Task (Effect ι) (World ι) σ)}
    (front : s.agenda = .run (.act (.duty d) next) :: rest) : s.duty = some d := by
  rw [duty, front]

theorem deed_eq {s : Session ι σ} {a : Act ι} {next : Except Fault Unit → Robot.Code ι σ}
    {rest : List (Task (Effect ι) (World ι) σ)}
    (front : s.agenda = .run (.act (.act a) next) :: rest) : s.deed = some a := by
  rw [deed, front]

theorem front_of_duty {s : Session ι σ} {d : Duty} (carried : s.duty = some d) :
    ∃ next rest, s.agenda = .run (.act (.duty d) next) :: rest := by
  unfold duty at carried
  split at carried
  · next d' next rest front =>
      cases carried
      exact ⟨next, rest, front⟩
  · cases carried

theorem front_of_deed {s : Session ι σ} {a : Act ι} (done : s.deed = some a) :
    ∃ next rest, s.agenda = .run (.act (.act a) next) :: rest := by
  unfold deed at done
  split at done
  · next a' next rest front =>
      cases done
      exact ⟨next, rest, front⟩
  · cases done

theorem step_act (app : App ι σ) {s : Session ι σ} {e : Effect ι}
    {next : Except Fault Unit → Robot.Code ι σ} {rest : List (Task (Effect ι) (World ι) σ)}
    (front : s.agenda = .run (.act e next) :: rest) :
    Machine.step (Robot.host app) s =
      { s with
        world := (Robot.perform app s.world e).1
        agenda := .run (Robot.perform app s.world e).2 :: .bound next :: rest } := by
  rw [Machine.step, front]
  rfl

end Session

namespace Robot

/-- What becomes of a hook that has ended. -/
def hookEnd (h : Hook) : Except Failure Unit → Code ι σ
  | .ok () => .skip
  | .error f => doing (.hookFailed h f) .skip

/-- The rest of a start once `robotStarted` has been called. -/
def opening : Code ι σ := doing (.call .robotDisabled) (doing .scheduleLoops .skip)

/-- The rest of a start once the robot is powered up. -/
def greeting : Code ι σ := doing (.call .robotStarted) opening

/-- The rest of the shutdown of a started robot. -/
def closing : Code ι σ := .ask .stopAll fun _ => doing .wrapUp .skip

/-- What a robot that is run does after its start. -/
def runEnd : Except Failure Unit → Code ι σ
  | .ok () => doing .noteStopRequest shutdown
  | .error (.fault f) => .fail f
  | .error (.panic p) => .panic p

theorem run_eq : (run : Code ι σ) = .attempt start runEnd := rfl

variable {acts : Effect ι → Prop}

theorem uses_lift (own : ∀ a, acts (.act a)) (r : Routine (Act ι) (World ι) σ) :
    (lift r).Uses (fun _ => True) acts :=
  Routine.uses_map (fun a _ => own a) r.uses_all

theorem host_keeps_fleet {W : World ι → Prop}
    (free : ∀ (w : World ι) (f : Fleet), W w → W { w with fleet := f }) :
    (host app).Keeps (fun _ => True) (fun _ => True) W where
  routine _ _ := Routine.uses_all _
  answer _ _ _ _ _ := Routine.uses_all _
  log _ w kept := free w _ kept
  forget own trigger w kept := by
    show W (forget app own trigger w)
    unfold forget
    split
    · exact free w _ kept
    · exact kept

/-- What is needed to run hooks and jobs is among the effects. -/
structure Everyday (acts : Effect ι → Prop) : Prop where
  act : ∀ a, acts (.act a)
  periodicIn : ∀ m, acts (.duty (.call (.periodicIn m)))
  periodic : acts (.duty (.call .periodic))
  hookFailed : ∀ h f, acts (.duty (.hookFailed h f))
  applyMode : acts (.duty .applyMode)
  settle : acts (.duty .settle)
  jobEnded : ∀ j failed, acts (.duty (.jobEnded j failed))

namespace Everyday

variable (everyday : Everyday acts)
include everyday

theorem uses_hookEnd (h : Hook) (o : Except Failure Unit) :
    (hookEnd h o : Code ι σ).Uses (fun _ => True) acts := by
  cases o with
  | ok _ => trivial
  | error f => exact ⟨everyday.hookFailed h f, fun _ => trivial⟩

theorem uses_call (app : App ι σ) (h : Hook) :
    (Routine.attempt (lift (app.hook h)) (hookEnd h)).Uses (fun _ => True) acts :=
  ⟨uses_lift everyday.act _, everyday.uses_hookEnd h⟩

theorem uses_jobCode (app : App ι σ) (work : Work ι) :
    (jobCode app work).Uses (fun _ => True) acts := by
  cases work with
  | modeDispatch =>
      exact fun t w own =>
        ⟨everyday.periodicIn w.mode, fun _ => ⟨everyday.applyMode, fun _ => trivial⟩⟩
  | periodic => exact ⟨everyday.periodic, fun _ => trivial⟩
  | actionTick => exact ⟨trivial, fun _ => trivial⟩
  | triggerTick => exact ⟨trivial, fun _ => trivial⟩
  | user j => exact uses_lift everyday.act _

theorem uses_settle (app : App ι σ) (w : World ι) :
    (Robot.settle app w).2.Uses (fun _ => True) acts := by
  have again : (doing .settle .skip : Code ι σ).Uses (fun _ => True) acts :=
    ⟨everyday.settle, fun _ => trivial⟩
  unfold Robot.settle
  dsimp only
  split
  · trivial
  · split
    · split
      · exact ⟨everyday.uses_jobCode app _, fun _ => ⟨everyday.jobEnded _ _, fun _ => again⟩⟩
      · exact again
    · exact again

end Everyday

end Robot

/-- A robot that is given one call after another, the latest first, and makes so many steps after
each. -/
def App.play (app : App Empty Unit) : List (Order Empty Unit × Nat) → Session Empty Unit
  | [] => .ofWorld (.ofProfile {} ⟨.nothing, []⟩) ()
  | (o, n) :: earlier =>
      Machine.steps (Robot.host app) n { app.play earlier with agenda := [.run o.body] }

end RobotControl
