import RobotControl.Proofs.Device.Guard
import RobotControl.Proofs.Device.Lasting

/-!
# What has reached the output of a motor

A motor that is off has only been told to stand still since it was switched off.  So the speed that
last reached its output is zero, unless the last attempt to write was refused
(`Device.lasting_obeyed`).  The pass over the devices of a disabled robot writes once to every motor
that is on and to no other (`Fleet.disableMatching_motor`), the pass of the watchdog to every motor
(`Fleet.disableWatched_motor`).
-/
set_option autoImplicit false

namespace RobotControl

/-- The output did not refuse what it was told last. -/
def Output.Accepted (o : Output) : Prop := o.refusesWrite o.attempts = false

/-- The hardware stands still, or did not take the last command. -/
def Output.Still (o : Output) : Prop := o.Accepted → o.applied.speed = 0.0

theorem Output.still_write (o : Output) {c : Command} (zero : c.speed = 0.0) :
    (o.write c).1.Still := by
  unfold Output.write
  dsimp only
  split
  · next refused =>
      intro accepted
      exact absurd (refused.symm.trans accepted) Bool.noConfusion
  · exact fun _ => zero

theorem Output.attempts_write (o : Output) (c : Command) :
    (o.write c).1.attempts = o.attempts + 1 := by
  unfold Output.write
  dsimp only
  split <;> rfl

namespace Motor

/-- A motor that was initialised and is off stands still. -/
def Obeyed (m : Motor) : Prop :=
  m.controller.initialised = true → m.controller.enabled = false → m.output.Still

theorem obeyed_of_enabled {m : Motor} (enabled : m.controller.enabled = true) : m.Obeyed :=
  fun _ off => absurd (enabled.symm.trans off) Bool.noConfusion

theorem Obeyed.keeps {m m' : Motor} (obeyed : m.Obeyed) (output : m'.output = m.output)
    (initialised : m'.controller.initialised = m.controller.initialised)
    (enabled : m'.controller.enabled = m.controller.enabled) : m'.Obeyed := by
  intro ready off
  rw [output]
  exact obeyed (initialised ▸ ready) (enabled ▸ off)

theorem obeyed_start {m : Motor} (obeyed : m.Obeyed) : m.start.1.Obeyed := by
  unfold Motor.start
  split
  · exact obeyed
  · next unready =>
      dsimp only
      split
      · exact fun ready => absurd ready unready
      · exact fun _ _ => Output.still_write _ rfl

theorem obeyed_enable {m : Motor} (obeyed : m.Obeyed) : m.enable.Obeyed := by
  by_cases ready : m.controller.initialised = true
  · refine obeyed_of_enabled ?_
    simp [Motor.enable, Controller.enable, ready]
  · refine obeyed.keeps rfl ?_ ?_ <;> simp [Motor.enable, Controller.enable, ready]

theorem obeyed_disable {m : Motor} (obeyed : m.Obeyed) : m.disable.1.Obeyed := by
  unfold Motor.disable Motor.change Controller.disable
  split
  · exact fun _ _ => Output.still_write _ rfl
  · exact obeyed

theorem obeyed_change (i : Device.MotorInput) {m : Motor} (obeyed : m.Obeyed) :
    (m.change i.apply).1.Obeyed := by
  obtain ⟨initialised, enabled⟩ := i.flags_apply m.controller
  have changed := m.controller_change i.apply
  cases on : m.controller.enabled with
  | true =>
      refine obeyed_of_enabled ?_
      rw [changed, enabled, on]
  | false =>
      have silent : (i.apply m.controller).2 = none := by
        cases i <;> simp [Device.MotorInput.apply, Controller.setSpeed, Controller.setInverted,
          Controller.setBrake, Controller.pushing, on]
      refine obeyed.keeps ?_ (changed ▸ initialised) (changed ▸ enabled)
      unfold Motor.change Motor.settle
      rw [silent]

end Motor

def Device.Obeyed : Device → Prop
  | .motor m => m.Obeyed
  | _ => True

theorem Device.lasting_obeyed : Device.Lasting Device.Obeyed where
  fresh d fresh := by
    cases d with
    | motor m =>
        intro ready
        rw [show m.controller = {} from fresh] at ready
        cases ready
    | gamepad g => trivial
    | relay r => trivial
  start d obeyed := by
    cases d with
    | motor m => exact Motor.obeyed_start obeyed
    | gamepad g => trivial
    | relay r => trivial
  enable d obeyed := by
    cases d with
    | motor m => exact Motor.obeyed_enable obeyed
    | gamepad g => trivial
    | relay r => trivial
  disable d obeyed := by
    cases d with
    | motor m => exact Motor.obeyed_disable obeyed
    | gamepad g => trivial
    | relay r => trivial
  drive i d obeyed := by
    cases d with
    | motor m => exact Motor.obeyed_change i obeyed
    | gamepad g => trivial
    | relay r => trivial

/-! ### Passes that switch off -/

namespace Motor

variable {m m' : Motor}

/-- The motor is off, and its output has been written to once more. -/
structure Stilled (m' m : Motor) : Prop where
  off : m'.controller.enabled = false
  initialised : m'.controller.initialised = true
  again : m'.output.attempts = m.output.attempts + 1

theorem stilled_disable (ready : m.controller.initialised = true) : m.disable.1.Stilled m := by
  unfold Motor.disable Motor.change Controller.disable
  rw [if_pos ready]
  exact ⟨rfl, ready, Output.attempts_write _ _⟩

theorem disable_of_unready (unready : m.controller.initialised ≠ true) : m.disable.1 = m := by
  unfold Motor.disable Motor.change Controller.disable
  rw [if_neg unready]
  rfl

end Motor

namespace Device

def isMotor : Device → Bool
  | .motor _ => true
  | _ => false

def disableWhen (test : Device → Bool) (d : Device) : Device :=
  if test d then d.disable.1 else d

theorem isMotor_disableWhen (test : Device → Bool) (d : Device) :
    (disableWhen test d).isMotor = d.isMotor := by
  unfold disableWhen
  split
  · cases d <;> rfl
  · rfl

theorem isMotor_iterate (test : Device → Bool) (n : Nat) (d : Device) :
    ((disableWhen test)^[n] d).isMotor = d.isMotor := by
  induction n generalizing d with
  | zero => rfl
  | succ n ih => exact (ih _).trans (isMotor_disableWhen test d)

end Device

namespace Fleet

variable {f : Fleet} {h : Handle} {m' : Motor}

theorem motor_of_pass (test : Device → Bool) {g : Fleet}
    (passed : g = f.each f.live fun f h => match f.device? h with
      | some d => if test d then f.disable h else f
      | none => f)
    (live : h ∈ g.live) (found : g.device? h = some (.motor m')) :
    ∃ m n, f.device? h = some (.motor m) ∧
      (Device.disableWhen test)^[n] (Device.disableWhen test (.motor m)) = .motor m' := by
  subst passed
  obtain ⟨d, n, before, after⟩ := (touches_disable.when test).device?_pass live found
  have same := Device.isMotor_iterate test (n + 1) d
  rw [Function.iterate_succ_apply] at same
  cases d with
  | motor m => exact ⟨m, n, before, after.symm⟩
  | gamepad g => exact absurd (after ▸ same : (Device.motor m').isMotor = false) Bool.noConfusion
  | relay r => exact absurd (after ▸ same : (Device.motor m').isMotor = false) Bool.noConfusion

/-- The pass over the devices of a disabled robot switches off the motors that are on, and leaves
those that are off as they are. -/
theorem disableMatching_motor (sound : f.Every Device.Sound)
    (live : h ∈ f.disableMatching.live) (found : f.disableMatching.device? h = some (.motor m')) :
    ∃ m, f.device? h = some (.motor m) ∧
      (m.controller.enabled = false → m' = m) ∧ (m.controller.enabled = true → m'.Stilled m) := by
  obtain ⟨m, n, before, after⟩ :=
    motor_of_pass (fun d => d.followsMode && d.isEnabled) rfl live found
  -- a motor that is off stays as it is, however often it is passed
  have resting : ∀ m : Motor, m.controller.enabled = false →
      Device.disableWhen (fun d => d.followsMode && d.isEnabled) (.motor m) = .motor m := by
    intro m off
    refine if_neg fun on => ?_
    exact absurd (off.symm.trans (Bool.and_eq_true_iff.mp on).2) Bool.noConfusion
  refine ⟨m, before, fun off => ?_, fun on => ?_⟩
  · rw [resting m off, Function.iterate_fixed (resting m off)] at after
    cases after
    rfl
  · have stilled := m.stilled_disable (sound h _ before on)
    have first : Device.disableWhen (fun d => d.followsMode && d.isEnabled) (.motor m) =
        .motor m.disable.1 := if_pos on
    rw [first, Function.iterate_fixed (resting _ stilled.off)] at after
    cases after
    exact stilled

/-- The pass of the watchdog writes to every motor that was initialised, whether it is on or off. -/
theorem disableWatched_motor (live : h ∈ f.disableWatched.live)
    (found : f.disableWatched.device? h = some (.motor m'))
    (ready : m'.controller.initialised = true) :
    m'.controller.enabled = false ∧
      ∃ m, f.device? h = some (.motor m) ∧ m.output.attempts < m'.output.attempts := by
  obtain ⟨m, n, before, after⟩ := motor_of_pass Device.watched rfl live found
  have passed : Device.disableWhen Device.watched (.motor m) = .motor m.disable.1 := rfl
  have was : m.controller.initialised = true := by
    by_contra unready
    rw [m.disable_of_unready unready] at passed
    rw [passed, Function.iterate_fixed passed] at after
    cases after
    exact unready ready
  have written : m'.controller.enabled = false ∧ m.output.attempts < m'.output.attempts := by
    clear passed before
    induction n generalizing m with
    | zero =>
        cases after
        have stilled := m.stilled_disable was
        exact ⟨stilled.off, stilled.again ▸ Nat.lt_succ_self _⟩
    | succ n ih =>
        have stilled := m.stilled_disable was
        obtain ⟨off, more⟩ := ih m.disable.1 after stilled.initialised
        exact ⟨off, Nat.lt_trans (stilled.again ▸ Nat.lt_succ_self _) more⟩
  exact ⟨written.1, m, before, written.2⟩

end Fleet

theorem Watchdog.check_motor {w : Watchdog} {f : Fleet} {h : Handle} {m' : Motor}
    (stale : w.timeout < w.age f.now) (live : h ∈ (w.check f).2.live)
    (found : (w.check f).2.device? h = some (.motor m'))
    (ready : m'.controller.initialised = true) :
    m'.controller.enabled = false ∧
      ∃ m, f.device? h = some (.motor m) ∧ m.output.attempts < m'.output.attempts := by
  unfold Watchdog.check at live found
  rw [if_neg (Nat.not_le.mpr stale)] at live found
  exact Fleet.disableWatched_motor (f := f.note _) live found ready

end RobotControl
