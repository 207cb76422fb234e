import RobotControl.Proofs.Device.Motor

/-!
# How the output follows a motor

An output that takes every command holds the speed of its controller from the first start on,
whatever is asked of the motor and in whatever order.  The brake setting reaches it with the next
command only: switching a motor on hands no command over, so that a setting changed while the motor
was off stays unsent until something else is asked of it (`Motor.output_follows`).
-/
set_option autoImplicit false

namespace RobotControl

open Number

/-- Two speeds that differ in the sign of zero at most. -/
def SameSpeed (x y : Float) : Prop := x = y ∨ IsZero x ∧ IsZero y

theorem SameSpeed.trans {x y z : Float} (first : SameSpeed x y) (second : SameSpeed y z) :
    SameSpeed x z := by
  rcases first with rfl | ⟨zeroX, zeroY⟩
  · exact second
  · rcases second with rfl | ⟨_, zeroZ⟩
    · exact .inr ⟨zeroX, zeroY⟩
    · exact .inr ⟨zeroX, zeroZ⟩

namespace Output

/-- An output that takes every command. -/
def Willing (o : Output) : Prop := ∀ attempt, o.refusesWrite attempt = false

theorem applied_write {o : Output} (willing : o.Willing) (c : Command) :
    (o.write c).1.applied = c := by
  unfold write
  dsimp only
  rw [willing]
  rfl

theorem refusesWrite_write (o : Output) (c : Command) :
    (o.write c).1.refusesWrite = o.refusesWrite := by
  unfold write
  dsimp only
  split <;> rfl

theorem refusesWrite_initialise (o : Output) :
    o.initialise.1.refusesWrite = o.refusesWrite := by
  unfold initialise
  dsimp only
  split <;> rfl

end Output

namespace Motor

def told (m : Motor) : List Order → Option Command
  | [] => none
  | o :: earlier => ((m.after earlier).hands o).or (m.told earlier)

/-- The brake setting that is still to be sent once an order without a command was obeyed. -/
def Order.leave : Order → Option Bool → Option Bool
  | .drive (.brake b), _ => some b
  | _, unsent => unsent

/-- The brake setting asked for since a command was last handed over. -/
def unsent (m : Motor) : List Order → Option Bool
  | [] => none
  | o :: earlier =>
      if ((m.after earlier).hands o).isSome then none else o.leave (m.unsent earlier)

variable {m : Motor}

theorem refusesWrite_readied (m : Motor) (o : Order) :
    (m.readied o).refusesWrite = m.output.refusesWrite := by
  cases o with
  | start =>
      by_cases ready : m.controller.initialised
      · exact congrArg Output.refusesWrite (if_pos ready)
      · exact (congrArg Output.refusesWrite (if_neg ready)).trans m.output.refusesWrite_initialise
  | _ => rfl

theorem willing_obey (willing : m.output.Willing) (o : Order) : (m.obey o).output.Willing := by
  intro attempt
  have same : (m.obey o).output.refusesWrite = (m.readied o).refusesWrite := by
    rw [output_obey]
    cases m.hands o with
    | none => rfl
    | some command => exact (m.readied o).refusesWrite_write command
  rw [same, m.refusesWrite_readied, willing]

theorem hands_command {o : Order} {command : Command} (handed : m.hands o = some command) :
    command = (m.obey o).controller.command := by
  cases o with
  | start =>
      rcases m.start_cases with ⟨_, _, silent⟩ | ⟨_, _, silent, _⟩ | ⟨_, _, zero, started⟩
      · cases silent.symm.trans handed
      · cases silent.symm.trans handed
      · show command = m.start.1.controller.command
        rw [started]
        exact (Option.some.inj (zero.symm.trans handed)).symm
  | enable => cases handed
  | disable =>
      have changed : (m.obey .disable).controller = m.controller.disable.1 :=
        m.controller_change Controller.disable
      rw [changed]
      change m.controller.disable.2 = some command at handed
      unfold Controller.disable at handed ⊢
      split at handed
      · next ready =>
          rw [if_pos ready]
          exact (Option.some.inj handed).symm
      · cases handed
  | drive i =>
      have changed : (m.obey (.drive i)).controller = (i.apply m.controller).1 :=
        m.controller_change i.apply
      rw [changed]
      exact (Controller.command_apply i handed).1

theorem applied_obey (willing : m.output.Willing) {o : Order} {command : Command}
    (handed : m.hands o = some command) : (m.obey o).output.applied = command := by
  have ready : (m.readied o).Willing := by
    intro attempt
    rw [m.refusesWrite_readied, willing]
  rw [output_obey, handed]
  exact Output.applied_write ready command

theorem hands_drive_enabled (on : m.controller.enabled = true) (i : Device.MotorInput) :
    m.hands (.drive i) = some (i.apply m.controller).1.command := by
  have still : (i.apply m.controller).1.enabled = true :=
    (i.flags_apply m.controller).2.trans on
  have pushed : ∀ c : Controller, c.enabled = true → c.pushing.2 = some c.command := by
    intro c on
    exact if_pos on
  cases i with
  | speed x =>
      show (m.controller.setSpeed x).2 = some (m.controller.setSpeed x).1.command
      unfold Controller.setSpeed
      rw [if_pos on]
      exact pushed _ on
  | inverted b => exact pushed _ still
  | brake b => exact pushed _ still

/-- The output of a motor that was started holds the command that was handed over last: the speed
of the controller, and the brake setting but for the one that was not sent. -/
structure Follows (m : Motor) (told : Option Command) (unsent : Option Bool) : Prop where
  willing : m.output.Willing
  last : m.controller.initialised = true → told = some m.output.applied
  speed : m.controller.initialised = true →
    SameSpeed m.output.applied.speed m.controller.effective
  brake : m.controller.initialised = true →
    m.controller.brake = unsent.getD m.output.applied.brake

section Step

variable {told : Option Command} {unsent : Option Bool}

theorem Follows.of_handed (willing : m.output.Willing) {o : Order} {command : Command}
    (handed : m.hands o = some command) : (m.obey o).Follows (some command) none := by
  have held := applied_obey willing handed
  have current := hands_command handed
  refine ⟨willing_obey willing o, fun _ => ?_, fun _ => .inl ?_, fun _ => ?_⟩
  · rw [held]
  · rw [held, current]
    rfl
  · rw [Option.getD_none, held, current]
    rfl

/-- An order that hands nothing over leaves the output of a motor that was started alone.  The
speed stays, up to the sign of zero, and the brake setting is changed by its own order only. -/
theorem obey_silent (sane : m.controller.Sane) (ready : m.controller.initialised = true) {o : Order}
    (silent : m.hands o = none) :
    (m.obey o).output = m.output ∧
      SameSpeed m.controller.effective (m.obey o).controller.effective ∧
      ∀ held unsent, m.controller.brake = Option.getD unsent held →
        (m.obey o).controller.brake = (o.leave unsent).getD held := by
  have readied : m.readied o = m.output := by
    cases o with
    | start => exact if_pos ready
    | _ => rfl
  refine ⟨by rw [output_obey, silent, readied]; rfl, ?_⟩
  cases o with
  | start =>
      rcases m.start_cases with ⟨_, same, _⟩ | ⟨unready, _⟩ | ⟨unready, _⟩
      · show SameSpeed _ m.start.1.controller.effective ∧ _
        rw [show m.obey .start = m from same, same]
        exact ⟨.inl rfl, fun _ _ brake => brake⟩
      · exact absurd (ready.symm.trans unready) Bool.noConfusion
      · exact absurd (ready.symm.trans unready) Bool.noConfusion
  | enable =>
      have same : m.controller.enable = { m.controller with enabled := true } := if_pos ready
      show SameSpeed _ m.controller.enable.effective ∧ ∀ _ _, _ → m.controller.enable.brake = _
      rw [same]
      exact ⟨.inl rfl, fun _ _ brake => brake⟩
  | disable =>
      change m.controller.disable.2 = none at silent
      unfold Controller.disable at silent
      rw [if_pos ready] at silent
      cases silent
  | drive i =>
      have controller : (m.obey (.drive i)).controller = (i.apply m.controller).1 :=
        m.controller_change i.apply
      have off : m.controller.enabled = false := by
        by_contra on
        have handed := hands_drive_enabled (Bool.not_eq_false _ ▸ on) i
        cases silent.symm.trans handed
      rw [controller]
      cases i with
      | speed x =>
          have same : (m.controller.setSpeed x).1 = m.controller := by
            unfold Controller.setSpeed
            rw [if_neg (Bool.eq_false_iff.mp off)]
          show SameSpeed _ (m.controller.setSpeed x).1.effective ∧
            ∀ _ _, _ → (m.controller.setSpeed x).1.brake = _
          rw [same]
          exact ⟨.inl rfl, fun _ _ brake => brake⟩
      | inverted b =>
          have standing := sane.still off
          refine ⟨.inr ⟨standing, ?_⟩, fun _ _ brake => brake⟩
          exact Controller.isZero_turned _ (Controller.isZero_turned _ standing)
      | brake b => exact ⟨.inl rfl, fun _ _ _ => rfl⟩

theorem handed_of_begun (sane : m.controller.Sane) (unready : m.controller.initialised = false)
    {o : Order} (begun : (m.obey o).controller.initialised = true) :
    ∃ command, m.hands o = some command := by
  by_cases other : o ≠ .start
  · have still := (obey_of_unready sane unready other).2
    exact absurd (begun.symm.trans still) Bool.noConfusion
  · obtain rfl := not_ne_iff.mp other
    rcases m.start_cases with ⟨ready, _⟩ | ⟨_, failed, _⟩ | ⟨_, _, handed, _⟩
    · exact absurd (ready.symm.trans unready) Bool.noConfusion
    · have same : m.start.1.controller = m.controller := by rw [failed]
      change m.start.1.controller.initialised = true at begun
      rw [same, unready] at begun
      cases begun
    · exact ⟨_, handed⟩

theorem Follows.obey (sane : m.controller.Sane) (follows : m.Follows told unsent) (o : Order) :
    (m.obey o).Follows ((m.hands o).or told)
      (if (m.hands o).isSome then none else o.leave unsent) := by
  cases handed : m.hands o with
  | some command => exact .of_handed follows.willing handed
  | none =>
      have ready : (m.obey o).controller.initialised = true →
          m.controller.initialised = true := by
        intro begun
        by_contra unready
        obtain ⟨command, some⟩ := handed_of_begun sane (Bool.not_eq_true _ ▸ unready) begun
        cases handed.symm.trans some
      refine ⟨willing_obey follows.willing o, fun begun => ?_, fun begun => ?_, fun begun => ?_⟩
      · obtain ⟨output, _⟩ := obey_silent sane (ready begun) handed
        rw [output]
        exact follows.last (ready begun)
      · obtain ⟨output, speed, _⟩ := obey_silent sane (ready begun) handed
        rw [output]
        exact (follows.speed (ready begun)).trans speed
      · obtain ⟨output, _, brake⟩ := obey_silent sane (ready begun) handed
        rw [output]
        exact brake _ _ (follows.brake (ready begun))

end Step

theorem follows_after (willing : m.output.Willing) (unready : m.controller.initialised = false)
    (sane : m.controller.Sane) (orders : List Order) :
    (m.after orders).Follows (m.told orders) (m.unsent orders) := by
  induction orders with
  | nil =>
      have never : ¬ m.controller.initialised = true := Bool.eq_false_iff.mp unready
      exact ⟨willing, fun on => absurd on never, fun on => absurd on never,
        fun on => absurd on never⟩
  | cons o earlier ih => exact ih.obey (sane_after sane earlier) o

/-- What a willing output holds, whatever was asked of its motor and in whatever order.  An enabled
motor was started, and from the start on the output holds the command that was handed over last: its
speed is the speed of the controller, up to the sign of zero, and its brake setting is the one of
the controller unless another one was asked for since then.  A command is always the whole state
of the controller as it is when it is handed over; starting, disabling and every setting of an
enabled motor hand one over, so that after any of them the output holds exactly that state, but
enabling does not. -/
theorem output_follows (name : String) (output : Output) (willing : output.Willing)
    (orders : List Order) :
    let first : Motor := ⟨name, output, {}⟩
    let m := first.after orders
    let c := m.controller
    (c.enabled = true → c.initialised = true) ∧
    (c.initialised = true →
      first.told orders = some m.output.applied ∧
      SameSpeed m.output.applied.speed c.effective ∧
      (m.output.applied.brake = c.brake ↔
        ∀ b, first.unsent orders = some b → b = m.output.applied.brake)) ∧
    (∀ o command, m.hands o = some command →
      (m.obey o).output.applied = command ∧ command = (m.obey o).controller.command) ∧
    (c.initialised = false → (m.obey .start).controller.initialised = true →
      (m.hands .start).isSome = true) ∧
    (c.initialised = true → (m.hands .disable).isSome = true) ∧
    (c.enabled = true → ∀ i, (m.hands (.drive i)).isSome = true) ∧
    (m.obey .enable).output = m.output := by
  intro first m c
  have sane : c.Sane := sane_after Controller.sane_new orders
  have follows : m.Follows (first.told orders) (first.unsent orders) :=
    follows_after (m := first) willing rfl Controller.sane_new orders
  refine ⟨sane.ready, fun ready => ⟨follows.last ready, follows.speed ready, ?_⟩,
    fun o command handed => ⟨applied_obey follows.willing handed, hands_command handed⟩,
    fun unready begun => ?_, fun ready => ?_, fun on i => ?_, rfl⟩
  · have brake : c.brake = (first.unsent orders).getD m.output.applied.brake :=
      follows.brake ready
    rw [brake]
    cases first.unsent orders with
    | none =>
        constructor
        · intro _ b unsent
          cases unsent
        · intro _
          rfl
    | some b =>
        rw [Option.getD_some]
        constructor
        · intro same b' unsent
          exact (Option.some.inj unsent).symm.trans same.symm
        · intro every
          exact (every b rfl).symm
  · obtain ⟨command, handed⟩ := handed_of_begun sane unready begun
    rw [handed]
    rfl
  · show c.disable.2.isSome = true
    unfold Controller.disable
    rw [if_pos ready]
    rfl
  · rw [hands_drive_enabled on i]
    rfl

/-- The brake setting of a motor that was off when it was asked for is not sent when the motor is
enabled, and is sent with the speed that follows. -/
theorem output_follows_arm :
    (∀ attempt, ({ label := "arm" } : Output).refusesWrite attempt = false) ∧
      let first : Motor := ⟨"arm", { label := "arm" }, {}⟩
      let m := first.after [.drive (.speed 0.5), .enable, .drive (.brake true), .start]
      first.told [.drive (.speed 0.5), .enable, .drive (.brake true), .start] =
          some m.output.applied ∧
        m.output.applied.brake = m.controller.brake := by
  have willing : ({ label := "arm" } : Output).Willing := fun _ => rfl
  obtain ⟨_, held, _⟩ := output_follows "arm" { label := "arm" } willing
    [.drive (.speed 0.5), .enable, .drive (.brake true), .start]
  obtain ⟨last, _, brake⟩ := held (by decide)
  exact ⟨fun _ => rfl, last, brake.mpr (fun b unsent => by cases unsent)⟩

/-- The motor is enabled and set to brake, but its output was told last to coast. -/
theorem coasts_on :
    ({ label := "arm" } : Output).Willing ∧
      let m := after ⟨"arm", { label := "arm" }, {}⟩ [.enable, .drive (.brake true), .start]
      m.controller.enabled = true ∧ m.controller.brake = true ∧
        m.output.attempts = 1 ∧ m.output.applied.brake = false := by
  refine ⟨fun _ => rfl, ?_⟩
  decide

end Motor

end RobotControl
