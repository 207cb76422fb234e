import RobotControl.Proofs.Device.Guard
import RobotControl.Proofs.Number.Signed

/-!
# The life of a motor

What a motor goes through from the moment it is made until it is released, whatever its output
refuses.  The output is written to only after it was initialised, which happens once, and what it is
told is a speed in `[-1, 1]` that is zero unless the motor is on.  The stored speed contains the
inversion; the speed that was asked for is recovered from it, however often the motor has been
turned round since (`Motor.lifetime`).
-/
set_option autoImplicit false

namespace RobotControl

open Number

namespace Controller

/-! ### Inversion -/

theorem turned_turned (c : Controller) (x : Float) : c.turned (c.turned x) = x := by
  unfold turned
  split
  · exact neg_neg_double x
  · rfl

theorem inUnit_turned (c : Controller) {x : Float} (bounded : InUnit x) : InUnit (c.turned x) := by
  unfold turned
  split
  · exact bounded.neg
  · exact bounded

theorem isZero_turned (c : Controller) {x : Float} (zero : IsZero x) : IsZero (c.turned x) := by
  unfold turned
  split
  · exact isZero_neg.mpr zero
  · exact zero

/-- The stored speed is in bounds, and zero while the controller is off; only an initialised
controller is on. -/
structure Sane (c : Controller) : Prop where
  ready : c.enabled = true → c.initialised = true
  bounded : InUnit c.effective
  still : c.enabled = false → IsZero c.effective

theorem sane_new : ({} : Controller).Sane where
  ready on := by cases on
  bounded := inUnit_zero
  still _ := isZero_zero

variable {c : Controller}

theorem sane_initialise (c : Controller) : c.initialise.1.Sane where
  ready _ := rfl
  bounded := inUnit_zero
  still _ := isZero_zero

theorem Sane.enable (sane : c.Sane) : c.enable.Sane := by
  unfold Controller.enable
  split
  · next ready => exact ⟨fun _ => ready, sane.bounded, nofun⟩
  · exact sane

theorem Sane.disable (sane : c.Sane) : c.disable.1.Sane := by
  unfold Controller.disable
  split
  · exact ⟨nofun, inUnit_zero, fun _ => isZero_zero⟩
  · exact sane

theorem Sane.apply (sane : c.Sane) (i : Device.MotorInput) : (i.apply c).1.Sane := by
  cases i with
  | speed x =>
      show (c.setSpeed x).1.Sane
      unfold setSpeed
      split
      · next on =>
          refine ⟨sane.ready, c.inUnit_turned (inUnit_unitInput x), fun off => ?_⟩
          exact absurd (on.symm.trans off) Bool.noConfusion
      · exact sane
  | inverted b =>
      exact ⟨sane.ready, inUnit_turned _ (c.inUnit_turned sane.bounded),
        fun off => isZero_turned _ (c.isZero_turned (sane.still off))⟩
  | brake b => exact ⟨sane.ready, sane.bounded, sane.still⟩

theorem command_apply (i : Device.MotorInput) {command : Command}
    (told : (i.apply c).2 = some command) :
    command = (i.apply c).1.command ∧ (i.apply c).1.enabled = true := by
  have pushed : ∀ c' : Controller, c'.pushing.2 = some command →
      command = c'.command ∧ c'.enabled = true := by
    intro c' told
    unfold pushing at told
    dsimp only at told
    split at told
    · next on => exact ⟨(Option.some.inj told).symm, on⟩
    · cases told
  cases i with
  | speed x =>
      change (c.setSpeed x).2 = some command at told
      show command = (c.setSpeed x).1.command ∧ (c.setSpeed x).1.enabled = true
      unfold setSpeed at told ⊢
      split at told
      · next on =>
          rw [if_pos on]
          exact pushed _ told
      · cases told
  | inverted b => exact pushed _ told
  | brake b => exact pushed _ told

end Controller

namespace Output

theorem initAttempts_write (o : Output) (c : Command) :
    (o.write c).1.initAttempts = o.initAttempts ∧ (o.write c).1.initCalls = o.initCalls := by
  unfold write
  dsimp only
  split <;> exact ⟨rfl, rfl⟩

theorem initialise_cases (o : Output) :
    (o.initialise.1.attempts = o.attempts ∧ o.initialise.1.applied = o.applied) ∧
      ((∃ f, o.initialise.2 = .error f) ∧ o.initialise.1.initCalls = o.initCalls ∨
        o.initialise.2 = .ok () ∧ o.initialise.1.initCalls = o.initCalls + 1) := by
  unfold initialise
  dsimp only
  split
  · exact ⟨⟨rfl, rfl⟩, .inl ⟨⟨_, rfl⟩, rfl⟩⟩
  · exact ⟨⟨rfl, rfl⟩, .inr ⟨rfl, rfl⟩⟩

end Output

namespace Motor

/-! ### Orders -/

/-- What can be asked of a motor before it is released. -/
inductive Order where
  | start
  | enable
  | disable
  | drive (i : Device.MotorInput)

def obey (m : Motor) : Order → Motor
  | .start => m.start.1
  | .enable => m.enable
  | .disable => m.disable.1
  | .drive i => (m.change i.apply).1

def after (m : Motor) : List Order → Motor
  | [] => m
  | o :: earlier => (m.after earlier).obey o

/-- The output when it is about to take a command: a start initialises it first, unless that has
succeeded before. -/
def readied (m : Motor) : Order → Output
  | .start => if m.controller.initialised then m.output else m.output.initialise.1
  | _ => m.output

def hands (m : Motor) : Order → Option Command
  | .start =>
      if m.controller.initialised then none
      else
        match m.output.initialise.2 with
        | .ok () => m.controller.initialise.2
        | .error _ => none
  | .enable => none
  | .disable => m.controller.disable.2
  | .drive i => (i.apply m.controller).2

/-- The speed asked for last since the motor was switched on. -/
def asked (m : Motor) : List Order → Option Float
  | [] => none
  | .drive (.speed x) :: _ => some x
  | .enable :: earlier => if (m.after earlier).controller.enabled then m.asked earlier else none
  | _ :: earlier => m.asked earlier

variable {m : Motor}

theorem settle_eq (m : Motor) (message : String) (change : Controller × Option Command) :
    (m.settle message change).1 =
      { m with
        controller := change.1
        output := change.2.elim m.output fun c => (m.output.write c).1 } := by
  unfold settle
  split
  · next none => rw [none]; rfl
  · next c some => rw [some]; rfl

/-- A start does nothing once an initialisation has succeeded, changes only the output if it fails,
and otherwise makes the standing motor known to the output. -/
theorem start_cases (m : Motor) :
    m.controller.initialised = true ∧ m.start.1 = m ∧ m.hands .start = none ∨
    m.controller.initialised = false ∧ m.start.1 = { m with output := m.output.initialise.1 } ∧
      m.hands .start = none ∧ m.output.initialise.1.initCalls = m.output.initCalls ∨
    m.controller.initialised = false ∧ m.output.initialise.1.initCalls = m.output.initCalls + 1 ∧
      m.hands .start = some m.controller.initialise.1.command ∧
        m.start.1 =
          { m with
            controller := m.controller.initialise.1
            output := (m.output.initialise.1.write m.controller.initialise.1.command).1 } := by
  cases ready : m.controller.initialised with
  | true => exact .inl ⟨rfl, by simp [start, ready], by simp [hands, ready]⟩
  | false =>
      obtain ⟨_, ⟨⟨f, fails⟩, same⟩ | ⟨succeeds, more⟩⟩ := m.output.initialise_cases
      · exact .inr (.inl ⟨rfl, by simp [start, ready, fails], by simp [hands, ready, fails], same⟩)
      · refine .inr (.inr ⟨rfl, more, ?_, ?_⟩)
        · simp [hands, ready, succeeds, Controller.initialise]
        · simp [start, ready, succeeds, change, settle_eq, Controller.initialise]

theorem output_obey (m : Motor) (o : Order) :
    (m.obey o).output =
      (m.hands o).elim (m.readied o) fun command => ((m.readied o).write command).1 := by
  cases o with
  | start =>
      show m.start.1.output = _
      rcases m.start_cases with ⟨ready, same, silent⟩ | ⟨unready, failed, silent, _⟩ |
        ⟨unready, _, told, started⟩
      · simp [same, silent, readied, ready]
      · simp [failed, silent, readied, unready]
      · simp [started, told, readied, unready]
  | enable => rfl
  | disable => exact congrArg Motor.output (m.settle_eq _ _)
  | drive i => exact congrArg Motor.output (m.settle_eq _ _)

/-! ### What every order keeps -/

theorem sane_obey (sane : m.controller.Sane) (o : Order) : (m.obey o).controller.Sane := by
  cases o with
  | start =>
      show m.start.1.controller.Sane
      rcases m.start_cases with ⟨_, same, _⟩ | ⟨_, failed, _⟩ | ⟨_, _, _, started⟩
      · rwa [same]
      · rwa [failed]
      · rw [started]
        exact m.controller.sane_initialise
  | enable => exact sane.enable
  | disable => exact (m.controller_change Controller.disable).symm ▸ sane.disable
  | drive i => exact (m.controller_change i.apply).symm ▸ sane.apply i

/-- The output has been initialised as often as the controller says, and was not written to before
that. -/
structure Begun (first : Output) (m : Motor) : Prop where
  once : m.output.initCalls = first.initCalls + if m.controller.initialised then 1 else 0
  silent : m.controller.initialised = false →
    m.output.attempts = first.attempts ∧ m.output.applied = first.applied

theorem initialised_obey (ready : m.controller.initialised = true) (o : Order) :
    (m.obey o).controller.initialised = true := by
  cases o with
  | start => exact m.flags_start.1 ready
  | enable =>
      show m.controller.enable.initialised = true
      unfold Controller.enable
      rwa [if_pos ready]
  | disable =>
      refine (congrArg Controller.initialised (m.controller_change _)).trans ?_
      unfold Controller.disable
      rwa [if_pos ready]
  | drive i =>
      refine (congrArg Controller.initialised (m.controller_change _)).trans ?_
      exact (i.flags_apply m.controller).1.trans ready

theorem initAttempts_obey (ready : m.controller.initialised = true) (o : Order) :
    (m.obey o).output.initAttempts = m.output.initAttempts ∧
      (m.obey o).output.initCalls = m.output.initCalls := by
  have same : m.readied o = m.output := by
    cases o with
    | start => exact if_pos ready
    | _ => rfl
  rw [output_obey, same]
  cases m.hands o with
  | none => exact ⟨rfl, rfl⟩
  | some command => exact m.output.initAttempts_write command

theorem hands_drive (i : Device.MotorInput) (off : m.controller.enabled = false) :
    m.hands (.drive i) = none := by
  cases told : m.hands (.drive i) with
  | none => rfl
  | some command =>
      have on := (Controller.command_apply i told).2
      rw [(i.flags_apply m.controller).2, off] at on
      cases on

theorem obey_of_unready (sane : m.controller.Sane) (unready : m.controller.initialised = false)
    {o : Order} (other : o ≠ .start) :
    (m.obey o).output = m.output ∧ (m.obey o).controller.initialised = false := by
  have off : m.controller.enabled = false := by
    by_contra on
    exact Bool.false_ne_true (unready.symm.trans (sane.ready (Bool.not_eq_false _ ▸ on)))
  cases o with
  | start => exact absurd rfl other
  | enable =>
      have same : m.controller.enable = m.controller := by
        unfold Controller.enable
        exact if_neg (Bool.not_eq_true _ ▸ unready)
      exact ⟨rfl, (congrArg Controller.initialised same).trans unready⟩
  | disable =>
      have same : m.disable.1 = m := by
        simp [disable, change, settle_eq, Controller.disable, unready]
      exact ⟨congrArg Motor.output same, (congrArg (·.controller.initialised) same).trans unready⟩
  | drive i =>
      refine ⟨?_, ?_⟩
      · rw [output_obey, hands_drive i off]
        rfl
      · refine (congrArg Controller.initialised (m.controller_change _)).trans ?_
        exact (i.flags_apply m.controller).1.trans unready

theorem Begun.obey {first : Output} (begun : m.Begun first) (sane : m.controller.Sane)
    (o : Order) : (m.obey o).Begun first := by
  cases ready : m.controller.initialised with
  | true =>
      have still := initialised_obey ready o
      refine ⟨?_, fun unready => absurd (still.symm.trans unready) Bool.noConfusion⟩
      rw [(initAttempts_obey ready o).2, begun.once, ready, still]
  | false =>
      obtain ⟨unwritten, unapplied⟩ := begun.silent ready
      have never := begun.once
      rw [ready] at never
      by_cases other : o ≠ .start
      · obtain ⟨output, unready⟩ := obey_of_unready sane ready other
        refine ⟨?_, fun _ => ⟨?_, ?_⟩⟩
        · rw [output, unready, never]
        · rw [output, unwritten]
        · rw [output, unapplied]
      · obtain rfl := not_ne_iff.mp other
        show m.start.1.Begun first
        obtain ⟨attempts, applied⟩ := m.output.initialise_cases.1
        rcases m.start_cases with ⟨was, _⟩ | ⟨_, failed, _, calls⟩ | ⟨_, calls, _, started⟩
        · exact absurd (ready.symm.trans was) Bool.noConfusion
        · rw [failed]
          refine ⟨?_, fun _ => ⟨attempts.trans unwritten, applied.trans unapplied⟩⟩
          rw [calls, never, ready]
        · rw [started]
          refine ⟨?_, fun unready => absurd unready Bool.noConfusion⟩
          rw [(Output.initAttempts_write _ _).2, calls, never]
          rfl

/-! ### The life of a motor -/

/-- What an order hands to the output is a speed in bounds, and zero unless the motor is on before
and after it. -/
theorem hands_bounds (sane : m.controller.Sane) (o : Order) {command : Command}
    (told : m.hands o = some command) :
    InUnit command.speed ∧ (¬ IsZero command.speed →
      m.controller.enabled = true ∧ (m.obey o).controller.enabled = true) := by
  cases o with
  | start =>
      rcases m.start_cases with ⟨_, _, silent⟩ | ⟨_, _, silent, _⟩ | ⟨_, _, zero, _⟩
      · cases silent.symm.trans told
      · cases silent.symm.trans told
      · cases zero.symm.trans told
        exact ⟨inUnit_zero, fun speed => absurd isZero_zero speed⟩
  | enable => cases told
  | disable =>
      change m.controller.disable.2 = some command at told
      unfold Controller.disable at told
      split at told
      · cases told
        exact ⟨inUnit_zero, fun speed => absurd isZero_zero speed⟩
      · cases told
  | drive i =>
      obtain ⟨rfl, on⟩ := Controller.command_apply i told
      have after : (m.obey (.drive i)).controller = (i.apply m.controller).1 :=
        m.controller_change _
      refine ⟨(sane.apply i).bounded, fun _ => ⟨?_, after ▸ on⟩⟩
      rw [← (i.flags_apply m.controller).2, on]

/-- The speed that is asked for is the last one since the motor was switched on, and zero if there
was none. -/
structure Recalls (m : Motor) (asked : Option Float) : Prop where
  speed : ∀ x, asked = some x → Clamps x m.controller.requested
  none : asked = none → IsZero m.controller.requested

theorem requested_setInverted (c : Controller) (b : Bool) :
    (c.setInverted b).1.requested = c.requested := by
  let turnedTo : Controller := { c with inverted := b }
  have back : turnedTo.turned (turnedTo.turned (c.turned c.effective)) = c.turned c.effective :=
    turnedTo.turned_turned _
  show (if c.enabled then _ else _) = if c.enabled then _ else _
  split
  · exact back
  · rfl

theorem requested_setSpeed (c : Controller) (on : c.enabled = true) (x : Float) :
    (c.setSpeed x).1.requested = Arith.unitInput x := by
  unfold Controller.setSpeed
  rw [if_pos on]
  exact (if_pos on).trans (c.turned_turned _)

theorem Recalls.of_requested {m m' : Motor} {asked : Option Float} (recalls : m.Recalls asked)
    (same : m'.controller.requested = m.controller.requested) : m'.Recalls asked :=
  ⟨fun x some => same ▸ recalls.speed x some, fun none => same ▸ recalls.none none⟩

theorem sane_after (sane : m.controller.Sane) (orders : List Order) :
    (m.after orders).controller.Sane := by
  induction orders with
  | nil => exact sane
  | cons o earlier ih => exact sane_obey ih o

theorem begun_after {first : Output} (begun : m.Begun first) (sane : m.controller.Sane)
    (orders : List Order) : (m.after orders).Begun first := by
  induction orders with
  | nil => exact begun
  | cons o earlier ih => exact ih.obey (sane_after sane earlier) o

/-- The speed asked for last once the order was obeyed. -/
def Order.recall (o : Order) (m : Motor) (asked : Option Float) : Option Float :=
  match o with
  | .drive (.speed x) => some x
  | .enable => if m.controller.enabled then asked else none
  | _ => asked

theorem asked_cons (m : Motor) (o : Order) (earlier : List Order) :
    m.asked (o :: earlier) = o.recall (m.after earlier) (m.asked earlier) := by
  cases o with
  | drive i => cases i <;> rfl
  | _ => rfl

theorem recalls_start (sane : m.controller.Sane) {asked : Option Float} (recalls : m.Recalls asked)
    (on : m.controller.enabled = true) : m.start.1.Recalls asked := by
  rcases m.start_cases with ⟨_, same, _⟩ | ⟨unready, _⟩ | ⟨unready, _⟩
  · exact recalls.of_requested (congrArg (·.controller.requested) same)
  · exact absurd ((sane.ready on).symm.trans unready) Bool.noConfusion
  · exact absurd ((sane.ready on).symm.trans unready) Bool.noConfusion

theorem recalls_enable (sane : m.controller.Sane) {asked : Option Float}
    (recalls : m.controller.enabled = true → m.Recalls asked)
    (on : m.enable.controller.enabled = true) :
    m.enable.Recalls (Order.enable.recall m asked) := by
  show m.enable.Recalls (if m.controller.enabled then asked else none)
  cases already : m.controller.enabled with
  | true =>
      have same : m.enable.controller = m.controller := by
        simp [Motor.enable, Controller.enable, ← already]
      exact (recalls already).of_requested (congrArg Controller.requested same)
  | false =>
      refine ⟨fun v wanted => ?_, fun _ => ?_⟩
      · cases wanted
      · have effective : m.enable.controller.effective = m.controller.effective := by
          simp only [Motor.enable, Controller.enable]
          split <;> rfl
        rw [Controller.requested, if_pos on, effective]
        exact Controller.isZero_turned _ (sane.still already)

theorem recalls_drive {asked : Option Float} (recalls : m.Recalls asked)
    (on : m.controller.enabled = true) (i : Device.MotorInput) :
    (m.obey (.drive i)).Recalls ((Order.drive i).recall m asked) := by
  have changed : (m.obey (.drive i)).controller = (i.apply m.controller).1 :=
    m.controller_change _
  cases i with
  | speed x =>
      have speed := requested_setSpeed m.controller on x
      refine ⟨fun y asked => ?_, nofun⟩
      obtain rfl := Option.some.inj asked
      rw [changed]
      exact speed.symm ▸ clamps_unitInput x
  | inverted b =>
      refine recalls.of_requested ?_
      rw [changed]
      exact requested_setInverted m.controller b
  | brake b =>
      refine recalls.of_requested ?_
      rw [changed]
      rfl

theorem recalls_obey (sane : m.controller.Sane) {asked : Option Float}
    (recalls : m.controller.enabled = true → m.Recalls asked) (o : Order)
    (on : (m.obey o).controller.enabled = true) : (m.obey o).Recalls (o.recall m asked) := by
  cases o with
  | start =>
      have was : m.controller.enabled = true := m.flags_start.2 ▸ on
      exact recalls_start sane (recalls was) was
  | enable => exact recalls_enable sane recalls on
  | disable =>
      change m.disable.1.controller.enabled = true at on
      have changed : m.disable.1.controller = m.controller.disable.1 := m.controller_change _
      rw [changed] at on
      unfold Controller.disable at on
      split at on
      · cases on
      · next unready => exact absurd (sane.ready on) unready
  | drive i =>
      have was : m.controller.enabled = true := by
        rw [← (i.flags_apply m.controller).2]
        exact congrArg Controller.enabled (m.controller_change i.apply) ▸ on
      exact recalls_drive (recalls was) was i

/-- However a motor is turned round, switched on again or started again, it recalls what was asked
for. -/
theorem recalls_after (sane : m.controller.Sane) (off : m.controller.enabled = false)
    (orders : List Order) (on : (m.after orders).controller.enabled = true) :
    (m.after orders).Recalls (m.asked orders) := by
  induction orders with
  | nil => exact absurd (off.symm.trans on) Bool.noConfusion
  | cons o earlier ih =>
      rw [asked_cons]
      exact recalls_obey (sane_after sane earlier) ih o on

/-- The life of a motor, whatever its output refuses.  The output is initialised once, and before
that the motor is off and nothing is written.  Every speed that is handed to the output is in
bounds, and zero unless the motor is on; nothing else reaches the output.  A motor that is off has
no speed, and one that is on has the speed that it was asked for last, turned round if it is
inverted.  When it is released, a motor that was initialised tells its output once more to stand
still. -/
theorem lifetime (name : String) (output : Output) (orders : List Order) :
    let m := after ⟨name, output, {}⟩ orders
    let c := m.controller
    (m.output.initCalls = output.initCalls + if c.initialised then 1 else 0) ∧
    (c.initialised = false →
      c.enabled = false ∧ m.output.attempts = output.attempts ∧
        m.output.applied = output.applied) ∧
    (c.initialised = true → ∀ o, (m.obey o).controller.initialised = true ∧
      (m.obey o).output.initAttempts = m.output.initAttempts) ∧
    (∀ o,
      (m.obey o).output =
        (m.hands o).elim (m.readied o) (fun command => ((m.readied o).write command).1) ∧
      ∀ command, m.hands o = some command → InUnit command.speed ∧
        (¬ IsZero command.speed → c.enabled = true ∧ (m.obey o).controller.enabled = true)) ∧
    (c.enabled = false → IsZero c.effective) ∧
    (c.enabled = true → m.Recalls (asked ⟨name, output, {}⟩ orders) ∧
      c.effective = if c.inverted then -c.requested else c.requested) ∧
    m.release.1.output =
      if c.initialised then (m.output.write ⟨0.0, c.brake⟩).1 else m.output := by
  intro m c
  have sane : c.Sane := sane_after Controller.sane_new orders
  have begun : m.Begun output :=
    begun_after (m := ⟨name, output, {}⟩) ⟨rfl, fun _ => ⟨rfl, rfl⟩⟩ Controller.sane_new orders
  refine ⟨begun.once, fun unready => ⟨?_, begun.silent unready⟩, fun ready o => ?_, fun o => ?_,
    sane.still, fun on => ⟨?_, ?_⟩, ?_⟩
  · by_contra on
    exact Bool.false_ne_true (unready.symm.trans (sane.ready (Bool.not_eq_false _ ▸ on)))
  · exact ⟨initialised_obey ready o, (initAttempts_obey ready o).1⟩
  · exact ⟨m.output_obey o, fun command told => hands_bounds sane o told⟩
  · exact recalls_after Controller.sane_new rfl orders on
  · have turned : c.turned c.requested = c.effective := by
      rw [Controller.requested, if_pos on]
      exact c.turned_turned c.effective
    exact turned.symm
  · show (m.settle _ c.disable).1.output = _
    rw [settle_eq]
    unfold Controller.disable
    split <;> rfl

/-- The first initialisation fails, and so does the first write of a speed; the motor is turned
round while it runs. -/
example :
    let m := after ⟨"arm", { label := "arm", refusesInit := (· = 1), refusesWrite := (· = 2) }, {}⟩
      [.enable, .drive (.inverted true), .drive (.speed 2.0), .enable, .start, .start]
    (m.output.initAttempts, m.output.attempts, m.output.writes) = (2, 3, 2) ∧
      (m.controller.requested == 1.0) = true ∧ (m.output.applied.speed == -1.0) = true := by
  decide

end Motor

end RobotControl
