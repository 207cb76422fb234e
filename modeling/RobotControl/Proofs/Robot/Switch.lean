import RobotControl.Proofs.Robot.Life

/-!
# Switches of the mode

Every switch of the mode is followed at once by the call of the hook of the new mode, wherever it
comes from: from outside, from a job or from inside any hook.  Everything else that a robot does
before its shutdown leaves the mode and its hooks alone, its start excepted
(`Session.step_pace`).
-/
set_option autoImplicit false

namespace RobotControl

variable {ι σ : Type} {app : App ι σ}

/-! ### Switches and hooks in the history -/

namespace Duty

def switch : Duty → Option Mode
  | .switchTo m => some m
  | _ => none

/-- The mode whose hook is called. -/
def modeHook : Duty → Option Mode
  | .call .robotEnabled => some .enabled
  | .call .robotDisabled => some .disabled
  | _ => none

/-- Where a robot is in its life afterwards. -/
def after : Duty → Lifecycle → Lifecycle
  | .powerUp, _ => .started
  | .retireUnstarted, _ | .halt, _ => .stopped
  | _, l => l

/-- A part of a shutdown. -/
def stops : Duty → Bool
  | .halt | .wrapUp | .retireUnstarted => true
  | _ => false

theorem after_of_stops {d : Duty} {l : Lifecycle} (stops : d.stops = true)
    (late : d = .wrapUp → l = .stopped) : d.after l = .stopped := by
  cases d with
  | halt => rfl
  | retireUnstarted => rfl
  | wrapUp => exact late rfl
  | _ => cases stops

theorem after_of_goes {d : Duty} (l : Lifecycle) (goes : d.stops = false) (other : d ≠ .powerUp) :
    d.after l = l := by
  cases d with
  | powerUp => exact absurd rfl other
  | halt => cases goes
  | retireUnstarted => cases goes
  | _ => rfl

end Duty

/-- The entry of the table that tells the mode is written. -/
def Act.setsState : Act ι → Bool
  | .setEntry key _ => NetworkTable.cleanKey key = NetworkTable.stateKey
  | .remoteEntry key _ => key = NetworkTable.stateKey
  | _ => false

namespace Session

def switch (s : Session ι σ) : Option Mode := s.duty.bind Duty.switch

def modeHook (s : Session ι σ) : Option Mode := s.duty.bind Duty.modeHook

/-- The modes that the robot was switched to, the latest first. -/
def switches (past : List (Session ι σ)) : List Mode := past.filterMap switch

/-- The modes whose hooks were entered, the latest first. -/
def modeHooks (past : List (Session ι σ)) : List Mode := past.filterMap modeHook

/-- The step is a part of a shutdown. -/
def Stops (s : Session ι σ) : Prop := ∃ d, s.duty = some d ∧ d.stops = true

instance (s : Session ι σ) : Decidable s.Stops :=
  decidable_of_iff (s.duty.any Duty.stops = true) (by cases now : s.duty <;> simp [Stops, now])

/-- The step by which a start calls `robotDisabled`. -/
def Opens (s : Session ι σ) : Prop := ∃ rest, s.agenda = .run Robot.opening :: rest

/-- Somebody else than the robot writes the entry that tells the mode. -/
def Overwrites (s : Session ι σ) : Prop := ∃ a, s.deed = some a ∧ a.setsState = true

instance (s : Session ι σ) : Decidable s.Overwrites :=
  decidable_of_iff (s.deed.any Act.setsState = true)
    (by cases now : s.deed <;> simp [Overwrites, now])

/-- The mode was switched and its hook has yet to be called. -/
def Announces (s : Session ι σ) (m : Mode) : Prop :=
  (∃ rest, s.agenda = .run .skip ::
      .bound (fun _ => Robot.doing (.call (.ofMode m)) .skip) :: rest) ∨
    ∃ rest, s.agenda = .run (Robot.doing (.call (.ofMode m)) .skip) :: rest

end Session

/-! ### What leaves the mode alone -/

/-- Neither the mode nor its hooks are touched while the robot is up. -/
def Effect.isTame : Effect ι → Bool
  | .duty (.switchTo _) | .duty .powerUp => false
  | .duty (.call .robotEnabled) | .duty (.call .robotDisabled) => false
  | _ => true

def Effect.stops : Effect ι → Bool
  | .act _ => false
  | .duty d => d.stops

structure World.SameRule (w w' : World ι) : Prop where
  mode : w'.mode = w.mode
  lifecycle : w'.lifecycle = w.lifecycle

namespace World

def stated (w : World ι) : Option String := w.table.get? NetworkTable.stateKey

theorem SameRule.refl (w : World ι) : w.SameRule w := ⟨rfl, rfl⟩

theorem sameRule_applyMode (w : World ι) :
    w.SameRule w.applyMode ∧ w.applyMode.table = w.table := by
  unfold applyMode
  split <;> exact ⟨⟨rfl, rfl⟩, rfl⟩

theorem sameRule_look (w : World ι) : w.SameRule w.look ∧ w.look.table = w.table := by
  unfold look
  split
  · exact ⟨⟨rfl, rfl⟩, rfl⟩
  · split
    · exact ⟨⟨rfl, rfl⟩, rfl⟩
    · split <;> exact ⟨⟨rfl, rfl⟩, rfl⟩

theorem cleanKey_stateKey :
    NetworkTable.cleanKey NetworkTable.stateKey = NetworkTable.stateKey := by decide

theorem cleanKey_battery : NetworkTable.cleanKey BatteryMonitor.key ≠ NetworkTable.stateKey := by
  decide

theorem stated_publishMode (w : World ι) (m : Mode) : (w.publishMode m).stated = some m.label := by
  unfold stated publishMode
  rw [NetworkTable.get?_set, if_pos cleanKey_stateKey]

end World

namespace Robot

variable {w : World ι}

theorem sameRule_settle (w : World ι) :
    w.SameRule (settle app w).1 ∧ (settle app w).1.table = w.table := by
  unfold settle
  dsimp only
  split
  · exact ⟨⟨rfl, rfl⟩, rfl⟩
  · split
    · split <;> exact ⟨⟨rfl, rfl⟩, rfl⟩
    · exact ⟨⟨rfl, rfl⟩, rfl⟩

theorem sameRule_attend (d : Duty) (tame : (Effect.duty d : Effect ι).isTame = true)
    (goes : d.stops = false) :
    w.SameRule (attend app w d).1 ∧ (attend app w d).1.table = w.table := by
  cases d with
  | switchTo m => cases tame
  | powerUp => cases tame
  | retireUnstarted => cases goes
  | halt => cases goes
  | wrapUp => cases goes
  | applyMode => exact w.sameRule_applyMode
  | look => exact w.sameRule_look
  | settle => exact sameRule_settle w
  | jobEnded j failed => cases failed <;> exact ⟨⟨rfl, rfl⟩, rfl⟩
  | _ => exact ⟨⟨rfl, rfl⟩, rfl⟩

theorem sameRule_carryOut (a : Act ι) : w.SameRule (carryOut w a : World ι × Code ι σ).1 := by
  cases a <;> exact ⟨rfl, rfl⟩

theorem sameRule_perform (e : Effect ι) (tame : e.isTame = true) (goes : e.stops = false) :
    w.SameRule (perform app w e).1 := by
  cases e with
  | act a => exact sameRule_carryOut a
  | duty d => exact (sameRule_attend d tame goes).1

theorem lifecycle_attend (d : Duty) :
    (attend app w d).1.lifecycle = d.after w.lifecycle := by
  cases d with
  | switchTo m =>
      have rules := (({ w with mode := m } : World ι).publishMode m).sameRule_applyMode.1
      exact rules.lifecycle
  | applyMode => exact w.sameRule_applyMode.1.lifecycle
  | look => exact w.sameRule_look.1.lifecycle
  | settle => exact (sameRule_settle w).1.lifecycle
  | jobEnded j failed => cases failed <;> rfl
  | _ => rfl

theorem stated_carryOut (a : Act ι) (mine : a.setsState = false) :
    (carryOut w a : World ι × Code ι σ).1.stated = w.stated := by
  cases a with
  | setEntry key value =>
      exact (NetworkTable.get?_set ..).trans (if_neg (of_decide_eq_false mine))
  | remoteEntry key value =>
      exact (NetworkTable.get?_setFromRemote ..).trans (if_neg (of_decide_eq_false mine))
  | volts monitor volts =>
      show (w.battery.report w.table monitor volts).1.get? _ = _
      unfold BatteryMonitor.report
      split
      · exact (NetworkTable.get?_set ..).trans (if_neg World.cleanKey_battery)
      · rfl
  | _ => rfl

theorem stated_perform (e : Effect ι) (tame : e.isTame = true) (goes : e.stops = false)
    (mine : ∀ a, e = .act a → a.setsState = false) : (perform app w e).1.stated = w.stated := by
  cases e with
  | act a => exact stated_carryOut a (mine a rfl)
  | duty d => exact congrArg (NetworkTable.get? · _) (sameRule_attend d tame goes).2

theorem host_keeps_rule {W : World ι → Prop}
    (same : ∀ w w' : World ι, w.SameRule w' → w'.table = w.table → W w → W w') :
    (host app).Keeps (fun _ => True) (fun _ => True) W :=
  host_keeps_fleet fun w _ => same w _ ⟨rfl, rfl⟩ rfl

/-! ### Tame code -/

def Tame (c : Code ι σ) : Prop := c.Uses (fun _ => True) fun e => e.isTame = true

abbrev Calm (tasks : List (Task (Effect ι) (World ι) σ)) : Prop :=
  Machine.Permitted (fun _ => True) (fun e => e.isTame = true) tasks

theorem calm_run {c : Code ι σ} {rest : List (Task (Effect ι) (World ι) σ)} (tame : Tame c)
    (code : Calm rest) : Calm (.run c :: rest) := Machine.permitted_cons.mpr ⟨tame, code⟩

theorem calm_bound {next : Except Fault Unit → Code ι σ}
    {rest : List (Task (Effect ι) (World ι) σ)} (tame : ∀ o, Tame (next o)) (code : Calm rest) :
    Calm (.bound next :: rest) := Machine.permitted_cons.mpr ⟨tame, code⟩

theorem tame_lift (r : Routine (Act ι) (World ι) σ) : Tame (lift r) := uses_lift (fun _ => rfl) r

theorem tame_skip : Tame (.skip : Code ι σ) := trivial

theorem tame_doing {d : Duty} {next : Code ι σ} (tame : (Effect.duty d : Effect ι).isTame = true)
    (later : Tame next) : Tame (doing d next) := ⟨tame, fun _ => later⟩

theorem everyday_tame : Everyday fun e : Effect ι => e.isTame = true where
  act _ := rfl
  periodicIn m := by cases m <;> rfl
  periodic := rfl
  hookFailed _ _ := rfl
  applyMode := rfl
  settle := rfl
  jobEnded _ _ := rfl

theorem tame_call (h : Hook) : Tame (.attempt (lift (app.hook h)) (hookEnd h)) :=
  everyday_tame.uses_call app h

theorem tame_shutdown : Tame (shutdown : Code ι σ) := by
  intro t w own
  dsimp only
  split
  · exact tame_skip
  · exact tame_doing rfl tame_skip
  · exact tame_doing rfl ⟨trivial, fun _ => tame_doing rfl tame_skip⟩

theorem tame_perform (e : Effect ι) (tame : e.isTame = true)
    (other : ∀ enabled, e ≠ .act (.setEnabled enabled)) : Tame (perform app w e).2 := by
  cases e with
  | act a =>
      cases a with
      | setEnabled enabled => exact absurd rfl (other enabled)
      | _ => trivial
  | duty d =>
      cases d with
      | call h => exact tame_call h
      | settle => exact everyday_tame.uses_settle app w
      | _ => exact tame_skip

end Robot

/-! ### Switches under way -/

/-- Tame code, and in front of it a change of the mode as far as it has got; the mode, if it was
switched and its hook has yet to be called. -/
inductive Pace (w : World ι) : Option Mode → List (Task (Effect ι) (World ι) σ) → Prop
  | calm {tasks : List (Task (Effect ι) (World ι) σ)} (code : Robot.Calm tasks) : Pace w none tasks
  | asked (enabled : Bool) {rest : List (Task (Effect ι) (World ι) σ)} (code : Robot.Calm rest) :
      Pace w none (.run (Robot.setEnabled enabled) :: rest)
  | switching {m : Mode} {rest : List (Task (Effect ι) (World ι) σ)}
      (up : w.lifecycle = .started) (other : w.mode ≠ m) (code : Robot.Calm rest) :
      Pace w none (.run (Robot.doing (.switchTo m) (Robot.doing (.call (.ofMode m)) .skip)) :: rest)
  | switched (m : Mode) {rest : List (Task (Effect ι) (World ι) σ)} (code : Robot.Calm rest) :
      Pace w (some m)
        (.run .skip :: .bound (fun _ => Robot.doing (.call (.ofMode m)) .skip) :: rest)
  | due (m : Mode) {rest : List (Task (Effect ι) (World ι) σ)} (code : Robot.Calm rest) :
      Pace w (some m) (.run (Robot.doing (.call (.ofMode m)) .skip) :: rest)

namespace Session

/-- What a step does to the mode and whether it calls the hook that is due. -/
structure Tells (s s' : Session ι σ) (due due' : Option Mode) : Prop where
  story : s.switch.toList ++ due.toList = due'.toList ++ s.modeHook.toList
  mode : s'.world.mode = s.switch.getD s.world.mode
  changes : ∀ m, s.switch = some m → s.world.mode ≠ m ∧ s.world.lifecycle = .started
  power : s.duty = some .powerUp → s.world.lifecycle = .created

variable {s : Session ι σ} {above foot : List (Task (Effect ι) (World ι) σ)} {due : Option Mode}

theorem duty_silent {d : Duty} (tame : (Effect.duty d : Effect ι).isTame = true) :
    d.switch = none ∧ d.modeHook = none ∧ d ≠ .powerUp := by
  cases d with
  | call h => cases h <;> first | exact ⟨rfl, rfl, nofun⟩ | cases tame
  | switchTo m => cases tame
  | powerUp => cases tame
  | _ => exact ⟨rfl, rfl, nofun⟩

theorem silent_of_tame
    (tame : ∀ e next rest, s.agenda = .run (.act e next) :: rest → e.isTame = true) :
    s.switch = none ∧ s.modeHook = none ∧ s.duty ≠ some .powerUp ∧ ¬ s.Opens := by
  have quiet : s.switch = none ∧ s.modeHook = none ∧ s.duty ≠ some .powerUp := by
    unfold switch modeHook duty
    split
    · next d next rest front =>
        obtain ⟨switch, hook, power⟩ := duty_silent (tame _ next rest front)
        exact ⟨switch, hook, fun same => power (Option.some.inj same)⟩
    · exact ⟨rfl, rfl, nofun⟩
  refine ⟨quiet.1, quiet.2.1, quiet.2.2, ?_⟩
  rintro ⟨rest, front⟩
  cases tame _ _ rest front

theorem tells_of_tame {s' : Session ι σ}
    (tame : ∀ e next rest, s.agenda = .run (.act e next) :: rest → e.isTame = true)
    (same : s.world.SameRule s'.world) (due : Option Mode) : s.Tells s' due due := by
  obtain ⟨switch, hook, power, _⟩ := silent_of_tame tame
  refine ⟨by rw [switch, hook]; simp, by rw [switch]; exact same.mode, fun m now => ?_,
    fun powers => absurd powers power⟩
  rw [switch] at now
  cases now

theorem duty_goes (goes : ¬ s.Stops) {d : Duty} (carried : s.duty = some d) :
    d.stops = false := by
  by_contra stops
  exact goes ⟨d, carried, by simpa using stops⟩

theorem goes_on (goes : ¬ s.Stops) {e : Effect ι} {next : Except Fault Unit → Robot.Code ι σ}
    {rest : List (Task (Effect ι) (World ι) σ)} (front : s.agenda = .run (.act e next) :: rest) :
    e.stops = false := by
  cases e with
  | act a => rfl
  | duty d => exact duty_goes goes (duty_eq front)

theorem sameRule_step (app : App ι σ)
    (tame : ∀ e next rest, s.agenda = .run (.act e next) :: rest → e.isTame = true)
    (goes : ¬ s.Stops) : s.world.SameRule (Machine.step (Robot.host app) s).world := by
  refine Machine.world_step (W := s.world.SameRule)
    (Robot.host_keeps_rule fun w w' same _ before =>
      ⟨same.mode.trans before.mode, same.lifecycle.trans before.lifecycle⟩)
    (.refl _) fun e next rest front => ?_
  exact Robot.sameRule_perform e (tame e next rest front) (goes_on goes front)

theorem stated_step (app : App ι σ)
    (tame : ∀ e next rest, s.agenda = .run (.act e next) :: rest → e.isTame = true)
    (goes : ¬ s.Stops) (mine : ¬ s.Overwrites) :
    (Machine.step (Robot.host app) s).world.stated = s.world.stated := by
  have keeps : (Robot.host app).Keeps (fun _ => True) (fun _ => True)
      fun w => w.stated = s.world.stated := Robot.host_keeps_fleet fun _ _ own => own
  refine Machine.world_step keeps rfl fun e next rest front => ?_
  refine Robot.stated_perform e (tame e next rest front) (goes_on goes front) ?_
  rintro a rfl
  by_contra sets
  exact mine ⟨a, deed_eq front, by simpa using sets⟩

theorem lifecycle_step (app : App ι σ) (s : Session ι σ) :
    (Machine.step (Robot.host app) s).world.lifecycle =
      s.duty.elim s.world.lifecycle fun d => d.after s.world.lifecycle := by
  have keeps : (Robot.host app).Keeps (fun _ => True) (fun _ => True) fun w =>
      w.lifecycle = s.duty.elim s.world.lifecycle fun d => d.after s.world.lifecycle :=
    Robot.host_keeps_rule fun w w' same _ kept => same.lifecycle.trans kept
  by_cases acts : ∃ e next rest, s.agenda = .run (.act e next) :: rest
  · obtain ⟨e, next, rest, front⟩ := acts
    rw [step_act app front]
    cases e with
    | act a =>
        have none : s.duty = none := by rw [duty, front]
        rw [none]
        exact (Robot.sameRule_carryOut a).lifecycle
    | duty d =>
        rw [duty_eq front]
        exact Robot.lifecycle_attend d
  · have none : s.duty = none := by
      unfold duty
      split
      · next d next rest front => exact absurd ⟨_, next, rest, front⟩ acts
      · rfl
    refine Machine.world_step keeps ?_ fun e next rest front => absurd ⟨e, next, rest, front⟩ acts
    rw [none]
    rfl

theorem not_created_step (app : App ι σ) (later : s.world.lifecycle ≠ .created) :
    (Machine.step (Robot.host app) s).world.lifecycle ≠ .created := by
  rw [lifecycle_step]
  cases s.duty with
  | none => exact later
  | some d => cases d <;> first | exact later | exact nofun

theorem tells_switchTo (app : App ι σ) {m : Mode} {next : Except Fault Unit → Robot.Code ι σ}
    {rest : List (Task (Effect ι) (World ι) σ)}
    (front : s.agenda = .run (.act (.duty (.switchTo m)) next) :: rest)
    (up : s.world.lifecycle = .started) (other : s.world.mode ≠ m) :
    s.Tells (Machine.step (Robot.host app) s) none (some m) := by
  have carried := duty_eq front
  have switch : s.switch = some m := by rw [Session.switch, carried]; rfl
  have hook : s.modeHook = none := by rw [Session.modeHook, carried]; rfl
  have rules := (({ s.world with mode := m } : World ι).publishMode m).sameRule_applyMode.1
  refine ⟨by simp [switch, hook], ?_, fun m' now => ?_, fun powers => ?_⟩
  · rw [step_act app front, switch]
    exact rules.mode
  · cases switch.symm.trans now
    exact ⟨other, up⟩
  · cases carried.symm.trans powers

theorem tells_call (app : App ι σ) {m : Mode} {next : Except Fault Unit → Robot.Code ι σ}
    {rest : List (Task (Effect ι) (World ι) σ)}
    (front : s.agenda = .run (.act (.duty (.call (.ofMode m))) next) :: rest) :
    s.Tells (Machine.step (Robot.host app) s) (some m) none := by
  have carried := duty_eq front
  have switch : s.switch = none := by rw [Session.switch, carried]; cases m <;> rfl
  have hook : s.modeHook = some m := by
    rw [Session.modeHook, carried]
    cases m <;> rfl
  refine ⟨by simp [switch, hook], ?_, fun m' now => ?_, fun powers => ?_⟩
  · rw [step_act app front, switch]
    rfl
  · cases switch.symm.trans now
  · cases carried.symm.trans powers

/-- Where a change of the mode stands after a step above what catches failures. -/
inductive Paces (w : World ι) (foot : List (Task (Effect ι) (World ι) σ)) :
    Option Mode → List (Task (Effect ι) (World ι) σ) → Prop
  | above {due : Option Mode} {tasks : List (Task (Effect ι) (World ι) σ)}
      (pace : Pace w due tasks) : Paces w foot due (tasks ++ foot)
  | on {next : Except Failure Unit → Robot.Code ι σ}
      {below : List (Task (Effect ι) (World ι) σ)} (caught : foot = .caught next :: below)
      (o : Except Failure Unit) : Paces w foot none (.run (next o) :: below)

theorem Paces.of_lands {w : World ι} {tasks : List (Task (Effect ι) (World ι) σ)}
    (lands : Lands (fun _ => True) (fun e => e.isTame = true) foot tasks) :
    Paces w foot none tasks := by
  cases lands with
  | above tasks code => exact .above (.calm code)
  | on caught o => exact .on caught o

theorem paces_calm (app : App ι σ) (code : Robot.Calm above)
    (whole : s.agenda = above ++ foot) (some : above ≠ []) (catches : Catches foot)
    (goes : ¬ s.Stops) :
    let s' := Machine.step (Robot.host app) s
    s.Tells s' none none ∧ s'.world.lifecycle = s.world.lifecycle ∧ ¬ s.Opens ∧
      Paces s'.world foot none s'.agenda := by
  intro s'
  obtain ⟨t, rest, rfl⟩ := List.exists_cons_of_ne_nil some
  obtain ⟨head, tail⟩ := Machine.permitted_cons.mp code
  have tame : ∀ e next rest, s.agenda = .run (.act e next) :: rest → e.isTame = true := by
    intro e next below front
    obtain rfl := (List.cons.inj (whole.symm.trans front)).1
    exact head.1
  have same := sameRule_step app tame goes
  refine ⟨tells_of_tame tame same none, same.lifecycle, (silent_of_tame tame).2.2.2, ?_⟩
  by_cases asks : ∃ enabled next, t = .run (.act (.act (.setEnabled enabled)) next)
  · obtain ⟨enabled, next, rfl⟩ := asks
    have after : s'.agenda = .run (Robot.setEnabled enabled) :: (.bound next :: rest) ++ foot :=
      congrArg Machine.agenda (step_act app whole)
    rw [after]
    exact .above (.asked enabled (Robot.calm_bound head.2 tail))
  · refine .of_lands (Machine.lands_step (fun _ _ => Robot.tame_lift _) catches whole some code ?_)
    intro e next below front
    obtain rfl := (List.cons.inj (whole.symm.trans front)).1
    exact Robot.tame_perform e head.1 fun enabled same => asks ⟨enabled, next, by rw [same]⟩

/-- One step of a change of the mode: it is decided on, made, and its hook is called. -/
theorem step_pace (app : App ι σ) (pace : Pace s.world due above) (whole : s.agenda = above ++ foot)
    (some : above ≠ []) (catches : Catches foot) (goes : ¬ s.Stops) :
    ∃ due', let s' := Machine.step (Robot.host app) s
      s.Tells s' due due' ∧ s'.world.lifecycle = s.world.lifecycle ∧ ¬ s.Opens ∧
        Paces s'.world foot due' s'.agenda := by
  cases pace with
  | calm code => exact ⟨none, paces_calm app code whole some catches goes⟩
  | @asked enabled rest code =>
      have front : s.agenda = .run (Robot.setEnabled enabled) :: (rest ++ foot) := whole
      have quiet : ∀ e next rest, s.agenda = .run (.act e next) :: rest → e.isTame = true := by
        intro e next below acts
        cases (List.cons.inj (front.symm.trans acts)).1
      have same := sameRule_step app quiet goes
      refine ⟨none, tells_of_tame quiet same none, same.lifecycle, (silent_of_tame quiet).2.2.2, ?_⟩
      have world : (Machine.step (Robot.host app) s).world = s.world := by
        rw [Machine.step, front]
        rfl
      rw [world]
      have ended : ∀ o, Paces s.world foot none (.run (.done o) :: (rest ++ foot)) := fun o =>
        .above (.calm (Robot.calm_run (c := .done o) trivial code))
      simp only [Machine.step, front, Robot.setEnabled, Machine.runRoutine, Machine.todo]
      split
      · exact ended _
      · split
        · exact ended _
        · rename_i up other
          exact .above (.switching (not_not.mp up) other code)
  | @switching m rest up other code =>
      have front : s.agenda = .run (Robot.doing (.switchTo m)
        (Robot.doing (.call (.ofMode m)) .skip)) :: (rest ++ foot) := whole
      have stepped := step_act app front
      have rules := (({ s.world with mode := m } : World ι).publishMode m).sameRule_applyMode.1
      refine ⟨Option.some m, tells_switchTo app front up other, ?_, ?_, ?_⟩
      · rw [stepped]
        exact rules.lifecycle
      · rintro ⟨below, opens⟩
        cases front.symm.trans opens
      · rw [stepped]
        exact .above (.switched m code)
  | @switched m rest code =>
      have front : s.agenda = .run .skip ::
        .bound (fun _ => Robot.doing (.call (.ofMode m)) .skip) :: (rest ++ foot) := whole
      have quiet : ∀ e next rest, s.agenda = .run (.act e next) :: rest → e.isTame = true := by
        intro e next below acts
        cases (List.cons.inj (front.symm.trans acts)).1
      have same := sameRule_step app quiet goes
      refine ⟨Option.some m, tells_of_tame quiet same _, same.lifecycle,
        (silent_of_tame quiet).2.2.2, ?_⟩
      have after : (Machine.step (Robot.host app) s).agenda =
          .run (Robot.doing (.call (.ofMode m)) .skip) :: rest ++ foot := by
        rw [Machine.step, front]
        rfl
      rw [after]
      exact .above (.due m code)
  | @due m rest code =>
      have front : s.agenda = .run (Robot.doing (.call (.ofMode m)) .skip) :: (rest ++ foot) :=
        whole
      have stepped := step_act app front
      refine ⟨none, tells_call app front, ?_, ?_, ?_⟩
      · rw [stepped]
        rfl
      · rintro ⟨below, opens⟩
        have same := (List.cons.inj (front.symm.trans opens)).1
        simp only [Robot.opening, Robot.doing, Routine.andThen] at same
        have next := congrFun (Routine.act.inj (Task.run.inj same)).2 (.ok ())
        cases next
      · rw [stepped]
        have bound : Robot.Calm (.bound (fun _ => .skip) :: rest) :=
          Robot.calm_bound (fun _ => Robot.tame_skip) code
        exact .above (.calm (Robot.calm_run (Robot.tame_call (.ofMode m)) bound))

end Session

end RobotControl
