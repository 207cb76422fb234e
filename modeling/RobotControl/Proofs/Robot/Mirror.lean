import RobotControl.Proofs.Robot.Life

/-!
# Devices that mirror the mode

A run of the mode dispatcher calls the hook of the mode that it finds, and then, however that hook
ends and whatever it did, brings the devices that follow the mode in line with the mode as it is by
then (`Session.dispatch_mirrors`).  The passes over the devices are known exactly
(`Fleet.device?_disableMatching`, `Fleet.device?_enableMatching`).
-/
set_option autoImplicit false

namespace RobotControl

variable {ι σ : Type} {app : App ι σ}

/-! ### What the passes make of a device -/

namespace Device

/-- A device that can be switched on: a motor has to be initialised first. -/
def Accepts : Device → Prop
  | .motor m => m.controller.initialised = true
  | _ => True

theorem Accepts.enable {d : Device} (accepts : d.Accepts) : d.enable.isEnabled = true := by
  cases d with
  | motor m =>
      change m.controller.initialised = true at accepts
      show m.controller.enable.enabled = true
      rw [m.controller.enabled_enable, accepts, Bool.or_true]
  | gamepad g => rfl
  | relay r => rfl

theorem enable_of_refused {d : Device} (refused : d.enable.isEnabled = false) : d.enable = d := by
  cases d with
  | motor m =>
      change m.controller.enable.enabled = false at refused
      rw [m.controller.enabled_enable, Bool.or_eq_false_iff] at refused
      have same : m.controller.enable = m.controller := by
        unfold Controller.enable
        exact if_neg (Bool.eq_false_iff.mp refused.2)
      show Device.motor { m with controller := m.controller.enable } = .motor m
      rw [same]
  | gamepad g => rfl
  | relay r => cases refused

theorem isEnabled_disable {d : Device} (sound : d.Sound) (follows : d.followsMode = true) :
    d.disable.1.isEnabled = false := by
  by_contra on
  have idle := (d.idle_disable sound (Bool.not_eq_false _ ▸ on)).2
  rw [(calmer_disable d).followsMode, follows] at idle
  cases idle

end Device

namespace Fleet

variable {f : Fleet} {op : Fleet → Handle → Fleet} {act : Device → Device}

/-- A pass that tests the devices changes a live one that passes, once if a second change would
make no difference, and no other device. -/
theorem Touches.device?_settled (touches : Touches op act) (test : Device → Bool) {k : Handle}
    {d : Device} (before : f.device? k = some d)
    (settled : test d = true → test (act d) = true → act (act d) = act d) :
    (f.each f.live fun f h => match f.device? h with
        | some d => if test d then op f h else f
        | none => f).device? k =
      some (if k ∈ f.live ∧ test d = true then act d else d) := by
  have passed := (touches.when test).device?_each f.live f k
  rw [before, Option.map_some] at passed
  refine passed.trans (congrArg some ?_)
  by_cases listed : k ∈ f.live
  · obtain ⟨n, counted⟩ := Nat.exists_eq_succ_of_ne_zero
      (Nat.pos_iff_ne_zero.mp (List.count_pos_iff.mpr listed))
    rw [counted, Function.iterate_succ_apply]
    by_cases passes : test d = true
    · rw [if_pos passes, if_pos ⟨listed, passes⟩]
      refine Function.iterate_fixed ?_ n
      by_cases again : test (act d) = true
      · rw [if_pos again]
        exact settled passes again
      · exact if_neg again
    · rw [if_neg passes, if_neg fun both => passes both.2]
      exact Function.iterate_fixed (f := fun d => if test d then act d else d) (if_neg passes) n
  · rw [if_neg fun both => listed both.1, List.count_eq_zero.mpr listed]
    rfl

theorem device?_disableMatching {k : Handle} {d : Device} (sound : d.Sound)
    (before : f.device? k = some d) :
    f.disableMatching.device? k =
      some (if k ∈ f.live ∧ (d.followsMode && d.isEnabled) = true then d.disable.1 else d) := by
  refine touches_disable.device?_settled (fun d => d.followsMode && d.isEnabled) before ?_
  intro passes again
  have off := d.isEnabled_disable sound (Bool.and_eq_true_iff.mp passes).1
  exact absurd (off.symm.trans (Bool.and_eq_true_iff.mp again).2) Bool.noConfusion

theorem device?_enableMatching {k : Handle} {d : Device} (before : f.device? k = some d) :
    f.enableMatching.device? k =
      some (if k ∈ f.live ∧ (d.followsMode && !d.isEnabled) = true then d.enable else d) := by
  refine touches_enable.device?_settled (fun d => d.followsMode && !d.isEnabled) before ?_
  intro _ again
  have refused := (Bool.and_eq_true_iff.mp again).2
  rw [Bool.not_eq_true'] at refused
  rw [Device.enable_of_refused refused, Device.enable_of_refused refused]

theorem live_disableMatching (f : Fleet) : f.disableMatching.live = f.live :=
  (touches_disable.when _).live_each f.live f

theorem live_enableMatching (f : Fleet) : f.enableMatching.live = f.live :=
  (touches_enable.when _).live_each f.live f

theorem Touches.device?_none (touches : Touches op act) {k : Handle} (none : f.device? k = none)
    (hs : List Handle) : (f.each hs op).device? k = Option.none := by
  rw [touches.device?_each, none]
  rfl

end Fleet

/-! ### What the pass makes of a robot -/

namespace World

variable {w : World ι}

/-- The robot after the pass over its devices. -/
structure Mirrors (w w' : World ι) : Prop where
  only : w' = { w with fleet := w'.fleet }
  live : w'.fleet.live = w.fleet.live
  others : ∀ k, (k ∉ w.fleet.live ∨ ∀ d, w.fleet.device? k = some d → d.followsMode = false) →
    w'.fleet.device? k = w.fleet.device? k
  off : w.mode = .disabled → ∀ k ∈ w.fleet.live, ∀ d, w.fleet.device? k = some d →
    d.followsMode = true → ∃ d', w'.fleet.device? k = some d' ∧ d'.isEnabled = false ∧
      d' = if d.isEnabled then d.disable.1 else d
  on : w.mode = .enabled → w.watchdog.tripped = false → ∀ k ∈ w.fleet.live, ∀ d,
    w.fleet.device? k = some d → d.followsMode = true → ∃ d', w'.fleet.device? k = some d' ∧
      (d.Accepts → d'.isEnabled = true) ∧ d' = if d.isEnabled then d else d.enable
  silent : w.mode = .enabled → w.watchdog.tripped = true → w' = w

theorem not_matched {k : Handle} {d : Device} (before : w.fleet.device? k = some d)
    (other : k ∉ w.fleet.live ∨ ∀ d, w.fleet.device? k = some d → d.followsMode = false)
    (state : Bool) : ¬ (k ∈ w.fleet.live ∧ (d.followsMode && state) = true) := by
  rintro ⟨live, matched⟩
  rcases other with absent | apart
  · exact absent live
  · rw [apart d before] at matched
    cases matched

theorem mirrors_disabled (sound : w.fleet.Every Device.Sound) (mode : w.mode = .disabled) :
    w.Mirrors { w with fleet := w.fleet.disableMatching } where
  only := rfl
  live := w.fleet.live_disableMatching
  others k other := by
    show w.fleet.disableMatching.device? k = w.fleet.device? k
    cases before : w.fleet.device? k with
    | none => exact (Fleet.touches_disable.when _).device?_none before _
    | some d =>
        rw [Fleet.device?_disableMatching (sound k d before) before]
        exact congrArg some (if_neg (not_matched before other _))
  off _ k live d before follows := by
    have after := Fleet.device?_disableMatching (sound k d before) before
    have same :
        (k ∈ w.fleet.live ∧ (d.followsMode && d.isEnabled) = true) ↔ d.isEnabled = true := by
      rw [follows, Bool.true_and]
      exact and_iff_right live
    refine ⟨_, after, ?_, if_congr same rfl rfl⟩
    split
    · exact d.isEnabled_disable (sound k d before) follows
    · next rests =>
        rw [same] at rests
        exact Bool.eq_false_iff.mpr rests
  on enabled := by cases mode.symm.trans enabled
  silent enabled := by cases mode.symm.trans enabled

theorem mirrors_enabled (mode : w.mode = .enabled) (armed : w.watchdog.tripped = false) :
    w.Mirrors { w with fleet := w.fleet.enableMatching } where
  only := rfl
  live := w.fleet.live_enableMatching
  others k other := by
    show w.fleet.enableMatching.device? k = w.fleet.device? k
    cases before : w.fleet.device? k with
    | none => exact (Fleet.touches_enable.when _).device?_none before _
    | some d =>
        rw [Fleet.device?_enableMatching before]
        exact congrArg some (if_neg (not_matched before other _))
  off disabled := by cases mode.symm.trans disabled
  on _ _ k live d before follows := by
    have after := Fleet.device?_enableMatching (f := w.fleet) before
    refine ⟨_, after, fun accepts => ?_, ?_⟩
    · split
      · exact accepts.enable
      · next rests =>
          rw [follows, Bool.true_and, Bool.not_eq_true'] at rests
          by_contra off
          exact rests ⟨live, Bool.not_eq_true _ ▸ off⟩
    · rw [follows, Bool.true_and]
      by_cases on : d.isEnabled = true
      · rw [if_pos on, on]
        exact if_neg fun both => Bool.false_ne_true both.2
      · rw [if_neg on, Bool.eq_false_iff.mpr on]
        exact if_pos ⟨live, rfl⟩
  silent _ tripped := by cases armed.symm.trans tripped

theorem mirrors_applyMode (sound : w.fleet.Every Device.Sound) : w.Mirrors w.applyMode := by
  unfold applyMode
  split
  · next mode =>
      cases armed : w.watchdog.tripped with
      | false =>
          have pass : w.watchdog.whileArmed w.fleet Fleet.enableMatching =
              w.fleet.enableMatching := if_neg (Bool.eq_false_iff.mp armed)
          rw [pass]
          exact mirrors_enabled mode armed
      | true =>
          rw [w.watchdog.whileArmed_of_tripped _ _ armed]
          refine ⟨rfl, rfl, fun _ _ => rfl, fun disabled => ?_, fun _ untripped => ?_,
            fun _ _ => rfl⟩
          · cases mode.symm.trans disabled
          · cases armed.symm.trans untripped
  · next mode => exact mirrors_disabled sound mode

end World

/-! ### The course of a run of the dispatcher -/

namespace Robot

/-- The rest of a run of the dispatcher once the hook has been called. -/
def devicePass : Code ι σ := doing .applyMode .skip

/-- The agendas of a run of the dispatcher that calls the hook, up to its pass over the devices. -/
inductive Dispatching (app : App ι σ) (h : Hook) (rest : List (Task (Effect ι) (World ι) σ)) :
    List (Task (Effect ι) (World ι) σ) → Prop
  | calling : Dispatching app h rest (.run (doing (.call h) devicePass) :: rest)
  | entering : Dispatching app h rest
      (.run (.attempt (lift (app.hook h)) (hookEnd h)) :: .bound (fun _ => devicePass) :: rest)
  | inside (above : List (Task (Effect ι) (World ι) σ)) : Dispatching app h rest
      (above ++ .caught (hookEnd h) :: .bound (fun _ => devicePass) :: rest)
  | ended (o : Except Failure Unit) : Dispatching app h rest
      (.run (hookEnd h o) :: .bound (fun _ => devicePass) :: rest)
  | noted : Dispatching app h rest
      (.run .skip :: .bound (fun _ => .skip) :: .bound (fun _ => devicePass) :: rest)
  | passing : Dispatching app h rest (.run devicePass :: rest)

end Robot

namespace Session

variable {s s' : Session ι σ} {h : Hook} {rest : List (Task (Effect ι) (World ι) σ)}

/-- What goes on meanwhile: the robot makes a step, or somebody else does something to the world or
to what the application keeps. -/
inductive Meanwhile (app : App ι σ) : Session ι σ → Session ι σ → Prop
  | step (s : Session ι σ) : Meanwhile app s (Machine.step (Robot.host app) s)
  | others (s : Session ι σ) (w : World ι) (own : σ)
      (sound : s.world.fleet.Every Device.Sound → w.fleet.Every Device.Sound) :
      Meanwhile app s { s with world := w, own := own }

theorem Meanwhile.steps (n : Nat) (s : Session ι σ) :
    Relation.ReflTransGen (Meanwhile app) s (Machine.steps (Robot.host app) n s) := by
  induction n generalizing s with
  | zero => exact .refl
  | succ n ih => exact .head (.step s) (ih _)

theorem Meanwhile.sound (meanwhile : Meanwhile app s s')
    (sound : s.world.fleet.Every Device.Sound) : s'.world.fleet.Every Device.Sound := by
  cases meanwhile with
  | step => exact (Happens.freely (.step s)).every Device.lasting_sound sound
  | others w own keeps => exact keeps sound

/-- A step in a hook leaves the attempt in which it runs where it is, or ends the hook. -/
theorem dispatching_inside {above : List (Task (Effect ι) (World ι) σ)}
    (whole : s.agenda = above ++ .caught (Robot.hookEnd h) ::
      .bound (fun _ => Robot.devicePass) :: rest) :
    Robot.Dispatching app h rest (Machine.step (Robot.host app) s).agenda := by
  by_cases none : above = []
  · subst none
    have stepped : (Machine.step (Robot.host app) s).agenda =
        .run (Robot.hookEnd h (.ok ())) :: .bound (fun _ => Robot.devicePass) :: rest := by
      rw [List.nil_append] at whole
      rw [Machine.step, whole]
      rfl
    rw [stepped]
    exact .ended (.ok ())
  · have lands : Lands (fun _ => True) (fun _ => True) (.caught (Robot.hookEnd h) ::
        .bound (fun _ => Robot.devicePass) :: rest) (Machine.step (Robot.host app) s).agenda :=
      Machine.lands_step (fun _ _ => Routine.uses_all _) (.attempt _ _) whole none
        (Machine.permitted_all _) fun _ _ _ _ => Routine.uses_all _
    generalize (Machine.step (Robot.host app) s).agenda = agenda at lands
    cases lands with
    | above tasks _ => exact .inside tasks
    | on caught o =>
        cases caught
        exact .ended o

/-- A run of the dispatcher goes on to its pass over the devices, whatever its hook does. -/
theorem dispatching_step (dispatching : Robot.Dispatching app h rest s.agenda)
    (before : s.agenda ≠ .run Robot.devicePass :: rest) :
    Robot.Dispatching app h rest (Machine.step (Robot.host app) s).agenda := by
  generalize whole : s.agenda = tasks at dispatching
  cases dispatching with
  | calling =>
      rw [step_act app whole]
      exact .entering
  | entering =>
      rw [Machine.step, whole]
      exact .inside [.run (Robot.lift (app.hook h))]
  | inside above => exact dispatching_inside whole
  | ended o =>
      cases o with
      | ok _ =>
          rw [Machine.step, whole]
          exact .passing
      | error f =>
          rw [step_act app whole]
          exact .noted
  | noted =>
      rw [Machine.step, whole]
      exact .ended (.ok ())
  | passing => exact absurd whole before

/-- However a run of the dispatcher goes on, its pass over the devices is yet to come, or it has
been reached and made. -/
theorem dispatching_run (dispatching : Robot.Dispatching app h rest s.agenda)
    (path : Relation.ReflTransGen (Meanwhile app) s s') :
    Robot.Dispatching app h rest s'.agenda ∨
      ∃ t, Relation.ReflTransGen (Meanwhile app) s t ∧ t.agenda = .run Robot.devicePass :: rest ∧
        Relation.ReflTransGen (Meanwhile app) (Machine.step (Robot.host app) t) s' := by
  induction path with
  | refl => exact .inl dispatching
  | @tail mid last path meanwhile ih =>
      rcases ih with waiting | ⟨t, reached, front, after⟩
      · cases meanwhile with
        | step =>
            by_cases front : mid.agenda = .run Robot.devicePass :: rest
            · exact .inr ⟨mid, path, front, .refl⟩
            · exact .inl (dispatching_step waiting front)
        | others w own sound => exact .inl waiting
      · exact .inr ⟨t, reached, front, after.tail meanwhile⟩

theorem sound_run (path : Relation.ReflTransGen (Meanwhile app) s s')
    (sound : s.world.fleet.Every Device.Sound) : s'.world.fleet.Every Device.Sound := by
  induction path with
  | refl => exact sound
  | tail _ meanwhile ih => exact meanwhile.sound ih

/-- What the end of a hook leaves in the world: a failure is logged. -/
def afterHook (w : World ι) (h : Hook) : Except Failure Unit → World ι
  | .ok () => w
  | .error f => w.log (Robot.hookFailure h f)

theorem pass_after_hook (app : App ι σ) (o : Except Failure Unit)
    (front : s.agenda =
      .run (Robot.hookEnd h o) :: .bound (fun _ => Robot.devicePass) :: rest) :
    ∃ n ≤ 3, Machine.steps (Robot.host app) n s =
      { s with world := afterHook s.world h o, agenda := .run Robot.devicePass :: rest } := by
  cases o with
  | ok _ =>
      refine ⟨1, by decide, ?_⟩
      show Machine.step (Robot.host app) s = _
      rw [Machine.step, front]
      rfl
  | error f =>
      refine ⟨3, Nat.le_refl 3, ?_⟩
      show Machine.step _ (Machine.step _ (Machine.step (Robot.host app) s)) = _
      rw [step_act app front]
      rfl

/-- A run of the mode dispatcher.  It comes to the hook of the mode that it finds with nothing
changed.  Whatever the hook does, and whatever others do meanwhile, the run does not go on with what
is below it unless it has come to its pass over the devices; once the hook has ended, in whatever
way, the pass is three steps away at most.  The pass leaves everything but the devices as it is, and
of the devices all that do not follow the mode.  With the robot disabled by then, all others that
are live are off afterwards; with the robot enabled and the watchdog armed, all that can be switched
on are on; with the watchdog tripped, nothing is changed at all. -/
theorem dispatch_mirrors (occurs : Occurs app s)
    (front : s.agenda = .run Robot.dispatchMode :: rest) :
    let h : Hook := if s.world.mode = .enabled then .enabledPeriodic else .disabledPeriodic
    let entered := Machine.steps (Robot.host app) 3 s
    (entered =
      { s with
        agenda := .run (Robot.lift (app.hook h)) :: .caught (Robot.hookEnd h) ::
          .bound (fun _ => Robot.devicePass) :: rest }) ∧
    (∀ s', Relation.ReflTransGen (Meanwhile app) entered s' →
      Robot.Dispatching app h rest s'.agenda ∨
        ∃ t, Relation.ReflTransGen (Meanwhile app) entered t ∧
          t.agenda = .run Robot.devicePass :: rest ∧
          Relation.ReflTransGen (Meanwhile app) (Machine.step (Robot.host app) t) s') ∧
    (∀ t o, t.agenda = .run (Robot.hookEnd h o) :: .bound (fun _ => Robot.devicePass) :: rest →
      ∃ n ≤ 3, Machine.steps (Robot.host app) n t =
        { t with world := afterHook t.world h o, agenda := .run Robot.devicePass :: rest }) ∧
    ∀ t, Relation.ReflTransGen (Meanwhile app) entered t →
      t.agenda = .run Robot.devicePass :: rest →
        t.world.Mirrors (Machine.step (Robot.host app) t).world := by
  intro h entered
  have hook : Hook.periodicIn s.world.mode = h := by
    show _ = if s.world.mode = .enabled then Hook.enabledPeriodic else .disabledPeriodic
    cases s.world.mode <;> rfl
  have enters : entered =
      { s with
        agenda := .run (Robot.lift (app.hook h)) :: .caught (Robot.hookEnd h) ::
          .bound (fun _ => Robot.devicePass) :: rest } := by
    show Machine.step _ (Machine.step _ (Machine.step (Robot.host app) s)) = _
    have looked : Machine.step (Robot.host app) s =
        { s with agenda := .run (Robot.doing (.call h) Robot.devicePass) :: rest } := by
      rw [Machine.step, front, ← hook]
      rfl
    rw [looked]
    rfl
  have sound : entered.world.fleet.Every Device.Sound := by
    rw [enters]
    exact occurs.every Device.lasting_sound
  refine ⟨enters, fun s' path => ?_, fun t o passes => pass_after_hook app o passes,
    fun t path passing => ?_⟩
  · refine dispatching_run ?_ path
    rw [enters]
    exact .inside [.run (Robot.lift (app.hook h))]
  · have passed : (Machine.step (Robot.host app) t).world = t.world.applyMode := by
      rw [step_act app passing]
      rfl
    rw [passed]
    exact World.mirrors_applyMode (sound_run path sound)

end Session

/-- When it finds the robot disabled, its hook enables the robot, switches its motor off, and
panics. -/
def App.fickle : App Empty Unit :=
  { App.silent with
    hook := fun
      | .disabledPeriodic =>
          .act (.setEnabled true) fun _ => .act (.device (.disable ⟨0⟩)) fun _ => .panic .unreadable
      | _ => .skip }

namespace Session

def fickle.started : Session Empty Unit :=
  carry .fickle 40 (carry .fickle 40 workshop (.act (.act (.register ⟨0⟩)) fun _ => .skip))
    Robot.start

theorem fickle.occurs_started : Occurs .fickle fickle.started := by
  have made : Occurs .fickle workshop :=
    ⟨{}, ⟨.nothing, []⟩, (), .single (.freely (.make _ ⟨1⟩ _ rfl))⟩
  exact (made.carry rfl _ 40).carry rfl Robot.start 40

/-- The dispatcher is about to run. -/
def fickle.dispatching : Session Empty Unit :=
  { fickle.started with agenda := [.run Robot.dispatchMode] }

/-- The hook of the disabled robot is called, fails, and leaves the robot enabled with its motor
off; the pass switches the motor on again. -/
theorem dispatch_mirrors_fickle :
    let h := Robot.host .fickle
    let t := Machine.steps h 15 (Machine.steps h 3 fickle.dispatching)
    (Machine.steps h 3 fickle.dispatching).agenda.head? =
        some (.run (Robot.lift (App.fickle.hook .disabledPeriodic))) ∧
      t.agenda = [.run Robot.devicePass] ∧ t.world.mode = .enabled ∧
      (t.world.fleet.device? ⟨0⟩).map Device.isEnabled = some false ∧
      ∃ d, (Machine.step h t).world.fleet.device? ⟨0⟩ = some d ∧ d.isEnabled = true := by
  intro h t
  have occurs : Occurs .fickle fickle.dispatching :=
    fickle.occurs_started.happens (.freely (.call fickle.started Robot.dispatchMode))
  obtain ⟨entered, _, _, mirrors⟩ := dispatch_mirrors occurs rfl
  have passed := mirrors t (Meanwhile.steps 15 _) rfl
  obtain ⟨d, after, on, _⟩ := passed.on rfl rfl ⟨0⟩ (by decide) _ rfl rfl
  exact ⟨by rw [entered]; rfl, rfl, rfl, rfl, d, after, on rfl⟩

end Session

end RobotControl
