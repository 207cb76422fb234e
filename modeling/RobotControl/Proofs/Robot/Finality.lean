import RobotControl.Proofs.Robot.Shutdown

/-!
# Nothing undoes a shutdown

Once a robot was shut down nothing but the application itself switches a device on
(`Session.Over.devices`), so what the shutdown has switched off stays off
(`Session.History.keptOff`), and the network table goes on telling that the robot is disabled
(`Session.History.stated_over`).  `Session.lifecycle_final` puts together how calls are answered
(`Session.Answers`) and what is final about a shutdown (`Session.Final`), wherever it was called
from.
-/
set_option autoImplicit false

namespace RobotControl

variable {ι σ : Type} {app : App ι σ} {opens : Prop}

/-! ### Handles in the life of a robot -/

theorem Fleet.device?_register {f : Fleet} {h k : Handle} {d' : Device}
    (found : (f.register h).device? k = some d') :
    ∃ d, f.device? k = some d ∧ (d' = d ∨ d' = d.start.1) := by
  have enrolled : ∀ r, ({ f with roster := r } : Fleet).device? k = f.device? k := fun _ =>
    device?_congr rfl k
  unfold register at found
  split at found
  · exact ⟨d', found, .inl rfl⟩
  · split at found
    · exact ⟨d', found, .inl rfl⟩
    · dsimp only at found
      split at found
      · rw [touches_begin.device?, enrolled] at found
        split at found
        · obtain ⟨d, before, started⟩ := Option.map_eq_some_iff.mp found
          exact ⟨d, before, .inr started.symm⟩
        · exact ⟨d', found, .inl rfl⟩
      · exact ⟨d', (enrolled _).symm.trans found, .inl rfl⟩

namespace World

variable {w : World ι}

theorem handles_applyMode (w : World ι) : w.applyMode.fleet.handles = w.fleet.handles := by
  unfold applyMode
  split
  · show (w.watchdog.whileArmed w.fleet Fleet.enableMatching).handles = _
    unfold Watchdog.whileArmed
    split
    · rfl
    · exact w.fleet.handles_enableMatching
  · exact w.fleet.handles_disableMatching

theorem handles_look (w : World ι) : w.look.fleet.handles = w.fleet.handles := by
  unfold look
  split
  · rfl
  · split
    · rfl
    · split
      · rfl
      · exact w.fleet.handles_check w.watchdog

end World

namespace Robot

variable {w : World ι}

theorem fleet_settle (w : World ι) : (settle app w).1.fleet = w.fleet := by
  unfold settle
  dsimp only
  split
  · rfl
  · split
    · split <;> rfl
    · rfl

theorem handles_attend (w : World ι) (d : Duty) :
    (attend app w d).1.fleet.handles = w.fleet.handles := by
  cases d with
  | switchTo m => exact World.handles_applyMode _
  | applyMode => exact w.handles_applyMode
  | powerUp => exact (Fleet.handles_feed _ _ _).trans w.fleet.handles_startRoster
  | wrapUp => exact w.fleet.handles_disableAll
  | look => exact w.handles_look
  | settle => exact congrArg Fleet.handles (fleet_settle w)
  | jobEnded j failed => cases failed <;> rfl
  | _ => rfl

theorem handles_carryOut (w : World ι) (a : Act ι)
    (old : ∀ controller id, a ≠ .gamepad controller id) :
    (carryOut w a : World ι × Code ι σ).1.fleet.handles = w.fleet.handles := by
  cases a with
  | device i => exact w.fleet.handles_accept i
  | register h => exact w.fleet.handles_register h
  | gamepad controller id => exact absurd rfl (old controller id)
  | watch h => exact w.fleet.handles_keep h _
  | feed => exact w.fleet.handles_feed w.watchdog w.mode.isEnabled
  | _ => rfl

theorem numbered_perform (numbered : w.fleet.Numbered) (e : Effect ι) :
    (perform app w e).1.fleet.Numbered := by
  cases e with
  | duty d => exact numbered.of_handles (handles_attend w d)
  | act a =>
      by_cases made : ∃ controller id, a = .gamepad controller id
      · obtain ⟨controller, id, rfl⟩ := made
        exact (numbered.add id _).of_handles (Fleet.handles_register _ _)
      · refine numbered.of_handles (handles_carryOut w a fun controller id same => ?_)
        exact made ⟨controller, id, same⟩

theorem calmer_carryOut (w : World ι) (disabled : w.mode = .disabled) (a : Act ι)
    (unasked : ∀ h, a ≠ .device (.enable h)) (old : ∀ controller id, a ≠ .gamepad controller id) :
    (carryOut w a : World ι × Code ι σ).1.fleet.Calmer w.fleet := by
  cases a with
  | device i =>
      refine w.fleet.calmer_accept i ?_
      cases i with
      | enable h => exact absurd rfl (unasked h)
      | _ => rfl
  | register h => exact w.fleet.calmer_register h
  | gamepad controller id => exact absurd rfl (old controller id)
  | watch h => exact w.fleet.calmer_keep h fun _ => rfl
  | feed =>
      have silent : w.feed.fleet = w.fleet := by
        unfold World.feed Watchdog.feed
        rw [disabled]
        simp [Mode.isEnabled]
      have devices : w.feed.fleet.roster.devices = w.fleet.roster.devices := by rw [silent]
      exact .of_eq (fun h => congrArg (Fleet.device? · h) silent) devices
  | _ => exact .refl _

theorem calmer_attend (w : World ι) (disabled : w.mode = .disabled) (d : Duty)
    (late : (Effect.duty d : Effect ι).Late opens) :
    (attend app w d).1.fleet.Calmer w.fleet := by
  cases d with
  | call h => exact .refl _
  | hookFailed h f => exact w.fleet.calmer_note _
  | applyMode =>
      show w.applyMode.fleet.Calmer w.fleet
      unfold World.applyMode
      rw [disabled]
      exact (Fleet.touches_disable.when fun d => d.followsMode && d.isEnabled).calmer_each
        (Fleet.calmer_disable_when _) _ _
  | scheduleLoops => exact .refl _
  | settle =>
      have same : (settle app w).1.fleet = w.fleet := fleet_settle w
      exact same ▸ .refl _
  | noteStopRequest => exact w.fleet.calmer_note _
  | jobEnded j failed =>
      cases failed with
      | none => exact .refl _
      | some f => exact w.fleet.calmer_note _
  | _ => exact late.elim

theorem host_keeps_calm (f : Fleet) :
    (host app).Keeps (fun _ => True) (fun _ => True) fun w =>
      w.fleet.Calmer f ∧ w.fleet.handles = f.handles where
  routine _ _ := Routine.uses_all _
  answer _ _ _ _ _ := Routine.uses_all _
  log _ w kept := ⟨(w.fleet.calmer_note _).trans kept.1, kept.2⟩
  forget own trigger w kept := by
    show (forget app own trigger w).fleet.Calmer f ∧ (forget app own trigger w).fleet.handles = _
    unfold forget
    split
    · next h _ =>
        have calm : (w.fleet.unwatch h).Calmer w.fleet := w.fleet.calmer_keep h fun _ => rfl
        exact ⟨calm.trans kept.1, (w.fleet.handles_keep h _).trans kept.2⟩
    · exact kept

end Robot

namespace Session

variable {s : Session ι σ} {past : List (Session ι σ)}

theorem numbered_step (app : App ι σ) (numbered : s.world.fleet.Numbered) :
    (Machine.step (Robot.host app) s).world.fleet.Numbered := by
  have keeps : (Robot.host app).Keeps (fun _ => True) (fun _ => True)
      fun w => w.fleet.Numbered := by
    refine ⟨fun _ _ => Routine.uses_all _, fun _ _ _ _ _ => Routine.uses_all _,
      fun _ _ own => own, fun own trigger w numbered => ?_⟩
    exact numbered.of_handles ((Robot.host_keeps_calm w.fleet).forget own trigger w
      ⟨.refl _, rfl⟩).2
  exact Machine.world_step keeps numbered fun e _ _ _ => Robot.numbered_perform numbered e

theorem History.numbered (history : History app s past) : s.world.fleet.Numbered := by
  induction history with
  | created p sink own => exact fun h none => by cases none
  | call o history listens ih => exact ih
  | step history ih => exact numbered_step app ih
  | advance time history ih => exact ih
  | @look s past history ih => exact ih.of_handles s.world.handles_look
  | make id d history ih => exact ih.add id d
  | drift own history ih => exact ih

/-! ### Devices after a shutdown -/

/-- A robot that was shut down changes nothing about its devices, and the application makes them
calmer unless it enables one or makes one. -/
theorem Over.calm (app : App ι σ) (ended : s.Over opens)
    (unasked : ∀ h, s.deed ≠ some (.device (.enable h)))
    (old : ∀ controller id, s.deed ≠ some (.gamepad controller id)) :
    (Machine.step (Robot.host app) s).world.fleet.Calmer s.world.fleet ∧
      (Machine.step (Robot.host app) s).world.fleet.handles = s.world.fleet.handles := by
  refine Machine.world_step (Robot.host_keeps_calm s.world.fleet) ⟨.refl _, rfl⟩
    fun e next rest acts => ?_
  cases e with
  | act a =>
      have deed := deed_eq acts
      have unasked' : ∀ h, a ≠ .device (.enable h) := fun h same => unasked h (same ▸ deed)
      have old' : ∀ controller id, a ≠ .gamepad controller id := fun controller id same =>
        old controller id (same ▸ deed)
      exact ⟨Robot.calmer_carryOut s.world ended.mode a unasked' old',
        Robot.handles_carryOut s.world a old'⟩
  | duty d =>
      exact ⟨Robot.calmer_attend s.world ended.mode d (ended.duty (duty_eq acts)),
        Robot.handles_attend s.world d⟩

/-- What a step does to the devices: the application enables one or makes a gamepad, or nothing is
switched on. -/
inductive Deals (s : Session ι σ) : Fleet → Prop
  | enables (k : Handle) (deed : s.deed = some (.device (.enable k))) :
      Deals s (s.world.fleet.enable k)
  | makes (id : DeviceId) (g : Gamepad) :
      Deals s ((s.world.fleet.add id (.gamepad g)).1.register ⟨s.world.fleet.slots.size⟩)
  | calms {f : Fleet} (calmer : f.Calmer s.world.fleet)
      (handles : f.handles = s.world.fleet.handles) : Deals s f

theorem Over.deals (app : App ι σ) (ended : s.Over opens) :
    Deals s (Machine.step (Robot.host app) s).world.fleet := by
  by_cases asks : ∃ k, s.deed = some (.device (.enable k))
  · obtain ⟨k, deed⟩ := asks
    obtain ⟨next, rest, front⟩ := front_of_deed deed
    rw [step_act app front]
    exact .enables k deed
  by_cases makes : ∃ controller id, s.deed = some (.gamepad controller id)
  · obtain ⟨controller, id, deed⟩ := makes
    obtain ⟨next, rest, front⟩ := front_of_deed deed
    rw [step_act app front]
    exact .makes id _
  · obtain ⟨calmer, handles⟩ := ended.calm app (fun k deed => asks ⟨k, deed⟩)
      fun controller id deed => makes ⟨controller, id, deed⟩
    exact .calms calmer handles

/-- A device that is on after a step, and that can be switched off, was on before, unless the
application has just enabled it. -/
theorem Over.devices (app : App ι σ) (ended : s.Over opens) {h : Handle} {d' : Device}
    (found : (Machine.step (Robot.host app) s).world.fleet.device? h = some d')
    (on : d'.isEnabled = true) (yields : d'.disable.1.isEnabled = false)
    (unasked : s.deed ≠ some (.device (.enable h))) :
    ∃ d, s.world.fleet.device? h = some d ∧ d.isEnabled = true := by
  have deals := ended.deals app
  generalize (Machine.step (Robot.host app) s).world.fleet = f at found deals
  cases deals with
  | enables k deed =>
      have other : k ≠ h := fun same => unasked (same ▸ deed)
      have same := Fleet.touches_enable.device? s.world.fleet k h
      rw [if_neg other] at same
      exact ⟨d', same.symm.trans found, on⟩
  | makes id g =>
      obtain ⟨d, made, same⟩ := Fleet.device?_register found
      obtain ⟨slot, held, rfl⟩ := Fleet.device?_eq_some.mp made
      rw [Fleet.slot?_put s.world.fleet _ _ h _ rfl] at held
      split at held
      · -- the new gamepad is on, but cannot be switched off
        obtain ⟨eq, _⟩ := Option.filter_eq_some_iff.mp held
        cases eq
        rcases same with rfl | rfl <;> cases yields
      · refine ⟨slot.device, Fleet.device?_eq_some.mpr ⟨slot, held, rfl⟩, ?_⟩
        rcases same with rfl | rfl
        · exact on
        · exact slot.device.calmer_start.isEnabled on
  | calms calmer handles =>
      obtain ⟨d, before, calm⟩ := calmer.device? h d' found
      exact ⟨d, before, calm.isEnabled on⟩

theorem Over.keptOff_step (app : App ι σ) (ended : s.Over opens) (numbered : s.world.fleet.Numbered)
    {h : Handle} (kept : s.world.fleet.KeptOff h) (unasked : s.deed ≠ some (.device (.enable h))) :
    (Machine.step (Robot.host app) s).world.fleet.KeptOff h := by
  have deals := ended.deals app
  generalize (Machine.step (Robot.host app) s).world.fleet = f at deals
  cases deals with
  | enables k deed =>
      have other : k ≠ h := fun same => unasked (same ▸ deed)
      have same := Fleet.touches_enable.device? s.world.fleet k h
      rw [if_neg other] at same
      exact ⟨(s.world.fleet.handles_enable k).symm ▸ kept.known,
        fun d found => kept.off d (same.symm.trans found)⟩
  | makes id g =>
      exact (kept.add numbered id _).calmer (Fleet.calmer_register _ _) (Fleet.handles_register _ _)
  | calms calmer handles => exact kept.calmer calmer handles

/-! ### What lasts after a shutdown -/

/-- What the last step of a shutdown brings about is still so later, if the steps that follow keep
it and what happens between them does. -/
theorem History.since_shutdown {P : World ι → Prop} {quiet : Session ι σ → Prop}
    (steps : ∀ (opens : Prop) (y : Session ι σ), y.Over opens → y.world.fleet.Numbered → quiet y →
      P y.world → P (Machine.step (Robot.host app) y).world)
    (advance : ∀ (w : World ι) time, P w → P (w.advance time))
    (make : ∀ (w : World ι) id d, w.fleet.Numbered → P w →
      P { w with fleet := (w.fleet.add id d).1 })
    (history : History app s past) {newer older : List (Session ι σ)} {x : Session ι σ}
    (split : past = newer ++ x :: older) (wraps : x.duty = some .wrapUp)
    (begins : P (Machine.step (Robot.host app) x).world) (calm : ∀ y ∈ newer, quiet y) :
    P s.world := by
  induction history generalizing newer with
  | created p sink own => simp at split
  | call o history listens ih => exact ih split calm
  | @step s past history ih =>
      cases newer with
      | nil =>
          obtain ⟨rfl, rfl⟩ := List.cons.inj split
          exact begins
      | cons y newer =>
          obtain ⟨rfl, rfl⟩ := List.cons.inj split
          obtain ⟨now, before⟩ := List.forall_mem_cons.mp calm
          exact steps _ _ (history.finished rfl wraps).2 history.numbered now (ih rfl before)
  | advance time history ih => exact advance _ time (ih split calm)
  | @look s past history ih =>
      rw [(history.finished split wraps).2.halted.look]
      exact ih split calm
  | make id d history ih => exact make _ id d history.numbered (ih split calm)
  | drift own history ih => exact ih split calm

variable {newer older : List (Session ι σ)} {x : Session ι σ}

theorem History.keptOff (history : History app s past) (split : past = newer ++ x :: older)
    (wraps : x.duty = some .wrapUp) {h : Handle} {d : Device} (live : h ∈ x.world.fleet.live)
    (found : x.world.fleet.device? h = some d) (yields : d.disable.1.isEnabled = false)
    (unasked : ∀ y ∈ newer, y.deed ≠ some (.device (.enable h))) : s.world.fleet.KeptOff h := by
  refine history.since_shutdown (P := fun w => w.fleet.KeptOff h)
    (fun _ y ended numbered unasked kept => ended.keptOff_step app numbered kept unasked)
    (fun w time kept => kept.calmer (.of_eq (fun h => Fleet.device?_congr rfl h) rfl) rfl)
    (fun w id d numbered kept => kept.add numbered id d) split wraps ?_ unasked
  obtain ⟨⟨foot, front, -⟩, -⟩ := history.finished split wraps
  rw [step_act app front]
  exact (Fleet.keptOff_disableAll live found yields).calmer (Fleet.calmer_note _ _) rfl

theorem stated_wrapUp (w : World ι) : w.wrapUp.stated = some Mode.disabled.label :=
  World.stated_publishMode { w with mode := .disabled } .disabled

theorem Over.stated_step (app : App ι σ) (ended : s.Over opens) (mine : ¬ s.Overwrites) :
    (Machine.step (Robot.host app) s).world.stated = s.world.stated := by
  have keeps : (Robot.host app).Keeps (fun _ => True) (fun _ => True)
      fun w => w.stated = s.world.stated := Robot.host_keeps_fleet fun _ _ own => own
  refine Machine.world_step keeps rfl fun e next rest front => ?_
  refine (Robot.sameRule_late app s.world e (ended.effect front)).2 ?_
  rintro a rfl
  by_contra sets
  exact mine ⟨a, deed_eq front, by simpa using sets⟩

/-- As long as nobody else writes it, the entry tells that the robot is disabled. -/
theorem History.stated_over (history : History app s past) (split : past = newer ++ x :: older)
    (wraps : x.duty = some .wrapUp) (mine : ∀ y ∈ newer, ¬ y.Overwrites) :
    s.world.stated = some Mode.disabled.label := by
  refine history.since_shutdown (P := fun w => w.stated = some Mode.disabled.label)
    (fun _ y ended _ mine kept => (ended.stated_step app mine).trans kept)
    (fun w time kept => kept) (fun w id d _ kept => kept) split wraps ?_ mine
  obtain ⟨⟨foot, front, -⟩, -⟩ := history.finished split wraps
  rw [step_act app front]
  exact stated_wrapUp x.world

/-! ### How calls are answered -/

/-- How a robot answers calls, wherever they come from. -/
structure Answers (app : App ι σ) (s : Session ι σ) (past : List (Session ι σ)) : Prop where
  /-- Once a robot was started or shut down, a start is refused and changes nothing. -/
  restart : ∀ rest, s.agenda = .run Robot.start :: rest → s.world.lifecycle ≠ .created →
    Machine.step (Robot.host app) s = s.todo (.run (.fail .alreadyStarted) :: rest)
  /-- Any other start is not lost, and it returns its success; the robot is started by then, unless
  a shutdown has begun meanwhile. -/
  start : ∀ newer x older foot, past = newer ++ x :: older → x.agenda = .run Robot.start :: foot →
    x.world.lifecycle = .created → (∀ y ∈ newer, ∀ o, y.agenda ≠ .run (.done o) :: foot) →
      (∃ above, above ≠ [] ∧ s.agenda = above ++ foot) ∧
        ∀ o, s.agenda = .run (.done o) :: foot → o = .ok () ∧
          (s.world.lifecycle = .started ∨ ∃ y ∈ newer, y.Stops)
  /-- A robot is powered up once at most. -/
  once : (∃ x ∈ past, x.duty = some .powerUp) →
    s.world.lifecycle ≠ .created ∧ s.duty ≠ some .powerUp
  /-- Unless the robot is started, a change of the mode is refused and changes nothing. -/
  setEnabled : ∀ enabled rest, s.agenda = .run (Robot.setEnabled enabled) :: rest →
    s.world.lifecycle ≠ .started →
      Machine.step (Robot.host app) s = s.todo (.run (.fail .notStarted) :: rest)
  /-- It is started if it was powered up and no shutdown has begun. -/
  started : s.world.lifecycle = .started ↔
    (∃ x ∈ past, x.duty = some .powerUp) ∧ ∀ x ∈ past, ¬ x.Stops
  /-- A robot that was shut down is not shut down again. -/
  shutdown : ∀ rest, s.agenda = .run Robot.shutdown :: rest → s.world.lifecycle = .stopped →
    Machine.step (Robot.host app) s = s.todo (.run .skip :: rest)

theorem History.answers (history : History app s past) : Answers app s past where
  restart rest front later := by
    rw [step_start app front, if_neg later]
  start newer x older foot split called fresh quiet :=
    history.start_succeeds split called fresh quiet
  once powered := by
    obtain ⟨x, member, powers⟩ := powered
    have later : s.world.lifecycle ≠ .created := fun fresh =>
      (history.lifecycle.1.mp fresh x member).1 powers
    exact ⟨later, fun again => later (history.duties.1 again)⟩
  setEnabled enabled rest front down := step_setEnabled app front down
  started := history.lifecycle.2
  shutdown rest front stopped := by
    rw [step_shutdown app front, stopped]

/-- The state of a robot and its next step once the step `x` has completed its shutdown, `newer`
being the steps since and `older` those before. -/
structure Final (app : App ι σ) (newer : List (Session ι σ)) (x : Session ι σ)
    (older : List (Session ι σ)) (s : Session ι σ) : Prop where
  /-- What was under way when the shutdown began is as it was then. -/
  under : ∃ y ∈ older, y.duty = some .halt ∧
    x.agenda = .run (Robot.doing .wrapUp .skip) :: y.agenda.tail
  /-- Every motor that lived with the robot and was initialised was told to stand still. -/
  motors : ∀ h ∈ x.world.fleet.live, ∀ m, x.world.fleet.device? h = some (.motor m) →
    m.controller.initialised = true →
      ∃ m', (Machine.step (Robot.host app) x).world.fleet.device? h = some (.motor m') ∧
        m'.AtRest m
  /-- What lived with the robot and could be switched off is off until the application enables
  it. -/
  off : ∀ h ∈ x.world.fleet.live, ∀ d, x.world.fleet.device? h = some d →
    d.disable.1.isEnabled = false → (∀ y ∈ newer, y.deed ≠ some (.device (.enable h))) →
      ∀ d', s.world.fleet.device? h = some d' → d'.isEnabled = false
  lifecycle : s.world.lifecycle = .stopped
  mode : s.world.mode = .disabled
  stop : s.world.stop.triggered = true
  stated : (∀ y ∈ newer, ¬ y.Overwrites) →
    s.world.table.get? NetworkTable.stateKey = some "DISABLED"
  /-- The monitor has ended. -/
  monitor : s.world.look = s.world
  /-- No hook is called, but `robotDisabled` if a start waited for its first hook. -/
  hooks : ∀ h, s.duty = some (.call h) → h = .robotDisabled ∧ x.StartWaits
  /-- No job begins, of the application or the robot: settling comes to nothing. -/
  jobs : s.duty = some .settle → (Robot.settle app s.world).2 = .skip ∨
    (Robot.settle app s.world).2 = Robot.doing .settle .skip
  /-- A new job is cancelled from the start. -/
  cancelled : ∀ name job interval, s.deed = some (.schedule name job interval) →
    (Machine.step (Robot.host app) s).world.schedule.isCancelled s.world.schedule.nextId = true
  /-- Nothing but the application switches on what can be switched off. -/
  devices : ∀ h d', (Machine.step (Robot.host app) s).world.fleet.device? h = some d' →
    d'.isEnabled = true → d'.disable.1.isEnabled = false →
      s.deed ≠ some (.device (.enable h)) →
        ∃ d, s.world.fleet.device? h = some d ∧ d.isEnabled = true

theorem Over.cancelled (app : App ι σ) (ended : s.Over opens) {name : String} {job : ι}
    {interval : Option Nat} (deed : s.deed = some (.schedule name job interval)) :
    (Machine.step (Robot.host app) s).world.schedule.isCancelled s.world.schedule.nextId =
      true := by
  obtain ⟨next, rest, front⟩ := front_of_deed deed
  rw [step_act app front]
  cases interval <;> exact Schedule.isCancelled_insert ended.halted.schedule ..

theorem History.final (history : History app s past) (split : past = newer ++ x :: older)
    (wraps : x.duty = some .wrapUp) : Final app newer x older s := by
  obtain ⟨⟨foot, front, y, begun, halts, under⟩, ended⟩ := history.finished split wraps
  refine ⟨⟨y, begun, halts, under.symm ▸ front⟩, fun h live m found ready => ?_,
    fun h live d found yields unasked =>
      (history.keptOff split wraps live found yields unasked).off,
    ended.halted.lifecycle, ended.mode, ended.halted.stop, history.stated_over split wraps,
    ended.halted.look, fun h calls => (ended.duty calls).call,
    fun _ => (Robot.settle_of_halted app ended.halted).2, fun _ _ _ => ended.cancelled app,
    fun _ _ => ended.devices app⟩
  rw [step_act app front]
  exact Fleet.disableAll_motor live found ready

/-- A robot that was powered up and is not started any more is being shut down by a call that has
not returned, or was shut down. -/
theorem History.completes (history : History app s past)
    (powered : ∃ x ∈ past, x.duty = some .powerUp) (down : s.world.lifecycle ≠ .started) :
    ∃ x ∈ past, x.duty = some .halt ∧ ((∃ y ∈ past, y.duty = some .wrapUp) ∨
      ∃ above, above ≠ [] ∧ s.agenda = above ++ x.agenda.tail) := by
  obtain ⟨z, member, powers⟩ := powered
  have stage := history.stage
  cases stage with
  | going course quiet up => exact absurd (up z member powers) down
  | closing closing halted waits begun quiet =>
      obtain ⟨x, before, halts, rfl⟩ := begun
      exact ⟨x, before, halts, .inr closing.above⟩
  | finished wraps begun ended once =>
      obtain ⟨x, before, halts, -⟩ := begun
      exact ⟨x, List.mem_append_right _ (List.mem_cons_of_mem _ before), halts,
        .inl ⟨_, List.mem_append_right _ (List.mem_cons_self ..), wraps.duty⟩⟩

/-- A start succeeds at most once, and everything else is refused that does not find the robot in
the right place.  A shutdown of a started robot is completed before it returns, and then nothing
undoes it.  All this holds wherever calls come from, from outside or from inside hooks, jobs and
callbacks. -/
theorem lifecycle_final (history : History app s past) :
    Answers app s past ∧
      ((∃ x ∈ past, x.duty = some .powerUp) → s.world.lifecycle ≠ .started →
        ∃ x ∈ past, x.duty = some .halt ∧ ((∃ y ∈ past, y.duty = some .wrapUp) ∨
          ∃ above, above ≠ [] ∧ s.agenda = above ++ x.agenda.tail)) ∧
      ∀ newer x older, past = newer ++ x :: older → x.duty = some .wrapUp →
        Final app newer x older s :=
  ⟨history.answers, history.completes, fun _ _ _ => history.final⟩

/-- A robot is asked for something, above what is under way, and makes so many steps. -/
def obey (app : App Empty Unit) (s : Session Empty Unit) (o : Order Empty Unit) (n : Nat) :
    Session Empty Unit :=
  Machine.steps (Robot.host app) n { s with agenda := .run o.body :: s.agenda }

theorem History.obey {app : App Empty Unit} {s : Session Empty Unit}
    {past : List (Session Empty Unit)} (history : History app s past) (listens : s.Listens)
    (o : Order Empty Unit) (n : Nat) :
    History app (obey app s o n)
      (Machine.trail (Robot.host app) n { s with agenda := .run o.body :: s.agenda } past) :=
  (history.call o listens).steps n

def garage (output : Output) : Session Empty Unit :=
  let fresh : Session Empty Unit := ofWorld (.ofProfile {} ⟨.nothing, []⟩) ()
  let motor : Motor := { name := "arm", output := output }
  { fresh with world := { fresh.world with fleet := (fresh.world.fleet.add ⟨1⟩ (.motor motor)).1 } }

theorem history_garage (output : Output) : History .silent (garage output) [] :=
  .make ⟨1⟩ _ (.created {} ⟨.nothing, []⟩ ())

def ready (output : Output) : Session Empty Unit :=
  obey .silent (obey .silent (garage output) (.code (.act (.register ⟨0⟩) fun _ => .skip)) 3)
    .start 14

theorem history_ready (output : Output) : ∃ past, History .silent (ready output) past :=
  ⟨_, ((history_garage output).obey (.inl rfl)
    (.code (.act (.register ⟨0⟩) fun _ => .skip)) 3).obey (.inl rfl) .start 14⟩

/-- Code of the application has enabled the robot, lets its motor turn at half speed, and is about
to go on. -/
def rolling : Session Empty Unit :=
  let enabled := obey .silent (ready { label := "arm" }) (.setEnabled true) 8
  obey .silent enabled
    (.code (.act (.device (.drive ⟨0⟩ (.speed 0.5))) fun _ => .note id .skip)) 2

theorem history_rolling : ∃ past, History .silent rolling past := by
  obtain ⟨past, started⟩ := history_ready { label := "arm" }
  exact ⟨_, (started.obey (.inl rfl) (.setEnabled true) 8).obey (.inl rfl)
    (.code (.act (.device (.drive ⟨0⟩ (.speed 0.5))) fun _ => .note id .skip)) 2⟩

/-- The code that has the motor turn shuts the robot down, and then asks it to enable itself
again. -/
theorem lifecycle_final_rolling :
    (rolling.world.mode = .enabled ∧ rolling.agenda ≠ [] ∧
      ∃ m, rolling.world.fleet.device? ⟨0⟩ = some (.motor m) ∧ m.output.applied.speed = 0.5) ∧
    ∃ past, let s := obey .silent (obey .silent rolling .shutdown 8) (.setEnabled true) 2
      History .silent s past ∧ s.agenda = rolling.agenda ∧
        ∃ m, s.world.fleet.device? ⟨0⟩ = some (.motor m) ∧ m.controller.enabled = false ∧
          m.output.applied.speed = 0.0 ∧ s.world.mode = .disabled ∧
            s.world.table.get? NetworkTable.stateKey = some "DISABLED" := by
  obtain ⟨past, history⟩ := history_rolling
  let h := Robot.host App.silent
  let asked : Session Empty Unit := { rolling with agenda := .run Robot.shutdown :: rolling.agenda }
  let down := obey .silent rolling .shutdown 8
  let later : Session Empty Unit :=
    { down with agenda := .run (Robot.setEnabled true) :: down.agenda }
  have open₁ : rolling.Listens := .inr ⟨.note id .skip, [], rfl, trivial⟩
  have open₂ : down.Listens := .inr ⟨.note id .skip, [], rfl, trivial⟩
  have ended := (history.obey open₁ .shutdown 8).obey open₂ (.setEnabled true) 2
  obtain ⟨_, _, finals⟩ := lifecycle_final ended
  have final := finals (later.trail h 2 ((asked.steps h 6).trail h 2 [])) (asked.steps h 5)
    (asked.trail h 5 past) rfl rfl
  have silent : ∀ y ∈ later.trail h 2 ((asked.steps h 6).trail h 2 []), deed y = none := by decide
  have off := final.off ⟨0⟩ (by decide) _ rfl rfl
    (fun y member asks => by cases (silent y member).symm.trans asks) _ rfl
  exact ⟨⟨rfl, nofun, _, rfl, rfl⟩, _, ended, rfl, _, rfl, off, rfl, final.mode,
    final.stated (by decide)⟩

end Session

def App.greeting : App Empty Unit :=
  { App.silent with
    hook := fun
      | .robotStarted => .note id .skip
      | _ => .skip }

namespace Session

/-- The output of a motor that cannot be initialised. -/
def stuck : Output := { label := "arm", refusesInit := fun _ => true }

/-- A start whose first hook shuts the robot down calls `robotDisabled` all the same; and a motor
that could not be initialised is not told to stand still. -/
theorem opened_after_shutdown :
    (∃ s past, History App.greeting s past ∧ (∃ x ∈ past, x.duty = some .wrapUp) ∧
      s.duty = some (.call .robotDisabled)) ∧
    ∃ s past x, History .silent s past ∧ x ∈ past ∧ x.duty = some .wrapUp ∧
      (⟨0⟩ : Handle) ∈ x.world.fleet.live ∧
        ∃ m, s.world.fleet.device? ⟨0⟩ = some (.motor m) ∧ m.output.attempts = 0 := by
  constructor
  · let h := Robot.host App.greeting
    let fresh : Session Empty Unit := ofWorld (.ofProfile {} ⟨.nothing, []⟩) ()
    let greets := obey .greeting fresh .start 5
    have made : History App.greeting fresh [] := .created {} ⟨.nothing, []⟩ ()
    have listens : greets.Listens := .inr ⟨.note id .skip, greets.agenda.tail, rfl, trivial⟩
    have wraps := (made.obey (.inl rfl) .start 5).obey listens .shutdown 5
    exact ⟨_, _, wraps.step.steps 5, ⟨_, Machine.mem_trail 5 (List.mem_cons_self ..), rfl⟩, rfl⟩
  · obtain ⟨past, started⟩ := history_ready stuck
    have wraps := started.obey (.inl rfl) .shutdown 5
    have off : ∃ m, (obey .silent (ready stuck) .shutdown 6).world.fleet.device? ⟨0⟩ =
      some (.motor m) ∧ m.output.attempts = 0 := ⟨_, rfl, rfl⟩
    exact ⟨obey .silent (ready stuck) .shutdown 6, _, _, wraps.step, List.mem_cons_self .., rfl,
      by decide +kernel, off⟩

end Session

end RobotControl
