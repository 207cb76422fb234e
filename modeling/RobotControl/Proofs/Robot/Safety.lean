import RobotControl.Proofs.Robot.Guard

/-!
# Safe sessions

A robot moves by the steps of its code, by calls that may come at any moment, between any two
steps of its hooks, jobs and callbacks, by new devices, and by looks at its watchdog.  Whatever
the order of these moves, no device is ever on against the watchdog or the mode, and once the
watchdog has tripped, watched devices stay off until the enabled robot is fed.
-/
set_option autoImplicit false

namespace RobotControl

variable {ι σ : Type} {app : App ι σ}

namespace Watchdog

theorem tripped_check (w : Watchdog) (f : Fleet) (tripped : w.tripped = true) :
    (w.check f).1.tripped = true := by
  unfold check
  split
  · exact tripped
  · rfl

end Watchdog

/-! ### Trips -/

namespace World

variable {w : World ι}

theorem tripped_look (tripped : w.watchdog.tripped = true) : w.look.watchdog.tripped = true := by
  unfold look
  split
  · exact tripped
  · split
    · exact tripped
    · split
      · exact tripped
      · exact w.watchdog.tripped_check w.fleet tripped

theorem tripped_powerUp (tripped : w.watchdog.tripped = true) :
    w.powerUp.watchdog.tripped = true := by
  have fed : ∀ f, (w.watchdog.feed f false).1.tripped = true := fun f => by
    rw [Watchdog.tripped_feed, tripped]
    rfl
  exact fed _

end World

namespace Robot

variable {w : World ι}

theorem tripped_attend (tripped : w.watchdog.tripped = true) (d : Duty) :
    (attend app w d).1.watchdog.tripped = true := by
  cases d with
  | switchTo m =>
      refine Eq.trans (congrArg Watchdog.tripped ?_) tripped
      exact (World.views_applyMode _).1
  | applyMode => exact w.views_applyMode.1.symm ▸ tripped
  | powerUp => exact World.tripped_powerUp tripped
  | look => exact World.tripped_look tripped
  | settle =>
      show (settle app w).1.watchdog.tripped = true
      unfold settle
      dsimp only
      split
      · exact tripped
      · split
        · split <;> exact tripped
        · exact tripped
  | jobEnded j failed => cases failed <;> exact tripped
  | _ => exact tripped

theorem tripped_perform (tripped : w.watchdog.tripped = true) (e : Effect ι)
    (other : e = .act .feed → w.mode ≠ .enabled) :
    (perform app w e).1.watchdog.tripped = true := by
  cases e with
  | duty d => exact tripped_attend tripped d
  | act a =>
      cases a with
      | feed =>
          have unfed : w.mode.isEnabled = false := by
            cases mode : w.mode with
            | enabled => exact absurd mode (other rfl)
            | disabled => rfl
          refine (w.watchdog.tripped_feed w.fleet w.mode.isEnabled).trans ?_
          rw [tripped, unfed]
          rfl
      | _ => exact tripped

theorem host_keeps_trip :
    (host app).Keeps (fun _ => True) (fun _ => True) fun w => w.watchdog.tripped = true where
  routine _ _ := Routine.uses_all _
  answer _ _ _ _ _ := Routine.uses_all _
  log _ _ tripped := tripped
  forget own trigger w tripped := by
    show (forget app own trigger w).watchdog.tripped = true
    unfold forget
    split <;> exact tripped

end Robot

/-! ### Moves -/

namespace Session

inductive Moves (app : App ι σ) : Session ι σ → Session ι σ → Prop
  | step (s : Session ι σ) : Moves app s (Machine.step (Robot.host app) s)
  /-- A call, from outside or from inside whatever is running. -/
  | call (s : Session ι σ) (c : Robot.Code ι σ) (modest : Robot.Modest c) :
      Moves app s { s with agenda := .run c :: s.agenda }
  /-- A device is made.  It is off, or a gamepad. -/
  | make (s : Session ι σ) (id : DeviceId) (d : Device) (idle : d.Idle) :
      Moves app s { s with world := { s.world with fleet := (s.world.fleet.add id d).1 } }
  | check (s : Session ι σ) : Moves app s { s with world := s.world.check }
  | drift (s : Session ι σ) (own : σ) : Moves app s { s with own := own }

def Reaches (app : App ι σ) (s : Session ι σ) : Prop :=
  ∃ p sink own, Relation.ReflTransGen (Moves app) (ofWorld (.ofProfile p sink) own) s

/-- The step by which the enabled robot is fed. -/
def FeedsEnabled (app : App ι σ) (s s' : Session ι σ) : Prop :=
  s.world.mode = .enabled ∧ (∃ next rest, s.agenda = .run (.act (.act .feed) next) :: rest) ∧
    s' = Machine.step (Robot.host app) s

/-- Everything else that can happen. -/
def Unfed (app : App ι σ) (s s' : Session ι σ) : Prop := Moves app s s' ∧ ¬ FeedsEnabled app s s'

abbrev Safe (s : Session ι σ) : Prop :=
  Machine.Obeys (fun _ => True) (fun e => e.isModest = true) World.Guarded s

variable {s s' : Session ι σ}

theorem Moves.safe (moves : Moves app s s') (modest : app.Modest) (safe : Safe s) : Safe s' := by
  cases moves with
  | step =>
      exact Machine.Obeys.step (Robot.host_keeps modest) safe fun e _ _ _ allowed =>
        Robot.guarded_perform safe.world e allowed
  | call c fits => exact ⟨safe.world, Machine.permitted_cons.mpr ⟨fits, safe.code⟩⟩
  | make id d idle => exact ⟨Fleet.Guarded.add safe.world id idle, safe.code⟩
  | check => exact ⟨safe.world.check, safe.code⟩
  | drift own => exact ⟨safe.world, safe.code⟩

theorem Reaches.safe (reached : Reaches app s) (modest : app.Modest) : Safe s := by
  obtain ⟨p, sink, own, path⟩ := reached
  induction path with
  | refl => exact ⟨World.guarded_ofProfile p sink, fun x none => by cases none⟩
  | tail _ moves ih => exact moves.safe modest ih

/-- A trip outlasts every move but the feed of the enabled robot. -/
theorem Unfed.tripped (unfed : Unfed app s s') (tripped : s.world.watchdog.tripped = true) :
    s'.world.watchdog.tripped = true := by
  obtain ⟨moves, other⟩ := unfed
  cases moves with
  | step =>
      refine Machine.world_step Robot.host_keeps_trip tripped fun e next rest front => ?_
      refine Robot.tripped_perform tripped e fun feeds enabled => other ?_
      exact ⟨enabled, ⟨next, rest, feeds ▸ front⟩, rfl⟩
  | call c modest => exact tripped
  | make id d idle => exact tripped
  | check => exact s.world.watchdog.tripped_check s.world.fleet tripped
  | drift own => exact tripped

theorem Reaches.move (reached : Reaches app s) (moves : Moves app s s') : Reaches app s' := by
  obtain ⟨p, sink, own, path⟩ := reached
  exact ⟨p, sink, own, path.tail moves⟩

theorem Reaches.unfed (reached : Reaches app s) (unfed : Relation.ReflTransGen (Unfed app) s s') :
    Reaches app s' := by
  induction unfed with
  | refl => exact reached
  | tail _ move ih => exact ih.move move.1

theorem Reaches.work (reached : Reaches app s) (n : Nat) :
    Reaches app (Machine.work (Robot.host app) n s) :=
  Machine.work_keeps (fun s reached => reached.move (.step s)) n reached

theorem Reaches.carry (reached : Reaches app s) (idle : s.agenda = []) {c : Robot.Code ι σ}
    (modest : Robot.Modest c) (patience : Nat) : Reaches app (carry app patience s c) := by
  have called := reached.move (.call s c modest)
  rw [idle] at called
  exact called.work patience

theorem tripped_of_unfed (unfed : Relation.ReflTransGen (Unfed app) s s')
    (tripped : s.world.watchdog.tripped = true) : s'.world.watchdog.tripped = true := by
  induction unfed with
  | refl => exact tripped
  | tail _ move ih => exact move.tripped ih

theorem Reaches.fits (reached : Reaches app s) (modest : app.Modest) :
    ∀ h ∈ s.world.fleet.live, ∀ d, s.world.fleet.device? h = some d →
      d.Fits s.world.watchdog.tripped s.world.mode :=
  fun h _ d found => (reached.safe modest).world.fits h d found

theorem Reaches.watched_off (reached : Reaches app s) (modest : app.Modest)
    (tripped : s.world.watchdog.tripped = true) :
    ∀ h ∈ s.world.fleet.live, ∀ d, s.world.fleet.device? h = some d → d.watched = true →
      d.isEnabled = false := by
  intro h live d found watched
  cases on : d.isEnabled with
  | false => rfl
  | true =>
      have armed := (reached.fits modest h live d found on).1 watched
      exact absurd (tripped.symm.trans armed) Bool.noConfusion

/-- Device safety: in every state that a robot reaches, a live registered device that is on is not
held back by the watchdog or by the mode.  From a trip on, watched devices are off in every state
up to the feed of the enabled robot, which alone clears the trip. -/
theorem devices_guarded (modest : app.Modest) (reached : Reaches app s) :
    (∀ h ∈ s.world.fleet.live, ∀ d, s.world.fleet.device? h = some d → d.isEnabled = true →
      (d.watched = true → s.world.watchdog.tripped = false) ∧
        (d.followsMode = true → s.world.mode = .enabled)) ∧
    (s.world.watchdog.tripped = true → ∀ s', Relation.ReflTransGen (Unfed app) s s' →
      s'.world.watchdog.tripped = true ∧
        ∀ h ∈ s'.world.fleet.live, ∀ d, s'.world.fleet.device? h = some d →
          d.watched = true → d.isEnabled = false) := by
  refine ⟨reached.fits modest, fun tripped s' unfed => ?_⟩
  have still := tripped_of_unfed unfed tripped
  exact ⟨still, (reached.unfed unfed).watched_off modest still⟩

end Session

def App.silent : App Empty Unit where
  hook _ := .skip
  job j := nomatch j
  callback _ _ := .skip
  actionName _ a := a.label
  needs own _ := (own, .ok [])
  wantsMore _ _ := false
  poll _ own _ := (own, .ok false)
  isAlive _ _ _ := true
  watching _ _ := none

theorem App.silent_modest : App.silent.Modest where
  hook _ := trivial
  job j := nomatch j
  callback _ _ := trivial

namespace Session

/-- A relay that follows the mode under the watchdog, as it has been switched so far. -/
def relay (on : Bool) (begins enables disables : Nat) : Device :=
  .relay ⟨"arm", true, true, none, on, begins, enables, disables⟩

def bench : Session Empty Unit :=
  let fresh : Session Empty Unit := ofWorld (.ofProfile {} ⟨.nothing, []⟩) ()
  { fresh with
    world :=
      { fresh.world with fleet := (fresh.world.fleet.add ⟨1⟩ (relay false 0 0 0)).1 } }

def bench.after : List (Robot.Code Empty Unit) → Session Empty Unit
  | [] => bench
  | c :: earlier => carry .silent 40 (bench.after earlier) c

def driving : Session Empty Unit :=
  bench.after
    [Robot.setEnabled true, Robot.start, .act (.act (.register ⟨0⟩)) fun _ => .skip]

/-- A second later the watchdog has tripped, and the robot is disabled. -/
def silenced : Session Empty Unit :=
  let late := carry .silent 40 driving (Robot.doing (.advance 1000000000) .skip)
  carry .silent 40 { late with world := late.world.check } (Robot.setEnabled false)

def fed : Session Empty Unit :=
  Machine.step (Robot.host .silent)
    { silenced with agenda := .run (.act (.act .feed) fun _ => .skip) :: silenced.agenda }

theorem reaches_driving : Reaches .silent driving := by
  have made : Reaches .silent bench :=
    ⟨{}, ⟨.nothing, []⟩, (), .single (.make _ ⟨1⟩ (relay false 0 0 0)
      fun on => absurd on Bool.false_ne_true)⟩
  have registered := made.carry (c := .act (.act (.register ⟨0⟩)) fun _ => .skip) rfl
    ⟨rfl, fun _ => trivial⟩ 40
  have started := registered.carry rfl Robot.modest_start 40
  exact started.carry rfl (Robot.modest_setEnabled true) 40

theorem reaches_silenced : Reaches .silent silenced := by
  have late := reaches_driving.carry (c := Robot.doing (.advance 1000000000) .skip) rfl
    (Robot.modest_doing Robot.modest_skip) 40
  exact (late.move (.check _)).carry rfl (Robot.modest_setEnabled false) 40

theorem devices_guarded_relay :
    (driving.world.fleet.device? ⟨0⟩ = some (relay true 1 1 1) ∧
      driving.world.watchdog.tripped = false ∧ driving.world.mode = .enabled) ∧
    silenced.world.watchdog.tripped = true ∧ fed.world.watchdog.tripped = true ∧
      ∃ d, fed.world.fleet.device? ⟨0⟩ = some d ∧ d.watched = true ∧ d.isEnabled = false := by
  have on : driving.world.fleet.device? ⟨0⟩ = some (relay true 1 1 1) := rfl
  have guards := (devices_guarded App.silent_modest reaches_driving).1 ⟨0⟩ (by decide) _ on rfl
  have tripped : silenced.world.watchdog.tripped = true := by decide
  have modest : Robot.Modest (.act (.act .feed) fun _ => .skip : Robot.Code Empty Unit) :=
    ⟨rfl, fun _ => trivial⟩
  have unfed : Relation.ReflTransGen (Unfed .silent) silenced fed := by
    refine .tail (.single ⟨.call silenced _ modest, fun feeds => ?_⟩) ⟨.step _, fun feeds => ?_⟩
    · exact absurd feeds.1 (by decide)
    · exact absurd feeds.1 (by decide)
  have still := (devices_guarded App.silent_modest reaches_silenced).2 tripped fed unfed
  have off := still.2 ⟨0⟩ (by decide) (relay false 1 1 2) rfl rfl
  exact ⟨⟨on, guards.1 rfl, guards.2 rfl⟩, tripped, still.1, _, rfl, rfl, off⟩

end Session

end RobotControl
