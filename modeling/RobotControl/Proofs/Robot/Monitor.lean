import RobotControl.Proofs.Device.Timing
import RobotControl.Proofs.Robot.Safety

/-!
# The monitor of a robot

A started robot has a monitor that looks at the watchdog as long as no stop is requested.  While it
keeps up with the clock, a robot that nobody feeds is silenced in time
(`Session.starving_silenced`).  A request to stop ends the monitor and nothing else: the robot
stays started and can be enabled, and an armed watchdog never trips again.
-/
set_option autoImplicit false

namespace RobotControl

variable {ι σ : Type}

namespace Fleet

/-! ### The clock -/

theorem now_change (f : Fleet) (h : Handle) (op : Device → Device × List Line) :
    (f.change h op).now = f.now := by
  unfold change
  split <;> rfl

theorem now_each {op : Fleet → Handle → Fleet} (same : ∀ f h, (op f h).now = f.now)
    (hs : List Handle) (f : Fleet) : (f.each hs op).now = f.now := by
  induction hs generalizing f with
  | nil => rfl
  | cons h rest ih => exact (ih (op f h)).trans (same f h)

theorem now_keep (f : Fleet) (h : Handle) (change : Slot → Slot) :
    (f.keep h change).now = f.now := by
  unfold keep settle
  split
  · rfl
  · split <;> rfl

theorem now_start (f : Fleet) (h : Handle) : (f.start h).1.now = f.now := by
  unfold start
  split
  · rfl
  · exact now_change ..

theorem now_begin (f : Fleet) (h : Handle) : (f.begin h).now = f.now := by
  unfold begin
  split
  · rfl
  · dsimp only
    split <;> exact now_start ..

theorem now_register (f : Fleet) (h : Handle) : (f.register h).now = f.now := by
  unfold register
  split
  · rfl
  · split
    · rfl
    · dsimp only
      split
      · exact now_begin ..
      · rfl

theorem now_accept (f : Fleet) (i : FleetInput) : (f.accept i).1.now = f.now := by
  cases i with
  | start h => exact now_start ..
  | drop h => exact now_keep ..
  | report controller axes buttons dpads age => rfl
  | forget controller => rfl
  | _ => exact now_change ..

theorem now_disableAll (f : Fleet) : f.disableAll.now = f.now :=
  now_each (fun _ _ => now_change ..) _ f

theorem now_when {op : Fleet → Handle → Fleet} (same : ∀ f h, (op f h).now = f.now)
    (test : Device → Bool) (f : Fleet) (h : Handle) :
    (match f.device? h with
      | some d => if test d then op f h else f
      | none => f).now = f.now := by
  split
  · split
    · exact same f h
    · rfl
  · rfl

theorem now_enableMatching (f : Fleet) : f.enableMatching.now = f.now :=
  now_each (now_when (fun _ _ => now_change ..) fun d => d.followsMode && !d.isEnabled) _ f

theorem now_disableMatching (f : Fleet) : f.disableMatching.now = f.now :=
  now_each (now_when (fun _ _ => now_change ..) fun d => d.followsMode && d.isEnabled) _ f

theorem now_disableWatched (f : Fleet) : f.disableWatched.now = f.now :=
  now_each (now_when (fun _ _ => now_change ..) Device.watched) _ f

theorem now_enableWatched (f : Fleet) (robotEnabled : Bool) :
    (f.enableWatched robotEnabled).now = f.now :=
  now_each (now_when (fun _ _ => now_change ..)
    fun d => d.watched && (!d.followsMode || robotEnabled)) _ f

end Fleet

namespace Watchdog

theorem now_check (w : Watchdog) (f : Fleet) : (w.check f).2.now = f.now := by
  unfold check
  split
  · rfl
  · exact Fleet.now_disableWatched _

theorem now_feed (w : Watchdog) (f : Fleet) (robotEnabled : Bool) :
    (w.feed f robotEnabled).2.now = f.now := by
  unfold feed
  dsimp only
  split
  · exact Fleet.now_enableWatched ..
  · rfl

end Watchdog

/-! ### What the monitor depends on -/

/-- What the guard of a robot hangs on is the same in both worlds. -/
structure World.SameGuard (w w' : World ι) : Prop where
  profile : w'.profile = w.profile
  lifecycle : w'.lifecycle = w.lifecycle
  watchdog : w'.watchdog = w.watchdog
  stop : w'.stop = w.stop
  nextLook : w'.nextLook = w.nextLook
  now : w'.now = w.now

/-- What is done here feeds the watchdog, looks at it, ends its monitor or lets time pass. -/
def Effect.stirs : Effect ι → Bool
  | .act .feed => true
  | .act .requestStop => true
  | .duty .powerUp => true
  | .duty .retireUnstarted => true
  | .duty .halt => true
  | .duty (.advance _) => true
  | .duty .look => true
  | _ => false

namespace Robot

variable {app : App ι σ} {w : World ι}

theorem sameGuard_applyMode (w : World ι) : w.SameGuard w.applyMode := by
  unfold World.applyMode
  split
  · refine ⟨rfl, rfl, rfl, rfl, rfl, ?_⟩
    show (Watchdog.whileArmed _ _ _).now = w.fleet.now
    unfold Watchdog.whileArmed
    split
    · rfl
    · exact Fleet.now_enableMatching _
  · exact ⟨rfl, rfl, rfl, rfl, rfl, Fleet.now_disableMatching _⟩

theorem sameGuard_attend (d : Duty) (quiet : (Effect.duty d : Effect ι).stirs = false) :
    w.SameGuard (attend app w d).1 := by
  cases d with
  | switchTo m =>
      obtain ⟨profile, lifecycle, watchdog, stop, nextLook, now⟩ :=
        sameGuard_applyMode (({ w with mode := m } : World ι).publishMode m)
      exact ⟨profile, lifecycle, watchdog, stop, nextLook, now⟩
  | applyMode => exact sameGuard_applyMode w
  | wrapUp => exact ⟨rfl, rfl, rfl, rfl, rfl, Fleet.now_disableAll _⟩
  | settle =>
      show w.SameGuard (settle app w).1
      unfold settle
      dsimp only
      split
      · exact ⟨rfl, rfl, rfl, rfl, rfl, rfl⟩
      · split
        · split <;> exact ⟨rfl, rfl, rfl, rfl, rfl, rfl⟩
        · exact ⟨rfl, rfl, rfl, rfl, rfl, rfl⟩
  | jobEnded j failed => cases failed <;> exact ⟨rfl, rfl, rfl, rfl, rfl, rfl⟩
  | powerUp => cases quiet
  | retireUnstarted => cases quiet
  | halt => cases quiet
  | advance time => cases quiet
  | look => cases quiet
  | _ => exact ⟨rfl, rfl, rfl, rfl, rfl, rfl⟩

theorem sameGuard_carryOut (a : Act ι) (quiet : (Effect.act a).stirs = false) :
    w.SameGuard (carryOut w a : World ι × Code ι σ).1 := by
  cases a with
  | device i => exact ⟨rfl, rfl, rfl, rfl, rfl, Fleet.now_accept ..⟩
  | register h => exact ⟨rfl, rfl, rfl, rfl, rfl, Fleet.now_register ..⟩
  | gamepad controller id => exact ⟨rfl, rfl, rfl, rfl, rfl, Fleet.now_register ..⟩
  | watch h => exact ⟨rfl, rfl, rfl, rfl, rfl, Fleet.now_keep ..⟩
  | feed => cases quiet
  | requestStop => cases quiet
  | _ => exact ⟨rfl, rfl, rfl, rfl, rfl, rfl⟩

theorem sameGuard_perform (app : App ι σ) (e : Effect ι) (quiet : e.stirs = false) :
    w.SameGuard (perform app w e).1 := by
  cases e with
  | act a => exact sameGuard_carryOut a quiet
  | duty d => exact sameGuard_attend d quiet

theorem sameGuard_forget (own : σ) (trigger : TriggerId) :
    w.SameGuard (forget app own trigger w) := by
  unfold forget
  split
  · exact ⟨rfl, rfl, rfl, rfl, rfl, Fleet.now_keep ..⟩
  · exact ⟨rfl, rfl, rfl, rfl, rfl, rfl⟩

theorem host_keeps_guard {W : World ι → Prop}
    (same : ∀ w w' : World ι, w.SameGuard w' → W w → W w') :
    (host app).Keeps (fun _ => True) (fun _ => True) W where
  routine _ _ := Routine.uses_all _
  answer _ _ _ _ _ := Routine.uses_all _
  log _ w kept := same w _ ⟨rfl, rfl, rfl, rfl, rfl, rfl⟩ kept
  forget own trigger w kept := same w _ (sameGuard_forget own trigger) kept

end Robot

/-! ### The monitor keeps up -/

/-- A started robot has a monitor unless a stop was requested, and the next look of the monitor
comes in time for the last feed, or finds the watchdog tripped already. -/
structure World.Monitored (w : World ι) : Prop where
  timeout : w.watchdog.timeout = w.profile.watchdogTimeout
  fed : w.watchdog.lastFeed ≤ w.now
  attended : w.lifecycle = .started → w.stop.triggered = false → w.nextLook ≠ none
  soon : ∀ due, w.nextLook = some due → due ≤ w.now + w.profile.pollInterval
  timely : ∀ due, w.nextLook = some due → w.watchdog.tripped = false →
    due ≤ w.watchdog.lastFeed + w.profile.watchdogTimeout + w.profile.pollInterval

namespace World

variable {w w' : World ι}

theorem Monitored.of_same (same : w.SameGuard w') (monitored : w.Monitored) : w'.Monitored := by
  obtain ⟨profile, lifecycle, watchdog, stop, nextLook, now⟩ := same
  obtain ⟨timeout, fed, attended, soon, timely⟩ := monitored
  rw [← profile, ← watchdog] at timeout
  rw [← watchdog, ← now] at fed
  rw [← lifecycle, ← stop, ← nextLook] at attended
  rw [← nextLook, ← now, ← profile] at soon
  rw [← nextLook, ← watchdog, ← profile] at timely
  exact ⟨timeout, fed, attended, soon, timely⟩

theorem monitored_ofProfile (p : Profile) (sink : Sink) :
    (ofProfile p sink : World ι).Monitored where
  timeout := rfl
  fed := Nat.le_refl 0
  attended started := by cases started
  soon _ none := by cases none
  timely _ none := by cases none

theorem Monitored.feed (monitored : w.Monitored) : w.feed.Monitored := by
  obtain ⟨timeout, lastFeed⟩ := w.watchdog.keeps_feed w.fleet w.mode.isEnabled
  have now : w.feed.now = w.now := w.watchdog.now_feed w.fleet _
  have fedNow : w.feed.watchdog.lastFeed = w.now := lastFeed
  refine ⟨timeout.trans monitored.timeout, ?_, monitored.attended, fun due next => ?_,
    fun due next _ => ?_⟩
  · exact Nat.le_of_eq (fedNow.trans now.symm)
  · rw [now]
    exact monitored.soon due next
  · have soon := monitored.soon due next
    rw [fedNow]
    show due ≤ w.now + w.profile.watchdogTimeout + w.profile.pollInterval
    omega

theorem Monitored.check (monitored : w.Monitored) : w.check.Monitored := by
  obtain ⟨timeout, lastFeed⟩ := w.watchdog.keeps_check w.fleet
  have now : w.check.now = w.now := w.watchdog.now_check w.fleet
  have fedThen : w.check.watchdog.lastFeed = w.watchdog.lastFeed := lastFeed
  refine ⟨timeout.trans monitored.timeout, ?_, monitored.attended, fun due next => ?_,
    fun due next armed => ?_⟩
  · rw [now, fedThen]
    exact monitored.fed
  · rw [now]
    exact monitored.soon due next
  · rw [fedThen]
    refine monitored.timely due next ?_
    by_contra tripped
    have still := w.watchdog.tripped_check w.fleet (by simpa using tripped)
    exact absurd (still.symm.trans armed) Bool.noConfusion

/-- A look that is due trips a starved watchdog or finds the last feed recent enough. -/
theorem Monitored.look (monitored : w.Monitored) : w.look.Monitored := by
  have checked := monitored.check
  unfold World.look
  split
  · exact monitored
  · split
    · next stopped =>
        have ended : w.stop.triggered ≠ false := by simp [stopped]
        exact ⟨monitored.timeout, monitored.fed, fun _ running => absurd running ended, nofun,
          nofun⟩
    · split
      · exact monitored
      · have now : w.check.now = w.now := w.watchdog.now_check w.fleet
        refine ⟨checked.timeout, checked.fed, fun _ _ => Option.some_ne_none _, fun due next => ?_,
          fun due next armed => ?_⟩
        · cases next
          exact Nat.le_of_eq (congrArg (· + w.profile.pollInterval) now.symm)
        · cases next
          have recent : w.watchdog.age w.now ≤ w.watchdog.timeout := by
            by_contra stale
            have tripped := w.watchdog.tripped_check_of_lt w.fleet (Nat.not_le.mp stale)
            exact absurd (tripped.symm.trans armed) Bool.noConfusion
          have fedThen : w.check.watchdog.lastFeed = w.watchdog.lastFeed :=
            (w.watchdog.keeps_check w.fleet).2
          have fed := monitored.fed
          unfold Watchdog.age at recent
          rw [monitored.timeout] at recent
          show w.now + w.profile.pollInterval ≤ w.check.watchdog.lastFeed +
            w.profile.watchdogTimeout + w.profile.pollInterval
          rw [fedThen]
          omega

theorem Monitored.powerUp (monitored : w.Monitored) : w.powerUp.Monitored := by
  obtain ⟨timeout, lastFeed⟩ := w.watchdog.keeps_feed w.fleet.startRoster false
  have now : w.powerUp.now = w.fleet.startRoster.now :=
    w.watchdog.now_feed w.fleet.startRoster false
  have fedNow : w.powerUp.watchdog.lastFeed = w.fleet.startRoster.now := lastFeed
  have next : w.powerUp.nextLook = some (w.fleet.startRoster.now + w.profile.pollInterval) := rfl
  refine ⟨timeout.trans monitored.timeout, ?_, fun _ _ => Option.some_ne_none _,
    fun due looks => ?_, fun due looks _ => ?_⟩
  · exact Nat.le_of_eq (fedNow.trans now.symm)
  · cases looks
    exact Nat.le_of_eq (congrArg (· + w.profile.pollInterval) now.symm)
  · cases looks
    rw [fedNow]
    show w.fleet.startRoster.now + w.profile.pollInterval ≤
      w.fleet.startRoster.now + w.profile.watchdogTimeout + w.profile.pollInterval
    omega

theorem Monitored.advance (monitored : w.Monitored) (time : Nat) : (w.advance time).Monitored := by
  have later : (w.advance time).now = w.now + time := rfl
  refine ⟨monitored.timeout, ?_, monitored.attended, fun due next => ?_, monitored.timely⟩
  · exact Nat.le_trans monitored.fed (Nat.le_add_right _ _)
  · have soon := monitored.soon due next
    rw [later]
    show due ≤ w.now + time + w.profile.pollInterval
    omega

theorem Monitored.perform {app : App ι σ} (monitored : w.Monitored) (e : Effect ι) :
    (Robot.perform app w e).1.Monitored := by
  cases stirs : e.stirs with
  | false => exact monitored.of_same (Robot.sameGuard_perform app e stirs)
  | true =>
      cases e with
      | act a =>
          cases a with
          | feed => exact monitored.feed
          | requestStop =>
              exact ⟨monitored.timeout, monitored.fed,
                fun _ running => absurd running Bool.noConfusion, monitored.soon, monitored.timely⟩
          | _ => cases stirs
      | duty d =>
          cases d with
          | powerUp => exact monitored.powerUp
          | retireUnstarted =>
              exact ⟨monitored.timeout, monitored.fed, nofun, monitored.soon, monitored.timely⟩
          | halt =>
              exact ⟨monitored.timeout, monitored.fed, nofun, nofun, nofun⟩
          | advance time => exact monitored.advance time
          | look => exact monitored.look
          | _ => cases stirs

end World

/-! ### Starving robots -/

namespace Session

variable {app : App ι σ} {s s' : Session ι σ}

/-- The watchdog is fed next, by whoever hears from the operator or by a start. -/
def feedsNext (s : Session ι σ) : Bool :=
  match s.agenda with
  | .run (.act (.act .feed) _) :: _ => true
  | .run (.act (.duty .powerUp) _) :: _ => true
  | _ => false

/-- Everything that can happen but a feed. -/
def Starves (app : App ι σ) (s s' : Session ι σ) : Prop :=
  Moves app s s' ∧ (s.feedsNext = true → s' ≠ Machine.step (Robot.host app) s)

theorem Moves.monitored (moves : Moves app s s') (monitored : s.world.Monitored) :
    s'.world.Monitored := by
  cases moves with
  | step =>
      exact Machine.world_step (Robot.host_keeps_guard fun _ _ => World.Monitored.of_same) monitored
        fun e _ _ _ => monitored.perform e
  | call c modest => exact monitored
  | make id d idle =>
      exact World.Monitored.of_same (w := s.world) ⟨rfl, rfl, rfl, rfl, rfl, rfl⟩ monitored
  | check => exact monitored.check
  | drift own => exact monitored

theorem Reaches.monitored (reached : Reaches app s) : s.world.Monitored := by
  obtain ⟨p, sink, own, path⟩ := reached
  induction path with
  | refl => exact World.monitored_ofProfile p sink
  | tail _ moves ih => exact moves.monitored ih

def SameFeed (w w' : World ι) : Prop :=
  w'.watchdog.lastFeed = w.watchdog.lastFeed ∧ w'.profile = w.profile

theorem SameFeed.refl (w : World ι) : SameFeed w w := ⟨rfl, rfl⟩

theorem SameFeed.trans {w₁ w₂ w₃ : World ι} (earlier : SameFeed w₁ w₂) (later : SameFeed w₂ w₃) :
    SameFeed w₁ w₃ := ⟨later.1.trans earlier.1, later.2.trans earlier.2⟩

theorem SameFeed.of_same {w w' : World ι} (same : w.SameGuard w') : SameFeed w w' :=
  ⟨congrArg Watchdog.lastFeed same.watchdog, same.profile⟩

theorem sameFeed_perform (w : World ι) (e : Effect ι) (fed : e ≠ .act .feed)
    (powered : e ≠ .duty .powerUp) : SameFeed w (Robot.perform app w e).1 := by
  cases stirs : e.stirs with
  | false => exact .of_same (Robot.sameGuard_perform app e stirs)
  | true =>
      cases e with
      | act a =>
          cases a with
          | feed => exact absurd rfl fed
          | requestStop => exact ⟨rfl, rfl⟩
          | _ => cases stirs
      | duty d =>
          cases d with
          | powerUp => exact absurd rfl powered
          | look =>
              show SameFeed w w.look
              unfold World.look
              split
              · exact ⟨rfl, rfl⟩
              · split
                · exact ⟨rfl, rfl⟩
                · split
                  · exact ⟨rfl, rfl⟩
                  · exact ⟨(w.watchdog.keeps_check w.fleet).2, rfl⟩
          | retireUnstarted => exact ⟨rfl, rfl⟩
          | halt => exact ⟨rfl, rfl⟩
          | advance time => exact ⟨rfl, rfl⟩
          | _ => cases stirs

theorem Starves.sameFeed (starves : Starves app s s') : SameFeed s.world s'.world := by
  obtain ⟨moves, unfed⟩ := starves
  cases moves with
  | step =>
      refine Machine.world_step
        (Robot.host_keeps_guard fun _ _ same fed => fed.trans (.of_same same))
        (SameFeed.refl s.world) fun e next rest front => ?_
      refine sameFeed_perform s.world e (fun feeds => unfed ?_ rfl) fun powers => unfed ?_ rfl
      · simp [feedsNext, front, feeds]
      · simp [feedsNext, front, powers]
  | call c modest => exact ⟨rfl, rfl⟩
  | make id d idle => exact ⟨rfl, rfl⟩
  | check => exact ⟨(s.world.watchdog.keeps_check s.world.fleet).2, rfl⟩
  | drift own => exact ⟨rfl, rfl⟩

theorem sameFeed_of_starves (path : Relation.ReflTransGen (Starves app) s s') :
    SameFeed s.world s'.world := by
  induction path with
  | refl => exact .refl s.world
  | tail _ starves ih => exact ih.trans starves.sameFeed

theorem Reaches.starves (reached : Reaches app s)
    (path : Relation.ReflTransGen (Starves app) s s') : Reaches app s' := by
  induction path with
  | refl => exact reached
  | tail _ starves ih => exact ih.move starves.1

/-- No look of the monitor is overdue. -/
def KeptUp (w : World ι) : Prop := ∀ due, w.nextLook = some due → w.now < due

/-! ### After a stop was requested -/

/-- Everything that can happen but a check of the watchdog from outside, whatever the application
does with its devices. -/
inductive Freely (app : App ι σ) : Session ι σ → Session ι σ → Prop
  | step (s : Session ι σ) : Freely app s (Machine.step (Robot.host app) s)
  | call (s : Session ι σ) (c : Robot.Code ι σ) :
      Freely app s { s with agenda := .run c :: s.agenda }
  | make (s : Session ι σ) (id : DeviceId) (d : Device) (fresh : d.Fresh) :
      Freely app s { s with world := { s.world with fleet := (s.world.fleet.add id d).1 } }
  | drift (s : Session ι σ) (own : σ) : Freely app s { s with own := own }

/-- A stop was requested of a robot whose watchdog is armed. -/
def StoppedArmed (w : World ι) : Prop :=
  w.stop.triggered = true ∧ w.watchdog.tripped = false

theorem StoppedArmed.of_same {w w' : World ι} (same : w.SameGuard w') (armed : StoppedArmed w) :
    StoppedArmed w' :=
  ⟨(congrArg StopSignal.triggered same.stop).trans armed.1,
    (congrArg Watchdog.tripped same.watchdog).trans armed.2⟩

theorem StoppedArmed.perform {w : World ι} (armed : StoppedArmed w) (e : Effect ι) :
    StoppedArmed (Robot.perform app w e).1 := by
  obtain ⟨stopped, untripped⟩ := armed
  have fed : ∀ f robotEnabled, (w.watchdog.feed f robotEnabled).1.tripped = false :=
    fun f robotEnabled => by rw [Watchdog.tripped_feed, untripped]; rfl
  cases stirs : e.stirs with
  | false => exact .of_same (Robot.sameGuard_perform app e stirs) ⟨stopped, untripped⟩
  | true =>
      cases e with
      | act a =>
          cases a with
          | feed => exact ⟨stopped, fed _ _⟩
          | requestStop => exact ⟨rfl, untripped⟩
          | _ => cases stirs
      | duty d =>
          cases d with
          | powerUp => exact ⟨stopped, fed _ _⟩
          | look =>
              show StoppedArmed w.look
              unfold World.look
              split
              · exact ⟨stopped, untripped⟩
              · rw [if_pos stopped]
                exact ⟨stopped, untripped⟩
          | retireUnstarted => exact ⟨rfl, untripped⟩
          | halt => exact ⟨rfl, untripped⟩
          | advance time => exact ⟨stopped, untripped⟩
          | _ => cases stirs

theorem Freely.stoppedArmed (moves : Freely app s s') (armed : StoppedArmed s.world) :
    StoppedArmed s'.world := by
  cases moves with
  | step =>
      exact Machine.world_step (Robot.host_keeps_guard fun _ _ => StoppedArmed.of_same) armed
        fun e _ _ _ => armed.perform e
  | call c => exact armed
  | make id d fresh => exact armed
  | drift own => exact armed

/-- The guard of a started robot.  As long as no stop is requested and the monitor keeps up, a robot
that nobody feeds for longer than timeout and poll interval is tripped, and every watched device
that takes part is off.  Once a stop is requested, nothing that the robot does trips an armed
watchdog any more, however long nobody feeds it. -/
theorem starving_silenced (modest : app.Modest) (reached : Reaches app s) :
    (∀ s', Relation.ReflTransGen (Starves app) s s' → s'.world.lifecycle = .started →
      s'.world.stop.triggered = false → KeptUp s'.world →
        s.world.now + s.world.profile.watchdogTimeout + s.world.profile.pollInterval <
          s'.world.now →
            s'.world.watchdog.tripped = true ∧ s'.world.fleet.WatchedOff) ∧
    (s.world.stop.triggered = true → s.world.watchdog.tripped = false →
      ∀ s', Relation.ReflTransGen (Freely app) s s' →
        s'.world.stop.triggered = true ∧ s'.world.watchdog.tripped = false) := by
  refine ⟨fun s' path started running kept long => ?_, fun stopped armed s' path => ?_⟩
  · have there := reached.starves path
    have monitored := there.monitored
    obtain ⟨sameFeed, profile⟩ := sameFeed_of_starves path
    have tripped : s'.world.watchdog.tripped = true := by
      by_contra armed
      obtain ⟨due, next⟩ := Option.ne_none_iff_exists'.mp (monitored.attended started running)
      have timely := monitored.timely due next (by simpa using armed)
      have fed := reached.monitored.fed
      have future := kept due next
      rw [sameFeed, profile] at timely
      omega
    exact ⟨tripped, there.watched_off modest tripped⟩
  · show StoppedArmed s'.world
    induction path with
    | refl => exact ⟨stopped, armed⟩
    | tail _ moves ih => exact moves.stoppedArmed ih

theorem starves_work (n : Nat)
    (unfed : ∀ k < n, feedsNext (Machine.steps (Robot.host app) k s) = false) :
    Relation.ReflTransGen (Starves app) s (Machine.work (Robot.host app) n s) := by
  induction n generalizing s with
  | zero => exact .refl
  | succ n ih =>
      unfold Machine.work
      split
      · exact .refl
      · have quiet : s.feedsNext = false := unfed 0 (Nat.succ_pos n)
        refine .head ⟨.step s, fun feeds => absurd (quiet.symm.trans feeds) Bool.noConfusion⟩ ?_
        exact ih fun k less => unfed (k + 1) (Nat.succ_lt_succ less)

theorem starves_carry (idle : s.agenda = []) {c : Robot.Code ι σ} (modest : Robot.Modest c)
    (n : Nat)
    (unfed : ∀ k < n,
      feedsNext (Machine.steps (Robot.host app) k { s with agenda := [.run c] }) = false) :
    Relation.ReflTransGen (Starves app) s (carry app n s c) := by
  have quiet : s.feedsNext = false := by simp [feedsNext, idle]
  have called : Starves app s { s with agenda := .run c :: s.agenda } :=
    ⟨.call s c modest, fun feeds => absurd (quiet.symm.trans feeds) Bool.noConfusion⟩
  rw [idle] at called
  exact .head called (starves_work n unfed)

/-- A second passes without a feed, then the monitor looks. -/
def bench.wait (s : Session Empty Unit) : Session Empty Unit :=
  carry .silent 4 (carry .silent 4 s (Robot.doing (.advance 1000000000) .skip))
    (Robot.doing .look .skip)

/-- A robot that was enabled after a stop had been requested of it. -/
def stopping : Session Empty Unit :=
  bench.after
    [Robot.setEnabled true, .act (.act .requestStop) fun _ => .skip, Robot.start,
      .act (.act (.register ⟨0⟩)) fun _ => .skip]

theorem starves_wait {s : Session Empty Unit} (idle : s.agenda = [])
    (passing : ∀ k < 4, feedsNext (Machine.steps (Robot.host .silent) k
      { s with agenda := [.run (Robot.doing (.advance 1000000000) .skip)] }) = false)
    (done : (carry .silent 4 s (Robot.doing (.advance 1000000000) .skip)).agenda = [])
    (looking : ∀ k < 4, feedsNext (Machine.steps (Robot.host .silent) k
      { carry .silent 4 s (Robot.doing (.advance 1000000000) .skip) with
        agenda := [.run (Robot.doing .look .skip)] }) = false) :
    Relation.ReflTransGen (Starves .silent) s (bench.wait s) :=
  (starves_carry idle (Robot.modest_doing Robot.modest_skip) 4 passing).trans
    (starves_carry done (Robot.modest_doing Robot.modest_skip) 4 looking)

theorem reaches_stopping : Reaches .silent stopping := by
  have made : Reaches .silent bench :=
    ⟨{}, ⟨.nothing, []⟩, (), .single (.make _ ⟨1⟩ (relay false 0 0 0)
      fun on => absurd on Bool.false_ne_true)⟩
  have registered := made.carry (c := .act (.act (.register ⟨0⟩)) fun _ => .skip) rfl
    ⟨rfl, fun _ => trivial⟩ 40
  have started := registered.carry rfl Robot.modest_start 40
  have requested := started.carry (c := .act (.act .requestStop) fun _ => .skip) rfl
    ⟨rfl, fun _ => trivial⟩ 40
  exact requested.carry rfl (Robot.modest_setEnabled true) 40

theorem starving_silenced_driving :
    ((bench.wait driving).world.watchdog.tripped = true ∧
      (bench.wait driving).world.fleet.WatchedOff ∧
      (bench.wait driving).world.fleet.device? ⟨0⟩ = some (relay false 1 1 2)) ∧
    ∀ s', Relation.ReflTransGen (Freely .silent) stopping s' →
      s'.world.watchdog.tripped = false := by
  have path := starves_wait (s := driving) rfl (by decide) rfl (by decide)
  have silenced := (starving_silenced App.silent_modest reaches_driving).1 _ path (by decide)
    (by decide) (fun due next => by cases next; decide) (by decide)
  have ended := (starving_silenced App.silent_modest reaches_stopping).2 (by decide) (by decide)
  exact ⟨⟨silenced.1, silenced.2, rfl⟩, fun s' path => (ended s' path).2⟩

/-- Enabled after a stop was requested, the robot is started, its monitor is not behind, and yet the
relay is on when nobody has fed the watchdog for longer than timeout and poll interval. -/
theorem unguarded_after_stop :
    Reaches .silent stopping ∧
      Relation.ReflTransGen (Starves .silent) stopping (bench.wait stopping) ∧
      (bench.wait stopping).world.lifecycle = .started ∧ KeptUp (bench.wait stopping).world ∧
      stopping.world.now + stopping.world.profile.watchdogTimeout +
        stopping.world.profile.pollInterval < (bench.wait stopping).world.now ∧
      ⟨0⟩ ∈ (bench.wait stopping).world.fleet.live ∧
      (bench.wait stopping).world.fleet.device? ⟨0⟩ = some (relay true 1 1 1) ∧
      (relay true 1 1 1).watched = true ∧ (relay true 1 1 1).isEnabled = true := by
  have path := starves_wait (s := stopping) rfl (by decide) rfl (by decide)
  exact ⟨reaches_stopping, path, by decide, nofun, by decide, by decide, rfl, rfl, rfl⟩

end Session

end RobotControl
