import RobotControl.Device.Watchdog
import RobotControl.Proofs.Device.Guard
import RobotControl.Proofs.Device.Lasting

/-!
# The watchdog over time

A history lists what happened to a watchdog and its fleet, the latest event first, each with its
instant: feeds and checks, and in between everything that an application does with its devices,
switching them on included.  The trip and the instant of the last feed are read off the history
(`Watchdog.tripped_iff`), and checks at most so far apart find a starving robot in time
(`Watchdog.timing`).
-/
set_option autoImplicit false

namespace RobotControl

theorem Device.lasting_sound : Device.Lasting Device.Sound where
  fresh d fresh := by
    cases d with
    | motor m =>
        intro enabled
        rw [show m.controller = {} from fresh] at enabled
        cases enabled
    | gamepad g => trivial
    | relay r => trivial
  start d := d.calmer_start.sound
  enable _ := Device.sound_enable
  disable d := d.calmer_disable.sound
  drive i d := (d.calmer_drive i).sound

namespace Fleet

variable {f g : Fleet}

/-- Every watched device that takes part is off. -/
def WatchedOff (f : Fleet) : Prop :=
  ∀ h ∈ f.live, ∀ d, f.device? h = some d → d.watched = true → d.isEnabled = false

theorem WatchedOff.calmer (off : f.WatchedOff) (calmer : g.Calmer f)
    (same : g.roster.devices = f.roster.devices) : g.WatchedOff := by
  intro h live d' found watched
  obtain ⟨d, before, calm⟩ := calmer.device? h d' found
  have listed : h ∈ f.live := mem_live.mpr ⟨same ▸ (mem_live.mp live).1, d, before⟩
  have was := off h listed d before (calm.watched ▸ watched)
  cases on : d'.isEnabled with
  | false => rfl
  | true => exact absurd ((calm.isEnabled on).symm.trans was) Bool.noConfusion

theorem watchedOff_disableWatched (sound : f.Every Device.Sound) :
    f.disableWatched.WatchedOff := by
  intro h live d' found watched
  obtain ⟨d, n, before, rfl⟩ := (touches_disable.when Device.watched).device?_pass live found
  -- the first change switches the device off, those after it leave it so
  have later := Device.Calmer.iterate (calmer_disable_when Device.watched) n
  have first := calmer_disable_when Device.watched d
  have looked : d.watched = true := first.watched ▸ (later _).watched ▸ watched
  rw [if_pos looked] at first ⊢
  by_contra on
  have free := (Device.idle_disable (sound h d before)
    ((later d.disable.1).isEnabled (by simpa using on))).1
  rw [first.watched, looked] at free
  cases free

end Fleet

namespace Watchdog

/-! ### Histories -/

inductive Event where
  | feed (robotEnabled : Bool)
  | check
  | device (i : FleetInput)
  | register (h : Handle)
  /-- A new device. -/
  | make (id : DeviceId) (d : Device) (fresh : d.Fresh)

abbrev History := List (Nat × Event)

def happen (w : Watchdog) (f : Fleet) : Event → Watchdog × Fleet
  | .feed robotEnabled => w.feed f robotEnabled
  | .check => w.check f
  | .device i => (w, (f.accept i).1)
  | .register h => (w, f.register h)
  | .make id d _ => (w, (f.add id d).1)

/-- A watchdog armed at the start of the history, and its fleet, after all that happened. -/
def after (timeout start : Nat) (f : Fleet) : History → Watchdog × Fleet
  | [] => (.armed timeout start, f)
  | (t, e) :: earlier =>
      let s := after timeout start f earlier
      s.1.happen { s.2 with now := t } e

/-- The instant of the last feed, or of the start. -/
def fedAt (start : Nat) : History → Nat
  | [] => start
  | (t, .feed _) :: _ => t
  | _ :: earlier => fedAt start earlier

def checkedAt (start : Nat) : History → Nat
  | [] => start
  | (t, .check) :: _ => t
  | _ :: earlier => checkedAt start earlier

/-- Checks are at most so far apart from each other, and the first one from the start. -/
def Punctual (period start : Nat) : History → Prop
  | [] => True
  | (t, .check) :: earlier => t ≤ checkedAt start earlier + period ∧ Punctual period start earlier
  | _ :: earlier => Punctual period start earlier

def Chronological (start : Nat) (history : History) : Prop :=
  (history.map Prod.fst ++ [start]).Pairwise fun later earlier => earlier ≤ later

section

variable {timeout start : Nat} {f : Fleet} {history : History}

theorem keeps_check (w : Watchdog) (f : Fleet) :
    (w.check f).1.timeout = w.timeout ∧ (w.check f).1.lastFeed = w.lastFeed := by
  unfold check
  split <;> exact ⟨rfl, rfl⟩

theorem keeps_feed (w : Watchdog) (f : Fleet) (robotEnabled : Bool) :
    (w.feed f robotEnabled).1.timeout = w.timeout ∧
      (w.feed f robotEnabled).1.lastFeed = f.now := by
  unfold feed
  dsimp only
  split <;> exact ⟨rfl, rfl⟩

theorem timeout_after (timeout start : Nat) (f : Fleet) (history : History) :
    (after timeout start f history).1.timeout = timeout := by
  induction history with
  | nil => rfl
  | cons entry earlier ih =>
      obtain ⟨t, e⟩ := entry
      cases e with
      | feed robotEnabled => exact (keeps_feed ..).1.trans ih
      | check => exact (keeps_check ..).1.trans ih
      | _ => exact ih

theorem lastFeed_after (timeout start : Nat) (f : Fleet) (history : History) :
    (after timeout start f history).1.lastFeed = fedAt start history := by
  induction history with
  | nil => rfl
  | cons entry earlier ih =>
      obtain ⟨t, e⟩ := entry
      cases e with
      | feed robotEnabled => exact (keeps_feed ..).2
      | check => exact (keeps_check ..).2.trans ih
      | _ => exact ih

theorem tripped_check_iff (w : Watchdog) (f : Fleet) :
    (w.check f).1.tripped = true ↔ w.tripped = true ∨ w.timeout < w.age f.now := by
  unfold check
  split
  · next fresh => simp [Nat.not_lt.mpr fresh]
  · next stale => simp [Nat.not_le.mp stale]

/-- A check of a history that is due to trip the watchdog. -/
def Starved (timeout start t : Nat) (earlier : History) : Prop :=
  fedAt start earlier + timeout < t

theorem age_after (t : Nat) :
    (after timeout start f history).1.timeout < (after timeout start f history).1.age t ↔
      Starved timeout start t history := by
  unfold age Starved
  rw [timeout_after, lastFeed_after]
  omega

/-- A check found the watchdog starved, and no enabled robot was fed since. -/
def Trips (timeout start : Nat) (history : History) : Prop :=
  ∃ later t earlier, history = later ++ (t, .check) :: earlier ∧
    Starved timeout start t earlier ∧ ∀ t', (t', .feed true) ∉ later

theorem trips_cons (timeout start t : Nat) (e : Event) (earlier : History) :
    Trips timeout start ((t, e) :: earlier) ↔
      (e = .check ∧ Starved timeout start t earlier) ∨
        (e ≠ .feed true ∧ Trips timeout start earlier) := by
  constructor
  · rintro ⟨later, t', before, whole, starved, unfed⟩
    cases later with
    | nil =>
        cases whole
        exact .inl ⟨rfl, starved⟩
    | cons entry later =>
        obtain ⟨rfl, rfl⟩ := List.cons.inj whole
        refine .inr ⟨fun fed => unfed t (fed ▸ List.mem_cons_self ..), later, t', before, rfl,
          starved, fun t'' member => unfed t'' (List.mem_cons_of_mem _ member)⟩
  · rintro (⟨rfl, starved⟩ | ⟨other, later, t', before, rfl, starved, unfed⟩)
    · exact ⟨[], t, earlier, rfl, starved, fun _ none => by cases none⟩
    · refine ⟨(t, e) :: later, t', before, rfl, starved, fun t'' member => ?_⟩
      rcases List.mem_cons.mp member with same | member
      · exact other (Prod.mk.inj same).2.symm
      · exact unfed t'' member

theorem tripped_iff (timeout start : Nat) (f : Fleet) (history : History) :
    (after timeout start f history).1.tripped = true ↔ Trips timeout start history := by
  induction history with
  | nil => simp [after, armed, Trips]
  | cons entry earlier ih =>
      obtain ⟨t, e⟩ := entry
      rw [trips_cons, ← ih]
      cases e with
      | feed robotEnabled =>
          simp only [after, happen, tripped_feed, reduceCtorEq, false_and, false_or, ne_eq,
            Event.feed.injEq]
          cases robotEnabled <;> simp
      | check =>
          simp only [after, happen, tripped_check_iff, age_after]
          simp [or_comm]
      | _ => simp [after, happen]

theorem sound_after (sound : f.Every Device.Sound) (history : History) :
    (after timeout start f history).2.Every Device.Sound := by
  induction history with
  | nil => exact sound
  | cons entry earlier ih =>
      obtain ⟨t, e⟩ := entry
      have now := ih.of_slots (g := { (after timeout start f earlier).2 with now := t }) rfl
      cases e with
      | feed robotEnabled => exact now.feed Device.lasting_sound _ robotEnabled
      | check => exact now.check Device.lasting_sound _
      | device i => exact now.accept Device.lasting_sound i
      | register h => exact now.register Device.lasting_sound h
      | make id d fresh => exact now.add id (Device.lasting_sound.fresh d fresh)

/-- The watchdog has tripped and every watched device that takes part is off. -/
def Silent (s : Watchdog × Fleet) : Prop := s.1.tripped = true ∧ s.2.WatchedOff

theorem silent_check (w : Watchdog) {f : Fleet} (sound : f.Every Device.Sound)
    (stale : w.timeout < w.age f.now) : Silent (w.check f) := by
  refine ⟨w.tripped_check_of_lt f stale, ?_⟩
  have noted := fun lines => sound.of_slots (g := f.note lines) rfl
  unfold check
  rw [if_neg (Nat.not_le.mpr stale)]
  exact (Fleet.watchedOff_disableWatched (noted _)).calmer (Fleet.calmer_note _ _) rfl

/-! ### Punctual checks -/

theorem checkedAt_mem (start : Nat) (history : History) :
    checkedAt start history ∈ history.map Prod.fst ++ [start] := by
  induction history with
  | nil => exact List.mem_singleton_self start
  | cons entry earlier ih =>
      obtain ⟨t, e⟩ := entry
      cases e with
      | check => exact List.mem_cons_self ..
      | _ => exact List.mem_cons_of_mem _ ih

theorem Chronological.cons {t : Nat} {e : Event}
    (chronological : Chronological start ((t, e) :: history)) :
    checkedAt start history ≤ t ∧ Chronological start history := by
  obtain ⟨last, before⟩ := List.pairwise_cons.mp chronological
  exact ⟨last _ (checkedAt_mem start history), before⟩

theorem fedAt_append {later : History} (unfed : ∀ t robotEnabled, (t, .feed robotEnabled) ∉ later)
    (earlier : History) : fedAt start (later ++ earlier) = fedAt start earlier := by
  induction later with
  | nil => rfl
  | cons entry later ih =>
      obtain ⟨t, e⟩ := entry
      have before := ih fun t' b member => unfed t' b (List.mem_cons_of_mem _ member)
      cases e with
      | feed b => exact absurd (List.mem_cons_self ..) (unfed t b)
      | _ => exact before

/-- A check within the timeout and one period of the last feed found the watchdog starved. -/
def FoundInTime (timeout period start : Nat) (history : History) : Prop :=
  ∃ later t earlier, history = later ++ (t, .check) :: earlier ∧
    Starved timeout start t earlier ∧ t ≤ fedAt start history + timeout + period ∧
      ∀ t' robotEnabled, (t', .feed robotEnabled) ∉ later

theorem FoundInTime.cons {period t : Nat} {e : Event}
    (found : FoundInTime timeout period start history) (other : ∀ b, e ≠ .feed b) :
    FoundInTime timeout period start ((t, e) :: history) := by
  obtain ⟨later, t', earlier, rfl, starved, inTime, unfed⟩ := found
  have alone : ∀ t'' b, (t'', .feed b) ∉ [(t, e)] := fun _ b member =>
    other b (Prod.mk.inj (List.mem_singleton.mp member)).2.symm
  refine ⟨(t, e) :: later, t', earlier, rfl, starved, ?_, fun t'' b member => ?_⟩
  · rwa [← List.singleton_append, fedAt_append alone]
  rcases List.mem_cons.mp member with here | member
  · exact other b (Prod.mk.inj here).2.symm
  · exact unfed t'' b member

/-- The first check after the timeout has run out comes at most one period later. -/
theorem foundInTime {period : Nat} (chronological : Chronological start history)
    (punctual : Punctual period start history)
    (stale : fedAt start history + timeout < checkedAt start history) :
    FoundInTime timeout period start history := by
  induction history with
  | nil =>
      simp only [fedAt, checkedAt] at stale
      omega
  | cons entry earlier ih =>
      obtain ⟨t, e⟩ := entry
      obtain ⟨ordered, before⟩ := chronological.cons
      cases e with
      | feed robotEnabled =>
          simp only [fedAt, checkedAt] at stale
          omega
      | check =>
          obtain ⟨soon, punctual⟩ := punctual
          by_cases known : fedAt start earlier + timeout < checkedAt start earlier
          · exact (ih before punctual known).cons fun _ => Event.noConfusion
          · refine ⟨[], t, earlier, rfl, stale, ?_, fun _ _ none => by cases none⟩
            simp only [fedAt]
            omega
      | _ => exact (ih before punctual stale).cons fun _ => Event.noConfusion

/-- Watchdog timing, in both directions.  After any history the watchdog is tripped exactly if a
check found it starved and no enabled robot was fed since; a check within the timeout changes
nothing; a check after it trips and leaves every watched device off, whatever switched it on.  Where
checks are at most a period apart, one that comes later than timeout and period after the last feed
finds that an earlier one, still within them, has tripped and switched the devices off. -/
theorem timing (timeout start : Nat) {f : Fleet} (sound : f.Every Device.Sound)
    (history : History) (t : Nat) :
    let s := after timeout start f history
    let checked := after timeout start f ((t, .check) :: history)
    (s.1.tripped = true ↔ Trips timeout start history) ∧
    (t ≤ fedAt start history + timeout → checked = (s.1, { s.2 with now := t })) ∧
    (fedAt start history + timeout < t → Silent checked) ∧
    ∀ period, Chronological start ((t, .check) :: history) →
      Punctual period start ((t, .check) :: history) →
        fedAt start history + timeout + period < t → s.1.tripped = true ∧
          ∃ later t' earlier, history = later ++ (t', .check) :: earlier ∧
            (∀ t'' robotEnabled, (t'', .feed robotEnabled) ∉ later) ∧
              fedAt start history + timeout < t' ∧ t' ≤ fedAt start history + timeout + period ∧
                Silent (after timeout start f ((t', .check) :: earlier)) := by
  have silent : ∀ t earlier, Starved timeout start t earlier →
      Silent (after timeout start f ((t, .check) :: earlier)) := fun t earlier starved =>
    silent_check _ ((sound_after sound earlier).of_slots rfl) ((age_after (f := f) t).mpr starved)
  refine ⟨tripped_iff timeout start f history, fun fresh => ?_, silent t history,
    fun period chronological punctual late => ?_⟩
  · refine check_of_age_le _ _ ?_
    exact Nat.not_lt.mp fun stale => absurd ((age_after (f := f) t).mp stale) (Nat.not_lt.mpr fresh)
  · obtain ⟨soon, punctual⟩ := punctual
    have stale : fedAt start history + timeout < checkedAt start history := by omega
    obtain ⟨later, t', earlier, rfl, starved, inTime, unfed⟩ :=
      foundInTime chronological.cons.2 punctual stale
    have tripped := (tripped_iff timeout start f _).mpr
      ⟨later, t', earlier, rfl, starved, fun t'' => unfed t'' true⟩
    have fed : fedAt start (later ++ (t', .check) :: earlier) = fedAt start earlier :=
      fedAt_append unfed _
    exact ⟨tripped, later, t', earlier, rfl, unfed, fed ▸ starved, inTime,
      silent t' earlier starved⟩

end

/-- A fleet of one relay that the watchdog looks after. -/
def guardedRelay : Fleet :=
  (({} : Fleet).add ⟨1⟩ (.relay { name := "arm", watched := true, on := true })).1.register ⟨0⟩

/-- The operator is heard for the last time at 100; the relay is switched on behind the watchdog's
back. -/
def starving : History :=
  [(300, .device (.enable ⟨0⟩)), (260, .check), (160, .check), (100, .feed true), (60, .check)]

theorem timing_starving :
    (∃ r, (after 150 0 guardedRelay starving).2.device? ⟨0⟩ = some (.relay r) ∧ r.on = true) ∧
    (after 150 0 guardedRelay starving).1.tripped = true ∧
    (after 150 0 guardedRelay ((250, .check) :: starving.drop 2)).1.tripped = false ∧
    Silent (after 150 0 guardedRelay ((360, .check) :: starving)) ∧
    ∃ later t' earlier, starving = later ++ (t', .check) :: earlier ∧ 250 < t' ∧ t' ≤ 350 ∧
      Silent (after 150 0 guardedRelay ((t', .check) :: earlier)) := by
  have none : ({} : Fleet).Every Device.Sound := fun _ _ found => by cases found
  have sound : guardedRelay.Every Device.Sound :=
    (none.add ⟨1⟩ (d := .relay _) trivial).register Device.lasting_sound ⟨0⟩
  obtain ⟨_, _, silent, inTime⟩ := timing 150 0 sound starving 360
  obtain ⟨_, fresh, _, _⟩ := timing 150 0 sound (starving.drop 2) 250
  obtain ⟨tripped, later, t', earlier, whole, _, stale, soon, off⟩ :=
    inTime 100 (by simp [Chronological, starving]) (by simp [Punctual, starving, checkedAt])
      (by decide)
  refine ⟨⟨_, rfl, rfl⟩, tripped, ?_, silent (by decide), later, t', earlier, whole, stale, soon,
    off⟩
  rw [fresh (by decide)]
  rfl

end Watchdog

end RobotControl
