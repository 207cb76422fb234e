import RobotControl.Device.Watchdog
import RobotControl.Proofs.Device.Passes

/-!
# What lasts of a device

A property of devices lasts if none of the things that can be done with one device ends it
(`Device.Lasting`).  Then no operation on the fleet ends it either: what every device of the fleet
has, every device has afterwards.
-/
set_option autoImplicit false

namespace RobotControl

/-- A device as it is made: the controller of a motor has done nothing yet. -/
def Device.Fresh : Device → Prop
  | .motor m => m.controller = {}
  | _ => True

/-- Every new device has the property, and nothing that is done with a device ends it. -/
structure Device.Lasting (P : Device → Prop) : Prop where
  fresh : ∀ d, d.Fresh → P d
  start : ∀ d, P d → P d.start.1
  enable : ∀ d, P d → P d.enable
  disable : ∀ d, P d → P d.disable.1
  drive : ∀ i d, P d → P (d.drive i).1

namespace Fleet

/-- Every device that is kept has the property. -/
def Every (P : Device → Prop) (f : Fleet) : Prop := ∀ h d, f.device? h = some d → P d

variable {P : Device → Prop} {f g : Fleet}

namespace Every

theorem of_slots (every : f.Every P) (same : g.slots = f.slots) : g.Every P :=
  fun h d found => every h d ((device?_congr same h).symm.trans found)

section Touched

variable {op : Fleet → Handle → Fleet} {act : Device → Device}

theorem touched (every : f.Every P) (touches : Touches op act) (keeps : ∀ d, P d → P (act d))
    (h : Handle) : (op f h).Every P := by
  intro k d' found
  rw [touches.device?] at found
  split at found
  · obtain ⟨d, before, rfl⟩ := Option.map_eq_some_iff.mp found
    exact keeps d (every k d before)
  · exact every k d' found

theorem passed (every : f.Every P) (touches : Touches op act) (keeps : ∀ d, P d → P (act d))
    (hs : List Handle) : (f.each hs op).Every P := by
  induction hs generalizing f with
  | nil => exact every
  | cons h rest ih => exact ih (every.touched touches keeps h)

theorem passed_when (every : f.Every P) (touches : Touches op act)
    (keeps : ∀ d, P d → P (act d)) (test : Device → Bool) (hs : List Handle) :
    (f.each hs fun f h => match f.device? h with
      | some d => if test d then op f h else f
      | none => f).Every P := by
  refine every.passed (touches.when test) (fun d own => ?_) hs
  split
  · exact keeps d own
  · exact own

end Touched

theorem keep (every : f.Every P) (h : Handle) {change : Slot → Slot}
    (same : ∀ s, (change s).device = s.device) : (f.keep h change).Every P := by
  unfold Fleet.keep
  split
  · exact every
  · next s found =>
      have seen : ∀ g : Fleet, ∀ s' : Slot, g.slots = f.slots.put h s' →
          (s'.isKept = true → s'.device = s.device) → g.Every P := by
        intro g s' put device k d' after
        obtain ⟨t, slot, rfl⟩ := device?_eq_some.mp after
        rw [slot?_put f g h k s' put] at slot
        split at slot
        · next here =>
            obtain ⟨eq, kept⟩ := Option.filter_eq_some_iff.mp slot
            cases eq
            rw [device kept]
            exact every h _ (device?_eq_some.mpr ⟨s, found, rfl⟩)
        · exact every k _ (device?_eq_some.mpr ⟨t, slot, rfl⟩)
      unfold settle
      split
      · exact seen _ _ rfl fun _ => same s
      · next unkept => exact seen _ _ rfl fun kept => absurd kept unkept

theorem add (every : f.Every P) (id : DeviceId) {d : Device} (own : P d) :
    (f.add id d).1.Every P := by
  intro h d' found
  obtain ⟨s, slot, rfl⟩ := device?_eq_some.mp found
  rw [slot?_put f _ _ h _ rfl] at slot
  split at slot
  · obtain ⟨eq, _⟩ := Option.filter_eq_some_iff.mp slot
    cases eq
    exact own
  · exact every h _ (device?_eq_some.mpr ⟨s, slot, rfl⟩)

variable (lasting : Device.Lasting P)
include lasting

theorem register (every : f.Every P) (h : Handle) : (f.register h).Every P := by
  have enrolled : ∀ r, ({ f with roster := r } : Fleet).Every P := fun _ => every.of_slots rfl
  unfold Fleet.register
  split
  · exact every
  · split
    · exact every
    · dsimp only
      split
      · exact (enrolled _).touched touches_begin lasting.start h
      · exact enrolled _

theorem accept (every : f.Every P) (i : FleetInput) : (f.accept i).1.Every P := by
  have onGamepad : ∀ (g : Gamepad → Gamepad) (d : Device), P d → P (d.onGamepad g).1 := by
    intro g d own
    cases d with
    | gamepad pad => exact lasting.fresh _ trivial
    | motor m => exact own
    | relay r => exact own
  cases i with
  | start h => exact every.touched touches_start lasting.start h
  | enable h => exact every.touched touches_enable lasting.enable h
  | disable h => exact every.touched touches_disable lasting.disable h
  | drive h i => exact every.touched (touches_change _) (lasting.drive i) h
  | drop h => exact every.keep h fun _ => rfl
  | report controller axes buttons dpads age => exact every.of_slots rfl
  | forget controller => exact every.of_slots rfl
  | setCurve h axis curve => exact every.touched (touches_change _) (onGamepad _) h
  | clearCurve h axis => exact every.touched (touches_change _) (onGamepad _) h

theorem disableAll (every : f.Every P) : f.disableAll.Every P :=
  every.passed touches_disable lasting.disable _

theorem startRoster (every : f.Every P) : f.startRoster.Every P := by
  have begun : ∀ r, ({ f with roster := r } : Fleet).Every P := fun _ => every.of_slots rfl
  exact disableAll lasting ((begun _).passed touches_begin lasting.start _)

theorem enableMatching (every : f.Every P) : f.enableMatching.Every P :=
  every.passed_when touches_enable lasting.enable (fun d => d.followsMode && !d.isEnabled) _

theorem disableMatching (every : f.Every P) : f.disableMatching.Every P :=
  every.passed_when touches_disable lasting.disable (fun d => d.followsMode && d.isEnabled) _

theorem enableWatched (every : f.Every P) (robotEnabled : Bool) :
    (f.enableWatched robotEnabled).Every P :=
  every.passed_when touches_enable lasting.enable
    (fun d => d.watched && (!d.followsMode || robotEnabled)) _

theorem disableWatched (every : f.Every P) : f.disableWatched.Every P :=
  every.passed_when touches_disable lasting.disable Device.watched _

theorem check (every : f.Every P) (w : Watchdog) : (w.check f).2.Every P := by
  have noted : ∀ lines, (f.note lines).Every P := fun _ => every.of_slots rfl
  unfold Watchdog.check
  split
  · exact every
  · exact (disableWatched lasting (noted _)).of_slots rfl

theorem feed (every : f.Every P) (w : Watchdog) (robotEnabled : Bool) :
    (w.feed f robotEnabled).2.Every P := by
  unfold Watchdog.feed
  dsimp only
  split
  · exact (every.enableWatched lasting robotEnabled).of_slots rfl
  · exact every

end Every

end Fleet

end RobotControl
