import RobotControl.Mode
import RobotControl.Proofs.Device.Passes

/-!
# Guarded fleets

A device fits a state of watchdog and mode if it is on only as far as both allow.  A fleet is
guarded if all its devices fit, those that are not registered being idle.  What nobody but the
application does leaves devices at most calmer than they were; the passes that switch on do so
only where everything fits, and those that switch off make fit what did not.
-/
set_option autoImplicit false

namespace RobotControl

/-! ### Single devices -/

theorem Motor.controller_change (m : Motor) (op : Controller → Controller × Option Command) :
    (m.change op).1.controller = (op m.controller).1 := by
  unfold Motor.change Motor.settle
  split <;> rfl

namespace Controller

theorem flags_setSpeed (c : Controller) (x : Float) :
    (c.setSpeed x).1.initialised = c.initialised ∧ (c.setSpeed x).1.enabled = c.enabled := by
  unfold setSpeed
  split <;> exact ⟨rfl, rfl⟩

end Controller

theorem Device.MotorInput.flags_apply (i : Device.MotorInput) (c : Controller) :
    (i.apply c).1.initialised = c.initialised ∧ (i.apply c).1.enabled = c.enabled := by
  cases i with
  | speed x => exact c.flags_setSpeed x
  | inverted b => exact ⟨rfl, rfl⟩
  | brake b => exact ⟨rfl, rfl⟩

theorem Motor.flags_start (m : Motor) :
    (m.controller.initialised = true → m.start.1.controller.initialised = true) ∧
      m.start.1.controller.enabled = m.controller.enabled := by
  unfold Motor.start
  split
  · exact ⟨id, rfl⟩
  · dsimp only
    split
    · exact ⟨id, rfl⟩
    · rw [Motor.controller_change]
      exact ⟨fun _ => rfl, rfl⟩

namespace Device

/-- On only as far as watchdog and mode allow. -/
def Fits (tripped : Bool) (mode : Mode) (d : Device) : Prop :=
  d.isEnabled = true →
    (d.watched = true → tripped = false) ∧ (d.followsMode = true → mode = .enabled)

/-- Off, or of no interest to watchdog and mode. -/
def Idle (d : Device) : Prop := d.isEnabled = true → d.watched = false ∧ d.followsMode = false

/-- A motor that is on was initialised, so that it can be switched off. -/
def Sound : Device → Prop
  | .motor m => m.controller.enabled = true → m.controller.initialised = true
  | _ => True

/-- The same device after a change that may have switched it off, but not on. -/
structure Calmer (d' d : Device) : Prop where
  watched : d'.watched = d.watched
  followsMode : d'.followsMode = d.followsMode
  isEnabled : d'.isEnabled = true → d.isEnabled = true
  sound : d.Sound → d'.Sound

variable {tripped tripped' : Bool} {mode mode' : Mode} {d d' : Device}

theorem Idle.fits (idle : d.Idle) : d.Fits tripped mode := by
  intro enabled
  obtain ⟨unwatched, unmatched⟩ := idle enabled
  exact ⟨fun watched => absurd (unwatched.symm.trans watched) Bool.false_ne_true,
    fun follows => absurd (unmatched.symm.trans follows) Bool.false_ne_true⟩

theorem Idle.sound (idle : d.Idle) : d.Sound := by
  cases d with
  | motor m => exact fun enabled => absurd (idle enabled).1.symm Bool.false_ne_true
  | gamepad g => trivial
  | relay r => trivial

theorem fits_of_free (d : Device) : d.Fits false .enabled := fun _ => ⟨fun _ => rfl, fun _ => rfl⟩

theorem Fits.enabled (fits : d.Fits tripped mode) : d.Fits tripped .enabled :=
  fun enabled => ⟨(fits enabled).1, fun _ => rfl⟩

namespace Calmer

theorem refl (d : Device) : d.Calmer d := ⟨rfl, rfl, id, id⟩

theorem trans {d₁ d₂ d₃ : Device} (later : d₃.Calmer d₂) (earlier : d₂.Calmer d₁) :
    d₃.Calmer d₁ where
  watched := later.watched.trans earlier.watched
  followsMode := later.followsMode.trans earlier.followsMode
  isEnabled := earlier.isEnabled ∘ later.isEnabled
  sound := later.sound ∘ earlier.sound

theorem iterate {g : Device → Device} (calmer : ∀ d, (g d).Calmer d) (n : Nat) (d : Device) :
    (g^[n] d).Calmer d := by
  induction n generalizing d with
  | zero => exact refl d
  | succ n ih => exact (ih (g d)).trans (calmer d)

theorem fits (calmer : d'.Calmer d) (fits : d.Fits tripped mode) : d'.Fits tripped mode := by
  intro enabled
  rw [calmer.watched, calmer.followsMode]
  exact fits (calmer.isEnabled enabled)

theorem idle (calmer : d'.Calmer d) (idle : d.Idle) : d'.Idle := by
  intro enabled
  rw [calmer.watched, calmer.followsMode]
  exact idle (calmer.isEnabled enabled)

end Calmer

theorem calmer_start (d : Device) : d.start.1.Calmer d := by
  cases d with
  | motor m =>
      obtain ⟨ready, enabled⟩ := m.flags_start
      exact ⟨rfl, rfl, enabled.symm.trans, fun sound on => ready (sound (enabled.symm.trans on))⟩
  | gamepad g => exact .refl _
  | relay r => exact ⟨rfl, rfl, id, id⟩

theorem calmer_disable (d : Device) : d.disable.1.Calmer d := by
  cases d with
  | motor m =>
      have changed : m.disable.1.controller = m.controller.disable.1 := m.controller_change _
      refine ⟨rfl, rfl, fun on => ?_, fun sound on => ?_⟩
      · simp only [isEnabled, disable, changed, Controller.disable] at on ⊢
        split at on
        · cases on
        · exact on
      · simp only [changed, Controller.disable] at on ⊢
        split at on
        · cases on
        · next unready => exact absurd (sound on) unready
  | gamepad g => exact .refl _
  | relay r => exact ⟨rfl, rfl, fun on => absurd on Bool.false_ne_true, id⟩

theorem calmer_drive (i : MotorInput) (d : Device) : (d.drive i).1.Calmer d := by
  cases d with
  | motor m =>
      obtain ⟨ready, enabled⟩ := i.flags_apply m.controller
      have changed : (m.change i.apply).1.controller = (i.apply m.controller).1 :=
        m.controller_change _
      rw [← changed] at ready enabled
      exact ⟨rfl, rfl, enabled.symm.trans,
        fun sound on => ready.trans (sound (enabled.symm.trans on))⟩
  | gamepad g => exact .refl _
  | relay r => exact .refl _

theorem calmer_onGamepad (f : Gamepad → Gamepad) (d : Device) : (d.onGamepad f).1.Calmer d := by
  cases d with
  | motor m => exact .refl _
  | gamepad g => exact ⟨rfl, rfl, id, id⟩
  | relay r => exact .refl _

theorem sound_enable (sound : d.Sound) : d.enable.Sound := by
  cases d with
  | motor m =>
      intro enabled
      simp only [Motor.enable, Controller.enable] at enabled ⊢
      split
      · next ready => exact ready
      · next unready => rw [if_neg unready] at enabled; exact sound enabled
  | gamepad g => trivial
  | relay r => trivial

theorem idle_disable (sound : d.Sound) : d.disable.1.Idle := by
  cases d with
  | motor m =>
      have changed : m.disable.1.controller = m.controller.disable.1 := m.controller_change _
      intro on
      simp only [isEnabled, disable, changed, Controller.disable] at on
      split at on
      · cases on
      · next unready => exact absurd (sound on) unready
  | gamepad g => exact fun _ => ⟨rfl, rfl⟩
  | relay r => exact fun on => absurd on Bool.false_ne_true

end Device

def FleetInput.isModest : FleetInput → Bool
  | .enable _ => false
  | _ => true

namespace Fleet

/-- All devices fit, and those that are not registered are idle. -/
structure Guarded (tripped : Bool) (mode : Mode) (f : Fleet) : Prop where
  sound : ∀ h d, f.device? h = some d → d.Sound
  fits : ∀ h d, f.device? h = some d → d.Fits tripped mode
  idle : ∀ h d, f.device? h = some d → h ∉ f.roster.devices → d.Idle

/-- A fleet after changes that switched nothing on and took nothing off the roster. -/
structure Calmer (g f : Fleet) : Prop where
  device? : ∀ h d', g.device? h = some d' → ∃ d, f.device? h = some d ∧ d'.Calmer d
  registered : ∀ h ∈ f.roster.devices, h ∈ g.roster.devices

variable {f g : Fleet} {tripped tripped' : Bool} {mode mode' : Mode}

namespace Calmer

theorem of_eq (same : ∀ h, g.device? h = f.device? h)
    (roster : g.roster.devices = f.roster.devices) : g.Calmer f where
  device? h d' found := ⟨d', (same h).symm.trans found, .refl d'⟩
  registered _ member := roster ▸ member

theorem refl (f : Fleet) : f.Calmer f := of_eq (fun _ => rfl) rfl

theorem trans {f₁ f₂ f₃ : Fleet} (later : f₃.Calmer f₂) (earlier : f₂.Calmer f₁) :
    f₃.Calmer f₁ where
  device? h d₃ found := by
    obtain ⟨d₂, found, calm⟩ := later.device? h d₃ found
    obtain ⟨d₁, found, calm'⟩ := earlier.device? h d₂ found
    exact ⟨d₁, found, calm.trans calm'⟩
  registered h member := later.registered h (earlier.registered h member)

end Calmer

theorem Guarded.calmer (guarded : f.Guarded tripped mode) (calmer : g.Calmer f) :
    g.Guarded tripped mode where
  sound h d' found := by
    obtain ⟨d, before, calm⟩ := calmer.device? h d' found
    exact calm.sound (guarded.sound h d before)
  fits h d' found := by
    obtain ⟨d, before, calm⟩ := calmer.device? h d' found
    exact calm.fits (guarded.fits h d before)
  idle h d' found unregistered := by
    obtain ⟨d, before, calm⟩ := calmer.device? h d' found
    exact calm.idle (guarded.idle h d before fun member =>
      unregistered (calmer.registered h member))

theorem Guarded.enabled (guarded : f.Guarded tripped mode) : f.Guarded tripped .enabled :=
  ⟨guarded.sound, fun h d found => (guarded.fits h d found).enabled, guarded.idle⟩

/-! ### Operations that switch nothing on -/

section Touches

variable {op : Fleet → Handle → Fleet} {act : Device → Device}

theorem Touches.calmer (touches : Touches op act) (calm : ∀ d, (act d).Calmer d) (f : Fleet)
    (h : Handle) : (op f h).Calmer f where
  device? k d' found := by
    rw [touches.device?] at found
    split at found
    · obtain ⟨d, before, rfl⟩ := Option.map_eq_some_iff.mp found
      exact ⟨d, before, calm d⟩
    · exact ⟨d', found, .refl d'⟩
  registered k member := touches.roster f h ▸ member

theorem Touches.calmer_each (touches : Touches op act) (calm : ∀ d, (act d).Calmer d)
    (hs : List Handle) (f : Fleet) : (f.each hs op).Calmer f := by
  induction hs generalizing f with
  | nil => exact .refl f
  | cons h rest ih => exact (ih (op f h)).trans (touches.calmer calm f h)

end Touches

theorem calmer_note (f : Fleet) (lines : List Line) : (f.note lines).Calmer f :=
  .of_eq (fun h => f.device?_note lines h) rfl

theorem calmer_change (f : Fleet) (h : Handle) {op : Device → Device × List Line}
    (calm : ∀ d, (op d).1.Calmer d) : (f.change h op).Calmer f :=
  (touches_change op).calmer calm f h

theorem calmer_keep (f : Fleet) (h : Handle) {change : Slot → Slot}
    (same : ∀ s, (change s).device = s.device) : (f.keep h change).Calmer f := by
  unfold keep
  split
  · exact .refl f
  · next s found =>
      have seen : ∀ g : Fleet, ∀ s' : Slot, g.slots = f.slots.put h s' →
          g.roster = f.roster → (s'.isKept = true → s'.device = s.device) → g.Calmer f := by
        intro g s' put roster device
        refine ⟨fun k d' after => ?_, fun k member => roster ▸ member⟩
        obtain ⟨t, slot, rfl⟩ := device?_eq_some.mp after
        rw [slot?_put f g h k s' put] at slot
        split at slot
        · next here =>
            subst here
            obtain ⟨eq, kept⟩ := Option.filter_eq_some_iff.mp slot
            cases eq
            refine ⟨s.device, device?_eq_some.mpr ⟨s, found, rfl⟩, ?_⟩
            rw [device kept]
            exact .refl _
        · exact ⟨t.device, device?_eq_some.mpr ⟨t, slot, rfl⟩, .refl _⟩
      unfold settle
      split
      · exact seen _ _ rfl rfl fun _ => same s
      · next unkept => exact seen _ _ rfl rfl fun kept => absurd kept unkept

theorem calmer_start (f : Fleet) (h : Handle) : (f.start h).1.Calmer f :=
  touches_start.calmer Device.calmer_start f h

theorem calmer_begin (f : Fleet) (h : Handle) : (f.begin h).Calmer f :=
  touches_begin.calmer Device.calmer_start f h

theorem calmer_register (f : Fleet) (h : Handle) : (f.register h).Calmer f := by
  have enrolled : ∀ r : Roster, r.devices = f.roster.devices ++ [h] →
      ({ f with roster := r } : Fleet).Calmer f := by
    intro r devices
    refine ⟨fun k d' found => ⟨d', found, .refl d'⟩, fun k member => ?_⟩
    show k ∈ r.devices
    rw [devices]
    exact List.mem_append_left _ member
  unfold register
  split
  · exact .refl f
  · split
    · exact .refl f
    · dsimp only
      split
      · exact (calmer_begin _ h).trans (enrolled _ rfl)
      · exact enrolled _ rfl

theorem calmer_disableAll (f : Fleet) : f.disableAll.Calmer f :=
  touches_disable.calmer_each Device.calmer_disable _ f

theorem calmer_startRoster (f : Fleet) : f.startRoster.Calmer f := by
  refine (calmer_disableAll _).trans ((touches_begin.calmer_each Device.calmer_start _ _).trans ?_)
  exact .of_eq (fun _ => rfl) rfl

theorem calmer_accept (f : Fleet) (i : FleetInput) (modest : i.isModest = true) :
    (f.accept i).1.Calmer f := by
  cases i with
  | start h => exact calmer_start f h
  | enable h => cases modest
  | disable h => exact calmer_change f h Device.calmer_disable
  | drive h i => exact calmer_change f h (Device.calmer_drive i)
  | drop h => exact calmer_keep f h fun _ => rfl
  | report controller axes buttons dpads age => exact .of_eq (fun h => device?_congr rfl h) rfl
  | forget controller => exact .of_eq (fun h => device?_congr rfl h) rfl
  | setCurve h axis curve => exact calmer_change f h (Device.calmer_onGamepad _)
  | clearCurve h axis => exact calmer_change f h (Device.calmer_onGamepad _)

/-! ### New devices -/

theorem Guarded.add (guarded : f.Guarded tripped mode) (id : DeviceId) {d : Device}
    (idle : d.Idle) : (f.add id d).1.Guarded tripped mode := by
  have seen : ∀ h d', (f.add id d).1.device? h = some d' → f.device? h = some d' ∨ d' = d := by
    intro h d' found
    obtain ⟨s, slot, rfl⟩ := device?_eq_some.mp found
    rw [slot?_put f _ _ h _ rfl] at slot
    split at slot
    · obtain ⟨eq, _⟩ := Option.filter_eq_some_iff.mp slot
      cases eq
      exact .inr rfl
    · exact .inl (device?_eq_some.mpr ⟨s, slot, rfl⟩)
  constructor
  · intro h d' found
    rcases seen h d' found with old | rfl
    · exact guarded.sound h d' old
    · exact idle.sound
  · intro h d' found
    rcases seen h d' found with old | rfl
    · exact guarded.fits h d' old
    · exact idle.fits
  · intro h d' found unregistered
    rcases seen h d' found with old | rfl
    · exact guarded.idle h d' old unregistered
    · exact idle

/-! ### Passes over the live devices -/

section Pass

variable {op : Fleet → Handle → Fleet} {act : Device → Device}

/-- A pass that makes every device fit it has changed, and switches none on. -/
theorem Guarded.each_calm (touches : Touches op act) (calm : ∀ d, (act d).Calmer d)
    (fitting : ∀ d, d.Sound → d.Fits tripped mode → (act d).Fits tripped' mode')
    (guarded : f.Guarded tripped mode) : (f.each f.live op).Guarded tripped' mode' := by
  have kept := guarded.calmer (touches.calmer_each calm f.live f)
  refine ⟨kept.sound, fun h d' found => ?_, kept.idle⟩
  by_cases registered : h ∈ f.roster.devices
  · rw [touches.device?_each] at found
    obtain ⟨d, before, rfl⟩ := Option.map_eq_some_iff.mp found
    have listed : 0 < f.live.count h :=
      List.count_pos_iff.mpr (mem_live.mpr ⟨registered, d, before⟩)
    -- the first change makes the device fit, those after it change nothing for the worse
    obtain ⟨n, counted⟩ := Nat.exists_eq_succ_of_ne_zero (Nat.pos_iff_ne_zero.mp listed)
    rw [counted, Function.iterate_succ_apply]
    have first := fitting d (guarded.sound h d before) (guarded.fits h d before)
    exact (Device.Calmer.iterate calm n (act d)).fits first
  · rw [← touches.roster_each f.live f] at registered
    exact (kept.idle h d' found registered).fits

theorem Guarded.each_free (touches : Touches op act) (sound : ∀ d, d.Sound → (act d).Sound)
    (guarded : f.Guarded tripped mode) : (f.each f.live op).Guarded false .enabled where
  sound h d' found := by
    rw [touches.device?_each] at found
    obtain ⟨d, before, rfl⟩ := Option.map_eq_some_iff.mp found
    exact Function.Iterate.rec Device.Sound (guarded.sound h d before) sound _
  fits h d' _ := d'.fits_of_free
  idle h d' found unregistered := by
    rw [touches.device?_each] at found
    rw [touches.roster_each] at unregistered
    have unlisted : h ∉ f.live := fun member => unregistered (mem_live.mp member).1
    rw [List.count_eq_zero_of_not_mem unlisted] at found
    exact guarded.idle h d' (Option.map_id'.symm.trans found) unregistered

end Pass

theorem Guarded.enableMatching (guarded : f.Guarded tripped mode) :
    f.enableMatching.Guarded false .enabled := by
  refine guarded.each_free (touches_enable.when fun d => d.followsMode && !d.isEnabled) ?_
  intro d sound
  split
  · exact Device.sound_enable sound
  · exact sound

theorem Guarded.enableWatched (guarded : f.Guarded tripped mode) (robotEnabled : Bool) :
    (f.enableWatched robotEnabled).Guarded false .enabled := by
  refine guarded.each_free
    (touches_enable.when fun d => d.watched && (!d.followsMode || robotEnabled)) ?_
  intro d sound
  split
  · exact Device.sound_enable sound
  · exact sound

theorem calmer_disable_when (test : Device → Bool) (d : Device) :
    (if test d then d.disable.1 else d).Calmer d := by
  split
  · exact d.calmer_disable
  · exact .refl d

theorem Guarded.disableMatching (guarded : f.Guarded tripped mode) :
    f.disableMatching.Guarded tripped .disabled := by
  refine guarded.each_calm (touches_disable.when fun d => d.followsMode && d.isEnabled)
    (calmer_disable_when _) fun d sound fits => ?_
  split
  · exact (Device.idle_disable sound).fits
  · next passed =>
      intro enabled
      refine ⟨(fits enabled).1, fun follows => absurd ?_ passed⟩
      rw [follows, enabled]
      rfl

theorem Guarded.disableWatched (guarded : f.Guarded tripped mode) :
    f.disableWatched.Guarded true mode := by
  refine guarded.each_calm (touches_disable.when Device.watched)
    (calmer_disable_when _) fun d sound fits => ?_
  split
  · exact (Device.idle_disable sound).fits
  · next passed => exact fun enabled =>
      ⟨fun watched => absurd watched passed, (fits enabled).2⟩

theorem Guarded.disableAll (guarded : f.Guarded tripped mode) (tripped' : Bool) (mode' : Mode) :
    f.disableAll.Guarded tripped' mode' :=
  guarded.each_calm touches_disable Device.calmer_disable fun _ sound _ =>
    (Device.idle_disable sound).fits

end Fleet

end RobotControl
