import RobotControl.Proofs.Device.Output

/-!
# Handles

A handle stands for one device for ever: nothing takes it away, and a new device gets a handle that
no device had before (`Fleet.Numbered`).  So it can be said of a device that it stays off
(`Fleet.KeptOff`), as the live ones do that have been switched off (`Fleet.keptOff_disableAll`).
-/
set_option autoImplicit false

namespace RobotControl

namespace Assoc

variable {κ α : Type} [DecidableEq κ]

theorem keys_write (k : κ) (a : α) (l : List (κ × α)) :
    (write k a l).map (·.1) =
      if k ∈ l.map (·.1) then l.map (·.1) else l.map (·.1) ++ [k] := by
  induction l with
  | nil => simp [write]
  | cons e rest ih =>
      obtain ⟨j, b⟩ := e
      by_cases same : j = k
      · subst same
        simp [write]
      · have member : k ∈ j :: rest.map (·.1) ↔ k ∈ rest.map (·.1) := by
          simp [Ne.symm same]
        rw [write, if_neg same, List.map_cons, ih, List.map_cons]
        by_cases later : k ∈ rest.map (·.1)
        · rw [if_pos later, if_pos (member.mpr later)]
        · rw [if_neg later, if_neg (mt member.mp later)]
          rfl

theorem keys_put (m : Assoc κ α) (k : κ) (a : α) :
    (m.put k a).keys = if k ∈ m.keys then m.keys else m.keys ++ [k] := keys_write k a m.entries

theorem mem_keys_of_get? {m : Assoc κ α} {k : κ} {a : α} (found : m.get? k = some a) :
    k ∈ m.keys := by
  by_contra absent
  cases (find_eq_none k m.entries absent).symm.trans found

end Assoc

namespace Fleet

def handles (f : Fleet) : List Handle := f.slots.keys

variable {f g : Fleet} {h : Handle}

theorem mem_handles_of_device? {d : Device} (found : f.device? h = some d) : h ∈ f.handles := by
  obtain ⟨s, slot, _⟩ := device?_eq_some.mp found
  obtain ⟨held, _⟩ := Option.filter_eq_some_iff.mp slot
  exact Assoc.mem_keys_of_get? held

theorem handles_put {k : Handle} {s t : Slot} (found : f.slot? k = some s)
    (put : g.slots = f.slots.put k t) : g.handles = f.handles := by
  obtain ⟨held, _⟩ := Option.filter_eq_some_iff.mp found
  unfold handles
  rw [put, Assoc.keys_put, if_pos (Assoc.mem_keys_of_get? held)]

/-! ### Operations that make no device -/

theorem handles_change (f : Fleet) (h : Handle) (op : Device → Device × List Line) :
    (f.change h op).handles = f.handles := by
  cases found : f.slot? h with
  | none => simp only [change, found]
  | some s =>
      have put : (f.change h op).slots = f.slots.put h { s with device := (op s.device).1 } := by
        simp only [change, found]
      exact handles_put found put

theorem handles_keep (f : Fleet) (h : Handle) (change : Slot → Slot) :
    (f.keep h change).handles = f.handles := by
  unfold keep
  split
  · rfl
  · next s found =>
      unfold settle
      split
      · exact handles_put found rfl
      · exact handles_put found rfl

theorem handles_start (f : Fleet) (h : Handle) : (f.start h).1.handles = f.handles := by
  unfold start
  split
  · rfl
  · exact handles_change f h _

theorem handles_begin (f : Fleet) (h : Handle) : (f.begin h).handles = f.handles := by
  have started := handles_start f h
  unfold begin
  split
  · rfl
  · dsimp only
    split <;> exact started

theorem handles_register (f : Fleet) (h : Handle) : (f.register h).handles = f.handles := by
  unfold register
  split
  · rfl
  · split
    · rfl
    · dsimp only
      split
      · exact handles_begin _ h
      · rfl

theorem handles_accept (f : Fleet) (i : FleetInput) : (f.accept i).1.handles = f.handles := by
  cases i with
  | start h => exact handles_start f h
  | drop h => exact handles_keep f h _
  | report controller axes buttons dpads age => rfl
  | forget controller => rfl
  | _ => exact handles_change f _ _

section Pass

variable {op : Fleet → Handle → Fleet}

theorem handles_each (keeps : ∀ f h, (op f h).handles = f.handles) (hs : List Handle) (f : Fleet) :
    (f.each hs op).handles = f.handles := by
  induction hs generalizing f with
  | nil => rfl
  | cons h rest ih => exact (ih (op f h)).trans (keeps f h)

theorem handles_when (keeps : ∀ f h, (op f h).handles = f.handles) (test : Device → Bool)
    (f : Fleet) (h : Handle) :
    (match f.device? h with
      | some d => if test d then op f h else f
      | none => f).handles = f.handles := by
  split
  · split
    · exact keeps f h
    · rfl
  · rfl

end Pass

theorem handles_enable (f : Fleet) (h : Handle) : (f.enable h).handles = f.handles :=
  handles_change f h _

theorem handles_disable (f : Fleet) (h : Handle) : (f.disable h).handles = f.handles :=
  handles_change f h _

theorem handles_disableAll (f : Fleet) : f.disableAll.handles = f.handles :=
  handles_each handles_disable f.live f

theorem handles_startRoster (f : Fleet) : f.startRoster.handles = f.handles :=
  (handles_disableAll _).trans (handles_each handles_begin _ _)

theorem handles_enableMatching (f : Fleet) : f.enableMatching.handles = f.handles :=
  handles_each (handles_when handles_enable fun d => d.followsMode && !d.isEnabled) f.live f

theorem handles_disableMatching (f : Fleet) : f.disableMatching.handles = f.handles :=
  handles_each (handles_when handles_disable fun d => d.followsMode && d.isEnabled) f.live f

theorem handles_disableWatched (f : Fleet) : f.disableWatched.handles = f.handles :=
  handles_each (handles_when handles_disable Device.watched) f.live f

theorem handles_enableWatched (f : Fleet) (robotEnabled : Bool) :
    (f.enableWatched robotEnabled).handles = f.handles :=
  handles_each
    (handles_when handles_enable fun d => d.watched && (!d.followsMode || robotEnabled)) f.live f

theorem handles_feed (f : Fleet) (w : Watchdog) (robotEnabled : Bool) :
    (w.feed f robotEnabled).2.handles = f.handles := by
  unfold Watchdog.feed
  dsimp only
  split
  · exact handles_enableWatched f robotEnabled
  · rfl

theorem handles_check (f : Fleet) (w : Watchdog) : (w.check f).2.handles = f.handles := by
  unfold Watchdog.check
  split
  · rfl
  · exact handles_disableWatched (f.note _)

/-! ### New devices -/

/-- The next handle is new. -/
def Numbered (f : Fleet) : Prop := ∀ h ∈ f.handles, h.number < f.slots.size

theorem size_eq (f : Fleet) : f.slots.size = f.handles.length := (List.length_map ..).symm

theorem Numbered.of_handles (numbered : f.Numbered) (same : g.handles = f.handles) :
    g.Numbered := by
  intro h member
  rw [size_eq, same, ← size_eq]
  exact numbered h (same ▸ member)

theorem handles_add (numbered : f.Numbered) (id : DeviceId) (d : Device) :
    (f.add id d).1.handles = f.handles ++ [⟨f.slots.size⟩] := by
  refine (Assoc.keys_put ..).trans (if_neg fun member => ?_)
  exact Nat.lt_irrefl _ (numbered _ member)

theorem Numbered.add (numbered : f.Numbered) (id : DeviceId) (d : Device) :
    (f.add id d).1.Numbered := by
  have more := handles_add numbered id d
  intro h member
  rw [size_eq, more, List.length_append, ← size_eq]
  rw [more] at member
  rcases List.mem_append.mp member with old | new
  · exact Nat.lt_succ_of_lt (numbered h old)
  · rw [List.mem_singleton.mp new]
    exact Nat.lt_succ_self _

theorem device?_add (numbered : f.Numbered) (id : DeviceId) (d : Device) (known : h ∈ f.handles) :
    (f.add id d).1.device? h = f.device? h := by
  have other : (⟨f.slots.size⟩ : Handle) ≠ h := by
    rintro rfl
    exact Nat.lt_irrefl _ (numbered _ known)
  unfold device?
  rw [slot?_put f _ _ h _ rfl, if_neg other]

/-! ### Devices that stay off -/

/-- There is a device under the handle, and it is off as long as anybody keeps it. -/
structure KeptOff (f : Fleet) (h : Handle) : Prop where
  known : h ∈ f.handles
  off : ∀ d, f.device? h = some d → d.isEnabled = false

theorem KeptOff.calmer (kept : f.KeptOff h) (calmer : g.Calmer f) (same : g.handles = f.handles) :
    g.KeptOff h where
  known := same ▸ kept.known
  off d' found := by
    obtain ⟨d, before, calm⟩ := calmer.device? h d' found
    cases on : d'.isEnabled with
    | false => rfl
    | true => cases (kept.off d before).symm.trans (calm.isEnabled on)

theorem KeptOff.add (kept : f.KeptOff h) (numbered : f.Numbered) (id : DeviceId) (d : Device) :
    (f.add id d).1.KeptOff h where
  known := handles_add numbered id d ▸ List.mem_append_left _ kept.known
  off d' found := kept.off d' (device?_add numbered id d kept.known ▸ found)

theorem Touches.device?_live {op : Fleet → Handle → Fleet} {g : Device → Device} {d : Device}
    (touches : Touches op g) (live : h ∈ f.live) (found : f.device? h = some d) :
    ∃ n, (f.each f.live op).device? h = some (g^[n] (g d)) := by
  obtain ⟨n, counted⟩ :=
    Nat.exists_eq_succ_of_ne_zero (Nat.pos_iff_ne_zero.mp (List.count_pos_iff.mpr live))
  exact ⟨n, by rw [touches.device?_each, found, counted]; rfl⟩

theorem keptOff_disableAll {d : Device} (live : h ∈ f.live) (found : f.device? h = some d)
    (yields : d.disable.1.isEnabled = false) : f.disableAll.KeptOff h where
  known := handles_disableAll f ▸ mem_handles_of_device? found
  off d' after := by
    obtain ⟨n, passed⟩ := touches_disable.device?_live live found
    obtain rfl := Option.some.inj (passed.symm.trans after)
    have calm := Device.Calmer.iterate Device.calmer_disable n d.disable.1
    cases on : Device.isEnabled _ with
    | false => rfl
    | true => cases yields.symm.trans (calm.isEnabled on)

end Fleet

/-! ### Motors that are told to stand still -/

structure Motor.AtRest (m' m : Motor) : Prop where
  off : m'.controller.enabled = false
  zero : m'.controller.effective = 0.0
  still : m'.output.Still
  told : m.output.attempts < m'.output.attempts

theorem Motor.atRest_disable {m : Motor} (ready : m.controller.initialised = true) :
    m.disable.1.AtRest m := by
  have stilled := m.stilled_disable ready
  refine ⟨stilled.off, ?_, ?_, stilled.again ▸ Nat.lt_succ_self _⟩
  · unfold Motor.disable
    rw [controller_change, Controller.disable, if_pos ready]
  · unfold Motor.disable Motor.change Controller.disable
    rw [if_pos ready]
    exact Output.still_write _ rfl

theorem Motor.atRest_iterate (n : Nat) {m : Motor} (ready : m.controller.initialised = true) :
    ∃ m', (fun d : Device => d.disable.1)^[n] (.motor m.disable.1) = .motor m' ∧ m'.AtRest m ∧
      m'.controller.initialised = true := by
  induction n with
  | zero => exact ⟨_, rfl, atRest_disable ready, (m.stilled_disable ready).initialised⟩
  | succ n ih =>
      obtain ⟨m', passed, rest, ready'⟩ := ih
      have again := atRest_disable ready'
      have told := Nat.lt_trans rest.told again.told
      refine ⟨m'.disable.1, ?_, ⟨again.off, again.zero, again.still, told⟩,
        (m'.stilled_disable ready').initialised⟩
      rw [Function.iterate_succ_apply', passed]
      rfl

theorem Fleet.disableAll_motor {f : Fleet} {h : Handle} {m : Motor} (live : h ∈ f.live)
    (found : f.device? h = some (.motor m)) (ready : m.controller.initialised = true) :
    ∃ m', f.disableAll.device? h = some (.motor m') ∧ m'.AtRest m := by
  obtain ⟨n, passed⟩ := touches_disable.device?_live live found
  obtain ⟨m', after, rest, _⟩ := Motor.atRest_iterate n ready
  exact ⟨m', passed.trans (congrArg some after), rest⟩

end RobotControl
