import RobotControl.Device.Input
import Mathlib.Data.List.Count
import Mathlib.Logic.Function.Iterate

/-!
# What a pass does to a device

Every operation on the fleet is seen through two views, the device under a handle and the list of
registered handles.  A pass runs one operation over a list of handles, so a device on that list
has been changed as often as it occurs (`device?_each`), and all others are as they were.
-/
set_option autoImplicit false

namespace RobotControl

namespace Fleet

theorem slot?_congr {f g : Fleet} (same : f.slots = g.slots) (h : Handle) :
    f.slot? h = g.slot? h := by
  unfold slot?
  rw [same]

theorem device?_congr {f g : Fleet} (same : f.slots = g.slots) (h : Handle) :
    f.device? h = g.device? h := by
  unfold device?
  rw [slot?_congr same]

theorem device?_note (f : Fleet) (lines : List Line) (h : Handle) :
    (f.note lines).device? h = f.device? h := device?_congr rfl h

theorem slot?_put (f g : Fleet) (h k : Handle) (s : Slot) (put : g.slots = f.slots.put h s) :
    g.slot? k = if h = k then (some s).filter Slot.isKept else f.slot? k := by
  unfold slot?
  rw [put, Assoc.get?_put]
  split <;> rfl

theorem device?_eq_some {f : Fleet} {h : Handle} {d : Device} :
    f.device? h = some d ↔ ∃ s, f.slot? h = some s ∧ s.device = d := Option.map_eq_some_iff

theorem isKept_eq (f : Fleet) (k : Handle) : f.isKept k = (f.device? k).isSome :=
  Option.isSome_map.symm

theorem isKept_of_slot? {f : Fleet} {h : Handle} {s : Slot} (found : f.slot? h = some s) :
    s.isKept = true := (Option.filter_eq_some_iff.mp found).2

theorem mem_live {f : Fleet} {h : Handle} :
    h ∈ f.live ↔ h ∈ f.roster.devices ∧ ∃ d, f.device? h = some d := by
  simp only [live, List.mem_filter, isKept, device?_eq_some, Option.isSome_iff_exists]
  grind

/-! ### Operations on one device -/

/-- An operation that changes the device under its handle and nothing else that counts. -/
structure Touches (op : Fleet → Handle → Fleet) (g : Device → Device) : Prop where
  roster : ∀ f h, (op f h).roster = f.roster
  device? : ∀ f h k,
    (op f h).device? k = if h = k then (f.device? k).map g else f.device? k

theorem touches_change (op : Device → Device × List Line) :
    Touches (fun f h => f.change h op) fun d => (op d).1 where
  roster f h := by
    unfold change
    split <;> rfl
  device? f h k := by
    cases found : f.slot? h with
    | none =>
        have unchanged : f.change h op = f := by simp only [change, found]
        rw [unchanged]
        split
        · next same => subst same; simp [Fleet.device?, found]
        · rfl
    | some s =>
        have put : (f.change h op).slots = f.slots.put h { s with device := (op s.device).1 } := by
          simp only [change, found]
        unfold Fleet.device?
        rw [slot?_put f _ h k _ put]
        split
        · next same =>
            subst same
            have kept : s.isKept = true := isKept_of_slot? found
            have stillKept : Slot.isKept { s with device := (op s.device).1 } = true := kept
            rw [found, Option.filter_some, if_pos stillKept]
            rfl
        · rfl

theorem touches_enable : Touches enable Device.enable := touches_change _

theorem touches_disable : Touches disable fun d => d.disable.1 := touches_change _

theorem Touches.when {op : Fleet → Handle → Fleet} {g : Device → Device} (touches : Touches op g)
    (test : Device → Bool) :
    Touches (fun f h => match f.device? h with
      | some d => if test d then op f h else f
      | none => f) fun d => if test d then g d else d where
  roster f h := by
    split
    · split
      · exact touches.roster f h
      · rfl
    · rfl
  device? f h k := by
    by_cases same : h = k
    · subst same
      rw [if_pos rfl]
      cases found : f.device? h with
      | none => exact found
      | some d =>
          by_cases passes : test d = true
          · simp [passes, touches.device?, found]
          · simp [passes, found]
    · rw [if_neg same]
      split
      · split
        · rw [touches.device?, if_neg same]
        · rfl
      · rfl

theorem touches_start : Touches (fun f h => (f.start h).1) fun d => d.start.1 where
  roster f h := by
    unfold start
    split
    · rfl
    · exact (touches_change _).roster f h
  device? f h k := by
    unfold start
    split
    · next gone =>
        split
        · next same => subst same; rw [gone]; rfl
        · rfl
    · exact (touches_change _).device? f h k

theorem touches_begin : Touches begin fun d => d.start.1 where
  roster f h := by
    have started := touches_start.roster f h
    unfold begin
    split
    · rfl
    · dsimp only
      split <;> exact started
  device? f h k := by
    have started := touches_start.device? f h k
    unfold begin
    split
    · next gone =>
        split
        · next same => subst same; rw [gone]; rfl
        · rfl
    · dsimp only
      split
      · exact started
      · exact started

/-! ### Passes -/

section Pass

variable {op : Fleet → Handle → Fleet} {g : Device → Device}

theorem Touches.roster_each (touches : Touches op g) (hs : List Handle) (f : Fleet) :
    (f.each hs op).roster = f.roster := by
  induction hs generalizing f with
  | nil => rfl
  | cons h rest ih => exact (ih (op f h)).trans (touches.roster f h)

/-- A pass changes a device once for each time that its handle is on the list. -/
theorem Touches.device?_each (touches : Touches op g) (hs : List Handle) (f : Fleet)
    (k : Handle) : (f.each hs op).device? k = (f.device? k).map g^[hs.count k] := by
  induction hs generalizing f with
  | nil => exact Option.map_id'.symm
  | cons h rest ih =>
      have later := ih (op f h)
      rw [touches.device?] at later
      refine later.trans ?_
      by_cases same : h = k
      · subst same
        rw [if_pos rfl, List.count_cons_self, Option.map_map, ← Function.iterate_succ]
      · rw [if_neg same, List.count_cons_of_ne same]

theorem Touches.live_each (touches : Touches op g) (hs : List Handle) (f : Fleet) :
    (f.each hs op).live = f.live := by
  unfold live
  rw [touches.roster_each]
  refine List.filter_congr fun k _ => ?_
  rw [isKept_eq, isKept_eq, touches.device?_each, Option.isSome_map]

theorem Touches.device?_pass (touches : Touches op g) {f : Fleet} {h : Handle} {d' : Device}
    (live : h ∈ (f.each f.live op).live) (found : (f.each f.live op).device? h = some d') :
    ∃ d n, f.device? h = some d ∧ d' = g^[n] (g d) := by
  have registered : h ∈ f.roster.devices := touches.roster_each f.live f ▸ (mem_live.mp live).1
  rw [touches.device?_each] at found
  obtain ⟨d, before, rfl⟩ := Option.map_eq_some_iff.mp found
  have listed : 0 < f.live.count h := List.count_pos_iff.mpr (mem_live.mpr ⟨registered, d, before⟩)
  obtain ⟨n, counted⟩ := Nat.exists_eq_succ_of_ne_zero (Nat.pos_iff_ne_zero.mp listed)
  rw [counted]
  exact ⟨d, n, before, rfl⟩

end Pass

end Fleet

end RobotControl
