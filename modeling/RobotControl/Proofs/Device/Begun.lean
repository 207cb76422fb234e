import RobotControl.Proofs.Device.Calls

/-!
# Devices are begun once

A history lists, the latest event first, what happened to the devices and to the roster, and so it
tells in which order the devices have been called (`Fleet.calls`).  Of the calls, those that begin a
device are told beforehand by the registrations (`Fleet.due`): the first start begins the registered
devices that still live, and a device that is registered after it is begun at once.  Hence every
device is begun at most once, whatever comes of it (`Fleet.begun_once`).
-/
set_option autoImplicit false

namespace RobotControl

namespace Fleet

abbrev History := List Event

def after : History → Fleet
  | [] => {}
  | e :: earlier => happen (after earlier) e

/-- The devices that were made, each with its identity, the first one first. -/
def made : History → List (DeviceId × Device)
  | [] => []
  | e :: earlier => made earlier ++ e.entry.toList

def started : History → Bool
  | [] => false
  | .start :: _ => true
  | _ :: earlier => started earlier

/-- The devices that were registered, in the order of their first registrations.  What is gone
cannot be registered any more. -/
def registered : History → List Handle
  | [] => []
  | .register h :: earlier =>
      if (after earlier).isKept h = true ∧ h ∉ registered earlier then registered earlier ++ [h]
      else registered earlier
  | _ :: earlier => registered earlier

variable {f : Fleet} {h k : Handle}

/-! ### Identities -/

/-- Every device is kept under the number of those that were made before it. -/
structure Recorded (history : History) : Prop where
  numbered : (after history).Numbered
  size : (after history).slots.size = (made history).length
  ident : ∀ k, (after history).ident k = (made history)[k.number]?.map (·.1)

theorem made_cons {e : Event} (old : e.entry = none) (history : History) :
    made (e :: history) = made history := by
  rw [made, old, Option.toList_none, List.append_nil]

theorem ident_add (f : Fleet) (id : DeviceId) (d : Device) (k : Handle) :
    (f.add id d).1.ident k = if ⟨f.slots.size⟩ = k then some id else f.ident k := by
  unfold ident add
  dsimp only
  rw [Assoc.get?_put]
  split <;> rfl

theorem device?_make (f : Fleet) (id : DeviceId) (d : Device) (k : Handle) :
    (f.add id d).1.device? k = if ⟨f.slots.size⟩ = k then some d else f.device? k := by
  unfold device?
  rw [slot?_put f _ _ k _ rfl]
  split <;> rfl

theorem Recorded.make {history : History} (recorded : Recorded history) (id : DeviceId)
    (d : Device) : Recorded (.make id d :: history) where
  numbered := recorded.numbered.add id d
  size := by
    show ((after history).add id d).1.slots.size = (made history ++ [(id, d)]).length
    rw [size_eq, handles_add recorded.numbered, List.length_append, List.length_append, ← size_eq,
      recorded.size]
    rfl
  ident k := by
    show ((after history).add id d).1.ident k = (made history ++ [(id, d)])[k.number]?.map (·.1)
    rw [ident_add, recorded.size, recorded.ident]
    by_cases new : k.number = (made history).length
    · rw [new, List.getElem?_concat_length, if_pos]
      · rfl
      · exact congrArg Handle.mk new.symm
    · have other : (⟨(made history).length⟩ : Handle) ≠ k := fun same =>
        new (congrArg Handle.number same).symm
      rw [if_neg other]
      rcases Nat.lt_or_gt_of_ne new with less | more
      · rw [List.getElem?_append_left less]
      · rw [List.getElem?_eq_none (Nat.le_of_lt more), List.getElem?_eq_none]
        rw [List.length_append]
        exact more

theorem recorded (history : History) : Recorded history := by
  induction history with
  | nil => exact ⟨nofun, rfl, fun _ => rfl⟩
  | cons e earlier ih =>
      cases entry : e.entry with
      | none =>
          have same : (after (e :: earlier)).handles = (after earlier).handles :=
            handles_happen entry _
          refine ⟨ih.numbered.of_handles same, ?_, fun k => ?_⟩
          · rw [size_eq, same, ← size_eq, ih.size, made_cons entry]
          · rw [made_cons entry]
            exact (ident_happen entry _ k).trans (ih.ident k)
      | some p =>
          cases e with
          | make id d => exact ih.make id d
          | _ => cases entry

theorem lt_of_isKept {history : History} (kept : (after history).isKept k = true) :
    k.number < (made history).length := by
  obtain ⟨id, found⟩ := ident_of_isKept kept
  rw [(recorded history).ident, Option.map_eq_some_iff] at found
  obtain ⟨p, there, _⟩ := found
  exact (List.getElem?_eq_some_iff.mp there).1

/-- No two devices were made with the same identity. -/
def Distinguished (history : History) : Prop := ((made history).map (·.1)).Nodup

theorem Distinguished.before {e : Event} {earlier : History}
    (distinct : Distinguished (e :: earlier)) : Distinguished earlier := by
  unfold Distinguished at distinct
  rw [made, List.map_append] at distinct
  exact (List.nodup_append.mp distinct).1

def Distinct (f : Fleet) : Prop := ∀ h k id, f.ident h = some id → f.ident k = some id → h = k

theorem Distinguished.after {history : History} (distinct : Distinguished history) :
    (after history).Distinct := by
  intro h k id first second
  rw [(recorded history).ident, ← List.getElem?_map] at first second
  have inside := (List.getElem?_eq_some_iff.mp first).1
  have number := (List.getElem?_inj inside distinct).mp (first.trans second.symm)
  obtain ⟨m⟩ := h
  obtain ⟨n⟩ := k
  exact congrArg Handle.mk number

/-! ### The roster in step -/

theorem unbegun_eq (distinct : f.Distinct) {hs : List Handle} (once : hs.Nodup)
    {begun : List DeviceId} (unknown : ∀ h ∈ hs, ∀ id, f.ident h = some id → id ∉ begun) :
    (f.unbegun hs begun).1 = hs.filter f.isKept := by
  induction hs generalizing begun with
  | nil => rfl
  | cons h rest ih =>
      obtain ⟨other, once⟩ := List.nodup_cons.mp once
      have later := fun k listed => unknown k (List.mem_cons_of_mem h listed)
      unfold unbegun
      cases found : f.slot? h with
      | none =>
          have gone : ¬ f.isKept h = true := by simp [isKept, found]
          rw [List.filter_cons_of_neg gone]
          exact ih once later
      | some s =>
          have kept : f.isKept h = true := by simp [isKept, found]
          have identity := ident_of_slot? found
          have new : ¬ begun.contains s.id = true :=
            mt List.contains_iff_mem.mp (unknown h List.mem_cons_self s.id identity)
          rw [List.filter_cons_of_pos kept]
          dsimp only
          rw [if_neg new]
          -- the identity that begins now is not met again, as no two handles share one
          refine congrArg (h :: ·) (ih once fun k listed id known member => ?_)
          rcases List.mem_append.mp member with old | last
          · exact later k listed id known old
          · obtain rfl := List.mem_singleton.mp last
            exact other (distinct h k s.id identity known ▸ listed)

theorem joins_iff (distinct : f.Distinct) :
    f.joins h = true ↔ f.isKept h = true ∧ h ∉ f.roster.devices := by
  have known : ∀ s, f.slot? h = some s → (f.knows s.id = true ↔ h ∈ f.roster.devices) := by
    intro s found
    have kept : f.isKept h = true := by simp [isKept, found]
    refine List.any_eq_true.trans ⟨?_, fun listed => ?_⟩
    · rintro ⟨k, live, same⟩
      obtain ⟨t, there, same⟩ := (Option.any_eq_true ..).mp same
      have both := ident_of_slot? there
      rw [of_decide_eq_true same] at both
      obtain rfl := distinct h k s.id (ident_of_slot? found) both
      exact (List.mem_filter.mp live).1
    · exact ⟨h, List.mem_filter.mpr ⟨listed, kept⟩, by simp [found]⟩
  unfold joins
  cases found : f.slot? h with
  | none => simp [isKept, found]
  | some s => simp [isKept, found, ← known s found]

/-- What the roster notes of a history. -/
structure InStep (history : History) : Prop where
  devices : (after history).roster.devices = registered history
  running : (after history).roster.started = started history
  waiting : (after history).roster.waiting = if started history then [] else registered history
  begun : started history = false → (after history).roster.begun = []

theorem InStep.of_roster {history earlier : History} (step : InStep earlier)
    (same : (after history).roster = (after earlier).roster)
    (on : started history = started earlier) (told : registered history = registered earlier) :
    InStep history where
  devices := by rw [same, step.devices, told]
  running := by rw [same, step.running, on]
  waiting := by rw [same, step.waiting, on, told]
  begun off := by rw [same, step.begun (on ▸ off)]

theorem nodup_registered (history : History) : (registered history).Nodup := by
  induction history with
  | nil => exact .nil
  | cons e earlier ih =>
      cases e with
      | register h =>
          unfold registered
          split
          · next both =>
              have single := List.pairwise_singleton (· ≠ ·) h
              refine List.nodup_append.mpr ⟨ih, single, fun k old j new same => ?_⟩
              exact both.2 (List.mem_singleton.mp new ▸ same ▸ old)
          · exact ih
      | _ => exact ih

theorem InStep.register {earlier : History} (step : InStep earlier)
    (distinct : (after earlier).Distinct) (h : Handle) : InStep (.register h :: earlier) := by
  have told := roster_happen (after earlier) (.register h)
  cases joins : (after earlier).joins h with
  | false =>
      refine step.of_roster (told.trans ?_) rfl ?_
      · exact congrArg Fleet.roster (enter_of_known joins)
      · have known := mt (joins_iff distinct).mpr (joins ▸ Bool.false_ne_true)
        rw [step.devices] at known
        exact if_neg known
  | true =>
      obtain ⟨begun, unchanged, entered⟩ := enter_of_joins joins
      have new := (joins_iff distinct).mp joins
      rw [step.devices] at new
      have more : registered (.register h :: earlier) = registered earlier ++ [h] := if_pos new
      have entered := told.trans (congrArg Fleet.roster entered)
      refine ⟨?_, ?_, ?_, fun off => ?_⟩
      · rw [more, ← step.devices]
        exact congrArg Roster.devices entered
      · exact (congrArg Roster.started entered).trans step.running
      · refine (congrArg Roster.waiting entered).trans ?_
        show (if (after earlier).roster.started = true then _ else _ ++ [h]) =
          if started earlier = true then [] else registered (.register h :: earlier)
        rw [step.running, step.waiting, more]
        cases started earlier <;> rfl
      · refine (congrArg Roster.begun entered).trans ?_
        exact (unchanged (step.running.trans off)).trans (step.begun off)

theorem inStep {history : History} (distinct : Distinguished history) :
    InStep history := by
  induction history with
  | nil => exact ⟨rfl, rfl, rfl, fun _ => rfl⟩
  | cons e earlier ih =>
      have before : Distinguished earlier := distinct.before
      have step := ih before
      have told := roster_happen (after earlier) e
      cases e with
      | register h => exact step.register before.after h
      | start =>
          refine ⟨?_, ?_, ?_, nofun⟩
          · exact (congrArg Roster.devices told).trans step.devices
          · exact congrArg Roster.started told
          · exact congrArg Roster.waiting told
      | drop | watch | unwatch => exact step.of_roster (told.trans (roster_keep ..)) rfl rfl
      | _ => exact step.of_roster told rfl rfl

/-! ### Who is begun when -/

def calls : History → List Call
  | [] => []
  | e :: earlier => calls earlier ++ (after earlier).callsOf e

/-- The devices in the order in which they were begun. -/
def begins (history : History) : List Handle := (calls history).filterMap Call.begun

/-- What is to be begun by the next event: at the first start the registered devices that live, and
from then on each new one as it is registered. -/
def due (history : History) : Event → List Handle
  | .start => if started history then [] else (registered history).filter (after history).isKept
  | .register h =>
      if started history ∧ (after history).isKept h = true ∧ h ∉ registered history then [h]
      else []
  | _ => []

variable {history : History}

theorem live_eq (distinct : Distinguished history) :
    (after history).live = (registered history).filter (after history).isKept := by
  rw [live, (inStep distinct).devices]

theorem fresh_eq (distinct : Distinguished history) :
    (after history).fresh = due history .start := by
  have step := inStep distinct
  unfold fresh due
  rw [step.waiting]
  cases on : started history with
  | true => rfl
  | false =>
      rw [step.begun on]
      exact unbegun_eq distinct.after (nodup_registered history) nofun

theorem begun_callsOf (distinct : Distinguished history) (e : Event) :
    ((after history).callsOf e).filterMap Call.begun = due history e := by
  cases e with
  | register h =>
      have step := inStep distinct
      have joins := joins_iff (h := h) distinct.after
      rw [step.devices] at joins
      rw [callsOf, due, step.running]
      by_cases new : started history = true ∧ (after history).joins h = true
      · rw [if_pos (Bool.and_eq_true_iff.mpr new.symm), if_pos ⟨new.1, joins.mp new.2⟩]
        rfl
      · rw [if_neg (mt Bool.and_eq_true_iff.mp fun both => new both.symm),
          if_neg fun both => new ⟨both.1, joins.mpr both.2⟩]
        rfl
  | start =>
      rw [callsOf, List.filterMap_append, begun_begins, begun_disables, List.append_nil]
      exact fresh_eq distinct
  | enableMatching | disableMatching | disableWatched | enableWatched =>
      exact begun_passCalls (fun _ => rfl) ..
  | disableAll => exact begun_disables _
  | make | drop | watch | unwatch => rfl

theorem begins_cons (distinct : Distinguished history) (e : Event) :
    begins (e :: history) = begins history ++ due history e := by
  rw [← begun_callsOf distinct]
  exact List.filterMap_append

theorem begins_of_off (distinct : Distinguished history)
    (off : started history = false) : begins history = [] := by
  induction history with
  | nil => rfl
  | cons e earlier ih =>
      have before : Distinguished earlier := distinct.before
      rw [begins_cons before]
      cases e with
      | start => cases off
      | register h =>
          have off : started earlier = false := off
          rw [ih before off, due, if_neg fun both => Bool.noConfusion (off.symm.trans both.1)]
          rfl
      | _ => exact (List.append_nil _).trans (ih before off)

theorem registered_cons (on : started history = true) (e : Event) :
    registered (e :: history) = registered history ++ due history e := by
  cases e with
  | register h =>
      rw [registered, due]
      by_cases new : (after history).isKept h = true ∧ h ∉ registered history
      · rw [if_pos new, if_pos ⟨on, new⟩]
      · rw [if_neg new, if_neg fun both => new both.2, List.append_nil]
  | start => rw [due, if_pos on]; exact (List.append_nil _).symm
  | _ => exact (List.append_nil _).symm

theorem started_append {earlier : History} (on : started earlier = true) (later : History) :
    started (later ++ earlier) = true := by
  induction later with
  | nil => exact on
  | cons e later ih =>
      cases e with
      | start => rfl
      | _ => exact ih

theorem begins_since {later earlier : History}
    (distinct : Distinguished (later ++ .start :: earlier))
    (off : started earlier = false) :
    ∃ newcomers, registered (later ++ .start :: earlier) = registered earlier ++ newcomers ∧
      begins (later ++ .start :: earlier) =
        (registered earlier).filter (after earlier).isKept ++ newcomers := by
  induction later with
  | nil =>
      have before : Distinguished earlier := distinct.before
      refine ⟨[], (List.append_nil _).symm, ?_⟩
      rw [List.nil_append, begins_cons before, begins_of_off before off, due,
        if_neg (off ▸ Bool.false_ne_true), List.append_nil, List.nil_append]
  | cons e later ih =>
      have before : Distinguished (later ++ .start :: earlier) := distinct.before
      obtain ⟨newcomers, known, begun⟩ := ih before
      have on : started (later ++ .start :: earlier) = true := started_append rfl later
      refine ⟨newcomers ++ due (later ++ .start :: earlier) e, ?_, ?_⟩
      · rw [List.cons_append, registered_cons on, known, List.append_assoc]
      · rw [List.cons_append, begins_cons before, begun, List.append_assoc]

theorem exists_firstStart (on : started history = true) :
    ∃ later earlier, history = later ++ .start :: earlier ∧ started earlier = false := by
  induction history with
  | nil => cases on
  | cons e earlier ih =>
      cases before : started earlier with
      | true =>
          obtain ⟨later, first, split, off⟩ := ih before
          exact ⟨e :: later, first, congrArg (e :: ·) split, off⟩
      | false =>
          cases e with
          | start => exact ⟨[], earlier, rfl, before⟩
          | _ => cases before.symm.trans on

/-- Devices are begun in the order of their registrations, and none of them twice. -/
theorem begins_sublist (distinct : Distinguished history) :
    (begins history).Sublist (registered history) := by
  cases on : started history with
  | false =>
      rw [begins_of_off distinct on]
      exact List.nil_sublist _
  | true =>
      obtain ⟨later, earlier, rfl, off⟩ := exists_firstStart on
      obtain ⟨newcomers, known, begun⟩ := begins_since distinct off
      rw [known, begun]
      exact List.filter_sublist.append_right newcomers

/-! ### What is gone, and what lives -/

theorem isKept_cons {e : Event} (kept : (after (e :: history)).isKept h = true)
    (old : h.number < (made history).length) : (after history).isKept h = true := by
  cases entry : e.entry with
  | none =>
      rw [isKept_eq, Option.isSome_iff_exists] at kept ⊢
      obtain ⟨d', found⟩ := kept
      obtain ⟨d, before, _⟩ := device?_happen entry found
      exact ⟨d, before⟩
  | some p =>
      cases e with
      | make id d =>
          rw [← (recorded history).size] at old
          have other : (⟨(after history).slots.size⟩ : Handle) ≠ h := by
            rintro rfl
            exact Nat.lt_irrefl _ old
          rw [isKept_eq] at kept ⊢
          rwa [after, happen, device?_make, if_neg other] at kept
      | _ => cases entry

theorem length_made_append (later earlier : History) :
    (made earlier).length ≤ (made (later ++ earlier)).length := by
  induction later with
  | nil => exact Nat.le_refl _
  | cons e later ih =>
      rw [List.cons_append, made, List.length_append]
      exact Nat.le_add_right_of_le ih

theorem isKept_append {later earlier : History}
    (kept : (after (later ++ earlier)).isKept h = true) (old : h.number < (made earlier).length) :
    (after earlier).isKept h = true := by
  induction later with
  | nil => exact kept
  | cons e later ih =>
      exact ih (isKept_cons kept (Nat.lt_of_lt_of_le old (length_made_append later earlier)))

theorem lt_of_registered (listed : h ∈ registered history) :
    h.number < (made history).length := by
  induction history with
  | nil => cases listed
  | cons e earlier ih =>
      refine Nat.lt_of_lt_of_le ?_ (length_made_append [e] earlier)
      cases e with
      | register k =>
          unfold registered at listed
          split at listed
          · next new =>
              rcases List.mem_append.mp listed with old | last
              · exact ih old
              · obtain rfl := List.mem_singleton.mp last
                exact lt_of_isKept new.1
          · exact ih listed
      | _ => exact ih listed

theorem isKept_of_due {e : Event} (listed : h ∈ due history e) :
    (after history).isKept h = true := by
  cases e with
  | start =>
      rw [due] at listed
      split at listed
      · cases listed
      · exact (List.mem_filter.mp listed).2
  | register k =>
      rw [due] at listed
      split at listed
      · next new => exact List.mem_singleton.mp listed ▸ new.2.1
      · cases listed
  | _ => cases listed

theorem not_begun_of_gone {later earlier : History} (distinct : Distinguished (later ++ earlier))
    (old : h.number < (made earlier).length) (gone : (after earlier).isKept h = false)
    (spared : h ∉ begins earlier) : h ∉ begins (later ++ earlier) := by
  induction later with
  | nil => exact spared
  | cons e later ih =>
      have before : Distinguished (later ++ earlier) := distinct.before
      intro begun
      rw [List.cons_append, begins_cons before] at begun
      rcases List.mem_append.mp begun with past | now
      · exact ih before past
      · cases gone.symm.trans (isKept_append (isKept_of_due now) old)

theorem begun_of_live (distinct : Distinguished history) (on : started history = true)
    (live : h ∈ (after history).live) : h ∈ begins history := by
  rw [live_eq distinct] at live
  obtain ⟨listed, kept⟩ := List.mem_filter.mp live
  obtain ⟨later, earlier, rfl, off⟩ := exists_firstStart on
  obtain ⟨newcomers, known, begun⟩ := begins_since distinct off
  rw [known] at listed
  rw [begun]
  rcases List.mem_append.mp listed with first | new
  · have atStart : (after earlier).isKept h = true :=
      isKept_cons (e := .start) (isKept_append kept (lt_of_registered first))
        (lt_of_registered first)
    exact List.mem_append_left _ (List.mem_filter.mpr ⟨first, atStart⟩)
  · exact List.mem_append_right _ new

theorem live_start (f : Fleet) : f.startRoster.live = f.live := by
  rw [startRoster_eq]
  unfold live
  rw [roster_perform]
  exact List.filter_congr fun k _ => isKept_perform ..

/-- A start switches off every live device after it was begun. -/
theorem disabled_since_begun (distinct : Distinguished history)
    (live : h ∈ (after (.start :: history)).live) :
    ∃ front back, calls (.start :: history) = front ++ .disable h :: back ∧
      .begin h ∈ front ∧ .begin h ∉ back := by
  have distinct' : Distinguished (.start :: history) := by
    rwa [Distinguished, made_cons rfl]
  have begun := begun_of_live distinct' rfl live
  have live : h ∈ (after history).live := live_start (after history) ▸ live
  obtain ⟨first, rest, split⟩ := List.append_of_mem live
  have told : calls (.start :: history) =
      (calls history ++ (after history).fresh.map .begin ++ first.map .disable) ++
        .disable h :: rest.map .disable := by
    rw [calls, callsOf, split, List.map_append, List.map_cons]
    simp only [List.append_assoc]
  have quiet : .begin h ∉ rest.map Call.disable := by simp
  refine ⟨_, _, told, ?_, quiet⟩
  obtain ⟨c, called, same⟩ := List.mem_filterMap.mp begun
  have here : c = .begin h := by
    cases c <;> cases same
    rfl
  rw [here, told] at called
  rcases List.mem_append.mp called with front | back
  · exact front
  · rcases List.mem_cons.mp back with same | later
    · cases same
    · exact (quiet later).elim

/-! ### What the calls make of a device -/

theorem isKept_of_called (distinct : Distinguished history) {e : Event} {c : Call}
    (called : c ∈ (after history).callsOf e) : (after history).isKept c.handle = true := by
  have kept_of_live : ∀ k ∈ (after history).live, (after history).isKept k = true :=
    fun k live => (List.mem_filter.mp live).2
  cases e with
  | register h =>
      rw [callsOf] at called
      split at called
      · next both =>
          obtain rfl := List.mem_singleton.mp called
          exact ((joins_iff distinct.after).mp (Bool.and_eq_true_iff.mp both).1).1
      · cases called
  | start =>
      rcases List.mem_append.mp called with begins | disables
      · obtain ⟨k, listed, rfl⟩ := List.mem_map.mp begins
        rw [fresh_eq distinct] at listed
        exact isKept_of_due listed
      · obtain ⟨k, live, rfl⟩ := List.mem_map.mp disables
        exact kept_of_live k live
  | enableMatching | disableMatching | disableWatched | enableWatched =>
      obtain ⟨k, live, rfl⟩ := mem_passCalls called
      exact kept_of_live k live
  | disableAll =>
      obtain ⟨k, live, rfl⟩ := List.mem_map.mp called
      exact kept_of_live k live
  | make | drop | watch | unwatch => cases called

theorem lt_of_called (distinct : Distinguished history) {c : Call} (called : c ∈ calls history) :
    c.handle.number < (made history).length := by
  induction history with
  | nil => cases called
  | cons e earlier ih =>
      have before : Distinguished earlier := distinct.before
      refine Nat.lt_of_lt_of_le ?_ (length_made_append [e] earlier)
      rcases List.mem_append.mp called with past | now
      · exact ih before past
      · exact lt_of_isKept (isKept_of_called before now)

def callsTo (history : History) (h : Handle) : List Call := (calls history).filter (·.handle = h)

theorem device?_after (distinct : Distinguished history) {d : Device}
    (found : (after history).device? h = some d) :
    ∃ id d₀, (made history)[h.number]? = some (id, d₀) ∧
      d = (callsTo history h).foldl Call.effect d₀ := by
  induction history generalizing d with
  | nil => cases found
  | cons e earlier ih =>
      have before : Distinguished earlier := distinct.before
      cases entry : e.entry with
      | none =>
          obtain ⟨d₁, past, now⟩ := device?_happen entry found
          obtain ⟨id, d₀, there, told⟩ := ih before past
          refine ⟨id, d₀, made_cons entry earlier ▸ there, ?_⟩
          rw [callsTo, calls, List.filter_append, List.foldl_append, now, told]
          rfl
      | some p =>
          cases e with
          | make id d₁ =>
              have same : callsTo (.make id d₁ :: earlier) h = callsTo earlier h :=
                congrArg (List.filter _) (List.append_nil _)
              have size := (recorded earlier).size
              rw [after, happen, device?_make] at found
              rw [same]
              split at found
              · next new =>
                  obtain rfl : d₁ = d := Option.some.inj found
                  have there : (made (.make id d₁ :: earlier))[h.number]? = some (id, d₁) := by
                    rw [← new, size]
                    exact List.getElem?_concat_length
                  -- whoever was called so far has a smaller number
                  have uncalled : callsTo earlier h = [] := by
                    refine List.filter_eq_nil_iff.mpr fun c called own => ?_
                    have less := lt_of_called before called
                    rw [of_decide_eq_true own, ← new, size] at less
                    exact Nat.lt_irrefl _ less
                  exact ⟨id, d₁, there, by rw [uncalled]; rfl⟩
              · obtain ⟨id', d₀, there, told⟩ := ih before found
                refine ⟨id', d₀, ?_, told⟩
                rw [made, List.getElem?_append_left (List.getElem?_eq_some_iff.mp there).1]
                exact there
          | _ => cases entry

/-! ### Every device is begun once -/

structure BegunOnce (history : History) : Prop where
  /-- Every device that is kept is what its calls have made of the one that was made. -/
  faithful : ∀ h d, (after history).device? h = some d →
    ∃ id d₀, (made history)[h.number]? = some (id, d₀) ∧
      d = (callsTo history h).foldl Call.effect d₀
  listed : (after history).live = (registered history).filter (after history).isKept
  once : (registered history).Nodup ∧ (begins history).Nodup
  /-- Whatever comes next begins what is due, as often and in the order as it is due. -/
  duly : ∀ e, ((after history).callsOf e).filterMap Call.begun = due history e
  before : started history = false → begins history = []
  since : ∀ later earlier, history = later ++ .start :: earlier → started earlier = false →
    ∃ newcomers, registered history = registered earlier ++ newcomers ∧
      begins history = (registered earlier).filter (after earlier).isKept ++ newcomers
  /-- What was let go before it was begun is never begun. -/
  gone : ∀ later earlier, history = later ++ earlier → ∀ h, h.number < (made earlier).length →
    (after earlier).isKept h = false → h ∉ begins earlier → h ∉ begins history
  /-- When a start returns, what lives has been switched off after its begin. -/
  disabled : ∀ h ∈ (after (.start :: history)).live,
    ∃ front back, calls (.start :: history) = front ++ .disable h :: back ∧
      .begin h ∈ front ∧ .begin h ∉ back

/-- Over devices with identities of their own, any history begins every device as often as it
should: once if it has lived to the first start or is registered after it, and never otherwise. -/
theorem begun_once (history : History) (distinct : Distinguished history) :
    BegunOnce history where
  faithful _ _ found := device?_after distinct found
  listed := live_eq distinct
  once := ⟨nodup_registered history, (nodup_registered history).sublist (begins_sublist distinct)⟩
  duly := begun_callsOf distinct
  before := begins_of_off distinct
  since := by
    rintro later earlier rfl off
    exact begins_since distinct off
  gone := by
    rintro later earlier rfl h old gone spared
    exact not_begun_of_gone distinct old gone spared
  disabled _ live := disabled_since_begun distinct live

/-- The first device fails to begin and is registered twice, the second one is gone before the
start, the last one comes after it; then the start is repeated. -/
def bustle : History :=
  [.start, .register ⟨3⟩, .start, .disableAll, .drop ⟨1⟩, .register ⟨2⟩, .register ⟨0⟩,
    .register ⟨1⟩, .register ⟨0⟩,
    .make ⟨4⟩ (.relay { name := "late" }), .make ⟨3⟩ (.relay { name := "sound" }),
    .make ⟨2⟩ (.relay { name := "gone" }),
    .make ⟨1⟩ (.relay { name := "stuck", startFault := some "jammed" })]

theorem begun_once_bustle :
    (Distinguished bustle ∧ BegunOnce bustle) ∧ begins bustle = [⟨0⟩, ⟨2⟩, ⟨3⟩] ∧
      (after bustle).live = [⟨0⟩, ⟨2⟩, ⟨3⟩] ∧
      (after bustle).device? ⟨0⟩ = some (.relay
        { name := "stuck", startFault := some "jammed", begins := 1, disables := 3 }) :=
  have distinct : Distinguished bustle := by
    show ((made bustle).map (·.1)).Nodup
    decide
  ⟨⟨distinct, begun_once bustle distinct⟩, rfl, rfl, rfl⟩

end Fleet

end RobotControl
