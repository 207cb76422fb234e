import RobotControl.Proofs.Device.Handles

/-!
# What the roster asks of its devices

All that the roster does to a device is to call it.  So each thing that can happen to a fleet is
split into what it changes about the keepers and the roster (`Fleet.book`), and the calls that
follow (`Fleet.callsOf`), in their order (`Fleet.happen_eq`).  What a device has become is told by
the calls that were its own (`Fleet.device?_happen`).
-/
set_option autoImplicit false

namespace RobotControl

namespace Fleet

/-- The identity under a handle, whether the device is kept or not. -/
def ident (f : Fleet) (h : Handle) : Option DeviceId := (f.slots.get? h).map (·.id)

variable {f g : Fleet} {h k : Handle}

theorem ident_of_slot? {s : Slot} (found : f.slot? h = some s) : f.ident h = some s.id :=
  congrArg _ (Option.filter_eq_some_iff.mp found).1

theorem ident_of_isKept (kept : f.isKept h = true) : ∃ id, f.ident h = some id := by
  obtain ⟨s, found⟩ := Option.isSome_iff_exists.mp kept
  exact ⟨s.id, ident_of_slot? found⟩

theorem ident_put {s t : Slot} (found : f.slot? h = some s) (put : g.slots = f.slots.put h t)
    (same : t.id = s.id) (k : Handle) : g.ident k = f.ident k := by
  unfold ident
  rw [put, Assoc.get?_put]
  split
  · next here =>
      subst here
      exact (congrArg some same).trans (ident_of_slot? found).symm
  · rfl

theorem ident_change (f : Fleet) (h : Handle) (op : Device → Device × List Line) (k : Handle) :
    (f.change h op).ident k = f.ident k := by
  cases found : f.slot? h with
  | none => simp only [change, found]
  | some s =>
      have put : (f.change h op).slots = f.slots.put h { s with device := (op s.device).1 } := by
        simp only [change, found]
      exact ident_put found put rfl k

theorem ident_begin (f : Fleet) (h k : Handle) : (f.begin h).ident k = f.ident k := by
  have started : (f.start h).1.ident k = f.ident k := by
    unfold start
    split
    · rfl
    · exact ident_change f h _ k
  unfold begin
  split
  · rfl
  · dsimp only
    split <;> exact started

/-- What a keeper takes or gives back changes one slot, and a device that is still kept as told. -/
theorem keep_cases (f : Fleet) (h : Handle) (change : Slot → Slot) :
    f.keep h change = f ∨ ∃ s t, f.slot? h = some s ∧ t.id = (change s).id ∧
      (t.isKept = true → t = change s) ∧ (f.keep h change).slots = f.slots.put h t := by
  unfold keep
  cases f.slot? h with
  | none => exact .inl rfl
  | some s =>
      refine .inr ?_
      dsimp only
      unfold settle
      by_cases kept : (change s).isKept = true
      · rw [if_pos kept]
        exact ⟨s, change s, rfl, rfl, fun _ => rfl, rfl⟩
      · rw [if_neg kept]
        exact ⟨s, { change s with device := (change s).device.release.1 }, rfl, rfl,
          fun still => (kept still).elim, rfl⟩

theorem device?_keep {change : Slot → Slot} {d' : Device}
    (keeps : ∀ s, (change s).device = s.device) (found : (f.keep h change).device? k = some d') :
    f.device? k = some d' := by
  rcases keep_cases f h change with same | ⟨s, t, slot, _, still, put⟩
  · rwa [same] at found
  · unfold device? at found
    rw [slot?_put f _ h k _ put] at found
    split at found
    · next here =>
        subst here
        obtain ⟨u, there, rfl⟩ := Option.map_eq_some_iff.mp found
        obtain ⟨same, kept⟩ := Option.filter_eq_some_iff.mp there
        obtain rfl := Option.some.inj same
        rw [still kept, keeps]
        exact device?_eq_some.mpr ⟨s, slot, rfl⟩
    · exact found

theorem ident_keep {change : Slot → Slot} (keeps : ∀ s, (change s).id = s.id) (f : Fleet)
    (h k : Handle) : (f.keep h change).ident k = f.ident k := by
  rcases keep_cases f h change with same | ⟨s, t, slot, id, _, put⟩
  · rw [same]
  · exact ident_put slot put (id.trans (keeps s)) k

theorem roster_keep (f : Fleet) (h : Handle) (change : Slot → Slot) :
    (f.keep h change).roster = f.roster := by
  unfold keep
  split
  · rfl
  · unfold settle
    split <;> rfl

end Fleet

/-! ### Calls -/

/-- What the roster can ask of a device. -/
inductive Call where
  | begin (h : Handle)
  | enable (h : Handle)
  | disable (h : Handle)
  deriving DecidableEq

namespace Call

def handle : Call → Handle
  | begin h | enable h | disable h => h

def run (f : Fleet) : Call → Fleet
  | begin h => f.begin h
  | enable h => f.enable h
  | disable h => f.disable h

def effect (d : Device) : Call → Device
  | begin _ => d.start.1
  | enable _ => d.enable
  | disable _ => d.disable.1

/-- The device that is begun by the call. -/
def begun : Call → Option Handle
  | begin h => some h
  | _ => none

theorem device?_run (f : Fleet) (c : Call) (k : Handle) :
    (c.run f).device? k = if c.handle = k then (f.device? k).map (effect · c) else f.device? k := by
  cases c with
  | begin h => exact Fleet.touches_begin.device? f h k
  | enable h => exact Fleet.touches_enable.device? f h k
  | disable h => exact Fleet.touches_disable.device? f h k

theorem roster_run (f : Fleet) (c : Call) : (c.run f).roster = f.roster := by
  cases c with
  | begin h => exact Fleet.touches_begin.roster f h
  | enable h => exact Fleet.touches_enable.roster f h
  | disable h => exact Fleet.touches_disable.roster f h

theorem ident_run (f : Fleet) (c : Call) (k : Handle) : (c.run f).ident k = f.ident k := by
  cases c with
  | begin h => exact Fleet.ident_begin f h k
  | enable h => exact Fleet.ident_change f h _ k
  | disable h => exact Fleet.ident_change f h _ k

theorem handles_run (f : Fleet) (c : Call) : (c.run f).handles = f.handles := by
  cases c with
  | begin h => exact Fleet.handles_begin f h
  | enable h => exact Fleet.handles_enable f h
  | disable h => exact Fleet.handles_disable f h

end Call

namespace Fleet

def perform (f : Fleet) (calls : List Call) : Fleet := calls.foldl Call.run f

variable {f : Fleet}

theorem perform_append (f : Fleet) (calls more : List Call) :
    f.perform (calls ++ more) = (f.perform calls).perform more := List.foldl_append

theorem perform_keeps {α : Type} (view : Fleet → α) (keeps : ∀ f c, view (Call.run f c) = view f)
    (f : Fleet) (calls : List Call) : view (f.perform calls) = view f := by
  induction calls generalizing f with
  | nil => rfl
  | cons c rest ih => exact (ih (c.run f)).trans (keeps f c)

theorem roster_perform (f : Fleet) (calls : List Call) : (f.perform calls).roster = f.roster :=
  perform_keeps Fleet.roster Call.roster_run f calls

theorem ident_perform (f : Fleet) (calls : List Call) (k : Handle) :
    (f.perform calls).ident k = f.ident k :=
  perform_keeps (fun f => f.ident k) (fun f c => c.ident_run f k) f calls

theorem handles_perform (f : Fleet) (calls : List Call) :
    (f.perform calls).handles = f.handles :=
  perform_keeps Fleet.handles Call.handles_run f calls

theorem device?_perform (f : Fleet) (calls : List Call) (k : Handle) :
    (f.perform calls).device? k =
      (f.device? k).map fun d => (calls.filter (·.handle = k)).foldl Call.effect d := by
  induction calls generalizing f with
  | nil => exact Option.map_id'.symm
  | cons c rest ih =>
      refine (ih (c.run f)).trans ?_
      rw [c.device?_run, List.filter_cons]
      by_cases own : c.handle = k
      · rw [if_pos own, if_pos (decide_eq_true own), Option.map_map]
        rfl
      · rw [if_neg own, if_neg (mt of_decide_eq_true own)]

theorem isKept_perform (f : Fleet) (calls : List Call) (k : Handle) :
    (f.perform calls).isKept k = f.isKept k := by
  rw [isKept_eq, isKept_eq, device?_perform, Option.isSome_map]

/-- The calls of a pass that looks at each device when its turn comes. -/
def passCalls (f : Fleet) (call : Handle → Call) (test : Device → Bool) : List Handle → List Call
  | [] => []
  | h :: rest =>
      if (f.device? h).any test then call h :: passCalls ((call h).run f) call test rest
      else passCalls f call test rest

theorem each_eq_perform (f : Fleet) (call : Handle → Call) (test : Device → Bool)
    (hs : List Handle) :
    (f.each hs fun f h => match f.device? h with
      | some d => if test d then (call h).run f else f
      | none => f) = f.perform (f.passCalls call test hs) := by
  induction hs generalizing f with
  | nil => rfl
  | cons h rest ih =>
      refine (ih _).trans ?_
      dsimp only
      rw [passCalls]
      cases f.device? h with
      | none => rfl
      | some d =>
          by_cases passes : test d = true
          · rw [Option.any_some, if_pos passes]
            dsimp only
            rw [if_pos passes]
            rfl
          · rw [Option.any_some, if_neg passes]
            dsimp only
            rw [if_neg passes]

theorem each_begin (f : Fleet) (hs : List Handle) :
    f.each hs begin = f.perform (hs.map .begin) := by
  rw [perform, List.foldl_map]
  rfl

theorem each_disable (f : Fleet) (hs : List Handle) :
    f.each hs disable = f.perform (hs.map .disable) := by
  rw [perform, List.foldl_map]
  rfl

theorem mem_passCalls {call : Handle → Call} {test : Device → Bool} {hs : List Handle} {c : Call}
    (called : c ∈ f.passCalls call test hs) : ∃ h ∈ hs, c = call h := by
  induction hs generalizing f with
  | nil => cases called
  | cons h rest ih =>
      unfold passCalls at called
      split at called
      · rcases List.mem_cons.mp called with first | later
        · exact ⟨h, List.mem_cons_self, first⟩
        · obtain ⟨k, listed, same⟩ := ih later
          exact ⟨k, List.mem_cons_of_mem h listed, same⟩
      · obtain ⟨k, listed, same⟩ := ih called
        exact ⟨k, List.mem_cons_of_mem h listed, same⟩

theorem begun_passCalls {call : Handle → Call} (other : ∀ h, (call h).begun = none)
    (f : Fleet) (test : Device → Bool) (hs : List Handle) :
    (f.passCalls call test hs).filterMap Call.begun = [] := by
  refine List.filterMap_eq_nil_iff.mpr fun c called => ?_
  obtain ⟨h, _, rfl⟩ := mem_passCalls called
  exact other h

theorem begun_disables (hs : List Handle) :
    (hs.map Call.disable).filterMap Call.begun = [] := by
  rw [List.filterMap_map]
  exact List.filterMap_eq_nil_iff.mpr fun _ _ => rfl

theorem begun_begins (hs : List Handle) : (hs.map Call.begin).filterMap Call.begun = hs := by
  rw [List.filterMap_map]
  exact List.filterMap_some

end Fleet

/-! ### What happens to a fleet -/

namespace Fleet

inductive Event where
  | make (id : DeviceId) (d : Device)
  | drop (h : Handle)
  | watch (h : Handle)
  | unwatch (h : Handle)
  | register (h : Handle)
  | start
  | enableMatching
  | disableMatching
  | disableWatched
  | enableWatched (robotEnabled : Bool)
  | disableAll

def happen (f : Fleet) : Event → Fleet
  | .make id d => (f.add id d).1
  | .drop h => f.drop h
  | .watch h => f.watch h
  | .unwatch h => f.unwatch h
  | .register h => f.register h
  | .start => f.startRoster
  | .enableMatching => f.enableMatching
  | .disableMatching => f.disableMatching
  | .disableWatched => f.disableWatched
  | .enableWatched robotEnabled => f.enableWatched robotEnabled
  | .disableAll => f.disableAll

def Event.entry : Event → Option (DeviceId × Device)
  | .make id d => some (id, d)
  | _ => none

/-! ### The calls of an event -/

/-- The roster does not know the device yet. -/
def joins (f : Fleet) (h : Handle) : Bool := (f.slot? h).any fun s => !f.knows s.id

/-- A registration that calls nobody. -/
def enter (f : Fleet) (h : Handle) : Fleet :=
  match f.slot? h with
  | none => f
  | some s =>
      if f.knows s.id then f
      else
        let r : Roster := { f.roster with devices := f.roster.devices ++ [h] }
        if r.started then { f with roster := { r with begun := r.begun ++ [s.id] } }
        else { f with roster := { r with waiting := r.waiting ++ [h] } }

/-- The devices that a start begins. -/
def fresh (f : Fleet) : List Handle := (f.unbegun f.roster.waiting f.roster.begun).1

/-- A start that calls nobody. -/
def opened (f : Fleet) : Fleet :=
  let begun := (f.unbegun f.roster.waiting f.roster.begun).2
  { f with roster := { f.roster with started := true, waiting := [], begun := begun } }

/-- An event without its calls. -/
def book (f : Fleet) : Event → Fleet
  | .make id d => (f.add id d).1
  | .drop h => f.drop h
  | .watch h => f.watch h
  | .unwatch h => f.unwatch h
  | .register h => f.enter h
  | .start => f.opened
  | _ => f

def callsOf (f : Fleet) : Event → List Call
  | .register h => if f.joins h && f.roster.started then [.begin h] else []
  | .start => f.fresh.map .begin ++ f.live.map .disable
  | .enableMatching => f.passCalls .enable (fun d => d.followsMode && !d.isEnabled) f.live
  | .disableMatching => f.passCalls .disable (fun d => d.followsMode && d.isEnabled) f.live
  | .disableWatched => f.passCalls .disable Device.watched f.live
  | .enableWatched robotEnabled =>
      f.passCalls .enable (fun d => d.watched && (!d.followsMode || robotEnabled)) f.live
  | .disableAll => f.live.map .disable
  | _ => []

theorem register_eq (f : Fleet) (h : Handle) :
    f.register h = (f.enter h).perform (f.callsOf (.register h)) := by
  rw [callsOf]
  unfold register enter joins
  cases f.slot? h with
  | none => rfl
  | some s =>
      cases known : f.knows s.id with
      | true => simp [known]; rfl
      | false => cases started : f.roster.started <;> simp [known, started] <;> rfl

theorem startRoster_eq (f : Fleet) :
    f.startRoster = f.opened.perform (f.callsOf .start) := by
  rw [callsOf, perform_append, ← each_begin, ← each_disable]
  unfold startRoster disableAll
  have live : (f.opened.each f.fresh begin).live = f.opened.live := touches_begin.live_each ..
  exact congrArg (Fleet.each _ · _) live

theorem happen_eq (f : Fleet) (e : Event) : f.happen e = (f.book e).perform (f.callsOf e) := by
  cases e with
  | make | drop | watch | unwatch => rfl
  | register h => exact f.register_eq h
  | start => exact f.startRoster_eq
  | enableMatching => exact f.each_eq_perform .enable _ f.live
  | disableMatching => exact f.each_eq_perform .disable _ f.live
  | disableWatched => exact f.each_eq_perform .disable _ f.live
  | enableWatched => exact f.each_eq_perform .enable _ f.live
  | disableAll => exact f.each_disable f.live

/-! ### What an event leaves alone -/

variable {f : Fleet} {e : Event} {h k : Handle}

theorem enter_of_known (known : f.joins h = false) : f.enter h = f := by
  unfold joins at known
  unfold enter
  cases found : f.slot? h with
  | none => rfl
  | some s =>
      rw [found, Option.any_some, Bool.not_eq_false'] at known
      exact if_pos known

theorem enter_of_joins (new : f.joins h = true) :
    ∃ begun, (f.roster.started = false → begun = f.roster.begun) ∧
      f.enter h =
        { f with roster := {
            devices := f.roster.devices ++ [h]
            waiting := if f.roster.started then f.roster.waiting else f.roster.waiting ++ [h]
            begun := begun
            started := f.roster.started } } := by
  unfold joins at new
  unfold enter
  cases found : f.slot? h with
  | none => rw [found] at new; cases new
  | some s =>
      rw [found, Option.any_some, Bool.not_eq_true'] at new
      dsimp only
      rw [new]
      cases f.roster.started with
      | true => exact ⟨_, nofun, rfl⟩
      | false => exact ⟨_, fun _ => rfl, rfl⟩

theorem slots_enter (f : Fleet) (h : Handle) : (f.enter h).slots = f.slots := by
  cases joins : f.joins h with
  | false => rw [enter_of_known joins]
  | true =>
      obtain ⟨begun, _, entered⟩ := enter_of_joins joins
      rw [entered]

theorem handles_book (old : e.entry = none) (f : Fleet) : (f.book e).handles = f.handles := by
  cases e with
  | make => cases old
  | drop h => exact handles_keep f h _
  | watch h => exact handles_keep f h _
  | unwatch h => exact handles_keep f h _
  | register h => exact congrArg Assoc.keys (f.slots_enter h)
  | _ => rfl

theorem ident_book (old : e.entry = none) (f : Fleet) (k : Handle) :
    (f.book e).ident k = f.ident k := by
  cases e with
  | make => cases old
  | drop h => exact ident_keep (by intro; rfl) f h k
  | watch h => exact ident_keep (by intro; rfl) f h k
  | unwatch h => exact ident_keep (by intro; rfl) f h k
  | register h => exact congrArg (fun slots => (slots.get? k).map (·.id)) (f.slots_enter h)
  | _ => rfl

theorem device?_book {d : Device} (old : e.entry = none) (found : (f.book e).device? k = some d) :
    f.device? k = some d := by
  cases e with
  | make => cases old
  | drop h => exact device?_keep (by intro; rfl) found
  | watch h => exact device?_keep (by intro; rfl) found
  | unwatch h => exact device?_keep (by intro; rfl) found
  | register h => exact (device?_congr (f.slots_enter h) k).symm.trans found
  | _ => exact found

theorem handles_happen (old : e.entry = none) (f : Fleet) :
    (f.happen e).handles = f.handles := by
  rw [happen_eq, handles_perform, handles_book old]

theorem ident_happen (old : e.entry = none) (f : Fleet) (k : Handle) :
    (f.happen e).ident k = f.ident k := by
  rw [happen_eq, ident_perform, ident_book old]

theorem roster_happen (f : Fleet) (e : Event) : (f.happen e).roster = (f.book e).roster := by
  rw [happen_eq, roster_perform]

theorem device?_happen {d' : Device} (old : e.entry = none)
    (found : (f.happen e).device? k = some d') :
    ∃ d, f.device? k = some d ∧
      d' = ((f.callsOf e).filter (·.handle = k)).foldl Call.effect d := by
  rw [happen_eq, device?_perform] at found
  obtain ⟨d, before, called⟩ := Option.map_eq_some_iff.mp found
  exact ⟨d, device?_book old before, called.symm⟩

end Fleet

end RobotControl
