import RobotControl.Device.Basic
import RobotControl.Identity

/-!
# The fleet

All devices of an application with the clock and the hub they look at.  A device is kept under a
handle of its own, by the application and by the triggers that watch it; devices that nobody keeps
stay as they were left and take part in nothing any more.  Below them stands the roster: the devices
that live with the robot.  It knows handles only, so letting go of a device takes it out of every
pass.
-/
set_option autoImplicit false

namespace RobotControl

structure Handle where
  number : Nat
  deriving DecidableEq, Repr, Inhabited

/-- A device with its identity; `held` until the application lets it go. -/
structure Slot where
  id : DeviceId
  device : Device
  held : Bool := true
  watchers : Nat := 0

def Slot.isKept (s : Slot) : Bool := s.held || s.watchers ≠ 0

/-- The registered devices.  Before the robot has started, new ones wait to be started. -/
structure Roster where
  devices : List Handle := []
  waiting : List Handle := []
  begun : List DeviceId := []
  started : Bool := false

structure Fleet where
  now : Nat := 0
  slots : Assoc Handle Slot := ∅
  hub : Hub := ∅
  roster : Roster := {}
  log : List Line := []

namespace Fleet

/-! ### Single devices -/

def slot? (f : Fleet) (h : Handle) : Option Slot := (f.slots.get? h).filter Slot.isKept

def device? (f : Fleet) (h : Handle) : Option Device := (f.slot? h).map (·.device)

def isKept (f : Fleet) (h : Handle) : Bool := (f.slot? h).isSome

def isHeld (f : Fleet) (h : Handle) : Bool := (f.slots.get? h).any (·.held)

def note (f : Fleet) (lines : List Line) : Fleet := { f with log := f.log ++ lines }

def add (f : Fleet) (id : DeviceId) (d : Device) : Fleet × Handle :=
  let h : Handle := ⟨f.slots.size⟩
  ({ f with slots := f.slots.put h { id := id, device := d } }, h)

def change (f : Fleet) (h : Handle) (op : Device → Device × List Line) : Fleet :=
  match f.slot? h with
  | none => f
  | some s =>
      let r := op s.device
      { f with slots := f.slots.put h { s with device := r.1 }, log := f.log ++ r.2 }

def enable (f : Fleet) (h : Handle) : Fleet := f.change h fun d => (d.enable, [])

def disable (f : Fleet) (h : Handle) : Fleet := f.change h Device.disable

def start (f : Fleet) (h : Handle) : Fleet × Except Fault Unit :=
  match f.device? h with
  | none => (f, .ok ())
  | some d => (f.change h fun d => ((d.start).1, (d.start).2.1), (d.start).2.2)

/-- Puts a slot with other keepers; a device that nobody keeps any more is released. -/
def settle (f : Fleet) (h : Handle) (s : Slot) : Fleet :=
  if s.isKept then { f with slots := f.slots.put h s }
  else
    let r := s.device.release
    { f with slots := f.slots.put h { s with device := r.1 }, log := f.log ++ r.2 }

def keep (f : Fleet) (h : Handle) (change : Slot → Slot) : Fleet :=
  match f.slot? h with
  | none => f
  | some s => f.settle h (change s)

def drop (f : Fleet) (h : Handle) : Fleet := f.keep h fun s => { s with held := false }

def watch (f : Fleet) (h : Handle) : Fleet :=
  f.keep h fun s => { s with watchers := s.watchers + 1 }

def unwatch (f : Fleet) (h : Handle) : Fleet :=
  f.keep h fun s => { s with watchers := s.watchers - 1 }

/-! ### The roster -/

/-- The registered devices that are still kept, in the order of their registration. -/
def live (f : Fleet) : List Handle := f.roster.devices.filter f.isKept

def names (f : Fleet) : List String := f.live.filterMap fun h => (f.device? h).map Device.name

def each (f : Fleet) (hs : List Handle) (op : Fleet → Handle → Fleet) : Fleet := hs.foldl op f

def begin (f : Fleet) (h : Handle) : Fleet :=
  match f.device? h with
  | none => f
  | some d =>
      let r := f.start h
      match r.2 with
      | .ok () => r.1
      | .error e =>
          r.1.note [⟨.warning, "pirobot_kernel::registry", "device failed to begin",
            [("device", .shown d.name), ("error", .shown e.message)]⟩]

def knows (f : Fleet) (id : DeviceId) : Bool :=
  f.live.any fun h => (f.slot? h).any fun s => s.id = id

/-- Adds a device to the roster, once.  It is started now if the roster has started, and with the
roster otherwise. -/
def register (f : Fleet) (h : Handle) : Fleet :=
  match f.slot? h with
  | none => f
  | some s =>
      if f.knows s.id then f
      else
        let r := f.roster
        let r : Roster := { r with devices := r.devices ++ [h] }
        if r.started then
          { f with roster := { r with begun := r.begun ++ [s.id] } }.begin h
        else { f with roster := { r with waiting := r.waiting ++ [h] } }

/-- Of the given devices those kept ones whose identity has not begun, each identity once; with
the identities that have begun after them. -/
def unbegun (f : Fleet) : List Handle → List DeviceId → List Handle × List DeviceId
  | [], begun => ([], begun)
  | h :: rest, begun =>
      match f.slot? h with
      | none => f.unbegun rest begun
      | some s =>
          if begun.contains s.id then f.unbegun rest begun
          else
            let r := f.unbegun rest (begun ++ [s.id])
            (h :: r.1, r.2)

def disableAll (f : Fleet) : Fleet := f.each f.live disable

def startRoster (f : Fleet) : Fleet :=
  let fresh := f.unbegun f.roster.waiting f.roster.begun
  let f := { f with roster := { f.roster with started := true, waiting := [], begun := fresh.2 } }
  (f.each fresh.1 begin).disableAll

/-! ### Passes over the live devices -/

def enableMatching (f : Fleet) : Fleet :=
  f.each f.live fun f h =>
    match f.device? h with
    | some d => if d.followsMode && !d.isEnabled then f.enable h else f
    | none => f

def disableMatching (f : Fleet) : Fleet :=
  f.each f.live fun f h =>
    match f.device? h with
    | some d => if d.followsMode && d.isEnabled then f.disable h else f
    | none => f

def disableWatched (f : Fleet) : Fleet :=
  f.each f.live fun f h =>
    match f.device? h with
    | some d => if d.watched then f.disable h else f
    | none => f

def watchedOn (f : Fleet) : List String :=
  f.live.filterMap fun h =>
    (f.device? h).bind fun d => if d.watched && d.isEnabled then some d.name else none

/-- Switches on what the watchdog looks after, except what follows the mode of a disabled robot. -/
def enableWatched (f : Fleet) (robotEnabled : Bool) : Fleet :=
  f.each f.live fun f h =>
    match f.device? h with
    | some d => if d.watched && (!d.followsMode || robotEnabled) then f.enable h else f
    | none => f

end Fleet

end RobotControl
