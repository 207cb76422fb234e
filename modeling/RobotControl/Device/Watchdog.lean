import RobotControl.Device.Fleet
import RobotControl.Profile

/-!
# The watchdog

Whoever hears from the operator feeds the watchdog.  A check that finds the last feed older than
the timeout trips it and switches the watched devices off; further checks do so again as long as
nobody feeds.  Only a feed of an enabled robot clears a trip.
-/
set_option autoImplicit false

namespace RobotControl

structure Watchdog where
  /-- The longest time between feeds, in nanoseconds. -/
  timeout : Nat
  lastFeed : Nat
  tripped : Bool := false
  deriving DecidableEq, Repr

namespace Watchdog

def armed (timeout now : Nat) : Watchdog := ⟨timeout, now, false⟩

private def target : String := "pirobot_kernel::watchdog"

def age (w : Watchdog) (now : Nat) : Nat := now - w.lastFeed

/-- Someone is alive.  The feed of an enabled robot ends a trip and gives the devices back. -/
def feed (w : Watchdog) (f : Fleet) (robotEnabled : Bool) : Watchdog × Fleet :=
  let w : Watchdog := { w with lastFeed := f.now }
  if w.tripped && robotEnabled then
    ({ w with tripped := false },
      (f.enableWatched robotEnabled).note
        [⟨.info, target, "watchdog fed again, outputs restored", []⟩])
  else (w, f)

private def timedOut (w : Watchdog) (now : Nat) : Line :=
  ⟨.warning, target, "watchdog timed out",
    [("age_ms", .whole (w.age now / millisecond)),
      ("timeout_ms", .whole (w.timeout / millisecond))]⟩

private def disabling (name : String) : Line :=
  ⟨.warning, target, "watchdog tripped, disabling device", [("device", .shown name)]⟩

def check (w : Watchdog) (f : Fleet) : Watchdog × Fleet :=
  if w.age f.now ≤ w.timeout then (w, f)
  else
    let first := if w.tripped then [] else [w.timedOut f.now]
    let on := f.watchedOn
    ({ w with tripped := true }, ((f.note first).disableWatched).note (on.map disabling))

def whileArmed (w : Watchdog) (f : Fleet) (op : Fleet → Fleet) : Fleet :=
  if w.tripped then f else op f

theorem whileArmed_of_tripped (w : Watchdog) (f : Fleet) (op : Fleet → Fleet)
    (h : w.tripped = true) : w.whileArmed f op = f := by
  simp [whileArmed, h]

theorem tripped_feed (w : Watchdog) (f : Fleet) (robotEnabled : Bool) :
    (w.feed f robotEnabled).1.tripped = (w.tripped && !robotEnabled) := by
  unfold feed
  cases ht : w.tripped <;> cases robotEnabled <;> simp

theorem check_of_age_le (w : Watchdog) (f : Fleet) (h : w.age f.now ≤ w.timeout) :
    w.check f = (w, f) := by
  simp [check, h]

theorem tripped_check_of_lt (w : Watchdog) (f : Fleet) (h : w.timeout < w.age f.now) :
    (w.check f).1.tripped = true := by
  simp [check, Nat.not_le.mpr h]

end Watchdog

end RobotControl
