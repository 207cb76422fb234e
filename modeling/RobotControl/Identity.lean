/-!
# Identities

Devices and actions carry numbers that are handed out once each.
-/
set_option autoImplicit false

namespace RobotControl

structure DeviceId where
  number : Nat
  deriving DecidableEq, Repr, Inhabited

structure ActionId where
  number : Nat
  deriving DecidableEq, Repr, Inhabited

def DeviceId.label (d : DeviceId) : String := "device#" ++ toString d.number

def ActionId.label (a : ActionId) : String := "action#" ++ toString a.number

/-- `count` consecutive numbers from `next` on: what a fresh supply hands out. -/
def freshNumbers (next count : Nat) : List Nat := (List.range count).map (next + ·)

def firstNumber : Nat := 1

end RobotControl
