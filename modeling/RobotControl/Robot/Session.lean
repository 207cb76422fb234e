import RobotControl.Robot.Run

/-!
# Sessions

A robot as the outside sees it: calls from outside are carried out one after another, after each of
them everything that is due runs, and when time has passed the watchdog's monitor looks.
-/
set_option autoImplicit false

namespace RobotControl

abbrev Session (ι σ : Type) := Machine (Effect ι) (World ι) σ

namespace Session

variable {ι σ : Type}

def ofWorld (w : World ι) (own : σ) : Session ι σ := { table := {}, world := w, own := own }

def carry (app : App ι σ) (patience : Nat) (s : Session ι σ) (c : Robot.Code ι σ) :
    Session ι σ :=
  Machine.work (Robot.host app) patience { s with agenda := [.run c] }

/-- A call from outside, and everything that is due after it. -/
def call (app : App ι σ) (patience : Nat) (s : Session ι σ) (c : Robot.Code ι σ) : Session ι σ :=
  carry app patience (carry app patience s c) (Robot.doing .settle .skip)

/-- Time passes: what is due runs first, then the monitor looks. -/
def wait (app : App ι σ) (patience : Nat) (s : Session ι σ) (time : Nat) : Session ι σ :=
  carry app patience (call app patience s (Robot.doing (.advance time) .skip))
    (Robot.doing .look .skip)

def quiet (s : Session ι σ) : Session ι σ :=
  { s with
    world :=
      { s.world with
        fleet := { s.world.fleet with log := [] }
        table := { s.world.table with sink := { s.world.table.sink with delivered := [] } } } }

def delivered (s : Session ι σ) : List Delivery := s.world.table.sink.delivered

def log (s : Session ι σ) : List Line := s.world.fleet.log

end Session

end RobotControl
