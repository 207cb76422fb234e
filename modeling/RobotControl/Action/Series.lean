import RobotControl.Action.Host

/-!
# Action series

An action that runs other actions one after another.  It claims no device itself.  When the last
one has finished it starts its follow-up; when it is interrupted it stops the one that is running.
-/
set_option autoImplicit false

namespace RobotControl

structure Series where
  children : List ActionId
  followUp : Option ActionId := none
  index : Nat := 0
  deriving DecidableEq, Repr

namespace Series

def current (s : Series) : Option ActionId := s.children[s.index]?

def wantsMore (s : Series) : Bool := s.index < s.children.length

def rewound (s : Series) : Series := { s with index := 0 }

def advanced (s : Series) (isFinished : ActionId → Bool) : Series :=
  match s.current with
  | some a => if isFinished a then { s with index := s.index + 1 } else s
  | none => s

/-- The end of a run: stops the current child or starts the follow-up. -/
def ending (s : Series) (interrupted : Bool) : Option Request :=
  if interrupted then s.current.map .stop else s.followUp.map fun a => .start a false

def members (s : Series) : List ActionId := s.children ++ s.followUp.toList

variable {ε Ω σ : Type}

def asking (r : Option Request) : Routine ε Ω σ :=
  match r with
  | some r => .ask r fun _ => .skip
  | none => .skip

def starting (a : Option ActionId) : Routine ε Ω σ := asking (a.map fun a => .start a false)

def routine (read : σ → Series) (write : Series → σ → σ) : Callback → Routine ε Ω σ
  | .begin => .look fun _ _ own =>
      let s := (read own).rewound
      .note (write s) (starting s.current)
  | .process => .look fun t _ own =>
      let s := read own
      let s' := s.advanced t.isFinished
      .note (write s') (if s'.index = s.index then .skip else starting s'.current)
  | .proceed => .skip
  | .finish interrupted => .look fun _ _ own => asking ((read own).ending interrupted)

end Series

end RobotControl
