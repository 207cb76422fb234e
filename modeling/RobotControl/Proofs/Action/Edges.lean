import RobotControl.Action.Trigger
import RobotControl.Device.Input
import Mathlib.Data.List.Chain

/-!
# Edges of a button

A history lists, the latest event first, what happened around a button trigger: readings that
arrived, controllers that were forgotten, time that passed, and the trigger's own looks.  What a
look can know is read off the history (`ButtonTrigger.value`), and the values that were known to
the looks form one sequence (`ButtonTrigger.seen`).  A trigger fires at the edges of this sequence
and nowhere else (`ButtonTrigger.fires_at_edges`).
-/
set_option autoImplicit false

namespace RobotControl

namespace ButtonTrigger

inductive Event where
  /-- A reading arrives; it carries the instant of its receipt, whichever that is. -/
  | report (controller : Nat) (r : Reading)
  | forget (controller : Nat)
  | advance (time : Nat)
  | poll

/-- What happened, the latest first. -/
abbrev History := List Event

def happen (f : Fleet) (t : ButtonTrigger) : Event → Fleet × ButtonTrigger
  | .report controller r => (f.receive controller r, t)
  | .forget controller => ((f.accept (.forget controller)).1, t)
  | .advance time => ({ f with now := f.now + time }, t)
  | .poll => (f, (t.poll f.hub f.now).1)

/-- A trigger, and the hub it looks at, after all that happened. -/
def after (t : ButtonTrigger) : History → Fleet × ButtonTrigger
  | [] => ({}, t)
  | e :: earlier => happen (after t earlier).1 (after t earlier).2 e

/-- What a trigger answers if it is polled after all that happened. -/
def answer (t : ButtonTrigger) (history : History) : Bool :=
  ((after t history).2.poll (after t history).1.hub (after t history).1.now).2

/-! ### What can be known -/

def clock : History → Nat
  | [] => 0
  | .advance time :: earlier => clock earlier + time
  | _ :: earlier => clock earlier

/-- The last reading of a controller, if it was not forgotten since. -/
def latest (controller : Nat) : History → Option Reading
  | [] => none
  | .report k r :: earlier => if k = controller then some r else latest controller earlier
  | .forget k :: earlier => if k = controller then none else latest controller earlier
  | _ :: earlier => latest controller earlier

/-- The state of a button as far as a look can know it: there is a reading, it is not too old, and
it has this button. -/
def value (g : Gamepad) (button : Nat) (history : History) : Option Bool :=
  match latest g.controller history with
  | none => none
  | some r =>
      if (clock history : Int) ≤ r.received + g.maxAge then r.buttons[button]? else none

/-- The values that were known to the looks, the latest first. -/
def seen (g : Gamepad) (button : Nat) : History → List Bool
  | [] => []
  | .poll :: earlier => (value g button earlier).toList ++ seen g button earlier
  | _ :: earlier => seen g button earlier

/-- The last value known, up before there was any. -/
def lastSeen (g : Gamepad) (button : Nat) (history : History) : Bool :=
  (seen g button history).headD false

/-! ### What the trigger knows -/

theorem now_after (t : ButtonTrigger) (history : History) :
    (after t history).1.now = clock history := by
  induction history with
  | nil => rfl
  | cons e earlier ih =>
      cases e with
      | advance time => exact congrArg (· + time) ih
      | report | forget | poll => exact ih

theorem hub_after (t : ButtonTrigger) (controller : Nat) (history : History) :
    (after t history).1.hub.get? controller = latest controller history := by
  induction history with
  | nil => rfl
  | cons e earlier ih =>
      cases e with
      | report k r => exact (Assoc.get?_put ..).trans (by rw [ih, latest])
      | forget k => exact (Assoc.get?_erase ..).trans (by rw [ih, latest])
      | advance | poll => exact ih

theorem button_after (t : ButtonTrigger) (g : Gamepad) (button : Nat) (history : History) :
    g.button (after t history).1.hub (after t history).1.now button = value g button history := by
  unfold Gamepad.button Gamepad.reading value
  rw [hub_after, now_after]
  cases latest g.controller history with
  | none => rfl
  | some r =>
      have fresh : (clock history : Int) - r.received ≤ g.maxAge ↔
          (clock history : Int) ≤ r.received + g.maxAge := by omega
      by_cases young : (clock history : Int) ≤ r.received + g.maxAge
      · simp [Option.filter, fresh.mpr young, young]
      · simp [Option.filter, mt fresh.mp young, young]

theorem lastSeen_poll (g : Gamepad) (button : Nat) (history : History) :
    lastSeen g button (.poll :: history) =
      (value g button history).getD (lastSeen g button history) := by
  show ((value g button history).toList ++ seen g button history).headD false = _
  cases value g button history <;> rfl

theorem trigger_after (g : Gamepad) (button : Nat) (edge : Edge) (history : History) :
    (after ⟨g, button, edge, false⟩ history).2 =
      ⟨g, button, edge, lastSeen g button history⟩ := by
  induction history with
  | nil => rfl
  | cons e earlier ih =>
      cases e with
      | poll =>
          rw [after, happen, ih, poll, button_after, lastSeen_poll]
          cases value g button earlier <;> rfl
      | report | forget | advance => exact ih

theorem answer_eq (g : Gamepad) (button : Nat) (edge : Edge) (history : History) :
    answer ⟨g, button, edge, false⟩ history =
      (value g button history).any (fires edge (lastSeen g button history)) := by
  rw [answer, trigger_after, poll, button_after]
  cases value g button history <;> rfl

theorem after_poll {g : Gamepad} {button : Nat} {history : History}
    (unknown : value g button history = none) (edge : Edge) :
    after ⟨g, button, edge, false⟩ (.poll :: history) =
      after ⟨g, button, edge, false⟩ history := by
  rw [after, happen, trigger_after, poll, button_after, unknown]
  exact Prod.ext rfl (trigger_after g button edge history).symm

theorem after_append {t : ButtonTrigger} {h h' : History} (same : after t h = after t h')
    (later : History) : after t (later ++ h) = after t (later ++ h') := by
  induction later with
  | nil => exact same
  | cons e later ih => exact congrArg (fun s => happen s.1 s.2 e) ih

/-! ### Both edges together -/

/-- What two triggers for the two edges of a button, polled together, have fired; the latest
first. -/
def fired (g : Gamepad) (button : Nat) : History → List Edge
  | [] => []
  | .poll :: earlier =>
      [Edge.pressed, .released].filter (fun e => answer ⟨g, button, e, false⟩ earlier) ++
        fired g button earlier
  | _ :: earlier => fired g button earlier

theorem isChain_cons_of_headD {edges : List Edge} {edge : Edge}
    (chain : (edges ++ [Edge.released]).IsChain (· ≠ ·)) (other : edge ≠ edges.headD .released) :
    (edge :: edges ++ [Edge.released]).IsChain (· ≠ ·) := by
  cases edges with
  | nil => exact .cons_cons other chain
  | cons _ _ => exact .cons_cons other chain

/-- The edges alternate, because the last one tells where the button is known to be. -/
theorem fired_alternates (g : Gamepad) (button : Nat) (history : History) :
    (fired g button history ++ [Edge.released]).IsChain (· ≠ ·) ∧
      (fired g button history).headD .released =
        if lastSeen g button history then .pressed else .released := by
  induction history with
  | nil => exact ⟨.singleton _, rfl⟩
  | cons e earlier ih =>
      cases e with
      | poll =>
          obtain ⟨chain, last⟩ := ih
          rw [lastSeen_poll, fired]
          simp only [answer_eq]
          cases value g button earlier with
          | none => exact ⟨chain, last⟩
          | some now =>
              cases before : lastSeen g button earlier <;> rw [before] at last <;> cases now
              · exact ⟨chain, last⟩
              · exact ⟨isChain_cons_of_headD chain (last ▸ nofun), rfl⟩
              · exact ⟨isChain_cons_of_headD chain (last ▸ nofun), rfl⟩
              · exact ⟨chain, last⟩
      | report | forget | advance => exact ih

/-- A trigger fires at exactly those looks at which the button is known to be in the trigger's
direction and the last value known before, up at first, was the other one.  Looks that find
nothing do not fire and leave no trace.  So the two triggers of a button fire in turn, beginning
with a press. -/
theorem fires_at_edges (g : Gamepad) (button : Nat) (history : History) :
    (answer ⟨g, button, .pressed, false⟩ history ↔
      value g button history = some true ∧ lastSeen g button history = false) ∧
    (answer ⟨g, button, .released, false⟩ history ↔
      value g button history = some false ∧ lastSeen g button history = true) ∧
    (value g button history = none → ∀ edge,
      answer ⟨g, button, edge, false⟩ history = false ∧
      ∀ later, answer ⟨g, button, edge, false⟩ (later ++ .poll :: history) =
        answer ⟨g, button, edge, false⟩ (later ++ history)) ∧
    (fired g button history ++ [Edge.released]).IsChain (· ≠ ·) := by
  refine ⟨?_, ?_, fun unknown edge => ⟨?_, fun later => ?_⟩, (fired_alternates g button history).1⟩
  · rw [answer_eq]
    cases value g button history <;> simp [fires]
  · rw [answer_eq]
    cases value g button history <;> simp [fires]
  · rw [answer_eq, unknown]
    rfl
  · simp only [answer, after_append (after_poll unknown edge) later]

/-- A press that is seen at the very end of its age, a release with an instant that is still to
come, and between and after them readings that are missing, too old or too short. -/
def lossy : History :=
  [.poll, .report 0 ⟨[], [], [], 101⟩,
    .poll, .report 0 ⟨[], [false], [], 150⟩,
    .poll, .forget 0, .poll, .advance 1,
    .poll, .advance 100, .report 0 ⟨[], [true], [], 0⟩,
    .poll]

theorem fires_at_edges_lossy :
    fired ⟨0, 100, ∅⟩ 0 lossy = [.released, .pressed] ∧
      (value ⟨0, 100, ∅⟩ 0 lossy = none ∧
        ∀ later, answer ⟨⟨0, 100, ∅⟩, 0, .pressed, false⟩ (later ++ .poll :: lossy) =
          answer ⟨⟨0, 100, ∅⟩, 0, .pressed, false⟩ (later ++ lossy)) :=
  ⟨by decide, by decide,
    ((fires_at_edges ⟨0, 100, ∅⟩ 0 lossy).2.2.1 (by decide) .pressed).2⟩

end ButtonTrigger

end RobotControl
