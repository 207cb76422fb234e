import Mathlib.Algebra.Order.Field.Basic
import Mathlib.Algebra.Order.Group.MinMax
import Mathlib.Tactic.Linarith
import Mathlib.Tactic.Ring
import RobotControl.Device.Gamepad
import RobotControl.Proofs.Number.Exact

/-!
# The deadband of a stick

In exact arithmetic a stick inside its deadband reads zero and one outside reads its distance from
the band, stretched to the full range (`shaped_eq`).  The distance with its sign is the value less
the nearest value in the band, which makes it odd, monotone and without jumps (`excess`), and the
reading inherits all of this (`Gamepad.axis_shaping`).
-/
set_option autoImplicit false

namespace RobotControl

/-! ### How far a value is outside a band -/

/-- The signed distance of a value from the band of half-width `w` around zero. -/
def excess (v w : ℚ) : ℚ := v - max (-w) (min v w)

section

variable {v v' w : ℚ}

theorem excess_of_above (width : 0 ≤ w) (above : w ≤ v) : excess v w = v - w := by
  rw [excess, min_eq_right above, max_eq_right (by linarith)]

theorem excess_of_inside (inside : |v| ≤ w) : excess v w = 0 := by
  obtain ⟨low, high⟩ := abs_le.mp inside
  rw [excess, min_eq_left high, max_eq_right low, sub_self]

theorem excess_of_below (width : 0 ≤ w) (below : v ≤ -w) : excess v w = v + w := by
  rw [excess, min_eq_left (by linarith), max_eq_left below, sub_neg_eq_add]

theorem excess_neg (width : 0 ≤ w) : excess (-v) w = -excess v w := by
  rcases le_total |v| w with inside | outside
  · rw [excess_of_inside inside, excess_of_inside ((abs_neg v).trans_le inside), neg_zero]
  · rcases le_abs'.mp outside with below | above
    · rw [excess_of_below width below, excess_of_above width (by linarith)]
      ring
    · rw [excess_of_above width above, excess_of_below width (by linarith)]
      ring

theorem abs_excess (width : 0 ≤ w) : |excess v w| = max (|v| - w) 0 := by
  rcases le_total |v| w with inside | outside
  · rw [excess_of_inside inside, abs_zero, max_eq_right (by linarith)]
  · rw [max_eq_left (by linarith)]
    rcases le_abs'.mp outside with below | above
    · rw [excess_of_below width below, abs_of_nonpos (by linarith), abs_of_nonpos (by linarith)]
      ring
    · rw [excess_of_above width above, abs_of_nonneg (by linarith), abs_of_nonneg (by linarith)]

theorem excess_eq_zero_iff (width : 0 ≤ w) : excess v w = 0 ↔ |v| ≤ w := by
  rw [← abs_eq_zero, abs_excess width]
  exact max_eq_right_iff.trans sub_nonpos

theorem excess_zero (v : ℚ) : excess v 0 = v := by
  rw [excess, neg_zero, max_eq_left (min_le_right v 0), sub_zero]

theorem excess_sub_bounds (rising : v ≤ v') :
    0 ≤ excess v' w - excess v w ∧ excess v' w - excess v w ≤ v' - v := by
  have nearest_le : max (-w) (min v w) ≤ max (-w) (min v' w) :=
    max_le_max_left _ (min_le_min_right _ rising)
  have le_nearest : max (-w) (min v' w) ≤ max (-w) (min v w) + (v' - v) := by
    have inside : min v' w - (v' - v) ≤ min v w :=
      le_min (by linarith [min_le_left v' w]) (by linarith [min_le_right v' w])
    exact max_le (by linarith [le_max_left (-w) (min v w)])
      (by linarith [le_max_right (-w) (min v w)])
  unfold excess
  constructor <;> linarith

theorem abs_excess_sub_le : |excess v w - excess v' w| ≤ |v - v'| := by
  rcases le_total v v' with rising | falling
  · obtain ⟨low, high⟩ := excess_sub_bounds (w := w) rising
    rwa [abs_sub_comm, abs_of_nonneg low, abs_sub_comm, abs_of_nonneg (by linarith)]
  · obtain ⟨low, high⟩ := excess_sub_bounds (w := w) falling
    rwa [abs_of_nonneg low, abs_of_nonneg (by linarith)]

end

/-! ### The reading -/

theorem pastDeadband_eq (v d : ℚ) :
    pastDeadband v d =
      if 1 ≤ |d| ∨ |v| < |d| then none
      else if |d| = 0 then some v else some ((v - if v < 0 then -|d| else |d|) / (1 - |d|)) := by
  have swallowed : ((Arith.atMost (Arith.one : ℚ) |d| || Arith.less |v| |d|) = true) ↔
      (1 ≤ |d| ∨ |v| < |d|) := by
    show ((decide (1 ≤ |d|) || decide (|v| < |d|)) = true) ↔ _
    simp
  have unset : Arith.same |d| (Arith.zero : ℚ) = true ↔ |d| = 0 := decide_eq_true_iff
  have towards : Arith.withSignOf |d| v = if v < 0 then -|d| else |d| := by
    show (if v < 0 then -(abs |d|) else abs |d|) = _
    rw [abs_abs]
  show (if (Arith.atMost (Arith.one : ℚ) |d| || Arith.less |v| |d|) = true then none
    else if Arith.same |d| (Arith.zero : ℚ) = true then some v
    else some ((v - Arith.withSignOf |d| v) / (1 - |d|))) = _
  simp only [swallowed, unset, towards]

theorem shaped_eq (v d : ℚ) : shaped v d = if 1 ≤ |d| then 0 else excess v |d| / (1 - |d|) := by
  have width := abs_nonneg d
  unfold shaped
  rw [pastDeadband_eq]
  by_cases swallowing : 1 ≤ |d|
  · rw [if_pos (.inl swallowing), if_pos swallowing]
    rfl
  rw [if_neg swallowing]
  rcases lt_or_ge |v| |d| with inside | outside
  · rw [if_pos (.inr inside), excess_of_inside inside.le, zero_div]
    rfl
  rw [if_neg (not_or.mpr ⟨swallowing, not_lt.mpr outside⟩)]
  have left : v - (if v < 0 then -|d| else |d|) = excess v |d| := by
    rcases lt_or_ge v 0 with negative | positive
    · rw [if_pos negative, sub_neg_eq_add, excess_of_below width]
      rw [abs_of_neg negative] at outside
      linarith
    · rw [if_neg (not_lt.mpr positive), excess_of_above width]
      rwa [abs_of_nonneg positive] at outside
  rw [left]
  by_cases unset : |d| = 0
  · rw [if_pos unset, unset, excess_zero, sub_zero, div_one]
    rfl
  · rw [if_neg unset]
    rfl

section

variable (v d : ℚ)

theorem shaped_neg : shaped (-v) d = -shaped v d := by
  rw [shaped_eq, shaped_eq, excess_neg (abs_nonneg d)]
  split
  · exact neg_zero.symm
  · exact neg_div _ _

theorem abs_shaped_le (range : |v| ≤ 1) : |shaped v d| ≤ 1 := by
  rw [shaped_eq]
  split
  · rw [abs_zero]
    exact zero_le_one
  · next narrow =>
      have stretch : 0 < 1 - |d| := by linarith
      rw [abs_div, abs_of_pos stretch, div_le_one stretch, abs_excess (abs_nonneg d)]
      exact max_le (by linarith) stretch.le

theorem shaped_mono {v v' : ℚ} (rising : v ≤ v') : shaped v d ≤ shaped v' d := by
  rw [shaped_eq, shaped_eq]
  split
  · exact le_rfl
  · next narrow =>
      have stretch : 0 ≤ 1 - |d| := by linarith
      exact div_le_div_of_nonneg_right (by linarith [(excess_sub_bounds (w := |d|) rising).1])
        stretch

theorem abs_shaped_sub_le (v' : ℚ) (narrow : |d| < 1) :
    |shaped v d - shaped v' d| ≤ |v - v'| / (1 - |d|) := by
  have stretch : 0 < 1 - |d| := by linarith
  rw [shaped_eq, shaped_eq, if_neg (not_le.mpr narrow), if_neg (not_le.mpr narrow), ← sub_div,
    abs_div, abs_of_pos stretch]
  exact div_le_div_of_nonneg_right abs_excess_sub_le stretch.le

theorem shaped_eq_zero_iff : shaped v d = 0 ↔ 1 ≤ |d| ∨ |v| ≤ |d| := by
  rw [shaped_eq]
  by_cases swallowing : 1 ≤ |d|
  · simp [swallowing]
  · have stretch : 1 - |d| ≠ 0 := by linarith
    rw [if_neg swallowing, div_eq_zero_iff, or_iff_left stretch, excess_eq_zero_iff (abs_nonneg d),
      or_iff_right swallowing]

theorem shaped_zero : shaped v 0 = v := by
  rw [shaped_eq, abs_zero, if_neg (not_le.mpr zero_lt_one), excess_zero, sub_zero, div_one]

theorem shaped_one (narrow : |d| < 1) : shaped 1 d = 1 := by
  have stretch : 1 - |d| ≠ 0 := by linarith
  rw [shaped_eq, if_neg (not_le.mpr narrow), excess_of_above (abs_nonneg d) narrow.le,
    div_self stretch]

/-- The division happens only past a deadband that leaves some of the range. -/
theorem width_lt_of_pastDeadband (past : pastDeadband v d ≠ none) : deadbandWidth d < 1 := by
  rw [pastDeadband_eq] at past
  by_contra wide
  exact past (if_pos (.inl (not_lt.mp wide)))

end

/-! ### Axes -/

namespace Gamepad

theorem axis_eq_shaped {g : Gamepad} {hub : Hub} {now n : Nat} {r : Reading} {raw : Float}
    (fresh : g.reading hub now = some r) (known : r.axes[n]? = some raw)
    (bare : g.curves.get? n = none) (deadband : Float) :
    g.axis hub now n deadband = shaped raw deadband := by
  unfold axis shaped
  rw [fresh, Option.bind_some, known, bare]
  dsimp only
  cases pastDeadband raw deadband <;> rfl

/-- What an axis reads is its raw value shaped by the deadband, in whichever arithmetic; and in
exact arithmetic the shaped value stays in the range, is odd, monotone and without jumps, vanishes
exactly inside the deadband, and is the raw value without a deadband and at full deflection. -/
theorem axis_shaping :
    (∀ (g : Gamepad) (hub : Hub) (now n : Nat) (r : Reading) (raw deadband : Float),
      g.reading hub now = some r → r.axes[n]? = some raw → g.curves.get? n = none →
      g.axis hub now n deadband = shaped raw deadband) ∧
    ∀ v d : ℚ, |v| ≤ 1 →
      |shaped v d| ≤ 1 ∧ shaped (-v) d = -shaped v d ∧
      (∀ v' : ℚ, |v'| ≤ 1 → (v ≤ v' → shaped v d ≤ shaped v' d) ∧
        (|d| < 1 → |shaped v d - shaped v' d| ≤ |v - v'| / (1 - |d|))) ∧
      (shaped v d = 0 ↔ 1 ≤ |d| ∨ |v| ≤ |d|) ∧
      (d = 0 → shaped v d = v) ∧
      (|d| < 1 → shaped 1 d = 1 ∧ shaped (-1) d = -1) ∧
      (pastDeadband v d ≠ none → 1 - deadbandWidth d ≠ 0) := by
  refine ⟨fun g hub now n r raw deadband fresh known bare =>
      axis_eq_shaped fresh known bare deadband, fun v d range => ?_⟩
  refine ⟨abs_shaped_le v d range, shaped_neg v d,
    fun v' _ => ⟨shaped_mono d, abs_shaped_sub_le v d v'⟩, shaped_eq_zero_iff v d,
    fun absent => ?_, fun narrow => ⟨shaped_one d narrow, ?_⟩, fun past => ?_⟩
  · rw [absent, shaped_zero]
  · rw [shaped_neg, shaped_one d narrow]
  · exact sub_ne_zero.mpr (width_lt_of_pastDeadband v d past).ne'

/-- A stick that reports to a gamepad nine tenths of the maximal age ago. -/
def tilted : Reading := { axes := [0.05, 0.55], buttons := [], dpads := [], received := 10 }

def watcher : Gamepad := { controller := 2, maxAge := 100 }

theorem axis_shaping_tilted :
    watcher.reading (Assoc.put ∅ 2 tilted) 100 = some tilted ∧
    watcher.axis (Assoc.put ∅ 2 tilted) 100 1 0.1 = shaped 0.55 0.1 ∧
    |(11 / 20 : ℚ)| ≤ 1 ∧ |(-1 / 10 : ℚ)| < 1 ∧ shaped (11 / 20 : ℚ) (-1 / 10) = 1 / 2 ∧
    shaped (-1 : ℚ) (-1 / 10) = -1 ∧
    |shaped (11 / 20 : ℚ) (-1 / 10) - shaped (1 / 2) (-1 / 10)| ≤
      |(11 / 20 : ℚ) - 1 / 2| / (1 - |(-1 / 10 : ℚ)|) := by
  have fresh : watcher.reading (Assoc.put ∅ 2 tilted) 100 = some tilted := rfl
  have inRange : |(11 / 20 : ℚ)| ≤ 1 := by decide +kernel
  have middle : |(1 / 2 : ℚ)| ≤ 1 := by decide +kernel
  have narrow : |(-1 / 10 : ℚ)| < 1 := by decide +kernel
  obtain ⟨axis, shaping⟩ := axis_shaping
  obtain ⟨_, _, others, _, _, full, _⟩ := shaping (11 / 20) (-1 / 10) inRange
  exact ⟨fresh, axis watcher _ 100 1 tilted 0.55 0.1 fresh rfl rfl, inRange, narrow,
    by decide +kernel, (full narrow).2, (others (1 / 2) middle).2 narrow⟩

end Gamepad

end RobotControl
