import Mathlib.Algebra.BigOperators.Ring.List
import Mathlib.Algebra.Polynomial.Roots
import RobotControl.Proofs.Control.Elimination

/-!
# Polynomials of least squares

The rows handed to the elimination are the normal equations of a fit: a row holds for coefficients
when their polynomial's distances from the points, weighted with a power of the abscissas, sum up to
zero (`dot_normalRow`).  Where there are more abscissas than the order, no polynomial but zero
vanishes at all of them, so the rows are regular; the distances of the fit are then orthogonal to
every polynomial of the order, and no such polynomial is nearer to the points
(`least_squares`).
-/
set_option autoImplicit false

namespace RobotControl

namespace Fit

open Polynomial

/-! ### Coefficients, lowest power first -/

/-- The polynomial of some coefficients. -/
noncomputable def curve : List ℚ → ℚ[X]
  | [] => 0
  | c :: cs => C c + X * curve cs

theorem eval_curve_cons (c x : ℚ) (cs : List ℚ) :
    (curve (c :: cs)).eval x = c + x * (curve cs).eval x := by
  rw [curve, eval_add, eval_C, eval_mul, eval_X]

theorem coeff_curve (cs : List ℚ) (k : ℕ) : (curve cs).coeff k = cs.getD k 0 := by
  induction cs generalizing k with
  | nil => simp [curve]
  | cons c cs ih =>
      cases k with
      | zero => simp [curve]
      | succ k => simp [curve, ih]

theorem natDegree_curve_le {cs : List ℚ} {order : ℕ} (length : cs.length = order + 1) :
    (curve cs).natDegree ≤ order := by
  rw [natDegree_le_iff_coeff_eq_zero]
  intro k high
  rw [coeff_curve]
  exact List.getD_eq_default _ _ (by omega)

/-- The coefficients of a polynomial up to an order. -/
noncomputable def coefficients (order : ℕ) (q : ℚ[X]) : List ℚ :=
  (List.range (order + 1)).map q.coeff

theorem curve_coefficients {order : ℕ} {q : ℚ[X]} (degree : q.natDegree ≤ order) :
    curve (coefficients order q) = q := by
  ext k
  rw [coeff_curve, coefficients]
  by_cases low : k < order + 1
  · rw [List.getD_eq_getElem _ _ (by simpa using low)]
    simp
  · rw [List.getD_eq_default _ _ (by simpa using low)]
    exact (coeff_eq_zero_of_natDegree_lt (by omega)).symm

theorem coefficients_curve {order : ℕ} {cs : List ℚ} (length : cs.length = order + 1) :
    coefficients order (curve cs) = cs := by
  refine List.ext_getElem (by simp [coefficients, length]) fun k _ bound => ?_
  simp [coefficients, coeff_curve, bound]

/-! ### Normal equations -/

/-- The sum of a function over the points of a fit. -/
def total (xs ys : List ℚ) (f : ℚ × ℚ → ℚ) : ℚ := ((xs.zip ys).map f).sum

section

variable {xs ys : List ℚ}

theorem total_add (f g : ℚ × ℚ → ℚ) :
    total xs ys (fun p => f p + g p) = total xs ys f + total xs ys g :=
  List.sum_map_add

theorem total_mul (c : ℚ) (f : ℚ × ℚ → ℚ) :
    total xs ys (fun p => c * f p) = c * total xs ys f :=
  List.sum_map_mul_left ..

theorem total_zero : total xs ys (fun _ => 0) = 0 := by
  simp [total]

theorem total_abscissas (matched : xs.length = ys.length) (f : ℚ → ℚ) :
    (xs.map f).sum = total xs ys fun p => f p.1 := by
  have abscissas : (xs.zip ys).map Prod.fst = xs := List.map_fst_zip matched.le
  calc (xs.map f).sum = (((xs.zip ys).map Prod.fst).map f).sum := by rw [abscissas]
    _ = total xs ys fun p => f p.1 := by rw [List.map_map]; rfl

theorem normalRow_eq (matched : xs.length = ys.length) (order row : ℕ) :
    normalRow xs ys order row =
      (List.range (order + 1)).map (fun col => total xs ys fun p => p.1 ^ (row + col)) ++
        [total xs ys fun p => p.1 ^ row * p.2] := by
  have moment (col : ℕ) : Arith.sum (xs.map fun x => Arith.power x (row + col)) =
      total xs ys fun p => p.1 ^ (row + col) := by
    rw [Arith.sum_eq, ← total_abscissas matched (· ^ (row + col))]
    simp only [Arith.power_eq_pow]
  have weighted : Arith.sum (xs.zipWith (fun x y => Arith.power x row * y) ys) =
      total xs ys fun p => p.1 ^ row * p.2 := by
    rw [Arith.sum_eq, total, ← List.map_uncurry_zip_eq_zipWith]
    simp only [Arith.power_eq_pow]
    rfl
  rw [normalRow, weighted]
  simp only [moment]

theorem dot_append {as bs u v : List ℚ} (same : as.length = u.length) :
    dot (as ++ bs) (u ++ v) = dot as u + dot bs v := by
  unfold dot
  rw [Arith.sum_eq, Arith.sum_eq, Arith.sum_eq, List.zipWith_append same, List.sum_append]

theorem dot_moments (cs : List ℚ) (row : ℕ) :
    dot ((List.range cs.length).map fun col => total xs ys fun p => p.1 ^ (row + col)) cs =
      total xs ys fun p => p.1 ^ row * (curve cs).eval p.1 := by
  induction cs generalizing row with
  | nil => simp [curve, total_zero]
  | cons c cs ih =>
      have shifted : ((fun col => total xs ys fun p => p.1 ^ (row + col)) ∘ Nat.succ) =
          fun col => total xs ys fun p => p.1 ^ (row + 1 + col) := by
        funext col
        simp [Nat.add_right_comm row 1 col, Nat.add_assoc]
      rw [List.length_cons, List.range_succ_eq_map, List.map_cons, List.map_map, shifted, dot_cons,
        ih, mul_comm, ← total_mul, ← total_add]
      congr 1
      funext p
      rw [eval_curve_cons]
      ring

theorem dot_normalRow (matched : xs.length = ys.length) {order : ℕ} {cs : List ℚ}
    (length : cs.length = order + 1) (row : ℕ) (c : ℚ) :
    dot (normalRow xs ys order row) (cs ++ [c]) =
      total xs ys fun p => p.1 ^ row * ((curve cs).eval p.1 + c * p.2) := by
  have count : ((List.range (order + 1)).map fun col =>
      total xs ys fun p => p.1 ^ (row + col)).length = cs.length := by
    rw [List.length_map, List.length_range, length]
  rw [normalRow_eq matched, dot_append count, ← length, dot_moments, dot_cons, dot_nil_left,
    add_zero, mul_comm, ← total_mul, ← total_add]
  congr 1
  funext p
  ring

theorem orthogonal_curve {cs : List ℚ} {g : ℚ × ℚ → ℚ}
    (powers : ∀ j < cs.length, total xs ys (fun p => p.1 ^ j * g p) = 0) :
    total xs ys (fun p => (curve cs).eval p.1 * g p) = 0 := by
  induction cs generalizing g with
  | nil => simp [curve, total_zero]
  | cons c cs ih =>
      have later : total xs ys (fun p => (curve cs).eval p.1 * (p.1 * g p)) = 0 := by
        refine ih fun j low => ?_
        simpa only [pow_succ, mul_assoc] using powers (j + 1) (Nat.succ_lt_succ low)
      have first : total xs ys (fun p => c * g p) = 0 := by
        have zeroth := powers 0 (Nat.succ_pos _)
        simp only [pow_zero, one_mul] at zeroth
        rw [total_mul, zeroth, mul_zero]
      calc total xs ys (fun p => (curve (c :: cs)).eval p.1 * g p)
        _ = total xs ys (fun p => c * g p + (curve cs).eval p.1 * (p.1 * g p)) := by
          congr 1
          funext p
          rw [eval_curve_cons]
          ring
        _ = 0 := by rw [total_add, first, later, add_zero]

end

/-! ### Regularity and the least sum -/

section

variable {xs ys : List ℚ} {order : ℕ}

theorem eq_zero_of_eval {q : ℚ[X]} (distinct : order + 1 ≤ xs.toFinset.card)
    (degree : q.natDegree ≤ order) (vanishes : ∀ x ∈ xs, q.eval x = 0) : q = 0 :=
  eq_zero_of_natDegree_lt_card_of_eval_eq_zero' q xs.toFinset
    (fun x mem => vanishes x (List.mem_toFinset.mp mem)) (by omega)

theorem sq_nonneg_of_mem {ι : Type} {l : List ι} {f : ι → ℚ} :
    ∀ y ∈ l.map (fun p => f p ^ 2), 0 ≤ y := by
  intro y mem
  obtain ⟨_, _, rfl⟩ := List.mem_map.mp mem
  exact sq_nonneg _

theorem eval_eq_zero_of_total (matched : xs.length = ys.length) {q : ℚ[X]}
    (least : total xs ys (fun p => q.eval p.1 ^ 2) = 0) : ∀ x ∈ xs, q.eval x = 0 := by
  intro x mem
  have sum : (xs.map fun x => q.eval x ^ 2).sum = 0 := (total_abscissas matched _).trans least
  have square : q.eval x ^ 2 = 0 :=
    List.all_zero_of_le_zero_le_of_sum_eq_zero sq_nonneg_of_mem sum (List.mem_map_of_mem mem)
  exact sq_eq_zero_iff.mp square

theorem regular_normalRows (matched : xs.length = ys.length)
    (distinct : order + 1 ≤ xs.toFinset.card) : Regular (order + 1) (normalRows xs ys order) where
  count := by simp [normalRows]
  width row mem := by
    obtain ⟨j, _, rfl⟩ := List.mem_map.mp mem
    simp [normalRow]
  unique cs length solved := by
    have powers : ∀ j < cs.length,
        total xs ys (fun p => p.1 ^ j * (curve cs).eval p.1) = 0 := by
      intro j low
      have row := solved _ (List.mem_map_of_mem (List.mem_range.mpr (length ▸ low)))
      rw [dot_normalRow matched length] at row
      simpa using row
    have squares : total xs ys (fun p => (curve cs).eval p.1 ^ 2) = 0 := by
      simpa only [sq] using orthogonal_curve powers
    have zero : curve cs = 0 := eq_zero_of_eval distinct (natDegree_curve_le length)
      (eval_eq_zero_of_total matched squares)
    rw [← coefficients_curve length, zero]
    exact List.eq_replicate_iff.mpr ⟨by simp [coefficients], by simp [coefficients]⟩

/-- The sum of the squared distances of a polynomial from the points. -/
noncomputable def squares (xs ys : List ℚ) (q : ℚ[X]) : ℚ :=
  total xs ys fun p => (p.2 - q.eval p.1) ^ 2

theorem total_sq_nonneg (f : ℚ × ℚ → ℚ) : 0 ≤ total xs ys fun p => f p ^ 2 :=
  List.sum_nonneg sq_nonneg_of_mem

/-- The polynomial fitted to the points. -/
noncomputable def fitted (xs ys : List ℚ) (order : ℕ) : ℚ[X] := curve (polynomial xs ys order)

section

variable (matched : xs.length = ys.length) (distinct : order + 1 ≤ xs.toFinset.card)

include matched distinct

theorem length_polynomial : (polynomial xs ys order).length = order + 1 :=
  (regular_normalRows matched distinct).solved.2.2.1

theorem residual_powers {j : ℕ} (low : j ≤ order) :
    total xs ys (fun p => p.1 ^ j * (p.2 - (fitted xs ys order).eval p.1)) = 0 := by
  have row := (regular_normalRows matched distinct).solved.2.2.2 (normalRow xs ys order j)
    (List.mem_map_of_mem (List.mem_range.mpr (Nat.lt_succ_of_le low)))
  rw [← polynomial, dot_normalRow matched (length_polynomial matched distinct), ← fitted] at row
  calc total xs ys (fun p => p.1 ^ j * (p.2 - (fitted xs ys order).eval p.1))
    _ = total xs ys (fun p =>
        -1 * (p.1 ^ j * ((fitted xs ys order).eval p.1 + -1 * p.2))) := by
      congr 1
      funext p
      ring
    _ = 0 := by rw [total_mul, row, mul_zero]

theorem normal_equation {j : ℕ} (low : j ≤ order) :
    dot ((List.range (order + 1)).map fun k => total xs ys fun p => p.1 ^ (j + k))
      (polynomial xs ys order) = total xs ys fun p => p.1 ^ j * p.2 := by
  have residual := residual_powers matched distinct low
  rw [← length_polynomial matched distinct, dot_moments, ← fitted, ← add_zero (total _ _ _),
    ← residual, ← total_add]
  congr 1
  funext p
  ring

theorem residual_orthogonal {q : ℚ[X]} (degree : q.natDegree ≤ order) :
    total xs ys (fun p => q.eval p.1 * (p.2 - (fitted xs ys order).eval p.1)) = 0 := by
  have powers : ∀ j < (coefficients order q).length, total xs ys
      (fun p => p.1 ^ j * (p.2 - (fitted xs ys order).eval p.1)) = 0 := by
    intro j low
    rw [coefficients, List.length_map, List.length_range] at low
    exact residual_powers matched distinct (Nat.le_of_lt_succ low)
  simpa only [curve_coefficients degree] using orthogonal_curve powers

theorem natDegree_fitted_sub_le {q : ℚ[X]} (degree : q.natDegree ≤ order) :
    (fitted xs ys order - q).natDegree ≤ order := by
  have fittedDegree : (fitted xs ys order).natDegree ≤ order :=
    natDegree_curve_le (length_polynomial matched distinct)
  exact (natDegree_sub_le_of_le fittedDegree degree).trans (max_self order).le

/-- A polynomial is off the points by what the fit is off them and by what it is off the fit. -/
theorem squares_eq_add {q : ℚ[X]} (degree : q.natDegree ≤ order) :
    squares xs ys q = squares xs ys (fitted xs ys order) +
      total xs ys fun p => (fitted xs ys order - q).eval p.1 ^ 2 := by
  have orthogonal := residual_orthogonal matched distinct
    (natDegree_fitted_sub_le matched distinct degree)
  generalize fitted xs ys order = fit at orthogonal ⊢
  have split : squares xs ys q =
      squares xs ys fit + total xs ys (fun p => (fit - q).eval p.1 ^ 2) +
        2 * total xs ys (fun p => (fit - q).eval p.1 * (p.2 - fit.eval p.1)) := by
    unfold squares
    rw [← total_mul, ← total_add, ← total_add]
    congr 1
    funext p
    rw [eval_sub]
    ring
  rw [split, orthogonal, mul_zero, add_zero]

theorem fitted_eq_of_squares_le {q : ℚ[X]} (degree : q.natDegree ≤ order)
    (near : squares xs ys q ≤ squares xs ys (fitted xs ys order)) :
    fitted xs ys order = q := by
  have off : total xs ys (fun p => (fitted xs ys order - q).eval p.1 ^ 2) = 0 := by
    rw [squares_eq_add matched distinct degree] at near
    exact le_antisymm (by linarith only [near]) (total_sq_nonneg _)
  exact sub_eq_zero.mp (eq_zero_of_eval distinct (natDegree_fitted_sub_le matched distinct degree)
    (eval_eq_zero_of_total matched off))

end

/-- With more abscissas than the order, no pivot is zero, the coefficients solve the normal
equations and are those of the nearest polynomial, and points on a polynomial of the order give that
polynomial back. -/
theorem least_squares (matched : xs.length = ys.length)
    (distinct : order + 1 ≤ xs.toFinset.card) :
    ((eliminate (order + 1) (normalRows xs ys order)).length = order + 1 ∧
        ∀ row ∈ eliminate (order + 1) (normalRows xs ys order), leading row ≠ 0) ∧
      (polynomial xs ys order).length = order + 1 ∧
      (∀ j ≤ order,
        dot ((List.range (order + 1)).map fun k => total xs ys fun p => p.1 ^ (j + k))
          (polynomial xs ys order) = total xs ys fun p => p.1 ^ j * p.2) ∧
      (∀ q : ℚ[X], q.natDegree ≤ order →
        squares xs ys (fitted xs ys order) ≤ squares xs ys q) ∧
      ∀ q : ℚ[X], q.natDegree ≤ order → (∀ p ∈ xs.zip ys, p.2 = q.eval p.1) →
        polynomial xs ys order = coefficients order q := by
  obtain ⟨steps, pivots, length, -⟩ := (regular_normalRows matched distinct).solved
  refine ⟨⟨steps, pivots⟩, length, fun j low => normal_equation matched distinct low, ?_, ?_⟩
  · intro q degree
    rw [squares_eq_add matched distinct degree]
    exact le_add_of_nonneg_right (total_sq_nonneg _)
  · intro q degree through
    have exact : squares xs ys q = 0 := by
      refine List.sum_eq_zero fun y mem => ?_
      obtain ⟨p, point, rfl⟩ := List.mem_map.mp mem
      rw [through p point, sub_self, sq, mul_zero]
    have near : squares xs ys q ≤ squares xs ys (fitted xs ys order) :=
      exact.trans_le (total_sq_nonneg _)
    rw [← fitted_eq_of_squares_le matched distinct degree near]
    exact (coefficients_curve length).symm

theorem least_squares_line :
    polynomial [0, 1, 2] [1, 3, 5] 1 = ([1, 2] : List ℚ) ∧
      polynomial [0, 1, 2, 2] [1, 3, 4, 6] 1 = ([1, 2] : List ℚ) ∧
      ∀ q : ℚ[X], q.natDegree ≤ 1 → 2 ≤ squares [0, 1, 2, 2] [1, 3, 4, 6] q := by
  have solved : polynomial [0, 1, 2, 2] [1, 3, 4, 6] 1 = ([1, 2] : List ℚ) := by decide +kernel
  refine ⟨?_, solved, fun q degree => ?_⟩
  · have line : coefficients 1 (C 1 + C 2 * X) = [1, 2] := by
      simp [coefficients, List.range_succ, coeff_X, coeff_one]
    have through : ∀ p ∈ List.zip [0, 1, 2] [1, 3, 5], p.2 = (C 1 + C 2 * X : ℚ[X]).eval p.1 := by
      norm_num
    have distinct : 1 + 1 ≤ ([0, 1, 2] : List ℚ).toFinset.card := by decide +kernel
    have matched : ([0, 1, 2] : List ℚ).length = ([1, 3, 5] : List ℚ).length := rfl
    have recovered := (least_squares matched distinct).2.2.2.2 _ (by compute_degree) through
    exact recovered.trans line
  · have sum : squares [0, 1, 2, 2] [1, 3, 4, 6] (curve [1, 2]) = 2 := by
      norm_num [squares, total, curve]
    have distinct : 1 + 1 ≤ ([0, 1, 2, 2] : List ℚ).toFinset.card := by decide +kernel
    have matched : ([0, 1, 2, 2] : List ℚ).length = ([1, 3, 4, 6] : List ℚ).length := rfl
    have least := (least_squares matched distinct).2.2.2.1 q degree
    rwa [fitted, solved, sum] at least

end

end Fit

end RobotControl
