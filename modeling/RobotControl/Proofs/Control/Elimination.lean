import Mathlib.Algebra.Order.Field.Basic
import Mathlib.Data.List.GetD
import Mathlib.Data.List.Perm.Basic
import Mathlib.Tactic.FieldSimp
import Mathlib.Tactic.Linarith
import Mathlib.Tactic.Ring
import RobotControl.Control.Fit
import RobotControl.Proofs.Number.Exact

/-!
# Solving equations by elimination

A row lists the coefficients of the unknowns and last the right side of an equation; it holds for
unknowns `v` when `dot row (v ++ [-1])` vanishes.  Rows with as many unknowns as equations are
regular when their homogeneous equations, `dot row (v ++ [0]) = 0`, have no solution but zero.  One
step of the elimination meets a pivot that is not zero and leaves regular rows
(`Regular.leading_ne_zero`, `Regular.reduced`), so elimination runs to its end without a division by
zero and its solution solves all the equations (`Regular.solved`).
-/
set_option autoImplicit false

namespace RobotControl

namespace Fit

/-! ### Sums of products -/

section

variable {as bs u : List ℚ} (a b x : ℚ)

@[simp] theorem dot_nil_left : dot [] u = 0 := rfl

@[simp] theorem dot_nil_right : dot as [] = 0 := by
  unfold dot
  rw [List.zipWith_nil_right]
  rfl

@[simp] theorem dot_cons : dot (a :: as) (x :: u) = a * x + dot as u := by
  unfold dot
  rw [Arith.sum_eq, Arith.sum_eq, List.zipWith_cons_cons, List.sum_cons]

theorem dot_zeros (as : List ℚ) (n : ℕ) : dot as (List.replicate n 0) = 0 := by
  induction n generalizing as with
  | zero => exact dot_nil_right
  | succ n ih =>
      cases as with
      | nil => rfl
      | cons a as => rw [List.replicate_succ, dot_cons, ih, mul_zero, add_zero]

theorem getLastD_cons_of_ne_nil (rest : as ≠ []) : (a :: as).getLastD 0 = as.getLastD 0 := by
  cases as with
  | nil => exact absurd rfl rest
  | cons b as => rfl

theorem dot_concat (width : as.length = u.length + 1) :
    dot as (u ++ [x]) = dot as u + as.getLastD 0 * x := by
  induction u generalizing as with
  | nil =>
      obtain ⟨a, rfl⟩ := List.length_eq_one_iff.mp width
      simp
  | cons y u ih =>
      obtain ⟨a, as, rfl⟩ := List.exists_cons_of_length_eq_add_one width
      have width : as.length = u.length + 1 := Nat.succ.inj width
      have rest : as ≠ [] := List.ne_nil_of_length_eq_add_one width
      rw [List.cons_append, dot_cons, dot_cons, ih width, add_assoc,
        getLastD_cons_of_ne_nil a rest]

theorem dot_zipWith_sub (f : ℚ) (width : as.length = bs.length) :
    dot (List.zipWith (fun a b => a - f * b) as bs) u = dot as u - f * dot bs u := by
  induction u generalizing as bs with
  | nil => simp
  | cons x u ih =>
      cases as with
      | nil =>
          obtain rfl := List.length_eq_zero_iff.mp width.symm
          simp
      | cons a as =>
          obtain ⟨b, bs, rfl⟩ := List.exists_cons_of_length_eq_add_one width.symm
          rw [List.zipWith_cons_cons, dot_cons, dot_cons, dot_cons, ih (Nat.succ.inj width)]
          ring

end

/-! ### The pivot -/

/-- The search has come past the rows `seen`, of which the one at `place` leads with the largest
size, `best`. -/
theorem largest_at_go {seen rest : List (List ℚ)} {row : List ℚ} {best : ℚ} {place : ℕ}
    (found : seen[place]? = some row) (size : best = |leading row|)
    (largest : ∀ other ∈ seen, |leading other| ≤ best) :
    ∃ pivot, (seen ++ rest)[pivotIndex.go best place seen.length rest]? = some pivot ∧
      ∀ other ∈ seen ++ rest, |leading other| ≤ |leading pivot| := by
  induction rest generalizing seen row best place with
  | nil =>
      rw [List.append_nil]
      exact ⟨row, found, size ▸ largest⟩
  | cons next rest ih =>
      have further : seen ++ next :: rest = (seen ++ [next]) ++ rest := by simp
      have length : seen.length + 1 = (seen ++ [next]).length := by simp
      rw [pivotIndex.go, further, length]
      by_cases larger : best ≤ |leading next|
      · have taken : Arith.atMost best (Arith.magnitude (leading next)) = true :=
          decide_eq_true larger
        rw [if_pos taken]
        have last : (seen ++ [next])[seen.length]? = some next := by simp
        refine ih last rfl fun other seen => ?_
        rcases List.mem_append.mp seen with before | last
        · exact (largest other before).trans larger
        · rw [List.mem_singleton.mp last]
          exact le_rfl
      · have left : ¬ Arith.atMost best (Arith.magnitude (leading next)) = true :=
          fun taken => larger (of_decide_eq_true taken)
        rw [if_neg left]
        have still : (seen ++ [next])[place]? = some row := by
          rw [List.getElem?_append_left (List.getElem?_eq_some_iff.mp found).1]
          exact found
        refine ih still size fun other seen => ?_
        rcases List.mem_append.mp seen with before | last
        · exact largest other before
        · rw [List.mem_singleton.mp last]
          exact (not_le.mp larger).le

theorem largest_at_pivotIndex (first : List ℚ) (rest : List (List ℚ)) :
    ∃ pivot, (first :: rest)[pivotIndex (first :: rest)]? = some pivot ∧
      ∀ other ∈ first :: rest, |leading other| ≤ |leading pivot| := by
  have found : [first][0]? = some first := rfl
  refine largest_at_go found rfl fun other seen => ?_
  rw [List.mem_singleton.mp seen]
  exact le_rfl

theorem takePivot_eq_some {rows : List (List ℚ)} (filled : rows ≠ []) :
    ∃ pivot others, takePivot rows = some (pivot, others) ∧ (pivot :: others).Perm rows ∧
      ∀ row ∈ rows, |leading row| ≤ |leading pivot| := by
  obtain ⟨first, rest, rfl⟩ := List.exists_cons_of_ne_nil filled
  obtain ⟨pivot, found, largest⟩ := largest_at_pivotIndex first rest
  unfold takePivot
  dsimp only
  cases place : pivotIndex (first :: rest) with
  | zero =>
      rw [place, List.getElem?_cons_zero] at found
      obtain rfl := Option.some.inj found
      exact ⟨first, rest, rfl, .rfl, largest⟩
  | succ p =>
      rw [place, List.getElem?_cons_succ] at found
      obtain ⟨bound, rfl⟩ := List.getElem?_eq_some_iff.mp found
      refine ⟨rest[p], rest.set p first, ?_, ?_, largest⟩
      · dsimp only
        rw [List.getD_eq_getElem _ _ bound]
      · have exchanged : (rest[p] :: rest.set p first).Perm (rest[p] :: first :: rest.eraseIdx p) :=
          (List.set_perm_cons_eraseIdx bound first).cons _
        have back : (first :: rest[p] :: rest.eraseIdx p).Perm (first :: rest) :=
          (List.getElem_cons_eraseIdx_perm bound).cons _
        exact exchanged.trans ((List.Perm.swap ..).trans back)

/-! ### Regular rows -/

/-- As many rows as unknowns, whose homogeneous equations only zero solves. -/
structure Regular (n : ℕ) (rows : List (List ℚ)) : Prop where
  count : rows.length = n
  width : ∀ row ∈ rows, row.length = n + 1
  unique : ∀ v : List ℚ, v.length = n → (∀ row ∈ rows, dot row (v ++ [0]) = 0) →
    v = List.replicate n 0

/-- What a row says of unknowns is what its reduced row says of all but the first of them, and a
multiple of what the pivot says. -/
theorem dot_eq_reduceRow {pivot row : List ℚ} (width : row.length = pivot.length)
    (nonzero : leading pivot ≠ 0) (x : ℚ) (u : List ℚ) :
    dot row (x :: u) =
      dot (reduceRow pivot row) u + leading row / leading pivot * dot pivot (x :: u) := by
  cases pivot with
  | nil => exact absurd rfl nonzero
  | cons p ps =>
      obtain ⟨a, as, rfl⟩ := List.exists_cons_of_length_eq_add_one width
      have nonzero : p ≠ 0 := nonzero
      have reduced : reduceRow (p :: ps) (a :: as) =
          List.zipWith (fun b c => b - a / p * c) as ps := rfl
      show _ = _ + a / p * _
      rw [reduced, dot_zipWith_sub _ (Nat.succ.inj width), dot_cons, dot_cons]
      field_simp
      ring

theorem dot_pivot {pivot : List ℚ} (nonzero : leading pivot ≠ 0) (u : List ℚ) :
    dot pivot (-dot pivot.tail u / leading pivot :: u) = 0 := by
  cases pivot with
  | nil => rfl
  | cons p ps =>
      have nonzero : p ≠ 0 := nonzero
      show dot (p :: ps) (-dot ps u / p :: u) = 0
      rw [dot_cons]
      field_simp
      ring

theorem dot_solve_cons {row : List ℚ} {rest : List (List ℚ)} (nonzero : leading row ≠ 0)
    (width : row.length = (solve rest).length + 2) : dot row (solve (row :: rest) ++ [-1]) = 0 := by
  obtain ⟨a, as, rfl⟩ := List.exists_cons_of_length_eq_add_one width
  have width : as.length = (solve rest).length + 1 := Nat.succ.inj width
  have rightSide : -dot as (solve rest ++ [-1]) = (a :: as).getLastD 0 - dot as (solve rest) := by
    rw [dot_concat _ width, getLastD_cons_of_ne_nil a (List.ne_nil_of_length_eq_add_one width)]
    ring
  have pivotal := dot_pivot nonzero (solve rest ++ [-1])
  rw [List.tail_cons, rightSide] at pivotal
  exact pivotal

namespace Regular

variable {n : ℕ} {rows others : List (List ℚ)} {pivot : List ℚ}

theorem leading_ne_zero (regular : Regular (n + 1) rows)
    (largest : ∀ row ∈ rows, |leading row| ≤ |leading pivot|) : leading pivot ≠ 0 := by
  intro zero
  have solved : ∀ row ∈ rows, dot row (1 :: List.replicate n 0 ++ [0]) = 0 := by
    intro row mem
    obtain ⟨a, as, rfl⟩ := List.exists_cons_of_length_eq_add_one (regular.width row mem)
    have leads : a = 0 := by
      have size := largest _ mem
      rw [zero, abs_zero] at size
      exact abs_nonpos_iff.mp size
    rw [List.cons_append, ← List.replicate_succ', dot_cons, dot_zeros, leads]
    ring
  have free := regular.unique (1 :: List.replicate n 0) (by simp) solved
  rw [List.replicate_succ] at free
  exact one_ne_zero (List.cons.inj free).1

theorem dot_eq_zero_of_reduced (regular : Regular (n + 1) rows)
    (taken : (pivot :: others).Perm rows) (nonzero : leading pivot ≠ 0) {x : ℚ} {u : List ℚ}
    (pivotal : dot pivot (x :: u) = 0)
    (reduced : ∀ row ∈ others.map (reduceRow pivot), dot row u = 0) :
    ∀ row ∈ rows, dot row (x :: u) = 0 := by
  have width := regular.width pivot (taken.subset List.mem_cons_self)
  intro row mem
  rcases List.mem_cons.mp (taken.symm.subset mem) with rfl | other
  · exact pivotal
  · have same : row.length = pivot.length := (regular.width row mem).trans width.symm
    rw [dot_eq_reduceRow same nonzero, pivotal, reduced _ (List.mem_map_of_mem other), mul_zero,
      add_zero]

/-- Solutions of the reduced rows extend to solutions of all rows. -/
theorem reduced (regular : Regular (n + 1) rows) (taken : (pivot :: others).Perm rows)
    (nonzero : leading pivot ≠ 0) : Regular n (others.map (reduceRow pivot)) where
  count := by
    rw [List.length_map]
    exact Nat.succ.inj (taken.length_eq.trans regular.count)
  width row mem := by
    obtain ⟨other, among, rfl⟩ := List.mem_map.mp mem
    have pivotWidth := regular.width pivot (taken.subset List.mem_cons_self)
    have width := regular.width other (taken.subset (List.mem_cons_of_mem _ among))
    simp [reduceRow, width, pivotWidth]
  unique v length solved := by
    have extended := regular.dot_eq_zero_of_reduced taken nonzero (dot_pivot nonzero _) solved
    have zero := regular.unique (_ :: v) (congrArg (· + 1) length) extended
    exact (List.cons.inj zero).2

theorem solved {n : ℕ} {rows : List (List ℚ)} (regular : Regular n rows) :
    (eliminate n rows).length = n ∧ (∀ row ∈ eliminate n rows, leading row ≠ 0) ∧
      (solve (eliminate n rows)).length = n ∧
      ∀ row ∈ rows, dot row (solve (eliminate n rows) ++ [-1]) = 0 := by
  induction n generalizing rows with
  | zero =>
      obtain rfl := List.length_eq_zero_iff.mp regular.count
      exact ⟨rfl, nofun, rfl, nofun⟩
  | succ n ih =>
      have filled : rows ≠ [] := List.ne_nil_of_length_eq_add_one regular.count
      obtain ⟨pivot, others, chosen, taken, largest⟩ := takePivot_eq_some filled
      have nonzero := regular.leading_ne_zero largest
      obtain ⟨count, pivots, length, later⟩ := ih (regular.reduced taken nonzero)
      have width : pivot.length = (solve (eliminate n (others.map (reduceRow pivot)))).length + 2 :=
        (regular.width pivot (taken.subset List.mem_cons_self)).trans (congrArg (· + 2) length.symm)
      rw [eliminate, chosen]
      dsimp only
      exact ⟨congrArg (· + 1) count, List.forall_mem_cons.mpr ⟨nonzero, pivots⟩,
        congrArg (· + 1) length,
        regular.dot_eq_zero_of_reduced taken nonzero (dot_solve_cons nonzero width) later⟩

end Regular

end Fit

end RobotControl
