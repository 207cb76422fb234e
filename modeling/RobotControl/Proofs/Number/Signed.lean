import Mathlib
import RobotControl.Number.Arith

/-!
# Signs and bounds of doubles

Turning a double round changes its sign and nothing else, so that turning it round twice gives it
back (`neg_neg_double`).  A double in `[-1, 1]` stays there when it is turned round, and an input
that is brought into the interval is what it was if it was in it already (`clamped_unitInput`).
-/
set_option autoImplicit false

namespace RobotControl.Number

open Float.Model (Format UnpackedFloat)
open Float.Model.UnpackedFloat

/-! ### Turning round -/

theorem sign_neg_neg (s : Sign) : - -s = s := by
  cases s <;> rfl

theorem unpacked_neg_neg (u : UnpackedFloat) : u.neg.neg = u := by
  cases u <;> simp only [UnpackedFloat.neg, sign_neg_neg]

/-- What is read from bits is read from them again after it was written. -/
theorem unpack_pack_unpack (b : BitVec Format.binary64.numBits) :
    unpack .binary64 (pack .binary64 (unpack .binary64 b)) = unpack .binary64 b := by
  rw [pack_unpack b]
  split
  · next nan =>
      simp only [isNaNBits, decide_eq_true_eq] at nan
      rw [unpack_packedNaN]
      simp [unpack, nan.1, nan.2]
  · rfl

theorem neg_unpack (b : BitVec Format.binary64.numBits) :
    ∃ b' : BitVec Format.binary64.numBits, (unpack .binary64 b).neg = unpack .binary64 b' := by
  refine ⟨packComponents .binary64 (-Sign.ofBitVec (unpackSign b)) (unpackExponent b)
    (unpackMantissa b), ?_⟩
  simp only [unpack, unpackExponent_packComponents, unpackMantissa_packComponents,
    unpackSign_packComponents, Sign.ofBitVec_toBitVec]
  split
  · split <;> rfl
  · split
    · split <;> rfl
    · rfl

theorem unpack_neg (x : Float) : (-x).toModel.unpack = x.toModel.unpack.neg := by
  obtain ⟨b', turned⟩ := neg_unpack x.toModel.toBits.toBitVec
  show unpack .binary64 (pack .binary64 (unpack .binary64 x.toModel.toBits.toBitVec).neg) =
    (unpack .binary64 x.toModel.toBits.toBitVec).neg
  rw [turned, unpack_pack_unpack]

theorem eq_of_unpack {x y : Float} (same : x.toModel.unpack = y.toModel.unpack) : x = y := by
  obtain ⟨⟨bits, valid⟩⟩ := x
  obtain ⟨⟨bits', valid'⟩⟩ := y
  have equal := (unpack_inj_of_valid valid valid').mp same
  obtain rfl := UInt64.toBitVec_inj.mp equal
  rfl

theorem neg_neg_double (x : Float) : - -x = x := by
  refine eq_of_unpack ?_
  rw [unpack_neg, unpack_neg, unpacked_neg_neg]

theorem isNaN_neg (x : Float) : (-x).isNaN = x.isNaN := by
  show (-x).toModel.unpack.isNaN = x.toModel.unpack.isNaN
  rw [unpack_neg]
  cases x.toModel.unpack <;> rfl

/-! ### Order -/

theorem swap_compare_sign (s t : Sign) : (compare s t).swap = compare t s := by
  cases s <;> cases t <;> rfl

theorem swap_compare_int (i j : Int) : (compare i j).swap = compare j i :=
  Std.OrientedCmp.eq_swap.symm

theorem swap_compare_nat (m n : Nat) : (compare m n).swap = compare n m :=
  Std.OrientedCmp.eq_swap.symm

theorem swap_compare (u v : UnpackedFloat) : (u.compare v).map Ordering.swap = v.compare u := by
  rcases u with (_ | _) | _ | (_ | _) | ⟨_ | _, m, e, _⟩ <;>
    rcases v with (_ | _) | _ | (_ | _) | ⟨_ | _, n, f, _⟩ <;>
      simp [UnpackedFloat.compare, Ordering.swap_then, swap_compare_sign, swap_compare_int,
        swap_compare_nat]

theorem compare_neg (u v : UnpackedFloat) : u.neg.compare v.neg = v.compare u := by
  have negative : -Sign.negative = .positive := rfl
  have positive : -Sign.positive = .negative := rfl
  have same : compare Sign.positive Sign.positive = compare Sign.negative Sign.negative := rfl
  rcases u with (_ | _) | _ | (_ | _) | ⟨_ | _, m, e, _⟩ <;>
    rcases v with (_ | _) | _ | (_ | _) | ⟨_ | _, n, f, _⟩ <;>
      simp [UnpackedFloat.compare, UnpackedFloat.neg, negative, positive, same,
        Ordering.swap_then, swap_compare_int, swap_compare_nat]

theorem compare_eq_none (u v : UnpackedFloat) :
    u.compare v = none ↔ u.isNaN = true ∨ v.isNaN = true := by
  rcases u with (_ | _) | _ | (_ | _) | ⟨_ | _, m, e, _⟩ <;>
    rcases v with (_ | _) | _ | (_ | _) | ⟨_ | _, n, f, _⟩ <;>
      simp [UnpackedFloat.compare, UnpackedFloat.isNaN]

section

variable {x y : Float}

theorem lt_iff_compare :
    x < y ↔ x.toModel.unpack.compare y.toModel.unpack = some .lt := by
  show decide (UnpackedFloat.lt _ _ = true) = true ↔ _
  rw [decide_eq_true_eq, UnpackedFloat.lt, beq_iff_eq]

theorem le_iff_compare : x ≤ y ↔
    ∃ o, x.toModel.unpack.compare y.toModel.unpack = some o ∧ o.isLE = true := by
  show decide (UnpackedFloat.le _ _ = true) = true ↔ _
  rw [decide_eq_true_eq, UnpackedFloat.le, Option.any_eq_true]

theorem numbers_of_compare {o : Ordering}
    (compared : x.toModel.unpack.compare y.toModel.unpack = some o) :
    x.isNaN = false ∧ y.isNaN = false := by
  have numbers := (compare_eq_none x.toModel.unpack y.toModel.unpack).not.mp (by simp [compared])
  exact ⟨Bool.eq_false_iff.mpr fun nan => numbers (.inl nan),
    Bool.eq_false_iff.mpr fun nan => numbers (.inr nan)⟩

theorem numbers_of_lt (less : x < y) : x.isNaN = false ∧ y.isNaN = false :=
  numbers_of_compare (lt_iff_compare.mp less)

theorem numbers_of_le (least : x ≤ y) : x.isNaN = false ∧ y.isNaN = false := by
  obtain ⟨o, compared, _⟩ := le_iff_compare.mp least
  exact numbers_of_compare compared

theorem not_lt_of_le (least : y ≤ x) : ¬ x < y := by
  rw [lt_iff_compare, ← swap_compare]
  obtain ⟨o, compared, small⟩ := le_iff_compare.mp least
  rw [compared]
  cases o <;> simp at small ⊢

theorem le_of_not_lt (numberX : x.isNaN = false) (numberY : y.isNaN = false) (most : ¬ x < y) :
    y ≤ x := by
  rw [lt_iff_compare, ← swap_compare] at most
  rw [le_iff_compare]
  cases compared : y.toModel.unpack.compare x.toModel.unpack with
  | none =>
      rcases (compare_eq_none _ _).mp compared with nan | nan
      · exact absurd (numberY.symm.trans nan) Bool.false_ne_true
      · exact absurd (numberX.symm.trans nan) Bool.false_ne_true
  | some o =>
      rw [compared] at most
      refine ⟨o, rfl, ?_⟩
      cases o <;> simp at most ⊢

theorem neg_le_neg_iff : -x ≤ -y ↔ y ≤ x := by
  rw [le_iff_compare, le_iff_compare, unpack_neg, unpack_neg, compare_neg]

end

/-! ### Zero and the unit interval -/

/-- Zero, of either sign. -/
def IsZero (x : Float) : Prop := (x == 0.0) = true

instance (x : Float) : Decidable (IsZero x) := inferInstanceAs (Decidable (_ = true))

theorem isZero_zero : IsZero 0.0 := by decide

theorem isZero_iff_compare (x : Float) :
    IsZero x ↔ x.toModel.unpack.compare (.zero .positive) = some .eq := by
  show (UnpackedFloat.compare _ _ == some .eq) = true ↔ _
  rw [beq_iff_eq]
  rfl

theorem isZero_neg {x : Float} : IsZero (-x) ↔ IsZero x := by
  rw [isZero_iff_compare, isZero_iff_compare, unpack_neg]
  have negative : -Sign.negative = .positive := rfl
  have positive : -Sign.positive = .negative := rfl
  rcases x.toModel.unpack with (_ | _) | _ | _ | ⟨_ | _, m, e, _⟩ <;>
    simp [UnpackedFloat.compare, UnpackedFloat.neg, negative, positive]

/-- A number in `[-1, 1]`. -/
structure InUnit (x : Float) : Prop where
  number : x.isNaN = false
  lower : -1.0 ≤ x
  upper : x ≤ 1.0

theorem inUnit_zero : InUnit 0.0 := ⟨by decide, by decide, by decide⟩

theorem inUnit_one : InUnit 1.0 := ⟨by decide, by decide, by decide⟩

theorem InUnit.neg {x : Float} (bounded : InUnit x) : InUnit (-x) where
  number := (isNaN_neg x).trans bounded.number
  lower := neg_le_neg_iff.mpr bounded.upper
  upper := by
    have turned := bounded.lower
    rwa [← neg_neg_double x, neg_le_neg_iff] at turned

/-- The nearest number in `[-1, 1]`; what is not a number is read as zero. -/
structure Clamps (x y : Float) : Prop where
  nan : x.isNaN = true → y = 0.0
  below : x < -1.0 → y = -1.0
  above : 1.0 < x → y = 1.0
  within : -1.0 ≤ x → x ≤ 1.0 → y = x

section

variable {x y : Float}

theorem less_iff : Arith.less x y = true ↔ x < y := decide_eq_true_iff

theorem unitInput_of_nan (nan : x.isNaN = true) : Arith.unitInput x = 0.0 := if_pos nan

theorem unitInput_of_number (number : x.isNaN = false) :
    Arith.unitInput x =
      if 1.0 < (if x < -1.0 then -1.0 else x) then 1.0 else if x < -1.0 then -1.0 else x := by
  have clamped : Arith.unitInput x = Arith.clamp (-1.0) 1.0 x :=
    if_neg fun nan => Bool.false_ne_true (number.symm.trans nan)
  rw [clamped]
  simp only [Arith.clamp, less_iff]

theorem unpack_one : (1.0 : Float).toModel.unpack = .finite .positive (2 ^ 52) (-52) (by decide) :=
  rfl

theorem unpack_neg_one :
    (-1.0 : Float).toModel.unpack = .finite .negative (2 ^ 52) (-52) (by decide) := rfl

theorem not_lt_of_one_lt (high : 1.0 < x) : ¬ x < -1.0 := by
  rw [lt_iff_compare, unpack_one] at high
  rw [lt_iff_compare, unpack_neg_one]
  rcases unpacked : x.toModel.unpack with (_ | _) | _ | (_ | _) | ⟨_ | _, m, e, _⟩ <;>
    simp [UnpackedFloat.compare, unpacked] at high ⊢

theorem clamps_unitInput (x : Float) : Clamps x (Arith.unitInput x) where
  nan := unitInput_of_nan
  below low := by
    rw [unitInput_of_number (numbers_of_lt low).1, if_pos low]
    exact if_neg (by decide)
  above high := by
    rw [unitInput_of_number (numbers_of_lt high).2, if_neg (not_lt_of_one_lt high), if_pos high]
  within low high := by
    rw [unitInput_of_number (numbers_of_le low).2, if_neg (not_lt_of_le low),
      if_neg (not_lt_of_le high)]

theorem inUnit_unitInput (x : Float) : InUnit (Arith.unitInput x) := by
  cases number : x.isNaN with
  | true => exact unitInput_of_nan number ▸ inUnit_zero
  | false =>
      have clamps := clamps_unitInput x
      by_cases low : x < -1.0
      · rw [clamps.below low]
        exact inUnit_one.neg
      · by_cases high : 1.0 < x
        · rw [clamps.above high]
          exact inUnit_one
        · have least := le_of_not_lt number (by decide) low
          have most := le_of_not_lt (by decide) number high
          rw [clamps.within least most]
          exact ⟨number, least, most⟩

end

end RobotControl.Number
