import Mathlib.Algebra.Order.Ring.Nat

/-!
# Binary floating-point numbers in order

A number is a sign and a magnitude, the exponent and fraction bits read as one
number.  Two orders are used of it: the comparison that a NaN fails, and the total
order of all values.
-/

namespace Crystalline.Ranking

/-- An interchange format. -/
structure Format where
  exponent : Nat
  fraction : Nat
  deriving DecidableEq

/-- The magnitude of infinity. -/
def Format.infinity (format : Format) : Nat := (2 ^ format.exponent - 1) * 2 ^ format.fraction

/-- A number of a format. -/
structure Binary (format : Format) where
  negative : Bool
  magnitude : Nat
  bounded : magnitude < 2 ^ (format.exponent + format.fraction)
  deriving DecidableEq

namespace Binary

variable {format : Format} {left right : Binary format}

def isNan (number : Binary format) : Bool := format.infinity < number.magnitude

/-- What two numbers are compared by: zero has two signs. -/
def signed (number : Binary format) : Int :=
  if number.negative then -number.magnitude else number.magnitude

/-- `<`. -/
def lt (left right : Binary format) : Bool :=
  !left.isNan && !right.isNan && left.signed < right.signed

/-- `<=`. -/
def le (left right : Binary format) : Bool :=
  !left.isNan && !right.isNan && left.signed ≤ right.signed

/-- The place of a value among all values, NaN outside of the infinities. -/
def rank (number : Binary format) : Int :=
  if number.negative then -number.magnitude - 1 else number.magnitude

/-- `total_cmp`. -/
def totalCmp (left right : Binary format) : Ordering := compare left.rank right.rank

theorem rank_injective : Function.Injective (rank : Binary format → Int) := by
  intro left right same
  obtain ⟨leftSign, leftMagnitude, leftBounded⟩ := left
  obtain ⟨rightSign, rightMagnitude, rightBounded⟩ := right
  simp only [rank] at same
  cases leftSign <;> cases rightSign <;> simp at same ⊢ <;> omega

/-- Of two zeros the negative one stands before the positive one. -/
theorem rank_lt_iff : left.rank < right.rank ↔ left.signed < right.signed ∨
    (left.signed = right.signed ∧ left.negative = true ∧ right.negative = false) := by
  rw [rank, rank, signed, signed]
  cases left.negative <;> cases right.negative <;> simp <;> omega

theorem rank_eq_iff : left.rank = right.rank ↔
    left.signed = right.signed ∧ left.negative = right.negative := by
  rw [rank, rank, signed, signed]
  cases left.negative <;> cases right.negative <;> simp <;> omega

theorem lt_eq_false_iff : left.lt right = false ↔
    left.isNan = true ∨ right.isNan = true ∨ right.le left = true := by
  rw [lt, le]
  cases left.isNan <;> cases right.isNan <;> simp

end Binary

/-- A single. -/
abbrev F32 : Type := Binary ⟨8, 23⟩

/-- A double. -/
abbrev F64 : Type := Binary ⟨11, 52⟩

/-- `1.0`. -/
def numberOne : F64 := ⟨false, 1023 * 2 ^ 52, by decide⟩

/-- `f64::NAN`. -/
def quietNan : F64 := ⟨false, 2047 * 2 ^ 52 + 2 ^ 51, by decide⟩

/-- The magnitude of a single among the doubles: a subnormal one is normal there. -/
def widenMagnitude (magnitude : Nat) : Nat :=
  let exponent := magnitude / 2 ^ 23
  let fraction := magnitude % 2 ^ 23
  if exponent = 255 then 2047 * 2 ^ 52 + fraction * 2 ^ 29
  else if exponent = 0 then
    if fraction = 0 then 0
    else (fraction.log2 + 874) * 2 ^ 52 + (fraction - 2 ^ fraction.log2) * 2 ^ (52 - fraction.log2)
  else (exponent + 896) * 2 ^ 52 + fraction * 2 ^ 29

theorem subnormal_fraction_lt {fraction : Nat} (positive : fraction ≠ 0)
    (small : fraction < 2 ^ 23) : fraction.log2 < 23 ∧
      (fraction - 2 ^ fraction.log2) * 2 ^ (52 - fraction.log2) < 2 ^ 52 := by
  have width : fraction.log2 < 23 := (Nat.log2_lt positive).mpr small
  refine ⟨width, ?_⟩
  have below : fraction - 2 ^ fraction.log2 < 2 ^ fraction.log2 := by
    have := Nat.lt_log2_self (n := fraction)
    rw [Nat.pow_succ] at this
    omega
  calc (fraction - 2 ^ fraction.log2) * 2 ^ (52 - fraction.log2)
      < 2 ^ fraction.log2 * 2 ^ (52 - fraction.log2) :=
        Nat.mul_lt_mul_of_pos_right below (Nat.two_pow_pos _)
    _ = 2 ^ 52 := by rw [← Nat.pow_add, Nat.add_sub_cancel' (by omega)]

theorem widenMagnitude_lt {magnitude : Nat} (bounded : magnitude < 2 ^ 31) :
    widenMagnitude magnitude < 2 ^ 63 := by
  rw [widenMagnitude]
  split
  · omega
  split
  · split
    · decide
    next positive =>
      obtain ⟨width, fits⟩ := subnormal_fraction_lt positive (Nat.mod_lt _ (by decide))
      omega
  · omega

/-- `f64::from`. -/
def widen (number : F32) : F64 where
  negative := number.negative
  magnitude := widenMagnitude number.magnitude
  bounded := widenMagnitude_lt number.bounded

theorem isNan_widen {number : F32} (isNumber : number.isNan = false) :
    (widen number).isNan = false := by
  have atMost : number.magnitude ≤ 255 * 2 ^ 23 := by
    exact Nat.not_lt.mp (of_decide_eq_false isNumber)
  have reached : widenMagnitude number.magnitude ≤ 2047 * 2 ^ 52 := by
    rw [widenMagnitude]
    split
    · omega
    split
    · split
      · decide
      next positive =>
        obtain ⟨width, fits⟩ := subnormal_fraction_lt positive (Nat.mod_lt _ (by decide))
        omega
    · omega
  apply decide_eq_false
  rw [Format.infinity]
  exact Nat.not_lt.mpr reached

end Crystalline.Ranking
