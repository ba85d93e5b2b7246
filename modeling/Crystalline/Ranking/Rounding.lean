import Crystalline.Ranking.Floats
import Mathlib.Tactic.Ring

/-!
# Rounding to binary floating-point numbers

A finite number is a whole multiple of the least positive one.  A ratio is rounded to
the nearest number, to the even one of two, and what a fraction can hold is kept.
-/

namespace Crystalline.Ranking

/-- The least positive number is two to the minus this. -/
def Format.scale (format : Format) : Nat := 2 ^ (format.exponent - 1) - 2 + format.fraction

/-- The whole number nearest to a ratio, the even one of two. -/
def nearest (num den : Nat) : Nat :=
  let quotient := num / den
  let twice := 2 * (num % den)
  if twice < den then quotient
  else if den < twice then quotient + 1
  else quotient + quotient % 2

namespace Format

variable (format : Format)

/-- The magnitude of a ratio of least positive numbers, rounded. -/
def round (num den : Nat) : Nat :=
  let shift := (num / den).log2 - format.fraction
  min (shift * 2 ^ format.fraction + nearest num (den * 2 ^ shift)) format.infinity

/-- How many least positive numbers a finite magnitude is. -/
def units (magnitude : Nat) : Nat :=
  let shift := magnitude / 2 ^ format.fraction - 1
  (magnitude - shift * 2 ^ format.fraction) * 2 ^ shift

/-- What a fraction can hold at a shift: with a leading bit, or unshifted. -/
structure Holds (shift fraction : Nat) : Prop where
  fits : fraction < 2 ^ (format.fraction + 1)
  leading : shift = 0 ∨ 2 ^ format.fraction ≤ fraction

theorem infinity_lt : format.infinity < 2 ^ (format.exponent + format.fraction) := by
  rw [infinity, Nat.pow_add]
  have positive := Nat.two_pow_pos format.exponent
  exact Nat.mul_lt_mul_of_pos_right (by omega) (Nat.two_pow_pos _)

theorem round_lt (num den : Nat) :
    format.round num den < 2 ^ (format.exponent + format.fraction) :=
  (Nat.min_le_right _ _).trans_lt format.infinity_lt

end Format

namespace Binary

variable {format : Format}

/-- A ratio as a number. -/
def ofRatio (num den : Nat) : Binary format where
  negative := false
  magnitude := format.round (num * 2 ^ format.scale) den
  bounded := format.round_lt _ _

/-- `as`, from an unsigned integer. -/
def ofNat (number : Nat) : Binary format := ofRatio number 1

/-- `*` of finite numbers. -/
def mul (left right : Binary format) : Binary format where
  negative := left.negative != right.negative
  magnitude := format.round (format.units left.magnitude * format.units right.magnitude)
    (2 ^ format.scale)
  bounded := format.round_lt _ _

/-- `/` of finite numbers, the second of them not zero. -/
def div (left right : Binary format) : Binary format where
  negative := left.negative != right.negative
  magnitude := format.round (format.units left.magnitude * 2 ^ format.scale)
    (format.units right.magnitude)
  bounded := format.round_lt _ _

end Binary

theorem nearest_one (number : Nat) : nearest number 1 = number := by
  simp [nearest, Nat.mod_one]

theorem nearest_mul {factor : Nat} (positive : 0 < factor) (num den : Nat) :
    nearest (num * factor) (den * factor) = nearest num den := by
  have scaled : 2 * (num % den * factor) = 2 * (num % den) * factor := by ring
  rw [nearest, nearest, Nat.mul_div_mul_right _ _ positive, Nat.mul_mod_mul_right, scaled]
  simp only [Nat.mul_lt_mul_right positive]

theorem nearest_of_mul {den : Nat} (positive : 0 < den) (quotient : Nat) :
    nearest (quotient * den) den = quotient := by
  have reduced := nearest_mul positive quotient 1
  rwa [Nat.one_mul, nearest_one] at reduced

namespace Format

variable {format : Format} {shift fraction : Nat}

theorem round_mul {factor : Nat} (positive : 0 < factor) (num den : Nat) :
    format.round (num * factor) (den * factor) = format.round num den := by
  have moved (power : Nat) : den * factor * power = den * power * factor := by ring
  rw [round, round, Nat.mul_div_mul_right _ _ positive]
  rw [moved, nearest_mul positive]

theorem log2_shifted (positive : fraction ≠ 0) :
    (fraction * 2 ^ shift).log2 = fraction.log2 + shift := by
  have nonzero : fraction * 2 ^ shift ≠ 0 := Nat.mul_ne_zero positive (Nat.two_pow_pos _).ne'
  rw [Nat.log2_eq_iff nonzero]
  have low := Nat.log2_self_le positive
  have high := @Nat.lt_log2_self fraction
  constructor
  · rw [Nat.pow_add]
    exact Nat.mul_le_mul_right _ low
  · rw [Nat.add_right_comm, Nat.pow_add]
    exact Nat.mul_lt_mul_of_pos_right high (Nat.two_pow_pos _)

section

variable (holds : format.Holds shift fraction)
include holds

theorem Holds.log2 : (fraction * 2 ^ shift).log2 - format.fraction = shift := by
  by_cases zero : fraction = 0
  · have unshifted : shift = 0 := by
      rcases holds.leading with same | bit
      · exact same
      · have positive := Nat.two_pow_pos format.fraction
        omega
    rw [zero, unshifted, Nat.zero_mul, Nat.log2_zero, Nat.zero_sub]
  · rw [log2_shifted zero]
    have below : fraction.log2 < format.fraction + 1 := (Nat.log2_lt zero).mpr holds.fits
    rcases holds.leading with same | bit
    · omega
    · have least : format.fraction ≤ fraction.log2 := (Nat.le_log2 zero).mpr bit
      omega

theorem Holds.round_eq :
    format.round (fraction * 2 ^ shift) 1 =
      min (shift * 2 ^ format.fraction + fraction) format.infinity := by
  rw [round, Nat.div_one]
  rw [holds.log2, Nat.one_mul, nearest_of_mul (Nat.two_pow_pos shift)]

theorem Holds.units_eq :
    format.units (shift * 2 ^ format.fraction + fraction) = fraction * 2 ^ shift := by
  have positive := Nat.two_pow_pos format.fraction
  have quotient : (shift * 2 ^ format.fraction + fraction) / 2 ^ format.fraction - 1 = shift := by
    have below : fraction / 2 ^ format.fraction < 2 := by
      rw [Nat.div_lt_iff_lt_mul positive, Nat.mul_comm, ← Nat.pow_succ]
      exact holds.fits
    rw [Nat.mul_comm, Nat.mul_add_div positive]
    rcases holds.leading with same | bit
    · omega
    · have least : 1 ≤ fraction / 2 ^ format.fraction := (Nat.one_le_div_iff positive).mpr bit
      omega
  rw [units]
  rw [quotient, Nat.add_sub_cancel_left]

end

/-- A whole number that fits is some fraction at some shift. -/
theorem exists_holds {number : Nat} (fits : number < 2 ^ (format.fraction + 1)) :
    ∃ shift fraction, format.Holds shift fraction ∧ shift ≤ format.scale ∧
      number * 2 ^ format.scale = fraction * 2 ^ shift := by
  by_cases zero : number = 0
  · refine ⟨0, 0, ⟨Nat.two_pow_pos _, .inl rfl⟩, Nat.zero_le _, ?_⟩
    rw [zero, Nat.zero_mul, Nat.zero_mul]
  · have below : number.log2 < format.fraction + 1 := (Nat.log2_lt zero).mpr fits
    have low := Nat.log2_self_le zero
    have high := @Nat.lt_log2_self number
    have room : format.fraction ≤ format.scale := Nat.le_add_left _ _
    refine ⟨format.scale + number.log2 - format.fraction,
      number * 2 ^ (format.fraction - number.log2), ⟨?_, .inr ?_⟩, by omega, ?_⟩
    · calc number * 2 ^ (format.fraction - number.log2)
          < 2 ^ (number.log2 + 1) * 2 ^ (format.fraction - number.log2) :=
            Nat.mul_lt_mul_of_pos_right high (Nat.two_pow_pos _)
        _ = 2 ^ (format.fraction + 1) := by
            rw [← Nat.pow_add]
            congr 1
            omega
    · calc 2 ^ format.fraction
          = 2 ^ number.log2 * 2 ^ (format.fraction - number.log2) := by
            rw [← Nat.pow_add]
            congr 1
            omega
        _ ≤ number * 2 ^ (format.fraction - number.log2) := Nat.mul_le_mul_right _ low
    · rw [Nat.mul_assoc, ← Nat.pow_add]
      congr 2
      omega

/-- The exponents reach the whole numbers that a fraction can hold. -/
def Reaches (format : Format) : Prop := format.scale + 2 < 2 ^ format.exponent

end Format

namespace Binary

variable {format : Format} {left right : Nat}

section

variable (reaches : format.Reaches) (fits : left < 2 ^ (format.fraction + 1))
include reaches fits

theorem units_ofNat :
    format.units (ofNat left : Binary format).magnitude = left * 2 ^ format.scale := by
  obtain ⟨shift, fraction, holds, low, same⟩ := Format.exists_holds fits
  have finite : shift * 2 ^ format.fraction + fraction ≤ format.infinity := by
    have bounded := holds.fits
    calc shift * 2 ^ format.fraction + fraction
        ≤ shift * 2 ^ format.fraction + 2 * 2 ^ format.fraction := by
          rw [Nat.pow_succ] at bounded
          omega
      _ = (shift + 2) * 2 ^ format.fraction := by ring
      _ ≤ format.infinity := Nat.mul_le_mul_right _ (by rw [Format.Reaches] at reaches; omega)
  have rounded : (ofNat left : Binary format).magnitude =
      shift * 2 ^ format.fraction + fraction := by
    have kept := holds.round_eq
    rwa [← same, Nat.min_eq_left finite] at kept
  rw [rounded, holds.units_eq, same]

theorem ofNat_mul (fits' : right < 2 ^ (format.fraction + 1)) :
    (ofNat left : Binary format).mul (ofNat right) = ofNat (left * right) := by
  have product : left * 2 ^ format.scale * (right * 2 ^ format.scale) =
      left * right * 2 ^ format.scale * 2 ^ format.scale := by ring
  have reduced := @Format.round_mul format _ (Nat.two_pow_pos format.scale)
    (left * right * 2 ^ format.scale) 1
  rw [Nat.one_mul] at reduced
  rw [mul]
  simp only [units_ofNat reaches fits, units_ofNat reaches fits', product, reduced]
  rfl

theorem ofNat_div_self (positive : 0 < left) :
    (ofNat left : Binary format).div (ofNat left) = ofNat 1 := by
  have nonzero : 0 < left * 2 ^ format.scale := Nat.mul_pos positive (Nat.two_pow_pos _)
  have reduced := @Format.round_mul format _ nonzero (2 ^ format.scale) 1
  rw [Nat.one_mul, Nat.mul_comm] at reduced
  rw [div]
  simp only [units_ofNat reaches fits, reduced]
  simp only [ofNat, ofRatio, Nat.one_mul, bne_self_eq_false]

end

end Binary

theorem reaches_double : Format.Reaches ⟨11, 52⟩ := by
  rw [Format.Reaches, Format.scale]
  decide

end Crystalline.Ranking
