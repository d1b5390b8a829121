import Mathlib.Data.Int.ConditionallyCompleteOrder
import Mathlib.Data.Int.Log
import Mathlib.Data.Rat.Floor
import Mathlib.Tactic.Linarith

/-! Rounding of rationals, where a half goes to the even neighbour. -/
namespace Rounding

/-- Rounding to an integer, where a half goes to the even neighbour. -/
def roundEven (q : ℚ) : ℤ := if q - ⌊q⌋ < 1 / 2 ∨ q - ⌊q⌋ = 1 / 2 ∧
    ⌊q⌋ % 2 = 0 then ⌊q⌋ else ⌊q⌋ + 1

theorem roundEven_mono : Monotone roundEven := by
  intro p q below
  have least (r : ℚ) : ⌊r⌋ ≤ roundEven r := by
    unfold roundEven
    split <;> omega
  have most (r : ℚ) : roundEven r ≤ ⌊r⌋ + 1 := by
    unfold roundEven
    split <;> omega
  rcases (Int.floor_mono below).lt_or_eq with apart | same
  · have := most p
    have := least q
    omega
  · unfold roundEven
    rw [same]
    split
    · split <;> omega
    · next high =>
        rw [if_neg]
        rintro (low | ⟨half, even⟩)
        · exact high (.inl (by linarith))
        · refine high ?_
          rcases (show p - ⌊q⌋ ≤ 1 / 2 by linarith).lt_or_eq with low | half'
          · exact .inl low
          · exact .inr ⟨half', even⟩

/-- `round(q, digits)`, where `scale` is the power of ten. -/
def roundTo (scale : ℚ) (q : ℚ) : ℚ := roundEven (q * scale) / scale

theorem roundTo_mono {scale : ℚ} (positive : 0 < scale) : Monotone (roundTo scale) := by
  intro p q below
  have scaled : roundEven (p * scale) ≤ roundEven (q * scale) :=
    roundEven_mono (mul_le_mul_of_nonneg_right below positive.le)
  have cast : (roundEven (p * scale) : ℚ) ≤ roundEven (q * scale) := by exact_mod_cast scaled
  exact div_le_div_of_nonneg_right cast positive.le

/-- Rounding to that many significant binary digits. -/
def roundBinary (digits : ℕ) (q : ℚ) : ℚ :=
  let unit : ℚ := 2 ^ (Int.log 2 |q| + 1 - digits)
  roundEven (q / unit) * unit

end Rounding
