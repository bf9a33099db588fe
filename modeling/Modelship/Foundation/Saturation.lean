import Mathlib.Data.Rat.Floor
import Mathlib.Tactic.Linarith

namespace Foundation

-- What grows with a length: at one rate throughout, and at another only up to a window.

section
variable {K : Type} [Field K] [LinearOrder K]

def saturating (throughout bounded window : K) (length : Int) : K := throughout * length + bounded * min window length

variable {throughout bounded window budget : K} {length : Int}

theorem saturating_within (short : length ≤ window) :
    saturating throughout bounded window length = (throughout + bounded) * length := by
  unfold saturating
  rw [min_eq_right short,add_mul]

theorem saturating_past (long : window ≤ length) :
    saturating throughout bounded window length = throughout * length + bounded * window := by
  unfold saturating
  rw [min_eq_left long]

variable [IsStrictOrderedRing K]

-- A budget that is spent before the window: nothing that fits is saturated.
theorem saturating_spent (nonneg : 0 ≤ throughout) (grows : 0 ≤ throughout + bounded)
    (spent : budget < (throughout + bounded) * window) :
    saturating throughout bounded window length ≤ budget ↔ (throughout + bounded) * length ≤ budget := by
  rcases le_total (length : K) window with short | long
  · rw [saturating_within short]
  · have more : (throughout + bounded) * window ≤ saturating throughout bounded window length := by
      rw [saturating_past long,add_mul]
      exact add_le_add_left (mul_le_mul_of_nonneg_left long nonneg) _
    have most : (throughout + bounded) * window ≤ (throughout + bounded) * length := mul_le_mul_of_nonneg_left long grows
    constructor
    · intro fits
      exact absurd (more.trans fits) (not_le.mpr spent)
    · intro fits
      exact absurd (most.trans fits) (not_le.mpr spent)

-- A budget for a whole window: what is within the window fits, and past it only one rate counts.
theorem saturating_left (nonneg : 0 ≤ throughout) (grows : 0 ≤ throughout + bounded)
    (left : (throughout + bounded) * window ≤ budget) :
    saturating throughout bounded window length ≤ budget ↔ throughout * length ≤ budget - bounded * window := by
  rcases le_total (length : K) window with short | long
  · have within : (throughout + bounded) * length ≤ (throughout + bounded) * window := mul_le_mul_of_nonneg_left short grows
    have less : throughout * length ≤ throughout * window := mul_le_mul_of_nonneg_left short nonneg
    rw [saturating_within short]
    constructor
    · intro _
      linarith
    · intro _
      exact within.trans left
  · rw [saturating_past long,le_sub_iff_add_le]

-- The lengths that a budget pays for at one rate.
theorem le_floor_div [FloorRing K] {rate : K} (positive : 0 < rate) : length ≤ ⌊budget / rate⌋ ↔ rate * length ≤ budget := by
  rw [Int.le_floor,le_div_iff₀ positive,mul_comm]

end

end Foundation
