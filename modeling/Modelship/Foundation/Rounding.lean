import Mathlib.Data.Int.Log
import Mathlib.Data.Rat.Floor
import Mathlib.Tactic.Linarith

namespace Foundation

-- The nearest integer, and the even one of two equally near.
def roundHalfEven (x : Rat) : Int :=
  let rest := x - ⌊x⌋
  if rest < 1 / 2 then ⌊x⌋ else if 1 / 2 < rest then ⌊x⌋ + 1 else if ⌊x⌋ % 2 = 0 then ⌊x⌋ else ⌊x⌋ + 1

theorem roundHalfEven_le (x : Rat) : (roundHalfEven x : Rat) ≤ x + 1 / 2 := by
  have below := Int.floor_le x
  unfold roundHalfEven
  dsimp only
  split
  · linarith
  · split
    · push_cast
      linarith
    · split
      · linarith
      · push_cast
        linarith

-- What rounds to no more than an integer: all below the half after it, and the half itself
-- after an even one.
theorem roundHalfEven_le_iff (x : Rat) (bound : Int) :
    roundHalfEven x ≤ bound ↔ 2 * x < 2 * bound + 1 ∨ 2 * x = 2 * bound + 1 ∧ bound % 2 = 0 := by
  have below := Int.floor_le x
  have above := Int.lt_floor_add_one x
  unfold roundHalfEven
  dsimp only
  generalize ⌊x⌋ = floor at below above ⊢
  rcases lt_trichotomy floor bound with less | rfl | more
  · have gap : (floor : Rat) + 1 ≤ bound := by exact_mod_cast less
    have small : 2 * x < 2 * bound + 1 := by linarith
    refine iff_of_true ?_ (.inl small)
    split
    · exact less.le
    · split
      · exact less
      · split
        · exact less.le
        · exact less
  · rcases lt_trichotomy (x - floor) (1 / 2) with low | half | high
    · rw [if_pos low]
      exact iff_of_true le_rfl (.inl (by linarith))
    · rw [if_neg half.not_lt,if_neg half.not_gt]
      have middle : 2 * x = 2 * floor + 1 := by linarith
      rw [middle]
      split
      · rename_i even
        exact iff_of_true le_rfl (.inr ⟨rfl,even⟩)
      · rename_i odd
        refine iff_of_false (by omega) ?_
        rintro (less | ⟨_,even⟩)
        · exact lt_irrefl _ less
        · exact odd even
    · rw [if_neg high.not_gt,if_pos high]
      refine iff_of_false (by omega) ?_
      rintro (less | ⟨same,_⟩) <;> linarith
  · have gap : (bound : Rat) + 1 ≤ floor := by exact_mod_cast more
    refine iff_of_false ?_ ?_
    · split
      · omega
      · split
        · omega
        · split <;> omega
    · rintro (less | ⟨same,_⟩) <;> linarith

theorem roundHalfEven_whole (whole : Int) : roundHalfEven whole = whole := by
  simp [roundHalfEven]

-- The double nearest to `x`, of two equally near the one with the even fraction: `x` is a
-- number between the least normal double and the greatest one.
def roundDouble (x : Rat) : Rat :=
  let unit : Rat := 2 ^ (Int.log 2 |x| - 52)
  roundHalfEven (x / unit) * unit

-- A whole number of up to 53 bits is a double.
theorem roundDouble_whole {n : Nat} (small : n < 2 ^ 53) : roundDouble n = n := by
  have least : Nat.log 2 n ≤ 52 := Nat.lt_succ_iff.mp (Nat.log_lt_of_lt_pow' (by decide) small)
  have unit : (2 : Rat) ^ ((Nat.log 2 n : Int) - 52) = ((2 ^ (52 - Nat.log 2 n) : Nat) : Rat)⁻¹ := by
    rw [← neg_sub,zpow_neg,← Nat.cast_ofNat (n := 52),← Nat.cast_sub least]
    simp
  unfold roundDouble
  dsimp only
  rw [Nat.abs_cast,Int.log_natCast,unit,div_inv_eq_mul]
  have whole : (n : Rat) * ((2 ^ (52 - Nat.log 2 n) : Nat) : Rat) = ((n * 2 ^ (52 - Nat.log 2 n) : Nat) : Int) := by
    push_cast
    rfl
  rw [whole,roundHalfEven_whole,← whole,mul_assoc,mul_inv_cancel₀ (by positivity),mul_one]

-- An integer that `x` is cut to, towards zero.
def truncate (x : Rat) : Int := if x < 0 then ⌈x⌉ else ⌊x⌋

theorem truncate_le (x : Rat) : ((max 0 (truncate x) : Int) : Rat) ≤ max 0 x := by
  have bounded : (truncate x : Rat) ≤ max 0 x := by
    unfold truncate
    split
    case isTrue negative =>
      have none_ : ⌈x⌉ ≤ 0 := Int.ceil_le.mpr (by exact_mod_cast negative.le)
      exact le_max_of_le_left (by exact_mod_cast none_)
    case isFalse => exact le_max_of_le_right (Int.floor_le x)
  push_cast
  exact max_le (le_max_left _ _) bounded

theorem truncate_small {x : Rat} : truncate x ≤ 0 ↔ x < 1 := by
  unfold truncate
  split
  case isTrue negative =>
    have none_ : ⌈x⌉ ≤ 0 := Int.ceil_le.mpr (by exact_mod_cast negative.le)
    exact ⟨fun _ => by linarith,fun _ => none_⟩
  case isFalse =>
    rw [← Int.lt_add_one_iff,zero_add,Int.floor_lt,Int.cast_one]

theorem truncate_whole (whole : Int) : truncate whole = whole := by
  simp [truncate]

-- `x` to three decimal digits.
def roundThousandths (x : Rat) : Rat := roundHalfEven (1000 * x) / 1000

theorem roundThousandths_le (x : Rat) : roundThousandths x ≤ x + 1 / 2000 := by
  have near := roundHalfEven_le (1000 * x)
  unfold roundThousandths
  linarith

theorem roundThousandths_le_iff (x bound : Rat) : roundThousandths x ≤ bound ↔
    2000 * x < 2 * ⌊1000 * bound⌋ + 1 ∨ 2000 * x = 2 * ⌊1000 * bound⌋ + 1 ∧ ⌊1000 * bound⌋ % 2 = 0 := by
  have scaled : roundThousandths x ≤ bound ↔ roundHalfEven (1000 * x) ≤ ⌊1000 * bound⌋ := by
    rw [Int.le_floor]
    unfold roundThousandths
    constructor
    · intro near
      linarith
    · intro near
      linarith
  rw [scaled,roundHalfEven_le_iff,show 2 * (1000 * x) = 2000 * x by ring]

-- A value brought between two bounds, the upper one last.
theorem clamp_le {low high bound x : Rat} (small : low ≤ bound) (near : x ≤ bound) : min (max x low) high ≤ bound :=
  (min_le_left _ _).trans (max_le near small)

end Foundation
