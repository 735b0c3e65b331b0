import Mathlib.Algebra.Order.AbsoluteValue.Basic
import Mathlib.Tactic.Linarith
import RackmonIoc.CLib.Double

/-!
# Rounding by adding one half and truncating

`(int)(x + 0.5)` is a nearest integer of `x` where the cast truncates downward, which it does from
-1/2 on.  Below that it truncates upward, and the result is one more than a nearest integer, except at
the half-way points.
-/

namespace RackmonIoc.CLib.Double

theorem trunc_of_neg {q : ℚ} (h : q < 0) : trunc q = ⌈q⌉ := if_neg (not_le.mpr h)

/-- Truncation moves toward zero by less than one. -/
theorem trunc_bounds (q : ℚ) : (q - 1 < trunc q) ∧ (trunc q : ℚ) < q + 1 := by
  rcases le_or_gt 0 q with h | h
  · rw [trunc_of_nonneg h]
    have h₁ := Int.floor_le q
    have h₂ := Int.lt_floor_add_one q
    constructor <;> linarith
  · rw [trunc_of_neg h]
    have h₁ := Int.le_ceil q
    have h₂ := Int.ceil_lt_add_one q
    constructor <;> linarith

/-- A truncation fits the `int` when the number does. -/
theorem fitsInt_trunc {q : ℚ} (h : -2147483648 ≤ q) (h' : q < 2147483648) : FitsInt (trunc q) := by
  have hb := trunc_bounds q
  have hlow : (-2147483649 : ℚ) < trunc q := by linarith
  have hhigh : (trunc q : ℚ) < 2147483649 := by linarith
  have hlow' : (-2147483649 : ℤ) < trunc q := by exact_mod_cast hlow
  have hhigh' : trunc q < (2147483649 : ℤ) := by exact_mod_cast hhigh
  rcases le_or_gt 0 q with hq | hq
  · rw [trunc_of_nonneg hq] at hlow' hhigh' ⊢
    have hlt : ⌊q⌋ < (2147483648 : ℤ) := Int.floor_lt.mpr (by exact_mod_cast h')
    exact ⟨by omega, by omega⟩
  · rw [trunc_of_neg hq] at hlow' hhigh' ⊢
    have hle : ⌈q⌉ ≤ (0 : ℤ) := Int.ceil_le.mpr (by exact_mod_cast hq.le)
    exact ⟨by omega, by omega⟩

/-- **When adding one half and truncating rounds to a nearest integer.** -/
theorem trunc_add_half_iff (x : ℚ) :
    |(trunc (x + 1 / 2) : ℚ) - x| ≤ 1 / 2 ↔ -1 / 2 ≤ x ∨ ∃ n : ℤ, x = n + 1 / 2 := by
  rcases le_or_gt 0 (x + 1 / 2) with h | h
  · rw [trunc_of_nonneg h]
    have h₁ := Int.floor_le (x + 1 / 2)
    have h₂ := Int.lt_floor_add_one (x + 1 / 2)
    have hx : -1 / 2 ≤ x := by linarith
    have hnear : |(⌊x + 1 / 2⌋ : ℚ) - x| ≤ 1 / 2 := abs_le.mpr ⟨by linarith, by linarith⟩
    exact ⟨fun _ => .inl hx, fun _ => hnear⟩
  · rw [trunc_of_neg h]
    have h₁ := Int.le_ceil (x + 1 / 2)
    have hx : ¬ -1 / 2 ≤ x := by
      intro hx
      linarith
    rw [or_iff_right hx]
    constructor
    · intro hnear
      refine ⟨⌈x + 1 / 2⌉ - 1, ?_⟩
      have h₂ := (abs_le.mp hnear).2
      push_cast
      linarith
    · rintro ⟨n, rfl⟩
      have hceil : ⌈((n : ℚ) + 1 / 2 + 1 / 2)⌉ = n + 1 := by
        rw [Int.ceil_eq_iff]
        push_cast
        constructor <;> linarith
      rw [hceil]
      push_cast
      exact abs_le.mpr ⟨by linarith, by linarith⟩

end RackmonIoc.CLib.Double
