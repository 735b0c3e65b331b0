import Mathlib.Tactic.Linarith
import RackmonIoc.CLib.Double

/-!
# Differences of doubles

`Apart d a b`: the two values differ by more than `d`, as a C program finds out.  An infinity and a NaN
are taken as IEEE 754 takes them; the steps `o - d` and `o + d` are never more than `d` away from `o`,
whatever `o` is.
-/

namespace RackmonIoc.CLib.Double

/-- The values differ by more than `d`. -/
def Apart (d a b : Double) : Prop := d < a - b ∨ d < b - a

instance (d a b : Double) : Decidable (Apart d a b) := by unfold Apart; infer_instance

theorem lt_iff (a b : Double) : a < b ↔ lt a b = true := Iff.rfl
theorem le_iff (a b : Double) : a ≤ b ↔ le a b = true := Iff.rfl
theorem add_eq (a b : Double) : a + b = add a b := rfl
theorem sub_eq (a b : Double) : a - b = add a (neg b) := rfl
theorem neg_eq (a : Double) : -a = neg a := rfl

theorem eq_zero_iff (a : Double) : a.eq 0 = true ↔ a = 0 := by
  unfold Double.eq
  cases a <;> simp [isnan]

/-- The other difference. -/
theorem neg_sub (a b : Double) : -(a - b) = b - a := by
  rcases a with _ | s | p <;> rcases b with _ | t | q <;> simp only [sub_eq, neg_eq, neg, add]
  · cases s <;> cases t <;> rfl
  · rw [Bool.not_not]
  · congr 1
    linarith

theorem neg_pos (a : Double) : 0 < -a ↔ a < 0 := by
  rcases a with _ | s | p
  · simp [lt_iff, lt, neg_eq, neg]
  · cases s <;> simp [lt_iff, lt, neg_eq, neg]
  · simp [neg_eq, neg]

/-- Nothing is above the infinity. -/
theorem not_inf_lt (a : Double) : ¬ inf false < a := by
  rcases a with _ | s | p <;> simp [lt_iff, lt]

theorem pos_of_lt {d a : Double} (hd : 0 ≤ d) (h : d < a) : 0 < a := by
  rcases d with _ | s | d
  · simp [le_iff, le] at hd
  · cases s
    · exact absurd h (not_inf_lt a)
    · simp [le_iff, le] at hd
  · rcases a with _ | t | a
    · simp [lt_iff, lt] at h
    · exact h
    · simp only [ofNat_eq, Nat.cast_zero, fin_le, fin_lt] at hd h ⊢
      linarith

theorem not_pos_and_neg (a : Double) : ¬ (0 < a ∧ a < 0) := by
  rcases a with _ | s | p
  · simp [lt_iff, lt]
  · cases s <;> simp [lt_iff, lt]
  · simp only [ofNat_eq, Nat.cast_zero, fin_lt, not_and]
    intro h
    linarith

/-- **The differences as the sign tells them apart.** -/
theorem apart_iff {d : Double} (hd : 0 ≤ d) (a b : Double) :
    Apart d a b ↔ if a - b < 0 then d < -(a - b) else d < a - b := by
  unfold Apart
  rw [neg_sub]
  split_ifs with hneg
  · refine or_iff_right fun h => ?_
    exact not_pos_and_neg _ ⟨pos_of_lt hd h, hneg⟩
  · refine or_iff_left fun h => hneg ?_
    have hpos := pos_of_lt hd h
    rw [← neg_sub] at hpos
    exact (neg_pos _).mp hpos

/-- A step down by `d`. -/
theorem not_apart_sub {d : Double} (hd : 0 ≤ d) (o : Double) : ¬ Apart d (o - d) o := by
  rcases d with _ | s | d
  · simp [le_iff, le] at hd
  · cases s
    · exact fun h => h.elim (not_inf_lt _) (not_inf_lt _)
    · simp [le_iff, le] at hd
  · simp only [ofNat_eq, Nat.cast_zero, fin_le] at hd
    rcases o with _ | t | o
    · simp [Apart, sub_eq, add, lt_iff, lt]
    · cases t <;> simp [Apart, sub_eq, add, neg, lt_iff, lt]
    · simp only [Apart, sub_eq, add, neg, fin_lt, not_or]
      constructor <;> linarith

/-- A step up by `d`. -/
theorem not_apart_add {d : Double} (hd : 0 ≤ d) (o : Double) : ¬ Apart d (o + d) o := by
  rcases d with _ | s | d
  · simp [le_iff, le] at hd
  · cases s
    · exact fun h => h.elim (not_inf_lt _) (not_inf_lt _)
    · simp [le_iff, le] at hd
  · simp only [ofNat_eq, Nat.cast_zero, fin_le] at hd
    rcases o with _ | t | o
    · simp [Apart, sub_eq, add_eq, add, lt_iff, lt]
    · cases t <;> simp [Apart, sub_eq, add_eq, add, neg, lt_iff, lt]
    · simp only [Apart, sub_eq, add_eq, add, neg, fin_lt, not_or]
      constructor <;> linarith

end RackmonIoc.CLib.Double
