import Mathlib.Data.Nat.Notation

/-!
# Patterns on a counter that wraps

A counter modulo `N` reads the pattern `p` at its value modulo `m`.  Where `m` does not divide `N` the
pattern is cut when the counter wraps: after the place `(N - 1) % m` comes the place 0.
-/

namespace RackmonIoc.CLib

variable {α : Type} {N m L : ℕ}

/-- **Windows of a cut pattern.**  If one of any `L` steps around the cycle is an `R`-step, and the step
over the cut is one, then so is one of any `L` steps of the counter. -/
theorem exists_step {R : α → α → Prop} {p : ℕ → α} (hm : 0 < m)
    (hcycle : ∀ k < m, ∃ i < L, R (p ((k + i) % m)) (p ((k + i + 1) % m)))
    (hcut : R (p ((N - 1) % m)) (p 0)) {c : ℕ} (hc : c < N) :
    ∃ i < L, R (p ((c + i) % N % m)) (p ((c + i + 1) % N % m)) := by
  by_cases hwrap : c + L < N
  · -- the counter does not wrap: the window lies on the cycle
    obtain ⟨i, hi, hstep⟩ := hcycle (c % m) (Nat.mod_lt c hm)
    refine ⟨i, hi, ?_⟩
    rw [Nat.mod_eq_of_lt (by omega : c + i < N), Nat.mod_eq_of_lt (by omega : c + i + 1 < N)]
    rwa [Nat.add_assoc, Nat.mod_add_mod, Nat.mod_add_mod, ← Nat.add_assoc] at hstep
  · -- it wraps after `N - 1 - c` steps
    refine ⟨N - 1 - c, by omega, ?_⟩
    have hlast : (c + (N - 1 - c)) % N = N - 1 := by
      rw [Nat.mod_eq_of_lt (by omega)]
      omega
    have hfirst : (c + (N - 1 - c) + 1) % N = 0 := by
      have hN : c + (N - 1 - c) + 1 = N := by omega
      rw [hN, Nat.mod_self]
    rw [hlast, hfirst, Nat.zero_mod]
    exact hcut

/-- The case of single steps. -/
theorem step_of_cycle {R : α → α → Prop} {p : ℕ → α} (hm : 0 < m)
    (hcycle : ∀ k < m, R (p k) (p ((k + 1) % m))) (hcut : R (p ((N - 1) % m)) (p 0)) {c : ℕ}
    (hc : c < N) : R (p (c % m)) (p ((c + 1) % N % m)) := by
  have hone : ∀ k < m, ∃ i < 1, R (p ((k + i) % m)) (p ((k + i + 1) % m)) := by
    intro k hk
    refine ⟨0, Nat.one_pos, ?_⟩
    rw [Nat.add_zero, Nat.mod_eq_of_lt hk]
    exact hcycle k hk
  obtain ⟨i, hi, hstep⟩ := exists_step hm hone hcut hc
  obtain rfl : i = 0 := by omega
  rwa [Nat.add_zero, Nat.mod_eq_of_lt hc] at hstep

end RackmonIoc.CLib
