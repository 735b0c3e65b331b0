import Mathlib.Algebra.Order.Floor.Ring
import Mathlib.Algebra.Order.Round
import Mathlib.Tactic.Linarith
import Mathlib.Tactic.Ring

/-!
# First-order filters, and rounding with hysteresis

* `mix α x y` takes the part `α` of `x` and the rest of `y`; the iteration of it stays between its
  inputs and comes closer to an input that does not change by the factor `α` a time.
* `settle θ q` rounds down, and up only where the fraction is above `θ`; it is monotone, and where
  `θ` is at least a half it is the integer that `q` is near.
* `track θ α r q` is a filter that remembers in the sign of its state which way it rounds: the level
  `|⌊q⌋|` moves towards `r` and never past it.
-/

namespace RackmonIoc.CLib.Filter

variable {K : Type*} [Field K]

/-! ### Mixing -/

/-- The part `α` of `x` and the rest of `y`. -/
def mix (α x y : K) : K := α * x + (1 - α) * y

theorem mix_sub (α x y : K) : mix α x y - y = α * (x - y) := by
  unfold mix
  ring

theorem mix_neg (α x y : K) : mix α (-x) (-y) = -mix α x y := by
  unfold mix
  ring

/-- One input after the other, each with its own weight. -/
def mixes (x : K) (inputs : List (K × K)) : K := inputs.foldl (fun x i => mix i.1 x i.2) x

/-- **The distance to an input that does not change**: the product of the weights times what it was. -/
theorem mixes_const (x y : K) (weights : List K) :
    mixes x (weights.map fun α => (α, y)) - y = weights.prod * (x - y) := by
  unfold mixes
  induction weights generalizing x with
  | nil => simp
  | cons α weights ih =>
    rw [List.map_cons, List.foldl_cons, ih, mix_sub, List.prod_cons]
    ring

variable [LinearOrder K] [IsStrictOrderedRing K]

section Bounds

variable {α x y a b : K}

theorem le_mix (h0 : 0 ≤ α) (h1 : α ≤ 1) (hx : a ≤ x) (hy : a ≤ y) : a ≤ mix α x y := by
  have hx' : 0 ≤ α * (x - a) := mul_nonneg h0 (sub_nonneg.mpr hx)
  have hy' : 0 ≤ (1 - α) * (y - a) := mul_nonneg (sub_nonneg.mpr h1) (sub_nonneg.mpr hy)
  have heq : mix α x y = a + α * (x - a) + (1 - α) * (y - a) := by
    unfold mix
    ring
  linarith

theorem mix_le (h0 : 0 ≤ α) (h1 : α ≤ 1) (hx : x ≤ b) (hy : y ≤ b) : mix α x y ≤ b := by
  have h := le_mix h0 h1 (neg_le_neg hx) (neg_le_neg hy)
  rw [mix_neg] at h
  exact neg_le_neg_iff.mp h

end Bounds

/-- The state stays within the bounds of the start and of the inputs. -/
theorem mixes_mem {a b x : K} {inputs : List (K × K)} (hx : a ≤ x ∧ x ≤ b)
    (hin : ∀ i ∈ inputs, (0 ≤ i.1 ∧ i.1 ≤ 1) ∧ a ≤ i.2 ∧ i.2 ≤ b) :
    a ≤ mixes x inputs ∧ mixes x inputs ≤ b := by
  unfold mixes
  induction inputs generalizing x with
  | nil => exact hx
  | cons i inputs ih =>
    obtain ⟨⟨h0, h1⟩, ha, hb⟩ := hin i (by simp)
    exact ih ⟨le_mix h0 h1 hx.1 ha, mix_le h0 h1 hx.2 hb⟩ fun j hj => hin j (by simp [hj])

/-! ### Rounding with hysteresis -/

variable [FloorRing K]

/-- Round down, unless the fraction is above `θ`. -/
def settle (θ q : K) : ℤ := if θ < Int.fract q then ⌈q⌉ else ⌊q⌋

theorem floor_le_settle (θ q : K) : ⌊q⌋ ≤ settle θ q := by
  unfold settle
  split_ifs
  · exact Int.floor_le_ceil q
  · exact le_rfl

theorem settle_le_ceil (θ q : K) : settle θ q ≤ ⌈q⌉ := by
  unfold settle
  split_ifs
  · exact le_rfl
  · exact Int.floor_le_ceil q

omit [IsStrictOrderedRing K] in
theorem settle_of_fract_le {θ q : K} (h : Int.fract q ≤ θ) : settle θ q = ⌊q⌋ :=
  if_neg (not_lt.mpr h)

theorem settle_intCast (θ : K) (r : ℤ) : settle θ (r : K) = r :=
  le_antisymm ((settle_le_ceil θ _).trans (Int.ceil_intCast r).le)
    ((Int.floor_intCast r).ge.trans (floor_le_settle θ _))

theorem settle_mono (θ : K) {q q' : K} (h : q ≤ q') : settle θ q ≤ settle θ q' := by
  rcases (Int.floor_mono h).lt_or_eq with hlt | heq
  · calc settle θ q ≤ ⌈q⌉ := settle_le_ceil θ q
      _ ≤ ⌊q⌋ + 1 := Int.ceil_le_floor_add_one q
      _ ≤ ⌊q'⌋ := hlt
      _ ≤ settle θ q' := floor_le_settle θ q'
  · -- with one floor the fractions compare
    have hfract : Int.fract q ≤ Int.fract q' := by
      unfold Int.fract
      rw [heq]
      linarith
    by_cases hq : θ < Int.fract q
    · unfold settle
      rw [if_pos hq, if_pos (hq.trans_le hfract)]
      exact Int.ceil_mono h
    · rw [settle_of_fract_le (not_lt.mp hq), heq]
      exact floor_le_settle θ q'

/-- What is near an integer is rounded to it. -/
theorem settle_near {θ q : K} {r : ℤ} (hθ : 1 / 2 ≤ θ) (h : |q - r| < 1 - θ) : settle θ q = r := by
  obtain ⟨hlo, hhi⟩ := abs_lt.mp h
  have hq : (⌊q⌋ : K) + Int.fract q = q := Int.floor_add_fract q
  have hnn := Int.fract_nonneg q
  by_cases hf : θ < Int.fract q
  · -- then `r` is the next integer
    have h1 : ⌊q⌋ < r := by exact_mod_cast (show (⌊q⌋ : K) < r by linarith)
    have h2 : r < ⌊q⌋ + 2 := by
      have hlt := Int.fract_lt_one q
      exact_mod_cast (show (r : K) < ⌊q⌋ + 2 by linarith)
    have hceil : ⌈q⌉ = ⌊q⌋ + 1 := by
      rw [Int.ceil_eq_iff]
      push_cast
      have hlt := Int.fract_lt_one q
      constructor <;> linarith
    unfold settle
    rw [if_pos hf, hceil]
    omega
  · rw [settle_of_fract_le (not_lt.mp hf)]
    have hf' := not_lt.mp hf
    have h1 : r < ⌊q⌋ + 1 := by exact_mod_cast (show (r : K) < ⌊q⌋ + 1 by linarith)
    have h2 : ⌊q⌋ < r + 1 := by exact_mod_cast (show (⌊q⌋ : K) < r + 1 by linarith)
    omega

/-! ### The level of a signed state -/

/-- The level: what the state is rounded down to, as a number without sign. -/
def level (q : K) : ℤ := |⌊q⌋|

/-- Change the sign where the fraction is above `θ`. -/
def turn (θ q : K) : K := if θ < Int.fract q then -q else q

omit [IsStrictOrderedRing K] in
theorem abs_turn (θ q : K) : |turn θ q| = |q| := by
  unfold turn
  split_ifs
  · exact abs_neg q
  · rfl

theorem fract_turn {θ : K} (hθ : 1 / 2 ≤ θ) (q : K) : Int.fract (turn θ q) ≤ θ := by
  unfold turn
  split_ifs with h
  · have hne : Int.fract q ≠ 0 := by linarith
    rw [Int.fract_neg hne]
    linarith
  · exact not_lt.mp h

theorem level_turn (θ q : K) : level (turn θ q) = |settle θ q| := by
  unfold level turn settle
  split_ifs
  · rw [Int.floor_neg, abs_neg]
  · rfl

omit [IsStrictOrderedRing K] in
theorem level_of_fract_le {θ q : K} (h : Int.fract q ≤ θ) : level q = |settle θ q| := by
  rw [settle_of_fract_le h]
  rfl

/-- A state between two integers has a level between them. -/
theorem level_mem {lo hi : ℤ} {q : K} (h : (lo : K) ≤ |q|) (h' : |q| ≤ hi) :
    lo ≤ level q ∧ level q ≤ hi := by
  unfold level
  rcases le_or_gt 0 q with hq | hq
  · rw [abs_of_nonneg hq] at h h'
    have hfloor : 0 ≤ ⌊q⌋ := Int.floor_nonneg.mpr hq
    rw [abs_of_nonneg hfloor]
    exact ⟨Int.le_floor.mpr h, by exact_mod_cast (Int.floor_le q).trans h'⟩
  · rw [abs_of_neg hq] at h h'
    have hfloor : ⌊q⌋ < 0 := Int.floor_lt.mpr (by exact_mod_cast hq)
    rw [abs_of_neg hfloor]
    have h1 : -hi ≤ ⌊q⌋ := Int.le_floor.mpr (by push_cast; linarith)
    have h2 : ⌊q⌋ ≤ -lo := by
      have hle : (⌊q⌋ : K) ≤ (-lo : ℤ) := (Int.floor_le q).trans (by push_cast; linarith)
      exact_mod_cast hle
    omega

/-! ### The filter -/

/-- The input with the sign of the state. -/
def directed (q : K) (r : ℤ) : ℤ := if 0 < q then r else -r

/-- One step of the filter: the state comes closer to the input, and then the rounding may turn. -/
def track (θ α : K) (r : ℤ) (q : K) : K := turn θ (mix α q (directed q r))

/-- The states of the filter with levels from `lo` to `hi`. -/
structure Tracking (θ : K) (lo hi : ℤ) (q : K) : Prop where
  low : (lo : K) ≤ |q|
  high : |q| ≤ hi
  fract : Int.fract q ≤ θ

section Track

variable {θ α q : K} {lo hi r : ℤ}

/-- The filter may start at any level. -/
theorem tracking_intCast (hθ : 0 ≤ θ) (h0 : 0 ≤ r) (hlo : lo ≤ r) (hhi : r ≤ hi) :
    Tracking θ lo hi (r : K) := by
  have habs : |(r : K)| = r := abs_of_nonneg (by exact_mod_cast h0)
  refine ⟨?_, ?_, ?_⟩
  · rw [habs]
    exact_mod_cast hlo
  · rw [habs]
    exact_mod_cast hhi
  · rw [Int.fract_intCast]
    exact hθ

/-- Without the signs, the state is mixed with the input. -/
theorem abs_mix_signed (h0 : 0 ≤ α) (h1 : α ≤ 1) (hq : q ≠ 0) (hr : 0 ≤ r) :
    |mix α q (directed q r)| = mix α |q| r := by
  have hr' : (0 : K) ≤ r := by exact_mod_cast hr
  unfold directed
  rcases lt_or_gt_of_ne hq with hneg | hpos
  · rw [if_neg (not_lt.mpr hneg.le), abs_of_neg hneg]
    have hmix : mix α q ((-r : ℤ) : K) = -mix α (-q) r := by
      rw [← mix_neg]
      push_cast
      rw [neg_neg]
    rw [hmix, abs_neg]
    exact abs_of_nonneg (le_mix h0 h1 (neg_nonneg.mpr hneg.le) hr')
  · rw [if_pos hpos, abs_of_pos hpos]
    exact abs_of_nonneg (le_mix h0 h1 hpos.le hr')

theorem Tracking.ne_zero (hq : Tracking θ lo hi q) (hlo : 0 < lo) : q ≠ 0 := by
  have hpos : (0 : K) < lo := by exact_mod_cast hlo
  exact abs_pos.mp (hpos.trans_le hq.low)

theorem Tracking.level (hq : Tracking θ lo hi q) : lo ≤ level q ∧ level q ≤ hi :=
  level_mem hq.low hq.high

/-- **One step keeps the states of the filter.** -/
theorem Tracking.track (hθ : 1 / 2 ≤ θ) (h0 : 0 ≤ α) (h1 : α ≤ 1) (hq : Tracking θ lo hi q)
    (hlo : 0 < lo) (hr : lo ≤ r) (hr' : r ≤ hi) : Tracking θ lo hi (track θ α r q) := by
  have habs : |Filter.track θ α r q| = mix α |q| r := by
    unfold Filter.track
    rw [abs_turn, abs_mix_signed h0 h1 (hq.ne_zero hlo) (by omega)]
  refine ⟨?_, ?_, fract_turn hθ _⟩
  · rw [habs]
    exact le_mix h0 h1 hq.low (by exact_mod_cast hr)
  · rw [habs]
    exact mix_le h0 h1 hq.high (by exact_mod_cast hr')

/-- The distance to the input shrinks by the weight. -/
theorem track_dist (h0 : 0 ≤ α) (h1 : α ≤ 1) (hq : q ≠ 0) (hr : 0 ≤ r) :
    |track θ α r q| - r = α * (|q| - r) := by
  unfold track
  rw [abs_turn, abs_mix_signed h0 h1 hq hr, mix_sub]

/-- A state of the filter that is near an integer has the level of it. -/
theorem Tracking.level_near (hθ : 1 / 2 ≤ θ) (hq : Tracking θ lo hi q) (hr : 0 ≤ r)
    (h : |(|q| - r)| < 1 - θ) : Filter.level q = r := by
  have hdist : |q - (directed q r : ℤ)| = |(|q| - r)| := by
    unfold directed
    rcases le_or_gt q 0 with hneg | hpos
    · rw [if_neg (not_lt.mpr hneg), abs_of_nonpos hneg, ← abs_neg]
      congr 1
      push_cast
      ring
    · rw [if_pos hpos, abs_of_pos hpos]
  rw [level_of_fract_le hq.fract, settle_near hθ (hdist.trans_lt h)]
  unfold directed
  split_ifs
  · exact abs_of_nonneg hr
  · rw [abs_neg]
    exact abs_of_nonneg hr

/-- **The level never moves away from the input, and never past it.** -/
theorem level_track_between (h0 : 0 ≤ α) (h1 : α ≤ 1) (hq : Tracking θ lo hi q) (hlo : 0 < lo)
    (hr : lo ≤ r) :
    (Filter.level q ≤ level (track θ α r q) ∧ level (track θ α r q) ≤ r) ∨
      (r ≤ level (track θ α r q) ∧ level (track θ α r q) ≤ Filter.level q) := by
  have hlevel : Filter.level q = |settle θ q| := level_of_fract_le hq.fract
  have hr0 : 0 ≤ r := by omega
  -- what the rounding makes of the new state lies between the old one and the input, with its sign
  have hbetween : (settle θ q ≤ settle θ (mix α q (directed q r)) ∧
        settle θ (mix α q (directed q r)) ≤ directed q r) ∨
      (directed q r ≤ settle θ (mix α q (directed q r)) ∧
        settle θ (mix α q (directed q r)) ≤ settle θ q) := by
    have hfix := settle_intCast θ (directed q r)
    rcases le_total q (directed q r : ℤ) with hle | hle
    · refine .inl ⟨settle_mono θ (le_mix h0 h1 le_rfl hle), ?_⟩
      exact (settle_mono θ (mix_le h0 h1 hle le_rfl)).trans hfix.le
    · refine .inr ⟨?_, settle_mono θ (mix_le h0 h1 le_rfl hle)⟩
      exact hfix.ge.trans (settle_mono θ (le_mix h0 h1 hle le_rfl))
  rw [hlevel]
  unfold track
  rw [level_turn]
  rcases lt_or_gt_of_ne (hq.ne_zero hlo) with hneg | hpos
  · have hsign : directed q r = -r := if_neg (not_lt.mpr hneg.le)
    have hneg' : settle θ q ≤ 0 := by
      have h : settle θ q ≤ settle θ ((0 : ℤ) : K) := settle_mono θ (by exact_mod_cast hneg.le)
      rwa [settle_intCast] at h
    rw [hsign] at hbetween ⊢
    rw [abs_of_nonpos hneg', abs_of_nonpos (by omega)]
    omega
  · have hsign : directed q r = r := if_pos hpos
    have hpos' : 0 ≤ settle θ q := (Int.floor_nonneg.mpr hpos.le).trans (floor_le_settle θ q)
    rw [hsign] at hbetween ⊢
    rw [abs_of_nonneg hpos', abs_of_nonneg (by omega)]
    omega

end Track

end RackmonIoc.CLib.Filter
