import RackmonIoc.Bus.Details
import RackmonIoc.CLib.Rounding
import RackmonIoc.Temp.Decoding

/-!
# Encoding of thresholds

A threshold is a temperature in units of 1/256 degree, sent as a 16-bit two's complement number, high
byte first.  The source adds one half and casts, which rounds to a nearest number where the sum is not
negative, and one too high below that, the half-way points apart.

* `encode_temp_word` is what is sent, and `nearest_iff` when it is a nearest number;
* `Setpoint.sends_iff` connects it to the four places that send a threshold.
-/

namespace RackmonIoc.Temp

open Program CLib Driver Bus Prog

/-! ### Words -/

/-- The 16-bit two's complement number of two bytes, high byte first. -/
def word_value (hi lo : UInt8) : ℤ := (256 * (hi.toNat : ℤ) + lo.toNat).bmod 65536

theorem word_value_wordBytes {R : ℤ} (h : -32768 ≤ R) (h' : R < 32768) :
    word_value (UInt8.ofInt (R / 256)) (UInt8.ofInt R) = R := by
  unfold word_value
  rw [ofInt_toNat, ofInt_toNat, Int.bmod_def]
  split <;> omega

@[simp] theorem encode_temp_length (T : Target) (t : Double) : (encode_temp T t).length = 2 := rfl

/-- The bytes of a threshold are those of the rounded number. -/
theorem encode_temp_word (T : Target) {t : ℚ} (h : -8388608 ≤ t) (h' : t < 8388607) :
    encode_temp T (.fin t) = wordBytes (Double.trunc (256 * t + 1 / 2)) := by
  have hmul : (Double.fin t * 256 + .fin (1 / 2) : Double) = .fin (256 * t + 1 / 2) := by
    show Double.fin (t * 256 + 1 / 2) = _
    rw [mul_comm]
  have hfits : Double.FitsInt (Double.trunc (256 * t + 1 / 2)) :=
    Double.fitsInt_trunc (by linarith) (by linarith)
  unfold encode_temp wordBytes
  rw [hmul, Double.toInt_fin hfits]
  simp only [Int.shiftRight_eq_div_pow]
  congr 2
  apply UInt8.toNat_inj.mp
  have h₁ := ofInt_toNat (Double.trunc (256 * t + 1 / 2) % 256)
  have h₂ := ofInt_toNat (Double.trunc (256 * t + 1 / 2))
  omega

/-- The two bytes denote a temperature within 1/512 degree, and a multiple of 1/256 degree exactly. -/
def Nearest (t : ℚ) (hi lo : UInt8) : Prop :=
  |(word_value hi lo : ℚ) / 256 - t| ≤ 1 / 512 ∧ ∀ n : ℤ, t = n / 256 → word_value hi lo = n

/-- The temperatures that are rounded to a nearest register value: from -1/512 degree on, and below
that the half-way points between two register values. -/
def RoundsWell (t : ℚ) : Prop := -1 / 512 ≤ t ∨ ∃ n : ℤ, 256 * t = n + 1 / 2

/-- **When the rounded number is a nearest one.** -/
theorem nearest_iff {t : ℚ} (h : -128 ≤ t) (h' : t < 128 - 1 / 512) {R : ℤ}
    (hR : R = Double.trunc (256 * t + 1 / 2)) :
    Nearest t (UInt8.ofInt (R / 256)) (UInt8.ofInt R) ↔ RoundsWell t := by
  have hword : word_value (UInt8.ofInt (R / 256)) (UInt8.ofInt R) = R := by
    obtain ⟨hlow, hhigh⟩ := Double.trunc_bounds (256 * t + 1 / 2)
    rw [← hR] at hlow hhigh
    apply word_value_wordBytes
    · have hlt : (-32769 : ℚ) < R := by linarith
      have hlt' : (-32769 : ℤ) < R := by exact_mod_cast hlt
      omega
    · rcases le_or_gt 0 (256 * t + 1 / 2) with hnn | hneg
      · rw [hR, Double.trunc_of_nonneg hnn]
        exact Int.floor_lt.mpr (by push_cast; linarith)
      · have hlt : (R : ℚ) < 1 := by linarith
        have hlt' : R < (1 : ℤ) := by exact_mod_cast hlt
        omega
  -- the distance in register units
  have hunits : |(R : ℚ) / 256 - t| ≤ 1 / 512 ↔ |(R : ℚ) - 256 * t| ≤ 1 / 2 := by
    rw [abs_le, abs_le]
    constructor <;> rintro ⟨h₁, h₂⟩ <;> constructor <;> linarith
  have hround : |(R : ℚ) - 256 * t| ≤ 1 / 2 ↔ RoundsWell t := by
    rw [hR, Double.trunc_add_half_iff]
    unfold RoundsWell
    apply or_congr_left
    constructor <;> intro h <;> linarith
  unfold Nearest
  rw [hword, hunits, hround]
  constructor
  · exact fun h => h.1
  · intro hwell
    refine ⟨hwell, fun n hn => ?_⟩
    -- a number within one half of an integer is that integer
    have hclose := abs_le.mp (hround.mpr hwell)
    have h₁ : ((n : ℤ) : ℚ) - 1 < R := by rw [hn] at hclose; linarith [hclose.1]
    have h₂ : (R : ℚ) < n + 1 := by rw [hn] at hclose; linarith [hclose.2]
    have h₁' : n - 1 < R := by exact_mod_cast h₁
    have h₂' : R < n + 1 := by exact_mod_cast h₂
    omega

/-! ### The four places -/

/-- A place where the driver sends a threshold. -/
inductive Setpoint where
  | T_OS
  | T_HYST
  | TH
  | TL

/-- The arguments of a call in mode 'w', apart from the threshold. -/
structure WriteArgs where
  fd : ℤ
  addr : ℤ
  other : Option Double
  cfg : Option UInt8

namespace Setpoint

/-- The register the threshold is sent to. -/
def reg : Setpoint → UInt8
  | T_OS => 3
  | T_HYST => 2
  | TH => 0xa1
  | TL => 0xa2

/-- The call. -/
def prog (T : Target) (a : WriteArgs) (t : Double) : Setpoint → Prog BusSig Details
  | T_OS => access_ds75_details T a.fd a.addr (some t) a.other a.cfg 'w'
  | T_HYST => access_ds75_details T a.fd a.addr a.other (some t) a.cfg 'w'
  | TH => access_ds1621_details T a.fd a.addr (some t) a.other a.cfg 'w'
  | TL => access_ds1621_details T a.fd a.addr a.other (some t) a.cfg 'w'

/-- A call that completes can send these two bytes to the register. -/
def Sends (T : Target) (a : WriteArgs) (t : Double) (s : Setpoint) (hi lo : UInt8) : Prop :=
  ∃ r L status, Returns busLog (s.prog T a t) [] r L ∧ r.status = 0 ∧
    Event.write a.fd [s.reg, hi, lo] status ∈ L

variable {T : Target} {a : WriteArgs} {t : Double} {hi lo : UInt8}

/-- The bytes sent to the register of the first threshold are those of the first argument. -/
theorem bytes_of_high {c : Chip} {low : Option Double} {cfg : Option UInt8} {r : Details}
    {L : List Event} {b status : ℤ} (hrun : Returns busLog
      (c.access T a.fd a.addr (some t) low cfg 'w') [] r L)
    (hevent : Event.write b [c.reg_high, hi, lo] status ∈ L) : encode_temp T t = [hi, lo] := by
  obtain ⟨n, xs, houtcome⟩ := wp_returns wp_log_access hrun
  obtain ⟨-, x, -, hfield, hreg, hbytes⟩ := houtcome.sentData hevent
  rw [← hbytes]
  obtain ⟨hhl, hhc, -⟩ := c.regs_ne
  rcases List.mem_append.mp hfield with hf | hf
  · simp only [threshold_field, Option.map_some, Option.toList_some, List.mem_singleton] at hf
    rw [hf]
  rcases List.mem_append.mp hf with hf | hf
  · exact absurd (hreg.symm.trans (threshold_field_reg hf)) hhl
  · exact absurd (hreg.symm.trans (config_field_reg hf)) hhc

theorem bytes_of_low {c : Chip} {high : Option Double} {cfg : Option UInt8} {r : Details}
    {L : List Event} {b status : ℤ} (hrun : Returns busLog
      (c.access T a.fd a.addr high (some t) cfg 'w') [] r L)
    (hevent : Event.write b [c.reg_low, hi, lo] status ∈ L) : encode_temp T t = [hi, lo] := by
  obtain ⟨n, xs, houtcome⟩ := wp_returns wp_log_access hrun
  obtain ⟨-, x, -, hfield, hreg, hbytes⟩ := houtcome.sentData hevent
  rw [← hbytes]
  obtain ⟨hhl, -, hlc⟩ := c.regs_ne
  rcases List.mem_append.mp hfield with hf | hf
  · exact absurd (hreg.symm.trans (threshold_field_reg hf)) hhl.symm
  rcases List.mem_append.mp hf with hf | hf
  · simp only [threshold_field, Option.map_some, Option.toList_some, List.mem_singleton] at hf
    rw [hf]
  · exact absurd (hreg.symm.trans (config_field_reg hf)) hlc

/-- **What a call that completes sends** are the bytes of the threshold, at each of the four places. -/
theorem sends_iff (s : Setpoint) : s.Sends T a t hi lo ↔ encode_temp T t = [hi, lo] := by
  constructor
  · rintro ⟨r, L, status, hrun, -, hevent⟩
    cases s with
    | T_OS => exact bytes_of_high (c := .ds75) hrun hevent
    | T_HYST => exact bytes_of_low (c := .ds75) hrun hevent
    | TH => exact bytes_of_high (c := .ds1621) hrun hevent
    | TL => exact bytes_of_low (c := .ds1621) hrun hevent
  · intro hbytes
    have hrun : ∃ r L, exec (okLog []) (s.prog T a t) [] = some (r, L) ∧ r.status = 0 ∧
        Event.write a.fd (s.reg :: encode_temp T t) 3 ∈ L := by
      obtain ⟨fd, addr, other, cfg⟩ := a
      cases s <;> cases other <;> cases cfg <;> exact ⟨_, _, rfl, rfl, by simp [reg]⟩
    obtain ⟨r, L, hexec, hstatus, hevent⟩ := hrun
    exact ⟨r, L, 3, returns_of_exec (busLog_of_okLog []) hexec, hstatus, hbytes ▸ hevent⟩

end Setpoint

/-! ### Nearest encoding -/

/-- **When thresholds are encoded to the nearest register value**, at every place and for every other
argument of the call. -/
theorem encoding_nearest_iff (T : Target) (s : Setpoint) {t : ℚ} (h : -128 ≤ t)
    (h' : t < 128 - 1 / 512) :
    (∀ a hi lo, s.Sends T a (.fin t) hi lo → Nearest t hi lo) ↔ RoundsWell t := by
  have hword := encode_temp_word T (t := t) (by linarith) (by linarith)
  rw [← nearest_iff h h' rfl]
  constructor
  · intro hall
    exact hall ⟨3, 0, none, none⟩ _ _ (s.sends_iff.mpr hword)
  · intro hnearest a hi lo hsends
    have hbytes := s.sends_iff.mp hsends
    rw [hword] at hbytes
    obtain ⟨rfl, hlo⟩ := List.cons.inj hbytes
    obtain ⟨rfl, -⟩ := List.cons.inj hlo
    exact hnearest

/-- 25.3 degrees are sent as 0x194D. -/
theorem encoding_nearest_above_zero :
    Setpoint.T_OS.Sends ⟨false, fun _ => 0, id⟩ ⟨3, 0, none, none⟩ (.fin (253 / 10)) 0x19 0x4d ∧
      Nearest (253 / 10) 0x19 0x4d := by
  have hsends : Setpoint.T_OS.Sends ⟨false, fun _ => 0, id⟩ ⟨3, 0, none, none⟩ (.fin (253 / 10))
      0x19 0x4d := Setpoint.T_OS.sends_iff.mpr (by decide +kernel)
  have hnear := (encoding_nearest_iff ⟨false, fun _ => 0, id⟩ .T_OS (t := 253 / 10)
    (by decide +kernel) (by decide +kernel)).mpr (.inl (by decide +kernel))
  exact ⟨hsends, hnear _ _ _ hsends⟩

/-- Ten degrees below zero are sent as 0xF601, that is 1/256 degree too high. -/
theorem not_encoding_nearest_minus_ten :
    ¬ ∀ a hi lo, Setpoint.T_OS.Sends ⟨false, fun _ => 0, id⟩ a (.fin (-10)) hi lo →
      Nearest (-10) hi lo := by
  intro hall
  have hsends : Setpoint.T_OS.Sends ⟨false, fun _ => 0, id⟩ ⟨3, 0, none, none⟩ (.fin (-10))
      0xf6 0x01 := Setpoint.T_OS.sends_iff.mpr (by decide +kernel)
  have hexact := (hall _ _ _ hsends).2 (-2560) (by decide +kernel)
  exact absurd hexact (by decide)

end RackmonIoc.Temp
