import RackmonIoc.Bus.Details
import RackmonIoc.CLib.Rounding
import RackmonIoc.Driver.Ioc

/-!
# Setpoints out of range

`write_ao` checks the range of VAL for the letter C only.  For H and L any value goes to the conversion
of `access_ds75_details`, whose result is cut to 16 bits, or is no `int` at all.

A run is one `write_ao` down to the calls on the bus device, under every outcome of every step
(`busLog`).
-/

namespace RackmonIoc.Temp

open Program CLib Base Driver Bus Prog

/-! ### One `write_ao` -/

/-- Two data bytes are sent, as they are right after the conversion `(int)(t*256 + 0.5)` and nowhere
else. -/
def Converts (L : List Event) : Prop :=
  ∃ fd reg hi lo status, Event.write fd [reg, hi, lo] status ∈ L

/-- The device support over the log of the bus device. -/
def logDev (T : Target) : Env DevSig (List Event) := Env.through busLog (expand T)

section Write

variable {T : Target} {g : Globals} {prec : AoRecord} {n : ℤ} {what : Char}

theorem logDev_gpio {gpio state r : ℤ} {L L' : List Event} :
    logDev T L (.gpio_write gpio state) r L' ↔ L' = L := by
  constructor
  · intro h
    obtain ⟨r', L₁, he, hr⟩ := returns_vis.mp h
    obtain ⟨rfl, rfl⟩ := returns_ret.mp hr
    exact he
  · rintro rfl
    exact returns_vis.mpr ⟨r, L', rfl, .refl _ _⟩

/-- A write of the config byte converts nothing. -/
theorem not_converts_config {fd addr : ℤ} {cfg : Option UInt8} {r : Details} {L : List Event}
    (h : logDev T [] (.access_ds75_details fd addr none none cfg 'w') r L) : ¬ Converts L := by
  have hrun : Returns busLog (Chip.ds75.access T fd addr none none cfg 'w') [] r L := h
  obtain ⟨status, xs, houtcome⟩ := wp_returns wp_log_access hrun
  rintro ⟨fd', reg, hi, lo, n, hevent⟩
  obtain ⟨-, x, -, hfield, -, hbytes⟩ := houtcome.sentData hevent
  have hone : x.field.bytes.length = 1 := by
    simp only [Chip.requested, threshold_field, config_field, Option.map_none, Option.toList_none,
      List.nil_append, Option.mem_toList, Option.map_eq_some_iff] at hfield
    obtain ⟨b, -, hb⟩ := hfield
    rw [← hb]
    rfl
  rw [hbytes] at hone
  simp at hone

/-- **One `write_ao`**: a value that is not taken sends nothing, and only H and L convert. -/
theorem wp_write_log (hp : Entry g prec.toDbCommon n what) :
    wp (logDev T) (fun _ _ => True) (fun r L => (¬ Writes what prec.val → r.1 = -1 ∧ L = []) ∧
      (Converts L → what = 'H' ∨ what = 'L')) (write_ao T g prec) [] := by
  rw [write_ao_entry T hp, wp_bind]
  -- the selection makes no call on the bus device
  refine wp_conseq (wp_select_keeps (fun _ _ _ _ _ => logDev_gpio.mp) (n % 8) []) ?_
  rintro sel L rfl
  have hnothing : ¬ Converts ([] : List Event) := by
    rintro ⟨fd, reg, hi, lo, status, hmem⟩
    exact nomatch hmem
  rw [wp_bind, wp_ite]
  constructor
  · exact fun _ => ⟨fun _ => ⟨rfl, rfl⟩, fun h => absurd h hnothing⟩
  intro _
  by_cases hwrites : Writes what prec.val
  · rcases hwrites with rfl | rfl | ⟨rfl, hrange⟩
    · exact ⟨trivial, fun r L _ => ⟨fun h => absurd (.inl rfl) h, fun _ => .inl rfl⟩⟩
    · exact ⟨trivial, fun r L _ => ⟨fun h => absurd (.inr (.inl rfl)) h, fun _ => .inr rfl⟩⟩
    · unfold write_what
      rw [if_neg (by decide), if_neg (by decide), if_pos rfl, if_neg hrange]
      refine ⟨trivial, fun r L he => ⟨fun h => absurd (.inr (.inr ⟨rfl, hrange⟩)) h, fun h => ?_⟩⟩
      exact absurd h (not_converts_config he)
  · rw [write_what_of_not hwrites]
    exact ⟨fun _ => ⟨rfl, rfl⟩, fun h => absurd h hnothing⟩

/-- A write of any details can succeed. -/
theorem exists_access_write (fd addr : ℤ) (a b : Option Double) (c : Option UInt8) :
    ∃ L, logDev T [] (.access_ds75_details fd addr a b c 'w') ⟨0, a, b, c⟩ L := by
  cases a <;> cases b <;> cases c <;> exact ⟨_, returns_of_exec (busLog_of_okLog []) rfl⟩

/-- With the letters H and L a write of any value can succeed. -/
theorem exists_write_log (hp : Entry g prec.toDbCommon n what) (hwhat : what = 'H' ∨ what = 'L') :
    ∃ r L, Returns (logDev T) (write_ao T g prec) [] r L ∧ r.1 = 0 := by
  obtain ⟨-, -, -, h0, -⟩ := id hp
  have hcall : ∃ L, Returns (logDev T) (write_what T g.global_fd_i2c (n / 8) what prec.val) [] 0 L := by
    rcases hwhat with rfl | rfl
    · obtain ⟨L, he⟩ := exists_access_write (T := T) g.global_fd_i2c (n / 8) (some prec.val) none none
      exact ⟨L, returns_vis.mpr ⟨_, L, he, .refl _ _⟩⟩
    · obtain ⟨L, he⟩ := exists_access_write (T := T) g.global_fd_i2c (n / 8) none (some prec.val) none
      exact ⟨L, returns_vis.mpr ⟨_, L, he, .refl _ _⟩⟩
  obtain ⟨L, hcall⟩ := hcall
  refine ⟨ao_result prec 0, L, ?_, rfl⟩
  rw [write_ao_entry T hp]
  have hselect : Returns (logDev T) (select_probe (n % 8)) [] 0 [] :=
    returns_select (by omega) (by omega) fun _ _ => logDev_gpio.mpr rfl
  refine returns_bind.mpr ⟨0, [], hselect, ?_⟩
  rw [if_neg (lt_irrefl 0)]
  exact returns_bind.mpr ⟨0, L, hcall, returns_ret.mpr ⟨rfl, rfl⟩⟩

end Write

/-! ### Rejection -/

/-- The value is out of range for the letter: it is no 16-bit number of 1/256 degree, by at least one
degree below, or it is no byte. -/
def OutOfRange (what : Char) (v : ℚ) : Prop :=
  (what = 'H' ∨ what = 'L') ∧ (128 ≤ v ∨ v ≤ -129) ∨ what = 'C' ∧ (v < 0 ∨ 255 < v)

/-- **Out-of-range values are rejected**: `write_ao` of a record with the value `v` returns -1 and sends
no data if it is out of range, and converts it only if the result fits an `int`. -/
def RejectsOutOfRange (T : Target) (g : Globals) (prec : AoRecord) (what : Char) (v : ℚ) : Prop :=
  ∀ r L, Returns busLog ((write_ao T g prec).interp (expand T)) [] r L →
    (OutOfRange what v → r.1 = -1 ∧ ∀ reg, ¬ SentData L reg) ∧
    (Converts L → Double.FitsInt (Double.trunc (v * 256 + 1 / 2)))

/-- **When out-of-range values are rejected**: unless the letter is H or L and the value is out of
range for it. -/
theorem rejects_out_of_range_iff (T : Target) {g : Globals} {prec : AoRecord} {n : ℤ} {what : Char}
    {v : ℚ} (hp : Entry g prec.toDbCommon n what) (hval : prec.val = .fin v) :
    RejectsOutOfRange T g prec what v ↔ (what = 'H' ∨ what = 'L' → -129 < v ∧ v < 128) := by
  constructor
  · intro hrejects hwhat
    by_contra hrange
    obtain ⟨r, L, hrun, hzero⟩ := exists_write_log (T := T) hp hwhat
    have hout : OutOfRange what v := by
      refine .inl ⟨hwhat, ?_⟩
      by_contra hin
      rw [not_or, not_le, not_le] at hin
      exact hrange ⟨hin.2, hin.1⟩
    have hfail := ((hrejects r L (returns_interp.mpr hrun)).1 hout).1
    omega
  · intro hrange r L hrun
    obtain ⟨hreject, hconvert⟩ := wp_returns (wp_write_log hp) (returns_interp.mp hrun)
    constructor
    · rintro (⟨hwhat, hout⟩ | ⟨rfl, hout⟩)
      · obtain ⟨hlow, hhigh⟩ := hrange hwhat
        rcases hout with h | h <;> linarith
      · have hno : ¬ Writes 'C' prec.val := by
          rintro (h | h | ⟨-, h⟩)
          · exact absurd h (by decide)
          · exact absurd h (by decide)
          · apply h
            simpa [hval] using hout
        obtain ⟨hr, rfl⟩ := hreject hno
        refine ⟨hr, ?_⟩
        rintro reg ⟨fd, b, bytes, status, hmem⟩
        exact nomatch hmem
    · intro hconverts
      obtain ⟨hlow, hhigh⟩ := hrange (hconvert hconverts)
      exact Double.fitsInt_trunc (by linarith) (by linarith)

/-- An ao record with VAL `v`. -/
def with_val (v : ℚ) : AoRecord := { (default : AoRecord) with dpvt := some 0, val := .fin v }

/-- The private data of a record with text "0 H". -/
def high_entry : Globals := ⟨3, fun _ => ⟨0, 'H'⟩⟩

theorem with_val_entry (v : ℚ) : Entry high_entry (with_val v).toDbCommon 0 'H' :=
  ⟨0, rfl, rfl, by decide, by decide⟩

/-- 30 degrees. -/
theorem rejects_out_of_range_thirty :
    RejectsOutOfRange ⟨false, fun _ => 0, id⟩ high_entry (with_val 30) 'H' 30 :=
  (rejects_out_of_range_iff _ (with_val_entry 30) rfl).mpr fun _ => by decide +kernel

/-- 200 degrees are written to "0 H", as 0xC800, that is -56 degrees. -/
theorem not_rejects_two_hundred :
    ¬ RejectsOutOfRange ⟨false, fun _ => 0, id⟩ high_entry (with_val 200) 'H' 200 := by
  intro hrejects
  obtain ⟨r, L, hrun, hzero⟩ := exists_write_log (T := ⟨false, fun _ => 0, id⟩)
    (with_val_entry 200) (.inl rfl)
  have hout : OutOfRange 'H' 200 := .inl ⟨.inl rfl, .inl (by decide +kernel)⟩
  have hfail := ((hrejects r L (returns_interp.mpr hrun)).1 hout).1
  omega

end RackmonIoc.Temp
