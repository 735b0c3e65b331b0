import RackmonIoc.Temp.Encoding
import RackmonIoc.Temp.Store

/-!
# Setpoints read back

A threshold is written with the letter H or L and read with S or Y.  Over runs with any failures away
from the probe, the register keeps the two bytes of the last successful write, and a later read brings
them back as `decode_error` says: exactly where plain `char` fits the word, and one degree too low, or
256 too high, elsewhere.
-/

namespace RackmonIoc.Temp

open Program CLib Base Driver Bus Prog

variable {T : Target}

/-! ### The two thresholds -/

/-- A threshold register of a probe. -/
inductive Threshold where
  | T_OS
  | T_HYST
  deriving DecidableEq

namespace Threshold

/-- The letter that writes it. -/
def write_letter : Threshold → Char
  | T_OS => 'H'
  | T_HYST => 'L'

/-- The letter that reads it. -/
def read_letter : Threshold → Char
  | T_OS => 'S'
  | T_HYST => 'Y'

def reg : Threshold → UInt8
  | T_OS => 3
  | T_HYST => 2

/-- The two bytes in the register. -/
def get (th : Threshold) (d : DS75) : UInt8 × UInt8 := d.reg th.reg

variable (th : Threshold)

theorem get_visited (ch : Char) (d : DS75) : th.get (visited ch d) = th.get d := by
  unfold get
  rw [(visited_sameData ch d).2]

theorem get_written {ch : Char} (h : ch ≠ th.write_letter) (val : Double) (d : DS75) :
    th.get (written T ch val d) = th.get d := by
  unfold written get
  cases th <;> unfold write_letter at h <;> split_ifs <;> first | rfl | contradiction

theorem get_written_self (val : Double) (d : DS75) :
    [(th.get (written T th.write_letter val d)).1, (th.get (written T th.write_letter val d)).2] =
      encode_temp T val := by
  cases th <;> rfl

theorem content_read (d : DS75) :
    content T th.read_letter d = some (decode_temp T [(th.get d).1, (th.get d).2]) := by
  cases th <;> rfl

end Threshold

/-! ### Encoding and decoding -/

/-- The number that a threshold becomes: rounded as the source does it, as a 16-bit number. -/
def register_number (v : ℚ) : ℤ := (Double.trunc (256 * v + 1 / 2)).bmod 65536

/-- By how many degrees the decoding of a register is off. -/
def decode_error (T : Target) (R : ℤ) : ℤ :=
  if T.char_signed then if R % 256 < 128 then 0 else -1
  else if 0 ≤ R then 0 else 256

theorem decode_word (T : Target) {R : ℤ} (h : -32768 ≤ R) (h' : R < 32768) :
    decode_temp T (wordBytes R) = .fin (R / 256 + decode_error T R) := by
  have hint : 256 * char_value T (UInt8.ofInt (R / 256)) + char_value T (UInt8.ofInt R) =
      R + 256 * decode_error T R := by
    unfold char_value decode_error
    cases T.char_signed with
    | true =>
      simp only [if_true, ofInt_toInt8]
      split <;> omega
    | false =>
      simp only [Bool.false_eq_true, if_false, ofInt_toNat]
      split <;> omega
  have hrat : (256 * char_value T (UInt8.ofInt (R / 256)) + char_value T (UInt8.ofInt R) : ℚ) =
      R + 256 * decode_error T R := by exact_mod_cast hint
  rw [decode_wordBytes]
  congr 1
  linarith

theorem wordBytes_bmod (R : ℤ) : wordBytes (R.bmod 65536) = wordBytes R := by
  have hmod : ∃ m, R.bmod 65536 = R + 65536 * m := by
    rw [Int.bmod_def]
    split
    · exact ⟨-(R / 65536), by omega⟩
    · exact ⟨-(R / 65536) - 1, by omega⟩
  obtain ⟨m, hm⟩ := hmod
  have hbyte : ∀ a b : ℤ, a % 256 = b % 256 → UInt8.ofInt a = UInt8.ofInt b := by
    intro a b hab
    apply UInt8.toNat_inj.mp
    have ha := ofInt_toNat a
    have hb := ofInt_toNat b
    omega
  unfold wordBytes
  rw [hbyte (R.bmod 65536 / 256) (R / 256) (by omega), hbyte (R.bmod 65536) R (by omega)]

/-- **What a threshold becomes** on its way into the register and back. -/
theorem decode_encode (T : Target) {v : ℚ} (h : -8388608 ≤ v) (h' : v < 8388607) :
    decode_temp T (encode_temp T (.fin v)) =
      .fin (register_number v / 256 + decode_error T (register_number v)) := by
  rw [encode_temp_word T h h', ← wordBytes_bmod]
  refine decode_word T ?_ ?_
  · exact Int.le_bmod (by decide)
  · exact Int.bmod_lt (by decide)

/-! ### The law -/

/-- The call writes the threshold of the probe `n`. -/
def ThresholdWrite (T : Target) (s : Ioc) (th : Threshold) (n : ℤ) (c : IocCall) : Prop :=
  (∃ k val, c = .write_ao k val) ∧ s.accepted T c.record = some (n, th.write_letter)

theorem Threshold.spares {s : Ioc} {th : Threshold} {n : ℤ} {c : IocCall}
    (h : ¬ ThresholdWrite T s th n c) : Spares T th.get s n c := by
  rintro k val ch rfl hacc d
  refine th.get_written ?_ val d
  rintro rfl
  exact h ⟨⟨k, val, rfl⟩, hacc⟩

/-- **Setpoints read back.**  After a successful write of a threshold, and any run that does not write it
again and in which no transfer to the probe fails, a successful read brings `register_number`, as
the decoding has it. -/
theorem setpoint_read_back {s : Ioc} (hown : OwnEntries T s) (th : Threshold) {w : Box} {k : ℕ} {v : ℚ}
    (hlow : -8388608 ≤ v) (hhigh : v < 8388607) {n : ℤ} {r : ℤ × AoRecord} {w₁ : Box}
    (hacc : s.accepted T (.ao k) = some (n, th.write_letter))
    (hwrite : WriteReturns T s w k (.fin v) r w₁) (h0 : r.1 = 0) {cs : List IocCall}
    (hcs : ∀ c ∈ cs, c.is_init = false ∧ ¬ ThresholdWrite T s th n c) {s₂ : Ioc} {w₂ : Box}
    (hrun : Returns (Env.tag (boxEnvOn (· = probe n))) (bus_session T cs (s.set_ao k s.globals r.2))
      w₁ s₂ w₂) {j : ℕ} {r' : ℤ × AiRecord} {w₃ : Box}
    (hacc' : s.accepted T (.ai j) = some (n, th.read_letter)) (hread : ReadReturns T s₂ w₂ j r' w₃)
    (h2 : r'.1 = 2) :
    r'.2.val = .fin (register_number v / 256 + decode_error T (register_number v)) := by
  obtain ⟨hacted, -, hsame⟩ := hwrite.spec hown hacc
  obtain ⟨hsame₂, hkept⟩ := kept_run hown hsame th.get_visited
    (fun c hc => ⟨(hcs c hc).1, th.spares (hcs c hc).2⟩) hrun
  have hbytes : [(th.get (device w₂ n)).1, (th.get (device w₂ n)).2] = encode_temp T (.fin v) := by
    rw [hkept, hacted.done h0]
    exact th.get_written_self _ _
  have hval := (hread.spec (hown.same hsame₂) ((hsame₂.accepted T _).trans hacc')).2 h2
  rw [th.content_read, hbytes, decode_encode T hlow hhigh] at hval
  exact (Option.some.inj hval).symm

theorem boxEnvOn_of_okBox {D : ℕ × ℤ → Prop} (w : Box) (o : BusOp) (r : BusOp.Reply o) (w' : Box)
    (h : okBox w o = some (r, w')) : boxEnvOn D w o r w' := by
  refine ⟨boxEnv_of_okBox w o r w' h, fun _ => ?_⟩
  cases o with
  | write fd buf => exact congrArg Prod.fst (Option.some.inj h).symm
  | read fd n => exact congrArg (fun x => x.1.status) (Option.some.inj h).symm
  | _ => trivial

/-- A record that writes the upper threshold of probe 9, and one that reads it. -/
def upperIoc : Ioc where
  globals := ⟨3, fun i => if i = 73 then ⟨9, 'H'⟩ else ⟨9, 'S'⟩⟩
  ai _ := { (default : AiRecord) with dpvt := some 9, inp_text := some ['9', 'S'] }
  ao _ := { (default : AoRecord) with dpvt := some 73, out_text := some ['9', 'H'] }

/-- Ten degrees below zero come back as 246.004, where plain `char` is unsigned. -/
theorem setpoint_read_back_minus_ten :
    ∃ r w₁ s₂ w₂ r' w₃,
      WriteReturns ⟨false, fun _ => 0, id⟩ upperIoc
        ⟨fun _ => false, 0, fun _ _ => ⟨0, 0, fun _ => (0, 0)⟩⟩ 0 (.fin (-10)) r w₁ ∧
      Returns (Env.tag (boxEnvOn (· = probe 9)))
        (bus_session ⟨false, fun _ => 0, id⟩ [.read_ai 0 0]
          (upperIoc.set_ao 0 upperIoc.globals r.2)) w₁ s₂ w₂ ∧
      ReadReturns ⟨false, fun _ => 0, id⟩ s₂ w₂ 0 r' w₃ ∧
      r'.2.val = .fin (-2559 / 256 + 256) := by
  let T : Target := ⟨false, fun _ => 0, id⟩
  let w : Box := ⟨fun _ => false, 0, fun _ _ => ⟨0, 0, fun _ => (0, 0)⟩⟩
  have hown : OwnEntries T upperIoc := by
    rintro (k | k) i hi
    · obtain rfl : i = 9 := (Option.some.inj hi).symm
      exact ⟨9, 'S', rfl, rfl⟩
    · obtain rfl : i = 73 := (Option.some.inj hi).symm
      exact ⟨9, 'H', rfl, rfl⟩
  obtain ⟨r, w₁, hwrite, h0⟩ : ∃ r w₁, exec okBox
      ((write_ao T upperIoc.globals { upperIoc.ao 0 with val := .fin (-10) }).interp (expand T)) w =
        some (r, w₁) ∧ r.1 = 0 := ⟨_, _, rfl, rfl⟩
  obtain ⟨s₂, w₂, r', w₃, hrun, hread, h2⟩ : ∃ s₂ w₂ r' w₃,
      exec (fun w (o : (BusSig.tag IocCall).Op) => okBox w o.2)
        (bus_session T [.read_ai 0 0] (upperIoc.set_ao 0 upperIoc.globals r.2)) w₁ = some (s₂, w₂) ∧
      exec okBox ((read_ai s₂.globals (s₂.ai 0) 0).interp (expand T)) w₂ = some (r', w₃) ∧
      r'.1 = 2 := ⟨_, _, _, _, rfl, rfl, rfl⟩
  have hwrite' : WriteReturns T upperIoc w 0 (.fin (-10)) r w₁ :=
    returns_of_exec (fun w o r w' h => boxEnv_of_okBox w o r w' h) hwrite
  have hrun' : Returns (Env.tag (boxEnvOn (· = probe 9)))
      (bus_session T [.read_ai 0 0] (upperIoc.set_ao 0 upperIoc.globals r.2)) w₁ s₂ w₂ :=
    returns_of_exec (S := BusSig.tag IocCall)
      (fun w (o : IocCall × BusOp) r w' h => boxEnvOn_of_okBox w o.2 r w' h) hrun
  have hread' : ReadReturns T s₂ w₂ 0 r' w₃ :=
    ⟨0, returns_of_exec (fun w o r w' h => boxEnv_of_okBox w o r w' h) hread⟩
  have hcs : ∀ c ∈ [IocCall.read_ai 0 0],
      c.is_init = false ∧ ¬ ThresholdWrite T upperIoc .T_OS 9 c := by
    simp [IocCall.is_init, ThresholdWrite]
  have hval := setpoint_read_back hown .T_OS (by norm_num) (by norm_num) rfl hwrite' h0 hcs hrun' rfl
    hread' h2
  refine ⟨r, w₁, s₂, w₂, r', w₃, hwrite', hrun', hread', hval.trans ?_⟩
  have hnumber : register_number (-10) = -2559 := by decide +kernel
  have herror : decode_error T (-2559) = 256 := rfl
  rw [hnumber, herror]
  norm_num

end RackmonIoc.Temp
