import RackmonIoc.Base.BiRecord
import RackmonIoc.Driver.DevAiRackTemp

/-!
# `devBiRackProt.c`

The device support of the bi record of the rack protection.  The heartbeat counter, a global of the
source, is passed along.
-/

namespace RackmonIoc.Driver

open Program Base

/-- The format with the name of the record. -/
def zero_message (name : String) : String := "RackProt bit is zero for " ++ name ++ "\n"

/-- `hb_sequence_counter%2` -/
def heartbeat (hb : UInt32) : ℤ := (hb % 2).toNat

/-- `(308404&(1<<(20-hb_sequence_counter%21)))!=0` -/
def heartbeat_irregular (hb : UInt32) : ℤ :=
  if (308404 : ℕ) &&& 1 <<< (20 - hb % 21).toNat ≠ 0 then 1 else 0

/-- The shift count `20-hb_sequence_counter%21`, in unsigned arithmetic. -/
def heartbeat_shift (hb : UInt32) : UInt32 := 20 - hb % 21

theorem heartbeat_irregular_shift (hb : UInt32) : heartbeat_irregular hb =
    if (308404 : ℕ) &&& 1 <<< (heartbeat_shift hb).toNat ≠ 0 then 1 else 0 := rfl

/-- The message is logged when a low reading follows a VAL that is not zero. -/
def log_zero (istat : ℤ) (prec : BiRecord) : Prog DevSig Unit :=
  if istat = 0 ∧ prec.val ≠ 0 then Dev.errlogPrintf (zero_message prec.name) else pure ()

/-- A valid reading becomes VAL, an `unsigned short`. -/
def read_bi (hb : UInt32) (prec : BiRecord) : Prog DevSig (ℤ × UInt32 × BiRecord) := do
  let istat ← Dev.gpio_read 44
  if istat ≥ 0 then do
    log_zero istat prec
    let hb := hb + 1
    let _ ← Dev.gpio_write 45 (heartbeat hb)
    return (2, hb, { prec with val := (istat % 65536).toNat, udf := false })
  else do
    let hb := hb + 1
    let _ ← Dev.gpio_write 45 (heartbeat_irregular hb)
    return (-1, hb, { prec with udf := true })

end RackmonIoc.Driver
