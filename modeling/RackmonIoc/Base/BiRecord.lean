import RackmonIoc.Base.Records
import RackmonIoc.Program.Wp

/-!
# `biRecord.c`

The processing of a bi record, over any device support `read_bi` with globals `γ`.  What the links
bring is data of the processing; the time stamp, the monitors and the forward link are left out, since
nothing of the record depends on them.
-/

namespace RackmonIoc.Base

open Program

/-- What the links of a bi record bring at one processing. -/
structure BiLinks where
  siml : Link Simm
  siol : Link ℕ

namespace BiRecord

variable {S : Sig} {γ : Type}

/-- `recGblSetSevr(prec, new_stat, new_sevr)` -/
def setSevr (prec : BiRecord) (new_stat : AlarmStat) (new_sevr : Severity) : BiRecord :=
  { prec with toDbCommon := (recGblSetSevr prec.toDbCommon new_stat new_sevr).1 }

@[simp] theorem setSevr_no_alarm (prec : BiRecord) (stat : AlarmStat) :
    prec.setSevr stat .NO_ALARM = prec := by
  unfold setSevr
  rw [recGblSetSevr_no_alarm]

theorem setSevr_first {prec : BiRecord} (h : prec.nsev = .NO_ALARM) (stat : AlarmStat)
    {sevr : Severity} (hs : sevr ≠ .NO_ALARM) :
    prec.setSevr stat sevr = { prec with nsta := stat, nsev := sevr } := by
  unfold setSevr
  rw [recGblSetSevr_first h stat hs]

/-- The status, the globals and the record after the value has been read. -/
def readValue (read_bi : γ → BiRecord → Prog S (ℤ × γ × BiRecord)) (l : BiLinks) (g : γ)
    (prec : BiRecord) : Prog S (ℤ × γ × BiRecord) :=
  if prec.pact then read_bi g prec else
  let (status, simm) := l.siml.get prec.simm
  let prec := { prec with toDbCommon := l.siml.raise prec.toDbCommon, simm }
  if status ≠ 0 then return (status, g, prec) else
  match prec.simm with
  | .NO => read_bi g prec
  | .YES =>
    let (status, sval) := l.siol.get prec.sval
    let prec := { prec with toDbCommon := l.siol.raise prec.toDbCommon, sval }
    let prec := if status = 0 then { prec with val := sval % 65536, udf := false } else prec
    return (2, g, prec.setSevr .SIMM prec.sims)
  | .RAW =>
    let (status, sval) := l.siol.get prec.sval
    let prec := { prec with toDbCommon := l.siol.raise prec.toDbCommon, sval }
    let prec := if status = 0 then { prec with rval := sval, udf := false } else prec
    return (0, g, prec.setSevr .SIMM prec.sims)
  | .illegal => return (-1, g, prec.setSevr .SOFT .INVALID)

def checkAlarms (prec : BiRecord) : BiRecord :=
  if prec.udf then prec.setSevr .UDF prec.udfs
  else if prec.val > 1 then prec
  else
    let prec := prec.setSevr .STATE (if prec.val = 0 then prec.zsv else prec.osv)
    if prec.val = prec.lalm then prec
    else { prec.setSevr .COS prec.cosv with lalm := prec.val }

/-- The new alarm becomes the current one. -/
def monitor (prec : BiRecord) : BiRecord :=
  { prec with toDbCommon := recGblResetAlarms prec.toDbCommon }

/-- The end of a processing, after the value has been read with status `status`. -/
def finish (status : ℤ) (prec : BiRecord) : ℤ × BiRecord :=
  let prec := { prec with pact := true }
  let prec :=
    if status = 0 then { prec with val := if prec.rval = 0 then 0 else 1, udf := false } else prec
  let status := if status = 2 then 0 else status
  let prec := monitor (checkAlarms prec)
  (status, { prec with pact := false })

/-- Without a conversion VAL stays. -/
theorem finish_of_ne_zero {status : ℤ} (h : status ≠ 0) (prec : BiRecord) :
    (finish status prec).2 =
      { monitor (checkAlarms { prec with pact := true }) with pact := false } := by
  simp only [finish, if_neg h]

/-- A device support that sets PACT has not finished; the processing ends there. -/
def process (read_bi : γ → BiRecord → Prog S (ℤ × γ × BiRecord)) (l : BiLinks) (g : γ)
    (prec : BiRecord) : Prog S (ℤ × γ × BiRecord) := do
  let pact := prec.pact
  let (status, g, prec) ← readValue read_bi l g prec
  if !pact && prec.pact then return (0, g, prec) else
  let (status, prec) := finish status prec
  return (status, g, prec)

end BiRecord

end RackmonIoc.Base
