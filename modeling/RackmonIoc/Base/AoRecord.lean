import RackmonIoc.Base.Records
import RackmonIoc.Program.Wp

/-!
# `aoRecord.c`

The processing of an ao record.  `AoOp` is what it asks of the outside: the `write_ao` of its device
support and the write through SIOL.  What the other links bring, and what a breakpoint table makes of a
value, is data of the processing.  The time stamp, the monitors and the forward link are left out, since
nothing of the record depends on them.
-/

namespace RackmonIoc.Base

open Program CLib

inductive AoOp where
  /-- the device support, called with the record as it is then -/
  | write_ao (prec : AoRecord)
  /-- `dbPutLink` through SIOL -/
  | dbPutLink (value : Double)
  | recGblRecordError (status : ℤ) (message : String)

/-- `write_ao` returns a status and the record after the call. -/
abbrev AoOp.Reply : AoOp → Type
  | write_ao _ => ℤ × AoRecord
  | dbPutLink _ => ℤ
  | recGblRecordError _ _ => Unit

abbrev AoSig : Sig := ⟨AoOp, AoOp.Reply⟩

/-- What the links of an ao record bring at one processing, and `cvtEngToRawBpt`: its status, and the
raw value. -/
structure AoLinks where
  siml : Link Simm
  dol : Link Double
  cvtEngToRawBpt : Double → ℤ × Double

namespace AoRecord

/-- `recGblSetSevr(prec, new_stat, new_sevr)` -/
def setSevr (prec : AoRecord) (new_stat : AlarmStat) (new_sevr : Severity) : AoRecord :=
  { prec with toDbCommon := (recGblSetSevr prec.toDbCommon new_stat new_sevr).1 }

/-! ### The new value -/

/-- The status, the value and the record; the value does not matter where the link fails. -/
def fetch_value (l : AoLinks) (prec : AoRecord) : ℤ × Double × AoRecord :=
  let prec := { prec with val := prec.pval }
  let (status, value) := l.dol.get 0
  let prec := { prec with toDbCommon := l.dol.raise prec.toDbCommon }
  if status ≠ 0 then (status, value, prec.setSevr .LINK .INVALID)
  else (0, if prec.incremental then value + prec.val else value, prec)

/-- The drive limits. -/
def drive (prec : AoRecord) (value : Double) : Double :=
  if prec.drvl < prec.drvh then
    if prec.drvh < value then prec.drvh else if value < prec.drvl then prec.drvl else value
  else value

/-- The output rate of change. -/
def rate (prec : AoRecord) (value : Double) : Double :=
  if prec.oroc.eq 0 then value
  else
    let diff := value - prec.oval
    if diff < 0 then if prec.oroc < -diff then prec.oval - prec.oroc else value
    else if prec.oroc < diff then prec.oval + prec.oroc else value

/-- Rounding to a 32-bit integer; the casts are never out of range. -/
def round32 (value : Double) : ℤ :=
  if 0 ≤ value then
    if .fin (0x7fffffff - 1 / 2) ≤ value then 0x7fffffff
    else (value + .fin (1 / 2)).toInt fun _ => 0
  else
    if .fin (1 / 2 - 0x80000000) < value then (value - .fin (1 / 2)).toInt fun _ => 0
    else -0x80000000

/-- The raw value of an output value: offset, scale and rounding. -/
def raw (prec : AoRecord) (value : Double) : ℤ :=
  let value := value - prec.aoff
  let value := if prec.aslo.eq 0 then value else value / prec.aslo
  round32 (value - .fin prec.roff)

def convert (l : AoLinks) (prec : AoRecord) (value : Double) : AoRecord :=
  let value := drive prec value
  let prec := { prec with val := value, pval := value }
  let value := rate prec value
  let prec := { prec with oval := value }
  match prec.linr with
  | .NO_CONVERSION => { prec with rval := raw prec value }
  | .LINEAR | .SLOPE =>
    let value := if prec.eslo.eq 0 then 0 else (value - prec.eoff) / prec.eslo
    { prec with rval := raw prec value }
  | .table =>
    let (status, value) := l.cvtEngToRawBpt value
    if status ≠ 0 then prec.setSevr .SOFT .MAJOR else { prec with rval := raw prec value }

/-- The first part of a processing: unless PACT is set, the value is fetched and converted, and UDF
says whether VAL is a NaN. -/
def newValue (l : AoLinks) (prec : AoRecord) : ℤ × AoRecord :=
  if prec.pact then (0, prec) else
  let (status, value, prec) :=
    match l.dol with
    | .constant => (0, prec.val, prec)
    | .read _ _ _ _ => if prec.closed_loop then fetch_value l prec else (0, prec.val, prec)
  let prec := if status = 0 then convert l prec value else prec
  (status, { prec with udf := prec.val.isnan })

/-! ### Alarms -/

/-- The alarm condition of HIHI and HIGH: the limit is reached, or it was and VAL is not yet back by
HYST. -/
def above (prec : AoRecord) (asev : Severity) (alev : Double) : Bool :=
  asev ≠ .NO_ALARM && (alev ≤ prec.val || prec.lalm.eq alev && alev - prec.hyst ≤ prec.val)

/-- The alarm condition of LOLO and LOW. -/
def below (prec : AoRecord) (asev : Severity) (alev : Double) : Bool :=
  asev ≠ .NO_ALARM && (prec.val ≤ alev || prec.lalm.eq alev && prec.val ≤ alev + prec.hyst)

/-- Raise the alarm of a limit; LALM is the limit whose alarm was raised. -/
def raiseLimit (prec : AoRecord) (stat : AlarmStat) (asev : Severity) (alev : Double) : AoRecord :=
  let (common, raised) := recGblSetSevr prec.toDbCommon stat asev
  { prec with toDbCommon := common, lalm := if raised then alev else prec.lalm }

def checkAlarms (prec : AoRecord) : AoRecord :=
  if prec.udf then prec.setSevr .UDF prec.udfs
  else if prec.above prec.hhsv prec.hihi then prec.raiseLimit .HIHI prec.hhsv prec.hihi
  else if prec.below prec.llsv prec.lolo then prec.raiseLimit .LOLO prec.llsv prec.lolo
  else if prec.above prec.hsv prec.high then prec.raiseLimit .HIGH prec.hsv prec.high
  else if prec.below prec.lsv prec.low then prec.raiseLimit .LOW prec.lsv prec.low
  else { prec with lalm := prec.val }

/-- The new alarm becomes the current one. -/
def monitor (prec : AoRecord) : AoRecord :=
  { prec with toDbCommon := recGblResetAlarms prec.toDbCommon }

/-! ### The output -/

def write_ao (prec : AoRecord) : Prog AoSig (ℤ × AoRecord) := .vis (.write_ao prec) .ret

def writeValue (l : AoLinks) (prec : AoRecord) : Prog AoSig (ℤ × AoRecord) :=
  if prec.pact then write_ao prec else
  let (status, simm) := l.siml.get prec.simm
  let prec := { prec with toDbCommon := l.siml.raise prec.toDbCommon, simm }
  if status ≠ 0 then return (status, prec) else
  match prec.simm with
  | .NO => write_ao prec
  | .YES => .vis (S := AoSig) (.dbPutLink prec.oval) fun status =>
    let prec := if status = (0 : ℤ) then prec else prec.setSevr .LINK .INVALID
    return (status, prec.setSevr .SIMM prec.sims)
  | .RAW | .illegal => return (-1, prec.setSevr .SOFT .INVALID)

/-- The second part of a processing: the value is written, and IVOA says what happens to one that is
INVALID.  `status` is that of the first part. -/
def output (l : AoLinks) (status : ℤ) (prec : AoRecord) : Prog AoSig (ℤ × AoRecord) :=
  if prec.nsev < .INVALID then writeValue l prec else
  match prec.ivoa with
  | .Continue_normally => writeValue l prec
  | .Don_t_drive_outputs => return (status, prec)
  | .Set_output_to_IVOV =>
    writeValue l (if prec.pact then prec else convert l { prec with val := prec.ivov } prec.ivov)
  | .illegal => .vis (S := AoSig) (.recGblRecordError S_db_badField "ao:process Illegal IVOA field")
    fun _ => return (-1, prec)

/-- A device support that sets PACT has not finished; the processing ends there. -/
def process (l : AoLinks) (prec : AoRecord) : Prog AoSig (ℤ × AoRecord) := do
  let pact := prec.pact
  let (status, prec) := newValue l prec
  let (status, prec) ← output l status (checkAlarms prec)
  if !pact && prec.pact then return (0, prec) else
  return (status, { monitor prec with init := false, pact := false })

/-- With IVOA at Continue normally the value is written, whatever its alarm. -/
theorem process_continue {l : AoLinks} {prec : AoRecord}
    (h : (prec.newValue l).2.checkAlarms.ivoa = .Continue_normally) :
    prec.process l = ((prec.newValue l).2.checkAlarms.writeValue l).bind fun r =>
      if (!prec.pact && r.2.pact) = true then .ret (0, r.2)
      else .ret (r.1, { r.2.monitor with init := false, pact := false }) := by
  have hout : output l (prec.newValue l).1 (prec.newValue l).2.checkAlarms =
      (prec.newValue l).2.checkAlarms.writeValue l := by
    unfold output
    rw [h]
    split <;> rfl
  rw [← hout]
  rfl

end AoRecord

end RackmonIoc.Base
