import RackmonIoc.Base.Monitor
import RackmonIoc.Base.Records
import RackmonIoc.Program.Wp

/-!
# `aiRecord.c`

The processing of an ai record, over any device support `read_ai`, with what it posts.  What the links
bring, what a breakpoint table makes of a value and the time since the last processing are data of the
processing, and so is what comes out where the C standard leaves it open.  The time stamp itself and the
forward link are left out, since nothing of the record depends on them.
-/

namespace RackmonIoc.Base

open Program CLib

/-- An ai record with the fields that the record support uses. -/
structure FullAiRecord extends AiRecord where
  rval : ℤ
  /-- the raw value last posted -/
  oraw : ℤ
  roff : ℕ
  aslo : Double
  aoff : Double
  linr : Convert
  eslo : Double
  eoff : Double
  egul : Double
  smoo : Double
  init : Bool
  simm : Simm
  sims : Severity
  sval : Double
  hihi : Double
  lolo : Double
  high : Double
  low : Double
  hhsv : Severity
  llsv : Severity
  hsv : Severity
  lsv : Severity
  hyst : Double
  lalm : Double
  /-- time constant of the alarm filter -/
  aftc : Double
  /-- state of the alarm filter -/
  afvl : Double
  mdel : Double
  adel : Double
  /-- last value monitored -/
  mlst : Double
  /-- last value archived -/
  alst : Double
  deriving Inhabited

/-- What one processing of an ai record brings along. -/
structure AiLinks where
  siml : Link Simm
  siol : Link Double
  /-- `cvtRawToEngBpt`: its status, and the value after it -/
  cvtRawToEngBpt : Double → ℤ × Double
  /-- the seconds from the time stamp of the last processing to that of this one -/
  elapsed : Double
  /-- a cast that the C standard leaves open -/
  undefined_cast : Double → ℤ
  /-- what stands behind the end of `range_stat`, or before its start -/
  stray : ℤ → AlarmStat

namespace FullAiRecord

/-- The record with other common fields. -/
def setCommon (prec : FullAiRecord) (common : DbCommon) : FullAiRecord :=
  { prec with toDbCommon := common }

@[simp] theorem setCommon_common (prec : FullAiRecord) (common : DbCommon) :
    (prec.setCommon common).toDbCommon = common := rfl

/-- `recGblSetSevr(prec, new_stat, new_sevr)` -/
def setSevr (prec : FullAiRecord) (new_stat : AlarmStat) (new_sevr : Severity) : FullAiRecord :=
  prec.setCommon (recGblSetSevr prec.toDbCommon new_stat new_sevr).1

/-! ### The new value -/

variable {S : Sig}

/-- `dbGetLink` on SIML: its status, and the record after it. -/
def getSiml (l : AiLinks) (prec : FullAiRecord) : ℤ × FullAiRecord :=
  let r := l.siml.get prec.simm
  (r.1, { prec.setCommon (l.siml.raise prec.toDbCommon) with simm := r.2 })

/-- `dbGetLink` on SIOL. -/
def getSiol (l : AiLinks) (prec : FullAiRecord) : ℤ × FullAiRecord :=
  let r := l.siol.get prec.sval
  (r.1, { prec.setCommon (l.siol.raise prec.toDbCommon) with sval := r.2 })

/-- A simulated value. -/
def simulateVal (status : ℤ) (prec : FullAiRecord) : FullAiRecord :=
  if status = 0 then { prec with val := prec.sval, udf := prec.sval.isnan } else prec

/-- A simulated raw value, which is still to be converted; a NaN gives none. -/
def simulateRval (l : AiLinks) (status : ℤ) (prec : FullAiRecord) : FullAiRecord :=
  if status = 0 then
    let prec := { prec with udf := prec.sval.isnan }
    if !prec.udf then { prec with rval := prec.sval.floor.toInt l.undefined_cast } else prec
  else prec

/-- The status and the record after the value has been read. -/
def readValue (read_ai : FullAiRecord → Prog S (ℤ × FullAiRecord)) (l : AiLinks)
    (prec : FullAiRecord) : Prog S (ℤ × FullAiRecord) :=
  if prec.pact then read_ai prec else
  let r := getSiml l prec
  if r.1 ≠ 0 then return (r.1, r.2) else
  let prec := r.2
  match prec.simm with
  | .NO => read_ai prec
  | .YES =>
    let r := getSiol l prec
    return (2, (simulateVal r.1 r.2).setSevr .SIMM prec.sims)
  | .RAW =>
    let r := getSiol l prec
    return (0, (simulateRval l r.1 r.2).setSevr .SIMM prec.sims)
  | .illegal => return (-1, prec.setSevr .SOFT .INVALID)

/-- The value in engineering units, and the record, which is in alarm where a breakpoint table does not
know the value. -/
def engineering (l : AiLinks) (prec : FullAiRecord) : Double × FullAiRecord :=
  let val := .fin prec.rval + .fin prec.roff
  let val := if prec.aslo.eq 0 then val else val * prec.aslo
  let val := val + prec.aoff
  match prec.linr with
  | .NO_CONVERSION => (val, prec)
  | .LINEAR | .SLOPE => (val * prec.eslo + prec.eoff, prec)
  | .table =>
    let (status, val) := l.cvtRawToEngBpt val
    (val, if status ≠ 0 then prec.setSevr .SOFT .MAJOR else prec)

/-- The smoothing; the first value is taken as it is. -/
def smooth (prec : FullAiRecord) (val : Double) : Double :=
  if !prec.smoo.eq 0 && prec.val.finite then
    let old := if prec.init then val else prec.val
    val * (1 - prec.smoo) + old * prec.smoo
  else val

def convert (l : AiLinks) (prec : FullAiRecord) : FullAiRecord :=
  let (val, prec) := engineering l prec
  let val := smooth prec val
  { prec with val, udf := val.isnan }

/-! ### Alarms -/

def range_Lolo : ℤ := 1
def range_Low : ℤ := 2
def range_Normal : ℤ := 3
def range_High : ℤ := 4
def range_Hihi : ℤ := 5

/-- `range_stat[alarmRange]` -/
def range_stat (l : AiLinks) (alarmRange : ℤ) : AlarmStat :=
  if alarmRange = 0 then .SOFT
  else if alarmRange = range_Lolo then .LOLO
  else if alarmRange = range_Low then .LOW
  else if alarmRange = range_Normal then .NO_ALARM
  else if alarmRange = range_High then .HIGH
  else if alarmRange = range_Hihi then .HIHI
  else l.stray alarmRange

/-- The alarm condition of HIHI and HIGH: the limit is reached, or it was and VAL is not yet back by
HYST. -/
def above (prec : FullAiRecord) (asev : Severity) (alev : Double) : Bool :=
  asev ≠ .NO_ALARM && (alev ≤ prec.val || prec.lalm.eq alev && alev - prec.hyst ≤ prec.val)

/-- The alarm condition of LOLO and LOW. -/
def below (prec : FullAiRecord) (asev : Severity) (alev : Double) : Bool :=
  asev ≠ .NO_ALARM && (prec.val ≤ alev || prec.lalm.eq alev && prec.val ≤ alev + prec.hyst)

/-- An alarm range, with the severity and the limit that go with it. -/
structure AlarmLevel where
  asev : Severity
  alev : Double
  alarmRange : ℤ

/-- VAL against the limits. -/
def limit_level (prec : FullAiRecord) : AlarmLevel :=
  if prec.above prec.hhsv prec.hihi then ⟨prec.hhsv, prec.hihi, range_Hihi⟩
  else if prec.below prec.llsv prec.lolo then ⟨prec.llsv, prec.lolo, range_Lolo⟩
  else if prec.above prec.hsv prec.high then ⟨prec.hsv, prec.high, range_High⟩
  else if prec.below prec.lsv prec.low then ⟨prec.lsv, prec.low, range_Low⟩
  else ⟨.NO_ALARM, prec.val, range_Normal⟩

/-- 1-1/e -/
def THRESHOLD : Double := .fin (6321 / 10000)

/-- AFVL after one step of the filter.  Its sign says whether it is rounded up or down. -/
def filter_afvl (aftc t afvl : Double) (alarmRange : ℤ) : Double :=
  let alpha := aftc / (t + aftc)
  let afvl := alpha * afvl + (if 0 < afvl then 1 - alpha else alpha - 1) * .fin alarmRange
  if THRESHOLD < afvl - afvl.floor then -afvl else afvl

/-- The severity and the limit of a range; one that is none of the five keeps those of `level`. -/
def range_level (prec : FullAiRecord) (level : AlarmLevel) (alarmRange : ℤ) : AlarmLevel :=
  if alarmRange = range_Hihi then ⟨prec.hhsv, prec.hihi, alarmRange⟩
  else if alarmRange = range_High then ⟨prec.hsv, prec.high, alarmRange⟩
  else if alarmRange = range_Normal then ⟨.NO_ALARM, level.alev, alarmRange⟩
  else if alarmRange = range_Low then ⟨prec.lsv, prec.low, alarmRange⟩
  else if alarmRange = range_Lolo then ⟨prec.llsv, prec.lolo, alarmRange⟩
  else ⟨level.asev, level.alev, alarmRange⟩

/-- The level filter: AFVL after it, and the range that the alarm is raised for. -/
def filtered (l : AiLinks) (prec : FullAiRecord) : Double × AlarmLevel :=
  let level := limit_level prec
  if 0 < prec.aftc then
    if prec.afvl.eq 0 then (.fin level.alarmRange, level)
    else
      let afvl := filter_afvl prec.aftc l.elapsed prec.afvl level.alarmRange
      (afvl, range_level prec level |afvl.floor.toInt l.undefined_cast|)
  else (0, level)

def checkAlarms (l : AiLinks) (prec : FullAiRecord) : FullAiRecord :=
  if prec.udf then { prec.setSevr .UDF prec.udfs with afvl := 0 } else
  let (afvl, level) := filtered l prec
  let prec := { prec with afvl }
  if level.asev ≠ .NO_ALARM then
    let (common, raised) := recGblSetSevr prec.toDbCommon (range_stat l level.alarmRange) level.asev
    { prec.setCommon common with lalm := if raised then level.alev else prec.lalm }
  else { prec with lalm := prec.val }

/-! ### Monitors -/

/-- The new alarm becomes the current one, and what has changed is posted. -/
def monitor (prec : FullAiRecord) : FullAiRecord × List (Post FullAiRecord) :=
  let posts := (resetAlarms_posts prec.toDbCommon).map (Post.map prec.setCommon)
  let monitor_mask := resetAlarms_mask prec.toDbCommon
  let prec := prec.setCommon (recGblResetAlarms prec.toDbCommon)
  let (mlst, monitor_mask) :=
    recGblCheckDeadband prec.mlst prec.val prec.mdel monitor_mask [.VALUE]
  let (alst, monitor_mask) :=
    recGblCheckDeadband prec.alst prec.val prec.adel monitor_mask [.ARCHIVE]
  let prec := { prec with mlst, alst }
  if monitor_mask = [] then (prec, posts) else
  let posts := posts ++ [⟨some .VAL, monitor_mask, prec⟩]
  if prec.oraw = prec.rval then (prec, posts)
  else ({ prec with oraw := prec.rval }, posts ++ [⟨some .RVAL, monitor_mask, prec⟩])

/-! ### Processing -/

/-- The end of a processing, after the value has been read with status `status`. -/
def finish (l : AiLinks) (status : ℤ) (prec : FullAiRecord) :
    ℤ × FullAiRecord × List (Post FullAiRecord) :=
  let prec := { prec with pact := true }
  let prec := if status = 0 then convert l prec else prec
  let status := if status = 2 then 0 else status
  let (prec, posts) := monitor (checkAlarms l prec)
  (status, { prec with init := false, pact := false }, posts)

/-- A device support that sets PACT has not finished; the processing ends there. -/
def process (read_ai : FullAiRecord → Prog S (ℤ × FullAiRecord)) (l : AiLinks)
    (prec : FullAiRecord) : Prog S (ℤ × FullAiRecord × List (Post FullAiRecord)) := do
  let pact := prec.pact
  let (status, prec) ← readValue read_ai l prec
  if !pact && prec.pact then return (0, prec, []) else
  return finish l status prec

/-! ### Settings -/

/-- The fields that a client may put: those that the record support uses, but for the links, and for LINR,
EGUF and EGUL, which take special processing.  `dbPut` posts the field itself, unless it is VAL, and
DBE_PROPERTY for some of them, which the modelled subscribers do not select. -/
inductive Setting where
  | VAL (v : Double)
  | UDF (v : Bool)
  | UDFS (v : Severity)
  | RVAL (v : ℤ)
  | ROFF (v : ℕ)
  | ASLO (v : Double)
  | AOFF (v : Double)
  | ESLO (v : Double)
  | EOFF (v : Double)
  | SMOO (v : Double)
  | SIMM (v : Simm)
  | SIMS (v : Severity)
  | SVAL (v : Double)
  | HIHI (v : Double)
  | LOLO (v : Double)
  | HIGH (v : Double)
  | LOW (v : Double)
  | HHSV (v : Severity)
  | LLSV (v : Severity)
  | HSV (v : Severity)
  | LSV (v : Severity)
  | HYST (v : Double)
  | AFTC (v : Double)
  | MDEL (v : Double)
  | ADEL (v : Double)

/-- A put of VAL clears UDF, and is left to the next processing to post. -/
def dbPut (prec : FullAiRecord) : Setting → FullAiRecord
  | .VAL v => { prec with val := v, udf := false }
  | .UDF v => { prec with udf := v }
  | .UDFS v => { prec with udfs := v }
  | .RVAL v => { prec with rval := v }
  | .ROFF v => { prec with roff := v }
  | .ASLO v => { prec with aslo := v }
  | .AOFF v => { prec with aoff := v }
  | .ESLO v => { prec with eslo := v }
  | .EOFF v => { prec with eoff := v }
  | .SMOO v => { prec with smoo := v }
  | .SIMM v => { prec with simm := v }
  | .SIMS v => { prec with sims := v }
  | .SVAL v => { prec with sval := v }
  | .HIHI v => { prec with hihi := v }
  | .LOLO v => { prec with lolo := v }
  | .HIGH v => { prec with high := v }
  | .LOW v => { prec with low := v }
  | .HHSV v => { prec with hhsv := v }
  | .LLSV v => { prec with llsv := v }
  | .HSV v => { prec with hsv := v }
  | .LSV v => { prec with lsv := v }
  | .HYST v => { prec with hyst := v }
  | .AFTC v => { prec with aftc := v }
  | .MDEL v => { prec with mdel := v }
  | .ADEL v => { prec with adel := v }

/-- Of the common fields a put changes UDF and UDFS only. -/
theorem dbPut_common (prec : FullAiRecord) (setting : Setting) :
    ∃ udf udfs, (prec.dbPut setting).toDbCommon = { prec.toDbCommon with udf, udfs } := by
  cases setting <;> exact ⟨_, _, rfl⟩

end FullAiRecord

end RackmonIoc.Base
