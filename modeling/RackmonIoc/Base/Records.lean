import RackmonIoc.Base.DbCommon

/-!
# The ai, ao and bi records

The fields that the modelled record and device support read or write; `text` is the original text of
the INP or OUT link, `none` when the link was never given one.
-/

namespace RackmonIoc.Base

open CLib

/-- The fields of an ai record that the device support uses. -/
structure AiRecord extends DbCommon where
  inp_text : Option (List Char)
  val : Double
  deriving Inhabited

/-- `menuSimm`, and a value outside the menu. -/
inductive Simm where
  | NO
  | YES
  | RAW
  | illegal
  deriving DecidableEq, Inhabited

/-- `menuIvoa`, and a value outside the menu. -/
inductive Ivoa where
  | Continue_normally
  | Don_t_drive_outputs
  | Set_output_to_IVOV
  | illegal
  deriving DecidableEq, Inhabited

/-- `menuConvert`: the three fixed choices, and a breakpoint table. -/
inductive Convert where
  | NO_CONVERSION
  | SLOPE
  | LINEAR
  | table
  deriving DecidableEq, Inhabited

/-- An ao record. -/
structure AoRecord extends DbCommon where
  out_text : Option (List Char)
  val : Double
  /-- output value, after the rate limit -/
  oval : Double
  /-- previous value -/
  pval : Double
  rval : ℤ
  init : Bool
  /-- OMSL is closed_loop -/
  closed_loop : Bool
  /-- OIF is Incremental -/
  incremental : Bool
  simm : Simm
  sims : Severity
  ivoa : Ivoa
  ivov : Double
  oroc : Double
  drvh : Double
  drvl : Double
  linr : Convert
  eslo : Double
  eoff : Double
  aslo : Double
  aoff : Double
  roff : ℕ
  hihi : Double
  lolo : Double
  high : Double
  low : Double
  hhsv : Severity
  llsv : Severity
  hsv : Severity
  lsv : Severity
  hyst : Double
  lalm : Double
  deriving Inhabited

/-- A bi record. -/
structure BiRecord extends DbCommon where
  name : String
  val : ℕ
  rval : ℕ
  lalm : ℕ
  /-- simulation value -/
  sval : ℕ
  simm : Simm
  sims : Severity
  zsv : Severity
  osv : Severity
  cosv : Severity
  deriving Inhabited

end RackmonIoc.Base
