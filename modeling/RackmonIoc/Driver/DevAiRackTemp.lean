import RackmonIoc.Base.Records
import RackmonIoc.Driver.DevI2c

/-!
# `devAiRackTemp.c`

The device support of the ai and ao records of the temperature probes.  The globals of the source are
passed along; a text is the list of its characters, `none` for a link that was never given one.  An
uninitialised local byte is a parameter.
-/

namespace RackmonIoc.Driver

open Program CLib Base

/-! ### The calls -/

namespace Dev

def read_temp_ds75 (fd addr : ℤ) (T_degC : Double) : Prog DevSig TempReply :=
  .vis (.read_temp_ds75 fd addr T_degC) .ret
def access_ds75_details (fd addr : ℤ) (T_OS T_HYST : Option Double) (cfg : Option UInt8)
    (mode : Char) : Prog DevSig Details :=
  .vis (.access_ds75_details fd addr T_OS T_HYST cfg mode) .ret
def open_i2c_bus (bus : ℤ) : Prog DevSig ℤ := .vis (.open_i2c_bus bus) .ret
def gpio_read (gpio : ℤ) : Prog DevSig ℤ := .vis (.gpio_read gpio) .ret
def gpio_write (gpio state : ℤ) : Prog DevSig ℤ := .vis (.gpio_write gpio state) .ret
def recGblRecordError (status : ℤ) (message : String) : Prog DevSig Unit :=
  .vis (.recGblRecordError status message) .ret
def errlogPrintf (message : String) : Prog DevSig Unit := .vis (.errlogPrintf message) .ret

/-- An invalid access ends the program. -/
def fault {α : Type} (f : Fault) : Prog DevSig α := .vis (.fault f) fun e => nomatch e

end Dev

/-! ### Private data -/

def MAX_ISTUB : ℤ := 7
def MAX_DS75_ADDRESS : ℤ := 7
def NCH_RACKTEMP : ℤ := (MAX_ISTUB + 1) * (MAX_DS75_ADDRESS + 1)

def S_dev_badBus : ℤ := 504 * 2 ^ 16 + 13

structure my_dpvt_s where
  /-- the number of the probe -/
  address : ℤ
  /-- what to read -/
  what : Char
  deriving DecidableEq

/-- The globals: the bus file descriptor and the table `private_data`, which has
`NCH_RACKTEMP * 4` entries. -/
structure Globals where
  global_fd_i2c : ℤ
  private_data : ℤ → my_dpvt_s

/-- The globals at the start of the program. -/
def Globals.init : Globals := ⟨-1, fun _ => ⟨0, Char.ofNat 0⟩⟩

/-- The entry of `private_data` that `dpvt` points to. -/
def private_entry (g : Globals) (prec : DbCommon) : Prog DevSig my_dpvt_s :=
  match prec.dpvt with
  | some i => return g.private_data i
  | none => Dev.fault .null_dpvt

/-! ### Selecting a stub -/

/-- The operand of `istub & 2 ^ i`, for an `istub` that is not negative. -/
def bit (istub : ℤ) (i : ℕ) : ℤ := (istub.toNat &&& 2 ^ i : ℕ)

def select_probe (istub : ℤ) : Prog DevSig ℤ := do
  if istub < 0 ∨ istub > 7 then return -1 else
  let r ← Dev.gpio_write 26 (bit istub 0)
  if r < 0 then return -1 else
  let r ← Dev.gpio_write 46 (bit istub 1)
  if r < 0 then return -1 else
  let r ← Dev.gpio_write 65 (bit istub 2)
  if r < 0 then return -1 else
  return 0

/-! ### Initialisation -/

/-- The entry of `private_data` for a number and a letter. -/
def slot (inp_value : ℤ) (inp_char : Char) : ℤ :=
  if inp_char = 'H' then inp_value + NCH_RACKTEMP
  else if inp_char = 'L' then inp_value + 2 * NCH_RACKTEMP
  else if inp_char = 'C' then inp_value + 3 * NCH_RACKTEMP
  else inp_value

/-- The part of `init_record_common` after the bus is open. -/
def init_record_text (T : Target) (g : Globals) (prec : DbCommon) (inp : Option (List Char)) :
    Prog DevSig (ℤ × Globals × DbCommon) :=
  match inp with
  | none => Dev.fault .null_text
  | some text =>
    let (nconv, inp_value, inp_char) := sscanf_d_c T.undefined_scan text (-1) ' '
    if nconv > 0 then
      if inp_value < 0 ∨ inp_value ≥ NCH_RACKTEMP then do
        Dev.recGblRecordError S_db_badField "devRackTemp (init_record) Invalid INP value, out of range"
        return (S_db_badField, g, prec)
      else
        let i := slot inp_value inp_char
        return (0, { g with private_data := Function.update g.private_data i ⟨inp_value, inp_char⟩ },
          { prec with dpvt := some i })
    else do
      Dev.recGblRecordError S_db_badField
        "devRackTemp (init_record) Invalid INP value, no number at start"
      return (S_db_badField, g, prec)

def init_record_common (T : Target) (g : Globals) (prec : DbCommon) (inp : Option (List Char)) :
    Prog DevSig (ℤ × Globals × DbCommon) := do
  if g.global_fd_i2c < 0 then do
    let fd ← Dev.open_i2c_bus 2
    let g := { g with global_fd_i2c := fd }
    if fd < 0 then do
      Dev.recGblRecordError S_dev_badBus "devRackTemp (init_record) Could not open I2C bus"
      return (S_dev_badBus, g, prec)
    else init_record_text T g prec inp
  else init_record_text T g prec inp

def init_record_ai (T : Target) (g : Globals) (prec : AiRecord) :
    Prog DevSig (ℤ × Globals × AiRecord) := do
  let r ← init_record_common T g prec.toDbCommon prec.inp_text
  return (r.1, r.2.1, { prec with toDbCommon := r.2.2 })

/-! ### Reading a detail -/

/-- The reads that `read_ai` and the read-back of `init_record_ao` have in common: the status, and VAL.
`cfg₀` is the content of the uninitialised `cfg`. -/
def read_detail (fd addr : ℤ) (what : Char) (val : Double) (cfg₀ : UInt8) :
    Prog DevSig (ℤ × Double) :=
  if what = 'S' then do
    let r ← Dev.access_ds75_details fd addr (some val) none none 'r'
    return (r.status, r.T_OS.getD val)
  else if what = 'Y' then do
    let r ← Dev.access_ds75_details fd addr none (some val) none 'r'
    return (r.status, r.T_HYST.getD val)
  else if what = 'C' then do
    let r ← Dev.access_ds75_details fd addr none none (some cfg₀) 'r'
    return (r.status, .fin (r.cfg.getD cfg₀).toNat)
  else return (1, val)

/-! ### ai records -/

/-- The dispatch of `read_ai` on the letter: `ierr`, and VAL. -/
def read_what (fd addr : ℤ) (what : Char) (val : Double) (cfg₀ : UInt8) :
    Prog DevSig (ℤ × Double) :=
  if what = ' ' then do
    let r ← Dev.read_temp_ds75 fd addr val
    return (r.status, r.T_degC)
  else read_detail fd addr what val cfg₀

def read_ai (g : Globals) (prec : AiRecord) (cfg₀ : UInt8) : Prog DevSig (ℤ × AiRecord) := do
  let p ← private_entry g prec.toDbCommon
  let addr := p.address.tdiv (MAX_ISTUB + 1)
  let istub := p.address.tmod (MAX_ISTUB + 1)
  let sel ← select_probe istub
  let r ← if sel < 0 then pure (-1, prec.val)
    else read_what g.global_fd_i2c addr p.what prec.val cfg₀
  if r.1 = 0 then return (2, { prec with val := r.2, udf := false })
  else return (-1, { prec with val := r.2, udf := true })

/-! ### ao records -/

/-- The read-back neither selects the mux nor splits the number. -/
def init_record_ao (T : Target) (g : Globals) (prec : AoRecord) (cfg₀ : UInt8) :
    Prog DevSig (ℤ × Globals × AoRecord) := do
  let c ← init_record_common T g prec.toDbCommon prec.out_text
  let g := c.2.1
  let prec := { prec with toDbCommon := c.2.2 }
  if c.1 ≠ 0 then return (c.1, g, prec) else
  let p ← private_entry g prec.toDbCommon
  if p.what = ' ' then do
    Dev.recGblRecordError S_db_badField
      "devRackTemp (init_record_ao) Invalid INP value, trying to write to temperature"
    return (S_db_badField, g, prec)
  else
  let r ← read_detail g.global_fd_i2c p.address p.what prec.val cfg₀
  if r.1 = 0 then
    return (2, g, { prec with val := r.2, udf := false, sevr := .NO_ALARM, stat := .NO_ALARM })
  else return (2, g, { prec with val := r.2, udf := true })

/-- The dispatch of `write_ao` on the letter: `ierr`. -/
def write_what (T : Target) (fd addr : ℤ) (what : Char) (val : Double) : Prog DevSig ℤ :=
  if what = 'H' then do
    let r ← Dev.access_ds75_details fd addr (some val) none none 'w'
    return r.status
  else if what = 'L' then do
    let r ← Dev.access_ds75_details fd addr none (some val) none 'w'
    return r.status
  else if what = 'C' then
    if val < 0 ∨ 255 < val then return 1
    else do
      let cfg := UInt8.ofInt ((.fin (1 / 2) + val : Double).toInt T.undefined_cast)
      let r ← Dev.access_ds75_details fd addr none none (some cfg) 'w'
      return r.status
  else return 1

def write_ao (T : Target) (g : Globals) (prec : AoRecord) : Prog DevSig (ℤ × AoRecord) := do
  let p ← private_entry g prec.toDbCommon
  let addr := p.address.tdiv (MAX_ISTUB + 1)
  let istub := p.address.tmod (MAX_ISTUB + 1)
  let sel ← select_probe istub
  let ierr ← if sel < 0 then pure (-1) else write_what T g.global_fd_i2c addr p.what prec.val
  if ierr = 0 then return (0, { prec with udf := false })
  else return (-1, { prec with udf := true })

end RackmonIoc.Driver
