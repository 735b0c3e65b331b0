import RackmonIoc.Driver.Ops

/-!
# `dev_i2c.c`

The five functions that talk to the bus.  A pointer argument is an `Option`: `none` for the null
pointer, else the value it points to, and the value after the call is part of the result.  The
`RETURN` macro of the source leaves the protected section and goes to the one unlock;
`protected_section` is that unlock, and `return` inside its body is the macro.
-/

namespace RackmonIoc.Driver

open Program CLib

/-! ### The calls -/

def mutex_lock : Prog BusSig Unit := .vis .mutex_lock .ret
def mutex_unlock : Prog BusSig Unit := .vis .mutex_unlock .ret
def ioctl (fd slave : ℤ) : Prog BusSig ℤ := .vis (.ioctl fd slave) .ret
def write (fd : ℤ) (buf : List UInt8) : Prog BusSig ℤ := .vis (.write fd buf) .ret
def read (fd : ℤ) (n : ℕ) : Prog BusSig ReadReply := .vis (.read fd n) .ret
def nanosleep : Prog BusSig Unit := .vis .nanosleep .ret
def printf (format : String) (ich : ℕ) (buf : List UInt8) : Prog BusSig Unit :=
  .vis (.printf format ich buf) .ret

def I2C_DS1621_ADDR_BASE : ℤ := 0x48
def I2C_DS75_ADDR_BASE : ℤ := 0x48
def I2C_TACHOMETER_ADDR : ℤ := 0x0F

/-- The protected section: every way out of `body` leads through the unlock. -/
def protected_section {α : Type} (body : Prog BusSig α) : Prog BusSig α := do
  mutex_lock
  let r ← body
  mutex_unlock
  return r

/-! ### Temperatures in bytes -/

/-- `buf[i]`; a byte the buffer did not receive is not looked at. -/
def byte (buf : List UInt8) (i : ℕ) : UInt8 := buf.getD i 0

/-- The `int` that a plain `char` is promoted to. -/
def char_value (T : Target) (b : UInt8) : ℤ :=
  if T.char_signed then b.toInt8.toInt else b.toNat

/-- `buf[0] + buf[1]/256.0` -/
def decode_temp (T : Target) (buf : List UInt8) : Double :=
  .fin (char_value T (byte buf 0) + char_value T (byte buf 1) / 256)

/-- `t256 = (int)(t*256 + 0.5)`, and the two bytes `t256>>8` and `t256&(0xff)`. -/
def encode_temp (T : Target) (t : Double) : List UInt8 :=
  let t256 := (t * 256 + .fin (1 / 2)).toInt T.undefined_cast
  [UInt8.ofInt (t256 >>> (8 : ℕ)), UInt8.ofInt (t256 % 256)]

theorem ofInt_toNat (i : ℤ) : ((UInt8.ofInt i).toNat : ℤ) = i % 256 := by
  show (((UInt8.ofNat (i % 2 ^ 8).toNat).toNat : ℕ) : ℤ) = i % 256
  rw [UInt8.toNat_ofNat']
  omega

/-! ### Current temperature -/

def read_temp_ds1621 (T : Target) (fd addr : ℤ) (T_degC : Double) : Prog BusSig TempReply :=
  protected_section do
    let status ← ioctl fd (I2C_DS1621_ADDR_BASE + addr % 8)
    if status < 0 then return ⟨status, T_degC⟩ else
    -- any write to register 0xEE starts the conversion
    let status ← write fd [0xee, 1]
    if status ≠ 2 then return ⟨-1, T_degC⟩ else
    let status ← write fd [0xaa]
    if status ≠ 1 then return ⟨-1, T_degC⟩ else
    let rd ← read fd 2
    if rd.status ≠ 2 then return ⟨-1, T_degC⟩ else
    return ⟨0, decode_temp T rd.data⟩

def read_temp_ds75 (T : Target) (fd addr : ℤ) (T_degC : Double) : Prog BusSig TempReply :=
  protected_section do
    let status ← ioctl fd (I2C_DS75_ADDR_BASE + addr % 8)
    if status < 0 then return ⟨status, T_degC⟩ else
    let status ← write fd [0x00]
    if status ≠ 1 then return ⟨-1, T_degC⟩ else
    let rd ← read fd 2
    if rd.status ≠ 2 then return ⟨-1, T_degC⟩ else
    return ⟨0, decode_temp T rd.data⟩

/-! ### Thresholds and configuration -/

/-- Write a threshold to register `reg`, unless the pointer is null; `false` on a short write. -/
def write_threshold (T : Target) (fd : ℤ) (reg : UInt8) : Option Double → Prog BusSig Bool
  | none => return true
  | some t => do
    let status ← write fd (reg :: encode_temp T t)
    if status ≠ 3 then return false else
    nanosleep
    return true

/-- Write the config byte to register `reg`, unless the pointer is null. -/
def write_config (fd : ℤ) (reg : UInt8) : Option UInt8 → Prog BusSig Bool
  | none => return true
  | some cfg => do
    let status ← write fd [reg, cfg]
    if status ≠ 2 then return false else
    nanosleep
    return true

/-- Read a threshold from register `reg`, unless the pointer is null: both transfers are made, and
only the sum of their statuses is looked at. -/
def read_threshold (T : Target) (fd : ℤ) (reg : UInt8) :
    Option Double → Prog BusSig (Bool × Option Double)
  | none => return (true, none)
  | some t => do
    let status ← write fd [reg]
    let rd ← read fd 2
    if status + rd.status ≠ 3 then return (false, some t) else
    return (true, some (decode_temp T rd.data))

/-- Read the config byte from register `reg`, unless the pointer is null. -/
def read_config (fd : ℤ) (reg : UInt8) : Option UInt8 → Prog BusSig (Bool × Option UInt8)
  | none => return (true, none)
  | some cfg => do
    let status ← write fd [reg]
    let rd ← read fd 1
    if status + rd.status ≠ 2 then return (false, some cfg) else
    return (true, some (byte rd.data 0))

/-- The common code of the two `access_..._details`: `base` is the address base, and `r₁`, `r₂` and
`rc` are the registers of the two thresholds and of the config byte.  The address is not masked. -/
def access_details (T : Target) (base : ℤ) (r₁ r₂ rc : UInt8) (fd addr : ℤ)
    (T_OS T_HYST : Option Double) (cfg : Option UInt8) (mode : Char) : Prog BusSig Details :=
  protected_section do
    let status ← ioctl fd (base + addr)
    if status < 0 then return ⟨status, T_OS, T_HYST, cfg⟩ else
    if mode = 'w' then do
      let ok ← write_threshold T fd r₁ T_OS
      if !ok then return ⟨-1, T_OS, T_HYST, cfg⟩ else
      let ok ← write_threshold T fd r₂ T_HYST
      if !ok then return ⟨-1, T_OS, T_HYST, cfg⟩ else
      let ok ← write_config fd rc cfg
      if !ok then return ⟨-1, T_OS, T_HYST, cfg⟩ else
      return ⟨0, T_OS, T_HYST, cfg⟩
    else do
      let (ok, T_OS) ← read_threshold T fd r₁ T_OS
      if !ok then return ⟨-1, T_OS, T_HYST, cfg⟩ else
      let (ok, T_HYST) ← read_threshold T fd r₂ T_HYST
      if !ok then return ⟨-1, T_OS, T_HYST, cfg⟩ else
      let (ok, cfg) ← read_config fd rc cfg
      if !ok then return ⟨-1, T_OS, T_HYST, cfg⟩ else
      return ⟨0, T_OS, T_HYST, cfg⟩

/-- For the DS1621 the two thresholds are TH and TL. -/
def access_ds1621_details (T : Target) (fd addr : ℤ) (TH TL : Option Double) (cfg : Option UInt8)
    (mode : Char) : Prog BusSig Details :=
  access_details T I2C_DS1621_ADDR_BASE 0xa1 0xa2 0xac fd addr TH TL cfg mode

def access_ds75_details (T : Target) (fd addr : ℤ) (T_OS T_HYST : Option Double)
    (cfg : Option UInt8) (mode : Char) : Prog BusSig Details :=
  access_details T I2C_DS75_ADDR_BASE 3 2 1 fd addr T_OS T_HYST cfg mode

/-! ### The tachometer -/

/-- The status, and the array `rpm` after the call. -/
structure FanReply where
  status : ℤ
  rpm : ℕ → Double

/-- The inner loop: `n` more bytes, one at a time; `none` where a read fails. -/
def read_bytes (fd : ℤ) : ℕ → List UInt8 → Prog BusSig (Option (List UInt8))
  | 0, buf => return some buf
  | n + 1, buf => do
    let rd ← read fd 1
    if rd.status ≠ 1 then return none else
    read_bytes fd n (buf ++ [byte rd.data 0])

/-- The buffer as a C string: it ends at the first NUL, and the bytes after the reply are zero. -/
def c_string (buf : List UInt8) : List Char :=
  (buf.takeWhile (· ≠ 0)).map fun b => Char.ofNat b.toNat

/-- The channel loop, with `n` channels to go from channel `ich`, and the check of the success rate
after it. -/
def read_channels (T : Target) (fd n_fan : ℤ) :
    ℕ → ℕ → ℤ → (ℕ → Double) → Prog BusSig FanReply
  | 0, _, n_success, rpm =>
    if n_success ≤ n_fan.tdiv 2 then return ⟨-4, rpm⟩ else return ⟨0, rpm⟩
  | n + 1, ich, n_success, rpm => do
    let status ← write fd [0x0F, UInt8.ofNat ich]
    if status ≠ 2 then return ⟨-2, rpm⟩ else
    nanosleep
    match ← read_bytes fd 8 [] with
    | none => return ⟨-3, rpm⟩
    | some buf =>
      -- a blank and a NUL: the speed of this fan is not ready
      if byte buf 0 = 32 ∧ byte buf 1 = 0 then
        read_channels T fd n_fan n (ich + 1) n_success rpm
      else if byte buf 0 ≠ 102 ∨ byte buf 3 ≠ 61 then do
        printf "Bad tachometer data for ich=%d, buffer `%s'   " ich buf
        read_channels T fd n_fan n (ich + 1) n_success rpm
      else
        let sc := sscanf_f_d_d T.undefined_scan (c_string buf) 0 0
        if sc.1 ≠ 2 ∨ sc.2.1 ≠ ich + 1 then do
          printf "Unparseable tachometer data for ich=%d, buffer `%s'\n" ich buf
          read_channels T fd n_fan n (ich + 1) n_success rpm
        else
          read_channels T fd n_fan n (ich + 1) (n_success + 1)
            (Function.update rpm ich (.fin sc.2.2))

def read_fan_speeds (T : Target) (fd : ℤ) (rpm : ℕ → Double) (n_fan : ℤ) : Prog BusSig FanReply :=
  protected_section do
    let status ← ioctl fd I2C_TACHOMETER_ADDR
    if status < 0 then return ⟨status, rpm⟩ else
    read_channels T fd n_fan n_fan.toNat 0 0 rpm

/-! ### The operations of the device support -/

/-- The program behind each operation of the device support. -/
def expand (T : Target) : (o : DevOp) → Prog BusSig o.Reply
  | .read_temp_ds75 fd addr T_degC => read_temp_ds75 T fd addr T_degC
  | .access_ds75_details fd addr T_OS T_HYST cfg mode =>
    access_ds75_details T fd addr T_OS T_HYST cfg mode
  | .open_i2c_bus bus => .vis (.open_i2c_bus bus) .ret
  | .gpio_read gpio => .vis (.gpio_read gpio) .ret
  | .gpio_write gpio state => .vis (.gpio_write gpio state) .ret
  | .recGblRecordError status message => .vis (.recGblRecordError status message) .ret
  | .errlogPrintf message => .vis (.errlogPrintf message) .ret
  | .fault f => .vis (.fault f) .ret

end RackmonIoc.Driver
