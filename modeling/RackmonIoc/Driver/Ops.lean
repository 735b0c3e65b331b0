import RackmonIoc.CLib.Double
import RackmonIoc.CLib.Scanf
import RackmonIoc.Program.Wp

/-!
# What the driver asks of the outside

Two signatures.  `BusSig` is what `dev_i2c.c` works with: the mutex, the calls on the bus device and
the gpio files.  `DevSig` is what the device support works with: there a call of `read_temp_ds75` or of
`access_ds75_details` is one operation; `Driver/DevI2c.lean` gives the programs behind them.

An invalid memory access is an operation without a reply: no run goes past it.
-/

namespace RackmonIoc.Driver

open Program CLib

/-- What the C standard leaves open and the driver depends on: whether plain `char` is signed, and
what comes out where a cast to `int` or a `%d` conversion is undefined. -/
structure Target where
  char_signed : Bool
  undefined_cast : Double → ℤ
  undefined_scan : ℤ → ℤ

/-- An access through a null pointer. -/
inductive Fault where
  /-- `sscanf` is given a link text that was never set. -/
  | null_text
  /-- The private data of a record is read through an unset `dpvt`. -/
  | null_dpvt
  deriving DecidableEq

/-- The operations of `dev_i2c.c`, and those the device support makes on its own. -/
inductive BusOp where
  | mutex_lock
  | mutex_unlock
  /-- `ioctl(fd, I2C_SLAVE, slave)` -/
  | ioctl (fd slave : ℤ)
  | write (fd : ℤ) (buf : List UInt8)
  | read (fd : ℤ) (n : ℕ)
  | nanosleep
  | printf (format : String) (ich : ℕ) (buf : List UInt8)
  | open_i2c_bus (bus : ℤ)
  | gpio_read (gpio : ℤ)
  | gpio_write (gpio state : ℤ)
  | recGblRecordError (status : ℤ) (message : String)
  | errlogPrintf (message : String)
  | fault (f : Fault)

/-- The status of a `read`, and the bytes that it stored in the buffer. -/
structure ReadReply where
  status : ℤ
  data : List UInt8
  deriving DecidableEq

abbrev BusOp.Reply : BusOp → Type
  | mutex_lock | mutex_unlock | nanosleep => Unit
  | ioctl _ _ | write _ _ => ℤ
  | read _ _ => ReadReply
  | printf _ _ _ => Unit
  | open_i2c_bus _ | gpio_read _ | gpio_write _ _ => ℤ
  | recGblRecordError _ _ | errlogPrintf _ => Unit
  | fault _ => Empty

abbrev BusSig : Sig := ⟨BusOp, BusOp.Reply⟩

/-- The result of a temperature read: the status, and `*T_degC` after the call. -/
structure TempReply where
  status : ℤ
  T_degC : Double
  deriving DecidableEq

/-- The result of an access to the details of a thermometer: the status, and what the three pointers
point to after the call (`none` for a null pointer). -/
structure Details where
  status : ℤ
  T_OS : Option Double
  T_HYST : Option Double
  cfg : Option UInt8
  deriving DecidableEq

/-- The operations of the device support. -/
inductive DevOp where
  | read_temp_ds75 (fd addr : ℤ) (T_degC : Double)
  | access_ds75_details (fd addr : ℤ) (T_OS T_HYST : Option Double) (cfg : Option UInt8)
      (mode : Char)
  | open_i2c_bus (bus : ℤ)
  | gpio_read (gpio : ℤ)
  | gpio_write (gpio state : ℤ)
  | recGblRecordError (status : ℤ) (message : String)
  | errlogPrintf (message : String)
  | fault (f : Fault)

abbrev DevOp.Reply : DevOp → Type
  | read_temp_ds75 _ _ _ => TempReply
  | access_ds75_details _ _ _ _ _ _ => Details
  | open_i2c_bus _ | gpio_read _ | gpio_write _ _ => ℤ
  | recGblRecordError _ _ | errlogPrintf _ => Unit
  | fault _ => Empty

abbrev DevSig : Sig := ⟨DevOp, DevOp.Reply⟩

end RackmonIoc.Driver
