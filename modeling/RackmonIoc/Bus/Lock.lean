import RackmonIoc.Driver.DevI2c
import RackmonIoc.Program.Section

/-!
# The bus lock

Any number of threads call the five functions of `dev_i2c.c` on one file descriptor, in any
interleaving of their single steps and with any outcome of every step.  The state they share is the
slave address each descriptor is set to, together with the call whose `ioctl` set it.
-/

namespace RackmonIoc.Bus

open Program CLib Driver Prog

/-! ### The operations under the lock -/

/-- The mutex `i2c_mutex`. -/
def i2c_mutex : LockOps BusSig where
  isLock o := match o with | .mutex_lock => true | _ => false
  isUnlock o := match o with | .mutex_unlock => true | _ => false
  unlock_of_lock o h := by cases o <;> first | rfl | exact nomatch h

/-- What a call does after its `ioctl`: transfers on the descriptor, waits and messages. -/
def Transfers (fd : ℤ) : BusOp → Prop
  | .write fd' _ | .read fd' _ => fd' = fd
  | .nanosleep | .printf _ _ _ => True
  | _ => False

section Functions

variable (T : Target) (fd : ℤ)

theorem write_threshold_only (reg : UInt8) (t : Option Double) :
    (write_threshold T fd reg t).Only (Transfers fd) := by
  cases t with
  | none => trivial
  | some t =>
    refine ⟨rfl, fun r => only_ite trivial ?_⟩
    exact ⟨trivial, fun _ => trivial⟩

theorem write_config_only (reg : UInt8) (cfg : Option UInt8) :
    (write_config fd reg cfg).Only (Transfers fd) := by
  cases cfg with
  | none => trivial
  | some cfg =>
    refine ⟨rfl, fun r => only_ite trivial ?_⟩
    exact ⟨trivial, fun _ => trivial⟩

theorem read_threshold_only (reg : UInt8) (t : Option Double) :
    (read_threshold T fd reg t).Only (Transfers fd) := by
  cases t with
  | none => trivial
  | some t => exact ⟨rfl, fun _ => ⟨rfl, fun _ => only_ite trivial trivial⟩⟩

theorem read_config_only (reg : UInt8) (cfg : Option UInt8) :
    (read_config fd reg cfg).Only (Transfers fd) := by
  cases cfg with
  | none => trivial
  | some cfg => exact ⟨rfl, fun _ => ⟨rfl, fun _ => only_ite trivial trivial⟩⟩

theorem read_bytes_only (n : ℕ) (buf : List UInt8) :
    (read_bytes fd n buf).Only (Transfers fd) := by
  induction n generalizing buf with
  | zero => trivial
  | succ n ih => exact ⟨rfl, fun r => only_ite trivial (ih _)⟩

theorem read_channels_only (n_fan : ℤ) (n ich : ℕ) (n_success : ℤ) (rpm : ℕ → Double) :
    (read_channels T fd n_fan n ich n_success rpm).Only (Transfers fd) := by
  induction n generalizing ich n_success rpm with
  | zero => exact only_ite trivial trivial
  | succ n ih =>
    refine ⟨rfl, fun r => only_ite trivial ⟨trivial, fun _ => ?_⟩⟩
    show ((read_bytes fd 8 []).bind _).Only _
    refine only_bind (read_bytes_only fd 8 []) fun buf => ?_
    cases buf with
    | none => trivial
    | some buf =>
      refine only_ite (ih _ _ _) (only_ite ⟨trivial, fun _ => ih _ _ _⟩ ?_)
      exact only_ite ⟨trivial, fun _ => ih _ _ _⟩ (ih _ _ _)

end Functions

/-! ### The calls -/

/-- A call of one of the five functions, with its arguments but the descriptor. -/
inductive I2cCall where
  | read_temp_ds1621 (addr : ℤ) (T_degC : Double)
  | access_ds1621_details (addr : ℤ) (TH TL : Option Double) (cfg : Option UInt8) (mode : Char)
  | read_temp_ds75 (addr : ℤ) (T_degC : Double)
  | access_ds75_details (addr : ℤ) (T_OS T_HYST : Option Double) (cfg : Option UInt8) (mode : Char)
  | read_fan_speeds (rpm : ℕ → Double) (n_fan : ℤ)

/-- The slave address that the call sets. -/
def I2cCall.slave : I2cCall → ℤ
  | read_temp_ds1621 addr _ => I2C_DS1621_ADDR_BASE + addr % 8
  | access_ds1621_details addr _ _ _ _ => I2C_DS1621_ADDR_BASE + addr
  | read_temp_ds75 addr _ => I2C_DS75_ADDR_BASE + addr % 8
  | access_ds75_details addr _ _ _ _ => I2C_DS75_ADDR_BASE + addr
  | read_fan_speeds _ _ => I2C_TACHOMETER_ADDR

/-- The program of a call on the descriptor `fd`; it returns the status. -/
def I2cCall.prog (T : Target) (fd : ℤ) : I2cCall → Prog BusSig ℤ
  | read_temp_ds1621 addr t => (Driver.read_temp_ds1621 T fd addr t).bind fun r => ret r.status
  | access_ds1621_details addr a b c m =>
    (Driver.access_ds1621_details T fd addr a b c m).bind fun r => ret r.status
  | read_temp_ds75 addr t => (Driver.read_temp_ds75 T fd addr t).bind fun r => ret r.status
  | access_ds75_details addr a b c m =>
    (Driver.access_ds75_details T fd addr a b c m).bind fun r => ret r.status
  | read_fan_speeds rpm n => (Driver.read_fan_speeds T fd rpm n).bind fun r => ret r.status

/-- A protected section that first sets the slave address, gives up where that fails, and then only
makes transfers. -/
def SlaveSection {α : Type} (fd slave : ℤ) (p : Prog BusSig α) : Prop :=
  ∃ (fail : ℤ → α) (rest : Prog BusSig α), rest.Only (Transfers fd) ∧
    p = protected_section (.vis (.ioctl fd slave) fun status =>
      if status < 0 then ret (fail status) else rest)

theorem access_details_section (T : Target) (base : ℤ) (r₁ r₂ rc : UInt8) (fd addr : ℤ)
    (a b : Option Double) (c : Option UInt8) (m : Char) :
    SlaveSection fd (base + addr) (access_details T base r₁ r₂ rc fd addr a b c m) := by
  refine ⟨fun status => ⟨status, a, b, c⟩, _, ?_, rfl⟩
  refine only_ite ?_ ?_
  · refine only_bind (write_threshold_only T fd r₁ a) fun ok => only_ite trivial ?_
    refine only_bind (write_threshold_only T fd r₂ b) fun ok => only_ite trivial ?_
    exact only_bind (write_config_only fd rc c) fun ok => only_ite trivial trivial
  · refine only_bind (read_threshold_only T fd r₁ a) fun ok => only_ite trivial ?_
    refine only_bind (read_threshold_only T fd r₂ b) fun ok => only_ite trivial ?_
    exact only_bind (read_config_only fd rc c) fun ok => only_ite trivial trivial

theorem read_temp_ds75_section (T : Target) (fd addr : ℤ) (t : Double) :
    SlaveSection fd (I2C_DS75_ADDR_BASE + addr % 8) (read_temp_ds75 T fd addr t) := by
  refine ⟨fun status => ⟨status, t⟩, _, ?_, rfl⟩
  refine ⟨rfl, fun _ => only_ite trivial ⟨rfl, fun _ => only_ite trivial trivial⟩⟩

theorem read_temp_ds1621_section (T : Target) (fd addr : ℤ) (t : Double) :
    SlaveSection fd (I2C_DS1621_ADDR_BASE + addr % 8) (read_temp_ds1621 T fd addr t) := by
  refine ⟨fun status => ⟨status, t⟩, _, ?_, rfl⟩
  refine ⟨rfl, fun _ => only_ite trivial ⟨rfl, fun _ => only_ite trivial ⟨rfl, fun _ => ?_⟩⟩⟩
  exact only_ite trivial trivial

theorem read_fan_speeds_section (T : Target) (fd : ℤ) (rpm : ℕ → Double) (n : ℤ) :
    SlaveSection fd I2C_TACHOMETER_ADDR (read_fan_speeds T fd rpm n) :=
  ⟨fun status => ⟨status, rpm⟩, _, read_channels_only T fd n _ _ _ _, rfl⟩

theorem SlaveSection.map {α β : Type} {fd slave : ℤ} {p : Prog BusSig α}
    (h : SlaveSection fd slave p) (g : α → β) :
    SlaveSection fd slave (p.bind fun a => ret (g a)) := by
  obtain ⟨fail, rest, hrest, rfl⟩ := h
  refine ⟨fun status => g (fail status), rest.bind fun a => ret (g a),
    only_bind hrest fun _ => trivial, ?_⟩
  simp only [protected_section, mutex_lock, mutex_unlock, bind_eq, pure_eq, vis_bind, ret_bind,
    bind_assoc]
  congr 1
  funext u
  congr 1
  funext status
  simp only [ite_bind, ret_bind, bind_assoc]

theorem I2cCall.section (T : Target) (fd : ℤ) (c : I2cCall) :
    SlaveSection fd c.slave (c.prog T fd) := by
  cases c with
  | read_temp_ds1621 addr t => exact (read_temp_ds1621_section T fd addr t).map _
  | access_ds1621_details addr a b c m =>
    exact (access_details_section T _ _ _ _ fd addr a b c m).map _
  | read_temp_ds75 addr t => exact (read_temp_ds75_section T fd addr t).map _
  | access_ds75_details addr a b c m =>
    exact (access_details_section T _ _ _ _ fd addr a b c m).map _
  | read_fan_speeds rpm n => exact (read_fan_speeds_section T fd rpm n).map _

theorem SlaveSection.protected {α : Type} {fd slave : ℤ} {p : Prog BusSig α}
    (h : SlaveSection fd slave p) : p.Protected i2c_mutex := by
  obtain ⟨fail, rest, hrest, rfl⟩ := h
  refine ⟨rfl, fun _ => ?_⟩
  show ((vis (BusOp.ioctl fd slave) _).bind _).Held i2c_mutex
  refine held_bind ?_ fun r => ⟨rfl, fun _ => rfl⟩
  refine ⟨⟨rfl, rfl⟩, fun status => only_ite trivial (hrest.mono fun o ho => ?_)⟩
  cases o <;> first | exact ⟨rfl, rfl⟩ | exact ho.elim

/-! ### The shared state -/

section Shared

variable {Th : Type}

/-- The slave address each descriptor is set to, and the call whose `ioctl` set it. -/
abbrev Slaves (Th : Type) := ℤ → Option (ℤ × Th × ℕ)

/-- Any step may have any outcome; an `ioctl` that succeeds sets the slave address. -/
def busEnv (a : Th × ℕ) : Env BusSig (Slaves Th) := fun v o r v' =>
  match o, r with
  | .ioctl fd slave, r => v' = if (0 : ℤ) ≤ r then Function.update v fd (some (slave, a)) else v
  | _, _ => v' = v

/-- A transfer finds its descriptor set to the slave of its own call, by that call. -/
def OwnSlave (c : I2cCall) (a : Th × ℕ) (v : Slaves Th) : BusOp → Prop
  | .write fd _ | .read fd _ => v fd = some (c.slave, a)
  | _ => True

/-- Alone, every call makes its transfers on its own slave, whatever the slave was before. -/
theorem SlaveSection.own {fd : ℤ} {c : I2cCall} {p : Prog BusSig ℤ}
    (h : SlaveSection fd c.slave p) (a : Th × ℕ) {o : BusOp}
    {k : BusSig.Reply o → Prog BusSig ℤ} (hp : p = .vis o k) (r : BusSig.Reply o) (v : Slaves Th) :
    (k r).wp (soloEnv i2c_mutex busEnv a) (Pool.sectionGuard i2c_mutex (OwnSlave c a))
      (fun _ _ => True) v := by
  obtain ⟨fail, rest, hrest, rfl⟩ := h
  cases hp
  show wp _ _ _ ((vis (BusOp.ioctl fd c.slave) _).bind fun s => mutex_unlock.bind fun _ => ret s) v
  rw [wp_bind]
  have hunlock : ∀ (s : ℤ) (v : Slaves Th), wp (soloEnv i2c_mutex busEnv a)
      (Pool.sectionGuard i2c_mutex (OwnSlave c a)) (fun _ _ => True)
      ((mutex_unlock).bind fun _ => ret s) v := fun s v => ⟨nofun, fun _ _ _ => trivial⟩
  refine ⟨fun _ _ => trivial, fun status v' hv' => ?_⟩
  rw [wp_ite]
  refine ⟨fun _ => hunlock _ _, fun hstatus => ?_⟩
  have hset : v' fd = some (c.slave, a) := by
    have hv : v' = if (0 : ℤ) ≤ status then Function.update v fd (some (c.slave, a)) else v := hv'
    rw [hv, if_pos (Int.not_lt.mp hstatus), Function.update_self]
  have htransfers := wp_only (E := soloEnv i2c_mutex busEnv a)
    (G := Pool.sectionGuard i2c_mutex (OwnSlave c a)) (I := fun v => v fd = some (c.slave, a))
    (fun w o ho hw => ?_) hrest hset
  · exact wp_conseq htransfers fun s v'' _ => hunlock s v''
  · cases o <;> first
      | exact ho.elim
      | exact ⟨fun _ _ => trivial, fun _ _ h => h ▸ hw⟩
      | exact ⟨fun _ _ => ho ▸ hw, fun _ _ h => h ▸ hw⟩

end Shared

/-! ### Isolation -/

section Isolation

variable {Th : Type} [DecidableEq Th]

/-- What the lock guarantees of a trace (newest operation first) and of the state it leads to. -/
structure Isolated (fd : ℤ) (tr : List (PoolEvent Th BusSig))
    (P : Pool Th I2cCall BusSig ℤ (Locked (Th × ℕ) (Slaves Th))) : Prop where
  /-- A transfer is made while the descriptor is set to the slave of that very call, by its `ioctl`,
  and under the lock. -/
  slave : ∀ t c i o k, P.thread t = some ⟨c, i, .vis o k⟩ →
    ((∃ buf, o = .write fd buf) ∨ ∃ n, o = .read fd n) →
    P.world.val fd = some (c.slave, (t, i)) ∧ P.world.owner = some (t, i)
  /-- No step of another call falls between two steps of a call. -/
  adjacent : ∀ pre mid post e e', tr = pre ++ e :: mid ++ e' :: post → e.agent = e'.agent →
    ∀ m ∈ mid, m.agent = e.agent
  /-- A call that has returned has locked and unlocked the mutex exactly once. -/
  unlocked : ∀ t i, i < P.started t →
    (∀ R, P.thread t = some R → R.id = i → R.prog.isRet = true) →
    Pool.count i2c_mutex.isLock (t, i) tr = 1 ∧ Pool.count i2c_mutex.isUnlock (t, i) tr = 1
  /-- The mutex is held only by a call in progress that has locked and not yet unlocked it. -/
  held : ∀ t i, P.world.owner = some (t, i) → ∃ c p, P.thread t = some ⟨c, i, p⟩ ∧
    Pool.count i2c_mutex.isLock (t, i) tr = 1 ∧ Pool.count i2c_mutex.isUnlock (t, i) tr = 0

/-- **Transactions are isolated and the bus lock is never lost**, for any threads, calls,
interleaving and outcomes. -/
theorem transactions_isolated (T : Target) (fd : ℤ) (may : Th → I2cCall → Prop) (v : Slaves Th)
    {tr : List (PoolEvent Th BusSig)} {P : Pool Th I2cCall BusSig ℤ (Locked (Th × ℕ) (Slaves Th))}
    (h : Pool.Reach (I2cCall.prog T fd) may (lockEnv i2c_mutex busEnv) (Pool.start ⟨none, v⟩) tr P) :
    Isolated fd tr P := by
  have hinv : Pool.SectionInv i2c_mutex busEnv OwnSlave tr P :=
    Pool.sectionInv_reach (fun c => (c.section T fd).protected)
      (fun c a _ _ hp r v => (c.section T fd).own a hp r v) h
  refine ⟨fun t c i o k ht ho => ?_, fun _ _ _ _ _ htr he => hinv.between htr he,
    fun t i hi hr => hinv.returned hi hr, fun t i ho => ?_⟩
  · rcases ho with ⟨buf, rfl⟩ | ⟨n, rfl⟩
    · have hg := hinv.guarded ht rfl rfl
      exact ⟨hg.2, hg.1⟩
    · have hg := hinv.guarded ht rfl rfl
      exact ⟨hg.2, hg.1⟩
  · obtain ⟨c, p, hR, -, hl, hu⟩ := hinv.holder ho
    exact ⟨c, p, hR, hl, hu⟩

end Isolation

/-- A thread that has locked the mutex, set the slave of probe 1 and is about to write to it. -/
theorem transactions_isolated_write : ∃ tr P,
    Pool.Reach (I2cCall.prog ⟨false, fun _ => 0, id⟩ 3) (fun _ _ => True) (lockEnv i2c_mutex busEnv)
      (Pool.start ⟨none, fun _ => none⟩ : Pool Bool I2cCall BusSig ℤ _) tr P ∧
    (∃ k, P.thread true = some ⟨.read_temp_ds75 1 0, 0, .vis (.write 3 [0]) k⟩) ∧
    P.world.val 3 = some (0x49, (true, 0)) := by
  let env : Bool × ℕ → Env BusSig (Locked (Bool × ℕ) (Slaves Bool)) := lockEnv i2c_mutex busEnv
  have h0 : Pool.Reach (I2cCall.prog ⟨false, fun _ => 0, id⟩ 3) (fun _ _ => True) env
      (Pool.start ⟨none, fun _ => none⟩) _ _ := .init
  have h1 := h0.step (.call (t := true) (c := .read_temp_ds75 1 0) rfl trivial)
  have h2 := h1.step (.op (t := true) (r := ()) (w := ⟨some (true, 0), fun _ => none⟩) rfl
    ⟨rfl, rfl⟩)
  have hioctl : env (true, 0) ⟨some (true, 0), fun _ => none⟩ (.ioctl 3 0x49) (0 : ℤ)
      ⟨some (true, 0), Function.update (fun _ => none) 3 (some (0x49, (true, 0)))⟩ :=
    ⟨(if_pos (le_refl (0 : ℤ))).symm, rfl⟩
  have h3 := h2.step (.op (t := true) rfl hioctl)
  have hnext := (transactions_isolated _ _ _ _ h3).slave true _ _ _ _ rfl (.inl ⟨_, rfl⟩)
  exact ⟨_, _, h3, ⟨_, rfl⟩, hnext.1⟩

end RackmonIoc.Bus
