import RackmonIoc.Bus.Box
import RackmonIoc.Program.Progress

/-!
# The bus never gets stuck

The threads of `Bus/Lock.lean` again, with the number of operations that each of the five functions
makes at most.  Whatever state an interleaving has come to, all calls in progress can still return; and
a call keeps the others from the bus for a number of operations that is known beforehand.
-/

namespace RackmonIoc.Bus

open Program CLib Driver Prog

/-! ### How long a call can take -/

/-- The number of operations of a call, at most: the tachometer takes a command, a wait, eight reads and
a message for each channel. -/
def I2cCall.cost : I2cCall → ℕ
  | read_temp_ds1621 _ _ => 6
  | access_ds1621_details _ _ _ _ _ => 9
  | read_temp_ds75 _ _ => 5
  | access_ds75_details _ _ _ _ _ => 9
  | read_fan_speeds _ n_fan => 11 * n_fan.toNat + 3

section Functions

variable (T : Target) (fd : ℤ)

theorem protected_section_within {α : Type} {body : Prog BusSig α} {n : ℕ} (h : body.Within n) :
    (protected_section body).Within (n + 2) := by
  have hrest : (body.bind fun r => mutex_unlock.bind fun _ => ret r).Within (n + 1) :=
    within_bind h fun _ _ => trivial
  exact fun _ => hrest

theorem write_threshold_within (reg : UInt8) (t : Option Double) :
    (write_threshold T fd reg t).Within 2 := by
  cases t with
  | none => exact within_ret _ _
  | some t => exact fun _ => within_ite (within_ret _ _) fun _ => within_ret _ _

theorem write_config_within (reg : UInt8) (cfg : Option UInt8) :
    (write_config fd reg cfg).Within 2 := by
  cases cfg with
  | none => exact within_ret _ _
  | some cfg => exact fun _ => within_ite (within_ret _ _) fun _ => within_ret _ _

theorem read_threshold_within (reg : UInt8) (t : Option Double) :
    (read_threshold T fd reg t).Within 2 := by
  cases t with
  | none => exact within_ret _ _
  | some t => exact fun _ _ => within_ite (within_ret _ _) (within_ret _ _)

theorem read_config_within (reg : UInt8) (cfg : Option UInt8) :
    (read_config fd reg cfg).Within 2 := by
  cases cfg with
  | none => exact within_ret _ _
  | some cfg => exact fun _ _ => within_ite (within_ret _ _) (within_ret _ _)

theorem access_details_within (base : ℤ) (r₁ r₂ rc : UInt8) (addr : ℤ) (a b : Option Double)
    (c : Option UInt8) (m : Char) :
    (access_details T base r₁ r₂ rc fd addr a b c m).Within 9 := by
  refine protected_section_within (n := 7) fun status => within_ite (within_ret _ _) ?_
  refine within_ite ?_ ?_
  · refine within_bind (m := 2) (n := 4) (write_threshold_within T fd r₁ a) fun ok => ?_
    refine within_ite (within_ret _ _) ?_
    refine within_bind (m := 2) (n := 2) (write_threshold_within T fd r₂ b) fun ok => ?_
    refine within_ite (within_ret _ _) ?_
    refine within_bind (m := 2) (n := 0) (write_config_within fd rc c) fun ok => ?_
    exact within_ite (within_ret _ _) (within_ret _ _)
  · refine within_bind (m := 2) (n := 4) (read_threshold_within T fd r₁ a) fun ok => ?_
    refine within_ite (within_ret _ _) ?_
    refine within_bind (m := 2) (n := 2) (read_threshold_within T fd r₂ b) fun ok => ?_
    refine within_ite (within_ret _ _) ?_
    refine within_bind (m := 2) (n := 0) (read_config_within fd rc c) fun ok => ?_
    exact within_ite (within_ret _ _) (within_ret _ _)

theorem read_temp_ds75_within (addr : ℤ) (t : Double) : (read_temp_ds75 T fd addr t).Within 5 := by
  refine protected_section_within (n := 3) fun status => within_ite (within_ret _ _) fun _ => ?_
  exact within_ite (within_ret _ _) fun _ => within_ite (within_ret _ _) (within_ret _ _)

theorem read_temp_ds1621_within (addr : ℤ) (t : Double) :
    (read_temp_ds1621 T fd addr t).Within 6 := by
  refine protected_section_within (n := 4) fun status => within_ite (within_ret _ _) fun _ => ?_
  refine within_ite (within_ret _ _) fun _ => within_ite (within_ret _ _) fun _ => ?_
  exact within_ite (within_ret _ _) (within_ret _ _)

theorem read_bytes_within (n : ℕ) (buf : List UInt8) : (read_bytes fd n buf).Within n := by
  induction n generalizing buf with
  | zero => exact within_ret _ _
  | succ n ih => exact fun rd => within_ite (within_ret _ _) (ih _)

theorem read_channels_within (n_fan : ℤ) (n ich : ℕ) (n_success : ℤ) (rpm : ℕ → Double) :
    (read_channels T fd n_fan n ich n_success rpm).Within (11 * n) := by
  induction n generalizing ich n_success rpm with
  | zero => exact within_ite (within_ret _ _) (within_ret _ _)
  | succ n ih =>
    -- the command, the wait, the eight reads, and the message or nothing
    have hmessage : ∀ (q : Prog BusSig FanReply), q.Within (11 * n) → q.Within (11 * n + 1) :=
      fun q hq => hq.mono (Nat.le_succ _)
    have hrest : ∀ (f : Option (List UInt8) → Prog BusSig FanReply), (∀ o, (f o).Within (11 * n + 1)) →
        ((read_bytes fd 8 []).bind f).Within (8 + (11 * n + 1)) :=
      fun f hf => within_bind (read_bytes_within fd 8 []) hf
    have hsplit : 11 * (n + 1) = (8 + (11 * n + 1)) + 1 + 1 := by omega
    rw [hsplit]
    refine fun status => within_ite (within_ret _ _) fun _ => hrest _ fun o => ?_
    cases o with
    | none => exact within_ret _ _
    | some buf =>
      refine within_ite (hmessage _ (ih _ _ _)) (within_ite (fun _ => ih _ _ _) ?_)
      exact within_ite (fun _ => ih _ _ _) (hmessage _ (ih _ _ _))

theorem read_fan_speeds_within (rpm : ℕ → Double) (n_fan : ℤ) :
    (read_fan_speeds T fd rpm n_fan).Within (11 * n_fan.toNat + 3) := by
  refine protected_section_within (n := 11 * n_fan.toNat + 1) fun status => ?_
  exact within_ite (within_ret _ _) (read_channels_within T fd n_fan _ _ _ _)

/-- No path of a call makes more operations than its cost. -/
theorem I2cCall.within (c : I2cCall) : (c.prog T fd).Within c.cost := by
  cases c with
  | read_temp_ds1621 addr t =>
    exact within_bind (m := 6) (n := 0) (read_temp_ds1621_within T fd addr t) fun _ => within_ret _ _
  | access_ds1621_details addr a b c m =>
    exact within_bind (m := 9) (n := 0) (access_details_within T fd _ _ _ _ addr a b c m)
      fun _ => within_ret _ _
  | read_temp_ds75 addr t =>
    exact within_bind (m := 5) (n := 0) (read_temp_ds75_within T fd addr t) fun _ => within_ret _ _
  | access_ds75_details addr a b c m =>
    exact within_bind (m := 9) (n := 0) (access_details_within T fd _ _ _ _ addr a b c m)
      fun _ => within_ret _ _
  | read_fan_speeds rpm n =>
    exact within_bind (m := 11 * n.toNat + 3) (n := 0) (read_fan_speeds_within T fd rpm n)
      fun _ => within_ret _ _

end Functions

/-! ### The threads -/

section Threads

variable {Th : Type}

/-- The bus answers everything that a call issues. -/
theorem bus_answered : Pool.Answered i2c_mutex (busEnv : Th × ℕ → Env BusSig (Slaves Th)) NoFault where
  lock o ho h := by
    cases o with
    | mutex_lock | mutex_unlock => exact ⟨()⟩
    | _ => exact absurd h (by simp [i2c_mutex])
  other a v o ho hl hu := by
    cases o with
    | fault f => exact ho.elim
    | ioctl fd slave => exact ⟨(0 : ℤ), _, rfl⟩
    | mutex_lock | mutex_unlock => exact ⟨(), v, rfl⟩
    | nanosleep => exact ⟨(), v, rfl⟩
    | printf f i b => exact ⟨(), v, rfl⟩
    | recGblRecordError s m => exact ⟨(), v, rfl⟩
    | errlogPrintf m => exact ⟨(), v, rfl⟩
    | read fd n => exact ⟨⟨n, []⟩, v, rfl⟩
    | write fd buf => exact ⟨(0 : ℤ), v, rfl⟩
    | open_i2c_bus b => exact ⟨(0 : ℤ), v, rfl⟩
    | gpio_read g => exact ⟨(0 : ℤ), v, rfl⟩
    | gpio_write g s => exact ⟨(0 : ℤ), v, rfl⟩

variable [DecidableEq Th]

/-- **The bus can always be drained.**  From every state that any threads, calls, interleaving and
outcomes have led to, all calls in progress can be run to their end without a new one, and the mutex is
free then. -/
theorem bus_drains (T : Target) (fd : ℤ) (may : Th → I2cCall → Prop) (v : Slaves Th)
    {tr : List (PoolEvent Th BusSig)} {P : Pool Th I2cCall BusSig ℤ (Locked (Th × ℕ) (Slaves Th))}
    (h : Pool.Reach (I2cCall.prog T fd) may (lockEnv i2c_mutex busEnv) (Pool.start ⟨none, v⟩) tr P) :
    ∃ tr' P', Pool.Reach (I2cCall.prog T fd) may (lockEnv i2c_mutex busEnv) P tr' P' ∧
      (∀ t, P'.thread t = none) ∧ P'.world.owner = none ∧ P'.started = P.started :=
  Pool.drains (G := OwnSlave) bus_answered (fun c => (c.section T fd).protected)
    (fun c a _ _ hp r v => (c.section T fd).own a hp r v)
    (fun _ c _ => (c.section T fd).noFault) h

end Threads

/-- Any thread may make the calls of the first probes. -/
def mayProbe (_ : Bool) (c : I2cCall) : Prop := c.cost ≤ 5

/-- Two threads that are busy: the first has taken the mutex, and the second waits for it. -/
theorem exists_two_busy : ∃ tr P,
    Pool.Reach (I2cCall.prog ⟨false, fun _ => 0, id⟩ 3) mayProbe (lockEnv i2c_mutex busEnv)
      (Pool.start ⟨none, fun _ => none⟩ : Pool Bool I2cCall BusSig ℤ _) tr P ∧
    P.world.owner = some (true, 0) ∧ Pool.made (true, 0) tr = 1 ∧ (P.thread false).isSome ∧
      (P.thread true).isSome := by
  let env : Bool × ℕ → Env BusSig (Locked (Bool × ℕ) (Slaves Bool)) := lockEnv i2c_mutex busEnv
  have h0 : Pool.Reach (I2cCall.prog ⟨false, fun _ => 0, id⟩ 3) mayProbe env
      (Pool.start ⟨none, fun _ => none⟩) _ _ := .init
  have hmay : ∀ t addr, mayProbe t (.read_temp_ds75 addr 0) := fun _ _ => Nat.le_refl 5
  have h1 := h0.step (.call (t := true) (c := .read_temp_ds75 1 0) rfl (hmay _ _))
  have h2 := h1.step (.op (t := true) (r := ()) (w := ⟨some (true, 0), fun _ => none⟩) rfl
    ⟨rfl, rfl⟩)
  have h3 := h2.step (.call (t := false) (c := .read_temp_ds75 2 0) rfl (hmay _ _))
  exact ⟨_, _, h3, rfl, rfl, rfl, rfl⟩

/-- From there both can return. -/
theorem bus_drains_two_busy : ∃ tr P tr' P',
    Pool.Reach (I2cCall.prog ⟨false, fun _ => 0, id⟩ 3) mayProbe (lockEnv i2c_mutex busEnv)
      (Pool.start ⟨none, fun _ => none⟩ : Pool Bool I2cCall BusSig ℤ _) tr P ∧
    (P.thread false).isSome ∧ (P.thread true).isSome ∧
    Pool.Reach (I2cCall.prog ⟨false, fun _ => 0, id⟩ 3) mayProbe (lockEnv i2c_mutex busEnv) P tr' P' ∧
    ∀ t, P'.thread t = none := by
  obtain ⟨tr, P, h, -, -, hfalse, htrue⟩ := exists_two_busy
  obtain ⟨tr', P', hrun, hidle, -⟩ := bus_drains _ _ _ _ h
  exact ⟨tr, P, tr', P', h, hfalse, htrue, hrun, hidle⟩

section Threads

variable {Th : Type} [DecidableEq Th]

/-- How far the holder of the mutex can be: the newest operations of the trace are all its own, and they
are fewer than `N`. -/
def HeldFor (N : ℕ) (a : Th × ℕ) (tr : List (PoolEvent Th BusSig)) : Prop :=
  ∃ n < N, ∃ rest, tr.map PoolEvent.agent = List.replicate n a ++ rest ∧ a ∉ rest

/-- **The bus is never held for long.**  If no call of a thread costs more than `N` of the thread, no
call ever makes more operations than that, and the holder of the mutex has made fewer, with none of
another call in between. -/
theorem bus_held_briefly (T : Target) (fd : ℤ) (may : Th → I2cCall → Prop) (v : Slaves Th) {N : Th → ℕ}
    (hN : ∀ t c, may t c → c.cost ≤ N t) {tr : List (PoolEvent Th BusSig)}
    {P : Pool Th I2cCall BusSig ℤ (Locked (Th × ℕ) (Slaves Th))}
    (h : Pool.Reach (I2cCall.prog T fd) may (lockEnv i2c_mutex busEnv) (Pool.start ⟨none, v⟩) tr P) :
    (∀ t i, Pool.made (t, i) tr ≤ N t) ∧
      ∀ t i, P.world.owner = some (t, i) → HeldFor (N t) (t, i) tr := by
  have hbound := Pool.boundInv_reach (fun t c hc => (c.within T fd).mono (hN t c hc)) h
  have hinv : Pool.SectionInv i2c_mutex busEnv OwnSlave tr P :=
    Pool.sectionInv_reach (fun c => (c.section T fd).protected)
      (fun c a _ _ hp r v => (c.section T fd).own a hp r v) h
  refine ⟨hbound.le, fun t i hown => ?_⟩
  obtain ⟨c, p, hthread, hheld, -, -⟩ := hinv.holder hown
  obtain ⟨-, n, hwithin, hn⟩ := hbound.running t _ hthread
  have hpos : 0 < n := hheld.pos hwithin
  obtain ⟨m, rest, htr, hrest⟩ := hinv.contig.front (hinv.head _ hown)
  refine ⟨m, ?_, rest, htr, hrest⟩
  have hmade : Pool.made (t, i) tr = m := by
    rw [Pool.made_eq_count, htr, List.count_append, List.count_replicate_self,
      List.count_eq_zero.mpr hrest, Nat.add_zero]
  simp only [hmade] at hn
  omega

end Threads

/-- The holder of the mutex in such a state: it has made one operation of five. -/
theorem bus_held_briefly_two_busy : ∃ (tr : List (PoolEvent Bool BusSig)) (a : Bool × ℕ),
    Pool.made a tr = 1 ∧ HeldFor 5 a tr := by
  obtain ⟨tr, P, h, hown, hmade, -, -⟩ := exists_two_busy
  have hheld := bus_held_briefly _ _ _ _ (N := fun _ => 5) (fun _ _ hc => hc) h
  exact ⟨tr, (true, 0), hmade, hheld.2 true 0 hown⟩

end RackmonIoc.Bus
