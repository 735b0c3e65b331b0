import Mathlib.Data.Nat.Bitwise
import Mathlib.Tactic.IntervalCases
import RackmonIoc.Bus.Lock
import RackmonIoc.Driver.Ioc

/-!
# The box: 64 probes behind a mux

The environment of the sequential runs.  The probes are DS75 devices indexed by stub and slave address;
the mux pins 26, 46 and 65 choose the stub, and an `ioctl` the slave.  A `gpio_write` that succeeds sets
its pin, a failed one leaves either level; a complete transfer does what the device does, and any other
one may leave the addressed device, and no other, in any state.
-/

namespace RackmonIoc.Bus

open Program CLib Driver Prog

/-! ### A probe -/

/-- A DS75: the pointer register, the config byte of register 1, and the two bytes of each of the
registers 0, 2 and 3, high byte first. -/
structure DS75 where
  pointer : UInt8
  config : UInt8
  reg : UInt8 → UInt8 × UInt8

/-- A complete write: the first byte goes to the pointer register, the others to the register. -/
def DS75.write (d : DS75) : List UInt8 → DS75
  | [] => d
  | [p] => { d with pointer := p }
  | p :: b :: rest =>
    if p = 1 then { d with pointer := p, config := b }
    else { d with pointer := p, reg := Function.update d.reg p (b, rest.headD (d.reg p).2) }

/-- The first `n` bytes that a complete read gets from the register the pointer selects. -/
def DS75.output (d : DS75) (n : ℕ) : List UInt8 :=
  if d.pointer = 1 then List.replicate n d.config
  else [(d.reg d.pointer).1, (d.reg d.pointer).2].take n

/-- The two states have the same data registers. -/
def DS75.SameData (d d' : DS75) : Prop := d'.config = d.config ∧ d'.reg = d.reg

/-! ### The mux -/

/-- The stub that the levels of the mux pins choose. -/
def mux_stub (pin : ℤ → Bool) : ℕ :=
  (pin 26).toNat + 2 * (pin 46).toNat + 4 * (pin 65).toNat

/-- The mux pins 26, 46 and 65 hold the bits 0, 1 and 2 of `istub`. -/
def mux_holds (pin : ℤ → Bool) (istub : ℤ) : Prop :=
  pin 26 = istub.toNat.testBit 0 ∧ pin 46 = istub.toNat.testBit 1 ∧
    pin 65 = istub.toNat.testBit 2

theorem mux_stub_of_holds {pin : ℤ → Bool} {istub : ℤ} (h0 : 0 ≤ istub) (h8 : istub < 8)
    (h : mux_holds pin istub) : (mux_stub pin : ℤ) = istub := by
  obtain ⟨h1, h2, h3⟩ := h
  unfold mux_stub
  rw [h1, h2, h3]
  interval_cases istub <;> rfl

/-- The mux holds a stub exactly when the levels of its pins choose it. -/
theorem mux_stub_eq_iff {pin : ℤ → Bool} {istub : ℤ} (h0 : 0 ≤ istub) (h8 : istub < 8) :
    (mux_stub pin : ℤ) = istub ↔ mux_holds pin istub := by
  constructor
  · rintro rfl
    unfold mux_holds mux_stub
    rw [Int.toNat_natCast]
    cases pin 26 <;> cases pin 46 <;> cases pin 65 <;> simp <;> decide
  · exact mux_stub_of_holds h0 h8

/-! ### The box -/

/-- The levels of the pins, the slave address the bus descriptor is set to, and the devices. -/
structure Box where
  pin : ℤ → Bool
  slave : ℤ
  device : ℕ → ℤ → DS75

/-- The stub and the slave address that a transfer goes to. -/
def Box.target (w : Box) : ℕ × ℤ := (mux_stub w.pin, w.slave)

def Box.addressed (w : Box) : DS75 := w.device (mux_stub w.pin) w.slave

/-- The box after the addressed device has become `d`. -/
def Box.setAddressed (w : Box) (d : DS75) : Box :=
  { w with device := fun i a => if (i, a) = w.target then d else w.device i a }

def Box.setPin (w : Box) (gpio : ℤ) (level : Bool) : Box :=
  { w with pin := Function.update w.pin gpio level }

@[simp] theorem Box.addressed_setAddressed (w : Box) (d : DS75) :
    (w.setAddressed d).addressed = d :=
  if_pos rfl

theorem Box.device_setAddressed (w : Box) (d : DS75) {i : ℕ} {a : ℤ} (h : (i, a) ≠ w.target) :
    (w.setAddressed d).device i a = w.device i a :=
  if_neg h

@[simp] theorem Box.setAddressed_twice (w : Box) (d d' : DS75) :
    (w.setAddressed d).setAddressed d' = w.setAddressed d' := by
  unfold setAddressed
  congr 1
  funext i a
  show (if (i, a) = w.target then d' else if (i, a) = w.target then d else w.device i a) = _
  split <;> rfl

/-- **The environment of the sequential runs.** -/
def boxEnv : Env BusSig Box := fun w o r w' =>
  match o, r with
  | .gpio_write gpio state, r =>
    if (0 : ℤ) ≤ r then w' = w.setPin gpio (decide (state ≠ 0))
    else ∃ level, w' = w.setPin gpio level
  | .ioctl _ slave, r => w' = if (0 : ℤ) ≤ r then { w with slave := slave } else w
  | .write _ buf, r =>
    if r = (buf.length : ℤ) then w' = w.setAddressed (w.addressed.write buf)
    else -1 ≤ r ∧ r < buf.length ∧ ∃ d, w' = w.setAddressed d
  | .read _ n, r =>
    if r.status = n then r.data = w.addressed.output n ∧ w' = w
    else -1 ≤ r.status ∧ r.status < n ∧ ∃ d, w' = w.setAddressed d
  | _, _ => w' = w

/-- The answers of a box in which everything succeeds. -/
def okBox (w : Box) : (o : BusOp) → Option (BusOp.Reply o × Box)
  | .gpio_write gpio state => some ((0 : ℤ), w.setPin gpio (decide (state ≠ 0)))
  | .ioctl _ slave => some ((0 : ℤ), { w with slave := slave })
  | .write _ buf => some ((buf.length : ℤ), w.setAddressed (w.addressed.write buf))
  | .read _ n => some (⟨n, w.addressed.output n⟩, w)
  | .mutex_lock | .mutex_unlock | .nanosleep => some ((), w)
  | .printf _ _ _ | .recGblRecordError _ _ | .errlogPrintf _ => some ((), w)
  | .open_i2c_bus _ | .gpio_read _ => some ((0 : ℤ), w)
  | .fault _ => none

theorem boxEnv_of_okBox (w : Box) (o : BusOp) (r : BusOp.Reply o) (w' : Box)
    (h : okBox w o = some (r, w')) : boxEnv w o r w' := by
  cases o with
  | fault f => exact nomatch r
  | gpio_write gpio state =>
    obtain ⟨rfl, rfl⟩ := Prod.mk.inj (Option.some.inj h)
    simp [boxEnv]
  | ioctl fd slave =>
    obtain ⟨rfl, rfl⟩ := Prod.mk.inj (Option.some.inj h)
    simp [boxEnv]
  | write fd buf =>
    obtain ⟨rfl, rfl⟩ := Prod.mk.inj (Option.some.inj h)
    simp [boxEnv]
  | read fd n =>
    obtain ⟨rfl, rfl⟩ := Prod.mk.inj (Option.some.inj h)
    simp [boxEnv]
  | _ =>
    obtain ⟨rfl, rfl⟩ := Prod.mk.inj (Option.some.inj h)
    exact rfl

/-! ### What a transfer leaves alone -/

/-- The pins are as they were, and so is every device but the one `(istub, slave)`. -/
structure Frame (w w' : Box) (istub : ℕ) (slave : ℤ) : Prop where
  pin : w'.pin = w.pin
  device : ∀ i a, (i, a) ≠ (istub, slave) → w'.device i a = w.device i a

theorem Frame.refl (w : Box) (istub : ℕ) (slave : ℤ) : Frame w w istub slave :=
  ⟨rfl, fun _ _ _ => rfl⟩

theorem Frame.setAddressed {w w' : Box} {istub : ℕ} {slave : ℤ} (h : Frame w w' istub slave)
    (ht : w'.target = (istub, slave)) (d : DS75) : Frame w (w'.setAddressed d) istub slave where
  pin := h.pin
  device i a hne := by
    rw [w'.device_setAddressed d (by rw [ht]; exact hne), h.device i a hne]

/-- The operation is a transfer on the bus. -/
def IsTransfer : BusOp → Prop
  | .write _ _ | .read _ _ => True
  | _ => False

/-- A transfer goes to the slave `slave` behind the stub that the pins `pin` choose. -/
def RoutedTo (pin : ℤ → Bool) (slave : ℤ) (w : Box) (o : BusOp) : Prop :=
  IsTransfer o → w.slave = slave ∧ w.pin = pin

/-- **A section on one slave** makes its transfers on this slave behind the stub the pins choose, and
leaves every other device alone. -/
theorem wp_slaveSection {α : Type} {fd slave : ℤ} {p : Prog BusSig α}
    (h : SlaveSection fd slave p) (w : Box) :
    p.wp boxEnv (RoutedTo w.pin slave) (fun _ w' => Frame w w' (mux_stub w.pin) slave) w := by
  obtain ⟨fail, rest, hrest, rfl⟩ := h
  refine ⟨nofun, fun _ w₁ (h₁ : w₁ = w) => ?_⟩
  subst h₁
  show wp _ _ _ ((vis (BusOp.ioctl fd slave) _).bind fun s => mutex_unlock.bind fun _ => ret s) w₁
  rw [wp_bind]
  have hunlock : ∀ (s : α) (w' : Box), Frame w₁ w' (mux_stub w₁.pin) slave →
      wp boxEnv (RoutedTo w₁.pin slave) (fun _ w' => Frame w₁ w' (mux_stub w₁.pin) slave)
        (mutex_unlock.bind fun _ => ret s) w' :=
    fun s w' hw => ⟨nofun, fun _ w'' (h : w'' = w') => h ▸ hw⟩
  refine ⟨nofun, fun status w₂ hw₂ => ?_⟩
  have hw₂ : w₂ = if (0 : ℤ) ≤ status then { w₁ with slave := slave } else w₁ := hw₂
  rw [wp_ite]
  constructor
  · intro hneg
    rw [if_neg (Int.not_le.mpr hneg)] at hw₂
    exact hunlock _ _ (hw₂ ▸ Frame.refl _ _ _)
  · intro hnn
    rw [if_pos (Int.not_lt.mp hnn)] at hw₂
    have hI : w₂.slave = slave ∧ Frame w₁ w₂ (mux_stub w₁.pin) slave := by
      rw [hw₂]
      exact ⟨rfl, rfl, fun _ _ _ => rfl⟩
    have htransfers := wp_only (E := boxEnv) (G := RoutedTo w₁.pin slave)
      (I := fun w' => w'.slave = slave ∧ Frame w₁ w' (mux_stub w₁.pin) slave) (fun w' o ho hw => ?_)
      hrest hI
    · exact wp_conseq htransfers fun s w' hw => hunlock s w' hw.2
    · refine ⟨fun _ => ⟨hw.1, hw.2.pin⟩, fun r w'' he => ?_⟩
      have htarget : w'.target = (mux_stub w₁.pin, slave) := by
        rw [Box.target, hw.1, hw.2.pin]
      have hset : ∀ d, (w'.setAddressed d).slave = slave ∧
          Frame w₁ (w'.setAddressed d) (mux_stub w₁.pin) slave :=
        fun d => ⟨hw.1, hw.2.setAddressed htarget d⟩
      cases o with
      | write fd' buf =>
        unfold boxEnv at he
        simp only at he
        split at he
        · exact he ▸ hset _
        · obtain ⟨-, -, d, rfl⟩ := he
          exact hset d
      | read fd' n =>
        unfold boxEnv at he
        simp only at he
        split at he
        · exact he.2 ▸ hw
        · obtain ⟨-, -, d, rfl⟩ := he
          exact hset d
      | nanosleep => exact (show w'' = w' from he) ▸ hw
      | printf f i b => exact (show w'' = w' from he) ▸ hw
      | _ => exact ho.elim

/-! ### The operations of the device support in the box -/

/-- The box as the device support sees it: a call of `dev_i2c.c` is one operation. -/
def boxDev (T : Target) : Env DevSig Box := Env.through boxEnv (expand T)

section Dev

variable {T : Target}

theorem boxDev_gpio_write {w w' : Box} {gpio state r : ℤ}
    (h : boxDev T w (.gpio_write gpio state) r w') :
    ∃ level, w' = w.setPin gpio level ∧ (0 ≤ r → level = decide (state ≠ 0)) := by
  obtain ⟨r', w₁, he, hr⟩ := returns_vis.mp h
  obtain ⟨rfl, rfl⟩ := returns_ret.mp hr
  unfold boxEnv at he
  simp only at he
  split at he
  · exact ⟨_, he, fun _ => rfl⟩
  · obtain ⟨level, hl⟩ := he
    exact ⟨level, hl, fun h0 => absurd h0 ‹_›⟩

theorem boxDev_open {w w' : Box} {bus fd : ℤ} (h : boxDev T w (.open_i2c_bus bus) fd w') :
    w' = w := by
  obtain ⟨r', w₁, he, hr⟩ := returns_vis.mp h
  obtain ⟨rfl, rfl⟩ := returns_ret.mp hr
  exact he

theorem boxDev_message {w w' : Box} {st : ℤ} {m : String} {r : Unit}
    (h : boxDev T w (.recGblRecordError st m) r w') : w' = w := by
  obtain ⟨r', w₁, he, hr⟩ := returns_vis.mp h
  obtain ⟨rfl, rfl⟩ := returns_ret.mp hr
  exact he

/-- The bit of a number that is not negative, as the level it drives. -/
theorem decide_bit_ne_zero (istub : ℤ) (i : ℕ) :
    decide (bit istub i ≠ 0) = istub.toNat.testBit i := by
  unfold bit
  rw [Nat.and_two_pow]
  cases istub.toNat.testBit i <;> simp

/-- **Selecting a stub.**  On success the mux holds the stub; the slave and the devices stay, whatever
happens. -/
theorem wp_select_probe {G : Box → DevOp → Prop} {istub : ℤ} {w : Box}
    (hG : ∀ w gpio state, G w (.gpio_write gpio state)) :
    wp (boxDev T) G (fun sel w' => w'.slave = w.slave ∧ w'.device = w.device ∧
      (sel = -1 ∨ sel = 0 ∧ mux_holds w'.pin istub)) (select_probe istub) w := by
  have hframe : ∀ (gpio : ℤ) (i : ℕ) (w₁ w' : Box) (r : ℤ), w₁.slave = w.slave ∧ w₁.device = w.device →
      boxDev T w₁ (.gpio_write gpio (bit istub i)) r w' → (w'.slave = w.slave ∧ w'.device = w.device) ∧
        (0 ≤ r → w'.pin = Function.update w₁.pin gpio (istub.toNat.testBit i)) := by
    rintro gpio i w₁ w' r h₁ he
    obtain ⟨l, rfl, hl⟩ := boxDev_gpio_write he
    refine ⟨h₁, fun hr => ?_⟩
    rw [hl hr, decide_bit_ne_zero]
    rfl
  refine wp_select_rule
    (I := fun w' => (w'.slave = w.slave ∧ w'.device = w.device) ∧ w'.pin 26 = istub.toNat.testBit 0)
    (J := fun w' => (w'.slave = w.slave ∧ w'.device = w.device) ∧ w'.pin 26 = istub.toNat.testBit 0 ∧
      w'.pin 46 = istub.toNat.testBit 1)
    (fun _ => ⟨rfl, rfl, .inl rfl⟩) ⟨hG _ _ _, fun r w' he => ?_⟩
    (fun w₁ h₁ => ⟨hG _ _ _, fun r w' he => ?_⟩) (fun w₁ h₁ => ⟨hG _ _ _, fun r w' he => ?_⟩)
  · obtain ⟨hsame, hpin⟩ := hframe 26 0 w w' r ⟨rfl, rfl⟩ he
    refine ⟨fun _ => ⟨hsame.1, hsame.2, .inl rfl⟩, fun hr => ⟨hsame, ?_⟩⟩
    rw [hpin hr, Function.update_self]
  · obtain ⟨hsame, hpin⟩ := hframe 46 1 w₁ w' r h₁.1 he
    refine ⟨fun _ => ⟨hsame.1, hsame.2, .inl rfl⟩, fun hr => ⟨hsame, ?_, ?_⟩⟩
    · rw [hpin hr, Function.update_of_ne (by decide), h₁.2]
    · rw [hpin hr, Function.update_self]
  · obtain ⟨hsame, hpin⟩ := hframe 65 2 w₁ w' r h₁.1 he
    refine ⟨fun _ => ⟨hsame.1, hsame.2, .inl rfl⟩,
      fun hr => ⟨hsame.1, hsame.2, .inr ⟨rfl, ?_, ?_, ?_⟩⟩⟩
    · rw [hpin hr, Function.update_of_ne (by decide), h₁.2.1]
    · rw [hpin hr, Function.update_of_ne (by decide), h₁.2.2]
    · rw [hpin hr, Function.update_self]

/-- The slave that a call on the probe `addr` sets. -/
def probe_slave (addr : ℤ) : DevOp → ℤ
  | .read_temp_ds75 _ _ _ => I2C_DS75_ADDR_BASE + addr % 8
  | _ => I2C_DS75_ADDR_BASE + addr

theorem expand_section {fd addr : ℤ} {o : DevOp} (h : ProbeCall fd addr o) :
    SlaveSection fd (probe_slave addr o) (expand T o) := by
  cases o with
  | read_temp_ds75 fd' addr' t =>
    obtain ⟨rfl, rfl⟩ := h
    exact read_temp_ds75_section T fd' addr' t
  | access_ds75_details fd' addr' a b c m =>
    obtain ⟨rfl, rfl⟩ := h
    exact access_details_section T _ _ _ _ fd' addr' a b c m
  | _ => exact h.elim

/-- A call on a probe leaves everything but the device it addresses as it was. -/
theorem boxDev_probe {fd addr : ℤ} {o : DevOp} (h : ProbeCall fd addr o) {w w' : Box}
    {r : o.Reply} (he : boxDev T w o r w') :
    Frame w w' (mux_stub w.pin) (probe_slave addr o) := by
  have hr : Returns boxEnv (expand T o) w r w' := he
  have hframe := wp_returns (wp_slaveSection (expand_section h) w) hr
  exact hframe

/-! ### Progress -/

/-- The operation is no invalid access. -/
def NoFault : BusOp → Prop
  | .fault _ => False
  | _ => True

theorem boxEnv_answers (w : Box) {o : BusOp} (h : NoFault o) : ∃ r w', boxEnv w o r w' := by
  have hok : ∃ x, okBox w o = some x := by
    cases o with
    | fault f => exact h.elim
    | _ => exact ⟨_, rfl⟩
  obtain ⟨⟨r, w'⟩, hx⟩ := hok
  exact ⟨r, w', boxEnv_of_okBox w o r w' hx⟩

/-- The operations of a section on one slave. -/
theorem SlaveSection.only {α : Type} {fd slave : ℤ} {p : Prog BusSig α} {ok : BusOp → Prop}
    (h : SlaveSection fd slave p) (hlock : ok .mutex_lock) (hunlock : ok .mutex_unlock)
    (hioctl : ok (.ioctl fd slave)) (htransfers : ∀ o, Transfers fd o → ok o) : p.Only ok := by
  obtain ⟨fail, rest, hrest, rfl⟩ := h
  refine ⟨hlock, fun _ => ?_⟩
  show Only (S := BusSig) ok ((vis (BusOp.ioctl fd slave) _).bind _)
  refine only_bind ⟨hioctl, fun status => ?_⟩ fun _ => ⟨hunlock, fun _ => trivial⟩
  exact only_ite trivial (hrest.mono htransfers)

theorem SlaveSection.noFault {α : Type} {fd slave : ℤ} {p : Prog BusSig α}
    (h : SlaveSection fd slave p) : p.Only NoFault := by
  refine h.only trivial trivial trivial fun o ho => ?_
  cases o <;> trivial

/-- The box answers every operation of the device support but an invalid access. -/
theorem expand_answers (w : Box) {o : DevOp} (h : ∀ f, o ≠ .fault f) :
    wp boxEnv (fun w o => ∃ r w', boxEnv w o r w') (fun _ _ => True) (expand T o) w := by
  have hall : (expand T o).Only NoFault := by
    cases o with
    | read_temp_ds75 fd addr t => exact (read_temp_ds75_section T fd addr t).noFault
    | access_ds75_details fd addr a b c m =>
      exact (access_details_section T _ _ _ _ fd addr a b c m).noFault
    | fault f => exact absurd rfl (h f)
    | _ => exact ⟨trivial, fun _ => trivial⟩
  have hkeep : ∀ (w : Box) (o : BusOp), NoFault o → True →
      (∃ r w', boxEnv w o r w') ∧ ∀ r w', boxEnv w o r w' → True :=
    fun w o ho _ => ⟨boxEnv_answers w ho, fun _ _ _ => trivial⟩
  exact wp_only (S := BusSig) hkeep hall trivial

end Dev

/-- The calls of a sequential run, down to the single operations of `dev_i2c.c`. -/
def bus_session (T : Target) (cs : List IocCall) (s : Ioc) : Prog (BusSig.tag IocCall) Ioc :=
  session (fun c s => (c.prog T s).interp (expand T)) cs s

end RackmonIoc.Bus
