import RackmonIoc.Program.Refine
import RackmonIoc.Temp.Letters

/-!
# The box as 64 register files

Where everything succeeds, the driver, the mux, the bus and the devices together are 64 files of
registers, one for each number: a processing of a record is one read or one write in the file of its
number, and nothing else is left of the pins, the slave address and the pointers.

* `run_registers`: every run of processings executes as the fold of `step` on the records and the files.
* `scan_order`: processings of different records may be exchanged if they touch different registers or
  both read, so the result of a scan does not depend on their order.
-/

namespace RackmonIoc.Temp

open Program CLib Base Driver Bus Prog

/-! ### Register files -/

/-- The config byte, and the two bytes of each other register. -/
@[ext] structure Registers where
  config : UInt8
  reg : UInt8 → UInt8 × UInt8

/-- The register file of a device. -/
def registers (d : DS75) : Registers := ⟨d.config, d.reg⟩

/-- The register files of all numbers. -/
def probes (w : Box) (n : ℤ) : Registers := registers (device w n)

namespace Registers

variable (T : Target)

/-- The temperature in a register, as the driver decodes it. -/
def temp (r : Registers) (reg : UInt8) : Double := decode_temp T [(r.reg reg).1, (r.reg reg).2]

/-- What a read with the letter brings, and VAL; `val` is VAL before. -/
def read (r : Registers) (what : Char) (val : Double) : ℤ × Double :=
  if what = ' ' then (0, r.temp T 0)
  else if what = 'S' then (0, r.temp T 3)
  else if what = 'Y' then (0, r.temp T 2)
  else if what = 'C' then (0, .fin r.config.toNat)
  else (1, val)

/-- The register file after a threshold has been written. -/
def store (r : Registers) (reg : UInt8) (val : Double) : Registers :=
  { r with reg := Function.update r.reg reg (byte (encode_temp T val) 0, byte (encode_temp T val) 1) }

/-- The result of a write of `val` with the letter, and the register file after it. -/
def write (r : Registers) (what : Char) (val : Double) : ℤ × Registers :=
  if what = 'H' then (0, r.store T 3 val)
  else if what = 'L' then (0, r.store T 2 val)
  else if what = 'C' then
    if val < 0 ∨ 255 < val then (1, r) else (0, { r with config := config_byte T val })
  else (1, r)

end Registers

/-- One processing, on the records and the register files. -/
def step (T : Target) (a : Ioc × (ℤ → Registers)) : IocCall → Ioc × (ℤ → Registers)
  | .read_ai k _ =>
    match a.1.accepted T (.ai k) with
    | some (n, ch) =>
      (a.1.set_ai k a.1.globals (ai_result (a.1.ai k) ((a.2 n).read T ch (a.1.ai k).val)).2, a.2)
    | none => a
  | .write_ao k val =>
    match a.1.accepted T (.ao k) with
    | some (n, ch) =>
      (a.1.set_ao k a.1.globals
          (ao_result { a.1.ao k with val := val } ((a.2 n).write T ch val).1).2,
        Function.update a.2 n ((a.2 n).write T ch val).2)
    | none => a
  | .init_record_ai _ | .init_record_ao _ _ => a

/-! ### One processing -/

variable {T : Target}

/-- The register files after the device has become `d`. -/
theorem probes_setAddressed (w : Box) (n : ℤ) (d : DS75) :
    probes ((reached w n).setAddressed d) = Function.update (probes w) n (registers d) := by
  funext m
  unfold probes device
  by_cases hm : m = n
  · subst hm
    rw [Function.update_self]
    exact congrArg registers (device_reached w m d)
  · rw [Function.update_of_ne hm, Box.device_setAddressed]
    · rfl
    · rw [reached_target]
      exact fun h => hm (probe_inj h)

section Executed

variable {n : ℤ} {ch : Char} (w : Box)

/-- A read leaves the register files as they are. -/
theorem probes_pointed (reg : UInt8) :
    probes (pointed (selected w (n % 8)) (0x48 + n / 8) reg) = probes w := by
  have h : probes (pointed (selected w (n % 8)) (0x48 + n / 8) reg) =
      Function.update (probes w) n (registers ((reached w n).addressed.point reg)) :=
    probes_setAddressed w n _
  rw [h, reached_addressed]
  exact Function.update_eq_self n (probes w)

/-- A temperature that is read behind the selected stub. -/
theorem temp_pointed (reg : UInt8) :
    (pointed (selected w (n % 8)) (0x48 + n / 8) reg).addressed.temp T reg =
      (probes w n).temp T reg := by
  have h : (at_slave (selected w (n % 8)) (0x48 + n / 8)).addressed = device w n :=
    reached_addressed w n
  rw [pointed_addressed, h]
  rfl

/-- A read of a threshold. -/
theorem okDev_read_high (w : Box) (fd addr : ℤ) (t : Double) :
    okDev T w (.access_ds75_details fd addr (some t) none none 'r') =
      some (⟨0, some ((pointed w (0x48 + addr) 3).addressed.temp T 3), none, none⟩,
        pointed w (0x48 + addr) 3) := by
  have hrun : okDev T w (.access_ds75_details fd addr (some t) none none 'r') =
      some (⟨0, some (decode_temp T ((pointed w (0x48 + addr) 3).addressed.output 2)), none, none⟩,
        pointed w (0x48 + addr) 3) := rfl
  rw [hrun, pointed_addressed, DS75.point_output (by decide)]
  rfl

theorem okDev_read_low (w : Box) (fd addr : ℤ) (t : Double) :
    okDev T w (.access_ds75_details fd addr none (some t) none 'r') =
      some (⟨0, none, some ((pointed w (0x48 + addr) 2).addressed.temp T 2), none⟩,
        pointed w (0x48 + addr) 2) := by
  have hrun : okDev T w (.access_ds75_details fd addr none (some t) none 'r') =
      some (⟨0, none, some (decode_temp T ((pointed w (0x48 + addr) 2).addressed.output 2)), none⟩,
        pointed w (0x48 + addr) 2) := rfl
  rw [hrun, pointed_addressed, DS75.point_output (by decide)]
  rfl

/-- **A read** brings what the register file says. -/
theorem exec_read_what (hn : 0 ≤ n ∧ n < 64) (fd : ℤ) (val : Double) (cfg₀ : UInt8) :
    ∃ w', exec (okDev T) (read_what fd (n / 8) ch val cfg₀) (selected w (n % 8)) =
        some ((probes w n).read T ch val, w') ∧ probes w' = probes w := by
  unfold read_what read_detail Registers.read
  split_ifs with hT hS hY hC
  · have hmask : n / 8 % 8 = n / 8 := by omega
    simp only [Dev.read_temp_ds75, bind_eq, pure_eq, vis_bind, ret_bind, exec_vis, okDev_read_temp,
      Option.bind_some, exec_ret, hmask, temp_pointed]
    exact ⟨_, rfl, probes_pointed w 0⟩
  · simp only [Dev.access_ds75_details, bind_eq, pure_eq, vis_bind, ret_bind, exec_vis,
      okDev_read_high, Option.bind_some, exec_ret, Option.getD_some, temp_pointed]
    exact ⟨_, rfl, probes_pointed w 3⟩
  · simp only [Dev.access_ds75_details, bind_eq, pure_eq, vis_bind, ret_bind, exec_vis,
      okDev_read_low, Option.bind_some, exec_ret, Option.getD_some, temp_pointed]
    exact ⟨_, rfl, probes_pointed w 2⟩
  · have hconfig : (pointed (selected w (n % 8)) (0x48 + n / 8) 1).addressed.config =
        (probes w n).config := by
      have h : (at_slave (selected w (n % 8)) (0x48 + n / 8)).addressed = device w n :=
        reached_addressed w n
      rw [pointed_addressed, h]
      rfl
    simp only [Dev.access_ds75_details, bind_eq, pure_eq, vis_bind, ret_bind, exec_vis,
      okDev_read_config, Option.bind_some, exec_ret, Option.getD_some, hconfig]
    exact ⟨_, rfl, probes_pointed w 1⟩
  · exact ⟨_, rfl, rfl⟩

/-- A transfer of a threshold to the device. -/
theorem okDev_write_high (w : Box) (fd addr : ℤ) (t : Double) :
    okDev T w (.access_ds75_details fd addr (some t) none none 'w') =
      some (⟨0, some t, none, none⟩, (at_slave w (0x48 + addr)).setAddressed
        ((at_slave w (0x48 + addr)).addressed.write (3 :: encode_temp T t))) := rfl

theorem okDev_write_low (w : Box) (fd addr : ℤ) (t : Double) :
    okDev T w (.access_ds75_details fd addr none (some t) none 'w') =
      some (⟨0, none, some t, none⟩, (at_slave w (0x48 + addr)).setAddressed
        ((at_slave w (0x48 + addr)).addressed.write (2 :: encode_temp T t))) := rfl

/-- The register files after bytes have been written behind the selected stub. -/
theorem probes_write (bytes : List UInt8) :
    probes ((at_slave (selected w (n % 8)) (0x48 + n / 8)).setAddressed
        ((at_slave (selected w (n % 8)) (0x48 + n / 8)).addressed.write bytes)) =
      Function.update (probes w) n (registers ((device w n).write bytes)) := by
  have h : (at_slave (selected w (n % 8)) (0x48 + n / 8)).addressed = device w n :=
    reached_addressed w n
  rw [h]
  exact probes_setAddressed w n _

/-- **A write** does what the register file says. -/
theorem exec_write_what (fd : ℤ) (val : Double) :
    ∃ w', exec (okDev T) (write_what T fd (n / 8) ch val) (selected w (n % 8)) =
        some (((probes w n).write T ch val).1, w') ∧
      probes w' = Function.update (probes w) n ((probes w n).write T ch val).2 := by
  have hsame : probes (selected w (n % 8)) = Function.update (probes w) n (probes w n) :=
    (Function.update_eq_self n (probes w)).symm
  unfold write_what Registers.write
  split_ifs with hH hL hC hrange
  · simp only [Dev.access_ds75_details, bind_eq, pure_eq, vis_bind, ret_bind, exec_vis,
      okDev_write_high, Option.bind_some, exec_ret]
    exact ⟨_, rfl, probes_write w _⟩
  · simp only [Dev.access_ds75_details, bind_eq, pure_eq, vis_bind, ret_bind, exec_vis,
      okDev_write_low, Option.bind_some, exec_ret]
    exact ⟨_, rfl, probes_write w _⟩
  · exact ⟨_, rfl, hsame⟩
  · simp only [Dev.access_ds75_details, bind_eq, pure_eq, vis_bind, ret_bind, exec_vis,
      okDev_write_config, Option.bind_some, exec_ret]
    exact ⟨_, rfl, probes_write w _⟩
  · exact ⟨_, rfl, hsame⟩

end Executed

/-! ### Runs -/

/-- The call is a processing of a record that has its private data. -/
def Processes (s : Ioc) (c : IocCall) : Prop := c.is_init = false ∧ ∃ i, s.dpvt c.record = some i

/-- **One processing** executes as one step. -/
theorem exec_step {s : Ioc} (hown : OwnEntries T s) {c : IocCall} (hc : Processes s c) (w : Box) :
    ∃ s' w', exec okBox ((c.prog T s).interp (expand T)) w = some (s', w') ∧ SameDriver s s' ∧
      (s', probes w') = step T (s, probes w) c := by
  obtain ⟨hinit, i, hi⟩ := hc
  obtain ⟨n, ch, hacc, -⟩ := hown _ _ hi
  have hp := entry_of_own hown hi hacc
  rw [exec_okDev]
  rcases c with k | ⟨k, cfg₀⟩ | ⟨k, cfg₀⟩ | ⟨k, val⟩
  · exact nomatch hinit
  · exact nomatch hinit
  · obtain ⟨w', hread, hprobes⟩ := exec_read_what (T := T) w (accepted_link_range hacc)
      s.globals.global_fd_i2c (s.ai k).val cfg₀
    have hexec : exec (okDev T) (read_ai s.globals (s.ai k) cfg₀) w =
        some (ai_result (s.ai k) ((probes w n).read T ch (s.ai k).val), w') := by
      rw [← exec_okDev, exec_read_ai hp, hread]
      rfl
    have hacc' : s.accepted T (.ai k) = some (n, ch) := hacc
    refine ⟨s.set_ai k s.globals (ai_result (s.ai k) ((probes w n).read T ch (s.ai k).val)).2, w', ?_,
      ⟨s.set_ai_text (ai_result_text _ _), rfl, s.set_ai_dpvt_self (ai_result_dpvt _ _)⟩, ?_⟩
    · show exec (okDev T) ((read_ai s.globals (s.ai k) cfg₀).bind _) w = _
      rw [exec_bind, hexec]
      rfl
    · unfold step
      rw [hprobes]
      dsimp only
      rw [hacc']
  · obtain ⟨w', hwrite, hprobes⟩ := exec_write_what (T := T) w
      s.globals.global_fd_i2c val
    have hp' : Entry s.globals { s.ao k with val := val }.toDbCommon n ch := hp
    have hexec : exec (okDev T) (write_ao T s.globals { s.ao k with val := val }) w =
        some (ao_result { s.ao k with val := val } ((probes w n).write T ch val).1, w') := by
      rw [← exec_okDev, exec_write_ao hp', hwrite]
      rfl
    have hacc' : s.accepted T (.ao k) = some (n, ch) := hacc
    refine ⟨s.set_ao k s.globals
        (ao_result { s.ao k with val := val } ((probes w n).write T ch val).1).2, w', ?_,
      ⟨s.set_ao_text (ao_result_text _ _), rfl, s.set_ao_dpvt_self (ao_result_dpvt _ _)⟩, ?_⟩
    · show exec (okDev T) ((write_ao T s.globals { s.ao k with val := val }).bind _) w = _
      rw [exec_bind, hexec]
      rfl
    · unfold step
      rw [hprobes]
      dsimp only
      rw [hacc']

theorem Processes.same {s s' : Ioc} {c : IocCall} (h : Processes s c) (hs : SameDriver s s') :
    Processes s' c := by
  obtain ⟨hinit, i, hi⟩ := h
  exact ⟨hinit, i, (congrFun hs.dpvt c.record).trans hi⟩

/-- **The driver is a store of registers.**  Where everything succeeds, every run of processings ends with
the records and the register files that the steps give. -/
theorem run_registers {s : Ioc} (hown : OwnEntries T s) {cs : List IocCall}
    (hcs : ∀ c ∈ cs, Processes s c) (w : Box) :
    ∃ s' w', exec (fun w (o : (BusSig.tag IocCall).Op) => okBox w o.2) (bus_session T cs s) w =
        some (s', w') ∧ (s', probes w') = cs.foldl (step T) (s, probes w) := by
  have hstep : ∀ c ∈ cs, ∀ s₁ w₁ a, (SameDriver s s₁ ∧ (s₁, probes w₁) = a) →
      ∃ s₂ w₂, exec okBox ((c.prog T s₁).interp (expand T)) w₁ = some (s₂, w₂) ∧
        SameDriver s s₂ ∧ (s₂, probes w₂) = step T a c := by
    rintro c hc s₁ w₁ a ⟨hsame, rfl⟩
    obtain ⟨s₂, w₂, hexec, hsame₂, hend⟩ :=
      exec_step (hown.same hsame) ((hcs c hc).same hsame) w₁
    exact ⟨s₂, w₂, hexec, hsame.trans hsame₂, hend⟩
  obtain ⟨s', w', hexec, -, hend⟩ := exec_session
    (I := fun s' w a => SameDriver s s' ∧ (s', probes w) = a) hstep ⟨⟨rfl, rfl, rfl⟩, rfl⟩
  exact ⟨s', w', hexec, hend⟩

/-! ### The order of a scan -/

/-- The register that a read with the letter looks at. -/
def read_register (ch : Char) : Option UInt8 :=
  if ch = ' ' then some 0 else if ch = 'S' then some 3 else if ch = 'Y' then some 2
  else if ch = 'C' then some 1 else none

/-- The register that a write with the letter changes. -/
def write_register (ch : Char) : Option UInt8 :=
  if ch = 'H' then some 3 else if ch = 'L' then some 2 else if ch = 'C' then some 1 else none

namespace Registers

variable (r : Registers) {ch ch' : Char} {val val' : Double}

theorem write_status (r' : Registers) : (r.write T ch val).1 = (r'.write T ch val).1 := by
  unfold write
  split_ifs <;> rfl

/-- A write does not change what other registers bring. -/
theorem read_write (h : ∀ reg, read_register ch = some reg → write_register ch' ≠ some reg)
    (v : Double) : (r.write T ch' val).2.read T ch v = r.read T ch v := by
  unfold read_register write_register at h
  unfold read write store temp
  split_ifs at h ⊢ <;> simp_all

/-- Writes of different registers. -/
theorem write_write (h : ∀ reg, write_register ch = some reg → write_register ch' ≠ some reg) :
    ((r.write T ch val).2.write T ch' val').2 = ((r.write T ch' val').2.write T ch val).2 := by
  unfold write_register at h
  unfold write store
  split_ifs at h ⊢ <;> simp_all [Function.update_comm]

end Registers

/-- The number and the register that a call touches. -/
def touches (T : Target) (s : Ioc) : IocCall → Option (ℤ × UInt8)
  | .read_ai k _ => (s.accepted T (.ai k)).bind fun x => (read_register x.2).map fun reg => (x.1, reg)
  | .write_ao k _ => (s.accepted T (.ao k)).bind fun x => (write_register x.2).map fun reg => (x.1, reg)
  | .init_record_ai _ | .init_record_ao _ _ => none

def reads : IocCall → Bool
  | .read_ai _ _ => true
  | _ => false

/-- Processings of different records that both read, or touch different registers. -/
structure Independent (T : Target) (s : Ioc) (c d : IocCall) : Prop where
  left : Processes s c
  right : Processes s d
  record : c.record ≠ d.record
  register : (reads c ∧ reads d) ∨ ∀ x, touches T s c = some x → touches T s d ≠ some x

theorem Independent.symm {s : Ioc} {c d : IocCall} (h : Independent T s c d) : Independent T s d c := by
  refine ⟨h.right, h.left, h.record.symm, ?_⟩
  rcases h.register with ⟨hc, hd⟩ | hne
  · exact .inl ⟨hd, hc⟩
  · exact .inr fun x hd hc => hne x hc hd

theorem Independent.same {s s' : Ioc} {c d : IocCall} (h : Independent T s c d)
    (hs : SameDriver s s') : Independent T s' c d := by
  have htouches : ∀ c, touches T s' c = touches T s c := by
    intro c
    unfold touches
    simp only [hs.accepted]
  refine ⟨h.left.same hs, h.right.same hs, h.record, ?_⟩
  simpa only [htouches] using h.register

section Steps

variable {s : Ioc} {R : ℤ → Registers} {n : ℤ} {ch : Char} {k : ℕ}

theorem step_read (hacc : s.accepted T (.ai k) = some (n, ch)) (cfg₀ : UInt8) :
    step T (s, R) (.read_ai k cfg₀) =
      (s.set_ai k s.globals (ai_result (s.ai k) ((R n).read T ch (s.ai k).val)).2, R) := by
  unfold step
  dsimp only
  rw [hacc]

theorem step_write (hacc : s.accepted T (.ao k) = some (n, ch)) (val : Double) :
    step T (s, R) (.write_ao k val) =
      (s.set_ao k s.globals (ao_result { s.ao k with val := val } ((R n).write T ch val).1).2,
        Function.update R n ((R n).write T ch val).2) := by
  unfold step
  dsimp only
  rw [hacc]

end Steps

/-- The step of a processing keeps what the driver needs of the records. -/
theorem step_same {s : Ioc} (hown : OwnEntries T s) {c : IocCall} (hc : Processes s c)
    (R : ℤ → Registers) : SameDriver s (step T (s, R) c).1 := by
  obtain ⟨hinit, i, hi⟩ := hc
  obtain ⟨n, ch, hacc, -⟩ := hown _ _ hi
  rcases c with k | ⟨k, cfg₀⟩ | ⟨k, cfg₀⟩ | ⟨k, val⟩
  · exact nomatch hinit
  · exact nomatch hinit
  · rw [step_read hacc]
    exact ⟨s.set_ai_text (ai_result_text _ _), rfl, s.set_ai_dpvt_self (ai_result_dpvt _ _)⟩
  · rw [step_write hacc]
    exact ⟨s.set_ao_text (ao_result_text _ _), rfl, s.set_ao_dpvt_self (ao_result_dpvt _ _)⟩

section Commute

variable {s : Ioc} (hown : OwnEntries T s) {k j : ℕ}
include hown

theorem step_comm_read_read {cfg₀ cfg₁ : UInt8}
    (h : Independent T s (.read_ai k cfg₀) (.read_ai j cfg₁)) (R : ℤ → Registers) :
    step T (step T (s, R) (.read_ai k cfg₀)) (.read_ai j cfg₁) =
      step T (step T (s, R) (.read_ai j cfg₁)) (.read_ai k cfg₀) := by
  have hkj : k ≠ j := fun hkj => h.record (congrArg Rec.ai hkj)
  have hk := step_same hown h.left R
  have hj := step_same hown h.right R
  obtain ⟨-, i, hi⟩ := h.left
  obtain ⟨n, ch, hacc, -⟩ := hown _ _ hi
  obtain ⟨-, i', hi'⟩ := h.right
  obtain ⟨m, ch', hacc', -⟩ := hown _ _ hi'
  rw [step_read hacc] at hk ⊢
  rw [step_read hacc'] at hj ⊢
  rw [step_read ((hk.accepted T _).trans hacc'), step_read ((hj.accepted T _).trans hacc)]
  simp only [Ioc.set_ai, Function.update_of_ne hkj, Function.update_of_ne hkj.symm]
  rw [Function.update_comm hkj]

theorem step_comm_read_write {cfg₀ : UInt8} {val : Double}
    (h : Independent T s (.read_ai k cfg₀) (.write_ao j val)) (R : ℤ → Registers) :
    step T (step T (s, R) (.read_ai k cfg₀)) (.write_ao j val) =
      step T (step T (s, R) (.write_ao j val)) (.read_ai k cfg₀) := by
  have hk := step_same hown h.left R
  have hj := step_same hown h.right R
  obtain ⟨-, i, hi⟩ := h.left
  obtain ⟨n, ch, hacc, -⟩ := hown _ _ hi
  obtain ⟨-, i', hi'⟩ := h.right
  obtain ⟨m, ch', hacc', -⟩ := hown _ _ hi'
  have hread : (Function.update R m ((R m).write T ch' val).2 n).read T ch (s.ai k).val =
      (R n).read T ch (s.ai k).val := by
    by_cases hnm : n = m
    · subst hnm
      rw [Function.update_self]
      apply Registers.read_write
      intro reg hreg hreg'
      -- the two would touch one register, and one of them writes
      have hacc : s.accepted T (.ai k) = some (n, ch) := hacc
      have hacc' : s.accepted T (.ao j) = some (n, ch') := hacc'
      rcases h.register with ⟨-, hd⟩ | hne
      · exact nomatch hd
      · exact hne (n, reg) (by simp [touches, hacc, hreg]) (by simp [touches, hacc', hreg'])
    · rw [Function.update_of_ne hnm]
  rw [step_read hacc] at hk ⊢
  rw [step_write hacc'] at hj ⊢
  rw [step_write ((hk.accepted T _).trans hacc'), step_read ((hj.accepted T _).trans hacc)]
  simp only [Ioc.set_ai, Ioc.set_ao, hread]

theorem step_comm_write_write {val val' : Double}
    (h : Independent T s (.write_ao k val) (.write_ao j val')) (R : ℤ → Registers) :
    step T (step T (s, R) (.write_ao k val)) (.write_ao j val') =
      step T (step T (s, R) (.write_ao j val')) (.write_ao k val) := by
  have hkj : k ≠ j := fun hkj => h.record (congrArg Rec.ao hkj)
  have hk := step_same hown h.left R
  have hj := step_same hown h.right R
  obtain ⟨-, i, hi⟩ := h.left
  obtain ⟨n, ch, hacc, -⟩ := hown _ _ hi
  obtain ⟨-, i', hi'⟩ := h.right
  obtain ⟨m, ch', hacc', -⟩ := hown _ _ hi'
  have hfiles : Function.update (Function.update R n ((R n).write T ch val).2) m
        ((Function.update R n ((R n).write T ch val).2 m).write T ch' val').2 =
      Function.update (Function.update R m ((R m).write T ch' val').2) n
        ((Function.update R m ((R m).write T ch' val').2 n).write T ch val).2 := by
    by_cases hnm : n = m
    · subst hnm
      simp only [Function.update_self, Function.update_idem]
      rw [Registers.write_write]
      intro reg hreg hreg'
      have hacc : s.accepted T (.ao k) = some (n, ch) := hacc
      have hacc' : s.accepted T (.ao j) = some (n, ch') := hacc'
      rcases h.register with ⟨hc, -⟩ | hne
      · exact nomatch hc
      · exact hne (n, reg) (by simp [touches, hacc, hreg]) (by simp [touches, hacc', hreg'])
    · rw [Function.update_of_ne hnm, Function.update_of_ne (Ne.symm hnm), Function.update_comm hnm]
  rw [step_write hacc] at hk ⊢
  rw [step_write hacc'] at hj ⊢
  have hstatus : ((Function.update R n ((R n).write T ch val).2 m).write T ch' val').1 =
      ((R m).write T ch' val').1 := Registers.write_status _ _
  have hstatus' : ((Function.update R m ((R m).write T ch' val').2 n).write T ch val).1 =
      ((R n).write T ch val).1 := Registers.write_status _ _
  rw [step_write ((hk.accepted T _).trans hacc'), step_write ((hj.accepted T _).trans hacc), hfiles,
    hstatus, hstatus']
  simp only [Ioc.set_ao, Function.update_of_ne hkj, Function.update_of_ne hkj.symm]
  rw [Function.update_comm hkj]

end Commute

/-- **Independent processings commute.** -/
theorem step_comm {s : Ioc} (hown : OwnEntries T s) {c d : IocCall} (h : Independent T s c d)
    (R : ℤ → Registers) : step T (step T (s, R) c) d = step T (step T (s, R) d) c := by
  rcases c with k | ⟨k, cfg₀⟩ | ⟨k, cfg₀⟩ | ⟨k, val⟩
  · exact nomatch h.left.1
  · exact nomatch h.left.1
  · rcases d with j | ⟨j, cfg₁⟩ | ⟨j, cfg₁⟩ | ⟨j, val'⟩
    · exact nomatch h.right.1
    · exact nomatch h.right.1
    · exact step_comm_read_read hown h R
    · exact step_comm_read_write hown h R
  · rcases d with j | ⟨j, cfg₁⟩ | ⟨j, cfg₁⟩ | ⟨j, val'⟩
    · exact nomatch h.right.1
    · exact nomatch h.right.1
    · exact (step_comm_read_write hown h.symm R).symm
    · exact step_comm_write_write hown h R

/-- **The order of a scan does not matter.**  Where everything succeeds, two runs that come from each other
by exchanging neighbours that are independent end with the same records and the same register files, those
that the steps give. -/
theorem scan_order {s : Ioc} (hown : OwnEntries T s) {cs ds : List IocCall}
    (hcs : ∀ c ∈ cs, Processes s c) (h : Reordered (Independent T s) cs ds) (w : Box) :
    ∃ s' w₁ w₂,
      exec (fun w (o : (BusSig.tag IocCall).Op) => okBox w o.2) (bus_session T cs s) w =
        some (s', w₁) ∧
      exec (fun w (o : (BusSig.tag IocCall).Op) => okBox w o.2) (bus_session T ds s) w =
        some (s', w₂) ∧
      (s', probes w₁) = cs.foldl (step T) (s, probes w) ∧ probes w₂ = probes w₁ := by
  have hds : ∀ c ∈ ds, Processes s c := fun c hc => hcs c (h.perm.mem_iff.mpr hc)
  have hsame : SameDriver s s := ⟨rfl, rfl, rfl⟩
  have hfold : cs.foldl (step T) (s, probes w) = ds.foldl (step T) (s, probes w) := by
    refine h.foldl (I := fun a => SameDriver s a.1) ?_ ?_ hsame
    · rintro ⟨s₁, R⟩ c hc hI
      exact hI.trans (step_same (hown.same hI) ((hcs c hc).same hI) R)
    · rintro ⟨s₁, R⟩ c d hI hcd
      exact step_comm (hown.same hI) (hcd.same hI) R
  obtain ⟨s₁, w₁, hexec₁, hend₁⟩ := run_registers hown hcs w
  obtain ⟨s₂, w₂, hexec₂, hend₂⟩ := run_registers hown hds w
  obtain ⟨rfl, hprobes⟩ := Prod.mk.inj (hend₁.trans (hfold.trans hend₂.symm))
  exact ⟨s₁, w₁, w₂, hexec₁, hexec₂, hend₁, hprobes.symm⟩

/-- The temperature and a threshold of probe 9, and the other threshold of it. -/
def nineIoc : Ioc where
  globals := ⟨0, fun i => if i = 9 then ⟨9, 'S'⟩ else if i = 10 then ⟨10, ' '⟩ else ⟨9, 'L'⟩⟩
  ai k := if k = 0 then { (default : AiRecord) with inp_text := some ['9', 'S'], dpvt := some 9 }
    else { (default : AiRecord) with inp_text := some ['1', '0'], dpvt := some 10 }
  ao _ := { (default : AoRecord) with out_text := some ['9', 'L'], dpvt := some 137 }

/-- A scan that reads the upper threshold of probe 9 before the lower one is written, and another that
does so after it. -/
theorem scan_order_nine :
    let T : Target := ⟨false, fun _ => 0, id⟩
    let cs : List IocCall := [.read_ai 1 0, .read_ai 0 0, .write_ao 0 (.fin 20)]
    let ds : List IocCall := [.write_ao 0 (.fin 20), .read_ai 1 0, .read_ai 0 0]
    ∀ w, ∃ s' w₁ w₂,
      exec (fun w (o : (BusSig.tag IocCall).Op) => okBox w o.2) (bus_session T cs nineIoc) w =
        some (s', w₁) ∧
      exec (fun w (o : (BusSig.tag IocCall).Op) => okBox w o.2) (bus_session T ds nineIoc) w =
        some (s', w₂) ∧
      (s', probes w₁) = cs.foldl (step T) (nineIoc, probes w) ∧ probes w₂ = probes w₁ := by
  intro T cs ds w
  have hown : OwnEntries T nineIoc := by
    rintro (k | k) i hi
    · rcases k with _ | k
      · obtain rfl : i = 9 := (Option.some.inj hi).symm
        exact ⟨9, 'S', rfl, rfl⟩
      · obtain rfl : i = 10 := (Option.some.inj hi).symm
        exact ⟨10, ' ', rfl, rfl⟩
    · obtain rfl : i = 137 := (Option.some.inj hi).symm
      exact ⟨9, 'L', rfl, rfl⟩
  have hcs : ∀ c ∈ cs, Processes nineIoc c := by
    intro c hc
    rcases List.mem_cons.1 hc with rfl | hc
    · exact ⟨rfl, 10, rfl⟩
    rcases List.mem_cons.1 hc with rfl | hc
    · exact ⟨rfl, 9, rfl⟩
    · obtain rfl := List.mem_singleton.1 hc
      exact ⟨rfl, 137, rfl⟩
  have hwrite : Processes nineIoc (.write_ao 0 (.fin 20)) := ⟨rfl, 137, rfl⟩
  have htouch : touches T nineIoc (.write_ao 0 (.fin 20)) = some (9, 2) := rfl
  have h₀ : Independent T nineIoc (.read_ai 0 0) (.write_ao 0 (.fin 20)) := by
    have hread : touches T nineIoc (.read_ai 0 0) = some (9, 3) := rfl
    refine ⟨⟨rfl, 9, rfl⟩, hwrite, nofun, .inr ?_⟩
    rw [hread, htouch]
    simp
  have h₁ : Independent T nineIoc (.read_ai 1 0) (.write_ao 0 (.fin 20)) := by
    have hread : touches T nineIoc (.read_ai 1 0) = some (10, 0) := rfl
    refine ⟨⟨rfl, 10, rfl⟩, hwrite, nofun, .inr ?_⟩
    rw [hread, htouch]
    simp
  have hlast : Reordered (Independent T nineIoc) cs
      [.read_ai 1 0, .write_ao 0 (.fin 20), .read_ai 0 0] :=
    Reordered.swap [IocCall.read_ai 1 0] [] h₀
  have hfirst : Reordered (Independent T nineIoc)
      [.read_ai 1 0, .write_ao 0 (.fin 20), .read_ai 0 0] ds :=
    Reordered.swap [] [IocCall.read_ai 0 0] h₁
  exact scan_order hown hcs (hlast.trans hfirst) w

end RackmonIoc.Temp
