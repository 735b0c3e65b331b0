import RackmonIoc.Temp.Store

/-!
# The letters

What the letter of a text means to `read_ai`, `init_record_ao` and `write_ao`, in a box in which
everything succeeds.  S and Y cannot be written, and H and L can neither be read nor read back.  For the
config byte all three know the letter, but the read-back takes the whole number for the address and does
not select a stub, so that it finds the probe of the number only for number 0 behind the low mux.
-/

namespace RackmonIoc.Temp

open Program CLib Base Driver Bus Prog

variable {T : Target}

/-! ### Executions in a box in which everything succeeds -/

/-- The answers of this box to the operations of the device support. -/
def okDev (T : Target) (w : Box) (o : DevOp) : Option (o.Reply × Box) := exec okBox (expand T o) w

theorem exec_okDev {α : Type} (p : Prog DevSig α) (w : Box) :
    exec okBox (p.interp (expand T)) w = exec (okDev T) p w := exec_interp

/-- The box once the bus descriptor has been set to a slave. -/
def at_slave (w : Box) (slave : ℤ) : Box := { w with slave := slave }

/-- The box after the register `reg` of the device at `slave` has been pointed at. -/
def pointed (w : Box) (slave : ℤ) (reg : UInt8) : Box :=
  (at_slave w slave).setAddressed ((at_slave w slave).addressed.point reg)

theorem pointed_addressed (w : Box) (slave : ℤ) (reg : UInt8) :
    (pointed w slave reg).addressed = (at_slave w slave).addressed.point reg :=
  Box.addressed_setAddressed _ _

theorem okDev_read_temp (w : Box) (fd addr : ℤ) (t : Double) :
    okDev T w (.read_temp_ds75 fd addr t) =
      some (⟨0, (pointed w (0x48 + addr % 8) 0).addressed.temp T 0⟩,
        pointed w (0x48 + addr % 8) 0) := by
  have hrun : okDev T w (.read_temp_ds75 fd addr t) =
      some (⟨0, decode_temp T ((pointed w (0x48 + addr % 8) 0).addressed.output 2)⟩,
        pointed w (0x48 + addr % 8) 0) := rfl
  rw [hrun, pointed_addressed, DS75.point_output (by decide)]
  rfl

theorem okDev_read_config (w : Box) (fd addr : ℤ) (c : UInt8) :
    okDev T w (.access_ds75_details fd addr none none (some c) 'r') =
      some (⟨0, none, none, some (pointed w (0x48 + addr) 1).addressed.config⟩,
        pointed w (0x48 + addr) 1) := by
  have hrun : okDev T w (.access_ds75_details fd addr none none (some c) 'r') =
      some (⟨0, none, none, some (byte ((pointed w (0x48 + addr) 1).addressed.output 1) 0)⟩,
        pointed w (0x48 + addr) 1) := rfl
  rw [hrun, pointed_addressed]
  rfl

/-- The box after the config byte of the device at `slave` has been written. -/
def configured (w : Box) (slave : ℤ) (c : UInt8) : Box :=
  (at_slave w slave).setAddressed ((at_slave w slave).addressed.write [1, c])

theorem okDev_write_config (w : Box) (fd addr : ℤ) (c : UInt8) :
    okDev T w (.access_ds75_details fd addr none none (some c) 'w') =
      some (⟨0, none, none, some c⟩, configured w (0x48 + addr) c) := rfl

/-- The box once the stub has been selected. -/
def selected (w : Box) (istub : ℤ) : Box :=
  ((w.setPin 26 (decide (bit istub 0 ≠ 0))).setPin 46 (decide (bit istub 1 ≠ 0))).setPin 65
    (decide (bit istub 2 ≠ 0))

theorem exec_select_probe {istub : ℤ} (h0 : 0 ≤ istub) (h8 : istub < 8) (w : Box) :
    exec (okDev T) (select_probe istub) w = some (0, selected w istub) := by
  unfold select_probe
  rw [if_neg (by omega)]
  rfl

/-- The box once a processing has selected the stub and the slave of its number. -/
def reached (w : Box) (n : ℤ) : Box := at_slave (selected w (n % 8)) (0x48 + n / 8)

section Reached

variable (w : Box) (n : ℤ)

theorem reached_target : (reached w n).target = probe n := by
  have hmux : mux_holds (selected w (n % 8)).pin (n % 8) := by
    unfold mux_holds selected Box.setPin
    rw [← decide_bit_ne_zero, ← decide_bit_ne_zero, ← decide_bit_ne_zero]
    exact ⟨rfl, rfl, rfl⟩
  have hstub := mux_stub_of_holds (by omega) (by omega) hmux
  unfold probe Box.target
  refine Prod.ext ?_ rfl
  show mux_stub (selected w (n % 8)).pin = (n % 8).toNat
  omega

theorem reached_addressed : (reached w n).addressed = device w n := by
  have htarget := reached_target w n
  show w.device (reached w n).target.1 (reached w n).target.2 = _
  rw [htarget]
  rfl

theorem device_reached (d : DS75) : device ((reached w n).setAddressed d) n = d :=
  if_pos (reached_target w n).symm

theorem device_pointed (reg : UInt8) :
    device (pointed (selected w (n % 8)) (0x48 + n / 8) reg) n = (device w n).point reg := by
  have h : device (pointed (selected w (n % 8)) (0x48 + n / 8) reg) n =
      (reached w n).addressed.point reg := device_reached w n _
  rw [h, reached_addressed]

end Reached

/-- A processing selects the stub of its number and then makes its transfer. -/
theorem exec_dispatch {α β : Type} (n : ℤ) (fail : α) (transfer : Prog DevSig α) (result : α → β)
    (w : Box) :
    exec (okDev T) ((select_probe (n % 8)).bind fun sel =>
      (if sel < 0 then ret fail else transfer).bind fun r => ret (result r)) w =
      (exec (okDev T) transfer (selected w (n % 8))).map fun x => (result x.1, x.2) := by
  rw [exec_bind, exec_select_probe (by omega) (by omega), Option.bind_some, if_neg (lt_irrefl 0),
    exec_bind, Option.map_eq_bind]
  rfl

theorem exec_read_ai {g : Globals} {prec : AiRecord} {n : ℤ} {ch : Char}
    (hp : Entry g prec.toDbCommon n ch) (cfg₀ : UInt8) (w : Box) :
    exec okBox ((read_ai g prec cfg₀).interp (expand T)) w =
      (exec (okDev T) (read_what g.global_fd_i2c (n / 8) ch prec.val cfg₀) (selected w (n % 8))).map
        fun x => (ai_result prec x.1, x.2) := by
  rw [exec_okDev, read_ai_entry hp]
  exact exec_dispatch n _ _ (ai_result prec) w

theorem exec_write_ao {g : Globals} {prec : AoRecord} {n : ℤ} {ch : Char}
    (hp : Entry g prec.toDbCommon n ch) (w : Box) :
    exec okBox ((write_ao T g prec).interp (expand T)) w =
      (exec (okDev T) (write_what T g.global_fd_i2c (n / 8) ch prec.val) (selected w (n % 8))).map
        fun x => (ao_result prec x.1, x.2) := by
  rw [exec_okDev, write_ao_entry T hp]
  exact exec_dispatch n _ _ (ao_result prec) w

/-- The initialisation of an accepted text. -/
theorem exec_init_record_common {g : Globals} {prec : DbCommon} {text : List Char} {n : ℤ}
    {ch : Char} (hacc : accepted T text = some (n, ch)) (w : Box) :
    ∃ fd, exec (okDev T) (init_record_common T g prec (some text)) w =
      some ((0, { g with global_fd_i2c := fd }.store n ch, { prec with dpvt := some (slot n ch) }),
        w) := by
  unfold init_record_common
  by_cases hg : g.global_fd_i2c < 0
  · rw [if_pos hg]
    refine ⟨0, ?_⟩
    show exec (okDev T) (init_record_text T { g with global_fd_i2c := 0 } prec (some text)) w = _
    rw [init_record_text_accepted hacc]
    rfl
  · rw [if_neg hg, init_record_text_accepted hacc]
    exact ⟨g.global_fd_i2c, rfl⟩

/-! ### What it means for the tables to agree -/

/-- The content of a register, as a value. -/
def reg_content (T : Target) (reg : UInt8) (d : DS75) : Double :=
  if reg = 1 then .fin d.config.toNat else d.temp T reg

/-- The register holds the bytes that stand for the value. -/
def HoldsValue (T : Target) (reg : UInt8) (val : Double) (d : DS75) : Prop :=
  if reg = 1 then d.config = config_byte T val
  else [(d.reg reg).1, (d.reg reg).2] = encode_temp T val

/-- The private data of the record is that of an accepted text. -/
def Parsed (T : Target) (text : List Char) (g : Globals) (prec : DbCommon) : Prop :=
  ∃ i n ch, prec.dpvt = some i ∧ accepted T text = some (n, ch) ∧ g.private_data i = ⟨n, ch⟩

/-- `read_ai` on a record with the text returns 2 with the content of the register of the probe `n`. -/
def ReadsReg (T : Target) (text : List Char) (n : ℤ) (reg : UInt8) : Prop :=
  ∀ g (prec : AiRecord) cfg₀ w, Parsed T text g prec.toDbCommon → ∃ prec' w',
    exec okBox ((read_ai g prec cfg₀).interp (expand T)) w = some ((2, prec'), w') ∧
      prec'.val = reg_content T reg (device w' n)

/-- `init_record_ao` on a record with the text, with the levels `pin` of the pins, clears UDF, with the
content of the register of the probe `n`. -/
def ReadsBackReg (T : Target) (text : List Char) (n : ℤ) (reg : UInt8) (pin : ℤ → Bool) : Prop :=
  ∀ g (prec : AoRecord) cfg₀ w, prec.out_text = some text → w.pin = pin → ∃ g' prec' w',
    exec okBox ((init_record_ao T g prec cfg₀).interp (expand T)) w = some ((2, g', prec'), w') ∧
      prec'.udf = false ∧ prec'.val = reg_content T reg (device w' n)

/-- `write_ao` of `val` on a record with the text returns 0, and the register of the probe `n` then holds
the value, which `read_ai` on any record with the text brings. -/
def WritesReg (T : Target) (text : List Char) (n : ℤ) (reg : UInt8) (val : Double) : Prop :=
  ∀ g (prec : AoRecord) w, Parsed T text g prec.toDbCommon → prec.val = val → ∃ prec' w',
    exec okBox ((write_ao T g prec).interp (expand T)) w = some ((0, prec'), w') ∧
      HoldsValue T reg val (device w' n) ∧
      ∀ g' (ai : AiRecord) cfg₀, Parsed T text g' ai.toDbCommon → ∃ ai' w'',
        exec okBox ((read_ai g' ai cfg₀).interp (expand T)) w' = some ((2, ai'), w'') ∧
          ai'.val = reg_content T reg (device w' n)

/-- **The tables agree on the text**, where `init_record_ao` finds the levels `pin`: one register of the
probe with the number of the text is what is read, and, but for the temperature, what is read back and
written. -/
def TablesAgree (T : Target) (text : List Char) (val : Double) (pin : ℤ → Bool) : Prop :=
  ∃ reg, ∀ n ch, accepted T text = some (n, ch) →
    ReadsReg T text n reg ∧ (ch ≠ ' ' → ReadsBackReg T text n reg pin ∧ WritesReg T text n reg val)

theorem Parsed.entry {text : List Char} {g : Globals} {prec : DbCommon} {n : ℤ} {ch : Char}
    (h : Parsed T text g prec) (hacc : accepted T text = some (n, ch)) : Entry g prec n ch := by
  obtain ⟨i, m, ch', hi, hacc', hentry⟩ := h
  obtain ⟨rfl, rfl⟩ := Prod.mk.inj (Option.some.inj (hacc.symm.trans hacc'))
  exact ⟨i, hi, hentry, accepted_range hacc⟩

/-! ### The letters that agree -/

section Agree

variable {text : List Char} {n : ℤ} {pin : ℤ → Bool}

theorem reads_temperature (hacc : accepted T text = some (n, ' ')) : ReadsReg T text n 0 := by
  intro g prec cfg₀ w hp
  have hrange := accepted_range hacc
  have hmask : n / 8 % 8 = n / 8 := by omega
  rw [exec_read_ai (hp.entry hacc)]
  unfold read_what
  rw [if_pos rfl]
  simp only [Dev.read_temp_ds75, bind_eq, pure_eq, vis_bind, ret_bind, exec_vis, okDev_read_temp,
    Option.bind_some, exec_ret, Option.map_some, hmask]
  refine ⟨_, _, rfl, ?_⟩
  have haddressed : (pointed (selected w (n % 8)) (0x48 + n / 8) 0).addressed =
      (reached w n).addressed.point 0 := pointed_addressed _ _ _
  rw [device_pointed, ← reached_addressed, ← haddressed]
  rfl

/-- A read of the config byte. -/
theorem exec_read_config (hacc : accepted T text = some (n, 'C')) {g : Globals} {prec : AiRecord}
    (hp : Parsed T text g prec.toDbCommon) (cfg₀ : UInt8) (w : Box) :
    ∃ prec', exec okBox ((read_ai g prec cfg₀).interp (expand T)) w =
        some ((2, prec'), pointed (selected w (n % 8)) (0x48 + n / 8) 1) ∧
      prec'.val = reg_content T 1 (device w n) := by
  have haddressed : (at_slave (selected w (n % 8)) (0x48 + n / 8)).addressed = device w n :=
    reached_addressed w n
  rw [exec_read_ai (hp.entry hacc)]
  unfold read_what read_detail
  rw [if_neg (by decide), if_neg (by decide), if_neg (by decide), if_pos rfl]
  simp only [Dev.access_ds75_details, bind_eq, pure_eq, vis_bind, ret_bind, exec_vis,
    okDev_read_config, Option.bind_some, exec_ret, Option.map_some, pointed_addressed, haddressed]
  exact ⟨_, rfl, rfl⟩

theorem reads_config (hacc : accepted T text = some (n, 'C')) : ReadsReg T text n 1 := by
  intro g prec cfg₀ w hp
  obtain ⟨prec', hexec, hval⟩ := exec_read_config hacc hp cfg₀ w
  refine ⟨prec', _, hexec, ?_⟩
  rw [hval, device_pointed]
  rfl

/-- The read-back of the config byte: it stays behind the stub that the pins choose, and takes the whole
number for the address. -/
theorem exec_read_back_config (hacc : accepted T text = some (n, 'C')) {g : Globals}
    {prec : AoRecord} (htext : prec.out_text = some text) (cfg₀ : UInt8) (w : Box) :
    ∃ g' prec', exec okBox ((init_record_ao T g prec cfg₀).interp (expand T)) w =
        some ((2, g', prec'), pointed w (0x48 + n) 1) ∧
      prec'.udf = false ∧ prec'.val = reg_content T 1 (at_slave w (0x48 + n)).addressed := by
  obtain ⟨fd, hcommon⟩ : ∃ fd, exec (okDev T) (init_record_common T g prec.toDbCommon (some text)) w
      = some ((0, { g with global_fd_i2c := fd }.store n 'C',
        { prec.toDbCommon with dpvt := some (slot n 'C') }), w) := exec_init_record_common hacc w
  rw [exec_okDev]
  unfold init_record_ao
  rw [bind_eq, exec_bind, htext, hcommon, Option.bind_some]
  unfold read_detail
  simp only [private_entry, pure_eq, bind_eq, ret_bind, Globals.store_self, ne_eq,
    not_true_eq_false, if_false, Dev.access_ds75_details, vis_bind]
  rw [if_neg (by decide), if_neg (by decide), if_neg (by decide), if_pos trivial]
  simp only [vis_bind, ret_bind, exec_vis, okDev_read_config, Option.bind_some, pointed_addressed]
  exact ⟨_, _, rfl, rfl, rfl⟩

/-- The device of the read-back is the probe of the number only for number 0 behind the low mux. -/
theorem probe_unsplit (hn : 0 ≤ n) (stub : ℕ) :
    (stub, (0x48 + n : ℤ)) = probe n ↔ n = 0 ∧ stub = 0 := by
  unfold probe
  rw [Prod.mk.injEq]
  omega

theorem reads_back_config (hacc : accepted T text = some (0, 'C')) (hpin : mux_stub pin = 0) :
    ReadsBackReg T text 0 1 pin := by
  intro g prec cfg₀ w htext hw
  obtain ⟨g', prec', hexec, hudf, hval⟩ := exec_read_back_config hacc htext cfg₀ w
  refine ⟨g', prec', _, hexec, hudf, ?_⟩
  have htarget : (at_slave w (0x48 + 0)).target = probe 0 := by
    rw [← (probe_unsplit le_rfl 0).mpr ⟨rfl, rfl⟩, ← hpin, ← hw]
    rfl
  have hdevice : device (pointed w (0x48 + 0) 1) 0 = (at_slave w (0x48 + 0)).addressed.point 1 :=
    if_pos htarget.symm
  rw [hval, hdevice]
  rfl

theorem writes_config (hacc : accepted T text = some (n, 'C')) {val : Double}
    (hrange : ¬ (val < 0 ∨ 255 < val)) : WritesReg T text n 1 val := by
  intro g prec w hp hval
  rw [exec_write_ao (hp.entry hacc), hval]
  unfold write_what
  rw [if_neg (by decide), if_neg (by decide), if_pos rfl, if_neg hrange]
  simp only [Dev.access_ds75_details, bind_eq, pure_eq, vis_bind, ret_bind, exec_vis,
    okDev_write_config, Option.bind_some, exec_ret, Option.map_some]
  refine ⟨_, _, rfl, ?_, ?_⟩
  · have hdevice : device (configured (selected w (n % 8)) (0x48 + n / 8) (config_byte T val)) n =
        (reached w n).addressed.write [1, config_byte T val] := device_reached w n _
    exact congrArg DS75.config hdevice
  · intro g' ai cfg₀ hai
    obtain ⟨ai', hexec, hread⟩ := exec_read_config hacc hai cfg₀
      (configured (selected w (n % 8)) (0x48 + n / 8) (config_byte T val))
    exact ⟨ai', _, hexec, hread⟩

end Agree

/-! ### The law -/

/-- A record that has the private data of an accepted text. -/
theorem parsed_example {text : List Char} {n : ℤ} {ch : Char}
    (hacc : accepted T text = some (n, ch)) (prec : DbCommon) :
    Parsed T text ⟨0, fun _ => ⟨n, ch⟩⟩ { prec with dpvt := some 0 } :=
  ⟨0, n, ch, rfl, hacc, rfl⟩

section Law

variable {text : List Char} {n : ℤ} {ch : Char} {reg : UInt8} {val : Double} {pin : ℤ → Bool}

/-- `read_ai` must know the letter. -/
theorem letter_of_reads (hacc : accepted T text = some (n, ch)) (h : ReadsReg T text n reg) :
    Reads ch := by
  by_contra hno
  let prec : AiRecord := { (default : AiRecord) with dpvt := some 0 }
  let w : Box := ⟨fun _ => false, 0, fun _ _ => ⟨0, 0, fun _ => (0, 0)⟩⟩
  have hp : Parsed T text ⟨0, fun _ => ⟨n, ch⟩⟩ prec.toDbCommon := parsed_example hacc default
  obtain ⟨prec', w', hexec, -⟩ := h _ prec 0 w hp
  rw [exec_read_ai (hp.entry hacc), read_what_of_not hno] at hexec
  have hstatus : ((-1 : ℤ)) = 2 := congrArg (fun x => x.1.1) (Option.some.inj hexec)
  omega

/-- `write_ao` must know the letter, and the value must be in range for the config byte. -/
theorem letter_of_writes (hacc : accepted T text = some (n, ch)) (h : WritesReg T text n reg val) :
    Writes ch val := by
  by_contra hno
  let prec : AoRecord := { (default : AoRecord) with dpvt := some 0, val := val }
  let w : Box := ⟨fun _ => false, 0, fun _ _ => ⟨0, 0, fun _ => (0, 0)⟩⟩
  have hp : Parsed T text ⟨0, fun _ => ⟨n, ch⟩⟩ prec.toDbCommon := parsed_example hacc default
  obtain ⟨prec', w', hexec, -⟩ := h _ prec w hp rfl
  have hwhat : ∀ fd addr, write_what T fd addr ch prec.val = ret 1 := write_what_of_not hno
  rw [exec_write_ao (hp.entry hacc), hwhat] at hexec
  have hstatus : ((-1 : ℤ)) = 0 := congrArg (fun x => x.1.1) (Option.some.inj hexec)
  omega

/-- The registers of a device that holds zeros only. -/
theorem reg_content_zero : reg_content T reg ⟨0, 0, fun _ => (0, 0)⟩ = .fin 0 := by
  have hchar : char_value T 0 = 0 := by
    unfold char_value
    split <;> rfl
  unfold reg_content
  split
  · rfl
  · show Double.fin (char_value T 0 + char_value T 0 / 256) = _
    rw [hchar]
    simp

/-- `init_record_ao` must address the probe of the number. -/
theorem number_of_reads_back (hacc : accepted T text = some (n, 'C'))
    (h : ReadsBackReg T text n reg pin) : n = 0 ∧ mux_stub pin = 0 := by
  rw [← probe_unsplit (accepted_range hacc).1 (mux_stub pin)]
  by_contra hne
  -- the config bytes tell the probe of the number from all others
  let w : Box := ⟨pin, 0, fun i a => ⟨0, if (i, a) = probe n then 0 else 1, fun _ => (0, 0)⟩⟩
  let prec : AoRecord := { (default : AoRecord) with out_text := some text }
  have htext : prec.out_text = some text := rfl
  obtain ⟨g', prec', w', hexec, -, hval⟩ := h ⟨0, fun _ => ⟨0, ' '⟩⟩ prec 0 w htext rfl
  obtain ⟨g'', prec'', hexec', -, hval'⟩ := exec_read_back_config hacc htext 0 w
  have hsame := Option.some.inj (hexec.symm.trans hexec')
  obtain rfl : prec' = prec'' := congrArg (fun x => x.1.2.2) hsame
  obtain rfl : w' = pointed w (0x48 + n) 1 := congrArg Prod.snd hsame
  have hother : (at_slave w (0x48 + n)).addressed.config = 1 := if_neg hne
  have hown : device (pointed w (0x48 + n) 1) n = ⟨0, 0, fun _ => (0, 0)⟩ := by
    have hframe : device (pointed w (0x48 + n) 1) n = device w n :=
      Box.device_setAddressed _ _ fun h => hne h.symm
    rw [hframe]
    show (⟨0, if probe n = probe n then 0 else 1, fun _ => (0, 0)⟩ : DS75) = _
    rw [if_pos rfl]
  rw [hown, reg_content_zero, hval'] at hval
  have hone : (.fin (at_slave w (0x48 + n)).addressed.config.toNat : Double) = .fin 0 := hval
  rw [hother] at hone
  exact Nat.cast_ne_zero.mpr (show (1 : UInt8).toNat ≠ 0 by decide) (Double.fin.inj hone)

/-- **Which texts the tables agree on**: the temperature; and, where the value is in range and
`init_record_ao` finds the pins of the mux low, the config byte of probe 0. -/
theorem tables_agree_iff (hacc : accepted T text = some (n, ch)) (val : Double) (pin : ℤ → Bool) :
    TablesAgree T text val pin ↔
      ch = ' ' ∨ ch = 'C' ∧ ¬ (val < 0 ∨ 255 < val) ∧ n = 0 ∧ mux_stub pin = 0 := by
  constructor
  · rintro ⟨reg, hagree⟩
    obtain ⟨hreads, hrest⟩ := hagree n ch hacc
    by_cases hblank : ch = ' '
    · exact .inl hblank
    · have hread := letter_of_reads hacc hreads
      obtain ⟨hback, hwrites⟩ := hrest hblank
      rcases letter_of_writes hacc hwrites with rfl | rfl | ⟨rfl, hrange⟩
      · exact absurd hread (by unfold Reads; decide)
      · exact absurd hread (by unfold Reads; decide)
      · exact .inr ⟨rfl, hrange, number_of_reads_back hacc hback⟩
  · rintro (rfl | ⟨rfl, hrange, rfl, hpin⟩)
    · refine ⟨0, fun m ch' hacc' => ?_⟩
      obtain ⟨rfl, rfl⟩ := Prod.mk.inj (Option.some.inj (hacc.symm.trans hacc'))
      exact ⟨reads_temperature hacc, fun hne => absurd rfl hne⟩
    · refine ⟨1, fun m ch' hacc' => ?_⟩
      obtain ⟨rfl, rfl⟩ := Prod.mk.inj (Option.some.inj (hacc.symm.trans hacc'))
      exact ⟨reads_config hacc, fun _ => ⟨reads_back_config hacc hpin, writes_config hacc hrange⟩⟩

end Law

/-- With the pins low the tables agree on the text "0 C" and the value 96. -/
theorem tables_agree_config : TablesAgree ⟨false, fun _ => 0, id⟩ ['0', ' ', 'C'] 96 fun _ => false :=
  (tables_agree_iff (show accepted ⟨false, fun _ => 0, id⟩ ['0', ' ', 'C'] = some (0, 'C') by decide)
    96 fun _ => false).mpr (.inr ⟨rfl, by decide, rfl, rfl⟩)

/-- They do not agree on the text "0 H": it is accepted and written, but never read. -/
theorem not_tables_agree_high :
    ¬ TablesAgree ⟨false, fun _ => 0, id⟩ ['0', ' ', 'H'] 50 fun _ => false := by
  have hacc : accepted ⟨false, fun _ => 0, id⟩ ['0', ' ', 'H'] = some (0, 'H') := by decide
  rintro ⟨reg, hagree⟩
  exact absurd (letter_of_reads hacc (hagree 0 'H' hacc).1) (by unfold Reads; decide)

end RackmonIoc.Temp
