import RackmonIoc.Bus.Store

/-!
# Decoding temperatures

A thermometer keeps a temperature as a 16-bit two's complement word in units of 1/256 degree and sends
its high byte first.  The driver puts the two bytes together as `buf[0] + buf[1]/256.0` with a plain
`char buf[4]`: right where the high byte is signed and the low byte is not.

* `wordRegister` is what the device holds, and `thermometer` how it answers;
* `Site` are the six places where the driver reads a temperature, and `stored_iff` says what they store;
* `decode_word_iff` says for which words that is the temperature.
-/

namespace RackmonIoc.Temp

open Program CLib Driver Bus Prog

/-! ### Words and bytes -/

/-- The register for the temperature `t` at a resolution of `r` bits: `floor(256*t)` with its low
`16-r` bits cleared. -/
def wordRegister (r : ℕ) (t : ℚ) : ℤ := ⌊256 * t⌋ / 2 ^ (16 - r) * 2 ^ (16 - r)

/-- The bytes of a word, high byte first. -/
def wordBytes (R : ℤ) : List UInt8 := [UInt8.ofInt (R / 256), UInt8.ofInt R]

section Words

variable {r : ℕ} {t t' : ℚ}

/-- The four resolutions. -/
theorem wordRegister_cases (h : 9 ≤ r ∧ r ≤ 12) (t : ℚ) :
    wordRegister r t = ⌊256 * t⌋ / 128 * 128 ∨ wordRegister r t = ⌊256 * t⌋ / 64 * 64 ∨
      wordRegister r t = ⌊256 * t⌋ / 32 * 32 ∨ wordRegister r t = ⌊256 * t⌋ / 16 * 16 := by
  have hr : r = 9 ∨ r = 10 ∨ r = 11 ∨ r = 12 := by omega
  rcases hr with rfl | rfl | rfl | rfl
  · exact .inl rfl
  · exact .inr (.inl rfl)
  · exact .inr (.inr (.inl rfl))
  · exact .inr (.inr (.inr rfl))

theorem wordRegister_mono (r : ℕ) (h : t ≤ t') : wordRegister r t ≤ wordRegister r t' := by
  have hfloor : ⌊256 * t⌋ ≤ ⌊256 * t'⌋ := Int.floor_le_floor (by linarith)
  have hdiv : ⌊256 * t⌋ / 2 ^ (16 - r) ≤ ⌊256 * t'⌋ / 2 ^ (16 - r) :=
    Int.ediv_le_ediv (by positivity) hfloor
  exact Int.mul_le_mul_of_nonneg_right hdiv (by positivity)

theorem wordRegister_range (hr : 9 ≤ r ∧ r ≤ 12) (h : -55 ≤ t) (h' : t ≤ 125) :
    -14080 ≤ wordRegister r t ∧ wordRegister r t ≤ 32000 := by
  have hlow : -14080 ≤ ⌊256 * t⌋ := Int.le_floor.mpr (by push_cast; linarith)
  have hhigh : ⌊256 * t⌋ < 32001 := Int.floor_lt.mpr (by push_cast; linarith)
  have hcases := wordRegister_cases hr t
  omega

theorem wordRegister_nonneg (hr : 9 ≤ r ∧ r ≤ 12) : 0 ≤ wordRegister r t ↔ 0 ≤ t := by
  have hfloor : 0 ≤ ⌊256 * t⌋ ↔ 0 ≤ t := by
    rw [Int.floor_nonneg]
    constructor <;> intro h <;> linarith
  have hcases := wordRegister_cases hr t
  rw [← hfloor]
  omega

/-- The top bit of the low byte is the half degree. -/
theorem wordRegister_low (hr : 9 ≤ r ∧ r ≤ 12) :
    wordRegister r t % 256 < 128 ↔ Int.fract t < 1 / 2 := by
  have hsplit : ⌊256 * t⌋ = 256 * ⌊t⌋ + ⌊256 * Int.fract t⌋ := by
    have ht : 256 * t = 256 * Int.fract t + ((256 * ⌊t⌋ : ℤ) : ℚ) := by
      push_cast
      linarith [Int.floor_add_fract t]
    rw [ht, Int.floor_add_intCast]
    ring
  have hlow : 0 ≤ ⌊256 * Int.fract t⌋ :=
    Int.floor_nonneg.mpr (mul_nonneg (by norm_num) (Int.fract_nonneg t))
  have hhigh : ⌊256 * Int.fract t⌋ < 256 :=
    Int.floor_lt.mpr (by push_cast; linarith [Int.fract_lt_one t])
  have hhalf : ⌊256 * Int.fract t⌋ < 128 ↔ Int.fract t < 1 / 2 := by
    rw [Int.floor_lt]
    push_cast
    constructor <;> intro h <;> linarith
  have hcases := wordRegister_cases hr t
  rw [← hhalf]
  omega

end Words

/-! ### Putting the bytes together -/

theorem ofInt_toInt8 (i : ℤ) : (UInt8.ofInt i).toInt8.toInt = (i + 128) % 256 - 128 := by
  have hnat := ofInt_toNat i
  have hbmod : (UInt8.ofInt i).toInt8.toInt = (((UInt8.ofInt i).toNat : ℕ) : ℤ).bmod 256 :=
    BitVec.toInt_eq_toNat_bmod _
  rw [hbmod, hnat, Int.bmod_def]
  split <;> omega

theorem decode_wordBytes (T : Target) (R : ℤ) : decode_temp T (wordBytes R) =
    .fin (char_value T (UInt8.ofInt (R / 256)) + char_value T (UInt8.ofInt R) / 256) := rfl

/-- **The decoding of a word** is right for the words that are not negative where plain `char` is
unsigned, and for those whose low byte is below 128 where it is signed. -/
theorem decode_word_iff (T : Target) {R : ℤ} (h : -32768 ≤ R) (h' : R < 32768) :
    decode_temp T (wordBytes R) = .fin (R / 256) ↔
      if T.char_signed then R % 256 < 128 else 0 ≤ R := by
  have hint : decode_temp T (wordBytes R) = .fin (R / 256) ↔
      256 * char_value T (UInt8.ofInt (R / 256)) + char_value T (UInt8.ofInt R) = R := by
    rw [decode_wordBytes, Double.fin.injEq, ← @Int.cast_inj ℚ]
    push_cast
    constructor <;> intro h <;> linarith
  rw [hint]
  unfold char_value
  cases T.char_signed with
  | true =>
    simp only [if_true, ofInt_toInt8]
    omega
  | false =>
    simp only [Bool.false_eq_true, if_false, ofInt_toNat]
    omega

/-! ### The thermometer -/

/-- A thermometer whose register `reg` holds the word `R`.  The world is the register that the device
points to: the first byte of the last complete write.  A short transfer leaves the device anywhere, and
the other registers hold anything. -/
def thermometer (reg : UInt8) (R : ℤ) : Env BusSig UInt8 := fun p o r p' =>
  match o, r with
  | .write _ buf, r => r ≤ (buf.length : ℤ) ∧ (r = buf.length → p' = buf.headD p)
  | .read _ n, r => r.status ≤ n ∧
      (r.status = n → p' = p ∧ (p = reg → n = 2 → r.data = wordBytes R))
  | _, _ => p' = p

section Reads

variable {T : Target} {fd : ℤ} {reg : UInt8} {R : ℤ} {α β : Type} {φ : α → Prop}

/-- Every result satisfies `φ`, wherever the device points at the start. -/
abbrev Stores (reg : UInt8) (R : ℤ) (φ : α → Prop) (p : Prog BusSig α) : Prop :=
  ∀ v, p.wp (thermometer reg R) (fun _ _ => True) (fun a _ => φ a) v

theorem stores_true {p : Prog BusSig α} : Stores reg R (fun _ => True) p := fun _ => wp_true

theorem stores_vis {o : BusOp} {k : o.Reply → Prog BusSig α} (h : ∀ r, Stores reg R φ (k r)) :
    Stores (α := α) reg R φ (.vis (S := BusSig) o k) :=
  fun _ => ⟨trivial, fun r v' _ => h r v'⟩

theorem stores_bind {ψ : β → Prop} {p : Prog BusSig β} {f : β → Prog BusSig α}
    (hp : Stores reg R ψ p) (hf : ∀ b, ψ b → Stores reg R φ (f b)) : Stores reg R φ (p.bind f) :=
  fun v => wp_bind.mpr (wp_conseq (hp v) fun b v' hb => hf b hb v')

theorem stores_ite {c : Prop} [Decidable c] {p q : Prog BusSig α} (hp : c → Stores reg R φ p)
    (hq : ¬ c → Stores reg R φ q) : Stores reg R φ (if c then p else q) :=
  fun v => wp_ite.mpr ⟨fun h => hp h v, fun h => hq h v⟩

theorem stores_section {body : Prog BusSig α} (h : Stores reg R φ body) :
    Stores reg R φ (protected_section body) := by
  have hunlock : ∀ a, φ a → Stores reg R φ (mutex_unlock.bind fun _ => .ret a) :=
    fun a ha _ => ⟨trivial, fun _ _ _ => ha⟩
  show Stores reg R φ (.vis (S := BusSig) .mutex_lock fun _ => body.bind fun a =>
    mutex_unlock.bind fun _ => .ret a)
  exact stores_vis fun _ => stores_bind h hunlock

/-- A complete pointer write and a complete read bring the word. -/
theorem thermometer_read {v v₁ v₂ : UInt8} {status : ℤ} {rd : ReadReply}
    (hw : thermometer reg R v (.write fd [reg]) status v₁)
    (hr : thermometer reg R v₁ (.read fd 2) rd v₂) (h : status = 1) (h' : rd.status = 2) :
    rd.data = wordBytes R := by
  have hpoint : v₁ = reg := hw.2 h
  exact (hr.2 h').2 hpoint rfl

/-- A read of the details: if it has not failed, what it brings satisfies `ψ`. -/
def Checked (reg : UInt8) (R : ℤ) (ψ : β → Prop) (p : Prog BusSig (Bool × β)) : Prop :=
  Stores reg R (fun a => a.1 = true → ψ a.2) p

theorem checked_read_threshold (t : Double) :
    Checked reg R (fun x => x = some (decode_temp T (wordBytes R)))
      (read_threshold T fd reg (some t)) := by
  intro v
  refine ⟨trivial, fun status v₁ hw => ⟨trivial, fun rd v₂ hr => ?_⟩⟩
  show wp _ _ _ (if status + rd.status ≠ 3 then _ else _) _
  rw [wp_ite]
  constructor
  · exact fun _ => nofun
  · intro hsum _
    -- neither transfer moves more than its bytes
    have hle : (status : ℤ) ≤ 1 := hw.1
    have hle' : rd.status ≤ 2 := hr.1
    have hthree : (status : ℤ) + rd.status = 3 := not_not.mp hsum
    obtain ⟨hone, htwo⟩ := both_complete (m := 1) (n := 2) hthree hle hle'
    show some (decode_temp T rd.data) = _
    rw [thermometer_read hw hr hone htwo]

/-- The end of the two temperature reads. -/
theorem stores_read_temp (t : Double) : Stores reg R
    (fun a => a.status = 0 → a.T_degC = decode_temp T (wordBytes R)) (do
      let status ← write fd [reg]
      if status ≠ 1 then return ⟨-1, t⟩ else
      let rd ← read fd 2
      if rd.status ≠ 2 then return ⟨-1, t⟩ else
      return (⟨0, decode_temp T rd.data⟩ : TempReply)) := by
  intro v
  refine ⟨trivial, fun status v₁ hw => ?_⟩
  show wp _ _ _ (if status ≠ 1 then _ else _) _
  rw [wp_ite]
  refine ⟨fun _ => nofun, fun hone => ⟨trivial, fun rd v₂ hr => ?_⟩⟩
  show wp _ _ _ (if rd.status ≠ 2 then _ else _) _
  rw [wp_ite]
  refine ⟨fun _ => nofun, fun htwo _ => ?_⟩
  show decode_temp T rd.data = _
  rw [thermometer_read hw hr (not_not.mp hone) (not_not.mp htwo)]

/-- A read of the details that has failed ends the access. -/
theorem stores_checked {ψ : β → Prop} {p : Prog BusSig (Bool × β)} {f : Bool × β → Prog BusSig α}
    (hp : Checked reg R ψ p) (hbad : ∀ x, Stores reg R φ (f (false, x)))
    (hok : ∀ x, ψ x → Stores reg R φ (f (true, x))) : Stores reg R φ (p.bind f) := by
  apply stores_bind hp
  rintro ⟨ok, x⟩ hx
  cases ok with
  | false => exact hbad x
  | true => exact hok x (hx rfl)

/-- A read of another register. -/
theorem checked_other (p : Prog BusSig (Bool × β)) : Checked reg R (fun _ => True) p :=
  fun v => wp_conseq (stores_true v) fun _ _ _ _ => trivial

/-- The first threshold of an access to the details. -/
theorem stores_details_first (base addr : ℤ) (r₂ rc : UInt8) (t : Double) (other : Option Double)
    (cfg : Option UInt8) {mode : Char} (hmode : mode ≠ 'w') : Stores reg R
    (fun a => a.status = 0 → a.T_OS = some (decode_temp T (wordBytes R)))
    (access_details T base reg r₂ rc fd addr (some t) other cfg mode) := by
  refine stores_section (stores_vis fun status => stores_ite (fun hneg _ => ?_) fun _ => ?_)
  · exact fun hs => absurd hs (ne_of_lt hneg)
  refine stores_ite (fun hw => absurd hw hmode) fun _ => ?_
  apply stores_checked (checked_read_threshold t)
  · exact fun _ _ => nofun
  rintro _ rfl
  apply stores_checked (checked_other _)
  · exact fun _ _ => nofun
  intro _ _
  apply stores_checked (checked_other _)
  · exact fun _ _ => nofun
  exact fun _ _ _ _ => rfl

/-- The second one, after the first has been read or not. -/
theorem stores_details_second (base addr : ℤ) (r₁ rc : UInt8) (t : Double) (other : Option Double)
    (cfg : Option UInt8) {mode : Char} (hmode : mode ≠ 'w') : Stores reg R
    (fun a => a.status = 0 → a.T_HYST = some (decode_temp T (wordBytes R)))
    (access_details T base r₁ reg rc fd addr other (some t) cfg mode) := by
  refine stores_section (stores_vis fun status => stores_ite (fun hneg _ => ?_) fun _ => ?_)
  · exact fun hs => absurd hs (ne_of_lt hneg)
  refine stores_ite (fun hw => absurd hw hmode) fun _ => ?_
  apply stores_checked (checked_other _)
  · exact fun _ _ => nofun
  intro _ _
  apply stores_checked (checked_read_threshold t)
  · exact fun _ _ => nofun
  rintro _ rfl
  apply stores_checked (checked_other _)
  · exact fun _ _ => nofun
  exact fun _ _ _ _ => rfl

end Reads

/-! ### The six places -/

/-- A place where the driver reads a temperature. -/
inductive Site where
  | read_temp_ds75
  | T_OS
  | T_HYST
  | read_temp_ds1621
  | TH
  | TL

/-- The arguments of a call, apart from the destination of the temperature: the other threshold, the
config byte and the mode are those of the two `access_..._details`. -/
structure ReadArgs where
  fd : ℤ
  addr : ℤ
  dest : Double
  other : Option Double
  cfg : Option UInt8
  mode : Char

namespace Site

/-- The register the temperature is read from. -/
def reg : Site → UInt8
  | read_temp_ds75 => 0x00
  | T_OS => 3
  | T_HYST => 2
  | read_temp_ds1621 => 0xaa
  | TH => 0xa1
  | TL => 0xa2

/-- The call: its status, and the destination after it. -/
def prog (T : Target) (a : ReadArgs) : Site → Prog BusSig (ℤ × Option Double)
  | read_temp_ds75 => do
    let r ← Driver.read_temp_ds75 T a.fd a.addr a.dest
    return (r.status, some r.T_degC)
  | T_OS => do
    let r ← access_ds75_details T a.fd a.addr (some a.dest) a.other a.cfg a.mode
    return (r.status, r.T_OS)
  | T_HYST => do
    let r ← access_ds75_details T a.fd a.addr a.other (some a.dest) a.cfg a.mode
    return (r.status, r.T_HYST)
  | read_temp_ds1621 => do
    let r ← Driver.read_temp_ds1621 T a.fd a.addr a.dest
    return (r.status, some r.T_degC)
  | TH => do
    let r ← access_ds1621_details T a.fd a.addr (some a.dest) a.other a.cfg a.mode
    return (r.status, r.T_OS)
  | TL => do
    let r ← access_ds1621_details T a.fd a.addr a.other (some a.dest) a.cfg a.mode
    return (r.status, r.T_HYST)

/-- A successful read of a register that holds the word `R` can store `v`. -/
def Stored (T : Target) (s : Site) (R : ℤ) (v : Double) : Prop :=
  ∃ a p p', a.mode ≠ 'w' ∧ Returns (thermometer s.reg R) (s.prog T a) p (0, some v) p'

theorem stores_prog (T : Target) (R : ℤ) {a : ReadArgs} (hmode : a.mode ≠ 'w') (s : Site) :
    Stores s.reg R (fun x => x.1 = 0 → x.2 = some (decode_temp T (wordBytes R))) (s.prog T a) := by
  cases s with
  | read_temp_ds75 =>
    refine stores_bind (stores_section (stores_vis fun status => stores_ite (fun hneg v => ?_)
      fun _ => stores_read_temp a.dest)) fun r hr _ h => congrArg some (hr h)
    exact fun hs => absurd hs (ne_of_lt hneg)
  | T_OS =>
    exact stores_bind (stores_details_first _ _ _ _ _ _ _ hmode) fun r hr _ h => hr h
  | T_HYST =>
    exact stores_bind (stores_details_second _ _ _ _ _ _ _ hmode) fun r hr _ h => hr h
  | read_temp_ds1621 =>
    refine stores_bind (stores_section (stores_vis fun status => stores_ite (fun hneg v => ?_)
      fun _ => stores_vis fun conv => stores_ite (fun _ v => ?_)
      fun _ => stores_read_temp a.dest)) fun r hr _ h => congrArg some (hr h)
    · exact fun hs => absurd hs (ne_of_lt hneg)
    · exact nofun
  | TH =>
    exact stores_bind (stores_details_first _ _ _ _ _ _ _ hmode) fun r hr _ h => hr h
  | TL =>
    exact stores_bind (stores_details_second _ _ _ _ _ _ _ hmode) fun r hr _ h => hr h

/-- The thermometer when every transfer is complete. -/
def answer (R : ℤ) (p : UInt8) : (o : BusOp) → Option (o.Reply × UInt8)
  | .mutex_lock | .mutex_unlock | .nanosleep => some ((), p)
  | .ioctl _ _ => some ((0 : ℤ), p)
  | .write _ buf => some ((buf.length : ℤ), buf.headD p)
  | .read _ n => some (⟨n, wordBytes R⟩, p)
  | _ => none

theorem answer_thermometer (reg : UInt8) (R : ℤ) (p : UInt8) (o : BusOp) (r : o.Reply) (p' : UInt8)
    (h : answer R p o = some (r, p')) : thermometer reg R p o r p' := by
  cases o <;> simp only [answer, Option.some.injEq, Prod.mk.injEq, reduceCtorEq] at h
  case write fd buf =>
    obtain ⟨rfl, rfl⟩ := h
    exact ⟨le_refl _, fun _ => rfl⟩
  case read fd n =>
    obtain ⟨rfl, rfl⟩ := h
    exact ⟨le_refl _, fun _ => ⟨rfl, fun _ _ => rfl⟩⟩
  all_goals exact h.2.symm

/-- **What a successful read stores** is the decoding of the word, at each of the six places. -/
theorem stored_iff {T : Target} {s : Site} {R : ℤ} {v : Double} :
    s.Stored T R v ↔ v = decode_temp T (wordBytes R) := by
  constructor
  · rintro ⟨a, p, p', hmode, hr⟩
    have h := wp_returns (stores_prog T R hmode s p) hr
    exact Option.some.inj (h rfl)
  · rintro rfl
    have hexec : ∃ p', exec (answer R) (s.prog T ⟨3, 0, 0, none, none, 'r'⟩) 0 =
        some ((0, some (decode_temp T (wordBytes R))), p') := by
      cases s <;> exact ⟨_, rfl⟩
    obtain ⟨p', he⟩ := hexec
    exact ⟨_, 0, p', by decide, returns_of_exec (answer_thermometer s.reg R) he⟩

end Site

/-! ### Faithful decoding -/

/-- The temperatures that the target decodes: with an unsigned plain `char` those that are not below
zero, with a signed one those less than half a degree above a whole degree. -/
def Decodes (T : Target) (t : ℚ) : Prop :=
  if T.char_signed then Int.fract t < 1 / 2 else 0 ≤ t

theorem decode_register_iff (T : Target) {r : ℕ} {t : ℚ} (hr : 9 ≤ r ∧ r ≤ 12) (h : -55 ≤ t)
    (h' : t ≤ 125) :
    decode_temp T (wordBytes (wordRegister r t)) = .fin (wordRegister r t / 256) ↔ Decodes T t := by
  have hrange := wordRegister_range hr h h'
  rw [decode_word_iff T (by omega) (by omega), wordRegister_low hr, wordRegister_nonneg hr]
  rfl

/-- **When the decoding of temperatures is faithful**, at every place and every resolution; and then
it keeps their order. -/
theorem decoding_faithful_iff (T : Target) {r : ℕ} (hr : 9 ≤ r ∧ r ≤ 12) :
    (∀ (s : Site) (t : ℚ), -55 ≤ t → t ≤ 125 →
      ((∀ v, s.Stored T (wordRegister r t) v → v = .fin (wordRegister r t / 256)) ↔ Decodes T t)) ∧
    ∀ (s s' : Site) (t t' : ℚ) (v v' : Double), -55 ≤ t → t ≤ t' → t' ≤ 125 → Decodes T t →
      Decodes T t' → s.Stored T (wordRegister r t) v → s'.Stored T (wordRegister r t') v' → v ≤ v' := by
  constructor
  · intro s t h h'
    rw [← decode_register_iff T hr h h']
    constructor
    · intro hall
      exact hall _ (Site.stored_iff.mpr rfl)
    · intro hdec v hv
      rw [Site.stored_iff.mp hv, hdec]
  · intro s s' t t' v v' h htt h' hd hd' hv hv'
    rw [Site.stored_iff.mp hv, Site.stored_iff.mp hv',
      (decode_register_iff T hr h (htt.trans h')).mpr hd,
      (decode_register_iff T hr (h.trans htt) h').mpr hd', Double.fin_le]
    have hmono : ((wordRegister r t : ℤ) : ℚ) ≤ wordRegister r t' := by
      exact_mod_cast wordRegister_mono r htt
    linarith

/-- 25 degrees, at 9 bits. -/
theorem decoding_faithful_nine :
    (∀ (s : Site) (t : ℚ), -55 ≤ t → t ≤ 125 →
      ((∀ v, s.Stored ⟨false, fun _ => 0, id⟩ (wordRegister 9 t) v →
        v = .fin (wordRegister 9 t / 256)) ↔ Decodes ⟨false, fun _ => 0, id⟩ t)) ∧
    ∀ v, Site.read_temp_ds75.Stored ⟨false, fun _ => 0, id⟩ (wordRegister 9 25) v → v = .fin 25 := by
  have hnine := decoding_faithful_iff ⟨false, fun _ => 0, id⟩ (r := 9) (by omega)
  refine ⟨hnine.1, fun v hv => ?_⟩
  have hdecodes : Decodes ⟨false, fun _ => 0, id⟩ 25 := show (0 : ℚ) ≤ 25 by decide +kernel
  have hword : ((wordRegister 9 25 : ℤ) : ℚ) / 256 = 25 := by decide +kernel
  rw [((hnine.1 .read_temp_ds75 25 (by decide +kernel) (by decide +kernel)).mpr hdecodes) v hv, hword]

/-- Ten degrees below zero where plain `char` is unsigned, and half a degree where it is signed. -/
theorem not_decoding_faithful_minus_ten :
    (¬ ∀ v, Site.read_temp_ds75.Stored ⟨false, fun _ => 0, id⟩ (wordRegister 9 (-10)) v →
      v = .fin (wordRegister 9 (-10) / 256)) ∧
    ¬ ∀ v, Site.read_temp_ds75.Stored ⟨true, fun _ => 0, id⟩ (wordRegister 9 (1 / 2)) v →
      v = .fin (wordRegister 9 (1 / 2) / 256) := by
  constructor
  · intro h
    exact absurd (h (.fin 246) (Site.stored_iff.mpr (by decide +kernel))) (by decide +kernel)
  · intro h
    exact absurd (h (.fin (-1 / 2)) (Site.stored_iff.mpr (by decide +kernel))) (by decide +kernel)

end RackmonIoc.Temp
