import RackmonIoc.Bus.Box
import RackmonIoc.Driver.GpioPath

/-!
# The files of the pins

The environment in which the pins are files behind `stdio`.  A stream is fully buffered: `fputc` only
fills the buffer, and the one write to the kernel is made by `fclose`, which reports its failure.  A
write that the kernel refuses leaves the pin as it was.

* `wp_gpio_write` and `wp_select_pins` say what the pins are after a success that is reported;
* `wp_probe_pins` says where the transfers of a call on a probe go, and that there is one if the call
  succeeds.
-/

namespace RackmonIoc.Bus

open Program CLib Driver Gpio Prog

/-! ### The world -/

/-- What happens to the pins and on the bus: a write to the file of a pin, with the level of the pin
before it, the level written and whether the kernel took it; and a transfer, with the stub that the
pins choose. -/
inductive PinEvent where
  | kernel_write (before level ok : Bool)
  | transfer (stub : ℕ)
  deriving DecidableEq

/-- The levels by file name, the open stream with what is in its buffer, and the events so far. -/
structure PinFiles where
  level : List Char → Bool
  stream : List Char
  mode : Char
  buffer : List ℤ
  log : List PinEvent

/-- The level of a pin. -/
def PinFiles.pin (w : PinFiles) (gpio : ℤ) : Bool := w.level (path gpio "value".toList)

/-- The kernel is given the buffer: a '1' at its start is the high level. -/
def PinFiles.flush (w : PinFiles) (ok : Bool) : PinFiles :=
  let level := decide (w.buffer.head? = some 49)
  { w with
    level := if ok then Function.update w.level w.stream level else w.level
    log := w.log ++ [.kernel_write (w.level w.stream) level ok] }

/-- The calls on the file of a pin, with every outcome of `fopen` and of the write to the kernel. -/
def fileEnv : Env FileSig PinFiles := fun w o r w' =>
  match o, r with
  | .fopen fn mode, r => w' = if r then { w with stream := fn, mode := mode, buffer := [] } else w
  | .fputc c, r => r = c ∧ w' = { w with buffer := w.buffer ++ [c] }
  | .fclose, r =>
    if w.mode = 'w' then r = 0 ∧ w' = w.flush true ∨ r = EOF ∧ w' = w.flush false else w' = w
  | .fgetc, _ => w' = w

/-- The operations of `dev_i2c.c` over these files, with every outcome of every step. -/
def pinBus : Env BusSig PinFiles := fun w o r w' =>
  match o, r with
  | .gpio_write gpio state, r => Returns fileEnv (Gpio.gpio_write gpio state) w r w'
  | .write _ _, _ | .read _ _, _ => w' = { w with log := w.log ++ [.transfer (mux_stub w.pin)] }
  | _, _ => w' = w

/-- The operations of the device support over these files. -/
def pinDev (T : Target) : Env DevSig PinFiles := Env.through pinBus (expand T)

/-! ### One pin -/

/-- One write to the file of the pin `gpio` has been made: the pin has the level if the kernel took it,
and no other pin has changed. -/
structure Wrote (w w' : PinFiles) (gpio : ℤ) (level ok : Bool) : Prop where
  log : w'.log = w.log ++ [.kernel_write (w.pin gpio) level ok]
  pin : w'.pin gpio = if ok then level else w.pin gpio
  other : ∀ gpio', 0 ≤ gpio' → gpio' ≠ gpio → w'.pin gpio' = w.pin gpio'

section Pin

variable {gpio state : ℤ} {w w' : PinFiles}

theorem gpio_write_eq (h0 : 0 ≤ gpio) (h999 : gpio ≤ 999) (state : ℤ) :
    Gpio.gpio_write gpio state = .vis (S := FileSig) (.fopen (path gpio "value".toList) 'w') fun f =>
      if !f then ret (-1)
      else .vis (S := FileSig) (.fputc (if state ≠ 0 then 49 else 48)) fun _ =>
        .vis (S := FileSig) (.fputc 10) fun istat => .vis (S := FileSig) .fclose fun _ =>
          if istat ≠ (10 : ℤ) then ret (-1) else ret 0 := by
  have hfits : Fits gpio "value".toList FILENAME_MAX := ⟨h0, h999, by decide⟩
  unfold Gpio.gpio_write
  rw [gpio_get_path_of_fits hfits]
  rfl

/-- A buffer that has been flushed to the file of a pin. -/
theorem flush_wrote (h0 : 0 ≤ gpio) (level ok : Bool)
    (hstream : w'.stream = path gpio "value".toList) (hlevel : w'.level = w.level)
    (hlog : w'.log = w.log) (hbuffer : decide (w'.buffer.head? = some 49) = level) :
    Wrote w (w'.flush ok) gpio level ok := by
  have hflush : (w'.flush ok).level =
      if ok then Function.update w.level (path gpio "value".toList) level else w.level := by
    unfold PinFiles.flush
    simp only [hstream, hlevel, hbuffer]
  refine ⟨?_, ?_, ?_⟩
  · unfold PinFiles.flush
    simp only [hlog, hstream, hlevel, hbuffer]
    rfl
  · unfold PinFiles.pin
    rw [hflush]
    cases ok with
    | false => rfl
    | true => exact Function.update_self _ _ _
  · intro gpio' h0' hne
    have hpath : path gpio' "value".toList ≠ path gpio "value".toList :=
      fun h => hne (path_injective h0' h0 h).1
    unfold PinFiles.pin
    rw [hflush]
    cases ok with
    | false => rfl
    | true => exact Function.update_of_ne hpath _ _

/-- **A `gpio_write` that reports success** has made one write to the kernel, which may have failed. -/
theorem wp_gpio_write (h0 : 0 ≤ gpio) (h999 : gpio ≤ 999) :
    wp fileEnv (fun _ _ => True)
      (fun r w' => 0 ≤ r → ∃ ok, Wrote w w' gpio (decide (state ≠ 0)) ok)
      (Gpio.gpio_write gpio state) w := by
  rw [gpio_write_eq h0 h999]
  refine ⟨trivial, fun (f : Bool) w₁ h₁ => ?_⟩
  cases f with
  | false => exact fun h => absurd h (show ¬ (0 : ℤ) ≤ -1 by omega)
  | true =>
    obtain rfl : w₁ = { w with stream := path gpio "value".toList, mode := 'w', buffer := [] } := h₁
    refine ⟨trivial, fun (c : ℤ) w₂ h₂ => ?_⟩
    obtain ⟨-, rfl⟩ := h₂
    refine ⟨trivial, fun (istat : ℤ) w₃ h₃ => ?_⟩
    obtain ⟨rfl, rfl⟩ := h₃
    refine ⟨trivial, fun (r : ℤ) w₄ h₄ => ?_⟩
    have hflushed : ∀ ok, Wrote w (PinFiles.flush { w with
        stream := path gpio "value".toList
        mode := 'w'
        buffer := [] ++ [if state ≠ 0 then 49 else 48] ++ [10] } ok) gpio (decide (state ≠ 0)) ok := by
      intro ok
      refine flush_wrote h0 _ _ rfl rfl rfl ?_
      simp
    rcases h₄ with ⟨-, rfl⟩ | ⟨-, rfl⟩
    · exact fun _ => ⟨true, hflushed true⟩
    · exact fun _ => ⟨false, hflushed false⟩

end Pin

/-! ### Selecting a stub -/

/-- Every write to the file of a pin was taken by the kernel, or found the pin at the level. -/
def Carried (log : List PinEvent) : Prop :=
  ∀ before level ok, .kernel_write before level ok ∈ log → ok = true ∨ before = level

/-- The three writes of a selection. -/
def selection (w : PinFiles) (istub : ℤ) (ok₀ ok₁ ok₂ : Bool) : List PinEvent :=
  [.kernel_write (w.pin 26) (istub.toNat.testBit 0) ok₀,
    .kernel_write (w.pin 46) (istub.toNat.testBit 1) ok₁,
    .kernel_write (w.pin 65) (istub.toNat.testBit 2) ok₂]

/-- The pins after a selection that has made its three writes. -/
structure Selected (w w' : PinFiles) (istub : ℤ) (ok₀ ok₁ ok₂ : Bool) : Prop where
  log : w'.log = w.log ++ selection w istub ok₀ ok₁ ok₂
  pin26 : w'.pin 26 = if ok₀ then istub.toNat.testBit 0 else w.pin 26
  pin46 : w'.pin 46 = if ok₁ then istub.toNat.testBit 1 else w.pin 46
  pin65 : w'.pin 65 = if ok₂ then istub.toNat.testBit 2 else w.pin 65

/-- **The mux holds the stub** if and only if every write was carried out. -/
theorem Selected.holds_iff {w w' : PinFiles} {istub : ℤ} {ok₀ ok₁ ok₂ : Bool}
    (h : Selected w w' istub ok₀ ok₁ ok₂) :
    mux_holds w'.pin istub ↔ Carried (selection w istub ok₀ ok₁ ok₂) := by
  have hone : ∀ before level ok : Bool,
      (if ok then level else before) = level ↔ ok = true ∨ before = level := by
    intro before level ok
    cases ok <;> simp
  unfold mux_holds
  rw [h.pin26, h.pin46, h.pin65, hone, hone, hone]
  constructor
  · rintro ⟨h26, h46, h65⟩ before level ok hmem
    simp only [selection, List.mem_cons, PinEvent.kernel_write.injEq, List.not_mem_nil,
      or_false] at hmem
    rcases hmem with ⟨rfl, rfl, rfl⟩ | ⟨rfl, rfl, rfl⟩ | ⟨rfl, rfl, rfl⟩
    · exact h26
    · exact h46
    · exact h65
  · intro hcarried
    exact ⟨hcarried _ _ _ (by simp [selection]), hcarried _ _ _ (by simp [selection]),
      hcarried _ _ _ (by simp [selection])⟩

section Select

variable {T : Target}

theorem pinDev_gpio_write {w w' : PinFiles} {gpio state r : ℤ}
    (h : pinDev T w (.gpio_write gpio state) r w') (h0 : 0 ≤ gpio) (h999 : gpio ≤ 999) (hr : 0 ≤ r) :
    ∃ ok, Wrote w w' gpio (decide (state ≠ 0)) ok := by
  obtain ⟨r', w₁, he, hret⟩ := returns_vis.mp h
  obtain ⟨rfl, rfl⟩ := returns_ret.mp hret
  have hrun : Returns fileEnv (Gpio.gpio_write gpio state) w r w' := he
  have hwrote := wp_returns (wp_gpio_write h0 h999) hrun
  exact hwrote hr

/-- **A selection that reports success** has made its three writes. -/
theorem wp_select_pins (istub : ℤ) (w : PinFiles) :
    wp (pinDev T) (fun _ _ => True)
      (fun sel w' => 0 ≤ sel → ∃ ok₀ ok₁ ok₂, Selected w w' istub ok₀ ok₁ ok₂)
      (select_probe istub) w := by
  have hfail : ∀ w', (0 : ℤ) ≤ -1 → ∃ ok₀ ok₁ ok₂, Selected w w' istub ok₀ ok₁ ok₂ :=
    fun _ h => absurd h (by omega)
  have hwrote : ∀ (gpio : ℤ) (i : ℕ) (w₁ w' : PinFiles) (r : ℤ), 0 ≤ gpio → gpio ≤ 999 →
      pinDev T w₁ (.gpio_write gpio (bit istub i)) r w' → 0 ≤ r →
      ∃ ok, Wrote w₁ w' gpio (istub.toNat.testBit i) ok := by
    intro gpio i w₁ w' r h0 h999 he hr
    rw [← decide_bit_ne_zero]
    exact pinDev_gpio_write he h0 h999 hr
  refine wp_select_rule
    (I := fun w₀ => ∃ ok₀, Wrote w w₀ 26 (istub.toNat.testBit 0) ok₀)
    (J := fun w₁ => ∃ w₀ ok₀ ok₁, Wrote w w₀ 26 (istub.toNat.testBit 0) ok₀ ∧
      Wrote w₀ w₁ 46 (istub.toNat.testBit 1) ok₁)
    (fun _ => hfail w) ⟨trivial, fun r w' he => ⟨fun _ => hfail w', fun hr => ?_⟩⟩
    (fun w₀ h₀ => ⟨trivial, fun r w' he => ⟨fun _ => hfail w', fun hr => ?_⟩⟩)
    (fun w₁ h₁ => ⟨trivial, fun r w' he => ⟨fun _ => hfail w', fun hr _ => ?_⟩⟩)
  · exact hwrote 26 0 w w' r (by omega) (by omega) he hr
  · obtain ⟨ok₀, hw₀⟩ := h₀
    obtain ⟨ok₁, hw₁⟩ := hwrote 46 1 w₀ w' r (by omega) (by omega) he hr
    exact ⟨w₀, ok₀, ok₁, hw₀, hw₁⟩
  · obtain ⟨w₀, ok₀, ok₁, hw₀, hw₁⟩ := h₁
    obtain ⟨ok₂, hw₂⟩ := hwrote 65 2 w₁ w' r (by omega) (by omega) he hr
    -- each write finds its own pin as it was before the selection
    have h46 : w₀.pin 46 = w.pin 46 := hw₀.other 46 (by omega) (by omega)
    have h65 : w₁.pin 65 = w.pin 65 :=
      (hw₁.other 65 (by omega) (by omega)).trans (hw₀.other 65 (by omega) (by omega))
    refine ⟨ok₀, ok₁, ok₂, ?_, ?_, ?_, ?_⟩
    · rw [hw₂.log, hw₁.log, hw₀.log, h46, h65]
      simp [selection]
    · rw [hw₂.other 26 (by omega) (by omega), hw₁.other 26 (by omega) (by omega), hw₀.pin]
    · rw [hw₂.other 46 (by omega) (by omega), hw₁.pin, h46]
    · rw [hw₂.pin, h65]

end Select

/-! ### Calls on a probe -/

/-- The events of a call on a probe: transfers to the stub that the pins choose. -/
def Transferred (w w' : PinFiles) (n : ℕ) : Prop :=
  w'.level = w.level ∧ w'.log = w.log ++ List.replicate n (.transfer (mux_stub w.pin))

theorem Transferred.pin {w w' : PinFiles} {n : ℕ} (h : Transferred w w' n) : w'.pin = w.pin := by
  unfold PinFiles.pin
  rw [h.1]

theorem Transferred.same (w : PinFiles) : Transferred w w 0 := ⟨rfl, by simp⟩

theorem Transferred.next {w w' : PinFiles} {n : ℕ} (h : Transferred w w' n) :
    Transferred w { w' with log := w'.log ++ [.transfer (mux_stub w'.pin)] } (n + 1) := by
  refine ⟨h.1, ?_⟩
  show w'.log ++ [.transfer (mux_stub w'.pin)] = _
  rw [h.pin, h.2, List.replicate_succ', List.append_assoc]

/-- The operations after the lock, and the unlock. -/
def Plain : BusOp → Prop
  | .gpio_write _ _ => False
  | _ => True

theorem Transferred.step {w w' w'' : PinFiles} {n : ℕ} {o : BusOp} {r : o.Reply}
    (h : Transferred w w' n) (ho : Plain o) (he : pinBus w' o r w'') :
    ∃ m, n ≤ m ∧ Transferred w w'' m := by
  cases o with
  | gpio_write gpio state => exact ho.elim
  | write fd buf =>
    obtain rfl := he
    exact ⟨n + 1, by omega, h.next⟩
  | read fd m =>
    obtain rfl := he
    exact ⟨n + 1, by omega, h.next⟩
  | _ =>
    obtain rfl := he
    exact ⟨n, le_refl n, h⟩

theorem wp_plain {α : Type} {p : Prog BusSig α} (hp : p.Only Plain) {w w' : PinFiles} {n : ℕ}
    (h : Transferred w w' n) :
    wp pinBus (fun _ _ => True) (fun _ w'' => ∃ m, n ≤ m ∧ Transferred w w'' m) p w' := by
  refine wp_only (I := fun w'' => ∃ m, n ≤ m ∧ Transferred w w'' m) (fun w₁ o ho hI => ?_) hp
    ⟨n, le_refl n, h⟩
  obtain ⟨m, hm, htr⟩ := hI
  refine ⟨trivial, fun r w₂ he => ?_⟩
  obtain ⟨m', hm', htr'⟩ := htr.step ho he
  exact ⟨m', by omega, htr'⟩

theorem SlaveSection.plain {α : Type} {fd slave : ℤ} {p : Prog BusSig α}
    (h : SlaveSection fd slave p) : p.Only Plain := by
  refine h.only trivial trivial trivial fun o ho => ?_
  cases o <;> trivial

/-! ### Something is transferred -/

theorem fileEnv_log_le {w w' : PinFiles} {o : FileOp} {r : o.Reply} (h : fileEnv w o r w') :
    w.log.length ≤ w'.log.length := by
  have hflush : ∀ ok, w.log.length ≤ (w.flush ok).log.length := fun ok => by simp [PinFiles.flush]
  cases o with
  | fopen fn mode =>
    obtain rfl : w' = if r then { w with stream := fn, mode := mode, buffer := [] } else w := h
    split <;> exact le_refl _
  | fgetc =>
    obtain rfl : w' = w := h
    exact le_refl _
  | fputc c =>
    obtain ⟨-, rfl⟩ := h
    exact le_refl _
  | fclose =>
    simp only [fileEnv] at h
    split_ifs at h
    · rcases h with ⟨-, rfl⟩ | ⟨-, rfl⟩
      · exact hflush true
      · exact hflush false
    · obtain rfl := h
      exact le_refl _

theorem pinBus_log_le {w w' : PinFiles} {o : BusOp} {r : o.Reply} (h : pinBus w o r w') :
    w.log.length ≤ w'.log.length := by
  cases o with
  | gpio_write gpio state =>
    have hrun : Returns fileEnv (Gpio.gpio_write gpio state) w r w' := h
    have hlog := wp_returns (wp_stable (I := fun w' => w.log.length ≤ w'.log.length)
      (fun w₁ o r w₂ he hle => hle.trans (fileEnv_log_le he)) (le_refl _)) hrun
    exact hlog
  | write fd buf =>
    obtain rfl := h
    simp
  | read fd n =>
    obtain rfl := h
    simp
  | _ =>
    obtain rfl := h
    exact le_refl _

/-- **A call that is to succeed transfers something**, if its first operation after the `ioctl` is a
transfer. -/
theorem wp_exchange {α : Type} {fd slave : ℤ} {fail : ℤ → α} {buf : List UInt8}
    {k : ℤ → Prog BusSig α} (status : α → ℤ) (hfail : ∀ s, s < 0 → status (fail s) ≠ 0)
    (w : PinFiles) :
    wp pinBus (fun _ _ => True) (fun r w' => status r = 0 → w.log.length < w'.log.length)
      (protected_section (.vis (.ioctl fd slave) fun s =>
        if s < 0 then ret (fail s) else .vis (S := BusSig) (.write fd buf) k)) w := by
  refine ⟨trivial, fun _ w₁ (h₁ : w₁ = w) => ?_⟩
  subst h₁
  refine ⟨trivial, fun (s : ℤ) w₂ (h₂ : w₂ = w₁) => ?_⟩
  subst h₂
  show wp _ _ _ ((if s < 0 then ret (fail s) else .vis (S := BusSig) (.write fd buf) k).bind _) w₂
  rw [ite_bind, wp_ite]
  constructor
  · intro hs
    exact ⟨trivial, fun _ _ _ h0 => absurd h0 (hfail s hs)⟩
  · intro _
    refine ⟨trivial, fun (r : ℤ) w₃ h₃ => ?_⟩
    have hlog : w₂.log.length < w₃.log.length := by
      obtain rfl : w₃ = { w₂ with log := w₂.log ++ [.transfer (mux_stub w₂.pin)] } := h₃
      simp
    have hstable := wp_stable (E := pinBus) (I := fun w' => w₂.log.length < w'.log.length)
      (fun w o r w' he hlt => hlt.trans_le (pinBus_log_le he))
      (p := (k r).bind fun a => mutex_unlock.bind fun _ => ret a) hlog
    exact wp_conseq hstable fun _ _ h _ => h

/-! ### The operations of the device support -/

section Calls

variable {T : Target} {fd addr : ℤ} {w w' : PinFiles}

/-- A run of a call on a probe that transfers something if it succeeds. -/
theorem exchange_of_run {α : Type} {p : Prog BusSig α} {slave : ℤ} {status : α → ℤ} {r : α}
    (hsection : SlaveSection fd slave p)
    (hexchange : wp pinBus (fun _ _ => True)
      (fun r w' => status r = 0 → w.log.length < w'.log.length) p w)
    (hrun : Returns pinBus p w r w') : ∃ m, Transferred w w' m ∧ (status r = 0 → 0 < m) := by
  obtain ⟨m, -, htr⟩ := wp_returns (wp_plain hsection.plain (Transferred.same w)) hrun
  refine ⟨m, htr, fun h0 => ?_⟩
  have hlt : w.log.length < w'.log.length := wp_returns hexchange hrun h0
  rw [htr.2, List.length_append, List.length_replicate] at hlt
  omega

theorem temp_exchange {t : Double} {r : TempReply}
    (h : pinDev T w (.read_temp_ds75 fd addr t) r w') :
    ∃ m, Transferred w w' m ∧ (r.status = 0 → 0 < m) :=
  exchange_of_run (read_temp_ds75_section T fd addr t)
    (wp_exchange TempReply.status (fun _ hs => hs.ne) w) h

/-- An access to the details of a thermometer that is asked for something. -/
theorem details_exchange {a b : Option Double} {c : Option UInt8} {mode : Char} {r : Details}
    (hmode : mode = 'r' ∨ mode = 'w') (hask : a ≠ none ∨ b ≠ none ∨ c ≠ none)
    (h : pinDev T w (.access_ds75_details fd addr a b c mode) r w') :
    ∃ m, Transferred w w' m ∧ (r.status = 0 → 0 < m) := by
  have hexchange : wp pinBus (fun _ _ => True)
      (fun (r : Details) w' => r.status = 0 → w.log.length < w'.log.length)
      (access_ds75_details T fd addr a b c mode) w := by
    rcases a with _ | a
    · rcases b with _ | b
      · rcases c with _ | c
        · simp at hask
        · rcases hmode with rfl | rfl
          · exact wp_exchange Details.status (fun _ hs => hs.ne) w
          · exact wp_exchange Details.status (fun _ hs => hs.ne) w
      · rcases hmode with rfl | rfl
        · exact wp_exchange Details.status (fun _ hs => hs.ne) w
        · exact wp_exchange Details.status (fun _ hs => hs.ne) w
    · rcases hmode with rfl | rfl
      · exact wp_exchange Details.status (fun _ hs => hs.ne) w
      · exact wp_exchange Details.status (fun _ hs => hs.ne) w
  exact exchange_of_run (access_details_section T _ _ _ _ fd addr a b c mode) hexchange h

/-- **A read of an ai record** transfers something if it succeeds. -/
theorem wp_read_what_pins (what : Char) (val : Double) (cfg₀ : UInt8) (w : PinFiles) :
    wp (pinDev T) (fun _ _ => True)
      (fun r w' => ∃ m, Transferred w w' m ∧ (r.1 = 0 → 0 < m))
      (read_what fd addr what val cfg₀) w := by
  unfold read_what read_detail
  rw [wp_ite]
  refine ⟨fun _ => ⟨trivial, fun r w' he => temp_exchange he⟩, fun _ => ?_⟩
  rw [wp_ite]
  refine ⟨fun _ => ⟨trivial, fun r w' he => ?_⟩, fun _ => ?_⟩
  · exact details_exchange (.inl rfl) (by simp) he
  rw [wp_ite]
  refine ⟨fun _ => ⟨trivial, fun r w' he => ?_⟩, fun _ => ?_⟩
  · exact details_exchange (.inl rfl) (by simp) he
  rw [wp_ite]
  refine ⟨fun _ => ⟨trivial, fun r w' he => ?_⟩, fun _ => ?_⟩
  · exact details_exchange (.inl rfl) (by simp) he
  · exact ⟨0, Transferred.same w, fun h => absurd h (show ¬ (1 : ℤ) = 0 by omega)⟩

/-- **A write of an ao record** transfers something if it succeeds. -/
theorem wp_write_what_pins (what : Char) (val : Double) (w : PinFiles) :
    wp (pinDev T) (fun _ _ => True)
      (fun ierr w' => ∃ m, Transferred w w' m ∧ (ierr = 0 → 0 < m))
      (write_what T fd addr what val) w := by
  have hrefused : ∃ m, Transferred w w m ∧ ((1 : ℤ) = 0 → 0 < m) :=
    ⟨0, Transferred.same w, fun h => absurd h (by omega)⟩
  unfold write_what
  rw [wp_ite]
  refine ⟨fun _ => ⟨trivial, fun r w' he => ?_⟩, fun _ => ?_⟩
  · exact details_exchange (.inr rfl) (by simp) he
  rw [wp_ite]
  refine ⟨fun _ => ⟨trivial, fun r w' he => ?_⟩, fun _ => ?_⟩
  · exact details_exchange (.inr rfl) (by simp) he
  rw [wp_ite]
  refine ⟨fun _ => ?_, fun _ => hrefused⟩
  rw [wp_ite]
  refine ⟨fun _ => hrefused, fun _ => ⟨trivial, fun r w' he => ?_⟩⟩
  exact details_exchange (.inr rfl) (by simp) he

end Calls

/-! ### Executions -/

/-- The answers of files that can be opened, where the kernel takes a write if `ok`. -/
def fileAnswers (ok : Bool) (w : PinFiles) : (o : FileOp) → Option (o.Reply × PinFiles)
  | .fopen fn mode => some (true, { w with stream := fn, mode := mode, buffer := [] })
  | .fputc c => some (c, { w with buffer := w.buffer ++ [c] })
  | .fclose =>
    if w.mode = 'w' then some (if ok then 0 else EOF, w.flush ok) else some ((0 : ℤ), w)
  | .fgetc => some (EOF, w)

/-- The answers of a bus on which everything succeeds, over these files. -/
def pinAnswers (ok : Bool) (w : PinFiles) : (o : BusOp) → Option (o.Reply × PinFiles)
  | .gpio_write gpio state => exec (fileAnswers ok) (Gpio.gpio_write gpio state) w
  | .write _ buf =>
    some ((buf.length : ℤ), { w with log := w.log ++ [.transfer (mux_stub w.pin)] })
  | .read _ n =>
    some (⟨n, List.replicate n 0⟩, { w with log := w.log ++ [.transfer (mux_stub w.pin)] })
  | .mutex_lock | .mutex_unlock | .nanosleep => some ((), w)
  | .printf _ _ _ | .recGblRecordError _ _ | .errlogPrintf _ => some ((), w)
  | .ioctl _ _ | .open_i2c_bus _ | .gpio_read _ => some ((0 : ℤ), w)
  | .fault _ => none

theorem fileEnv_of_answers (ok : Bool) (w : PinFiles) (o : FileOp) (r : o.Reply) (w' : PinFiles)
    (h : fileAnswers ok w o = some (r, w')) : fileEnv w o r w' := by
  cases o with
  | fclose =>
    simp only [fileAnswers] at h
    simp only [fileEnv]
    by_cases hmode : w.mode = 'w'
    · rw [if_pos hmode] at h ⊢
      obtain ⟨rfl, rfl⟩ := Prod.mk.inj (Option.some.inj h)
      cases ok with
      | false => exact .inr ⟨rfl, rfl⟩
      | true => exact .inl ⟨rfl, rfl⟩
    · rw [if_neg hmode] at h ⊢
      exact (Prod.mk.inj (Option.some.inj h)).2.symm
  | fputc c =>
    obtain ⟨rfl, rfl⟩ := Prod.mk.inj (Option.some.inj h)
    exact ⟨rfl, rfl⟩
  | _ =>
    obtain ⟨rfl, rfl⟩ := Prod.mk.inj (Option.some.inj h)
    rfl

theorem pinBus_of_answers (ok : Bool) (w : PinFiles) (o : BusOp) (r : o.Reply) (w' : PinFiles)
    (h : pinAnswers ok w o = some (r, w')) : pinBus w o r w' := by
  cases o with
  | fault f => exact nomatch r
  | gpio_write gpio state => exact returns_of_exec (fileEnv_of_answers ok) h
  | _ =>
    obtain ⟨rfl, rfl⟩ := Prod.mk.inj (Option.some.inj h)
    rfl

end RackmonIoc.Bus
