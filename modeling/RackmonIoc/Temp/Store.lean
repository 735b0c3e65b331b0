import RackmonIoc.Bus.Store

/-!
# The store law of the probes

Over sequential runs of `read_ai` and `write_ao` on records that hold their own private data, with any
failures, the 64 probes behave as a store: an operation on number `n` leaves the data of every other
probe alone, a successful one changes at most the register of its letter, and a config byte that was
written successfully is what a later successful read brings.

* `kept_run` is the general law: a part of a probe that reads do not touch survives every run that does not
  write it.
* `store_law` is what holds in every state of every run.
-/

namespace RackmonIoc.Temp

open Program CLib Base Driver Bus Prog

/-! ### The probe of a number -/

/-- The stub and the slave address of the probe with number `n`. -/
def probe (n : ℤ) : ℕ × ℤ := ((n % 8).toNat, 0x48 + n / 8)

/-- The probe with number `n`. -/
def device (w : Box) (n : ℤ) : DS75 := w.device (probe n).1 (probe n).2

/-- The number splits into stub and slave without loss. -/
theorem probe_inj {n m : ℤ} (h : probe n = probe m) : n = m := by
  have h1 : (n % 8).toNat = (m % 8).toNat := congrArg Prod.fst h
  have h2 : 0x48 + n / 8 = 0x48 + m / 8 := congrArg Prod.snd h
  omega

/-- The device `n` becomes `f` of what it was if the operation succeeds (`ok`), and one of the two if no
transfer to it fails; every other device stays. -/
structure Acted (D : ℕ × ℤ → Prop) (w w' : Box) (n : ℤ) (f : DS75 → DS75) (ok : Prop) : Prop where
  other : ∀ i a, (i, a) ≠ probe n → w'.device i a = w.device i a
  done : ok → device w' n = f (device w n)
  steady : D (probe n) → device w' n = device w n ∨ device w' n = f (device w n)

variable {D : ℕ × ℤ → Prop} {T : Target}

theorem Acted.nothing {w w' : Box} {n : ℤ} {f : DS75 → DS75} {ok : Prop}
    (h : w'.device = w.device) (hok : ¬ ok) : Acted D w w' n f ok where
  other i a _ := by rw [h]
  done hk := absurd hk hok
  steady _ := .inl (by unfold device; rw [h])

theorem Acted.mono {w w' : Box} {n : ℤ} {f : DS75 → DS75} {ok ok' : Prop}
    (h : Acted D w w' n f ok) (hok : ok' → ok) : Acted D w w' n f ok' :=
  ⟨h.other, fun hk => h.done (hok hk), h.steady⟩

/-- The selection before the call leaves the devices alone. -/
theorem Acted.after_select {w w₁ w' : Box} {n : ℤ} {f : DS75 → DS75} {ok : Prop}
    (hsel : w₁.device = w.device) (h : Acted D w₁ w' n f ok) : Acted D w w' n f ok := by
  obtain ⟨h1, h2, h3⟩ := h
  unfold device at h2 h3
  rw [hsel] at h1 h2 h3
  exact ⟨h1, h2, h3⟩

/-- A call behind the selected stub acts on the probe of the number. -/
theorem acted_of_called {w w' : Box} {n : ℤ} {f : DS75 → DS75} {status : ℤ}
    (hmux : mux_holds w.pin (n % 8)) (h : Called D w (0x48 + n / 8) f status w') :
    Acted D w w' n f (status = 0) := by
  have hstub : mux_stub w.pin = (n % 8).toNat := by
    have hs := mux_stub_of_holds (by omega) (by omega) hmux
    omega
  rcases h with ⟨rfl, hne⟩ | ⟨d', rfl, hD, hd'⟩
  · exact .nothing rfl hne
  · have htarget : ({ w with slave := 0x48 + n / 8 } : Box).target = probe n := by
      show (mux_stub w.pin, (0x48 + n / 8 : ℤ)) = _
      rw [hstub]
      rfl
    rw [htarget] at hD
    have hown : device (({ w with slave := 0x48 + n / 8 } : Box).setAddressed d') n = d' :=
      if_pos htarget.symm
    have hdone : status = 0 → d' = f (device w n) := by
      intro h0
      rw [hd' (decide_eq_true h0), hstub]
      rfl
    refine ⟨fun i a hne => ?_, fun h0 => hown.trans (hdone h0), fun hd => ?_⟩
    · exact Box.device_setAddressed _ _ (by rw [htarget]; exact hne)
    · exact .inr (hown.trans (hdone (of_decide_eq_true (hD hd))))

/-! ### What a letter stands for -/

/-- The byte that `write_ao` makes of a value. -/
def config_byte (T : Target) (val : Double) : UInt8 :=
  UInt8.ofInt ((.fin (1 / 2) + val : Double).toInt T.undefined_cast)

/-- The device after a successful `write_ao`. -/
def written (T : Target) (what : Char) (val : Double) (d : DS75) : DS75 :=
  if what = 'H' then d.store 3 (some (encode_temp T val))
  else if what = 'L' then d.store 2 (some (encode_temp T val))
  else if what = 'C' then d.store 1 (some [config_byte T val])
  else d

/-- The device after a successful `read_ai`. -/
def visited (what : Char) (d : DS75) : DS75 :=
  if what = ' ' then d.point 0
  else if what = 'S' then d.point 3
  else if what = 'Y' then d.point 2
  else if what = 'C' then d.point 1
  else d

/-- What a successful `read_ai` stores in VAL; `none` for a letter that it does not know. -/
def content (T : Target) (what : Char) (d : DS75) : Option Double :=
  if what = ' ' then some (d.temp T 0)
  else if what = 'S' then some (d.temp T 3)
  else if what = 'Y' then some (d.temp T 2)
  else if what = 'C' then some (.fin d.config.toNat)
  else none

theorem visited_sameData (what : Char) (d : DS75) : d.SameData (visited what d) := by
  unfold visited
  split_ifs <;> exact ⟨rfl, rfl⟩

/-! ### One operation -/

theorem wp_write_what {fd n : ℤ} {what : Char} {val : Double} {w : Box}
    (hmux : mux_holds w.pin (n % 8)) :
    wp (boxDevOn D T) (fun _ _ => True)
      (fun ierr w' => Acted D w w' n (written T what val) (ierr = 0) ∧
        (ierr = 0 → what = 'C' → ¬ (val < 0 ∨ 255 < val)))
      (write_what T fd (n / 8) what val) w := by
  have hcall : ∀ (a b : Option Double) (c : Option UInt8) (r : Details) (w' : Box),
      boxDevOn D T w (.access_ds75_details fd (n / 8) a b c 'w') r w' →
      Acted D w w' n (fun d => ((d.store 3 (a.map (encode_temp T))).store 2
        (b.map (encode_temp T))).store 1 (c.map fun b => [b])) (r.status = 0) :=
    fun a b c r w' he => acted_of_called hmux (boxDevOn_write he)
  unfold write_what
  rw [wp_ite]
  constructor
  · rintro rfl
    exact ⟨trivial, fun r w' he => ⟨hcall _ _ _ r w' he, fun _ h => absurd h (by decide)⟩⟩
  intro hH
  rw [wp_ite]
  constructor
  · rintro rfl
    exact ⟨trivial, fun r w' he => ⟨hcall _ _ _ r w' he, fun _ h => absurd h (by decide)⟩⟩
  intro hL
  rw [wp_ite]
  constructor
  · rintro rfl
    rw [wp_ite]
    constructor
    · intro _
      exact ⟨.nothing rfl (by omega), nofun⟩
    · intro hrange
      exact ⟨trivial, fun r w' he => ⟨hcall _ _ _ r w' he, fun _ _ => hrange⟩⟩
  · intro _
    exact ⟨.nothing rfl (by omega), nofun⟩

/-- The thermometer that the pins and the slave address choose. -/
theorem device_of_mux {n : ℤ} {w : Box} (hmux : mux_holds w.pin (n % 8)) :
    w.device (mux_stub w.pin) (0x48 + n / 8) = device w n := by
  have hstub : mux_stub w.pin = (n % 8).toNat := by
    have hs := mux_stub_of_holds (by omega) (by omega) hmux
    omega
  rw [hstub]
  rfl

/-- A read of details; the letters differ only in the pointer that is not null. -/
theorem acted_read_details {fd n : ℤ} {w w' : Box} {a b : Option Double} {c : Option UInt8}
    {r : Details} (hmux : mux_holds w.pin (n % 8))
    (he : boxDevOn D T w (.access_ds75_details fd (n / 8) a b c 'r') r w') :
    Acted D w w' n (fun d => ((d.visit 3 a).visit 2 b).visit 1 c) (r.status = 0) ∧
      (r.status = 0 → r = ⟨0, a.map fun _ => (device w n).temp T 3,
        b.map fun _ => (device w n).temp T 2, c.map fun _ => (device w n).config⟩) := by
  obtain ⟨hcalled, hvalue⟩ := boxDevOn_read he
  rw [device_of_mux hmux] at hvalue
  exact ⟨acted_of_called hmux hcalled, hvalue⟩

theorem wp_read_what {fd n : ℤ} {what : Char} {val : Double} {cfg₀ : UInt8} {w : Box}
    (hn : 0 ≤ n ∧ n < 64) (hmux : mux_holds w.pin (n % 8)) :
    wp (boxDevOn D T) (fun _ _ => True)
      (fun r w' => Acted D w w' n (visited what) (r.1 = 0) ∧
        (r.1 = 0 → content T what (device w n) = some r.2))
      (read_what fd (n / 8) what val cfg₀) w := by
  unfold read_what read_detail
  rw [wp_ite]
  constructor
  · rintro rfl
    refine ⟨trivial, fun r w' he => ?_⟩
    have hmask : n / 8 % 8 = n / 8 := by omega
    obtain ⟨hcalled, hvalue⟩ := boxDevOn_read_temp he
    rw [hmask] at hcalled hvalue
    refine ⟨acted_of_called hmux hcalled, fun h0 => congrArg some ?_⟩
    rw [← device_of_mux hmux]
    exact (hvalue h0).symm
  intro hT
  rw [wp_ite]
  constructor
  · rintro rfl
    refine ⟨trivial, fun r w' he => ?_⟩
    obtain ⟨hacted, hvalue⟩ := acted_read_details hmux he
    refine ⟨hacted, fun h0 => ?_⟩
    rw [hvalue h0]
    rfl
  intro hS
  rw [wp_ite]
  constructor
  · rintro rfl
    refine ⟨trivial, fun r w' he => ?_⟩
    obtain ⟨hacted, hvalue⟩ := acted_read_details hmux he
    refine ⟨hacted, fun h0 => ?_⟩
    rw [hvalue h0]
    rfl
  intro hY
  rw [wp_ite]
  constructor
  · rintro rfl
    refine ⟨trivial, fun r w' he => ?_⟩
    obtain ⟨hacted, hvalue⟩ := acted_read_details hmux he
    refine ⟨hacted, fun h0 => ?_⟩
    rw [hvalue h0]
    rfl
  · intro _
    exact ⟨.nothing rfl (show ¬ (1 : ℤ) = 0 by decide), nofun⟩

/-- **One `write_ao`.** -/
theorem wp_write_ao {g : Globals} {prec : AoRecord} {n : ℤ} {what : Char}
    (hp : Entry g prec.toDbCommon n what) (w : Box) :
    wp (boxDevOn D T) (fun _ _ => True)
      (fun r w' => Acted D w w' n (written T what prec.val) (r.1 = 0) ∧
        (r.1 = 0 → what = 'C' → ¬ (prec.val < 0 ∨ 255 < prec.val)))
      (write_ao T g prec) w := by
  rw [write_ao_entry T hp, wp_bind]
  refine wp_conseq wp_select_probe_on fun sel w₁ hsel => ?_
  obtain ⟨-, hdev, hsel⟩ := hsel
  rw [wp_bind, wp_ite]
  constructor
  · intro _
    have hfail : ¬ (ao_result prec (-1)).1 = 0 := fun h => absurd (ao_result_ok h) (by omega)
    exact ⟨.nothing hdev hfail, fun h => absurd h hfail⟩
  · intro hnn
    have hmux : mux_holds w₁.pin (n % 8) := by
      rcases hsel with rfl | ⟨-, h⟩
      · exact absurd (by omega) hnn
      · exact h
    refine wp_conseq (wp_write_what hmux) fun ierr w₂ h => ?_
    exact ⟨(h.1.after_select hdev).mono ao_result_ok, fun h' => h.2 (ao_result_ok h')⟩

/-- **One `read_ai`.** -/
theorem wp_read_ai {g : Globals} {prec : AiRecord} {cfg₀ : UInt8} {n : ℤ} {what : Char}
    (hp : Entry g prec.toDbCommon n what) (w : Box) :
    wp (boxDevOn D T) (fun _ _ => True)
      (fun r w' => Acted D w w' n (visited what) (r.1 = 2) ∧
        (r.1 = 2 → content T what (device w n) = some r.2.val))
      (read_ai g prec cfg₀) w := by
  obtain ⟨-, -, -, h0, h64⟩ := id hp
  rw [read_ai_entry hp, wp_bind]
  refine wp_conseq wp_select_probe_on fun sel w₁ hsel => ?_
  obtain ⟨-, hdev, hsel⟩ := hsel
  rw [wp_bind, wp_ite]
  constructor
  · intro _
    have hfail : ¬ (ai_result prec (-1, prec.val)).1 = 2 :=
      fun h => absurd (ai_result_ok h).1 (show ¬ (-1 : ℤ) = 0 by decide)
    exact ⟨.nothing hdev hfail, fun h => absurd h hfail⟩
  · intro hnn
    have hmux : mux_holds w₁.pin (n % 8) := by
      rcases hsel with rfl | ⟨-, h⟩
      · exact absurd (by omega) hnn
      · exact h
    refine wp_conseq (wp_read_what ⟨h0, h64⟩ hmux) fun r w₂ h => ?_
    refine ⟨(h.1.after_select hdev).mono fun h' => (ai_result_ok h').1, fun h' => ?_⟩
    have hsame : device w₁ n = device w n := by
      unfold device
      rw [hdev]
    rw [(ai_result_ok h').2, ← hsame]
    exact h.2 (ai_result_ok h').1

/-! ### What survives a run -/

theorem entry_of_own {s : Ioc} (h : OwnEntries T s) {r : Rec} {i n : ℤ} {ch : Char}
    (hi : s.dpvt r = some i) (hacc : s.accepted T r = some (n, ch)) :
    Entry s.globals (s.common r) n ch := by
  obtain ⟨m, ch', hacc', hentry⟩ := h r i hi
  obtain ⟨rfl, rfl⟩ := Prod.mk.inj (Option.some.inj (hacc.symm.trans hacc'))
  exact ⟨i, hi, hentry, accepted_link_range hacc⟩

section Kept

variable {β : Type} {get : DS75 → β} {n : ℤ}

/-- The call does not write the part `get` of the probe `n`. -/
def Spares (T : Target) (get : DS75 → β) (s : Ioc) (n : ℤ) (c : IocCall) : Prop :=
  ∀ k val ch, c = .write_ao k val → s.accepted T (.ao k) = some (n, ch) →
    ∀ d, get (written T ch val d) = get d

/-- However a call acts on a probe, the part stays. -/
theorem Acted.kept (hD : D (probe n)) {w w' : Box} {m : ℤ} {f : DS75 → DS75} {ok : Prop}
    (h : Acted D w w' m f ok) (hf : m = n → ∀ d, get (f d) = get d) :
    get (device w' n) = get (device w n) := by
  by_cases hm : m = n
  · subst hm
    rcases h.steady hD with h | h
    · rw [h]
    · rw [h, hf rfl]
  · have hne : probe n ≠ probe m := fun h => hm (probe_inj h).symm
    exact congrArg get (h.other _ _ hne)

/-- **What keeps a part of a probe**: any processing that spares it, where no transfer to the probe
fails. -/
theorem wp_kept (hD : D (probe n)) (hget : ∀ ch d, get (visited ch d) = get d) {c : IocCall}
    (hc : c.is_init = false) {s : Ioc} (hown : OwnEntries T s) (hspares : Spares T get s n c) (w : Box) :
    wp (boxDevOn D T) (fun _ _ => True)
      (fun _ w' => get (device w' n) = get (device w n)) (c.prog T s) w := by
  rcases c with k | ⟨k, cfg₀⟩ | ⟨k, cfg₀⟩ | ⟨k, val⟩
  · exact nomatch hc
  · exact nomatch hc
  · refine wp_bind.mpr ?_
    rcases hi : s.dpvt (.ai k) with _ | i
    · rw [read_ai_eq]
      unfold private_entry
      rw [show (s.ai k).dpvt = none from hi]
      exact ⟨trivial, nofun⟩
    · obtain ⟨m, ch, hacc, -⟩ := hown _ _ hi
      refine wp_conseq (wp_read_ai (entry_of_own hown hi hacc) w) fun r w' h => ?_
      exact h.1.kept hD fun _ => hget ch
  · refine wp_bind.mpr ?_
    rcases hi : s.dpvt (.ao k) with _ | i
    · rw [write_ao_eq]
      unfold private_entry
      rw [show (s.ao k).dpvt = none from hi]
      exact ⟨trivial, nofun⟩
    · obtain ⟨m, ch, hacc, -⟩ := hown _ _ hi
      have hp : Entry s.globals { s.ao k with val := val }.toDbCommon m ch := entry_of_own hown hi hacc
      refine wp_conseq (wp_write_ao hp w) fun r w' h => ?_
      refine h.1.kept hD fun hm => hspares k val ch rfl ?_
      rw [← hm]
      exact hacc

/-- **The part survives a run** of calls that spare it. -/
theorem kept_run {s s₁ s₂ : Ioc} (hown : OwnEntries T s) (hs : SameDriver s s₁)
    (hget : ∀ ch d, get (visited ch d) = get d) {cs : List IocCall}
    (hcs : ∀ c ∈ cs, c.is_init = false ∧ Spares T get s n c) {w₁ w₂ : Box}
    (hrun : Returns (Env.tag (boxEnvOn (· = probe n))) (bus_session T cs s₁) w₁ s₂ w₂) :
    SameDriver s s₂ ∧ get (device w₂ n) = get (device w₁ n) := by
  have hwp : wp (Env.tag (boxEnvOn (· = probe n))) (fun _ _ => True)
      (fun s' w' => SameDriver s s' ∧ get (device w' n) = get (device w₁ n))
      (bus_session T cs s₁) w₁ := by
    refine wp_session (fun c hc s' w' hI => ?_) ⟨hs, rfl⟩
    obtain ⟨hinit, hspares⟩ := hcs c hc
    have hspares' : Spares T get s' n c := by
      intro k val ch hcall hacc
      exact hspares k val ch hcall ((hI.1.accepted T (.ao k)) ▸ hacc)
    have hsame : wp (boxDevOn (· = probe n) T) (fun _ _ => True) (fun s'' _ => SameDriver s' s'')
        (c.prog T s') w' := wp_same hinit (fun _ _ _ => trivial) fun _ => trivial
    have hstep := wp_and hsame
      (wp_kept (D := (· = probe n)) rfl hget hinit (hown.same hI.1) hspares' w')
    exact wp_through_post (wp_conseq hstep fun s'' w'' h => ⟨hI.1.trans h.1, h.2.trans hI.2⟩)
  have hend := wp_returns hwp hrun
  exact hend

end Kept

/-! ### The config byte -/

/-- The call writes the config byte of the probe `n`. -/
def ConfigWrite (T : Target) (s : Ioc) (n : ℤ) (c : IocCall) : Prop :=
  (∃ k val, c = .write_ao k val) ∧ s.accepted T c.record = some (n, 'C')

theorem written_config {what : Char} (h : what ≠ 'C') (val : Double) (d : DS75) :
    (written T what val d).config = d.config := by
  unfold written
  rw [if_neg h]
  split_ifs <;> rfl

theorem spares_config {s : Ioc} {n : ℤ} {c : IocCall} (h : ¬ ConfigWrite T s n c) :
    Spares T DS75.config s n c := by
  rintro k val ch rfl hacc d
  refine written_config ?_ val d
  rintro rfl
  exact h ⟨⟨k, val, rfl⟩, hacc⟩

/-- The byte for a rational in range is the nearest integer, halves up. -/
theorem config_byte_toNat {v : ℚ} (h0 : 0 ≤ v) (h255 : v ≤ 255) :
    ((config_byte T (.fin v)).toNat : ℤ) = ⌊v + 1 / 2⌋ := by
  have hnn : (0 : ℤ) ≤ ⌊v + 1 / 2⌋ := Int.floor_nonneg.mpr (by linarith)
  have hlt : ⌊v + 1 / 2⌋ < 256 := Int.floor_lt.mpr (by push_cast; linarith)
  have htrunc : Double.trunc (1 / 2 + v) = ⌊v + 1 / 2⌋ := by
    rw [Double.trunc_of_nonneg (by linarith), add_comm]
  unfold config_byte
  rw [Double.fin_add, Double.toInt_fin (by rw [htrunc]; constructor <;> omega), htrunc]
  rw [ofInt_toNat]
  omega

/-! ### The law -/

/-- The register that `write_ao` changes. -/
def letter_reg (what : Char) : UInt8 := if what = 'H' then 3 else if what = 'L' then 2 else 1

/-- The two states have the same data, but for the register `reg`. -/
def SameDataBut (reg : UInt8) (d d' : DS75) : Prop :=
  (reg ≠ 1 → d'.config = d.config) ∧ ∀ r ≠ reg, d'.reg r = d.reg r

theorem written_but {T : Target} (what : Char) (val : Double) (d : DS75) :
    SameDataBut (letter_reg what) d (written T what val d) := by
  have hother : ∀ (reg : UInt8) (x : UInt8 × UInt8), ∀ r ≠ reg,
      Function.update d.reg reg x r = d.reg r :=
    fun reg x r hr => Function.update_of_ne hr _ _
  unfold letter_reg written
  split_ifs
  · exact ⟨fun _ => rfl, hother 3 _⟩
  · exact ⟨fun _ => rfl, hother 2 _⟩
  · exact ⟨fun h => absurd rfl h, fun _ _ => rfl⟩
  · exact ⟨fun h => absurd rfl h, fun _ _ => rfl⟩

/-- What a call of `write_ao` or `read_ai` can return, and the box it leaves. -/
def WriteReturns (T : Target) (s : Ioc) (w : Box) (k : ℕ) (val : Double) (r : ℤ × AoRecord)
    (w' : Box) : Prop :=
  Returns boxEnv ((write_ao T s.globals { s.ao k with val := val }).interp (expand T)) w r w'

def ReadReturns (T : Target) (s : Ioc) (w : Box) (k : ℕ) (r : ℤ × AiRecord) (w' : Box) : Prop :=
  ∃ cfg₀, Returns boxEnv ((read_ai s.globals (s.ai k) cfg₀).interp (expand T)) w r w'

/-- The law, at the state that a run has reached. -/
structure StoreLaw (T : Target) (s : Ioc) (w : Box) : Prop where
  /-- An operation on `n` changes no other device. -/
  write_frame : ∀ k val n ch r w', s.accepted T (.ao k) = some (n, ch) →
    WriteReturns T s w k val r w' → ∀ i a, (i, a) ≠ probe n → w'.device i a = w.device i a
  read_frame : ∀ k n ch r w', s.accepted T (.ai k) = some (n, ch) →
    ReadReturns T s w k r w' → ∀ i a, (i, a) ≠ probe n → w'.device i a = w.device i a
  /-- A successful write changes only the register of its letter. -/
  write_only : ∀ k val n ch r w', s.accepted T (.ao k) = some (n, ch) →
    WriteReturns T s w k val r w' → r.1 = 0 →
    SameDataBut (letter_reg ch) (device w n) (device w' n)
  /-- A successful read changes no data. -/
  read_only : ∀ k n ch r w', s.accepted T (.ai k) = some (n, ch) →
    ReadReturns T s w k r w' → r.1 = 2 → (device w n).SameData (device w' n)
  /-- A config byte that was written is read back, as long as it is not written again and no transfer
  to the probe fails. -/
  read_back : ∀ k (v : ℚ) n r w₁, s.accepted T (.ao k) = some (n, 'C') →
    WriteReturns T s w k (.fin v) r w₁ → r.1 = 0 →
    ∀ cs s₂ w₂, (∀ c ∈ cs, c.is_init = false ∧ ¬ ConfigWrite T s n c) →
      Returns (Env.tag (boxEnvOn (· = probe n)))
        (bus_session T cs (s.set_ao k s.globals r.2)) w₁ s₂ w₂ →
      ∀ j r' w₃, s.accepted T (.ai j) = some (n, 'C') → ReadReturns T s₂ w₂ j r' w₃ → r'.1 = 2 →
        r'.2.val = .fin ⌊v + 1 / 2⌋

theorem WriteReturns.spec {s : Ioc} (hown : OwnEntries T s) {w w' : Box} {k : ℕ} {val : Double}
    {r : ℤ × AoRecord} {n : ℤ} {ch : Char} (hacc : s.accepted T (.ao k) = some (n, ch))
    (h : WriteReturns T s w k val r w') :
    Acted (fun _ => False) w w' n (written T ch val) (r.1 = 0) ∧
      (r.1 = 0 → ch = 'C' → ¬ (val < 0 ∨ 255 < val)) ∧ SameDriver s (s.set_ao k s.globals r.2) := by
  have hr : Returns (boxDev T) (write_ao T s.globals { s.ao k with val := val }) w r w' :=
    returns_interp.mp h
  have hcall : Returns (boxDev T) ((IocCall.write_ao k val).prog T s) w
      (s.set_ao k s.globals r.2) w' := returns_bind.mpr ⟨r, w', hr, .refl _ _⟩
  have hsame := wp_returns (wp_same (G := fun _ _ => True) (c := .write_ao k val) rfl
    (fun _ _ _ => trivial) fun _ => trivial) hcall
  rw [← boxDevOn_none] at hr
  rcases hi : s.dpvt (.ao k) with _ | i
  · -- without private data there is no return
    rw [write_ao_eq] at hr
    unfold private_entry at hr
    rw [show (s.ao k).dpvt = none from hi] at hr
    obtain ⟨e, -⟩ := returns_vis.mp hr
    exact nomatch e
  · have hp : Entry s.globals { s.ao k with val := val }.toDbCommon n ch := entry_of_own hown hi hacc
    obtain ⟨hacted, hrange⟩ := wp_returns (wp_write_ao hp w) hr
    exact ⟨hacted, hrange, hsame⟩

theorem ReadReturns.spec {s : Ioc} (hown : OwnEntries T s) {w w' : Box} {k : ℕ} {r : ℤ × AiRecord}
    {n : ℤ} {ch : Char} (hacc : s.accepted T (.ai k) = some (n, ch))
    (h : ReadReturns T s w k r w') :
    Acted (fun _ => False) w w' n (visited ch) (r.1 = 2) ∧
      (r.1 = 2 → content T ch (device w n) = some r.2.val) := by
  obtain ⟨cfg₀, h⟩ := h
  have hr : Returns (boxDev T) (read_ai s.globals (s.ai k) cfg₀) w r w' := returns_interp.mp h
  rw [← boxDevOn_none] at hr
  rcases hi : s.dpvt (.ai k) with _ | i
  · rw [read_ai_eq] at hr
    unfold private_entry at hr
    rw [show (s.ai k).dpvt = none from hi] at hr
    obtain ⟨e, -⟩ := returns_vis.mp hr
    exact nomatch e
  · have hspec := wp_returns (wp_read_ai (entry_of_own hown hi hacc) w) hr
    exact hspec

/-- **The store law holds in every state of every run** of `read_ai` and `write_ao` over records with
their own private data, whatever fails. -/
theorem store_law {s s₁ : Ioc} (hown : OwnEntries T s) {cs : List IocCall}
    (hcs : ∀ c ∈ cs, c.is_init = false) {w w₁ : Box}
    (hrun : Returns (Env.tag boxEnv) (bus_session T cs s) w s₁ w₁) : StoreLaw T s₁ w₁ := by
  have hsame : SameDriver s s₁ := by
    have hwp : wp (Env.tag boxEnv) (fun _ _ => True) (fun s' _ => SameDriver s s')
        (bus_session T cs s) w :=
      wp_session (fun c hc s' w' hI => wp_through_post
        (wp_conseq (wp_same (hcs c hc) (fun _ _ _ => trivial) fun _ => trivial)
          fun _ _ h => hI.trans h)) ⟨rfl, rfl, rfl⟩
    have hend := wp_returns hwp hrun
    exact hend
  have hown₁ : OwnEntries T s₁ := hown.same hsame
  refine ⟨?_, ?_, ?_, ?_, ?_⟩
  · intro k val n ch r w' hacc hr
    exact (hr.spec hown₁ hacc).1.other
  · intro k n ch r w' hacc hr
    exact (hr.spec hown₁ hacc).1.other
  · intro k val n ch r w' hacc hr h0
    rw [(hr.spec hown₁ hacc).1.done h0]
    exact written_but ch val _
  · intro k n ch r w' hacc hr h2
    rw [(hr.spec hown₁ hacc).1.done h2]
    exact visited_sameData ch _
  · intro k v n r w₂ hacc hr h0 cs' s₃ w₃ hcs' hrun' j r' w₄ hacc' hr' h2
    obtain ⟨hacted, hrange, hsame₂⟩ := hr.spec hown₁ hacc
    obtain ⟨hsame₃, hconfig⟩ := kept_run hown₁ hsame₂ (fun ch d => (visited_sameData ch d).1)
      (fun c hc => ⟨(hcs' c hc).1, spares_config (hcs' c hc).2⟩) hrun'
    have hbyte : (device w₂ n).config = config_byte T (.fin v) :=
      congrArg DS75.config (hacted.done h0)
    have hv : 0 ≤ v ∧ v ≤ 255 := by
      have h := hrange h0 rfl
      simp only [Double.ofNat_eq, Double.fin_lt, not_or, not_lt] at h
      exact_mod_cast h
    have hread := (hr'.spec (hown₁.same hsame₃) ((hsame₃.accepted T _).trans hacc')).2 h2
    have hval : some (Double.fin (device w₃ n).config.toNat) = some r'.2.val := hread
    rw [← Option.some.inj hval, hconfig, hbyte]
    exact congrArg Double.fin (by exact_mod_cast config_byte_toNat hv.1 hv.2)

/-- A run that writes 96 to the config byte of probe 9 and reads it back. -/
theorem store_law_nine :
    ∃ s₁ w₁, Returns (Env.tag boxEnv)
        (bus_session ⟨false, fun _ => 0, id⟩ [.write_ao 0 96, .read_ai 0 0]
          ⟨⟨3, fun _ => ⟨9, 'C'⟩⟩,
            fun _ => { (default : AiRecord) with dpvt := some 201, inp_text := some ['9', 'C'] },
            fun _ => { (default : AoRecord) with dpvt := some 201, out_text := some ['9', 'C'] }⟩)
        ⟨fun _ => false, 0, fun _ _ => ⟨0, 0, fun _ => (0, 0)⟩⟩ s₁ w₁ ∧
      (s₁.ai 0).val = 96 ∧ StoreLaw ⟨false, fun _ => 0, id⟩ s₁ w₁ := by
  let T : Target := ⟨false, fun _ => 0, id⟩
  let s : Ioc := ⟨⟨3, fun _ => ⟨9, 'C'⟩⟩,
    fun _ => { (default : AiRecord) with dpvt := some 201, inp_text := some ['9', 'C'] },
    fun _ => { (default : AoRecord) with dpvt := some 201, out_text := some ['9', 'C'] }⟩
  let w : Box := ⟨fun _ => false, 0, fun _ _ => ⟨0, 0, fun _ => (0, 0)⟩⟩
  have hown : OwnEntries T s := by
    intro r i _
    have hacc : s.accepted T r = some (9, 'C') := by cases r <;> rfl
    exact ⟨9, 'C', hacc, rfl⟩
  have hcs : ∀ c ∈ [IocCall.write_ao 0 96, .read_ai 0 0], c.is_init = false := by
    simp [IocCall.is_init]
  have hval : ((exec (fun w (o : (BusSig.tag IocCall).Op) => okBox w o.2)
      (bus_session T [.write_ao 0 96, .read_ai 0 0] s) w).map fun x => (x.1.ai 0).val) = some 96 := by
    decide +kernel
  obtain ⟨⟨s₁, w₁⟩, hexec, h96⟩ := Option.map_eq_some_iff.mp hval
  have hrun : Returns (Env.tag boxEnv) (bus_session T [.write_ao 0 96, .read_ai 0 0] s) w s₁ w₁ :=
    returns_of_exec (S := BusSig.tag IocCall)
      (fun w (o : IocCall × BusOp) r w' h => boxEnv_of_okBox w o.2 r w' h) hexec
  exact ⟨s₁, w₁, hrun, h96, store_law hown hcs hrun⟩

end RackmonIoc.Temp
