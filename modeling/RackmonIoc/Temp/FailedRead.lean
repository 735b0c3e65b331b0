import RackmonIoc.Bus.Details
import RackmonIoc.Driver.Ioc

/-!
# Failed reads

What a read that fails leaves in VAL.  The temperature and the setpoints are stored by the bus function,
and only when it succeeds; the config byte goes through a local of the device support, which is copied
to VAL whether the read succeeded or not.

The world is the status of the read of the details, `none` before there is one.
-/

namespace RackmonIoc.Temp

open Program CLib Base Driver Bus Prog

/-! ### The replies of the bus functions -/

/-- **Every failure at every step**: an operation replies with what its program can return, under every
outcome of every transfer. -/
def readEnv (T : Target) : Env DevSig (Option ℤ) := fun w o r w' =>
  (∃ L, Returns busLog (expand T o) [] r L) ∧
    match o, r with
    | .access_ds75_details _ _ _ _ _ _, r => w' = some r.status
    | _, _ => w' = w

section Replies

variable {T : Target} {fd addr : ℤ}

/-- A call for a single field receives nothing unless it succeeds. -/
theorem received_failed {c : Chip} {high low : Option Double} {cfg : Option UInt8} {mode : Char}
    {status : ℤ} {xs : List Exchange} {r : Details} {L : List Event} {f : Field}
    (h : Outcome T c fd addr high low cfg mode status xs r L)
    (hone : c.requested T high low cfg = [f]) (hr : r.status ≠ 0) (reg : UInt8) :
    received reg xs = none := by
  by_contra hsome
  obtain ⟨data, hdata⟩ := Option.ne_none_iff_exists'.mp hsome
  obtain ⟨x, hx, hreceived⟩ := List.exists_of_findSome?_eq_some hdata
  have hs : 0 ≤ status := by
    by_contra hneg
    rw [(h.failed (not_le.mp hneg)).1] at hx
    exact nomatch hx
  have hcomplete : x.Complete := by
    cases x with
    | sent g s => exact nomatch hreceived
    | got g s rd =>
      simp only [Exchange.received, Option.ite_none_right_eq_some] at hreceived
      exact hreceived.1.2
  apply hr
  rw [h.exact.zero_iff, hone]
  refine ⟨hs, fun g hg => ⟨x, hx, ?_, hcomplete⟩⟩
  obtain ⟨ok, hhandled, -⟩ := h.handled hs
  obtain ⟨f', hf', hfor⟩ := hhandled.exists_for x hx
  rw [hone, List.mem_singleton] at hf'
  rw [List.mem_singleton.mp hg, ← hf']
  exact hfor

/-- A read of a single detail that fails leaves it alone. -/
theorem failed_detail {high low : Option Double} {cfg : Option UInt8} {f : Field} {r : Details}
    {L : List Event} (hone : Chip.ds75.requested T high low cfg = [f])
    (h : Returns busLog (expand T (.access_ds75_details fd addr high low cfg 'r')) [] r L)
    (hr : r.status ≠ 0) : r.T_OS = high ∧ r.T_HYST = low ∧ r.cfg = cfg := by
  have hrun : Returns busLog (Chip.ds75.access T fd addr high low cfg 'r') [] r L := h
  obtain ⟨status, xs, houtcome⟩ := wp_returns wp_log_access hrun
  have hnone := received_failed houtcome hone hr
  rw [houtcome.T_OS, houtcome.T_HYST, houtcome.config, hnone, hnone, hnone]
  exact ⟨rfl, rfl, rfl⟩

/-- A read of the temperature that fails. -/
theorem failed_temp {val : Double} {r : TempReply} {L : List Event}
    (h : Returns busLog (expand T (.read_temp_ds75 fd addr val)) [] r L) (hr : r.status ≠ 0) :
    r.T_degC = val := by
  have hkeep : wp busLog (fun _ _ => True)
      (fun (r : TempReply) _ => r.status ≠ 0 → r.T_degC = val) (read_temp_ds75 T fd addr val) [] := by
    refine wp_log_section ⟨trivial, fun (status : ℤ) L₁ _ => ?_⟩
    show wp _ _ _ (if status < 0 then _ else _) _
    rw [wp_ite]
    refine ⟨fun _ _ => rfl, fun _ => ⟨trivial, fun (status : ℤ) L₂ _ => ?_⟩⟩
    show wp _ _ _ (if status ≠ 1 then _ else _) _
    rw [wp_ite]
    refine ⟨fun _ _ => rfl, fun _ => ⟨trivial, fun (rd : ReadReply) L₃ _ => ?_⟩⟩
    show wp _ _ _ (if rd.status ≠ 2 then _ else _) _
    rw [wp_ite]
    exact ⟨fun _ _ => rfl, fun _ hne => absurd rfl hne⟩
  exact wp_returns hkeep h hr

/-- The reply to a read whose `ioctl` fails. -/
theorem returns_ioctl_failed (a b : Option Double) (c : Option UInt8) :
    Returns busLog (expand T (.access_ds75_details fd addr a b c 'r')) [] ⟨-1, a, b, c⟩
      [.ioctl fd (0x48 + addr) (-1)] := by
  refine returns_vis.mpr ⟨(), [], rfl, returns_vis.mpr ⟨(-1 : ℤ), _, rfl, ?_⟩⟩
  exact returns_vis.mpr ⟨(), _, rfl, .refl _ _⟩

end Replies

/-! ### VAL -/

/-- VAL after a read of a detail that has failed: the local byte `cfg₀` with the letter C. -/
def failed_val (what : Char) (cfg₀ : UInt8) (val : Double) : Double :=
  if what = 'C' then .fin cfg₀.toNat else val

section Values

variable {T : Target} {what : Char} {val : Double} {cfg₀ : UInt8}

/-- **A read of a detail**, and the world after it. -/
theorem wp_failed_detail (fd addr : ℤ) {w : Option ℤ} :
    wp (readEnv T) (fun _ _ => True)
      (fun r w' => (r.1 ≠ 0 → r.2 = failed_val what cfg₀ val) ∧ (r.1 = 0 → w' = some 0))
      (read_detail fd addr what val cfg₀) w := by
  unfold read_detail failed_val
  rw [wp_ite]
  constructor
  · rintro rfl
    refine ⟨trivial, ?_⟩
    rintro r w' ⟨⟨L, hrun⟩, rfl⟩
    refine ⟨fun hr => ?_, fun hr => congrArg some hr⟩
    obtain ⟨hval, -⟩ := failed_detail rfl hrun hr
    show r.T_OS.getD val = _
    rw [hval]
    rfl
  intro hS
  rw [wp_ite]
  constructor
  · rintro rfl
    refine ⟨trivial, ?_⟩
    rintro r w' ⟨⟨L, hrun⟩, rfl⟩
    refine ⟨fun hr => ?_, fun hr => congrArg some hr⟩
    obtain ⟨-, hval, -⟩ := failed_detail rfl hrun hr
    show r.T_HYST.getD val = _
    rw [hval]
    rfl
  intro hY
  rw [wp_ite]
  constructor
  · rintro rfl
    refine ⟨trivial, ?_⟩
    rintro r w' ⟨⟨L, hrun⟩, rfl⟩
    refine ⟨fun hr => ?_, fun hr => congrArg some hr⟩
    obtain ⟨-, -, hval⟩ := failed_detail rfl hrun hr
    show Double.fin (r.cfg.getD cfg₀).toNat = _
    rw [hval]
    rfl
  · intro hC
    exact ⟨fun _ => (if_neg hC).symm, fun h => absurd h (show ¬ (1 : ℤ) = 0 by decide)⟩

/-- **A read of an ai record.** -/
theorem wp_failed_what (fd addr : ℤ) {w : Option ℤ} :
    wp (readEnv T) (fun _ _ => True) (fun r _ => r.1 ≠ 0 → r.2 = failed_val what cfg₀ val)
      (read_what fd addr what val cfg₀) w := by
  unfold read_what
  rw [wp_ite]
  constructor
  · rintro rfl
    refine ⟨trivial, ?_⟩
    rintro r w' ⟨⟨L, hrun⟩, -⟩ hr
    exact failed_temp hrun hr
  · intro _
    exact wp_conseq (wp_failed_detail fd addr) fun r _ h => h.1

end Values

/-! ### Records -/

/-- A `read_ai` that returns -1 leaves VAL as it was and sets UDF. -/
def FailedReadKeeps (T : Target) (g : Globals) (prec : AiRecord) (cfg₀ : UInt8) : Prop :=
  ∀ r w', Returns (readEnv T) (read_ai g prec cfg₀) none r w' → r.1 = -1 →
    r.2.val = prec.val ∧ r.2.udf = true

/-- An `init_record_ao` that comes to its read-back, which then does not succeed, leaves VAL as it was
and sets UDF. -/
def FailedReadBackKeeps (T : Target) (g : Globals) (prec : AoRecord) (cfg₀ : UInt8) : Prop :=
  ∀ r w', Returns (readEnv T) (init_record_ao T g prec cfg₀) none r w' → r.1 = 2 → w' ≠ some 0 →
    r.2.2.val = prec.val ∧ r.2.2.udf = true

section Records

variable {T : Target} {g : Globals} {n : ℤ} {what : Char} {cfg₀ : UInt8}

theorem readEnv_plain {o : DevOp} {r : o.Reply} {w w' : Option ℤ}
    (ho : match o with | .access_ds75_details _ _ _ _ _ _ => False | _ => True)
    (h : readEnv T w o r w') : w' = w := by
  cases o <;> first | exact h.2 | exact ho.elim

/-- **A `read_ai` that fails.** -/
theorem wp_failed_ai {prec : AiRecord} (hp : Entry g prec.toDbCommon n what) :
    wp (readEnv T) (fun _ _ => True) (fun r _ => r.1 = -1 → r.2.udf = true ∧
      (r.2.val = prec.val ∨ r.2.val = failed_val what cfg₀ prec.val))
      (read_ai g prec cfg₀) none := by
  rw [read_ai_entry hp, wp_bind]
  refine wp_conseq wp_true fun sel w' _ => ?_
  rw [wp_bind, wp_ite]
  constructor
  · exact fun _ _ => ⟨rfl, .inl rfl⟩
  intro _
  refine wp_conseq (wp_failed_what _ _) fun r w'' hr => ?_
  show (ai_result prec r).1 = -1 → _
  unfold ai_result
  by_cases h0 : r.1 = 0
  · rw [if_pos h0]
    exact fun h => absurd h (show ¬ (2 : ℤ) = -1 by decide)
  · rw [if_neg h0]
    exact fun _ => ⟨rfl, .inr (hr h0)⟩

theorem readEnv_gpio (gpio state : ℤ) (w : Option ℤ) :
    readEnv T w (.gpio_write gpio state) (0 : ℤ) w :=
  ⟨⟨[], returns_vis.mpr ⟨(0 : ℤ), [], rfl, .refl _ _⟩⟩, rfl⟩

/-- A read of the config byte can fail. -/
theorem returns_config_failed (fd addr : ℤ) (val : Double) (w : Option ℤ) :
    Returns (readEnv T) (read_detail fd addr 'C' val cfg₀) w (-1, .fin cfg₀.toNat) (some (-1)) :=
  returns_vis.mpr ⟨_, _, ⟨⟨_, returns_ioctl_failed none none (some cfg₀)⟩, rfl⟩, .refl _ _⟩

/-- **When a failed `read_ai` leaves VAL alone.** -/
theorem failed_ai_iff {prec : AiRecord} (hp : Entry g prec.toDbCommon n what) :
    FailedReadKeeps T g prec cfg₀ ↔ (what = 'C' → prec.val = .fin cfg₀.toNat) := by
  constructor
  · rintro hkeeps rfl
    obtain ⟨-, -, -, h0, -⟩ := id hp
    have hrun : Returns (readEnv T) (read_ai g prec cfg₀) none
        (ai_result prec (-1, .fin cfg₀.toNat)) (some (-1)) := by
      rw [read_ai_entry hp]
      have hselect : Returns (readEnv T) (select_probe (n % 8)) none 0 none :=
        returns_select (by omega) (by omega) fun gpio state => readEnv_gpio gpio state none
      refine returns_bind.mpr ⟨0, none, hselect, ?_⟩
      rw [if_neg (lt_irrefl 0)]
      exact returns_bind.mpr ⟨_, _, returns_config_failed _ _ prec.val none, .refl _ _⟩
    exact (hkeeps _ _ hrun rfl).1.symm
  · intro hcond r w' hrun hfail
    obtain ⟨hudf, hval⟩ := wp_returns (wp_failed_ai hp) hrun hfail
    have hsame : failed_val what cfg₀ prec.val = prec.val := by
      unfold failed_val
      split_ifs with hC
      · exact (hcond hC).symm
      · rfl
    rw [hsame, or_self] at hval
    exact ⟨hval, hudf⟩

/-- **The read-back of an ao record**, once its text has been accepted. -/
theorem wp_failed_ao {prec : AoRecord} :
    wp (readEnv T) (fun _ _ => True) (fun r w' => r.1 = 2 → w' ≠ some 0 → r.2.2.udf = true ∧
      ∃ m ch, accepted_link T prec.out_text = some (m, ch) ∧
        r.2.2.val = failed_val ch cfg₀ prec.val) (init_record_ao T g prec cfg₀) none := by
  unfold init_record_ao
  rw [bind_eq, wp_bind]
  have h504 : S_dev_badBus ≠ 2 := by decide
  have h515 : S_db_badField ≠ 2 := by decide
  refine wp_init_record_common (fun w st m => ⟨trivial, fun r w' he => readEnv_plain trivial he⟩)
    (fun _ => trivial) (fun _ _ _ _ _ => trivial) ?_ ?_ ?_
  · exact fun _ _ _ _ h => absurd h h504
  · exact fun _ _ _ _ _ h => absurd h h515
  intro fd w' m ch _ _ hacc
  simp only [private_entry, pure_eq, bind_eq, ret_bind, Globals.store_self, ne_eq,
    not_true_eq_false, if_false]
  rw [wp_ite]
  constructor
  · exact fun _ => ⟨trivial, fun _ _ _ h => absurd h h515⟩
  intro _
  rw [wp_bind]
  refine wp_conseq (wp_failed_detail fd m) fun r w'' hr => ?_
  rw [wp_ite]
  constructor
  · exact fun h0 _ hno => absurd (hr.2 h0) hno
  · exact fun h0 _ _ => ⟨rfl, m, ch, hacc, hr.1 h0⟩

/-- A text with the letter C can be accepted, and its read-back fail. -/
theorem returns_ao_failed (g : Globals) (cfg₀ : UInt8) {prec : AoRecord} {m : ℤ}
    (hacc : accepted_link T prec.out_text = some (m, 'C')) :
    ∃ r, Returns (readEnv T) (init_record_ao T g prec cfg₀) none r (some (-1)) ∧ r.1 = 2 ∧
      r.2.2.val = .fin cfg₀.toNat := by
  obtain ⟨text, htext, hacc⟩ := Option.bind_eq_some_iff.mp hacc
  have hcommon : ∃ fd, Returns (readEnv T) (init_record_common T g prec.toDbCommon prec.out_text) none
      (0, { g with global_fd_i2c := fd }.store m 'C',
        { prec.toDbCommon with dpvt := some (slot m 'C') }) none := by
    rw [htext]
    unfold init_record_common
    by_cases hg : g.global_fd_i2c < 0
    · refine ⟨0, ?_⟩
      rw [if_pos hg]
      refine returns_vis.mpr ⟨(0 : ℤ), none, ?_, ?_⟩
      · exact ⟨⟨[], returns_vis.mpr ⟨(0 : ℤ), [], rfl, .refl _ _⟩⟩, rfl⟩
      · show Returns _ (init_record_text T { g with global_fd_i2c := 0 } prec.toDbCommon (some text))
          _ _ _
        rw [init_record_text_accepted hacc]
        exact .refl _ _
    · refine ⟨g.global_fd_i2c, ?_⟩
      rw [if_neg hg, init_record_text_accepted hacc]
      exact .refl _ _
  obtain ⟨fd, hcommon⟩ := hcommon
  refine ⟨(2, { g with global_fd_i2c := fd }.store m 'C', { prec with
    dpvt := some (slot m 'C')
    val := .fin cfg₀.toNat
    udf := true }), returns_bind.mpr ⟨_, _, hcommon, ?_⟩, rfl, rfl⟩
  simp only [private_entry, pure_eq, bind_eq, ret_bind, Globals.store_self, ne_eq,
    not_true_eq_false, if_false]
  rw [if_neg (by decide)]
  exact returns_bind.mpr ⟨_, _, returns_config_failed fd m prec.val none, .refl _ _⟩

theorem failed_ao_iff {prec : AoRecord} :
    FailedReadBackKeeps T g prec cfg₀ ↔
      ∀ m, accepted_link T prec.out_text = some (m, 'C') → prec.val = .fin cfg₀.toNat := by
  constructor
  · intro hkeeps m hacc
    obtain ⟨r, hrun, htwo, hval⟩ := returns_ao_failed g cfg₀ hacc
    rw [← hval]
    exact (hkeeps r _ hrun htwo (by decide)).1.symm
  · intro hcond r w' hrun htwo hno
    obtain ⟨hudf, m, ch, hacc, hval⟩ := wp_returns wp_failed_ao hrun htwo hno
    refine ⟨?_, hudf⟩
    rw [hval]
    unfold failed_val
    split_ifs with hC
    · exact (hcond m (hC ▸ hacc)).symm
    · rfl

end Records

/-- **When a failed read leaves the value alone**: unless the letter is C, whose reads copy an
uninitialised byte to VAL. -/
theorem failed_reads_keep_iff (T : Target) {g : Globals} {ai : AiRecord} {n : ℤ} {what : Char}
    (hp : Entry g ai.toDbCommon n what) (g' : Globals) (ao : AoRecord) (cfg₀ : UInt8) :
    (FailedReadKeeps T g ai cfg₀ ↔ (what = 'C' → ai.val = .fin cfg₀.toNat)) ∧
    (FailedReadBackKeeps T g' ao cfg₀ ↔
      ∀ m, accepted_link T ao.out_text = some (m, 'C') → ao.val = .fin cfg₀.toNat) :=
  ⟨failed_ai_iff hp, failed_ao_iff⟩

/-- The private data of a record with text "0" and a letter. -/
def zero_entry (what : Char) : Globals := ⟨3, fun _ => ⟨0, what⟩⟩

/-- An ai record with VAL 20. -/
def twenty : AiRecord := { (default : AiRecord) with dpvt := some 0, val := 20 }

theorem twenty_entry (what : Char) : Entry (zero_entry what) twenty.toDbCommon 0 what :=
  ⟨0, rfl, rfl, by decide, by decide⟩

/-- A temperature and the text "0 S". -/
theorem failed_reads_keep_temperature :
    FailedReadKeeps ⟨false, fun _ => 0, id⟩ (zero_entry ' ') twenty 255 ∧
      FailedReadBackKeeps ⟨false, fun _ => 0, id⟩ (zero_entry 'S')
        { (default : AoRecord) with out_text := some "0 S".toList } 255 := by
  have h := failed_reads_keep_iff ⟨false, fun _ => 0, id⟩ (twenty_entry ' ') (zero_entry 'S')
    { (default : AoRecord) with out_text := some "0 S".toList } 255
  refine ⟨h.1.mpr fun hC => absurd hC (by decide), h.2.mpr fun m hacc => ?_⟩
  have hletter : accepted_link ⟨false, fun _ => 0, id⟩ (some "0 S".toList) = some (0, 'S') := by
    decide
  rw [hletter] at hacc
  simp at hacc

/-- The letter C: VAL becomes 255. -/
theorem not_failed_reads_keep_config :
    ¬ FailedReadKeeps ⟨false, fun _ => 0, id⟩ (zero_entry 'C') twenty 255 := by
  intro hkeeps
  have hval := (failed_ai_iff (twenty_entry 'C')).mp hkeeps rfl
  exact absurd hval (by decide +kernel)

end RackmonIoc.Temp
