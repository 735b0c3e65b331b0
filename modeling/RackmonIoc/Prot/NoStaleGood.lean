import RackmonIoc.Driver.DevBiRackProt
import RackmonIoc.Driver.DevGpio

/-!
# The rack protection record

A bi record whose value comes from pin 44.  The driver decides about VAL and UDF, the record support
about the alarm; after every processing the two together show the reading that was just made
(`Shows`), and over a run VAL is the last valid reading and the log has one message for every valid
low reading made while VAL was not zero.
-/

namespace RackmonIoc.Prot

open Program CLib Base Driver Prog Driver.Gpio

/-! ### Readings -/

/-- The value of a valid reading. -/
def value : Reading → Option ℕ
  | .low => some 0
  | .high => some 1
  | .error => none

/-- The last valid reading, and `v` if there is none. -/
def lastValid (v : ℕ) (rs : List Reading) : ℕ := rs.foldl (fun v r => (value r).getD v) v

/-- How many of the readings are low while the last valid one before is not zero. -/
def drops (v : ℕ) : List Reading → ℕ
  | [] => 0
  | r :: rs => (if r = .low ∧ v ≠ 0 then 1 else 0) + drops ((value r).getD v) rs

@[simp] theorem lastValid_append (v : ℕ) (rs : List Reading) (r : Reading) :
    lastValid v (rs ++ [r]) = (value r).getD (lastValid v rs) := by
  simp [lastValid]

@[simp] theorem drops_append (v : ℕ) (rs : List Reading) (r : Reading) :
    drops v (rs ++ [r]) = drops v rs + if r = .low ∧ lastValid v rs ≠ 0 then 1 else 0 := by
  induction rs generalizing v with
  | nil =>
    show _ + 0 = 0 + _
    rw [Nat.add_zero, Nat.zero_add]
    rfl
  | cons a rs ih =>
    have hlast : lastValid v (a :: rs) = lastValid ((value a).getD v) rs := rfl
    rw [List.cons_append, drops, drops, ih, hlast]
    omega

/-! ### The outside -/

/-- The readings made so far, and the messages logged, both oldest first. -/
structure World where
  readings : List Reading
  log : List String

/-- Pin 44 can be anything at each read; a pin write has any outcome. -/
def protEnv : Env DevSig World := fun w o r w' =>
  match o, r with
  | .gpio_read gpio, r => ∃ file, Returns (pinFile file) (gpio_read gpio) () r () ∧
      w' = { w with readings := w.readings ++ [reading file] }
  | .errlogPrintf message, _ => w' = { w with log := w.log ++ [message] }
  | _, _ => w' = w

/-! ### The record -/

/-- The record as it is configured in the database: SIMM is NO, and the severities are those of
`RackmonIoc.db`. -/
structure RackProt (prec : BiRecord) : Prop where
  simm : prec.simm = .NO
  udfs : prec.udfs = .INVALID
  zsv : prec.zsv = .MAJOR
  osv : prec.osv = .NO_ALARM
  cosv : prec.cosv = .NO_ALARM
  nsev : prec.nsev = .NO_ALARM

/-- The record after a processing shows the reading that was made. -/
def Shows (prec prec' : BiRecord) : Reading → Prop
  | .low => prec'.val = 0 ∧ prec'.udf = false ∧ prec'.sevr = .MAJOR ∧ prec'.stat = .STATE
  | .high => prec'.val = 1 ∧ prec'.udf = false ∧ prec'.sevr = .NO_ALARM
  | .error => prec'.val = prec.val ∧ prec'.udf = true ∧ prec'.sevr = .INVALID ∧ prec'.stat = .UDF

/-- The link does not change `a`, and raises no alarm. -/
def Leaves {α : Type} (a : α) (l : Link α) : Prop :=
  l = .constant ∨ ∃ stat, l = .read 0 a stat .NO_ALARM

section Alarms

variable {prec : BiRecord}

theorem checkAlarms_udf (h : RackProt prec) (hudf : prec.udf = true) :
    prec.checkAlarms = { prec with nsta := .UDF, nsev := prec.udfs } := by
  have hudfs : prec.udfs ≠ .NO_ALARM := by
    rw [h.udfs]
    decide
  unfold BiRecord.checkAlarms
  rw [if_pos hudf, BiRecord.setSevr_first h.nsev _ hudfs]

/-- A change of state has no alarm of its own. -/
theorem checkAlarms_valid (h : RackProt prec) (hudf : prec.udf = false) (hval : prec.val ≤ 1) :
    prec.checkAlarms = { prec.setSevr .STATE (if prec.val = 0 then prec.zsv else prec.osv) with
      lalm := prec.val } := by
  have hcos : ∀ q : BiRecord, q.cosv = .NO_ALARM →
      (if q.val = q.lalm then q else { q.setSevr .COS q.cosv with lalm := q.val }) =
        { q with lalm := q.val } := by
    intro q hq
    have hsame : q.setSevr .COS q.cosv = q := by
      rw [hq]
      exact BiRecord.setSevr_no_alarm q .COS
    rw [hsame]
    split
    case isTrue heq =>
      cases q
      cases heq
      rfl
    case isFalse => rfl
  unfold BiRecord.checkAlarms
  rw [if_neg (by simp [hudf]), if_neg (by omega)]
  exact hcos _ h.cosv

theorem checkAlarms_low (h : RackProt prec) (hudf : prec.udf = false) (hval : prec.val = 0) :
    prec.checkAlarms = { prec with nsta := .STATE, nsev := prec.zsv, lalm := prec.val } := by
  have hzsv : prec.zsv ≠ .NO_ALARM := by
    rw [h.zsv]
    decide
  rw [checkAlarms_valid h hudf (by omega), if_pos hval, BiRecord.setSevr_first h.nsev _ hzsv]

theorem checkAlarms_high (h : RackProt prec) (hudf : prec.udf = false) (hval : prec.val = 1) :
    prec.checkAlarms = { prec with lalm := prec.val } := by
  have hosv : prec.setSevr .STATE prec.osv = prec := by
    rw [h.osv, BiRecord.setSevr_no_alarm]
  rw [checkAlarms_valid h hudf (by omega), if_neg (by omega), hosv]

end Alarms

/-! ### One processing -/

/-- What a processing leaves as it is. -/
structure Kept (prec prec' : BiRecord) : Prop where
  rackProt : RackProt prec'
  name : prec'.name = prec.name

/-- The record that `read_bi` leaves for the reading `r`, with the status it returns. -/
def afterRead (prec : BiRecord) (r : Reading) : ℤ × BiRecord :=
  match value r with
  | some v => (2, { prec with val := v, udf := false })
  | none => (-1, { prec with udf := true })

/-- **What a processing shows.**  The monitor step makes the new alarm the current one. -/
theorem finish_shows {prec : BiRecord} (h : RackProt prec) (r : Reading) :
    Kept prec (BiRecord.finish (afterRead prec r).1 (afterRead prec r).2).2 ∧
      Shows prec (BiRecord.finish (afterRead prec r).1 (afterRead prec r).2).2 r := by
  have hactive : ∀ val udf, RackProt { prec with val := val, udf := udf, pact := true } :=
    fun _ _ => ⟨h.simm, h.udfs, h.zsv, h.osv, h.cosv, h.nsev⟩
  cases r with
  | low =>
    show Kept prec (BiRecord.finish 2 { prec with val := 0, udf := false }).2 ∧
      Shows prec (BiRecord.finish 2 { prec with val := 0, udf := false }).2 .low
    rw [BiRecord.finish_of_ne_zero (by omega), checkAlarms_low (hactive 0 false) rfl rfl]
    exact ⟨⟨⟨h.simm, h.udfs, h.zsv, h.osv, h.cosv, rfl⟩, rfl⟩, rfl, rfl, h.zsv, rfl⟩
  | high =>
    show Kept prec (BiRecord.finish 2 { prec with val := 1, udf := false }).2 ∧
      Shows prec (BiRecord.finish 2 { prec with val := 1, udf := false }).2 .high
    rw [BiRecord.finish_of_ne_zero (by omega), checkAlarms_high (hactive 1 false) rfl rfl]
    exact ⟨⟨⟨h.simm, h.udfs, h.zsv, h.osv, h.cosv, rfl⟩, rfl⟩, rfl, rfl, h.nsev⟩
  | error =>
    show Kept prec (BiRecord.finish (-1) { prec with udf := true }).2 ∧
      Shows prec (BiRecord.finish (-1) { prec with udf := true }).2 .error
    rw [BiRecord.finish_of_ne_zero (by omega), checkAlarms_udf (hactive prec.val true) rfl]
    exact ⟨⟨⟨h.simm, h.udfs, h.zsv, h.osv, h.cosv, rfl⟩, rfl⟩, rfl, rfl, h.udfs, rfl⟩

/-- What a call of `read_bi` does with the reading it makes. -/
theorem wp_read_bi (hb : UInt32) (prec : BiRecord) (w : World) :
    wp protEnv (fun _ _ => True) (fun res w' => ∃ r, w'.readings = w.readings ++ [r] ∧
      w'.log = w.log ++ List.replicate (if r = .low ∧ prec.val ≠ 0 then 1 else 0)
        (zero_message prec.name) ∧
      res.1 = (afterRead prec r).1 ∧ res.2.2 = (afterRead prec r).2) (read_bi hb prec) w := by
  refine ⟨trivial, ?_⟩
  rintro istat w₁ ⟨file, hread, rfl⟩
  obtain rfl : istat = (reading file).status := (gpio_read_pinFile (by omega) (by omega)).mp hread
  have hnone : ∀ {r : Reading}, ¬ (r = .low ∧ prec.val ≠ 0) → w.log = w.log ++
      List.replicate (if r = .low ∧ prec.val ≠ 0 then 1 else 0) (zero_message prec.name) := by
    intro r hr
    rw [if_neg hr]
    exact (List.append_nil _).symm
  cases reading file with
  | low =>
    show wp _ _ _ ((log_zero 0 prec).bind _) _
    rw [wp_bind, log_zero, wp_ite]
    constructor
    · intro hdrop
      refine ⟨trivial, ?_⟩
      rintro _ _ rfl
      refine ⟨trivial, ?_⟩
      rintro _ _ rfl
      refine ⟨.low, rfl, ?_, rfl, rfl⟩
      rw [if_pos ⟨rfl, hdrop.2⟩]
      rfl
    · intro hval
      refine ⟨trivial, ?_⟩
      rintro _ _ rfl
      exact ⟨.low, rfl, hnone fun h => hval ⟨rfl, h.2⟩, rfl, rfl⟩
  | high =>
    refine ⟨trivial, ?_⟩
    rintro _ _ rfl
    exact ⟨.high, rfl, hnone fun h => (nomatch h.1), rfl, rfl⟩
  | error =>
    refine ⟨trivial, ?_⟩
    rintro _ _ rfl
    exact ⟨.error, rfl, hnone fun h => (nomatch h.1), rfl, rfl⟩

/-- A link that leaves SIMM at NO lets the device support read the value. -/
theorem readValue_eq {l : BiLinks} (hl : Leaves .NO l.siml) {prec : BiRecord} (h : prec.simm = .NO)
    (hb : UInt32) : BiRecord.readValue read_bi l hb prec = read_bi hb prec := by
  have hlink : l.siml.get Simm.NO = (0, .NO) ∧
      l.siml.raise prec.toDbCommon = prec.toDbCommon := by
    obtain hl | ⟨stat, hl⟩ := hl
    · rw [hl]
      exact ⟨rfl, rfl⟩
    · rw [hl]
      exact ⟨rfl, recGblSetSevr_no_alarm _ _⟩
  have hsame : ({ prec with simm := .NO } : BiRecord) = prec := by rw [← h]
  unfold BiRecord.readValue
  simp only [h, hlink.1, hlink.2, hsame, ne_eq, not_true_eq_false, if_false, ite_self]

/-- One processing of the record: the heartbeat counter and the record after it. -/
def processing (l : BiLinks) (s : UInt32 × BiRecord) : Prog DevSig (UInt32 × BiRecord) :=
  (BiRecord.process read_bi l s.1 s.2).bind fun r => ret (r.2.1, r.2.2)

/-- What a processing adds to the world, and leaves in the record, for the reading `r`. -/
structure Processed (prec : BiRecord) (w : World) (r : Reading) (prec' : BiRecord) (w' : World) :
    Prop where
  readings : w'.readings = w.readings ++ [r]
  log : w'.log = w.log ++ List.replicate (if r = .low ∧ prec.val ≠ 0 then 1 else 0)
    (zero_message prec.name)
  kept : Kept prec prec'
  shows : Shows prec prec' r

/-- **One processing** makes one reading, and the record shows it. -/
theorem wp_processing {l : BiLinks} (hl : Leaves .NO l.siml) {s : UInt32 × BiRecord}
    (h : RackProt s.2) (w : World) :
    wp protEnv (fun _ _ => True) (fun s' w' => ∃ r, Processed s.2 w r s'.2 w') (processing l s) w := by
  obtain ⟨hb, prec⟩ := s
  have hpact : ∀ r, (afterRead prec r).2.pact = prec.pact := by
    intro r
    cases r <;> rfl
  unfold processing BiRecord.process
  show wp _ _ _ (((BiRecord.readValue read_bi l hb prec).bind _).bind _) _
  rw [readValue_eq hl h.simm, wp_bind, wp_bind]
  apply wp_conseq (wp_read_bi hb prec w)
  rintro ⟨status, hb', prec'⟩ w' ⟨r, hreadings, hlog, hstatus, hprec⟩
  obtain rfl : status = (afterRead prec r).1 := hstatus
  obtain rfl : prec' = (afterRead prec r).2 := hprec
  have hdone : (!prec.pact && (afterRead prec r).2.pact) = false := by
    rw [hpact r]
    cases prec.pact <;> rfl
  show wp _ _ _ (if (!prec.pact && (afterRead prec r).2.pact) = true then _ else _) _
  rw [hdone]
  obtain ⟨hkept, hshows⟩ := finish_shows h r
  exact ⟨r, hreadings, hlog, hkept, hshows⟩

/-! ### Runs -/

/-- What holds after `n` processings: the record is still the configured one, and VAL and the log are
those of all the readings. -/
structure RunInv (prec₀ : BiRecord) (n : ℕ) (s : UInt32 × BiRecord) (w : World) : Prop where
  kept : Kept prec₀ s.2
  count : w.readings.length = n
  val : s.2.val = lastValid prec₀.val w.readings
  log : w.log = List.replicate (drops prec₀.val w.readings) (zero_message prec₀.name)

theorem Shows.val_eq {prec prec' : BiRecord} {r : Reading} (h : Shows prec prec' r) :
    prec'.val = (value r).getD prec.val := by
  cases r with
  | low => exact h.1
  | high => exact h.1
  | error => exact h.1

theorem Shows.good_iff {prec prec' : BiRecord} {r : Reading} (h : Shows prec prec' r) :
    prec'.sevr = .NO_ALARM ↔ r = .high := by
  cases r with
  | low =>
    rw [h.2.2.1]
    decide
  | high => exact ⟨fun _ => rfl, fun _ => h.2.2⟩
  | error =>
    rw [h.2.2.1]
    decide

/-- A processing keeps the invariant. -/
theorem RunInv.processed {prec₀ : BiRecord} {n : ℕ} {s s' : UInt32 × BiRecord} {w w' : World}
    {r : Reading} (h : RunInv prec₀ n s w) (hp : Processed s.2 w r s'.2 w') :
    RunInv prec₀ (n + 1) s' w' := by
  refine ⟨⟨hp.kept.rackProt, hp.kept.name.trans h.kept.name⟩, ?_, ?_, ?_⟩
  · rw [hp.readings, List.length_append, h.count]
    rfl
  · rw [hp.shows.val_eq, h.val, hp.readings, lastValid_append]
  · rw [hp.log, h.log, hp.readings, drops_append, h.kept.name, h.val, List.replicate_add]

/-- **The rack protection record never shows a stale Good.** -/
theorem never_stale_good {prec₀ : BiRecord} (h : RackProt prec₀) {ls : List BiLinks} {l : BiLinks}
    (hls : ∀ l' ∈ ls, Leaves .NO l'.siml) (hl : Leaves .NO l.siml) {hb₀ : UInt32}
    {s s' : UInt32 × BiRecord} {w w' : World}
    (hrun : Returns (Env.tag protEnv) (session processing ls (hb₀, prec₀)) ⟨[], []⟩ s w)
    (hlast : Returns protEnv (processing l s) w s' w') :
    ∃ r, w'.readings = w.readings ++ [r] ∧ w'.readings.length = ls.length + 1 ∧
      Shows s.2 s'.2 r ∧ s'.2.val = lastValid prec₀.val w'.readings ∧
      (s'.2.sevr = .NO_ALARM ↔ r = .high) ∧
      w'.log = List.replicate (drops prec₀.val w'.readings) (zero_message prec₀.name) := by
  have hstep : ∀ pre c post, ls = pre ++ c :: post → ∀ s w, RunInv prec₀ pre.length s w →
      wp protEnv (fun _ _ => True) (fun s' w' => RunInv prec₀ (pre ++ [c]).length s' w')
        (processing c s) w := by
    intro pre c post hpre s w hinv
    have hc : Leaves .NO c.siml := hls c (by simp [hpre])
    refine wp_conseq (wp_processing hc hinv.kept.rackProt w) fun s' w' hp => ?_
    obtain ⟨r, hp⟩ := hp
    rw [List.length_append]
    exact hinv.processed hp
  have hstart : RunInv prec₀ 0 (hb₀, prec₀) ⟨[], []⟩ := ⟨⟨h, rfl⟩, rfl, rfl, rfl⟩
  have hruns := wp_session_prefix (G := fun _ _ => True)
    (I := fun pre s w => RunInv prec₀ pre.length s w) hstep hstart
  have hinv : RunInv prec₀ ls.length s w := wp_returns hruns hrun
  have hprocessed := wp_returns (wp_processing hl hinv.kept.rackProt w) hlast
  obtain ⟨r, hp⟩ := hprocessed
  have hinv' := hinv.processed hp
  exact ⟨r, hp.readings, hinv'.count, hp.shows, hinv'.val, hp.shows.good_iff, hinv'.log⟩

/-! ### Every sequence of readings -/

/-- The file of the pin in which there is the reading to read. -/
def fileOf : Reading → Option ℤ
  | .low => some 48
  | .high => some 49
  | .error => none

theorem reading_fileOf (r : Reading) : reading (fileOf r) = r := by
  cases r <;> rfl

/-- The outside in which the reading number `i` is `plan i`, and no pin write fails. -/
def planned (plan : ℕ → Reading) (w : World) : (o : DevOp) → Option (o.Reply × World)
  | .gpio_read gpio =>
    if 0 ≤ gpio ∧ gpio ≤ 999 then
      some ((plan w.readings.length).status,
        { w with readings := w.readings ++ [plan w.readings.length] })
    else none
  | .gpio_write _ _ => some ((0 : ℤ), w)
  | .errlogPrintf message => some ((), { w with log := w.log ++ [message] })
  | _ => none

/-- It is one of the outsides that the record has to live with. -/
theorem planned_protEnv (plan : ℕ → Reading) (w : World) (o : DevOp) (r : o.Reply) (w' : World)
    (h : planned plan w o = some (r, w')) : protEnv w o r w' := by
  cases o with
  | gpio_read gpio =>
    simp only [planned, Option.ite_none_right_eq_some, Option.some.injEq, Prod.mk.injEq] at h
    obtain ⟨⟨h0, h999⟩, rfl, rfl⟩ := h
    refine ⟨fileOf (plan w.readings.length), ?_, by rw [reading_fileOf]⟩
    rw [gpio_read_pinFile h0 h999, reading_fileOf]
  | gpio_write gpio state =>
    simp only [planned, Option.some.injEq, Prod.mk.injEq] at h
    exact h.2.symm
  | errlogPrintf message =>
    simp only [planned, Option.some.injEq, Prod.mk.injEq] at h
    exact h.2.symm
  | _ => exact nomatch h

/-- A high reading, and then an error. -/
theorem never_stale_good_error :
    let prec : BiRecord :=
      { (default : BiRecord) with name := "RackProt", udfs := .INVALID, zsv := .MAJOR }
    let l : BiLinks := ⟨.constant, .constant⟩
    ∃ s w s' w', Returns (Env.tag protEnv) (session processing [l] (0, prec)) ⟨[], []⟩ s w ∧
      Returns protEnv (processing l s) w s' w' ∧ w'.readings = [.high, .error] ∧
      s'.2.val = lastValid prec.val [.high, .error] ∧ s'.2.sevr ≠ .NO_ALARM := by
  intro prec l
  have hprec : RackProt prec := ⟨rfl, rfl, rfl, rfl, rfl, rfl⟩
  have hl : Leaves .NO l.siml := .inl rfl
  let s₁ : UInt32 × BiRecord := (1, { prec with val := 1, lalm := 1 })
  let plan : ℕ → Reading := fun i => if i = 0 then .high else .error
  have hfirst : exec (planned plan) (processing l (0, prec)) ⟨[], []⟩ = some (s₁, ⟨[.high], []⟩) := rfl
  have hsecond : ∃ s', exec (planned plan) (processing l s₁) ⟨[.high], []⟩ =
      some (s', ⟨[.high, .error], []⟩) := ⟨_, rfl⟩
  obtain ⟨s', hsecond⟩ := hsecond
  have hlast := returns_of_exec (planned_protEnv plan) hsecond
  have hrun : Returns (Env.tag protEnv) (session processing [l] (0, prec)) ⟨[], []⟩ s₁
      ⟨[.high], []⟩ :=
    returns_bind.mpr ⟨s₁, _, returns_tag.mpr (returns_of_exec (planned_protEnv plan) hfirst),
      .refl _ _⟩
  obtain ⟨r, hr, -, -, hval, hgood, -⟩ :=
    never_stale_good hprec (fun l' hl' => by rwa [List.mem_singleton.mp hl']) hl hrun hlast
  obtain rfl : r = .error := by simpa using hr.symm
  exact ⟨_, _, _, _, hrun, hlast, rfl, hval, fun h => nomatch hgood.mp h⟩

end RackmonIoc.Prot
