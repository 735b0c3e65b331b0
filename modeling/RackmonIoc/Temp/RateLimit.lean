import RackmonIoc.CLib.Distance
import RackmonIoc.Temp.FailedWrite

/-!
# The rate limit of an output

The ao record keeps two values: VAL, within the drive limits, and OVAL, which comes no further than OROC
from the OVAL before.  `write_ao` passes VAL.

* `rate_eq_iff` says when the two are the same;
* `RateRun` is any number of processings, with values put into VAL in between;
* `honours_rate_limit_iff` says in which runs the probe gets OVAL.
-/

namespace RackmonIoc.Temp

open Program CLib Base Driver Prog

/-! ### The limit -/

section Limit

variable {prec : AoRecord}

/-- **The record is limited**: there is a limit, and VAL is further than that from OVAL. -/
def Limited (prec : AoRecord) : Prop :=
  prec.oroc ≠ 0 ∧ Double.Apart prec.oroc (prec.drive prec.val) prec.oval

instance (prec : AoRecord) : Decidable (Limited prec) := by unfold Limited; infer_instance

/-- The two values of `rate`: a limited one is one step from OVAL. -/
theorem rate_cases (h0 : 0 ≤ prec.oroc) (h : prec.oroc ≠ 0) (value : Double) :
    (¬ Double.Apart prec.oroc value prec.oval ∧ prec.rate value = value) ∨
      (Double.Apart prec.oroc value prec.oval ∧
        (prec.rate value = prec.oval - prec.oroc ∨ prec.rate value = prec.oval + prec.oroc)) := by
  have hne : ¬ prec.oroc.eq 0 = true := fun heq => h ((Double.eq_zero_iff _).mp heq)
  have hapart := Double.apart_iff h0 value prec.oval
  unfold AoRecord.rate
  rw [if_neg hne]
  by_cases hneg : value - prec.oval < 0
  · rw [if_pos hneg] at hapart
    by_cases hfar : prec.oroc < -(value - prec.oval)
    · exact .inr ⟨hapart.mpr hfar, .inl (by simp only [if_pos hneg, if_pos hfar])⟩
    · exact .inl ⟨fun ha => hfar (hapart.mp ha), by simp only [if_pos hneg, if_neg hfar]⟩
  · rw [if_neg hneg] at hapart
    by_cases hfar : prec.oroc < value - prec.oval
    · exact .inr ⟨hapart.mpr hfar, .inr (by simp only [if_neg hneg, if_pos hfar])⟩
    · exact .inl ⟨fun ha => hfar (hapart.mp ha), by simp only [if_neg hneg, if_neg hfar]⟩

/-- **The limit keeps its distance.** -/
theorem not_apart_rate (h0 : 0 ≤ prec.oroc) (h : prec.oroc ≠ 0) (value : Double) :
    ¬ Double.Apart prec.oroc (prec.rate value) prec.oval := by
  rcases rate_cases h0 h value with ⟨hnear, heq⟩ | ⟨-, heq | heq⟩
  · rw [heq]
    exact hnear
  · rw [heq]
    exact Double.not_apart_sub h0 prec.oval
  · rw [heq]
    exact Double.not_apart_add h0 prec.oval

/-- **OVAL is VAL unless the record is limited.** -/
theorem rate_eq_iff (h0 : 0 ≤ prec.oroc) :
    prec.rate (prec.drive prec.val) = prec.drive prec.val ↔ ¬ Limited prec := by
  unfold Limited
  by_cases h : prec.oroc = 0
  · unfold AoRecord.rate
    rw [if_pos ((Double.eq_zero_iff _).mpr h)]
    exact ⟨fun _ hl => hl.1 h, fun _ => rfl⟩
  · have hkeep := not_apart_rate h0 h (prec.drive prec.val)
    constructor
    · rintro heq ⟨-, hapart⟩
      rw [heq] at hkeep
      exact hkeep hapart
    · intro hl
      rcases rate_cases h0 h (prec.drive prec.val) with ⟨-, heq⟩ | ⟨hapart, -⟩
      · exact heq
      · exact absurd ⟨h, hapart⟩ hl

end Limit

/-! ### One processing -/

/-- The fields that the limit and the way of a value to the probe depend on. -/
structure SameSettings (prec q : AoRecord) : Prop where
  dpvt : q.dpvt = prec.dpvt
  pact : q.pact = prec.pact
  simm : q.simm = prec.simm
  ivoa : q.ivoa = prec.ivoa
  closed_loop : q.closed_loop = prec.closed_loop
  oroc : q.oroc = prec.oroc
  drvh : q.drvh = prec.drvh
  drvl : q.drvl = prec.drvl

/-- The settings, with the values VAL and OVAL. -/
structure HasOutput (prec : AoRecord) (val oval : Double) (q : AoRecord) : Prop
    extends SameSettings prec q where
  val : q.val = val
  oval : q.oval = oval

/-- A part of the processing that raises alarms at most. -/
theorem HasOutput.alarm {prec q : AoRecord} {val oval : Double} (h : HasOutput prec val oval q)
    {common : DbCommon} (hcommon : NewAlarm q.toDbCommon common) (lalm : Double) :
    HasOutput prec val oval { q with toDbCommon := common, lalm := lalm } :=
  ⟨⟨hcommon.dpvt.trans h.dpvt, hcommon.pact.trans h.pact, h.simm, h.ivoa, h.closed_loop, h.oroc, h.drvh,
    h.drvl⟩, h.val, h.oval⟩

theorem HasOutput.checkAlarms {prec q : AoRecord} {val oval : Double}
    (h : HasOutput prec val oval q) : HasOutput prec val oval q.checkAlarms := by
  unfold AoRecord.checkAlarms
  split_ifs
  · exact h.alarm (recGblSetSevr_newAlarm q.toDbCommon .UDF q.udfs) q.lalm
  · exact h.alarm (recGblSetSevr_newAlarm q.toDbCommon .HIHI q.hhsv) _
  · exact h.alarm (recGblSetSevr_newAlarm q.toDbCommon .LOLO q.llsv) _
  · exact h.alarm (recGblSetSevr_newAlarm q.toDbCommon .HIGH q.hsv) _
  · exact h.alarm (recGblSetSevr_newAlarm q.toDbCommon .LOW q.lsv) _
  · exact h.alarm ⟨q.nsta, q.nsev, rfl⟩ q.val

/-- **The two values that `convert` computes.** -/
theorem convert_output (l : AoLinks) (prec : AoRecord) (value : Double) :
    HasOutput prec (prec.drive value) (prec.rate (prec.drive value)) (prec.convert l value) := by
  obtain ⟨rval, common, hcommon, -, heq⟩ := convert_eq l prec value
  rw [heq]
  exact ⟨⟨hcommon.dpvt, hcommon.pact, rfl, rfl, rfl, rfl, rfl, rfl⟩, rfl, rfl⟩

/-- Without a closed loop the present VAL is converted. -/
theorem newValue_output {l : AoLinks} {prec : AoRecord} (hpact : prec.pact = false)
    (hloop : prec.closed_loop = false) :
    HasOutput prec (prec.drive prec.val) (prec.rate (prec.drive prec.val)) (prec.newValue l).2 := by
  have hconvert := convert_output l prec prec.val
  have hnew : (prec.newValue l).2 =
      { prec.convert l prec.val with udf := (prec.convert l prec.val).val.isnan } := by
    unfold AoRecord.newValue
    rw [hpact, hloop]
    cases l.dol <;> rfl
  rw [hnew]
  exact ⟨⟨hconvert.dpvt, hconvert.pact, hconvert.simm, hconvert.ivoa, hconvert.closed_loop,
    hconvert.oroc, hconvert.drvh, hconvert.drvl⟩, hconvert.val, hconvert.oval⟩

/-- The device support, with the value that `access_ds75_details` is called with. -/
def passDev : Env DevSig (Option Double) := fun w o _ w' =>
  match o with
  | .access_ds75_details _ _ T_OS T_HYST _ _ => w' = T_OS.or T_HYST
  | _ => w' = w

/-- The device support of the record is `write_ao`, for the globals `g`.  The world is the value passed
in this processing, `none` where `access_ds75_details` is not called. -/
def passEnv (T : Target) (g : Globals) : Env AoSig (Option Double) := fun w o r w' =>
  match o, r with
  | .write_ao prec, r => Returns passDev (write_ao T g prec) w r w'
  | _, _ => w' = w

section Processing

variable {T : Target} {g : Globals} {l : AoLinks} {prec : AoRecord} {n : ℤ} {what : Char}

theorem passDev_gpio (w : Option Double) (gpio state r : ℤ) (w' : Option Double) :
    passDev w (.gpio_write gpio state) r w' ↔ w' = w := Iff.rfl

/-- **`write_ao` passes VAL**, if the selection works. -/
theorem wp_pass_write_ao (hp : Entry g prec.toDbCommon n what) (hwhat : what = 'H' ∨ what = 'L') :
    wp passDev (fun _ _ => True) (fun r passed => (∃ udf, r.2 = { prec with udf := udf }) ∧
      (passed = none ∨ passed = some prec.val)) (write_ao T g prec) none := by
  have hresult : ∀ ierr, ∃ udf, (ao_result prec ierr).2 = { prec with udf := udf } := by
    intro ierr
    unfold ao_result
    split
    · exact ⟨false, rfl⟩
    · exact ⟨true, rfl⟩
  rw [write_ao_entry T hp, wp_bind]
  refine wp_conseq (wp_select_keeps (fun w gpio state r w' => (passDev_gpio w gpio state r w').mp)
    (n % 8) none) ?_
  rintro sel passed rfl
  rw [wp_bind, wp_ite]
  refine ⟨fun _ => ⟨hresult _, .inl rfl⟩, fun _ => ?_⟩
  rcases hwhat with rfl | rfl
  · exact ⟨trivial, fun r passed hpassed => ⟨hresult _, .inr hpassed⟩⟩
  · exact ⟨trivial, fun r passed hpassed => ⟨hresult _, .inr hpassed⟩⟩

/-- A selection can work. -/
theorem returns_pass_write_ao (hp : Entry g prec.toDbCommon n what)
    (hwhat : what = 'H' ∨ what = 'L') :
    ∃ r, Returns passDev (write_ao T g prec) none r (some prec.val) := by
  obtain ⟨-, -, -, h0, -⟩ := id hp
  have hcall : Returns passDev (write_what T g.global_fd_i2c (n / 8) what prec.val) none 0
      (some prec.val) := by
    rcases hwhat with rfl | rfl
    · exact returns_vis.mpr ⟨(⟨0, none, none, none⟩ : Details), some prec.val, rfl, .refl _ _⟩
    · exact returns_vis.mpr ⟨(⟨0, none, none, none⟩ : Details), some prec.val, rfl, .refl _ _⟩
  refine ⟨ao_result prec 0, ?_⟩
  rw [write_ao_entry T hp]
  refine returns_bind.mpr ⟨0, none, returns_select (by omega) (by omega) fun _ _ => rfl, ?_⟩
  rw [if_neg (lt_irrefl 0)]
  exact returns_bind.mpr ⟨0, some prec.val, hcall, .refl _ _⟩

/-- An ao record of the probe `n` with a rate limit, as it is configured when it is processed. -/
structure RateConfigured (g : Globals) (n : ℤ) (what : Char) (prec : AoRecord) : Prop where
  entry : Entry g prec.toDbCommon n what
  pact : prec.pact = false
  simm : prec.simm = .NO
  ivoa : prec.ivoa = .Continue_normally
  closed_loop : prec.closed_loop = false
  oroc : 0 ≤ prec.oroc

theorem RateConfigured.same {q : AoRecord} (h : RateConfigured g n what prec)
    (hs : SameSettings prec q) : RateConfigured g n what q := by
  obtain ⟨i, hi, hentry⟩ := h.entry
  refine ⟨⟨i, hs.dpvt.trans hi, hentry⟩, hs.pact.trans h.pact, hs.simm.trans h.simm,
    hs.ivoa.trans h.ivoa, hs.closed_loop.trans h.closed_loop, ?_⟩
  rw [hs.oroc]
  exact h.oroc

/-- The record that is written. -/
theorem RateConfigured.written (h : RateConfigured g n what prec) (l : AoLinks) :
    HasOutput prec (prec.drive prec.val) (prec.rate (prec.drive prec.val))
      (prec.newValue l).2.checkAlarms :=
  (newValue_output h.pact h.closed_loop).checkAlarms

/-- What is passed at a processing: nothing, or VAL within the drive limits. -/
def Passed (prec : AoRecord) (passed : Option Double) : Prop :=
  passed = none ∨ passed = some (prec.drive prec.val)

/-- The write through `write_ao`. -/
theorem wp_rate_writeValue {q : AoRecord} {val oval : Double} (h : RateConfigured g n what prec)
    (hwhat : what = 'H' ∨ what = 'L') (hl : (l.siml.get .NO).2 = .NO) (hq : HasOutput prec val oval q) :
    wp (passEnv T g) (fun _ _ => True) (fun r passed => HasOutput prec val oval r.2 ∧
      (passed = none ∨ passed = some val)) (q.writeValue l) none := by
  have hconfig := h.same hq.toSameSettings
  have hraise : NewAlarm q.toDbCommon (l.siml.raise q.toDbCommon) := l.siml.raise_newAlarm _
  have hsiml : HasOutput prec val oval
      { q with toDbCommon := l.siml.raise q.toDbCommon, simm := .NO } :=
    ⟨⟨hraise.dpvt.trans hq.dpvt, hraise.pact.trans hq.pact, h.simm.symm, hq.ivoa, hq.closed_loop,
      hq.oroc, hq.drvh, hq.drvl⟩, hq.val, hq.oval⟩
  rw [writeValue_eq hconfig.pact hconfig.simm hl, wp_ite]
  refine ⟨fun _ => ⟨hsiml, .inl rfl⟩, fun _ => ⟨trivial, fun r passed hr => ?_⟩⟩
  obtain ⟨⟨udf, hrecord⟩, hpassed⟩ :=
    wp_returns (wp_pass_write_ao (h.same hsiml.toSameSettings).entry hwhat) hr
  rw [hsiml.val] at hpassed
  refine ⟨?_, hpassed⟩
  show HasOutput prec val oval r.2
  rw [hrecord]
  exact ⟨⟨hsiml.dpvt, hsiml.pact, hsiml.simm, hsiml.ivoa, hsiml.closed_loop, hsiml.oroc, hsiml.drvh,
    hsiml.drvl⟩, hsiml.val, hsiml.oval⟩

/-- **One processing.** -/
theorem wp_rate_process (h : RateConfigured g n what prec) (hwhat : what = 'H' ∨ what = 'L')
    (hl : (l.siml.get .NO).2 = .NO) :
    wp (passEnv T g) (fun _ _ => True) (fun r passed =>
      HasOutput prec (prec.drive prec.val) (prec.rate (prec.drive prec.val)) r.2 ∧
      Passed prec passed) (prec.process l) none := by
  have hwritten := h.written l
  rw [AoRecord.process_continue (hwritten.ivoa.trans h.ivoa), wp_bind]
  refine wp_conseq (wp_rate_writeValue h hwhat hl hwritten) ?_
  rintro ⟨status, q⟩ passed ⟨hq, hpassed⟩
  have hdone : ¬ (!prec.pact && q.pact) = true := by
    rw [hq.pact, h.pact]
    decide
  rw [if_neg hdone]
  exact ⟨⟨⟨hq.dpvt, h.pact.symm, hq.simm, hq.ivoa, hq.closed_loop, hq.oroc, hq.drvh, hq.drvl⟩, hq.val,
    hq.oval⟩, hpassed⟩

end Processing

/-! ### Runs -/

/-- A processing in a run: the record before it, the links, the value passed to `access_ds75_details`
(`none` where it is not called), and the record after it. -/
structure RateStep where
  before : AoRecord
  links : AoLinks
  passed : Option Double
  after : AoRecord

/-- The processing can go like this, and SIMM stays NO. -/
def RateStep.Runs (T : Target) (g : Globals) (st : RateStep) : Prop :=
  (st.links.siml.get .NO).2 = .NO ∧
    ∃ status, Returns (passEnv T g) (st.before.process st.links) none (status, st.after) st.passed

/-- A put to the value field, which says whether UDF is cleared. -/
def ValPut (prec prec' : AoRecord) : Prop := ∃ val udf, prec' = { prec with val := val, udf := udf }

/-- A run of processings from `prec`, with values put into VAL in between. -/
def RateRun (T : Target) (g : Globals) : AoRecord → List RateStep → Prop
  | _, [] => True
  | prec, st :: sts => ValPut prec st.before ∧ st.Runs T g ∧ RateRun T g st.after sts

/-- **The rate limit is honoured**: the value passed is the OVAL of the processing, and where there is
a limit, what two processings in a row pass does not differ by more than that. -/
def HonoursRateLimit (sts : List RateStep) : Prop :=
  (∀ st ∈ sts, ∀ v, st.passed = some v → v = st.after.oval) ∧
    ∀ pre a b post, sts = pre ++ a :: b :: post → 0 < b.before.oroc →
      ∀ v w, a.passed = some v → b.passed = some w → ¬ Double.Apart b.before.oroc w v

section Runs

variable {T : Target} {g : Globals} {prec : AoRecord} {n : ℤ} {what : Char} {sts : List RateStep}

theorem ValPut.same {prec' : AoRecord} (h : ValPut prec prec') : SameSettings prec prec' := by
  obtain ⟨val, udf, rfl⟩ := h
  exact ⟨rfl, rfl, rfl, rfl, rfl, rfl, rfl, rfl⟩

theorem ValPut.oval {prec' : AoRecord} (h : ValPut prec prec') : prec'.oval = prec.oval := by
  obtain ⟨val, udf, rfl⟩ := h
  rfl

/-- What a processing of a run does. -/
structure RateStep.Computes (st : RateStep) : Prop where
  same : SameSettings st.before st.after
  oroc : 0 ≤ st.before.oroc
  oval : st.after.oval = st.before.rate (st.before.drive st.before.val)
  passed : Passed st.before st.passed

/-- **One step of a run**: the record stays configured. -/
theorem rate_step {st : RateStep} (h : RateConfigured g n what prec) (hwhat : what = 'H' ∨ what = 'L')
    (hput : ValPut prec st.before) (hrun : st.Runs T g) :
    st.Computes ∧ RateConfigured g n what st.after := by
  obtain ⟨hl, status, hreturns⟩ := hrun
  have hbefore := h.same hput.same
  obtain ⟨houtput, hpassed⟩ := wp_returns (wp_rate_process hbefore hwhat hl) hreturns
  have hsame := houtput.toSameSettings
  exact ⟨⟨hsame, hbefore.oroc, houtput.oval, hpassed⟩, hbefore.same hsame⟩

/-- Every step of a run. -/
theorem rate_run (h : RateConfigured g n what prec) (hwhat : what = 'H' ∨ what = 'L')
    (hrun : RateRun T g prec sts) : ∀ st ∈ sts, st.Computes := by
  induction sts generalizing prec with
  | nil => exact fun st hst => nomatch hst
  | cons a sts ih =>
    obtain ⟨hput, hstep, hrest⟩ := hrun
    have ⟨hcomputes, hafter⟩ := rate_step h hwhat hput hstep
    intro st hst
    rcases List.mem_cons.mp hst with rfl | hst
    · exact hcomputes
    · exact ih hafter hrest st hst

/-- The OVAL of a processing is the one the next starts from. -/
theorem rate_run_oval {pre post : List RateStep} {a b : RateStep}
    (hrun : RateRun T g prec (pre ++ a :: b :: post)) : b.before.oval = a.after.oval := by
  induction pre generalizing prec with
  | nil => exact hrun.2.2.1.oval
  | cons x pre ih => exact ih hrun.2.2

/-- Only a step that passes OVAL is not limited. -/
theorem RateStep.Computes.passes_oval_iff {st : RateStep} (h : st.Computes) :
    (∀ v, st.passed = some v → v = st.after.oval) ↔ (st.passed ≠ none → ¬ Limited st.before) := by
  rw [← rate_eq_iff h.oroc, ← h.oval]
  rcases h.passed with hnone | hsome
  · simp [hnone]
  · rw [hsome]
    constructor
    · exact fun hpass _ => (hpass _ rfl).symm
    · intro heq v hv
      rw [← Option.some.inj hv, heq (by simp)]

/-- **When the rate limit is honoured**: in the runs in which no processing that writes is limited. -/
theorem honours_rate_limit_iff (h : RateConfigured g n what prec) (hwhat : what = 'H' ∨ what = 'L')
    (hrun : RateRun T g prec sts) :
    HonoursRateLimit sts ↔ ∀ st ∈ sts, st.passed ≠ none → ¬ Limited st.before := by
  have hsteps := rate_run h hwhat hrun
  constructor
  · intro hhonours st hst
    exact (hsteps st hst).passes_oval_iff.mp (hhonours.1 st hst)
  · intro hlimit
    have hpasses : ∀ st ∈ sts, ∀ v, st.passed = some v → v = st.after.oval :=
      fun st hst => (hsteps st hst).passes_oval_iff.mpr (hlimit st hst)
    refine ⟨hpasses, ?_⟩
    rintro pre a b post rfl hpos v w hv hw
    have hb := hsteps b (by simp)
    have hne : b.before.oroc ≠ 0 := by
      intro hzero
      rw [hzero] at hpos
      exact absurd hpos (by decide +kernel)
    rw [hpasses a (by simp) v hv, hpasses b (by simp) w hw, hb.oval, ← rate_run_oval hrun]
    exact not_apart_rate hb.oroc hne _

/-- A processing in which VAL is passed. -/
theorem exists_passed {l : AoLinks} (h : RateConfigured g n what prec)
    (hwhat : what = 'H' ∨ what = 'L') (hsiml : l.siml = .constant) :
    ∃ after, RateStep.Runs T g ⟨prec, l, some (prec.drive prec.val), after⟩ := by
  have hwritten := h.written l
  have hconfig := h.same hwritten.toSameSettings
  have hl : (l.siml.get Simm.NO).2 = .NO := by
    rw [hsiml]
    rfl
  have hstatus : ¬ (l.siml.get Simm.NO).1 ≠ 0 := by simp [hsiml, Link.get]
  have hentry : Entry g ({ (prec.newValue l).2.checkAlarms with
      toDbCommon := l.siml.raise (prec.newValue l).2.checkAlarms.toDbCommon
      simm := .NO } : AoRecord).toDbCommon n what := by
    rw [hsiml]
    exact hconfig.entry
  obtain ⟨r, hr⟩ := returns_pass_write_ao (T := T) hentry hwhat
  have hval : some (prec.newValue l).2.checkAlarms.val = some (prec.drive prec.val) := by
    rw [hwritten.val]
  have hwrite : Returns (passEnv T g) ((prec.newValue l).2.checkAlarms.writeValue l) none r
      (some (prec.drive prec.val)) := by
    rw [writeValue_eq hconfig.pact hconfig.simm hl, if_neg hstatus, ← hval]
    exact returns_vis.mpr ⟨r, _, hr, .refl _ _⟩
  obtain ⟨hq, -⟩ := wp_returns (wp_rate_writeValue h hwhat hl hwritten) hwrite
  have hdone : ¬ (!prec.pact && r.2.pact) = true := by
    rw [hq.pact, h.pact]
    decide
  refine ⟨{ r.2.monitor with init := false, pact := false }, hl, r.1, ?_⟩
  rw [AoRecord.process_continue (hwritten.ivoa.trans h.ivoa)]
  refine returns_bind.mpr ⟨r, _, hwrite, ?_⟩
  rw [if_neg hdone]
  exact .refl _ _

end Runs

/-! ### A setpoint with a limit -/

/-- The ao record for the letter H with OVAL 30, VAL `val` and a limit of 1 degree. -/
def limited_setpoint (val : ℚ) : AoRecord := { setpoint .NO_ALARM with val := .fin val, oroc := 1 }

theorem limited_setpoint_configured (val : ℚ) :
    RateConfigured setpointGlobals 0 'H' (limited_setpoint val) :=
  ⟨setpoint_entry .NO_ALARM, rfl, rfl, rfl, rfl, by simp [limited_setpoint]⟩

/-- A processing of it. -/
theorem limited_setpoint_run (val : ℚ) :
    ∃ after, RateRun ⟨false, fun _ => 0, id⟩ setpointGlobals (limited_setpoint val)
      [⟨limited_setpoint val, noLinks, some (.fin val), after⟩] := by
  obtain ⟨after, hruns⟩ := exists_passed (T := ⟨false, fun _ => 0, id⟩) (l := noLinks)
    (limited_setpoint_configured val) (.inl rfl) rfl
  have hdrive : (limited_setpoint val).drive (limited_setpoint val).val = .fin val := by
    have hlimits : ¬ (0 : Double) < 0 := by decide
    exact if_neg hlimits
  rw [hdrive] at hruns
  exact ⟨after, ⟨_, _, rfl⟩, hruns, trivial⟩

/-- Half a degree further, and then three quarters, the limit is honoured. -/
theorem honours_rate_limit_near :
    ∃ a b, RateRun ⟨false, fun _ => 0, id⟩ setpointGlobals (limited_setpoint (61 / 2))
        [⟨limited_setpoint (61 / 2), noLinks, some (.fin (61 / 2)), a⟩,
          ⟨{ a with val := .fin (125 / 4) }, noLinks, some (.fin (125 / 4)), b⟩] ∧
      HonoursRateLimit [⟨limited_setpoint (61 / 2), noLinks, some (.fin (61 / 2)), a⟩,
        ⟨{ a with val := .fin (125 / 4) }, noLinks, some (.fin (125 / 4)), b⟩] := by
  have hconfigured := limited_setpoint_configured (61 / 2)
  obtain ⟨a, hput₁, hruns₁, -⟩ := limited_setpoint_run (61 / 2)
  obtain ⟨hcomputes, hafter⟩ := rate_step hconfigured (.inl rfl) hput₁ hruns₁
  have hput : ValPut a { a with val := .fin (125 / 4) } := ⟨_, a.udf, rfl⟩
  have hdrive : ({ a with val := .fin (125 / 4) } : AoRecord).drive (.fin (125 / 4)) =
      .fin (125 / 4) := by
    have hlimits : ¬ a.drvl < a.drvh := by
      rw [hcomputes.same.drvl, hcomputes.same.drvh]
      exact show ¬ (0 : Double) < 0 by decide
    exact if_neg hlimits
  obtain ⟨b, hruns⟩ := exists_passed (T := ⟨false, fun _ => 0, id⟩) (l := noLinks)
    (hafter.same hput.same) (.inl rfl) rfl
  rw [hdrive] at hruns
  have hrun : RateRun ⟨false, fun _ => 0, id⟩ setpointGlobals (limited_setpoint (61 / 2))
      [⟨limited_setpoint (61 / 2), noLinks, some (.fin (61 / 2)), a⟩,
        ⟨{ a with val := .fin (125 / 4) }, noLinks, some (.fin (125 / 4)), b⟩] :=
    ⟨hput₁, hruns₁, hput, hruns, trivial⟩
  refine ⟨a, b, hrun, (honours_rate_limit_iff hconfigured (.inl rfl) hrun).mpr ?_⟩
  have hlimited₁ : ¬ Limited (limited_setpoint (61 / 2)) := by decide +kernel
  have hlimited₂ : ¬ Limited { a with val := .fin (125 / 4) } := by
    have hoval : a.oval = .fin (61 / 2) :=
      hcomputes.oval.trans (show (limited_setpoint (61 / 2)).rate
        ((limited_setpoint (61 / 2)).drive (.fin (61 / 2))) = .fin (61 / 2) by decide +kernel)
    have horoc : a.oroc = 1 := hcomputes.same.oroc
    unfold Limited
    rw [hdrive, hoval, horoc]
    decide +kernel
  intro st hst _
  simp only [List.mem_cons, List.not_mem_nil, or_false] at hst
  rcases hst with rfl | rfl
  · exact hlimited₁
  · exact hlimited₂

/-- Ten degrees further it is not: 40 is passed, and OVAL is 31. -/
theorem not_honours_rate_limit :
    ∃ after, RateRun ⟨false, fun _ => 0, id⟩ setpointGlobals (limited_setpoint 40)
        [⟨limited_setpoint 40, noLinks, some (.fin 40), after⟩] ∧
      ¬ HonoursRateLimit [⟨limited_setpoint 40, noLinks, some (.fin 40), after⟩] := by
  obtain ⟨after, hrun⟩ := limited_setpoint_run 40
  refine ⟨after, hrun, fun hhonours => ?_⟩
  have hoval := (rate_run (limited_setpoint_configured 40) (.inl rfl) hrun _
    (List.mem_singleton.mpr rfl)).oval
  have hpassed := hhonours.1 _ (List.mem_singleton.mpr rfl) _ rfl
  have hlimit : (limited_setpoint 40).rate ((limited_setpoint 40).drive (.fin 40)) = .fin 31 := by
    decide +kernel
  have hthirty : (Double.fin 40) = .fin 31 := hpassed.trans (hoval.trans hlimit)
  exact absurd hthirty (by decide +kernel)

end RackmonIoc.Temp
