import RackmonIoc.Base.AoRecord
import RackmonIoc.Driver.Ioc

/-!
# Failed setpoint writes

`write_ao` reports a failure by setting UDF, but the record support has evaluated UDF and the limits
before it calls `write_ao`, and overwrites UDF at the next processing.  So the severity after a failed
write is INVALID only where something else made it so before the write (`Raised`).

* `process_spec` is what one processing does to the severity;
* `Run` is any number of processings, with puts to the record in between;
* `failed_write_visible_iff` says in which runs every failed write stays visible.
-/

namespace RackmonIoc.Temp

open Program CLib Base Driver Prog

/-! ### The alarm before the write -/

/-- The VAL that is written: the fetched value, or the present one, within the drive limits. -/
def newVal (l : AoLinks) (prec : AoRecord) : Double :=
  if prec.pact then prec.val else
  match l.dol with
  | .constant => prec.drive prec.val
  | .read status value _ _ =>
    if !prec.closed_loop then prec.drive prec.val
    else if status ≠ 0 then prec.pval
    else prec.drive (if prec.incremental then value + prec.pval else value)

/-- The severity of the first limit in alarm, in the order HIHI, LOLO, HIGH, LOW. -/
def limitSeverity (prec : AoRecord) : Severity :=
  if prec.above prec.hhsv prec.hihi then prec.hhsv
  else if prec.below prec.llsv prec.lolo then prec.llsv
  else if prec.above prec.hsv prec.high then prec.hsv
  else if prec.below prec.lsv prec.low then prec.lsv
  else .NO_ALARM

/-- **An INVALID alarm that is raised before the write**: by the DOL or the SIML link, by a VAL that is
not a number (UDF as it is, where PACT is set), or by a limit. -/
def Raised (l : AoLinks) (prec : AoRecord) : Prop :=
  (prec.pact = false ∧ (l.siml.Invalid ∨ prec.closed_loop = true ∧ l.dol.Invalid)) ∨
    (if prec.pact then prec.udf else (newVal l prec).isnan) = true ∨
    limitSeverity { prec with val := newVal l prec } = .INVALID

/-- What the parts of a processing leave as it is, and the INVALID alarm they raise: just if
`raised`. -/
structure Evaluated (prec q : AoRecord) (raised : Prop) : Prop where
  dpvt : q.dpvt = prec.dpvt
  simm : q.simm = prec.simm
  ivoa : q.ivoa = prec.ivoa
  udfs : q.udfs = prec.udfs
  pact : q.pact = prec.pact
  nsev : q.nsev = .INVALID ↔ prec.nsev = .INVALID ∨ raised

theorem Evaluated.congr {prec q : AoRecord} {P R : Prop} (h : Evaluated prec q P) (hPR : P ↔ R) :
    Evaluated prec q R :=
  ⟨h.dpvt, h.simm, h.ivoa, h.udfs, h.pact, h.nsev.trans (or_congr_right hPR)⟩

theorem Evaluated.trans {prec q s : AoRecord} {P R : Prop} (h : Evaluated prec q P)
    (h' : Evaluated q s R) : Evaluated prec s (P ∨ R) := by
  refine ⟨h'.dpvt.trans h.dpvt, h'.simm.trans h.simm, h'.ivoa.trans h.ivoa,
    h'.udfs.trans h.udfs, h'.pact.trans h.pact, ?_⟩
  rw [h'.nsev, h.nsev, or_assoc]

/-- Raising an alarm, whatever becomes of LALM. -/
theorem evaluated_setSevr (prec : AoRecord) (stat : AlarmStat) (sevr : Severity) (lalm : Double) :
    Evaluated prec { prec.setSevr stat sevr with lalm := lalm } (sevr = .INVALID) := by
  have halarm := recGblSetSevr_newAlarm prec.toDbCommon stat sevr
  exact ⟨halarm.dpvt, rfl, rfl, halarm.udfs, halarm.pact,
    recGblSetSevr_invalid prec.toDbCommon stat sevr⟩

/-- What `checkAlarms` raises. -/
theorem evaluated_checkAlarms {prec : AoRecord} (hudfs : prec.udfs = .INVALID) :
    Evaluated prec prec.checkAlarms (prec.udf = true ∨ limitSeverity prec = .INVALID) := by
  unfold AoRecord.checkAlarms limitSeverity
  by_cases hudf : prec.udf = true
  · rw [if_pos hudf]
    exact (evaluated_setSevr prec .UDF prec.udfs prec.lalm).congr (by simp [hudfs, hudf])
  · rw [if_neg hudf]
    split_ifs
    · exact (evaluated_setSevr prec .HIHI prec.hhsv _).congr (by simp [hudf])
    · exact (evaluated_setSevr prec .LOLO prec.llsv _).congr (by simp [hudf])
    · exact (evaluated_setSevr prec .HIGH prec.hsv _).congr (by simp [hudf])
    · exact (evaluated_setSevr prec .LOW prec.lsv _).congr (by simp [hudf])
    · exact ⟨rfl, rfl, rfl, rfl, rfl, by simp [hudf]⟩

/-! ### The new value -/

/-- A conversion changes the value fields and the new alarm, which does not become INVALID. -/
theorem convert_eq (l : AoLinks) (prec : AoRecord) (value : Double) :
    ∃ rval common, NewAlarm prec.toDbCommon common ∧
      (common.nsev = .INVALID ↔ prec.nsev = .INVALID) ∧
      prec.convert l value = { prec with
        toDbCommon := common
        val := prec.drive value
        pval := prec.drive value
        oval := prec.rate (prec.drive value)
        rval := rval } := by
  have hsame : NewAlarm prec.toDbCommon prec.toDbCommon := ⟨prec.nsta, prec.nsev, rfl⟩
  unfold AoRecord.convert
  cases prec.linr with
  | NO_CONVERSION => exact ⟨_, _, hsame, Iff.rfl, rfl⟩
  | SLOPE => exact ⟨_, _, hsame, Iff.rfl, rfl⟩
  | LINEAR => exact ⟨_, _, hsame, Iff.rfl, rfl⟩
  | table =>
    show ∃ rval common, _ ∧ _ ∧ (if _ ≠ _ then _ else _ : AoRecord) = _
    split_ifs
    · refine ⟨_, _, recGblSetSevr_newAlarm prec.toDbCommon .SOFT .MAJOR, ?_, rfl⟩
      rw [recGblSetSevr_invalid]
      simp
    · exact ⟨_, _, hsame, Iff.rfl, rfl⟩

/-- What the first part of a processing makes of the record: the new value `val` and UDF `udf`, with
the INVALID alarm raised just if `raised`. -/
def Valued (prec : AoRecord) (val : Double) (udf : Bool) (raised : Prop) (q : AoRecord) : Prop :=
  ∃ pval oval rval common, NewAlarm prec.toDbCommon common ∧
    (common.nsev = .INVALID ↔ prec.nsev = .INVALID ∨ raised) ∧
    q = { prec with
      toDbCommon := { common with udf := udf }
      val := val
      pval := pval
      oval := oval
      rval := rval }

/-- A conversion of the record that has changed up to its new alarm and VAL. -/
theorem convert_valued {prec : AoRecord} {common : DbCommon} (l : AoLinks) (val value : Double)
    {raised : Prop} (hcommon : NewAlarm prec.toDbCommon common)
    (hraised : common.nsev = .INVALID ↔ prec.nsev = .INVALID ∨ raised) :
    Valued prec (prec.drive value) (prec.drive value).isnan raised
      { AoRecord.convert l { prec with toDbCommon := common, val := val } value with
        udf := (AoRecord.convert l { prec with toDbCommon := common, val := val } value).val.isnan } := by
  obtain ⟨rval, common', hcommon', hinvalid, heq⟩ :=
    convert_eq l { prec with toDbCommon := common, val := val } value
  rw [heq]
  exact ⟨_, _, rval, common', hcommon.trans hcommon', hinvalid.trans hraised, rfl⟩

/-- A DOL link that can be read. -/
theorem fetch_value_ok {l : AoLinks} {value : Double} {stat : AlarmStat} {sevr : Severity}
    (hdol : l.dol = .read 0 value stat sevr) (prec : AoRecord) :
    prec.fetch_value l = (0, if prec.incremental then value + prec.pval else value,
      { prec with toDbCommon := l.dol.raise prec.toDbCommon, val := prec.pval }) := by
  unfold AoRecord.fetch_value
  rw [hdol]
  rfl

theorem fetch_value_failed {l : AoLinks} {status : ℤ} {value : Double} {stat : AlarmStat}
    {sevr : Severity} (hdol : l.dol = .read status value stat sevr) (h : status ≠ 0)
    (prec : AoRecord) :
    prec.fetch_value l = (status, 0, AoRecord.setSevr
      { prec with toDbCommon := l.dol.raise prec.toDbCommon, val := prec.pval } .LINK .INVALID) := by
  unfold AoRecord.fetch_value
  rw [hdol]
  simp [Link.get, h]

/-- **The record with the new value**, as the alarms see it. -/
theorem newValue_valued (l : AoLinks) (prec : AoRecord) :
    Valued prec (newVal l prec) (if prec.pact then prec.udf else (newVal l prec).isnan)
      (prec.pact = false ∧ prec.closed_loop = true ∧ l.dol.Invalid) (prec.newValue l).2 := by
  have hsame : NewAlarm prec.toDbCommon prec.toDbCommon := ⟨prec.nsta, prec.nsev, rfl⟩
  have hraise : NewAlarm prec.toDbCommon (l.dol.raise prec.toDbCommon) := l.dol.raise_newAlarm _
  have hinvalid := l.dol.raise_invalid prec.toDbCommon
  unfold newVal AoRecord.newValue
  cases hpact : prec.pact with
  | true => exact ⟨prec.pval, prec.oval, prec.rval, prec.toDbCommon, hsame, by simp, rfl⟩
  | false =>
    cases hdol : l.dol with
    | constant => exact convert_valued l prec.val prec.val hsame (by simp [Link.Invalid])
    | read status value stat sevr =>
      cases hloop : prec.closed_loop with
      | false => exact convert_valued l prec.val prec.val hsame (by simp)
      | true =>
        by_cases hstatus : status = 0
        · subst hstatus
          simp only [fetch_value_ok hdol, Bool.false_eq_true, if_true, if_false, Bool.not_true, ne_eq,
            not_true_eq_false, true_and]
          rw [← hdol]
          exact convert_valued l prec.pval _ hraise hinvalid
        · have hdolInvalid : l.dol.Invalid := by
            rw [hdol]
            exact .inr hstatus
          simp only [fetch_value_failed hdol hstatus, hstatus, Bool.false_eq_true, if_true, if_false,
            Bool.not_true, ne_eq, not_false_eq_true, true_and]
          rw [← hdol]
          refine ⟨prec.pval, prec.oval, prec.rval, _,
            hraise.trans (recGblSetSevr_newAlarm _ .LINK .INVALID), ?_, rfl⟩
          rw [recGblSetSevr_invalid]
          simp [hdolInvalid]

/-- **The INVALID alarm of the record before the write.** -/
theorem evaluated_newValue {prec : AoRecord} (l : AoLinks) (hudfs : prec.udfs = .INVALID) :
    Evaluated prec (prec.newValue l).2.checkAlarms
      ((prec.pact = false ∧ prec.closed_loop = true ∧ l.dol.Invalid) ∨
        (if prec.pact then prec.udf else (newVal l prec).isnan) = true ∨
        limitSeverity { prec with val := newVal l prec } = .INVALID) := by
  obtain ⟨pval, oval, rval, _, ⟨nsta, nsev, rfl⟩, hinvalid, heq⟩ := newValue_valued l prec
  have hvalue : Evaluated prec (prec.newValue l).2
      (prec.pact = false ∧ prec.closed_loop = true ∧ l.dol.Invalid) := by
    rw [heq]
    exact ⟨rfl, rfl, rfl, rfl, rfl, hinvalid⟩
  have hcheck := evaluated_checkAlarms (hvalue.udfs.trans hudfs)
  refine hvalue.trans (hcheck.congr ?_)
  rw [heq]
  rfl

/-! ### The write -/

/-- Whatever the outside answers. -/
def anyOutcome : Env DevSig Unit := fun _ _ _ _ => True

/-- The device support of the record is `write_ao`, for the globals `g`.  The world is what it has
returned in this processing, `none` before it is called. -/
def writeEnv (T : Target) (g : Globals) : Env AoSig (Option ℤ) := fun w o r w' =>
  match o, r with
  | .write_ao prec, r => Returns anyOutcome (write_ao T g prec) () r () ∧ w' = some r.1
  | _, _ => w' = w

/-- `write_ao` returns 0 and clears UDF, or -1 and sets it. -/
theorem returns_write_ao {T : Target} {g : Globals} {prec : AoRecord} {r : ℤ × AoRecord}
    (h : Returns anyOutcome (write_ao T g prec) () r ()) :
    r = (0, { prec with udf := false }) ∨ r = (-1, { prec with udf := true }) := by
  rw [write_ao_eq] at h
  obtain ⟨p, u, -, h⟩ := returns_bind.mp h
  obtain ⟨sel, u', -, h⟩ := returns_bind.mp h
  obtain ⟨ierr, u'', -, h⟩ := returns_bind.mp h
  obtain ⟨rfl, -⟩ := returns_ret.mp h
  unfold ao_result
  split
  · exact .inl rfl
  · exact .inr rfl

/-- What has become of the write: `write_ao` has not been called, and the alarm is INVALID, or it has
been called and the alarm is INVALID just if `raised`. -/
def Written (raised : Prop) (q : AoRecord) (outcome : Option ℤ) : Prop :=
  (outcome = none ∧ q.nsev = .INVALID) ∨
    ((outcome = some 0 ∨ outcome = some (-1)) ∧ (q.nsev = .INVALID ↔ raised))

section Processing

variable {T : Target} {g : Globals} {l : AoLinks} {prec : AoRecord}

theorem wp_call_write_ao (prec : AoRecord) :
    wp (writeEnv T g) (fun _ _ => True) (fun r outcome => ∃ udf, r.2 = { prec with udf := udf } ∧
      (outcome = some 0 ∨ outcome = some (-1))) prec.write_ao none := by
  refine ⟨trivial, ?_⟩
  rintro r w' ⟨hr, rfl⟩
  rcases returns_write_ao hr with rfl | rfl
  · exact ⟨false, rfl, .inl rfl⟩
  · exact ⟨true, rfl, .inr rfl⟩

theorem writeValue_active (hpact : prec.pact = true) : prec.writeValue l = prec.write_ao := by
  unfold AoRecord.writeValue
  rw [hpact]
  rfl

/-- Where SIMM stays NO, `write_ao` is called unless the SIML link fails. -/
theorem writeValue_eq (hpact : prec.pact = false) (hsimm : prec.simm = .NO)
    (hl : (l.siml.get .NO).2 = .NO) :
    prec.writeValue l =
      if (l.siml.get Simm.NO).1 ≠ 0 then
        ret ((l.siml.get Simm.NO).1,
          { prec with toDbCommon := l.siml.raise prec.toDbCommon, simm := .NO })
      else AoRecord.write_ao { prec with toDbCommon := l.siml.raise prec.toDbCommon, simm := .NO } := by
  have hget : l.siml.get Simm.NO = ((l.siml.get Simm.NO).1, .NO) := Prod.ext rfl hl
  unfold AoRecord.writeValue
  rw [hpact, hsimm, hget]
  rfl

/-- The SIML link, read with SIMM at NO. -/
theorem evaluated_siml (hsimm : prec.simm = .NO) :
    Evaluated prec { prec with toDbCommon := l.siml.raise prec.toDbCommon, simm := .NO }
      l.siml.Invalid := by
  have hraise : NewAlarm prec.toDbCommon (l.siml.raise prec.toDbCommon) := l.siml.raise_newAlarm _
  exact ⟨hraise.dpvt, hsimm.symm, rfl, hraise.udfs, hraise.pact,
    l.siml.raise_invalid prec.toDbCommon⟩

/-- A link that fails makes the alarm INVALID. -/
theorem siml_invalid {α : Type} {l : Link α} {old : α} (h : (l.get old).1 ≠ 0) : l.Invalid := by
  cases l with
  | constant => exact absurd rfl h
  | read status value stat sevr => exact .inr h

/-- **The write**, after the alarm of the record has been evaluated. -/
theorem wp_writeValue (hsimm : prec.simm = .NO) (hl : (l.siml.get .NO).2 = .NO) :
    wp (writeEnv T g) (fun _ _ => True) (fun r outcome => r.2.simm = prec.simm ∧
      r.2.ivoa = prec.ivoa ∧ r.2.udfs = prec.udfs ∧ r.2.pact = prec.pact ∧
      Written (prec.nsev = .INVALID ∨ prec.pact = false ∧ l.siml.Invalid) r.2 outcome)
      (prec.writeValue l) none := by
  cases hpact : prec.pact with
  | true =>
    rw [writeValue_active hpact]
    apply wp_conseq (wp_call_write_ao prec)
    rintro r outcome ⟨udf, hr, hcalled⟩
    rw [hr]
    exact ⟨rfl, rfl, rfl, hpact, .inr ⟨hcalled, by simp⟩⟩
  | false =>
    have hsiml := evaluated_siml (l := l) hsimm
    rw [writeValue_eq hpact hsimm hl, wp_ite]
    constructor
    · intro hstatus
      have hinvalid := hsiml.nsev.mpr (.inr (siml_invalid hstatus))
      exact ⟨hsiml.simm, hsiml.ivoa, hsiml.udfs, hsiml.pact.trans hpact, .inl ⟨rfl, hinvalid⟩⟩
    · intro _
      apply wp_conseq (wp_call_write_ao _)
      rintro r outcome ⟨udf, hr, hcalled⟩
      rw [hr]
      refine ⟨hsiml.simm, hsiml.ivoa, hsiml.udfs, hsiml.pact.trans hpact, .inr ⟨hcalled, ?_⟩⟩
      exact hsiml.nsev.trans (or_congr_right (by simp))

/-- The record as it is configured when it is processed. -/
structure Configured (prec : AoRecord) : Prop where
  simm : prec.simm = .NO
  ivoa : prec.ivoa = .Continue_normally
  udfs : prec.udfs = .INVALID
  nsev : prec.nsev = .NO_ALARM

/-- The new value is written, whatever its alarm. -/
theorem process_eq (h : Configured prec) : prec.process l =
    ((prec.newValue l).2.checkAlarms.writeValue l).bind fun r =>
      if (!prec.pact && r.2.pact) = true then ret (0, r.2)
      else ret (r.1, { r.2.monitor with init := false, pact := false }) := by
  have hbefore := evaluated_newValue l h.udfs
  exact AoRecord.process_continue (hbefore.ivoa.trans h.ivoa)

/-- **One processing.** -/
theorem wp_ao_process (h : Configured prec) (hl : (l.siml.get .NO).2 = .NO) :
    wp (writeEnv T g) (fun _ _ => True) (fun r outcome => Configured r.2 ∧
      ((outcome = none ∧ r.2.sevr = .INVALID) ∨
        ((outcome = some 0 ∨ outcome = some (-1)) ∧ (r.2.sevr = .INVALID ↔ Raised l prec))))
      (prec.process l) none := by
  have hbefore := evaluated_newValue l h.udfs
  rw [process_eq h, wp_bind]
  apply wp_conseq (wp_writeValue (hbefore.simm.trans h.simm) hl)
  rintro ⟨status, q⟩ outcome ⟨hsimm, hivoa, hudfs, hpact, hwritten⟩
  have hdone : (!prec.pact && q.pact) = false := by
    rw [hpact, hbefore.pact]
    cases prec.pact <;> rfl
  rw [if_neg (by simp [hdone])]
  refine ⟨⟨?_, ?_, ?_, rfl⟩, ?_⟩
  · exact hsimm.trans (hbefore.simm.trans h.simm)
  · exact hivoa.trans (hbefore.ivoa.trans h.ivoa)
  · exact hudfs.trans (hbefore.udfs.trans h.udfs)
  · refine hwritten.imp id (And.imp_right fun hq => hq.trans ?_)
    rw [hbefore.nsev, hbefore.pact, h.nsev]
    unfold Raised
    constructor
    · rintro ((habs | ⟨hp, hdol⟩ | hrest) | ⟨hp, hsiml⟩)
      · exact nomatch habs
      · exact .inl ⟨hp, .inr hdol⟩
      · exact .inr hrest
      · exact .inl ⟨hp, .inl hsiml⟩
    · rintro (⟨hp, hsiml | hdol⟩ | hrest)
      · exact .inr ⟨hp, hsiml⟩
      · exact .inl (.inr (.inl ⟨hp, hdol⟩))
      · exact .inl (.inr (.inr hrest))

end Processing

/-! ### Runs -/

/-- A processing in a run: the record before it, the links, what `write_ao` has returned (`none` if it
was not called), and the record after it. -/
structure AoStep where
  before : AoRecord
  links : AoLinks
  outcome : Option ℤ
  after : AoRecord

/-- The processing can go like this, and SIMM stays NO. -/
def AoStep.Runs (T : Target) (g : Globals) (st : AoStep) : Prop :=
  (st.links.siml.get .NO).2 = .NO ∧
    ∃ status, Returns (writeEnv T g) (st.before.process st.links) none (status, st.after) st.outcome

/-- Any puts to the record that leave the configuration and the alarm. -/
structure Put (prec prec' : AoRecord) : Prop where
  simm : prec'.simm = prec.simm
  ivoa : prec'.ivoa = prec.ivoa
  udfs : prec'.udfs = prec.udfs
  nsev : prec'.nsev = prec.nsev
  sevr : prec'.sevr = prec.sevr

/-- A run of processings from `prec`, with puts in between. -/
def Run (T : Target) (g : Globals) : AoRecord → List AoStep → Prop
  | _, [] => True
  | prec, st :: sts => Put prec st.before ∧ st.Runs T g ∧ Run T g st.after sts

/-- **Failed writes are visible**: SEVR is INVALID after a failed write, and does not return to NO_ALARM
before a write has succeeded. -/
def FailedWritesVisible (sts : List AoStep) : Prop :=
  ∀ pre st post, sts = pre ++ st :: post → st.outcome = some (-1) → st.after.sevr = .INVALID ∧
    ∀ mid x rest, post = mid ++ x :: rest → (∀ y ∈ mid, y.outcome ≠ some 0) → x.outcome ≠ some 0 →
      x.after.sevr ≠ .NO_ALARM

section Runs

variable {T : Target} {g : Globals} {prec : AoRecord} {sts : List AoStep}

theorem Configured.put {prec' : AoRecord} (h : Configured prec) (hp : Put prec prec') :
    Configured prec' :=
  ⟨hp.simm.trans h.simm, hp.ivoa.trans h.ivoa, hp.udfs.trans h.udfs, hp.nsev.trans h.nsev⟩

/-- Every processing of a run has one of three ends. -/
theorem run_steps (h : Configured prec) (hrun : Run T g prec sts) : ∀ st ∈ sts,
    (st.outcome = none ∧ st.after.sevr = .INVALID) ∨
      ((st.outcome = some 0 ∨ st.outcome = some (-1)) ∧
        (st.after.sevr = .INVALID ↔ Raised st.links st.before)) := by
  induction sts generalizing prec with
  | nil => exact fun st hst => nomatch hst
  | cons a sts ih =>
    obtain ⟨hput, ⟨hl, status, hreturns⟩, hrest⟩ := hrun
    have hspec := wp_returns (wp_ao_process (h.put hput) hl) hreturns
    intro st hst
    rcases List.mem_cons.mp hst with rfl | hst
    · exact hspec.2
    · exact ih hspec.1 hrest st hst

/-- **When failed writes are visible**: in the runs in which at every failed write an INVALID alarm has
been raised before. -/
theorem failed_writes_visible_iff (h : Configured prec) (hrun : Run T g prec sts) :
    FailedWritesVisible sts ↔
      ∀ st ∈ sts, st.outcome = some (-1) → Raised st.links st.before := by
  have hsteps := run_steps h hrun
  constructor
  · intro hvisible st hst hfail
    obtain ⟨pre, post, hsplit⟩ := List.append_of_mem hst
    have hinvalid := (hvisible pre st post hsplit hfail).1
    rcases hsteps st hst with ⟨hnone, -⟩ | ⟨-, hiff⟩
    · rw [hnone] at hfail
      exact nomatch hfail
    · exact hiff.mp hinvalid
  · intro hraised
    -- a processing without a successful write ends INVALID
    have hinvalid : ∀ st ∈ sts, st.outcome ≠ some 0 → st.after.sevr = .INVALID := by
      intro st hst hne
      rcases hsteps st hst with ⟨-, hsevr⟩ | ⟨hzero | hfail, hiff⟩
      · exact hsevr
      · exact absurd hzero hne
      · exact hiff.mpr (hraised st hst hfail)
    intro pre st post hsplit hfail
    refine ⟨hinvalid st (by simp [hsplit]) (by simp [hfail]), fun mid x rest hpost _ hx => ?_⟩
    rw [hinvalid x (by simp [hsplit, hpost]) hx]
    decide

end Runs

/-! ### Any write can fail -/

section Failures

variable {T : Target} {g : Globals} {l : AoLinks} {prec : AoRecord}

/-- A selection can fail. -/
theorem returns_select_failed (istub : ℤ) :
    ∃ r < 0, Returns anyOutcome (select_probe istub) () r () := by
  refine ⟨-1, by decide, ?_⟩
  unfold select_probe
  split
  · exact .refl _ _
  · refine returns_vis.mpr ⟨(-1 : ℤ), (), trivial, ?_⟩
    exact returns_ret.mpr ⟨rfl, rfl⟩

theorem returns_write_failed {n : ℤ} {what : Char} (hp : Entry g prec.toDbCommon n what) :
    Returns anyOutcome (write_ao T g prec) () (-1, { prec with udf := true }) () := by
  obtain ⟨i, hi, -⟩ := hp
  have hentry : private_entry g prec.toDbCommon = ret (g.private_data i) := by
    unfold private_entry
    rw [hi]
    rfl
  obtain ⟨r, hr, hselect⟩ := returns_select_failed ((g.private_data i).address.tmod 8)
  rw [write_ao_eq, hentry, ret_bind]
  refine returns_bind.mpr ⟨r, (), hselect, ?_⟩
  rw [if_pos hr]
  exact returns_ret.mpr ⟨rfl, rfl⟩

/-- A write in which it does. -/
theorem exists_writeValue_failed (hsimm : prec.simm = .NO) (hsiml : l.siml = .constant) {n : ℤ}
    {what : Char} (hp : Entry g prec.toDbCommon n what) :
    ∃ q, Returns (writeEnv T g) (prec.writeValue l) none (-1, q) (some (-1)) := by
  have hcall : ∀ q : AoRecord, Entry g q.toDbCommon n what →
      ∃ q', Returns (writeEnv T g) q.write_ao none (-1, q') (some (-1)) :=
    fun q hq => ⟨_, returns_vis.mpr ⟨_, _, ⟨returns_write_failed hq, rfl⟩, .refl _ _⟩⟩
  cases hpact : prec.pact with
  | true =>
    rw [writeValue_active hpact]
    exact hcall prec hp
  | false =>
    have hstatus : ¬ (l.siml.get Simm.NO).1 ≠ 0 := by simp [hsiml, Link.get]
    rw [writeValue_eq hpact hsimm (by rw [hsiml]; rfl), if_neg hstatus, hsiml]
    exact hcall _ hp

/-- A processing in which it does. -/
theorem exists_failed_write (h : Configured prec) (hsiml : l.siml = .constant) {n : ℤ} {what : Char}
    (hp : Entry g prec.toDbCommon n what) :
    ∃ after, AoStep.Runs T g ⟨prec, l, some (-1), after⟩ := by
  have hbefore := evaluated_newValue l h.udfs
  have hentry : Entry g (prec.newValue l).2.checkAlarms.toDbCommon n what := by
    obtain ⟨i, hi, hentry⟩ := hp
    exact ⟨i, hbefore.dpvt.trans hi, hentry⟩
  obtain ⟨q, hwrite⟩ := exists_writeValue_failed (T := T) (hbefore.simm.trans h.simm) hsiml hentry
  have hsiml' : (l.siml.get Simm.NO).2 = .NO := by
    rw [hsiml]
    rfl
  by_cases hpact : (!prec.pact && q.pact) = true
  · refine ⟨q, hsiml', 0, ?_⟩
    rw [process_eq h]
    refine returns_bind.mpr ⟨_, _, hwrite, ?_⟩
    rw [if_pos hpact]
    exact .refl _ _
  · refine ⟨{ q.monitor with init := false, pact := false }, hsiml', -1, ?_⟩
    rw [process_eq h]
    refine returns_bind.mpr ⟨_, _, hwrite, ?_⟩
    rw [if_neg hpact]
    exact .refl _ _

end Failures

/-! ### A setpoint record -/

/-- An ao record for the letter H, VAL 30, with HIHI at 25 and the given severity. -/
def setpoint (hhsv : Severity) : AoRecord :=
  { (default : AoRecord) with
    dpvt := some 0
    udfs := .INVALID
    val := 30
    oval := 30
    pval := 30
    oroc := 0
    drvh := 0
    drvl := 0
    aslo := 0
    aoff := 0
    hihi := 25
    hhsv := hhsv }

/-- Nothing on the links. -/
def noLinks : AoLinks := ⟨.constant, .constant, fun value => (0, value)⟩

theorem setpoint_configured (hhsv : Severity) : Configured (setpoint hhsv) := ⟨rfl, rfl, rfl, rfl⟩

/-- The globals after a record with text "0 H" has been initialised. -/
def setpointGlobals : Globals := ⟨3, fun _ => ⟨0, 'H'⟩⟩

theorem setpoint_entry (hhsv : Severity) :
    Entry setpointGlobals (setpoint hhsv).toDbCommon 0 'H' := ⟨0, rfl, rfl, by decide, by decide⟩

/-- The answers of a device support whose selections all fail. -/
def failingWrites (w : Option ℤ) : (o : AoOp) → Option (AoOp.Reply o × Option ℤ)
  | .write_ao prec =>
    if prec.dpvt = some 0 then some ((-1, { prec with udf := true }), some (-1)) else none
  | .dbPutLink _ => some ((0 : ℤ), w)
  | .recGblRecordError _ _ => some ((), w)

theorem writeEnv_of_failingWrites {T : Target} (w : Option ℤ) (o : AoOp) (r : AoOp.Reply o)
    (w' : Option ℤ) (h : failingWrites w o = some (r, w')) : writeEnv T setpointGlobals w o r w' := by
  cases o with
  | write_ao prec =>
    by_cases hdpvt : prec.dpvt = some 0
    · obtain ⟨rfl, rfl⟩ := Prod.mk.inj (Option.some.inj ((if_pos hdpvt).symm.trans h))
      have hp : Entry setpointGlobals prec.toDbCommon 0 'H' := ⟨0, hdpvt, rfl, by decide, by decide⟩
      exact ⟨returns_write_failed hp, rfl⟩
    · exact nomatch (if_neg hdpvt).symm.trans h
  | dbPutLink value => exact (congrArg Prod.snd (Option.some.inj h)).symm
  | recGblRecordError status message => exact (congrArg Prod.snd (Option.some.inj h)).symm

/-- With an INVALID limit in alarm two failed writes in a row are visible. -/
theorem failed_write_visible_limit :
    ∃ a b, Run ⟨false, fun _ => 0, id⟩ setpointGlobals (setpoint .INVALID)
        [⟨setpoint .INVALID, noLinks, some (-1), a⟩, ⟨a, noLinks, some (-1), b⟩] ∧
      FailedWritesVisible [⟨setpoint .INVALID, noLinks, some (-1), a⟩, ⟨a, noLinks, some (-1), b⟩] := by
  obtain ⟨a, b, ha, hb, hraised⟩ : ∃ a b,
      exec failingWrites ((setpoint .INVALID).process noLinks) none = some ((-1, a), some (-1)) ∧
      exec failingWrites (a.process noLinks) none = some ((-1, b), some (-1)) ∧
      Raised noLinks a := ⟨_, _, rfl, rfl, .inr (.inr (by decide +kernel))⟩
  have hruns : ∀ {before after : AoRecord},
      exec failingWrites (before.process noLinks) none = some ((-1, after), some (-1)) →
      AoStep.Runs ⟨false, fun _ => 0, id⟩ setpointGlobals ⟨before, noLinks, some (-1), after⟩ :=
    fun h => ⟨rfl, -1, returns_of_exec writeEnv_of_failingWrites h⟩
  have hrun : Run ⟨false, fun _ => 0, id⟩ setpointGlobals (setpoint .INVALID)
      [⟨setpoint .INVALID, noLinks, some (-1), a⟩, ⟨a, noLinks, some (-1), b⟩] :=
    ⟨⟨rfl, rfl, rfl, rfl, rfl⟩, hruns ha, ⟨rfl, rfl, rfl, rfl, rfl⟩, hruns hb, trivial⟩
  have hfirst : Raised noLinks (setpoint .INVALID) := .inr (.inr (by decide +kernel))
  refine ⟨a, b, hrun, (failed_writes_visible_iff (setpoint_configured .INVALID) hrun).mpr ?_⟩
  intro st hst _
  simp only [List.mem_cons, List.not_mem_nil, or_false] at hst
  rcases hst with rfl | rfl
  · exact hfirst
  · exact hraised

/-- Without one it is not: nothing tells that the setpoint of "0 H" has not been written. -/
theorem failed_write_not_visible :
    ∃ after, Run ⟨false, fun _ => 0, id⟩ setpointGlobals (setpoint .NO_ALARM)
        [⟨setpoint .NO_ALARM, noLinks, some (-1), after⟩] ∧
      ¬ FailedWritesVisible [⟨setpoint .NO_ALARM, noLinks, some (-1), after⟩] := by
  obtain ⟨after, hruns⟩ := exists_failed_write (T := ⟨false, fun _ => 0, id⟩) (l := noLinks)
    (setpoint_configured .NO_ALARM) rfl (setpoint_entry .NO_ALARM)
  have hrun : Run ⟨false, fun _ => 0, id⟩ setpointGlobals (setpoint .NO_ALARM)
      [⟨setpoint .NO_ALARM, noLinks, some (-1), after⟩] :=
    ⟨⟨rfl, rfl, rfl, rfl, rfl⟩, hruns, trivial⟩
  have hraised : ¬ Raised noLinks (setpoint .NO_ALARM) := by
    rintro (⟨-, hlink | ⟨hloop, -⟩⟩ | hnan | hlimit)
    · exact hlink
    · exact nomatch hloop
    · exact absurd hnan (by decide +kernel)
    · exact absurd hlimit (by decide +kernel)
  refine ⟨after, hrun, fun hvisible => hraised ?_⟩
  rcases run_steps (setpoint_configured .NO_ALARM) hrun _ (List.mem_singleton.mpr rfl) with
    ⟨hnone, -⟩ | ⟨-, hiff⟩
  · exact nomatch hnone
  · exact hiff.mp (hvisible [] _ [] rfl rfl).1

end RackmonIoc.Temp
