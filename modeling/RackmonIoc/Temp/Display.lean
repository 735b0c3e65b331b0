import RackmonIoc.Base.ValMonitor
import RackmonIoc.Event.Delivery
import RackmonIoc.Temp.Store

/-!
# What an operator sees of a probe

A temperature record under the record support, with the driver, the bus and the box below it, and above
it the event queue of a client that subscribes to VAL.

* `wp_readTemp`, `wp_shown`: one processing brings the register of the probe with the alarm of the
  limits, or the alarm UDF.
* `wp_displayed`: after every run, the events of the next processing tell of an INVALID alarm, or of what
  the driver makes of the register, up to twice the deadband, and the alarm of exactly that number.
* `probe_displayed`: this is what the call back of the client has got, as soon as no event waits for it.
-/

namespace RackmonIoc.Temp

open Program CLib Base Driver Bus Event Prog FullAiRecord

/-! ### The device support of a record -/

/-- The record after the device support. -/
def setAi (prec : FullAiRecord) (ai : AiRecord) : FullAiRecord := { prec with toAiRecord := ai }

/-- `read_ai`, as the record support calls it.  What an uninitialised local holds may depend on the
record. -/
def readTemp (T : Target) (g : Globals) (cfg₀ : FullAiRecord → UInt8) (prec : FullAiRecord) :
    Prog BusSig (ℤ × FullAiRecord) := do
  let r ← (read_ai g prec.toAiRecord (cfg₀ prec)).interp (expand T)
  return (r.1, setAi prec r.2)

/-- A value is brought, or none. -/
def fetched (prec : FullAiRecord) (val : Double) (udf : Bool) : FullAiRecord :=
  setAi prec { prec.toAiRecord with val, udf }

/-- What a read can bring: what the register of the letter holds, or a failure. -/
inductive Brought (T : Target) (n : ℤ) (ch : Char) (prec : FullAiRecord) (w : Box) :
    ℤ × FullAiRecord → Prop
  | ok {v : Double} : content T ch (device w n) = some v → Brought T n ch prec w (2, fetched prec v false)
  | failed (v : Double) : Brought T n ch prec w (-1, fetched prec v true)

section Read

variable {T : Target} {g : Globals} {n : ℤ} {ch : Char}

theorem content_sameData {d d' : DS75} (h : d.SameData d') : content T ch d' = content T ch d := by
  unfold content DS75.temp
  rw [h.1, h.2]

/-- `read_ai` ends with `ai_result`. -/
theorem wp_read_ai_result {W : Type} {E : Env DevSig W} (prec : AiRecord) (cfg₀ : UInt8) (w : W) :
    wp E (fun _ _ => True) (fun r _ => ∃ x, r = ai_result prec x) (read_ai g prec cfg₀) w := by
  rw [read_ai_eq, wp_bind]
  refine wp_conseq wp_true fun p w₁ _ => ?_
  rw [wp_bind]
  refine wp_conseq wp_true fun sel w₂ _ => ?_
  rw [wp_bind]
  exact wp_conseq wp_true fun x w₃ _ => ⟨x, rfl⟩

theorem wp_readTemp {prec : FullAiRecord} (hp : Entry g prec.toDbCommon n ch)
    (cfg₀ : FullAiRecord → UInt8) (w : Box) :
    wp boxEnv (fun _ _ => True) (fun r w' => Brought T n ch prec w' r) (readTemp T g cfg₀ prec) w := by
  have hread : wp (boxDev T) (fun _ _ => True)
      (fun r w' => (Acted (fun _ => False) w w' n (visited ch) (r.1 = 2) ∧
        (r.1 = 2 → content T ch (device w n) = some r.2.val)) ∧ ∃ x, r = ai_result prec.toAiRecord x)
      (read_ai g prec.toAiRecord (cfg₀ prec)) w := by
    rw [← boxDevOn_none]
    exact wp_and (wp_read_ai hp w) (wp_read_ai_result _ _ w)
  unfold readTemp
  rw [bind_eq, wp_bind]
  refine wp_conseq (wp_through_post hread) ?_
  rintro r w' ⟨⟨hacted, hcontent⟩, x, rfl⟩
  show Brought T n ch prec w' ((ai_result prec.toAiRecord x).1, setAi prec (ai_result prec.toAiRecord x).2)
  unfold ai_result at hacted hcontent ⊢
  split_ifs at hacted hcontent ⊢ with h0
  · refine .ok ?_
    rw [hacted.done rfl, content_sameData (visited_sameData ch _)]
    exact hcontent rfl
  · exact .failed x.2

theorem fetched_fetched (prec : FullAiRecord) (val : Double) (udf : Bool) :
    Fetched prec (fetched prec val udf) :=
  ⟨val, prec.rval, udf, prec.simm, prec.sval, prec.nsta, prec.nsev, rfl⟩

end Read

/-! ### The limits -/

/-- The alarm of a value, where there is neither hysteresis nor a filter. -/
def limits (prec : FullAiRecord) (v : Double) : AlarmStat × Severity :=
  if prec.hhsv ≠ .NO_ALARM ∧ prec.hihi ≤ v then (.HIHI, prec.hhsv)
  else if prec.llsv ≠ .NO_ALARM ∧ v ≤ prec.lolo then (.LOLO, prec.llsv)
  else if prec.hsv ≠ .NO_ALARM ∧ prec.high ≤ v then (.HIGH, prec.hsv)
  else if prec.lsv ≠ .NO_ALARM ∧ v ≤ prec.low then (.LOW, prec.lsv)
  else (.NO_ALARM, .NO_ALARM)

section Limits

variable {prec : FullAiRecord} (hhyst : prec.hyst = 0)
include hhyst

theorem above_iff (asev : Severity) (alev : Double) :
    above prec asev alev = true ↔ asev ≠ .NO_ALARM ∧ alev ≤ prec.val := by
  have hzero : alev - 0 = alev := by
    cases alev with
    | fin q => simp [Double.sub_eq, Double.add, Double.neg, Double.ofNat_eq]
    | nan | inf _ => rfl
  unfold above
  rw [hhyst, hzero]
  simp only [Bool.and_eq_true, Bool.or_eq_true, decide_eq_true_eq]
  tauto

theorem below_iff (asev : Severity) (alev : Double) :
    below prec asev alev = true ↔ asev ≠ .NO_ALARM ∧ prec.val ≤ alev := by
  have hzero : alev + 0 = alev := by
    cases alev with
    | fin q => simp [Double.add_eq, Double.add, Double.ofNat_eq]
    | nan | inf _ => rfl
  unfold below
  rw [hhyst, hzero]
  simp only [Bool.and_eq_true, Bool.or_eq_true, decide_eq_true_eq]
  tauto

end Limits

/-- What `checkAlarms` changes. -/
theorem checkAlarms_fields (l : AiLinks) (prec : FullAiRecord) :
    ∃ common afvl lalm, NewAlarm prec.toDbCommon common ∧
      checkAlarms l prec = { prec.setCommon common with afvl, lalm } := by
  by_cases hudf : prec.udf = true
  · refine ⟨(recGblSetSevr prec.toDbCommon .UDF prec.udfs).1, 0, prec.lalm,
      recGblSetSevr_newAlarm prec.toDbCommon .UDF prec.udfs, if_pos hudf⟩
  rcases hfiltered : filtered l prec with ⟨afvl, level⟩
  by_cases hsev : level.asev = .NO_ALARM
  · refine ⟨prec.toDbCommon, afvl, prec.val, ⟨prec.nsta, prec.nsev, rfl⟩, ?_⟩
    unfold checkAlarms
    rw [if_neg hudf, hfiltered]
    exact if_neg (not_not.mpr hsev)
  · refine ⟨(recGblSetSevr prec.toDbCommon (range_stat l level.alarmRange) level.asev).1, afvl,
      if (recGblSetSevr prec.toDbCommon (range_stat l level.alarmRange) level.asev).2 then level.alev
      else prec.lalm, recGblSetSevr_newAlarm prec.toDbCommon _ _, ?_⟩
    unfold checkAlarms
    rw [if_neg hudf, hfiltered]
    exact if_pos hsev

/-- **A value that is defined** raises the alarm of the limits. -/
theorem checkAlarms_limits (l : AiLinks) {prec : FullAiRecord} (hudf : prec.udf = false)
    (hhyst : prec.hyst = 0) (haftc : ¬ 0 < prec.aftc) (hnsta : prec.nsta = .NO_ALARM)
    (hnsev : prec.nsev = .NO_ALARM) :
    ((checkAlarms l prec).nsta, (checkAlarms l prec).nsev) = limits prec prec.val := by
  have hfiltered : filtered l prec = (0, limit_level prec) := if_neg haftc
  have hraise : ∀ (st : AlarmStat) (sv : Severity), sv ≠ .NO_ALARM →
      recGblSetSevr prec.toDbCommon st sv = ({ prec.toDbCommon with nsta := st, nsev := sv }, true) :=
    fun st sv hsv => if_pos (by rw [hnsev]; exact Severity.no_alarm_lt hsv)
  have hlevel : ∀ level : AlarmLevel, filtered l prec = (0, level) → level.asev ≠ .NO_ALARM →
      ((checkAlarms l prec).nsta, (checkAlarms l prec).nsev) =
        (range_stat l level.alarmRange, level.asev) := by
    intro level hlevel hsev
    unfold checkAlarms
    rw [hudf, hlevel]
    dsimp only
    rw [if_neg (by decide), if_pos hsev, hraise _ _ hsev]
    rfl
  unfold limits
  split_ifs with h1 h2 h3 h4
  · refine hlevel ⟨prec.hhsv, prec.hihi, range_Hihi⟩ ?_ h1.1
    rw [hfiltered]
    unfold limit_level
    rw [if_pos ((above_iff hhyst _ _).mpr h1)]
  · refine hlevel ⟨prec.llsv, prec.lolo, range_Lolo⟩ ?_ h2.1
    rw [hfiltered]
    unfold limit_level
    rw [if_neg (mt (above_iff hhyst _ _).mp h1), if_pos ((below_iff hhyst _ _).mpr h2)]
  · refine hlevel ⟨prec.hsv, prec.high, range_High⟩ ?_ h3.1
    rw [hfiltered]
    unfold limit_level
    rw [if_neg (mt (above_iff hhyst _ _).mp h1), if_neg (mt (below_iff hhyst _ _).mp h2),
      if_pos ((above_iff hhyst _ _).mpr h3)]
  · refine hlevel ⟨prec.lsv, prec.low, range_Low⟩ ?_ h4.1
    rw [hfiltered]
    unfold limit_level
    rw [if_neg (mt (above_iff hhyst _ _).mp h1), if_neg (mt (below_iff hhyst _ _).mp h2),
      if_neg (mt (above_iff hhyst _ _).mp h3), if_pos ((below_iff hhyst _ _).mpr h4)]
  · have hnormal : limit_level prec = ⟨.NO_ALARM, prec.val, range_Normal⟩ := by
      unfold limit_level
      rw [if_neg (mt (above_iff hhyst _ _).mp h1), if_neg (mt (below_iff hhyst _ _).mp h2),
        if_neg (mt (above_iff hhyst _ _).mp h3), if_neg (mt (below_iff hhyst _ _).mp h4)]
    unfold checkAlarms
    rw [hudf, hfiltered, hnormal]
    dsimp only
    rw [if_neg (by decide), if_neg (fun h => h rfl)]
    exact Prod.ext hnsta hnsev

/-- **A value that is not defined** raises UDF. -/
theorem checkAlarms_undefined (l : AiLinks) {prec : FullAiRecord} (hudf : prec.udf = true)
    (hudfs : prec.udfs = .INVALID) (hnsev : prec.nsev = .NO_ALARM) :
    ((checkAlarms l prec).nsta, (checkAlarms l prec).nsev) = (.UDF, .INVALID) := by
  have hraise : recGblSetSevr prec.toDbCommon .UDF prec.udfs =
      ({ prec.toDbCommon with nsta := .UDF, nsev := .INVALID }, true) := by
    rw [hudfs]
    exact if_pos (by rw [hnsev]; decide)
  unfold checkAlarms setSevr
  rw [if_pos hudf, hraise]
  rfl

/-! ### Runs -/

/-- A record of the probe, between two processings: it is not simulated, and its alarms follow the
limits. -/
structure Ready (g : Globals) (n : ℤ) (ch : Char) (prec : FullAiRecord) : Prop where
  entry : Entry g prec.toDbCommon n ch
  pact : prec.pact = false
  simm : prec.simm = .NO
  nsta : prec.nsta = .NO_ALARM
  nsev : prec.nsev = .NO_ALARM
  udfs : prec.udfs = .INVALID
  hyst : prec.hyst = 0
  aftc : ¬ 0 < prec.aftc

/-- The record has no SIML, and clients leave SIMM, HYST and AFTC off, UDFS at INVALID and MDEL below `q`. -/
def Plain (q : ℚ) : AiCall → Prop
  | .process l => l.siml = .constant
  | .dbPut (.SIMM v) => v = .NO
  | .dbPut (.UDFS v) => v = .INVALID
  | .dbPut (.HYST v) => v = 0
  | .dbPut (.AFTC v) => ¬ 0 < v
  | .dbPut (.MDEL v) => ∃ b ≤ q, v = .fin b
  | _ => True

theorem Plain.bounded {q : ℚ} {c : AiCall} (h : Plain q c) : Bounded .monitor q c := by
  unfold Bounded
  split
  · exact fun _ => h
  · exact fun hno => nomatch hno
  · trivial

/-- The alarm of the record is that of what has been brought. -/
inductive Shown (T : Target) (n : ℤ) (ch : Char) (w : Box) (prec : FullAiRecord) : Prop
  | ok {v : Double} : content T ch (device w n) = some v → prec.val = v →
    (prec.stat, prec.sevr) = limits prec v → Shown T n ch w prec
  | failed : (prec.stat, prec.sevr) = (.UDF, .INVALID) → Shown T n ch w prec

section Step

variable {T : Target} {g : Globals} {n : ℤ} {ch : Char} {q : ℚ} {r : AiRun}

/-- The end of a processing that has brought `val`, or nothing. -/
theorem Ready.finish (h : Ready g n ch r.prec) (l : AiLinks) {status : ℤ} (hstatus : status ≠ 0)
    {val : Double} {udf : Bool} {r' : AiRun}
    (hr' : r' = r.finish (FullAiRecord.finish l status (fetched r.prec val udf))) :
    Ready g n ch r'.prec ∧ r'.prec.val = val ∧
      (udf = false → (r'.prec.stat, r'.prec.sevr) = limits r'.prec val) ∧
      (udf = true → (r'.prec.stat, r'.prec.sevr) = (.UDF, .INVALID)) := by
  subst hr'
  have hprepare : prepare l status (fetched r.prec val udf) =
      checkAlarms l (fetched r.prec val udf).active := by
    unfold prepare converted
    rw [if_neg hstatus]
  have hlimits : udf = false → _ := fun hudf => checkAlarms_limits l
    (show (fetched r.prec val udf).active.udf = false from hudf) h.hyst h.aftc h.nsta h.nsev
  have hundefined : udf = true → _ := fun hudf => checkAlarms_undefined l
    (show (fetched r.prec val udf).active.udf = true from hudf) h.udfs h.nsev
  rw [AiRun.finish_eq, hprepare]
  obtain ⟨common, afvl, lalm, ⟨nsta, nsev, rfl⟩, hchecked⟩ :=
    checkAlarms_fields l (fetched r.prec val udf).active
  rw [hchecked] at hlimits hundefined ⊢
  obtain ⟨oraw, hmonitor⟩ := monitor_fst { (fetched r.prec val udf).active.setCommon
    { (fetched r.prec val udf).active.toDbCommon with nsta, nsev } with afvl, lalm }
  dsimp only [AiRun.next]
  rw [hmonitor]
  exact ⟨⟨h.entry, rfl, h.simm, rfl, rfl, h.udfs, h.hyst, h.aftc⟩, rfl, hlimits, hundefined⟩

/-- A record that is not simulated reads from its device support. -/
theorem readValue_plain {S : Sig} (read_ai : FullAiRecord → Prog S (ℤ × FullAiRecord)) {l : AiLinks}
    (hl : l.siml = .constant) {prec : FullAiRecord} (hpact : prec.pact = false)
    (hsimm : prec.simm = .NO) : readValue read_ai l prec = read_ai prec := by
  have hsiml : getSiml l prec = (0, prec) := by
    unfold getSiml
    rw [hl]
    rfl
  unfold readValue
  rw [hpact, hsiml]
  dsimp only
  rw [if_neg (by decide), if_neg (by decide), hsimm]

/-- **One processing**, with any failures. -/
theorem wp_shown (h : Ready g n ch r.prec) {l : AiLinks} (hl : l.siml = .constant)
    (cfg₀ : FullAiRecord → UInt8) (w : Box) :
    wp boxEnv (fun _ _ => True)
      (fun r' w' => Ready g n ch r'.prec ∧ AiCall.Step r (.process l) r' ∧ Shown T n ch w' r'.prec)
      (AiCall.prog (readTemp T g cfg₀) (.process l) r) w := by
  show wp _ _ _ ((process (readTemp T g cfg₀) l r.prec).bind fun x => ret (r.finish x)) w
  unfold process
  dsimp only
  rw [readValue_plain _ hl h.pact h.simm, wp_bind, bind_eq, wp_bind]
  refine wp_conseq (wp_readTemp (T := T) h.entry cfg₀ w) fun x w' hx => ?_
  cases hx with
  | @ok v hcontent =>
    rw [if_neg (by rw [show (fetched r.prec v false).pact = r.prec.pact from rfl, h.pact]; decide)]
    obtain ⟨hready, hval, hlimits, -⟩ := h.finish l (show (2 : ℤ) ≠ 0 by decide) rfl
    exact ⟨hready, .process (fetched_fetched _ v false), .ok hcontent hval (hlimits rfl)⟩
  | failed v =>
    rw [if_neg (by rw [show (fetched r.prec v true).pact = r.prec.pact from rfl, h.pact]; decide)]
    obtain ⟨hready, -, -, hundefined⟩ := h.finish l (show (-1 : ℤ) ≠ 0 by decide) rfl
    exact ⟨hready, .process (fetched_fetched _ v true), .failed (hundefined rfl)⟩

/-- A put of an operator. -/
theorem Ready.operator {prec : FullAiRecord} (h : Ready g n ch prec) {common : DbCommon}
    {ackt : Bool} {acks : Severity} (hput : common = { prec.toDbCommon with ackt, acks }) :
    Ready g n ch (prec.setCommon common) := by
  subst hput
  exact ⟨h.entry, h.pact, h.simm, h.nsta, h.nsev, h.udfs, h.hyst, h.aftc⟩

/-- The other calls leave the record ready, too. -/
theorem wp_ready (h : Ready g n ch r.prec) {c : AiCall} (hc : Plain q c)
    (cfg₀ : FullAiRecord → UInt8) (w : Box) :
    wp boxEnv (fun _ _ => True) (fun r' _ => Ready g n ch r'.prec ∧ AiCall.Step r c r')
      (AiCall.prog (readTemp T g cfg₀) c r) w := by
  cases c with
  | process l => exact wp_conseq (wp_shown (T := T) h hc cfg₀ w) fun _ _ h => ⟨h.1, h.2.1⟩
  | putAckt t =>
    refine ⟨?_, .putAckt t⟩
    have hput := putAckt_fst r.prec.toDbCommon t
    by_cases ht : t = r.prec.ackt
    · rw [if_pos ht] at hput
      exact h.operator hput
    · rw [if_neg ht] at hput
      exact h.operator hput
  | putAcks sev =>
    refine ⟨?_, .putAcks sev⟩
    have hput := putAcks_fst r.prec.toDbCommon sev
    split_ifs at hput
    · exact h.operator hput
    · exact h.operator hput
  | dbPut setting =>
    refine ⟨?_, .dbPut setting⟩
    cases setting with
    | SIMM v => exact ⟨h.entry, h.pact, hc, h.nsta, h.nsev, h.udfs, h.hyst, h.aftc⟩
    | UDFS v => exact ⟨h.entry, h.pact, h.simm, h.nsta, h.nsev, hc, h.hyst, h.aftc⟩
    | HYST v => exact ⟨h.entry, h.pact, h.simm, h.nsta, h.nsev, h.udfs, hc, h.aftc⟩
    | AFTC v => exact ⟨h.entry, h.pact, h.simm, h.nsta, h.nsev, h.udfs, h.hyst, hc⟩
    | _ => exact ⟨h.entry, h.pact, h.simm, h.nsta, h.nsev, h.udfs, h.hyst, h.aftc⟩

end Step

/-- What a client knows of the probe, where VAL has the deadband `q`. -/
inductive Displayed (T : Target) (n : ℤ) (ch : Char) (q : ℚ) (w : Box) (known prec : FullAiRecord) :
    Prop
  | ok {v : Double} : content T ch (device w n) = some v → Near (2 * q) known.val v →
    (known.stat, known.sevr) = limits prec v → Displayed T n ch q w known prec
  | failed : (known.stat, known.sevr) = (.UDF, .INVALID) → Displayed T n ch q w known prec

/-- What the events of the next processing tell a subscriber of VAL. -/
theorem wp_displayed {T : Target} {g : Globals} {n : ℤ} {ch : Char} {s : Subscriber}
    (hs : s.field = .VAL) (hvalue : .VALUE ∈ s.select) (halarm : .ALARM ∈ s.select) {q : ℚ}
    (hq : 0 ≤ q) {prec : FullAiRecord} (hready : Ready g n ch prec)
    (hdelta : ∃ b ≤ q, prec.mdel = .fin b) (hsettled : Near q prec.mlst prec.val)
    {calls : List AiCall} (hcalls : ∀ c ∈ calls, Plain q c) (hquiet : Undisturbed false calls)
    (cfg₀ : FullAiRecord → UInt8) (w : Box) :
    wp (Env.tag boxEnv) (fun _ _ => True)
      (fun r _ => ∀ l w', l.siml = .constant → wp boxEnv (fun _ _ => True)
        (fun r' w'' => Displayed T n ch q w'' (s.last prec r'.posts) r'.prec)
        (AiCall.prog (readTemp T g cfg₀) (.process l) r) w')
      (session (AiCall.prog (readTemp T g cfg₀)) calls (.start prec)) w := by
  have hrun : wp (Env.tag boxEnv) (fun _ _ => True)
      (fun r _ => Ready g n ch r.prec ∧ ValMonitored s .monitor q (putWaits calls) prec r)
      (session (AiCall.prog (readTemp T g cfg₀)) calls (.start prec)) w := by
    refine wp_session_prefix
      (I := fun pre r _ => Ready g n ch r.prec ∧ ValMonitored s .monitor q (putWaits pre) prec r) ?_
      ⟨hready, .start hdelta hsettled⟩
    rintro pre c post rfl r w h
    have hc := hcalls c (by simp)
    refine wp_conseq (wp_ready (T := T) h.1 hc cfg₀ w) fun r' _ h' => ⟨h'.1, ?_⟩
    rw [putWaits_snoc]
    exact h.2.step hs (d := .monitor) hvalue hc.bounded (fun _ => hquiet.not_isAck) h'.2
  refine wp_conseq hrun ?_
  rintro r - ⟨hready, hmonitored⟩ l w' hl
  refine wp_conseq (wp_shown (T := T) hready hl cfg₀ w') ?_
  rintro r' w'' ⟨-, hstep, hshown⟩
  have hmonitored' : ValMonitored s .monitor q false prec r' :=
    hmonitored.step hs (d := .monitor) hvalue (c := .process l) trivial (fun _ _ => id) hstep
  obtain ⟨hsevr, hstat⟩ := hmonitored'.alarm halarm
  cases hshown with
  | @ok v hcontent hval hlimits =>
    refine .ok hcontent ?_ ?_
    · rw [two_mul, ← hval]
      exact hmonitored'.known.trans hq hq (hmonitored'.settled rfl)
    · rw [hstat, hsevr]
      exact hlimits
  | failed hundefined =>
    refine .failed ?_
    rw [hstat, hsevr]
    exact hundefined

/-- **From the register to the screen.**  Over every run of processings, acknowledgements and settings, with
any failures, and whatever becomes of the box in between, the next processing leaves a client that
subscribes to VAL with DBE_VALUE and DBE_ALARM, as soon as no event waits in its queue, either with an
INVALID alarm, or with what the driver makes of the register of the probe, up to twice the deadband, and
with the alarm that the limits make of that number. -/
theorem probe_displayed {T : Target} {g : Globals} {n : ℤ} {ch : Char} {c : Subscriber}
    (hc : c.field = .VAL) (hvalue : .VALUE ∈ c.select) (halarm : .ALARM ∈ c.select) {q : ℚ}
    (hq : 0 ≤ q) {prec : FullAiRecord} (hready : Ready g n ch prec)
    (hdelta : ∃ b ≤ q, prec.mdel = .fin b) (hsettled : Near q prec.mlst prec.val)
    {calls : List AiCall} (hcalls : ∀ d ∈ calls, Plain q d) (hquiet : Undisturbed false calls)
    (cfg₀ : FullAiRecord → UInt8) {ι : Type} [DecidableEq ι] (i : ι) (w : Box) :
    wp (Env.tag boxEnv) (fun _ _ => True)
      (fun r _ => ∀ l w', l.siml = .constant → wp boxEnv (fun _ _ => True)
        (fun r' w'' => ∀ (tr : Trace ι FullAiRecord) u t, Event.Run Allowed tr u → u.sub i = some t →
          t.user_sub = true → t.npend = 0 → posted i tr = heard c r'.posts →
          Displayed T n ch q w'' (got prec (delivered i tr)) r'.prec)
        (AiCall.prog (readTemp T g cfg₀) (.process l) r) w')
      (session (AiCall.prog (readTemp T g cfg₀)) calls (.start prec)) w := by
  refine wp_conseq (wp_displayed hc hvalue halarm hq hready hdelta hsettled hcalls hquiet cfg₀ w) ?_
  intro r _ hnext l w' hl
  refine wp_conseq (hnext l w' hl) fun r' w'' hshown tr u t hrun ht huser hnpend hposted => ?_
  rw [hrun.known ht huser hnpend hposted prec]
  exact hshown

/-- The record of the temperature of probe 9, with the limits of the database and the deadband 1. -/
def probeNine : FullAiRecord :=
  { (default : FullAiRecord) with
    dpvt := some 9
    udf := true
    udfs := .INVALID
    sevr := .INVALID
    stat := .UDF
    simm := .NO
    val := 0
    hihi := 35
    high := 30
    low := 15
    lolo := 10
    hhsv := .MAJOR
    hsv := .MINOR
    lsv := .MINOR
    llsv := .MAJOR
    hyst := 0
    aftc := 0
    afvl := 0
    lalm := 0
    mdel := 1
    adel := 1
    mlst := 0
    alst := 0 }

/-- The driver with this record alone. -/
def driverNine : Globals := ⟨3, fun _ => ⟨9, ' '⟩⟩

/-- The links of a record without SIML and SIOL. -/
def plainLinks : AiLinks := ⟨.constant, .constant, fun d => (0, d), 5, fun _ => 0, fun _ => .NO_ALARM⟩

/-- Forty degrees are shown with the alarm HIHI, by one event; and there are runs of a queue with one
event. -/
theorem probe_displayed_nine :
    let T : Target := ⟨false, fun _ => 0, id⟩
    let c : Subscriber := ⟨.VAL, [.VALUE, .ALARM]⟩
    let read_ai := readTemp T driverNine fun _ => 0
    (∀ w, wp (Env.tag boxEnv) (fun _ _ => True)
      (fun r _ => ∀ l w', l.siml = .constant → wp boxEnv (fun _ _ => True)
        (fun r' w'' => ∀ (tr : Trace ℕ FullAiRecord) u t, Event.Run Allowed tr u → u.sub 0 = some t →
          t.user_sub = true → t.npend = 0 → posted 0 tr = heard c r'.posts →
          Displayed T 9 ' ' 1 w'' (got probeNine (delivered 0 tr)) r'.prec)
        (AiCall.prog read_ai (.process l) r) w')
      (session (AiCall.prog read_ai)
        [.dbPut (.HIGH 28), .dbPut (.VAL 7), .process plainLinks, .putAcks 2] (.start probeNine)) w) ∧
    (exec (fun w (o : (BusSig.tag AiCall).Op) => okBox w o.2)
        (session (AiCall.prog read_ai) [.process plainLinks] (.start probeNine))
        ⟨fun _ => false, 0, fun _ _ => ⟨0, 0, fun _ => (40, 0)⟩⟩).map
      (fun x => ((heard c x.1.posts).length, (c.last probeNine x.1.posts).val, x.1.prec.stat,
        x.1.prec.sevr)) = some (1, .fin 40, .HIHI, .MAJOR) ∧
    ∀ v : FullAiRecord, ∃ (tr : Trace ℕ FullAiRecord) (u : EventUser ℕ FullAiRecord) (t : EvSubscrip),
      Event.Run Allowed tr u ∧ u.sub 0 = some t ∧ t.user_sub = true ∧ t.npend = 0 ∧
        posted 0 tr = [.dbfl_type_val v] := by
  intro T c read_ai
  refine ⟨fun w => ?_, by decide +kernel, fun v => ?_⟩
  · have hready : Ready driverNine 9 ' ' probeNine :=
      ⟨⟨9, rfl, rfl, by decide⟩, rfl, rfl, rfl, rfl, rfl, rfl, by decide⟩
    refine probe_displayed rfl (by simp [c]) (by simp [c]) zero_le_one hready ⟨1, le_rfl, rfl⟩
      (.inl rfl) (by simp [Plain, plainLinks]) ?_ (fun _ => 0) 0 w
    simp [Undisturbed, AiCall.waits, AiCall.IsAck]
  · have h₁ : Event.Run Allowed _ (db_add_event db_init_events 0 : EventUser ℕ FullAiRecord) :=
      .step (a := .db_add_event 0) (r := (_, none)) .start rfl rfl
    have h₂ := h₁.step (a := .db_queue_event_log 0 (.dbfl_type_val v)) rfl rfl
    have h₃ := h₂.step (a := .signal) Nat.one_pos rfl
    have h₄ := h₃.step (a := .event_task) (fun _ => rfl) rfl
    have hbusy : (Event.Task.reading : Event.Task ℕ) ≠ .waiting := by decide
    have h₅ := h₄.step (a := .event_task) (fun h => absurd h hbusy) rfl
    exact ⟨_, _, ⟨0, 0, none, true, true⟩, h₅, rfl, rfl, rfl, rfl⟩

end RackmonIoc.Temp
