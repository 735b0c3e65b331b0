import RackmonIoc.Base.Acknowledge
import RackmonIoc.Base.AiRecord

/-!
# What clients know of an ai record

A run of an ai record is a sequence of processings, over any synchronous device support, and of puts by
clients.  What a client knows is the last event of its subscription.

* `prepare` is the part of a processing before `monitor`; it leaves what `Unposted` lists.
* `acks_monitored`: the alarm fields are known to their subscribers, and ACKS is the highest
  severity that is not acknowledged.
-/

namespace RackmonIoc.Base

open Program CLib Prog

namespace FullAiRecord

/-! ### One processing -/

/-- What a synchronous device support may set, and `readValue` around it. -/
def Fetched (prec prec' : FullAiRecord) : Prop :=
  ∃ val rval udf simm sval nsta nsev,
    prec' = { prec with val, rval, udf, simm, sval, nsta, nsev }

/-- A processing has begun. -/
def active (prec : FullAiRecord) : FullAiRecord := { prec with pact := true }

/-- The end of a processing. -/
def release (prec : FullAiRecord) : FullAiRecord := { prec with init := false, pact := false }

/-- The record before `checkAlarms`, after the value has been read with status `status`. -/
def converted (l : AiLinks) (status : ℤ) (prec : FullAiRecord) : FullAiRecord :=
  if status = 0 then convert l prec.active else prec.active

/-- The record before `monitor`. -/
def prepare (l : AiLinks) (status : ℤ) (prec : FullAiRecord) : FullAiRecord :=
  checkAlarms l (converted l status prec)

/-- The fields that only `monitor` and the clients change. -/
structure Unposted (prec prec' : FullAiRecord) : Prop where
  stat : prec'.stat = prec.stat
  sevr : prec'.sevr = prec.sevr
  acks : prec'.acks = prec.acks
  ackt : prec'.ackt = prec.ackt
  mlst : prec'.mlst = prec.mlst
  alst : prec'.alst = prec.alst
  mdel : prec'.mdel = prec.mdel
  adel : prec'.adel = prec.adel

theorem Unposted.trans {prec₁ prec₂ prec₃ : FullAiRecord} (h : Unposted prec₁ prec₂)
    (h' : Unposted prec₂ prec₃) : Unposted prec₁ prec₃ :=
  ⟨h'.stat.trans h.stat, h'.sevr.trans h.sevr, h'.acks.trans h.acks, h'.ackt.trans h.ackt,
    h'.mlst.trans h.mlst, h'.alst.trans h.alst, h'.mdel.trans h.mdel, h'.adel.trans h.adel⟩

theorem Fetched.unposted {prec prec' : FullAiRecord} (h : Fetched prec prec') :
    Unposted prec prec' := by
  obtain ⟨val, rval, udf, simm, sval, nsta, nsev, rfl⟩ := h
  exact ⟨rfl, rfl, rfl, rfl, rfl, rfl, rfl, rfl⟩

theorem unposted_setSevr (prec : FullAiRecord) (stat : AlarmStat) (sevr : Severity) :
    Unposted prec (prec.setSevr stat sevr) := by
  unfold setSevr recGblSetSevr
  split <;> exact ⟨rfl, rfl, rfl, rfl, rfl, rfl, rfl, rfl⟩

theorem unposted_checkAlarms (l : AiLinks) (prec : FullAiRecord) :
    Unposted prec (checkAlarms l prec) := by
  unfold checkAlarms
  split
  · exact (unposted_setSevr prec .UDF prec.udfs).trans ⟨rfl, rfl, rfl, rfl, rfl, rfl, rfl, rfl⟩
  · dsimp only
    split
    · exact (unposted_setSevr prec _ _).trans ⟨rfl, rfl, rfl, rfl, rfl, rfl, rfl, rfl⟩
    · exact ⟨rfl, rfl, rfl, rfl, rfl, rfl, rfl, rfl⟩

theorem Fetched.refl (prec : FullAiRecord) : Fetched prec prec := ⟨_, _, _, _, _, _, _, rfl⟩

theorem Fetched.trans {prec₁ prec₂ prec₃ : FullAiRecord} (h : Fetched prec₁ prec₂)
    (h' : Fetched prec₂ prec₃) : Fetched prec₁ prec₃ := by
  obtain ⟨_, _, _, _, _, _, _, rfl⟩ := h
  obtain ⟨_, _, _, _, _, _, _, rfl⟩ := h'
  exact ⟨_, _, _, _, _, _, _, rfl⟩

theorem fetched_newAlarm {prec : FullAiRecord} {common : DbCommon}
    (h : NewAlarm prec.toDbCommon common) : Fetched prec (prec.setCommon common) := by
  obtain ⟨nsta, nsev, rfl⟩ := h
  exact ⟨_, _, _, _, _, nsta, nsev, rfl⟩

theorem fetched_setSevr (prec : FullAiRecord) (stat : AlarmStat) (sevr : Severity) :
    Fetched prec (prec.setSevr stat sevr) :=
  fetched_newAlarm (recGblSetSevr_newAlarm prec.toDbCommon stat sevr)

/-- The conversion to engineering units may raise an alarm. -/
theorem engineering_snd (l : AiLinks) (prec : FullAiRecord) :
    ∃ common, NewAlarm prec.toDbCommon common ∧ (engineering l prec).2 = prec.setCommon common := by
  have hsame : ∃ common, NewAlarm prec.toDbCommon common ∧ prec = prec.setCommon common :=
    ⟨prec.toDbCommon, ⟨prec.nsta, prec.nsev, rfl⟩, rfl⟩
  have hite : ∀ (c : Prop) [Decidable c], ∃ common, NewAlarm prec.toDbCommon common ∧
      (if c then prec.setSevr .SOFT .MAJOR else prec) = prec.setCommon common := by
    intro c _
    split
    · exact ⟨_, recGblSetSevr_newAlarm prec.toDbCommon .SOFT .MAJOR, rfl⟩
    · exact hsame
  unfold engineering
  cases prec.linr with
  | table => exact hite _
  | NO_CONVERSION | SLOPE | LINEAR => exact hsame

theorem fetched_convert (l : AiLinks) (prec : FullAiRecord) : Fetched prec (convert l prec) := by
  obtain ⟨common, hcommon, hunits⟩ := engineering_snd l prec
  have hfetched := fetched_newAlarm hcommon
  unfold convert
  dsimp only
  rw [hunits]
  exact hfetched.trans ⟨_, _, _, _, _, _, _, rfl⟩

theorem fetched_converted (l : AiLinks) (status : ℤ) (prec : FullAiRecord) :
    Fetched prec.active (converted l status prec) := by
  unfold converted
  split
  · exact fetched_convert l _
  · exact .refl _

theorem unposted_prepare (l : AiLinks) (status : ℤ) (prec : FullAiRecord) :
    Unposted prec (prepare l status prec) := by
  have hactive : Unposted prec prec.active := ⟨rfl, rfl, rfl, rfl, rfl, rfl, rfl, rfl⟩
  exact (hactive.trans (fetched_converted l status prec).unposted).trans (unposted_checkAlarms l _)

/-! ### Reading the value -/

theorem fetched_getSiml (l : AiLinks) (prec : FullAiRecord) : Fetched prec (getSiml l prec).2 :=
  (fetched_newAlarm (l.siml.raise_newAlarm prec.toDbCommon)).trans ⟨_, _, _, _, _, _, _, rfl⟩

theorem fetched_getSiol (l : AiLinks) (prec : FullAiRecord) : Fetched prec (getSiol l prec).2 :=
  (fetched_newAlarm (l.siol.raise_newAlarm prec.toDbCommon)).trans ⟨_, _, _, _, _, _, _, rfl⟩

theorem fetched_simulateVal (status : ℤ) (prec : FullAiRecord) :
    Fetched prec (simulateVal status prec) := by
  unfold simulateVal
  split <;> exact ⟨_, _, _, _, _, _, _, rfl⟩

theorem fetched_simulateRval (l : AiLinks) (status : ℤ) (prec : FullAiRecord) :
    Fetched prec (simulateRval l status prec) := by
  unfold simulateRval
  split
  · dsimp only
    split <;> exact ⟨_, _, _, _, _, _, _, rfl⟩
  · exact .refl prec

section Processing

variable {S : Sig} {W : Type} {E : Env S W} {read_ai : FullAiRecord → Prog S (ℤ × FullAiRecord)}

/-- The device support is synchronous: it may read a value and raise an alarm. -/
def Synchronous (E : Env S W) (read_ai : FullAiRecord → Prog S (ℤ × FullAiRecord)) : Prop :=
  ∀ prec w, wp E (fun _ _ => True) (fun r _ => Fetched prec r.2) (read_ai prec) w

theorem wp_readValue (hdev : Synchronous E read_ai) (l : AiLinks) (prec : FullAiRecord) (w : W) :
    wp E (fun _ _ => True) (fun r _ => Fetched prec r.2) (readValue read_ai l prec) w := by
  unfold readValue
  rw [wp_ite]
  refine ⟨fun _ => hdev prec w, fun _ => ?_⟩
  have hsiml := fetched_getSiml l prec
  generalize getSiml l prec = r at hsiml
  dsimp only
  rw [wp_ite]
  refine ⟨fun _ => hsiml, fun _ => ?_⟩
  cases r.2.simm with
  | NO => exact wp_conseq (hdev r.2 w) fun _ _ h => hsiml.trans h
  | YES =>
    exact ((hsiml.trans (fetched_getSiol l r.2)).trans (fetched_simulateVal _ _)).trans
      (fetched_setSevr _ _ _)
  | RAW =>
    exact ((hsiml.trans (fetched_getSiol l r.2)).trans (fetched_simulateRval l _ _)).trans
      (fetched_setSevr _ _ _)
  | illegal => exact hsiml.trans (fetched_setSevr r.2 .SOFT .INVALID)

/-- **One processing**: the value is read, the record is prepared, and `monitor` posts. -/
theorem wp_process (hdev : Synchronous E read_ai) (l : AiLinks) (prec : FullAiRecord) (w : W) :
    wp E (fun _ _ => True)
      (fun r _ => ∃ status prec', Fetched prec prec' ∧ r = finish l status prec')
      (process read_ai l prec) w := by
  unfold process
  rw [bind_eq, wp_bind]
  refine wp_conseq (wp_readValue hdev l prec w) ?_
  rintro ⟨status, prec'⟩ w' hr
  have hpact : prec'.pact = prec.pact := by
    obtain ⟨_, _, _, _, _, _, _, rfl⟩ := hr
    rfl
  have hdone : ¬ (!prec.pact && prec'.pact) = true := by
    rw [hpact]
    cases prec.pact <;> simp
  dsimp only
  rw [if_neg hdone]
  exact ⟨status, prec', hr, rfl⟩

end Processing

/-! ### What `monitor` does -/

/-- The two deadbands. -/
inductive Deadband where
  | monitor
  | archive

namespace Deadband

/-- The bit that is posted when the deadband is left. -/
def bit : Deadband → EventBit
  | monitor => .VALUE
  | archive => .ARCHIVE

/-- The value last posted with the bit. -/
def last : Deadband → FullAiRecord → Double
  | monitor, prec => prec.mlst
  | archive, prec => prec.alst

def delta : Deadband → FullAiRecord → Double
  | monitor, prec => prec.mdel
  | archive, prec => prec.adel

end Deadband

/-- The mask that VAL is posted with. -/
def monitor_mask (prec : FullAiRecord) : EventMask :=
  let monitor_mask := resetAlarms_mask prec.toDbCommon
  let (_, monitor_mask) := recGblCheckDeadband prec.mlst prec.val prec.mdel monitor_mask [.VALUE]
  (recGblCheckDeadband prec.alst prec.val prec.adel monitor_mask [.ARCHIVE]).2

theorem mem_monitor_mask {prec : FullAiRecord} {b : EventBit} :
    b ∈ monitor_mask prec ↔ b = .ALARM ∧ AlarmChanges prec.toDbCommon ∨
      b = .VALUE ∧ prec.mdel < deadband_delta prec.mlst prec.val ∨
      b = .ARCHIVE ∧ prec.adel < deadband_delta prec.alst prec.val := by
  have halarm : b ∈ resetAlarms_mask prec.toDbCommon ↔ b = .ALARM ∧ AlarmChanges prec.toDbCommon := by
    unfold resetAlarms_mask
    split_ifs with h <;> simp [h]
  have hdeadband : ∀ (old new delta : Double) (mask : EventMask) (bit : EventBit),
      b ∈ (recGblCheckDeadband old new delta mask [bit]).2 ↔
        b ∈ mask ∨ b = bit ∧ delta < deadband_delta old new := by
    intro old new delta mask bit
    unfold recGblCheckDeadband
    split_ifs with h <;> simp [h]
  unfold monitor_mask
  rw [hdeadband, hdeadband, halarm, or_assoc]

section Monitor

variable (prec : FullAiRecord)

/-- The record after `monitor`. -/
theorem monitor_fst :
    ∃ oraw, (monitor prec).1 = { prec.setCommon (recGblResetAlarms prec.toDbCommon) with
      mlst := (recGblCheckDeadband prec.mlst prec.val prec.mdel [] []).1
      alst := (recGblCheckDeadband prec.alst prec.val prec.adel [] []).1
      oraw } := by
  have hmask : ∀ (old new delta : Double) (mask add : EventMask),
      (recGblCheckDeadband old new delta mask add).1 = (recGblCheckDeadband old new delta [] []).1 := by
    intro old new delta mask add
    unfold recGblCheckDeadband
    split <;> rfl
  unfold monitor
  dsimp only
  rw [hmask (prec.setCommon _).mlst, hmask (prec.setCommon _).alst]
  split
  · exact ⟨_, rfl⟩
  · split <;> exact ⟨_, rfl⟩

/-- The posts of `monitor`: those of the alarms, and those of VAL and RVAL if the mask is not empty. -/
theorem monitor_posts :
    ∃ posts : List (Post FullAiRecord),
      (monitor prec).2 = (resetAlarms_posts prec.toDbCommon).map
        (Post.map prec.setCommon) ++ posts ∧
      (∀ p ∈ posts, p.mask = monitor_mask prec ∧ (p.field = some .VAL ∨ p.field = some .RVAL) ∧
        p.prec.toDbCommon = recGblResetAlarms prec.toDbCommon ∧ p.prec.val = prec.val) ∧
      (monitor_mask prec ≠ [] → ∃ p ∈ posts, p.field = some .VAL) := by
  unfold monitor_mask monitor
  dsimp only
  split_ifs with hmask hraw
  · exact ⟨[], (List.append_nil _).symm, by simp, fun h => absurd hmask h⟩
  · refine ⟨_, rfl, ?_, fun _ => ⟨_, List.mem_singleton_self _, rfl⟩⟩
    rintro p hp
    obtain rfl := List.mem_singleton.mp hp
    exact ⟨rfl, .inl rfl, rfl, rfl⟩
  · refine ⟨_, List.append_assoc _ _ _, ?_, fun _ => ⟨_, List.mem_cons_self, rfl⟩⟩
    rintro p hp
    rcases List.mem_cons.mp hp with rfl | hp
    · exact ⟨rfl, .inl rfl, rfl, rfl⟩
    · obtain rfl := List.mem_singleton.mp hp
      exact ⟨rfl, .inr rfl, rfl, rfl⟩

/-- What a subscriber of VAL hears of `monitor` is the record as it is then, and it hears something if a
bit that it selects is in the mask. -/
theorem monitor_heard {s : Subscriber} (hs : s.field = .VAL) :
    (∀ p ∈ (monitor prec).2, s.Hears p → p.mask = monitor_mask prec ∧ p.prec.val = prec.val ∧
      p.prec.toDbCommon = recGblResetAlarms prec.toDbCommon) ∧
    ∀ b ∈ monitor_mask prec, b ∈ s.select → ∃ p ∈ (monitor prec).2, s.Hears p := by
  obtain ⟨posts, hposts, hvalues, hpost⟩ := monitor_posts prec
  rw [hposts]
  refine ⟨fun p hp hhears => ?_, fun b hb hbs => ?_⟩
  · rcases List.mem_append.mp hp with hp | hp
    · -- the posts of the alarms are of other fields
      obtain ⟨p', hp', rfl⟩ := List.mem_map.mp hp
      rcases mem_resetAlarms_posts.mp hp' with ⟨-, rfl⟩ | ⟨-, rfl⟩ | ⟨-, rfl⟩ <;>
        simp [Subscriber.Hears, Post.map, hs] at hhears
    · exact ⟨(hvalues p hp).1, (hvalues p hp).2.2.2, (hvalues p hp).2.2.1⟩
  · obtain ⟨p, hp, hf⟩ := hpost (List.ne_nil_of_mem hb)
    refine ⟨p, List.mem_append_right _ hp, .inr (by rw [hf, hs]), b, ?_, hbs⟩
    rw [(hvalues p hp).1]
    exact hb

/-- The deadband is left and the value posted, or the value is still near the one last posted. -/
theorem monitor_deadband (d : Deadband) :
    (d.bit ∈ monitor_mask prec ∧ d.last (monitor prec).1 = prec.val) ∨
      (d.bit ∉ monitor_mask prec ∧ d.last (monitor prec).1 = d.last prec ∧
        ∀ q, d.delta prec = .fin q → Near q (d.last prec) prec.val) := by
  have hlast : d.last (monitor prec).1 =
      (recGblCheckDeadband (d.last prec) prec.val (d.delta prec) [] []).1 := by
    obtain ⟨oraw, h⟩ := monitor_fst prec
    rw [h]
    cases d <;> rfl
  have hbit : d.bit ∈ monitor_mask prec ↔ d.delta prec < deadband_delta (d.last prec) prec.val := by
    rw [mem_monitor_mask]
    cases d <;> simp [Deadband.bit, Deadband.last, Deadband.delta]
  rw [hlast, hbit]
  unfold recGblCheckDeadband
  by_cases h : d.delta prec < deadband_delta (d.last prec) prec.val
  · exact .inl ⟨h, congrArg Prod.fst (if_pos h)⟩
  · exact .inr ⟨h, congrArg Prod.fst (if_neg h), fun q hq => near_of_not_posted (hq ▸ h)⟩

/-- Then VAL is within the deadband of the value last posted. -/
theorem near_monitor (d : Deadband) {e q : ℚ} (he : d.delta prec = .fin e) (heq : e ≤ q) :
    Near q (d.last (monitor prec).1) prec.val := by
  rcases monitor_deadband prec d with ⟨-, hnew⟩ | ⟨-, hold, hnear⟩
  · exact .inl hnew
  · rw [hold]
    exact (hnear e he).mono heq

/-- The processing ends with the value of the record that `monitor` was given, and with its new alarm. -/
theorem monitor_release (d : Deadband) :
    d.last (monitor prec).1.release = d.last (monitor prec).1 ∧
      d.delta (monitor prec).1.release = d.delta prec ∧
      (monitor prec).1.release.val = prec.val ∧ (monitor prec).1.release.sevr = prec.nsev ∧
      (monitor prec).1.release.stat = prec.nsta := by
  obtain ⟨oraw, hmonitor⟩ := monitor_fst prec
  rw [hmonitor]
  cases d <;> exact ⟨rfl, rfl, rfl, rfl, rfl⟩

end Monitor

end FullAiRecord

/-! ### Runs of a record -/

open FullAiRecord

/-- What happens to an ai record. -/
inductive AiCall where
  | process (l : AiLinks)
  | putAckt (trans : Bool)
  | putAcks (sev : ℕ)
  | dbPut (setting : Setting)

/-- A record, what it has posted, and what has happened to its alarm. -/
structure AiRun where
  prec : FullAiRecord
  posts : List (Post FullAiRecord)
  events : List AlarmEvent

namespace AiRun

def start (prec : FullAiRecord) : AiRun := ⟨prec, [], []⟩

def next (s : AiRun) (prec : FullAiRecord) (posts : List (Post FullAiRecord))
    (events : List AlarmEvent) : AiRun :=
  ⟨prec, s.posts ++ posts, s.events ++ events⟩

/-- A put to the common fields of the record. -/
def common (s : AiRun) (r : DbCommon × List (Post DbCommon)) (event : AlarmEvent) : AiRun :=
  s.next (s.prec.setCommon r.1) (r.2.map (Post.map s.prec.setCommon)) [event]

/-- The end of a processing. -/
def finish (s : AiRun) (r : ℤ × FullAiRecord × List (Post FullAiRecord)) : AiRun :=
  s.next r.2.1 r.2.2 [.processed r.2.1.stat r.2.1.sevr]

theorem finish_eq (s : AiRun) (l : AiLinks) (status : ℤ) (prec : FullAiRecord) :
    s.finish (FullAiRecord.finish l status prec) =
      let m := monitor (prepare l status prec)
      s.next m.1.release m.2 [.processed m.1.stat m.1.sevr] := rfl

end AiRun

namespace AiCall

variable {S : Sig}

def prog (read_ai : FullAiRecord → Prog S (ℤ × FullAiRecord)) : AiCall → AiRun → Prog S AiRun
  | process l, s => do
    let r ← FullAiRecord.process read_ai l s.prec
    return s.finish r
  | putAckt t, s => return s.common (Base.putAckt s.prec.toDbCommon t) (.putAckt t)
  | putAcks sev, s => return s.common (Base.putAcks s.prec.toDbCommon sev) (.putAcks sev)
  | dbPut setting, s => return s.next (s.prec.dbPut setting) [] []

/-- What a call can do. -/
inductive Step (s : AiRun) : AiCall → AiRun → Prop
  | process {l : AiLinks} {status : ℤ} {prec : FullAiRecord} (h : Fetched s.prec prec) :
    Step s (.process l) (s.finish (FullAiRecord.finish l status prec))
  | putAckt (t : Bool) : Step s (.putAckt t) (s.common (Base.putAckt s.prec.toDbCommon t) (.putAckt t))
  | putAcks (sev : ℕ) :
    Step s (.putAcks sev) (s.common (Base.putAcks s.prec.toDbCommon sev) (.putAcks sev))
  | dbPut (setting : Setting) : Step s (.dbPut setting) (s.next (s.prec.dbPut setting) [] [])

variable {W : Type} {E : Env S W} {read_ai : FullAiRecord → Prog S (ℤ × FullAiRecord)}

theorem wp_prog (hdev : Synchronous E read_ai) (c : AiCall) (s : AiRun) (w : W) :
    wp E (fun _ _ => True) (fun s' _ => Step s c s') (c.prog read_ai s) w := by
  cases c with
  | process l =>
    refine wp_bind.mpr (wp_conseq (wp_process hdev l s.prec w) ?_)
    rintro r w' ⟨status, prec, hfetched, rfl⟩
    exact .process hfetched
  | putAckt t => exact .putAckt t
  | putAcks sev => exact .putAcks sev
  | dbPut setting => exact .dbPut setting

/-- **The invariant rule for runs of a record**, with the calls made so far. -/
theorem wp_run_prefix (hdev : Synchronous E read_ai) {I : List AiCall → AiRun → Prop}
    {calls : List AiCall}
    (step : ∀ pre c post, calls = pre ++ c :: post → ∀ s s', I pre s → Step s c s' →
      I (pre ++ [c]) s') {s : AiRun} (h : I [] s) (w : W) :
    wp (Env.tag E) (fun _ _ => True) (fun s' _ => I calls s') (session (prog read_ai) calls s) w := by
  refine wp_session_prefix (I := fun pre s _ => I pre s) (fun pre c post hcalls s w hs => ?_) h
  exact wp_conseq (wp_prog hdev c s w) fun s' _ hstep => step pre c post hcalls s s' hs hstep

/-- The rule for an invariant that does not look at the calls made so far. -/
theorem wp_run (hdev : Synchronous E read_ai) {I : AiRun → Prop} (calls : List AiCall)
    (step : ∀ c ∈ calls, ∀ s s', I s → Step s c s' → I s') {s : AiRun} (h : I s) (w : W) :
    wp (Env.tag E) (fun _ _ => True) (fun s' _ => I s') (session (prog read_ai) calls s) w := by
  refine wp_session (I := fun s _ => I s) (fun c hc s w hs => ?_) h
  exact wp_conseq (wp_prog hdev c s w) fun s' _ hstep => step c hc s s' hs hstep

end AiCall

/-! ### The alarm fields -/

/-- The subscriber knows the alarm field, and ACKS shows what is not acknowledged. -/
structure AlarmMonitored (s : Subscriber) (prec₀ : FullAiRecord) (r : AiRun) : Prop where
  shows : Shows ((Unacknowledged.start prec₀.toDbCommon).run r.events) r.prec.toDbCommon
  knows : KnowsField s (s.last prec₀ r.posts).toDbCommon r.prec.toDbCommon

namespace AlarmMonitored

variable {s : Subscriber} {prec₀ : FullAiRecord} {r : AiRun}

theorem start (h : prec₀.acks = .NO_ALARM) : AlarmMonitored s prec₀ (.start prec₀) :=
  ⟨.start h, .refl s _⟩

/-- The posts of the common fields, as seen on the whole record. -/
theorem last_common (s : Subscriber) (prec known : FullAiRecord) (posts : List (Post DbCommon)) :
    (s.last known (posts.map (Post.map prec.setCommon))).toDbCommon =
      s.last known.toDbCommon posts :=
  Subscriber.last_map id (fun r : FullAiRecord => r.toDbCommon) (fun _ => rfl) posts rfl

/-- A put to the common fields. -/
theorem common (h : AlarmMonitored s prec₀ r) {put : DbCommon × List (Post DbCommon)}
    {event : AlarmEvent}
    (hshows : ∀ u, Shows u r.prec.toDbCommon → Shows (u.step event) put.1)
    (hknows : ∀ known, KnowsField s known r.prec.toDbCommon → KnowsField s (s.last known put.2) put.1) :
    AlarmMonitored s prec₀ (r.common put event) := by
  unfold AiRun.common AiRun.next
  refine ⟨?_, ?_⟩
  · unfold Unacknowledged.run
    rw [List.foldl_append]
    exact hshows _ h.shows
  · rw [Subscriber.last_append, last_common]
    exact hknows _ h.knows

/-- The posts of VAL and RVAL, to a subscriber of an alarm field. -/
theorem last_values {posts : List (Post FullAiRecord)} {prec known : FullAiRecord}
    (hposts : ∀ p ∈ posts, p.field = some .VAL ∨ p.field = some .RVAL)
    (h : KnowsField s known.toDbCommon prec.toDbCommon) :
    KnowsField s (s.last known posts).toDbCommon prec.toDbCommon := by
  by_cases hs : s.field = .VAL ∨ s.field = .RVAL
  · rcases hs with hs | hs <;> exact ⟨by simp [hs], by simp [hs], by simp [hs], by simp [hs]⟩
  · rw [Subscriber.last_of_not_hears]
    · exact h
    · rintro p hp ⟨hfield | hfield, -⟩
      · rcases hposts p hp with h | h <;> simp [h] at hfield
      · rcases hposts p hp with h | h <;> simp_all

theorem process (hs : .VALUE ∈ s.select) (h : AlarmMonitored s prec₀ r) {prec : FullAiRecord}
    (hfetched : Fetched r.prec prec) (l : AiLinks) (status : ℤ) :
    AlarmMonitored s prec₀ (r.finish (FullAiRecord.finish l status prec)) := by
  have hun := hfetched.unposted.trans (unposted_prepare l status prec)
  set prec' := prepare l status prec with hprec'
  have hshows : Shows ((Unacknowledged.start prec₀.toDbCommon).run r.events) prec'.toDbCommon :=
    h.shows.of_fields hun.stat hun.sevr hun.acks hun.ackt
  have hknows : KnowsField s (s.last prec₀ r.posts).toDbCommon prec'.toDbCommon := by
    refine ⟨fun hf => ?_, fun hf => ?_, fun hf => ?_, fun hf => ?_⟩
    · exact (h.knows.sevr hf).trans hun.sevr.symm
    · exact (h.knows.stat hf).trans hun.stat.symm
    · exact (h.knows.acks hf).trans hun.acks.symm
    · exact (h.knows.ackt hf).trans hun.ackt.symm
  obtain ⟨oraw, hmonitor⟩ := monitor_fst prec'
  obtain ⟨posts, hposts, hvalues, -⟩ := monitor_posts prec'
  have hcommon : (monitor prec').1.toDbCommon = recGblResetAlarms prec'.toDbCommon := by
    rw [hmonitor]
    rfl
  rw [AiRun.finish_eq]
  dsimp only
  rw [← hprec']
  refine ⟨?_, ?_⟩
  · have hstep := hshows.reset
    rw [← hcommon] at hstep
    have hstat : (monitor prec').1.stat = prec'.nsta := congrArg DbCommon.stat hcommon
    have hsevr : (monitor prec').1.sevr = prec'.nsev := congrArg DbCommon.sevr hcommon
    rw [hstat, hsevr]
    unfold AiRun.next Unacknowledged.run
    rw [List.foldl_append]
    exact hstep.of_fields rfl rfl rfl rfl
  · have hstep := hknows.resetAlarms hs
    rw [← last_common s prec', ← hcommon] at hstep
    have hend := last_values (fun p hp => (hvalues p hp).2.1) hstep
    unfold AiRun.next
    rw [Subscriber.last_append, hposts, Subscriber.last_append]
    exact ⟨hend.sevr, hend.stat, hend.acks, hend.ackt⟩

theorem step (hs : .VALUE ∈ s.select) (h : AlarmMonitored s prec₀ r) {c : AiCall} {r' : AiRun}
    (hstep : AiCall.Step r c r') : AlarmMonitored s prec₀ r' := by
  cases hstep with
  | process hfetched => exact h.process hs hfetched _ _
  | putAckt t => exact h.common (fun _ hu => hu.putAckt t) fun _ hk => hk.putAckt hs t
  | putAcks sev => exact h.common (fun _ hu => hu.putAcks sev) fun _ hk => hk.putAcks hs sev
  | dbPut setting =>
    obtain ⟨udf, udfs, hcommon⟩ := dbPut_common r.prec setting
    unfold AiRun.next
    rw [List.append_nil, List.append_nil]
    refine ⟨?_, ?_⟩
    · rw [hcommon]
      exact h.shows.of_fields rfl rfl rfl rfl
    · rw [hcommon]
      exact ⟨h.knows.sevr, h.knows.stat, h.knows.acks, h.knows.ackt⟩

end AlarmMonitored

section

variable {S : Sig} {W : Type} {E : Env S W} {read_ai : FullAiRecord → Prog S (ℤ × FullAiRecord)}

/-- **The alarm, as clients see it.**  Over every run of processings, acknowledgements and settings, a
subscriber of SEVR, STAT, ACKS or ACKT that selects DBE_VALUE knows the field, and ACKS is the highest
severity of the alarms that nobody has acknowledged. -/
theorem acks_monitored (hdev : Synchronous E read_ai) {s : Subscriber} (hs : .VALUE ∈ s.select)
    {prec : FullAiRecord} (hacks : prec.acks = .NO_ALARM) (calls : List AiCall) (w : W) :
    wp (Env.tag E) (fun _ _ => True)
      (fun r _ => KnowsField s (s.last prec r.posts).toDbCommon r.prec.toDbCommon ∧
        r.prec.acks = highest ((Unacknowledged.start prec.toDbCommon).run r.events).alarms)
      (session (AiCall.prog read_ai) calls (.start prec)) w := by
  have hrun := AiCall.wp_run hdev (I := AlarmMonitored s prec) calls
    (fun c _ r r' h hstep => h.step hs hstep) (.start hacks) w
  exact wp_conseq hrun fun r _ h => ⟨h.knows, h.shows.acks⟩

end

section Simulated

/-- A device support that does nothing. -/
def noDevice (prec : FullAiRecord) : Prog ⟨Empty, fun _ => Empty⟩ (ℤ × FullAiRecord) := .ret (2, prec)

theorem synchronous_noDevice (E : Env ⟨Empty, fun _ => Empty⟩ Unit) : Synchronous E noDevice :=
  fun prec _ => Fetched.refl prec

/-- A simulated record that has not been processed yet, with the deadbands 1. -/
def simulated : FullAiRecord :=
  { (default : FullAiRecord) with
    udf := true
    udfs := .INVALID
    sevr := .INVALID
    stat := .UDF
    ackt := true
    simm := .YES
    val := 0
    mlst := 0
    alst := 0
    mdel := 1
    adel := 1
    hihi := 35
    hhsv := .MAJOR
    hyst := 0
    aftc := 0
    afvl := 0
    lalm := 0 }

/-- The links of a processing that simulates `q`. -/
def simulatedLinks (q : ℚ) : AiLinks where
  siml := .constant
  siol := .read 0 (.fin q) .NO_ALARM .NO_ALARM
  cvtRawToEngBpt := fun d => (0, d)
  elapsed := 1
  undefined_cast := fun _ => 0
  stray := fun _ => .NO_ALARM

def simulates (q : ℚ) : AiCall := .process (simulatedLinks q)

/-- A run of the simulated record. -/
def simulatedRun (calls : List AiCall) : Option AiRun :=
  (exec (W := Unit) (fun _ _ => none) (session (AiCall.prog noDevice) calls (.start simulated)) ()).map
    Prod.fst

/-- A MAJOR alarm that is gone is still shown, until it is acknowledged. -/
theorem acks_monitored_simulated :
    (∀ calls, wp (Env.tag fun _ _ _ _ => True) (fun _ _ => True)
      (fun r _ => KnowsField ⟨.ACKS, [.VALUE]⟩
          (Subscriber.last ⟨.ACKS, [.VALUE]⟩ simulated r.posts).toDbCommon r.prec.toDbCommon ∧
        r.prec.acks = highest ((Unacknowledged.start simulated.toDbCommon).run r.events).alarms)
      (session (AiCall.prog noDevice) calls (.start simulated)) ()) ∧
    (simulatedRun [simulates 40, simulates 20]).map (fun r => (r.prec.sevr, r.prec.acks)) =
      some (.NO_ALARM, .MAJOR) ∧
    (simulatedRun [simulates 40, simulates 20, .putAcks 2]).map (fun r => r.prec.acks) =
      some .NO_ALARM :=
  ⟨fun calls => acks_monitored (synchronous_noDevice _) (by simp) rfl calls (), by decide +kernel,
    by decide +kernel⟩

end Simulated

end RackmonIoc.Base
