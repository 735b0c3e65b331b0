import RackmonIoc.Base.AiMonitor
import RackmonIoc.CLib.Filter

/-!
# The alarm filter of an ai record

With a positive AFTC the alarm is not that of the range VAL is in, but that of the level of AFVL, a
filter that follows the number of the range.  On rationals one step of it is `Filter.track`.

* `alarm_range_valid`: in every run the level is one of the five ranges, so that `range_stat` is never
  read outside its bounds and no cast is undefined, and the level never moves away from the range of
  VAL, and never past it.
* `alarm_range_settles`: while VAL stays in one range the distance to it shrinks by the factor
  `aftc / (t + aftc)` a processing, and the level is the range once the distance is small.
-/

namespace RackmonIoc.Base

open Program CLib Prog FullAiRecord Filter

/-! ### One step on rationals -/

/-- THRESHOLD as a rational. -/
def threshold : ℚ := 6321 / 10000

theorem half_le_threshold : (1 : ℚ) / 2 ≤ threshold := by norm_num [threshold]

/-- The weight of the old state after `e` seconds. -/
def weight (a e : ℚ) : ℚ := a / (e + a)

section Weight

variable {a e : ℚ}

theorem weight_nonneg (ha : 0 < a) (he : 0 ≤ e) : 0 ≤ weight a e := div_nonneg ha.le (by linarith)

theorem weight_le_one (ha : 0 < a) (he : 0 ≤ e) : weight a e ≤ 1 := by
  unfold weight
  rw [div_le_one (by linarith)]
  linarith

end Weight

theorem sub_fin (p q : ℚ) : (.fin p : Double) - .fin q = .fin (p - q) := by
  rw [sub_eq_add_neg p q]
  rfl

/-- **The step of the source is the step of the filter.** -/
theorem filter_afvl_fin {a e : ℚ} (ha : 0 < a) (he : 0 ≤ e) (q : ℚ) (r : ℤ) :
    filter_afvl (.fin a) (.fin e) (.fin q) r = .fin (track threshold (weight a e) r q) := by
  have hne : e + a ≠ 0 := by linarith
  have halpha : (.fin a : Double) / (.fin e + .fin a) = .fin (weight a e) := by
    show (if e + a = 0 then _ else _) = _
    rw [if_neg hne]
    rfl
  have hmix : (.fin (weight a e) : Double) * .fin q +
      (if (0 : Double) < .fin q then 1 - .fin (weight a e) else .fin (weight a e) - 1) * .fin r =
        .fin (mix (weight a e) q (directed q r)) := by
    have h0 : ((0 : Double) < .fin q) ↔ 0 < q := Double.fin_lt 0 q
    unfold mix directed
    by_cases hq : 0 < q
    · rw [if_pos (h0.mpr hq), if_pos hq]
      show Double.fin (_ + (1 + -weight a e) * r) = _
      rw [← sub_eq_add_neg]
    · rw [if_neg (mt h0.mp hq), if_neg hq]
      show Double.fin (_ + (weight a e + -1) * r) = _
      congr 1
      push_cast
      ring
  unfold filter_afvl
  dsimp only
  rw [halpha, hmix]
  unfold track turn
  set q' := mix (weight a e) q (directed q r : ℤ)
  have hfract : THRESHOLD < .fin q' - (Double.fin q').floor ↔ threshold < Int.fract q' := by
    have hsub : (.fin q' : Double) - (Double.fin q').floor = .fin (Int.fract q') := sub_fin _ _
    rw [hsub]
    exact Double.fin_lt _ _
  by_cases h : threshold < Int.fract q'
  · rw [if_pos (hfract.mpr h), if_pos h]
    rfl
  · rw [if_neg (mt hfract.mp h), if_neg h]

/-! ### One processing -/

/-- The range of VAL. -/
theorem limit_level_range (prec : FullAiRecord) :
    1 ≤ (limit_level prec).alarmRange ∧ (limit_level prec).alarmRange ≤ 5 := by
  unfold limit_level range_Hihi range_Lolo range_High range_Low range_Normal
  split_ifs <;> dsimp only <;> omega

@[simp] theorem range_level_range (prec : FullAiRecord) (level : AlarmLevel) (r : ℤ) :
    (range_level prec level r).alarmRange = r := by
  unfold range_level
  split_ifs <;> rfl

/-- The filter is off, has not started, or follows the ranges from `range_Lolo` to `range_Hihi`. -/
def FilterState (afvl : Double) : Prop := afvl = 0 ∨ ∃ q, afvl = .fin q ∧ Tracking threshold 1 5 q

/-- The level of a state of the filter as an `int`: the cast is defined. -/
theorem level_toInt {q : ℚ} (h : Tracking threshold 1 5 q) (undefined : Double → ℤ) :
    |(Double.fin q).floor.toInt undefined| = level q := by
  obtain ⟨hlo, hhi⟩ := h.level
  have htrunc : Double.trunc (⌊q⌋ : ℚ) = ⌊q⌋ := by
    unfold Double.trunc
    split_ifs
    · exact Int.floor_intCast _
    · exact Int.ceil_intCast _
  have hfits : Double.FitsInt (Double.trunc (⌊q⌋ : ℚ)) := by
    rw [htrunc]
    unfold level at hlo hhi
    have hle := abs_le.mp hhi
    exact ⟨by omega, by omega⟩
  unfold level
  show |Double.toInt undefined (.fin ⌊q⌋)| = _
  rw [Double.toInt_fin hfits, htrunc]

section Filtered

variable {l : AiLinks} {prec : FullAiRecord} {a e q : ℚ}

theorem tracking_track (ha : 0 < a) (he : 0 ≤ e) (hq : Tracking threshold 1 5 q) :
    Tracking threshold 1 5 (track threshold (weight a e) (limit_level prec).alarmRange q) :=
  hq.track half_le_threshold (weight_nonneg ha he) (weight_le_one ha he) one_pos
    (limit_level_range prec).1 (limit_level_range prec).2

/-- The filter off. -/
theorem filtered_off (h : ¬ 0 < prec.aftc) : filtered l prec = (0, limit_level prec) := by
  unfold filtered
  dsimp only
  rw [if_neg h]

/-- The filter starts at the range of VAL. -/
theorem filtered_start (h : 0 < prec.aftc) (hafvl : prec.afvl = 0) :
    filtered l prec = (.fin (limit_level prec).alarmRange, limit_level prec) := by
  unfold filtered
  dsimp only
  rw [if_pos h, if_pos (by rw [hafvl]; rfl)]

/-- The filter goes on. -/
theorem filtered_track (ha : 0 < a) (he : 0 ≤ e) (haftc : prec.aftc = .fin a)
    (helapsed : l.elapsed = .fin e) (hafvl : prec.afvl = .fin q) (hq : Tracking threshold 1 5 q) :
    filtered l prec =
      (.fin (track threshold (weight a e) (limit_level prec).alarmRange q),
        range_level prec (limit_level prec)
          (level (track threshold (weight a e) (limit_level prec).alarmRange q))) := by
  have hpos : 0 < prec.aftc := by
    rw [haftc]
    exact (Double.fin_lt 0 a).mpr ha
  have hne : ¬ prec.afvl.eq 0 = true := by
    rw [hafvl]
    have hq0 := hq.ne_zero one_pos
    simpa [Double.eq, Double.isnan] using hq0
  unfold filtered
  dsimp only
  rw [if_pos hpos, if_neg hne, haftc, helapsed, hafvl, filter_afvl_fin ha he,
    level_toInt (tracking_track ha he hq)]

/-- A step of the filter after `e` seconds: it is off, it starts, or it goes on. -/
inductive FilterStep (prec : FullAiRecord) (e : ℚ) : Double × AlarmLevel → Prop
  | off : ¬ 0 < prec.aftc → FilterStep prec e (0, limit_level prec)
  | start : prec.afvl = 0 → FilterStep prec e (.fin (limit_level prec).alarmRange, limit_level prec)
  | track {a q : ℚ} : 0 < a → prec.aftc = .fin a → prec.afvl = .fin q → Tracking threshold 1 5 q →
    FilterStep prec e
      (.fin (Filter.track threshold (weight a e) (limit_level prec).alarmRange q),
        range_level prec (limit_level prec)
          (level (Filter.track threshold (weight a e) (limit_level prec).alarmRange q)))

/-- **The step depends on the record and the time only.** -/
theorem filtered_step (hafvl : FilterState prec.afvl) (haftc : prec.aftc ≠ .inf false) (he : 0 ≤ e) :
    ∃ r, FilterStep prec e r ∧ ∀ l : AiLinks, l.elapsed = .fin e → filtered l prec = r := by
  by_cases hon : 0 < prec.aftc
  · rcases hafvl with h0 | ⟨q, hq, htracking⟩
    · exact ⟨_, .start h0, fun l _ => filtered_start hon h0⟩
    · -- AFTC is a positive number
      rcases haftc' : prec.aftc with _ | neg | a
      · rw [haftc'] at hon
        exact nomatch hon
      · rw [haftc'] at hon haftc
        cases neg with
        | false => exact absurd rfl haftc
        | true => exact nomatch hon
      · rw [haftc'] at hon
        have ha : 0 < a := (Double.fin_lt 0 a).mp hon
        exact ⟨_, .track ha haftc' hq htracking,
          fun l hl => filtered_track ha he haftc' hl hq htracking⟩
  · exact ⟨_, .off hon, fun l _ => filtered_off hon⟩

theorem FilterStep.range {r : Double × AlarmLevel} (he : 0 ≤ e) (h : FilterStep prec e r) :
    1 ≤ r.2.alarmRange ∧ r.2.alarmRange ≤ 5 := by
  cases h with
  | off | start => exact limit_level_range prec
  | track ha haftc hafvl hq =>
    rw [range_level_range]
    exact (tracking_track ha he hq).level

theorem FilterStep.state {r : Double × AlarmLevel} (he : 0 ≤ e) (h : FilterStep prec e r) :
    FilterState r.1 := by
  cases h with
  | off => exact .inl rfl
  | start =>
    have hrange := limit_level_range prec
    exact .inr ⟨_, rfl, tracking_intCast (by norm_num [threshold]) (by omega) hrange.1 hrange.2⟩
  | track ha haftc hafvl hq => exact .inr ⟨_, rfl, tracking_track ha he hq⟩

end Filtered

/-- The state of the filter after `checkAlarms`. -/
theorem checkAlarms_afvl (l : AiLinks) (prec : FullAiRecord) :
    (checkAlarms l prec).afvl = if prec.udf then 0 else (filtered l prec).1 := by
  unfold checkAlarms
  split
  · rfl
  · dsimp only
    split <;> rfl

theorem range_stat_eq {l l' : AiLinks} {r : ℤ} (h1 : 1 ≤ r) (h5 : r ≤ 5) :
    range_stat l r = range_stat l' r := by
  unfold range_stat range_Lolo range_Low range_Normal range_High range_Hihi
  split_ifs <;> first | rfl | omega

/-- `checkAlarms` depends on the time only, if the filter steps are the same and the level is a range. -/
theorem checkAlarms_eq {l l' : AiLinks} {prec : FullAiRecord} (h : filtered l' prec = filtered l prec)
    (h1 : 1 ≤ (filtered l prec).2.alarmRange) (h5 : (filtered l prec).2.alarmRange ≤ 5) :
    checkAlarms l' prec = checkAlarms l prec := by
  have hstat : range_stat l' (filtered l prec).2.alarmRange =
      range_stat l (filtered l prec).2.alarmRange := range_stat_eq h1 h5
  unfold checkAlarms
  rw [h]
  dsimp only
  rw [hstat]

/-! ### Runs -/

/-- The clock does not go back, and AFTC is not set to infinity. -/
def Filters : AiCall → Prop
  | .process l => ∃ e, 0 ≤ e ∧ l.elapsed = .fin e
  | .dbPut (.AFTC v) => v ≠ .inf false
  | _ => True

theorem dbPut_afvl (prec : FullAiRecord) (setting : Setting) :
    (prec.dbPut setting).afvl = prec.afvl := by
  cases setting <;> rfl

/-- The states of a record between two processings. -/
structure Filtering (prec : FullAiRecord) : Prop where
  afvl : FilterState prec.afvl
  aftc : prec.aftc ≠ .inf false

namespace Filtering

variable {prec : FullAiRecord}

/-- The filter does not use what the processing changes before `checkAlarms`. -/
theorem converted (h : Filtering prec) {prec' : FullAiRecord} (hfetched : Fetched prec prec')
    (l : AiLinks) (status : ℤ) : Filtering (converted l status prec') := by
  have hactive : Fetched prec.active (FullAiRecord.converted l status prec') := by
    obtain ⟨_, _, _, _, _, _, _, rfl⟩ := hfetched
    exact Fetched.trans ⟨_, _, _, _, _, _, _, rfl⟩ (fetched_converted l status _)
  obtain ⟨_, _, _, _, _, _, _, hactive⟩ := hactive
  rw [hactive]
  exact ⟨h.afvl, h.aftc⟩

theorem checkAlarms (h : Filtering prec) {l : AiLinks} (hl : Filters (.process l)) :
    Filtering (checkAlarms l prec) := by
  obtain ⟨e, he, helapsed⟩ := hl
  obtain ⟨r, hr, hfiltered⟩ := filtered_step h.afvl h.aftc he
  refine ⟨?_, ?_⟩
  · rw [checkAlarms_afvl]
    split
    · exact .inl rfl
    · rw [hfiltered l helapsed]
      exact hr.state he
  · have haftc : (FullAiRecord.checkAlarms l prec).aftc = prec.aftc := by
      unfold FullAiRecord.checkAlarms
      split
      · rfl
      · dsimp only
        split <;> rfl
    rw [haftc]
    exact h.aftc

theorem step {r r' : AiRun} {c : AiCall} (hc : Filters c) (h : Filtering r.prec)
    (hstep : AiCall.Step r c r') : Filtering r'.prec := by
  cases hstep with
  | @process l status prec hfetched =>
    obtain ⟨hafvl, haftc⟩ := (h.converted hfetched l status).checkAlarms hc
    obtain ⟨oraw, hmonitor⟩ := monitor_fst (prepare l status prec)
    rw [AiRun.finish_eq]
    unfold AiRun.next
    dsimp only
    rw [hmonitor]
    exact ⟨hafvl, haftc⟩
  | putAckt t => exact ⟨h.afvl, h.aftc⟩
  | putAcks sev => exact ⟨h.afvl, h.aftc⟩
  | dbPut setting =>
    refine ⟨dbPut_afvl r.prec setting ▸ h.afvl, ?_⟩
    cases setting with
    | AFTC v => exact hc
    | _ => exact h.aftc

end Filtering

section

variable {S : Sig} {W : Type} {E : Env S W} {read_ai : FullAiRecord → Prog S (ℤ × FullAiRecord)}

/-- What a processing with the record `prec` before `checkAlarms` does with the filter. -/
structure RangeValid (l : AiLinks) (prec : FullAiRecord) : Prop where
  low : 1 ≤ (filtered l prec).2.alarmRange
  high : (filtered l prec).2.alarmRange ≤ 5
  /-- no cast is undefined, and `range_stat` is read inside its bounds -/
  defined : ∀ l' : AiLinks, l'.elapsed = l.elapsed → checkAlarms l' prec = checkAlarms l prec
  /-- the level moves from the old one towards the range of VAL -/
  between : ∀ q, prec.afvl = .fin q → q ≠ 0 → 0 < prec.aftc →
    (level q ≤ (filtered l prec).2.alarmRange ∧
        (filtered l prec).2.alarmRange ≤ (limit_level prec).alarmRange) ∨
      ((limit_level prec).alarmRange ≤ (filtered l prec).2.alarmRange ∧
        (filtered l prec).2.alarmRange ≤ level q)

theorem Filtering.rangeValid {l : AiLinks} {prec : FullAiRecord} (h : Filtering prec)
    (hl : Filters (.process l)) : RangeValid l prec := by
  obtain ⟨e, he, helapsed⟩ := hl
  obtain ⟨r, hr, hfiltered⟩ := filtered_step h.afvl h.aftc he
  obtain ⟨h1, h5⟩ := hr.range he
  have hl := hfiltered l helapsed
  refine ⟨?_, ?_, fun l' hl' => ?_, fun q hafvl hq hon => ?_⟩
  · rw [hl]
    exact h1
  · rw [hl]
    exact h5
  · refine checkAlarms_eq ?_ ?_ ?_
    · rw [hl, hfiltered l' (hl'.trans helapsed)]
    · rw [hl]
      exact h1
    · rw [hl]
      exact h5
  · rw [hl]
    cases hr with
    | off hoff => exact absurd hon hoff
    | start h0 =>
      have hzero : q = 0 := Double.fin.inj (hafvl.symm.trans h0)
      exact absurd hzero hq
    | track ha haftc hafvl' htracking =>
      obtain rfl := Double.fin.inj (hafvl.symm.trans hafvl')
      rw [range_level_range]
      exact level_track_between (weight_nonneg ha he) (weight_le_one ha he) htracking one_pos
        (limit_level_range prec).1

/-- **The alarm filter over whole runs.**  As long as the clock does not go back and AFTC is no infinity,
the next processing of every record reached raises the alarm of one of the five ranges, without an
undefined cast or a read outside `range_stat`, and its level lies between the old level and the range of
VAL. -/
theorem alarm_range_valid (hdev : Synchronous E read_ai) {prec : FullAiRecord}
    (hafvl : FilterState prec.afvl) (haftc : prec.aftc ≠ .inf false) {calls : List AiCall}
    (hcalls : ∀ c ∈ calls, Filters c) (w : W) :
    wp (Env.tag E) (fun _ _ => True)
      (fun r _ => ∀ l status prec', Filters (.process l) → Fetched r.prec prec' →
        RangeValid l (converted l status prec'))
      (session (AiCall.prog read_ai) calls (.start prec)) w := by
  have hrun := AiCall.wp_run hdev (I := fun r => Filtering r.prec) calls
    (fun c hc r r' h hstep => h.step (hcalls c hc) hstep) (s := .start prec) ⟨hafvl, haftc⟩ w
  exact wp_conseq hrun fun r _ h l status prec' hl hfetched =>
    (h.converted hfetched l status).rangeValid hl

/-- A HIHI alarm passes a filter of two seconds with the fifth processing. -/
theorem alarm_range_valid_simulated :
    wp (Env.tag fun _ _ _ _ => True) (fun _ _ => True)
      (fun r _ => ∀ l status prec', Filters (.process l) → Fetched r.prec prec' →
        RangeValid l (converted l status prec'))
      (session (AiCall.prog noDevice)
        (.dbPut (.AFTC 2) :: simulates 20 :: List.replicate 5 (simulates 40)) (.start simulated)) () ∧
    (simulatedRun (.dbPut (.AFTC 2) :: simulates 20 :: List.replicate 4 (simulates 40))).map
      (fun r => r.prec.sevr) = some .NO_ALARM ∧
    (simulatedRun (.dbPut (.AFTC 2) :: simulates 20 :: List.replicate 5 (simulates 40))).map
      (fun r => r.prec.sevr) = some .MAJOR := by
  refine ⟨?_, by decide +kernel, by decide +kernel⟩
  refine alarm_range_valid (synchronous_noDevice _) (.inl rfl) (by simp [simulated]) ?_ ()
  have hfilters : ∀ q, Filters (simulates q) := fun q => ⟨1, zero_le_one, rfl⟩
  intro c hc
  simp only [List.mem_cons, List.mem_replicate] at hc
  rcases hc with rfl | rfl | ⟨-, rfl⟩
  · exact nofun
  · exact hfilters 20
  · exact hfilters 40

end

/-! ### VAL stays in one range -/

/-- A processing with the filter on, `e` seconds after the last one and with the time constant `a`, that
finds VAL in the range `t`. -/
structure InRange (t : ℤ) (a e : ℚ) (l : AiLinks) (prec : FullAiRecord) : Prop where
  time_constant : 0 < a ∧ prec.aftc = .fin a
  elapsed : 0 ≤ e ∧ l.elapsed = .fin e
  defined : prec.udf = false
  range : (limit_level prec).alarmRange = t

/-- A run in which every processing finds VAL in the range `t`, and the product of the weights.  What the
settings in between change, AFTC and the limits included, is left to the processings. -/
inductive Steady (t : ℤ) : ℚ → AiRun → AiRun → Prop
  | refl (r : AiRun) : Steady t 1 r r
  | process {w a e : ℚ} {r r' : AiRun} {l : AiLinks} {status : ℤ} {prec : FullAiRecord} :
    Steady t w r r' → Fetched r'.prec prec → InRange t a e l (converted l status prec) →
    Steady t (weight a e * w) r (r'.finish (FullAiRecord.finish l status prec))
  | putAckt {w : ℚ} {r r' : AiRun} (trans : Bool) : Steady t w r r' →
    Steady t w r (r'.common (Base.putAckt r'.prec.toDbCommon trans) (.putAckt trans))
  | putAcks {w : ℚ} {r r' : AiRun} (sev : ℕ) : Steady t w r r' →
    Steady t w r (r'.common (Base.putAcks r'.prec.toDbCommon sev) (.putAcks sev))
  | dbPut {w : ℚ} {r r' : AiRun} (setting : Setting) : Steady t w r r' →
    Steady t w r (r'.next (r'.prec.dbPut setting) [] [])

/-- The range of VAL as the level gives the alarm of VAL. -/
theorem range_level_self (prec : FullAiRecord) :
    range_level prec (limit_level prec) (limit_level prec).alarmRange = limit_level prec := by
  unfold limit_level
  split_ifs <;> rfl

section Steady

variable {t : ℤ} {a e q w : ℚ} {l : AiLinks} {status : ℤ} {r r' : AiRun} {prec : FullAiRecord}

/-- The processing changes the state of the filter by one step. -/
theorem InRange.filtered (h : InRange t a e l prec) (hafvl : prec.afvl = .fin q)
    (hq : Tracking threshold 1 5 q) :
    filtered l prec =
      (.fin (track threshold (weight a e) t q),
        range_level prec (limit_level prec) (level (track threshold (weight a e) t q))) := by
  have hstep := filtered_track h.time_constant.1 h.elapsed.1 h.time_constant.2 h.elapsed.2 hafvl hq
  rw [h.range] at hstep
  exact hstep

theorem InRange.tracking (h : InRange t a e l prec) (hq : Tracking threshold 1 5 q) :
    Tracking threshold 1 5 (track threshold (weight a e) t q) := by
  rw [← h.range]
  exact tracking_track h.time_constant.1 h.elapsed.1 hq

theorem InRange.dist (h : InRange t a e l prec) (hq : Tracking threshold 1 5 q) :
    |track threshold (weight a e) t q| - t = weight a e * (|q| - t) := by
  have hrange := limit_level_range prec
  rw [h.range] at hrange
  exact track_dist (weight_nonneg h.time_constant.1 h.elapsed.1)
    (weight_le_one h.time_constant.1 h.elapsed.1) (hq.ne_zero one_pos) (by omega)

/-- What the device support and the conversion do does not touch the filter. -/
theorem converted_afvl (hfetched : Fetched r.prec prec) :
    (converted l status prec).afvl = r.prec.afvl := by
  have hactive := fetched_converted l status prec
  obtain ⟨_, _, _, _, _, _, _, rfl⟩ := hfetched
  obtain ⟨_, _, _, _, _, _, _, hactive⟩ := hactive
  rw [hactive]
  rfl

theorem finish_afvl (r : AiRun) (l : AiLinks) (status : ℤ) (prec : FullAiRecord) :
    (r.finish (FullAiRecord.finish l status prec)).prec.afvl =
      (checkAlarms l (converted l status prec)).afvl := by
  obtain ⟨oraw, hmonitor⟩ := monitor_fst (prepare l status prec)
  rw [AiRun.finish_eq]
  unfold AiRun.next
  dsimp only
  rw [hmonitor]
  rfl

/-- **The distance to the range shrinks** by the weight of every processing. -/
theorem Steady.dist (h : Steady t w r r') (hafvl : r.prec.afvl = .fin q)
    (hq : Tracking threshold 1 5 q) :
    ∃ q', r'.prec.afvl = .fin q' ∧ Tracking threshold 1 5 q' ∧ |q'| - t = w * (|q| - t) := by
  induction h with
  | refl r => exact ⟨q, hafvl, hq, (one_mul _).symm⟩
  | @process w a e r r' l status prec h hfetched hin ih =>
    obtain ⟨q', hafvl', hq', hdist⟩ := ih hafvl
    have hold : (converted l status prec).afvl = .fin q' := (converted_afvl hfetched).trans hafvl'
    refine ⟨track threshold (weight a e) t q', ?_, hin.tracking hq', ?_⟩
    · rw [finish_afvl, checkAlarms_afvl, hin.defined, hin.filtered hold hq']
      rfl
    · rw [hin.dist hq', hdist, mul_assoc]
  | putAckt trans h ih => exact ih hafvl
  | putAcks sev h ih => exact ih hafvl
  | dbPut setting h ih =>
    obtain ⟨q', hafvl', hq', hdist⟩ := ih hafvl
    exact ⟨q', (dbPut_afvl _ setting).trans hafvl', hq', hdist⟩

/-- **The filtered alarm settles.**  While every processing finds VAL in the range `t`, AFVL approaches `t`
as the product of the weights; and once it is close, every further such processing raises exactly the
alarm that it would raise without a filter. -/
theorem alarm_range_settles (h : Steady t w r r') (hafvl : r.prec.afvl = .fin q)
    (hq : Tracking threshold 1 5 q) :
    (∃ q', r'.prec.afvl = .fin q' ∧ |q'| - t = w * (|q| - t)) ∧
    (|w * (|q| - t)| < 1 - threshold → ∀ a e l status prec, Fetched r'.prec prec →
      InRange t a e l (converted l status prec) →
      (filtered l (converted l status prec)).2 = limit_level (converted l status prec)) := by
  obtain ⟨q', hafvl', hq', hdist⟩ := h.dist hafvl hq
  refine ⟨⟨q', hafvl', hdist⟩, fun hnear a e l status prec hfetched hin => ?_⟩
  have hrange := limit_level_range (converted l status prec)
  rw [hin.range] at hrange
  have hweight := weight_nonneg hin.time_constant.1 hin.elapsed.1
  have hnear' : |(|track threshold (weight a e) t q'| - t)| < 1 - threshold := by
    rw [hin.dist hq', hdist, abs_mul, abs_of_nonneg hweight]
    calc weight a e * |w * (|q| - t)| ≤ 1 * |w * (|q| - t)| :=
          mul_le_mul_of_nonneg_right (weight_le_one hin.time_constant.1 hin.elapsed.1) (abs_nonneg _)
      _ < 1 - threshold := by rwa [one_mul]
  have hlevel := (hin.tracking hq').level_near half_le_threshold (by omega) hnear'
  rw [hin.filtered ((converted_afvl hfetched).trans hafvl') hq', hlevel]
  dsimp only
  rw [← hin.range]
  exact range_level_self _

end Steady

/-- A record that has been NORMAL, with VAL above HIHI and a short time constant. -/
def settling : FullAiRecord :=
  { simulated with
    udf := false
    val := 40
    aftc := .fin (1 / 10)
    afvl := .fin 3 }

/-- The run after one processing and a put of AFTC. -/
def settlingPut : AiRun :=
  let r := (AiRun.start settling).finish (FullAiRecord.finish (simulatedLinks 40) 2 settling)
  r.next (r.prec.dbPut (.AFTC (.fin (1 / 5)))) [] []

/-- Two processings with two time constants are enough for it. -/
theorem alarm_range_settles_settling :
    let r' := settlingPut.finish (FullAiRecord.finish (simulatedLinks 40) 2 settlingPut.prec)
    (∃ q, r'.prec.afvl = .fin q ∧
      |q| - (5 : ℤ) = weight (1 / 5) 1 * (weight (1 / 10) 1 * 1) * (|3| - (5 : ℤ))) ∧
      ∀ a e l status prec, Fetched r'.prec prec → InRange 5 a e l (converted l status prec) →
        (filtered l (converted l status prec)).2 = limit_level (converted l status prec) := by
  have hfirst : InRange 5 (1 / 10) 1 (simulatedLinks 40) (converted (simulatedLinks 40) 2 settling) :=
    ⟨⟨by norm_num, rfl⟩, ⟨zero_le_one, rfl⟩, rfl, by decide +kernel⟩
  have hsecond : InRange 5 (1 / 5) 1 (simulatedLinks 40)
      (converted (simulatedLinks 40) 2 settlingPut.prec) :=
    ⟨⟨by norm_num, rfl⟩, ⟨zero_le_one, rfl⟩, by decide +kernel, by decide +kernel⟩
  have hsteady : Steady 5 (weight (1 / 10) 1 * 1) (.start settling) settlingPut :=
    .dbPut _ (.process (.refl _) (.refl settling) hfirst)
  have h := alarm_range_settles (.process hsteady (.refl _) hsecond) (q := 3) rfl
    (tracking_intCast (r := 3) (by norm_num [threshold]) (by norm_num) (by norm_num) (by norm_num))
  refine ⟨h.1, h.2 ?_⟩
  norm_num [weight, threshold]

end RackmonIoc.Base
