import RackmonIoc.Base.AiMonitor
import RackmonIoc.CLib.Filter

/-!
# The smoothing of an ai record

`convert` mixes the new value with the old one by SMOO.  Over a run in which all values are numbers, VAL is
the filter `Filter.mixes` of what is brought and put, where everything but a smoothed value replaces VAL,
that is, has the weight 0.
-/

namespace RackmonIoc.Base

open CLib FullAiRecord Filter

/-- A run, with its inputs: the weight of the old VAL, and the new value. -/
inductive Smoothed : List (ℚ × ℚ) → AiRun → AiRun → Prop
  | refl (r : AiRun) : Smoothed [] r r
  /-- a processing that converts; with INIT it is not smoothed -/
  | process {inputs : List (ℚ × ℚ)} {s x : ℚ} {r r' : AiRun} {l : AiLinks} {prec : FullAiRecord} :
    Smoothed inputs r r' → Fetched r'.prec prec → prec.val = r'.prec.val → prec.smoo = .fin s →
    (engineering l prec.active).1 = .fin x →
    Smoothed (inputs ++ [(if prec.init then 0 else s, x)]) r (r'.finish (FullAiRecord.finish l 0 prec))
  /-- a processing in which the device support sets VAL itself -/
  | bring {inputs : List (ℚ × ℚ)} {x : ℚ} {r r' : AiRun} {l : AiLinks} {status : ℤ}
    {prec : FullAiRecord} : Smoothed inputs r r' → Fetched r'.prec prec → status ≠ 0 →
    prec.val = .fin x → Smoothed (inputs ++ [(0, x)]) r (r'.finish (FullAiRecord.finish l status prec))
  /-- a processing that brings no value -/
  | fail {inputs : List (ℚ × ℚ)} {r r' : AiRun} {l : AiLinks} {status : ℤ} {prec : FullAiRecord} :
    Smoothed inputs r r' → Fetched r'.prec prec → status ≠ 0 → prec.val = r'.prec.val →
    Smoothed inputs r (r'.finish (FullAiRecord.finish l status prec))
  | putVal {inputs : List (ℚ × ℚ)} {r r' : AiRun} (x : ℚ) : Smoothed inputs r r' →
    Smoothed (inputs ++ [(0, x)]) r (r'.next (r'.prec.dbPut (.VAL (.fin x))) [] [])
  | dbPut {inputs : List (ℚ × ℚ)} {r r' : AiRun} (setting : Setting) : (∀ v, setting ≠ .VAL v) →
    Smoothed inputs r r' → Smoothed inputs r (r'.next (r'.prec.dbPut setting) [] [])
  | putAckt {inputs : List (ℚ × ℚ)} {r r' : AiRun} (trans : Bool) : Smoothed inputs r r' →
    Smoothed inputs r (r'.common (Base.putAckt r'.prec.toDbCommon trans) (.putAckt trans))
  | putAcks {inputs : List (ℚ × ℚ)} {r r' : AiRun} (sev : ℕ) : Smoothed inputs r r' →
    Smoothed inputs r (r'.common (Base.putAcks r'.prec.toDbCommon sev) (.putAcks sev))

/-- The smoothing of numbers is a mix, also with a SMOO of zero, and with INIT. -/
theorem smooth_fin {prec : FullAiRecord} {s v x : ℚ} (hsmoo : prec.smoo = .fin s)
    (hval : prec.val = .fin v) :
    smooth prec (.fin x) = .fin (mix (if prec.init then 0 else s) v x) := by
  unfold smooth
  rw [hsmoo, hval]
  by_cases hs : s = 0
  · subst hs
    have hoff : ¬ (!(Double.fin 0).eq 0 && (Double.fin v).finite) = true := by
      simp [Double.eq, Double.isnan]
    rw [if_neg hoff]
    simp [mix]
  · have hon : (!(Double.fin s).eq 0 && (Double.fin v).finite) = true := by
      simp [Double.eq, Double.isnan, Double.finite, hs]
    rw [if_pos hon]
    unfold mix
    by_cases hinit : prec.init = true
    · rw [if_pos hinit, if_pos hinit]
      show Double.fin (x * (1 + -s) + x * s) = _
      congr 1
      ring
    · rw [if_neg hinit, if_neg hinit]
      show Double.fin (x * (1 + -s) + v * s) = _
      congr 1
      ring

theorem convert_val {l : AiLinks} {prec : FullAiRecord} {s v x : ℚ} (hsmoo : prec.smoo = .fin s)
    (hval : prec.val = .fin v) (hx : (engineering l prec).1 = .fin x) :
    (convert l prec).val = .fin (mix (if prec.init then 0 else s) v x) := by
  obtain ⟨common, -, hunits⟩ := engineering_snd l prec
  unfold convert
  dsimp only
  rw [hunits, hx]
  exact smooth_fin hsmoo hval

/-- VAL at the end of a processing. -/
theorem finish_val (r : AiRun) (l : AiLinks) (status : ℤ) (prec : FullAiRecord) :
    (r.finish (FullAiRecord.finish l status prec)).prec.val = (converted l status prec).val := by
  have halarms : ∀ prec : FullAiRecord, (checkAlarms l prec).val = prec.val := by
    intro prec
    unfold checkAlarms
    split
    · rfl
    · dsimp only
      split <;> rfl
  obtain ⟨oraw, hmonitor⟩ := monitor_fst (prepare l status prec)
  rw [AiRun.finish_eq]
  unfold AiRun.next
  dsimp only
  rw [hmonitor]
  exact halarms _

/-- VAL at the end of a processing that does not convert. -/
theorem finish_val_of_ne (r : AiRun) (l : AiLinks) {status : ℤ} (h : status ≠ 0) (prec : FullAiRecord) :
    (r.finish (FullAiRecord.finish l status prec)).prec.val = prec.val := by
  rw [finish_val]
  unfold converted
  rw [if_neg h]
  rfl

theorem mixes_snoc (v w x : ℚ) (inputs : List (ℚ × ℚ)) :
    mixes v (inputs ++ [(w, x)]) = mix w (mixes v inputs) x := by
  unfold mixes
  rw [List.foldl_append]
  rfl

/-- A value that replaces VAL. -/
theorem mixes_replaced (v x : ℚ) (inputs : List (ℚ × ℚ)) : mixes v (inputs ++ [(0, x)]) = x := by
  rw [mixes_snoc]
  unfold mix
  ring

/-- VAL is the filter of the inputs. -/
theorem Smoothed.val {inputs : List (ℚ × ℚ)} {r r' : AiRun} (h : Smoothed inputs r r') {v : ℚ}
    (hval : r.prec.val = .fin v) : r'.prec.val = .fin (mixes v inputs) := by
  induction h with
  | refl r => exact hval
  | @process inputs s x r r' l prec h hfetched hsame hsmoo hx ih =>
    have hconvert : (convert l prec.active).val =
        .fin (mix (if prec.init then 0 else s) (mixes v inputs) x) :=
      convert_val hsmoo (hsame.trans (ih hval)) hx
    rw [finish_val, mixes_snoc]
    unfold converted
    rw [if_pos rfl]
    exact hconvert
  | bring h hfetched hstatus hx ih => rw [finish_val_of_ne _ _ hstatus, hx, mixes_replaced]
  | fail h hfetched hstatus hsame ih => rw [finish_val_of_ne _ _ hstatus, hsame, ih hval]
  | putVal x h ih => exact congrArg Double.fin (mixes_replaced v x _).symm
  | @dbPut inputs r r' setting hne h ih =>
    have hsame : (r'.prec.dbPut setting).val = r'.prec.val := by
      cases setting with
      | VAL x => exact absurd rfl (hne x)
      | _ => rfl
    exact hsame.trans (ih hval)
  | putAckt trans h ih => exact ih hval
  | putAcks sev h ih => exact ih hval

/-- **Smoothing over whole runs.**  With weights from 0 to 1, VAL stays within the bounds of its start and
of the inputs; and its distance to an input that does not change is the product of the weights times what
it was. -/
theorem smoothing {inputs : List (ℚ × ℚ)} {r r' : AiRun} (h : Smoothed inputs r r') {v : ℚ}
    (hval : r.prec.val = .fin v) :
    ∃ v', r'.prec.val = .fin v' ∧
      (∀ lo hi : ℚ, lo ≤ v ∧ v ≤ hi → (∀ i ∈ inputs, (0 ≤ i.1 ∧ i.1 ≤ 1) ∧ lo ≤ i.2 ∧ i.2 ≤ hi) →
        lo ≤ v' ∧ v' ≤ hi) ∧
      ∀ (weights : List ℚ) (x : ℚ), inputs = weights.map (fun s => (s, x)) →
        v' - x = weights.prod * (v - x) := by
  refine ⟨mixes v inputs, h.val hval, fun lo hi hv hin => mixes_mem hv hin, ?_⟩
  rintro weights x rfl
  exact mixes_const v x weights

/-- A record with a raw value of 10 and VAL still at 0. -/
def smoothed : FullAiRecord :=
  { simulated with
    rval := 10
    roff := 0
    aslo := 1
    aoff := 0
    linr := .NO_CONVERSION
    smoo := .fin (1 / 2)
    init := false }

/-- The run after one processing and a put of SMOO. -/
def smoothedPut : AiRun :=
  let r := (AiRun.start smoothed).finish (FullAiRecord.finish (simulatedLinks 0) 0 smoothed)
  r.next (r.prec.dbPut (.SMOO (.fin (1 / 4)))) [] []

/-- VAL goes half of the way, and then three quarters of the rest. -/
theorem smoothing_smoothed :
    let r' := smoothedPut.finish (FullAiRecord.finish (simulatedLinks 0) 0 smoothedPut.prec)
    ∃ v', r'.prec.val = .fin v' ∧ (0 ≤ v' ∧ v' ≤ 10) ∧ v' - 10 = 1 / 2 * (1 / 4) * (0 - 10) := by
  have hunits : (engineering (simulatedLinks 0) smoothed.active).1 = .fin 10 := by decide +kernel
  have hunits' : (engineering (simulatedLinks 0) smoothedPut.prec.active).1 = .fin 10 := by
    decide +kernel
  have hfirst := Smoothed.process (.refl (.start smoothed)) (.refl smoothed) rfl rfl hunits
  have hput : Smoothed [(1 / 2, 10)] (.start smoothed) smoothedPut :=
    .dbPut (.SMOO (.fin (1 / 4))) nofun hfirst
  have hsecond : Smoothed [(1 / 2, 10), (1 / 4, 10)] _ _ := hput.process (.refl _) rfl rfl hunits'
  obtain ⟨v', hv', hbounds, hconst⟩ := smoothing hsecond (v := 0) rfl
  refine ⟨v', hv', hbounds 0 10 (by norm_num) (by simp; norm_num), ?_⟩
  have hweights := hconst [1 / 2, 1 / 4] 10 rfl
  rwa [List.prod_cons, List.prod_singleton] at hweights

end RackmonIoc.Base
