import RackmonIoc.Base.BiRecord
import RackmonIoc.Base.Monitor

/-!
# What clients know of a bi record

The events that `monitor` posts, beside the record that `BiRecord.finish` leaves.  There is no deadband:
a subscriber of VAL that selects DBE_VALUE and DBE_ALARM knows VAL and the alarm (`Knows.finish`).
-/

namespace RackmonIoc.Base

open Program

/-- The fields of a bi record that only `monitor` uses. -/
structure BiMonitors where
  mlst : ℕ
  oraw : ℕ

namespace BiRecord

variable {S : Sig} {γ : Type}

/-- The mask with which VAL is posted. -/
def monitor_mask (m : BiMonitors) (prec : BiRecord) : EventMask :=
  resetAlarms_mask prec.toDbCommon ++ if m.mlst = prec.val then [] else [.VALUE, .ARCHIVE]

/-- What `monitor` posts, after it has made the new alarm the current one. -/
def monitor_posts (m : BiMonitors) (prec : BiRecord) : List (Post BiRecord) :=
  (resetAlarms_posts prec.toDbCommon).map (Post.map fun common => { prec with toDbCommon := common }) ++
  (if monitor_mask m prec = [] then [] else [⟨some .VAL, monitor_mask m prec, prec.monitor⟩]) ++
  (if m.oraw = prec.rval then []
    else [⟨some .RVAL, monitor_mask m prec ++ [.VALUE, .ARCHIVE], prec.monitor⟩])

/-- The values that have been posted then. -/
def monitored (m : BiMonitors) (prec : BiRecord) : BiMonitors where
  mlst := if m.mlst = prec.val then m.mlst else prec.val
  oraw := if m.oraw = prec.rval then m.oraw else prec.rval

/-- The record in `finish`, before `monitor`. -/
def prepared (status : ℤ) (prec : BiRecord) : BiRecord :=
  let prec := { prec with pact := true }
  checkAlarms (if status = 0 then { prec with val := if prec.rval = 0 then 0 else 1, udf := false }
    else prec)

theorem finish_eq (status : ℤ) (prec : BiRecord) :
    (finish status prec).2 = { (prepared status prec).monitor with pact := false } := rfl

/-- `process`, with the events that it posts. -/
def processMonitored (read_bi : γ → BiRecord → Prog S (ℤ × γ × BiRecord)) (l : BiLinks) (g : γ)
    (prec : BiRecord) (m : BiMonitors) : Prog S ((γ × BiRecord) × BiMonitors × List (Post BiRecord)) := do
  let pact := prec.pact
  let (status, g, prec) ← readValue read_bi l g prec
  if !pact && prec.pact then return ((g, prec), m, []) else
  return ((g, (finish status prec).2), monitored m (prepared status prec),
    monitor_posts m (prepared status prec))

theorem setSevr_current (prec : BiRecord) (stat : AlarmStat) (sevr : Severity) :
    (prec.setSevr stat sevr).sevr = prec.sevr ∧ (prec.setSevr stat sevr).stat = prec.stat := by
  unfold setSevr recGblSetSevr
  split_ifs <;> exact ⟨rfl, rfl⟩

/-- `checkAlarms` does not change the current alarm. -/
theorem checkAlarms_current (prec : BiRecord) :
    (checkAlarms prec).sevr = prec.sevr ∧ (checkAlarms prec).stat = prec.stat := by
  unfold checkAlarms
  dsimp only
  generalize (if prec.val = 0 then prec.zsv else prec.osv) = sevr
  obtain ⟨hsevr, hstat⟩ := setSevr_current prec .STATE sevr
  generalize prec.setSevr .STATE sevr = p at hsevr hstat ⊢
  split_ifs
  · exact setSevr_current _ _ _
  · exact ⟨rfl, rfl⟩
  · exact ⟨hsevr, hstat⟩
  · obtain ⟨hsevr', hstat'⟩ := setSevr_current p .COS p.cosv
    exact ⟨hsevr'.trans hsevr, hstat'.trans hstat⟩

theorem prepared_current (status : ℤ) (prec : BiRecord) :
    (prepared status prec).sevr = prec.sevr ∧ (prepared status prec).stat = prec.stat := by
  unfold prepared
  dsimp only
  split_ifs <;> exact checkAlarms_current _

end BiRecord

open BiRecord

variable {c : Subscriber} {m : BiMonitors} {known prec prec' : BiRecord}

/-- What a subscriber of VAL hears of the posts. -/
theorem last_monitor_posts (hc : c.field = .VAL) (hvalue : .VALUE ∈ c.select)
    (halarm : .ALARM ∈ c.select) :
    c.last known (monitor_posts m prec) =
      if monitor_mask m prec = [] then known else prec.monitor := by
  have hresets : ∀ p ∈ (resetAlarms_posts prec.toDbCommon).map
      (Post.map fun common => { prec with toDbCommon := common }), ¬ c.Hears p := by
    rintro p hp ⟨hfield, -⟩
    obtain ⟨p', hp', rfl⟩ := List.mem_map.mp hp
    rcases mem_resetAlarms_posts.mp hp' with ⟨-, rfl⟩ | ⟨-, rfl⟩ | ⟨-, rfl⟩ <;>
      simp [Post.map, hc] at hfield
  have hrval : ∀ p ∈ (if m.oraw = prec.rval then []
      else [(⟨some .RVAL, monitor_mask m prec ++ [.VALUE, .ARCHIVE], prec.monitor⟩ : Post BiRecord)]),
      ¬ c.Hears p := by
    rintro p hp ⟨hfield, -⟩
    split_ifs at hp
    · exact nomatch hp
    · rw [List.mem_singleton.mp hp] at hfield
      simp [hc] at hfield
  unfold monitor_posts
  rw [Subscriber.last_append, Subscriber.last_append, Subscriber.last_of_not_hears hresets,
    Subscriber.last_of_not_hears hrval]
  split_ifs with hmask
  · rfl
  · have hhears : c.Hears ⟨some .VAL, monitor_mask m prec, prec.monitor⟩ := by
      refine ⟨.inr (congrArg some hc.symm), ?_⟩
      unfold monitor_mask resetAlarms_mask at hmask ⊢
      split_ifs at hmask ⊢ with hchange hmlst
      · exact ⟨.ALARM, by simp, halarm⟩
      · exact ⟨.ALARM, by simp, halarm⟩
      · exact absurd rfl hmask
      · exact ⟨.VALUE, by simp, hvalue⟩
    show (if _ then _ else _) = _
    rw [if_pos hhears]

/-- The subscriber knows VAL and the alarm. -/
structure Knows (m : BiMonitors) (known prec : BiRecord) : Prop where
  mlst : m.mlst = prec.val
  val : known.val = prec.val
  sevr : known.sevr = prec.sevr
  stat : known.stat = prec.stat

/-- **A subscriber of VAL** that selects DBE_VALUE and DBE_ALARM knows VAL and the alarm after every
processing. -/
theorem Knows.finish (hc : c.field = .VAL) (hvalue : .VALUE ∈ c.select) (halarm : .ALARM ∈ c.select)
    (h : Knows m known prec) (hsevr : prec'.sevr = prec.sevr) (hstat : prec'.stat = prec.stat)
    (status : ℤ) :
    Knows (monitored m (prepared status prec'))
      (c.last known (monitor_posts m (prepared status prec'))) (BiRecord.finish status prec').2 := by
  obtain ⟨hsevr', hstat'⟩ := prepared_current status prec'
  rw [finish_eq, last_monitor_posts hc hvalue halarm]
  generalize prepared status prec' = p at hsevr' hstat'
  have hmlst : (monitored m p).mlst = p.val := by
    show (if m.mlst = p.val then m.mlst else p.val) = p.val
    split_ifs with heq
    · exact heq
    · rfl
  split_ifs with hmask
  · -- nothing has changed
    unfold monitor_mask resetAlarms_mask at hmask
    have hsame : ¬ AlarmChanges p.toDbCommon := by
      intro hchange
      rw [if_pos hchange] at hmask
      exact nomatch hmask
    have hval : m.mlst = p.val := by
      by_contra hne
      rw [if_neg hsame, if_neg hne] at hmask
      exact nomatch hmask
    unfold AlarmChanges at hsame
    push Not at hsame
    refine ⟨hmlst, ?_, ?_, ?_⟩
    · exact (h.val.trans h.mlst.symm).trans hval
    · exact (h.sevr.trans (hsevr'.trans hsevr).symm).trans hsame.1
    · exact (h.stat.trans (hstat'.trans hstat).symm).trans hsame.2
  · exact ⟨hmlst, rfl, rfl, rfl⟩

end RackmonIoc.Base
