import RackmonIoc.Base.AiMonitor

/-!
# What clients know of VAL

VAL is posted when it leaves a deadband around the value last posted, and whenever the alarm changes.  A put
of VAL is not posted: it waits for the next processing.

* `ValMonitored` is what holds between two calls, with a flag for a put that waits.
* `val_monitored`: unless a put waits, a subscriber is never further from VAL than twice the deadband, and
  one that selects the bit of the deadband alone never further than once.
-/

namespace RackmonIoc.Base

open Program CLib Prog FullAiRecord

/-! ### Puts of VAL -/

/-- A put of the deadband itself stays below `q`. -/
def Bounded (d : Deadband) (q : ℚ) : AiCall → Prop
  | .dbPut (.MDEL v) => d = .monitor → ∃ b ≤ q, v = .fin b
  | .dbPut (.ADEL v) => d = .archive → ∃ b ≤ q, v = .fin b
  | _ => True

namespace AiCall

/-- Whether a put of VAL waits for a processing after the call, if `b` says whether one did before. -/
def waits (b : Bool) : AiCall → Bool
  | dbPut (.VAL _) => true
  | process _ => false
  | _ => b

def IsAck : AiCall → Prop
  | putAckt _ | putAcks _ => True
  | _ => False

end AiCall

/-- A put of VAL waits for a processing. -/
def putWaits (calls : List AiCall) : Bool := calls.foldl AiCall.waits false

theorem putWaits_snoc (calls : List AiCall) (c : AiCall) :
    putWaits (calls ++ [c]) = c.waits (putWaits calls) := by
  unfold putWaits
  rw [List.foldl_append]
  rfl

/-- No client acknowledges while a put of VAL waits; `b` says whether one does at the start. -/
def Undisturbed : Bool → List AiCall → Prop
  | _, [] => True
  | b, c :: calls => (b = true → ¬ c.IsAck) ∧ Undisturbed (c.waits b) calls

theorem Undisturbed.not_isAck {b : Bool} {pre post : List AiCall} {c : AiCall}
    (h : Undisturbed b (pre ++ c :: post)) (hb : pre.foldl AiCall.waits b = true) : ¬ c.IsAck := by
  induction pre generalizing b with
  | nil => exact h.1 hb
  | cons c' pre ih => exact ih h.2 hb

/-! ### The invariant -/

/-- A subscriber of VAL that selects the bit of the deadband `d`, which is never above `q`; `b` says whether
a put of VAL waits. -/
structure ValMonitored (s : Subscriber) (d : Deadband) (q : ℚ) (b : Bool) (prec₀ : FullAiRecord)
    (r : AiRun) : Prop where
  delta : ∃ b ≤ q, d.delta r.prec = .fin b
  settled : b = false → Near q (d.last r.prec) r.prec.val
  known : Near q (s.last prec₀ r.posts).val (d.last r.prec)
  posted : s.select = [d.bit] → (∃ p ∈ r.posts, s.Hears p) →
    (s.last prec₀ r.posts).val = d.last r.prec
  alarm : .ALARM ∈ s.select →
    (s.last prec₀ r.posts).sevr = r.prec.sevr ∧ (s.last prec₀ r.posts).stat = r.prec.stat

namespace ValMonitored

variable {s : Subscriber} {d : Deadband} {q : ℚ} {b : Bool} {prec₀ : FullAiRecord} {r : AiRun}

theorem start {prec : FullAiRecord} (hdelta : ∃ b ≤ q, d.delta prec = .fin b)
    (hsettled : Near q (d.last prec) prec.val) : ValMonitored s d q false prec (.start prec) where
  delta := hdelta
  settled _ := hsettled
  known := hsettled.symm
  posted _ := fun ⟨_, hp, _⟩ => nomatch hp
  alarm _ := ⟨rfl, rfl⟩

/-- A call that leaves the value last posted and the alarm as they are, for a subscriber of VAL. -/
theorem same (h : ValMonitored s d q b prec₀ r) {b' : Bool} {prec : FullAiRecord}
    {posts : List (Post FullAiRecord)} (hdelta : ∃ b ≤ q, d.delta prec = .fin b)
    (hlast : d.last prec = d.last r.prec) (hsettled : b' = false → Near q (d.last prec) prec.val)
    (hsevr : prec.sevr = r.prec.sevr) (hstat : prec.stat = r.prec.stat)
    (hposts : ∀ p ∈ posts, s.Hears p → s.select ≠ [d.bit] ∧ Near q p.prec.val (d.last prec) ∧
      p.prec.sevr = r.prec.sevr ∧ p.prec.stat = r.prec.stat) (events : List AlarmEvent) :
    ValMonitored s d q b' prec₀ (r.next prec posts events) := by
  unfold AiRun.next
  rcases s.last_cases (s.last prec₀ r.posts) posts with ⟨hknown, hnone⟩ | ⟨p, hp, hhears, hknown⟩
  · rw [← Subscriber.last_append] at hknown
    refine ⟨hdelta, hsettled, ?_, ?_, ?_⟩
    · rw [hknown, hlast]
      exact h.known
    · rintro hselect ⟨p, hp, hhears⟩
      rcases List.mem_append.mp hp with hp | hp
      · rw [hknown, hlast]
        exact h.posted hselect ⟨p, hp, hhears⟩
      · exact absurd hhears (hnone p hp)
    · intro halarm
      rw [hknown, hsevr, hstat]
      exact h.alarm halarm
  · rw [← Subscriber.last_append] at hknown
    obtain ⟨hselect, hval', hsevr', hstat'⟩ := hposts p hp hhears
    refine ⟨hdelta, hsettled, ?_, fun h => absurd h hselect, fun _ => ?_⟩
    · rw [hknown]
      exact hval'
    · rw [hknown, hsevr, hstat]
      exact ⟨hsevr', hstat'⟩

/-- A put to the common fields posts the whole record with DBE_ALARM only, with a VAL that does not wait. -/
theorem common (hs : s.field = .VAL) (h : ValMonitored s d q b prec₀ r)
    (hquiet : .ALARM ∈ s.select → b = false) {put : DbCommon × List (Post DbCommon)}
    {event : AlarmEvent} (hput : OperatorPut r.prec.toDbCommon put) :
    ValMonitored s d q b prec₀ (r.common put event) := by
  have hdelta : d.delta (r.prec.setCommon put.1) = d.delta r.prec := by cases d <;> rfl
  have hlast : d.last (r.prec.setCommon put.1) = d.last r.prec := by cases d <;> rfl
  unfold AiRun.common
  refine h.same ?_ hlast ?_ hput.sevr hput.stat ?_ [event]
  · rw [hdelta]
    exact h.delta
  · rw [hlast]
    exact h.settled
  intro p' hp' hhears
  obtain ⟨p, hp, rfl⟩ := List.mem_map.mp hp'
  obtain ⟨hfield, hsevr', hstat'⟩ := hput.posts p hp
  obtain ⟨hf, bit, hbit, hselected⟩ := hhears
  obtain rfl : bit = .ALARM := by
    rcases hfield with hfield | hfield | hmask
    · simp [Post.map, hfield, hs] at hf
    · simp [Post.map, hfield, hs] at hf
    · simpa [Post.map, hmask] using hbit
  refine ⟨fun hselect => ?_, ?_, hsevr', hstat'⟩
  · rw [hselect] at hselected
    have hd : EventBit.ALARM = d.bit := List.mem_singleton.mp hselected
    cases d <;> simp [Deadband.bit] at hd
  · rw [hlast]
    exact (h.settled (hquiet hselected)).symm

theorem process (hs : s.field = .VAL) (hd : d.bit ∈ s.select) (h : ValMonitored s d q b prec₀ r)
    {prec : FullAiRecord} (hfetched : Fetched r.prec prec) (l : AiLinks) (status : ℤ) :
    ValMonitored s d q false prec₀ (r.finish (FullAiRecord.finish l status prec)) := by
  have hun := hfetched.unposted.trans (unposted_prepare l status prec)
  rw [AiRun.finish_eq]
  dsimp only
  generalize prepare l status prec = prec' at hun
  obtain ⟨hheard, hspeaks⟩ := monitor_heard prec' hs
  have hlast : d.last prec' = d.last r.prec := by
    cases d
    · exact hun.mlst
    · exact hun.alst
  have hdelta : d.delta prec' = d.delta r.prec := by
    cases d
    · exact hun.mdel
    · exact hun.adel
  obtain ⟨e, heq, he⟩ := h.delta
  have hsettled := near_monitor prec' d (hdelta.trans he) heq
  obtain ⟨hlast', hdelta', hval', hsevr', hstat'⟩ := monitor_release prec' d
  rw [hdelta, he] at hdelta'
  unfold AiRun.next
  rcases s.last_cases (s.last prec₀ r.posts) (monitor prec').2 with
    ⟨hknown, hnone⟩ | ⟨p, hp, hhears, hknown⟩ <;> rw [← Subscriber.last_append] at hknown
  · -- nothing is heard, so the deadband was not left and the alarm did not change
    have hold : d.last (monitor prec').1 = d.last r.prec := by
      rcases monitor_deadband prec' d with ⟨hbit, -⟩ | ⟨-, hold, -⟩
      · obtain ⟨p, hp, hhears⟩ := hspeaks _ hbit hd
        exact absurd hhears (hnone p hp)
      · exact hold.trans hlast
    refine ⟨⟨e, heq, hdelta'⟩, ?_, ?_, ?_, fun halarm => ?_⟩
    · intro _
      rw [hlast', hval']
      exact hsettled
    · rw [hknown, hlast', hold]
      exact h.known
    · rintro hselect ⟨p, hp, hhears⟩
      rw [hknown, hlast', hold]
      rcases List.mem_append.mp hp with hp | hp
      · exact h.posted hselect ⟨p, hp, hhears⟩
      · exact absurd hhears (hnone p hp)
    · have hsame : ¬ AlarmChanges prec'.toDbCommon := by
        intro hchange
        obtain ⟨p, hp, hhears⟩ := hspeaks .ALARM (mem_monitor_mask.mpr (.inl ⟨rfl, hchange⟩)) halarm
        exact hnone p hp hhears
      unfold AlarmChanges at hsame
      rw [not_or, not_not, not_not] at hsame
      rw [hknown, hsevr', hstat', ← hsame.1, ← hsame.2, hun.sevr, hun.stat]
      exact h.alarm halarm
  · obtain ⟨hmask, hval, hcommon⟩ := hheard p hp hhears
    refine ⟨⟨e, heq, hdelta'⟩, ?_, ?_, ?_, fun _ => ?_⟩
    · intro _
      rw [hlast', hval']
      exact hsettled
    · rw [hknown, hlast', hval]
      exact hsettled.symm
    · -- the one bit that is selected is the one of the deadband
      intro hselect _
      obtain ⟨-, b', hb', hbs⟩ := hhears
      obtain rfl : b' = d.bit := by simpa [hselect] using hbs
      rw [hmask] at hb'
      rw [hknown, hlast', hval]
      rcases monitor_deadband prec' d with ⟨-, hnew⟩ | ⟨hno, -⟩
      · exact hnew.symm
      · exact absurd hb' hno
    · rw [hknown, hsevr', hstat', hcommon]
      exact ⟨rfl, rfl⟩

/-- A put of a setting posts nothing to a subscriber of VAL, and a put of VAL waits. -/
theorem dbPut (h : ValMonitored s d q b prec₀ r) {setting : Setting}
    (hc : Bounded d q (.dbPut setting)) :
    ValMonitored s d q (AiCall.waits b (.dbPut setting)) prec₀
      (r.next (r.prec.dbPut setting) [] []) := by
  obtain ⟨udf, udfs, hcommon⟩ := dbPut_common r.prec setting
  have hlast : d.last (r.prec.dbPut setting) = d.last r.prec := by cases setting <;> cases d <;> rfl
  refine h.same ?_ hlast ?_ ?_ ?_ (by simp) []
  · cases setting with
    | MDEL v =>
      cases d with
      | monitor => exact hc rfl
      | archive => exact h.delta
    | ADEL v =>
      cases d with
      | monitor => exact h.delta
      | archive => exact hc rfl
    | _ => cases d <;> exact h.delta
  · rw [hlast]
    cases setting with
    | VAL v => exact nofun
    | _ => exact h.settled
  · rw [hcommon]
  · rw [hcommon]

theorem step (hs : s.field = .VAL) (hd : d.bit ∈ s.select) (h : ValMonitored s d q b prec₀ r)
    {c : AiCall} (hc : Bounded d q c) (hquiet : .ALARM ∈ s.select → b = true → ¬ c.IsAck) {r' : AiRun}
    (hstep : AiCall.Step r c r') : ValMonitored s d q (c.waits b) prec₀ r' := by
  have hack : c.IsAck → .ALARM ∈ s.select → b = false := by
    intro hack halarm
    by_contra hb
    exact hquiet halarm (Bool.eq_true_of_not_eq_false hb) hack
  cases hstep with
  | process hfetched => exact h.process hs hd hfetched _ _
  | putAckt t => exact h.common hs (hack trivial) (operatorPut_putAckt _ t)
  | putAcks sev => exact h.common hs (hack trivial) (operatorPut_putAcks _ sev)
  | dbPut setting => exact h.dbPut hc

end ValMonitored

section

variable {S : Sig} {W : Type} {E : Env S W} {read_ai : FullAiRecord → Prog S (ℤ × FullAiRecord)}

/-- **The value, as clients see it.**  Over every run in which the deadband never exceeds `q`, and in which
no put of VAL waits at the end, a subscriber of VAL that selects the bit of the deadband is never further
from VAL than `2 * q`, and one that selects nothing else never further than `q`, once it has heard
something.  One that selects DBE_ALARM always knows the alarm; it needs that nobody acknowledges while a
put of VAL waits, since the acknowledgement would post the value. -/
theorem val_monitored (hdev : Synchronous E read_ai) {s : Subscriber} (hs : s.field = .VAL)
    {d : Deadband} (hd : d.bit ∈ s.select) {q : ℚ} (hq : 0 ≤ q) {prec : FullAiRecord}
    (hdelta : ∃ b ≤ q, d.delta prec = .fin b) (hsettled : Near q (d.last prec) prec.val)
    {calls : List AiCall} (hcalls : ∀ c ∈ calls, Bounded d q c)
    (hquiet : .ALARM ∈ s.select → Undisturbed false calls) (w : W) :
    wp (Env.tag E) (fun _ _ => True)
      (fun r _ => (putWaits calls = false →
          Near (2 * q) (s.last prec r.posts).val r.prec.val ∧
          (s.select = [d.bit] → (∃ p ∈ r.posts, s.Hears p) →
            Near q (s.last prec r.posts).val r.prec.val)) ∧
        (.ALARM ∈ s.select → (s.last prec r.posts).sevr = r.prec.sevr ∧
          (s.last prec r.posts).stat = r.prec.stat))
      (session (AiCall.prog read_ai) calls (.start prec)) w := by
  have hrun : wp (Env.tag E) (fun _ _ => True)
      (fun r _ => ValMonitored s d q (putWaits calls) prec r)
      (session (AiCall.prog read_ai) calls (.start prec)) w := by
    refine AiCall.wp_run_prefix (I := fun pre r => ValMonitored s d q (putWaits pre) prec r) hdev ?_
      (.start hdelta hsettled) w
    rintro pre c post rfl r r' h hstep
    rw [putWaits_snoc]
    exact h.step hs hd (hcalls c (by simp)) (fun halarm => (hquiet halarm).not_isAck) hstep
  refine wp_conseq hrun fun r _ h => ⟨fun hdone => ⟨?_, fun hselect hheard => ?_⟩, h.alarm⟩
  · rw [two_mul]
    exact h.known.trans hq hq (h.settled hdone)
  · rw [h.posted hselect hheard]
    exact h.settled hdone

end

/-- The bound is met, also with a put of VAL in the run: the client hears 1 for the sake of the alarm, and
VAL is -1. -/
theorem val_monitored_simulated :
    let s : Subscriber := ⟨.VAL, [.VALUE, .ALARM]⟩
    let calls := [simulates 1, .dbPut (.VAL 7), simulates (-1)]
    (wp (Env.tag fun _ _ _ _ => True) (fun _ _ => True)
      (fun r _ => (putWaits calls = false →
          Near (2 * 1) (s.last simulated r.posts).val r.prec.val ∧
          (s.select = [Deadband.monitor.bit] → (∃ p ∈ r.posts, s.Hears p) →
            Near 1 (s.last simulated r.posts).val r.prec.val)) ∧
        (.ALARM ∈ s.select → (s.last simulated r.posts).sevr = r.prec.sevr ∧
          (s.last simulated r.posts).stat = r.prec.stat))
      (session (AiCall.prog noDevice) calls (.start simulated)) ()) ∧
    putWaits calls = false ∧
    (simulatedRun calls).map (fun r => ((s.last simulated r.posts).val, r.prec.val)) =
      some (.fin 1, .fin (-1)) := by
  intro s calls
  refine ⟨?_, rfl, by decide +kernel⟩
  refine val_monitored (synchronous_noDevice _) (s := s) (d := .monitor) rfl (by simp [s, Deadband.bit])
    zero_le_one ⟨1, le_rfl, rfl⟩ (.inl rfl) (by simp [calls, simulates, Bounded]) ?_ ()
  simp [calls, simulates, Undisturbed, AiCall.waits, AiCall.IsAck]

/-- An acknowledgement while a put of VAL waits leaves the client with the value that was put. -/
example :
    (simulatedRun [simulates 0, .dbPut (.VAL 7), .putAcks 3, simulates 0]).map
        (fun r => ((Subscriber.last ⟨.VAL, [.VALUE, .ALARM]⟩ simulated r.posts).val, r.prec.val)) =
      some (.fin 7, .fin 0) := by
  decide +kernel

end RackmonIoc.Base
