import RackmonIoc.Base.BiMonitor
import RackmonIoc.Event.Delivery
import RackmonIoc.Prot.NoStaleGood

/-!
# What an operator sees of the rack protection

The rack protection record, and above it the event queue of a client that subscribes to VAL with DBE_VALUE
and DBE_ALARM.  As soon as no event waits, the client shows the last valid reading, and it shows it as good
exactly if the last reading was high (`protection_displayed`).
-/

namespace RackmonIoc.Prot

open Program CLib Base Driver Event Prog Driver.Gpio

/-- The heartbeat counter, the record, and what has been posted. -/
abbrev Watched := (UInt32 × BiRecord) × BiMonitors × List (Post BiRecord)

/-- One processing of the record, with its events. -/
def watch (l : BiLinks) (s : Watched) : Prog DevSig Watched :=
  (BiRecord.processMonitored read_bi l s.1.1 s.1.2 s.2.1).bind fun r =>
    ret (r.1, r.2.1, s.2.2 ++ r.2.2)

/-- **The invariant** of a run: VAL and the alarm are those of the readings, and the client knows them. -/
structure Watching (c : Subscriber) (prec₀ : BiRecord) (s : Watched) (w : World) : Prop where
  rackProt : RackProt s.1.2
  val : s.1.2.val = lastValid prec₀.val w.readings
  good : ∀ r, w.readings.getLast? = some r → (s.1.2.sevr = .NO_ALARM ↔ r = .high)
  known : Knows s.2.1 (c.last prec₀ s.2.2) s.1.2

theorem afterRead_current (prec : BiRecord) (r : Reading) :
    (afterRead prec r).2.sevr = prec.sevr ∧ (afterRead prec r).2.stat = prec.stat ∧
      (afterRead prec r).2.pact = prec.pact := by
  cases r <;> exact ⟨rfl, rfl, rfl⟩

/-- A processing keeps the invariant. -/
theorem wp_watch {c : Subscriber} (hc : c.field = .VAL) (hvalue : .VALUE ∈ c.select)
    (halarm : .ALARM ∈ c.select) {prec₀ : BiRecord} {l : BiLinks} (hl : Leaves .NO l.siml)
    {s : Watched} {w : World} (h : Watching c prec₀ s w) :
    wp protEnv (fun _ _ => True) (fun s' w' => Watching c prec₀ s' w') (watch l s) w := by
  obtain ⟨⟨hb, prec⟩, m, posts⟩ := s
  unfold watch BiRecord.processMonitored
  show wp _ _ _ (((BiRecord.readValue read_bi l hb prec).bind _).bind _) _
  rw [readValue_eq hl h.rackProt.simm, wp_bind, wp_bind]
  apply wp_conseq (wp_read_bi hb prec w)
  rintro ⟨status, hb', prec'⟩ w' ⟨r, hreadings, -, hstatus, hprec⟩
  obtain rfl : status = (afterRead prec r).1 := hstatus
  obtain rfl : prec' = (afterRead prec r).2 := hprec
  obtain ⟨hsevr, hstat, hpact⟩ := afterRead_current prec r
  have hdone : (!prec.pact && (afterRead prec r).2.pact) = false := by
    rw [hpact]
    cases prec.pact <;> rfl
  show wp _ _ _ (if (!prec.pact && (afterRead prec r).2.pact) = true then _ else _) _
  rw [hdone]
  obtain ⟨hkept, hshows⟩ := finish_shows h.rackProt r
  refine ⟨hkept.rackProt, ?_, fun r' hr' => ?_, ?_⟩
  · have hval : prec.val = lastValid prec₀.val w.readings := h.val
    rw [hreadings, lastValid_append, ← hval]
    exact hshows.val_eq
  · rw [hreadings, List.getLast?_concat] at hr'
    obtain rfl := Option.some.inj hr'
    exact hshows.good_iff
  · show Knows _ (c.last prec₀ (posts ++ _)) _
    rw [Subscriber.last_append]
    exact h.known.finish hc hvalue halarm hsevr hstat _

/-- **The operator never sees a stale Good.**  After every run of the rack protection record, and in every
run of the event queue of a client in which what has been posted to the subscription is what the record
has posted, the call back has got, as soon as no event waits, the last valid reading; and an alarm exactly
if the last reading was not high. -/
theorem protection_displayed {prec₀ : BiRecord} (h : RackProt prec₀) {ls : List BiLinks}
    (hls : ∀ l ∈ ls, Leaves .NO l.siml) {c : Subscriber} (hc : c.field = .VAL)
    (hvalue : .VALUE ∈ c.select) (halarm : .ALARM ∈ c.select) {m : BiMonitors}
    (hm : m.mlst = prec₀.val) (hb₀ : UInt32) {ι : Type} [DecidableEq ι] (i : ι) :
    wp (Env.tag protEnv) (fun _ _ => True)
      (fun s w => ∀ (tr : Trace ι BiRecord) u t, Event.Run Allowed tr u → u.sub i = some t →
        t.user_sub = true → t.npend = 0 → posted i tr = heard c s.2.2 →
        (got prec₀ (delivered i tr)).val = lastValid prec₀.val w.readings ∧
        ∀ r, w.readings.getLast? = some r →
          ((got prec₀ (delivered i tr)).sevr = .NO_ALARM ↔ r = .high))
      (session watch ls ((hb₀, prec₀), m, [])) ⟨[], []⟩ := by
  have hstart : Watching c prec₀ ((hb₀, prec₀), m, []) ⟨[], []⟩ :=
    ⟨h, rfl, nofun, ⟨hm, rfl, rfl, rfl⟩⟩
  have hrun := wp_session (E := protEnv) (G := fun _ _ => True) (I := Watching c prec₀)
    (fun l hl s w hw => wp_watch hc hvalue halarm (hls l hl) hw) hstart
  refine wp_conseq hrun fun s w hw tr u t hqueue ht huser hnpend hposted => ?_
  rw [hqueue.known ht huser hnpend hposted prec₀, hw.known.val, hw.known.sevr]
  exact ⟨hw.val, hw.good⟩

/-- A high reading, and then an error: the client hears of both. -/
theorem protection_displayed_error :
    let prec : BiRecord :=
      { (default : BiRecord) with name := "RackProt", udfs := .INVALID, zsv := .MAJOR }
    let l : BiLinks := ⟨.constant, .constant⟩
    let c : Subscriber := ⟨.VAL, [.VALUE, .ALARM]⟩
    wp (Env.tag protEnv) (fun _ _ => True)
      (fun s w => ∀ (tr : Trace ℕ BiRecord) u t, Event.Run Allowed tr u → u.sub 0 = some t →
        t.user_sub = true → t.npend = 0 → posted 0 tr = heard c s.2.2 →
        (got prec (delivered 0 tr)).val = lastValid prec.val w.readings ∧
        ∀ r, w.readings.getLast? = some r →
          ((got prec (delivered 0 tr)).sevr = .NO_ALARM ↔ r = .high))
      (session watch [l, l] ((0, prec), ⟨0, 0⟩, [])) ⟨[], []⟩ ∧
    (exec (fun w (o : (DevSig.tag BiLinks).Op) => planned (fun i => if i = 0 then .high else .error) w o.2)
        (session watch [l, l] ((0, prec), ⟨0, 0⟩, [])) ⟨[], []⟩).map
      (fun x => ((heard c x.1.2.2).length, (c.last prec x.1.2.2).val, (c.last prec x.1.2.2).sevr)) =
        some (2, 1, .INVALID) := by
  intro prec l c
  refine ⟨?_, by decide +kernel⟩
  refine protection_displayed ⟨rfl, rfl, rfl, rfl, rfl, rfl⟩ (fun l' hl' => .inl ?_) rfl (by simp [c])
    (by simp [c]) rfl 0 0
  simp only [List.mem_cons, List.not_mem_nil, or_false, or_self] at hl'
  rw [hl']

end RackmonIoc.Prot
