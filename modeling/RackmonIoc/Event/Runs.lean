import RackmonIoc.Event.Room

/-!
# The runs of an event queue

`Held` is what every run keeps of a queue.

* `events_fit`: as long as a subscription is added only when there are few enough that are allocated or
  have been cancelled, no assertion fails in any run.
* `ring_overrun`: the check of `db_add_event` itself does not see to this.
* `wake_up`: a client that waits although there is something to read has been signalled, or a thread
  has still to signal it.
-/

namespace RackmonIoc.Event

open CLib

variable {ι α : Type} [DecidableEq ι] {q q' : EventUser ι α} {l l' : List (Entry ι α)} {i : ι}
  {s s' : EvSubscrip} {a : Action ι α} {r : EventUser ι α × Option (ι × FieldLog α)}
  {A : Finset ι}

/-- The actions of a run with the logs that the client has got, the newest one first. -/
abbrev Trace (ι α : Type) := List (Action ι α × Option (ι × FieldLog α))

/-- The runs of a queue with the actions that may happen. -/
inductive Run (may : EventUser ι α → Action ι α → Prop) : Trace ι α → EventUser ι α → Prop
  | start : Run may [] db_init_events
  | step {tr : Trace ι α} {q : EventUser ι α} {a : Action ι α}
      {r : EventUser ι α × Option (ι × FieldLog α)} :
    Run may tr q → may q a → step q a = some r → Run may ((a, r.2) :: tr) r.1

/-! ### What every run keeps -/

/-- There is something to read, and flow control does not hold it back. -/
def Readable (q : EventUser ι α) (l : List (Entry ι α)) : Prop :=
  l ≠ [] ∧ ¬ (q.flowCtrlMode = true ∧ q.nDuplicates = 0)

/-- The event task will wake up. -/
def Woken (q : EventUser ι α) : Prop := q.ppendsem = true ∨ 0 < q.signals

/-- **The invariant** of a queue, with the entries of the ring. -/
structure Held (q : EventUser ι α) (l : List (Entry ι α)) : Prop where
  consistent : Consistent q l
  orderly : Orderly q
  users : ∃ A, Users q A
  few : q.nDuplicates < EVENTQUESIZE - EVENTSPERQUE
  wake : q.task = .waiting → Readable q l → Woken q

omit [DecidableEq ι] in
theorem users_init : Users (db_init_events : EventUser ι α) ∅ where
  mem _ := by simp [db_init_events]
  quota := rfl
  few := by
    rw [Finset.card_empty]
    decide

theorem held_init : Held (db_init_events : EventUser ι α) [] where
  consistent := consistent_init
  orderly := ⟨nofun, nofun, nofun⟩
  users := ⟨∅, users_init⟩
  few := by
    show 0 < EVENTQUESIZE - EVENTSPERQUE
    decide
  wake _ hread := absurd rfl hread.1

theorem Purged.wake {t : EvSubscrip} (h : Purged i (setSub q i (some t)) q')
    (hwake : q.task = .waiting → Readable q l → Woken q) :
    q'.task = .waiting → Readable q' (l.map (cancelEntry i)) → Woken q' := by
  intro hwait hread
  have hdup : q'.nDuplicates ≤ q.nDuplicates := h.duplicates
  have hread' : Readable q l := by
    refine ⟨fun hnil => hread.1 (by rw [hnil]; rfl), fun hc => hread.2 ⟨?_, by omega⟩⟩
    rw [h.flowCtrlMode]
    exact hc.1
  have hwoken := hwake (h.task.symm.trans hwait) hread'
  unfold Woken
  rw [h.ppendsem, h.signals]
  exact hwoken

/-- The first event that is written wakes the event task up. -/
theorem fill_wake (h : Consistent q l) (hwake : q.task = .waiting → Readable q l → Woken q)
    {pLog : FieldLog α} (hspace : 0 < s.npend → q.flowCtrlMode = false)
    (hwait : (fillEntry q i s pLog).task = .waiting)
    (hread : ¬ ((fillEntry q i s pLog).flowCtrlMode = true ∧
      (fillEntry q i s pLog).nDuplicates = 0)) : Woken (fillEntry q i s pLog) := by
  have hsignals : (fillEntry q i s pLog).signals =
      if ringSpace q = EVENTQUESIZE then q.signals + 1 else q.signals := rfl
  have hppend : (fillEntry q i s pLog).ppendsem = q.ppendsem := rfl
  unfold Woken
  rw [hsignals, hppend, ringSpace_eq h]
  by_cases hnil : l = []
  · subst hnil
    rw [List.length_nil, Nat.sub_zero, if_pos rfl]
    exact .inr (Nat.succ_pos _)
  · have hread' : Readable q l := by
      refine ⟨hnil, fun hc => hread ⟨hc.1, ?_⟩⟩
      have hfirst : ¬ 0 < s.npend := fun hpos => nomatch (hspace hpos).symm.trans hc.1
      exact (if_neg hfirst).trans hc.2
    refine (hwake hwait hread').imp id fun hpos => ?_
    split_ifs
    · exact Nat.succ_pos _
    · exact hpos

theorem Outcome.wake (hout : Outcome q l a r l') (h : Consistent q l)
    (hwake : q.task = .waiting → Readable q l → Woken q) :
    r.1.task = .waiting → Readable r.1 l' → Woken r.1 := by
  cases hout with
  | cancelling _ hpurged _ => exact hpurged.wake hwake
  | cancelled _ hpurged _ => exact hpurged.wake hwake
  | @replaced i s pLog log k ix _ _ _ =>
    obtain ⟨evque, valque, sub, heq⟩ := replaceLast_eq (q := q) (i := i) (s := s) ix pLog
    rw [heq]
    exact fun hwait hread => hwake hwait ⟨fun hnil => hread.1 (by rw [hnil]; rfl), hread.2⟩
  | filled _ _ hspace =>
    exact fun hwait hread => fill_wake h hwake (fun hpos => (hspace hpos).1) hwait hread.2
  | suspended htask hflow hdup => exact fun _ hread => absurd ⟨hflow, hdup⟩ hread.2
  | emptied _ hl => exact fun _ hread => absurd hl hread.1
  | flow_on => exact fun _ _ => .inr (Nat.succ_pos _)
  | flow_off => exact fun _ _ => .inr (Nat.succ_pos _)
  | signalled => exact fun _ _ => .inl rfl
  | started => exact fun htask => nomatch htask
  | skipped htask _ => exact fun hwait => nomatch htask.symm.trans hwait
  | called => exact fun htask => nomatch htask
  | returned => exact fun htask => nomatch htask
  | _ => exact hwake

/-- A step that goes through has not overrun the ring. -/
theorem fits_of_step (h : Consistent q l) (ha : Allowed q a) (hstep : step q a = some r) :
    Fits l a := by
  cases a with
  | db_queue_event_log i pLog =>
    intro hnone
    by_contra hfull
    obtain ⟨s, hs, -⟩ := inUse_some ha
    have hnpend : ¬ 0 < s.npend := by
      rw [h.npend i s hs, hnone]
      exact lt_irrefl 0
    have hcell : ¬ (q.evque q.putix).isNone = true := by
      intro hc
      refine h.ring.put_cell_full hfull ?_
      unfold cell
      rw [Option.isNone_iff_eq_none.mp hc]
      rfl
    have hstore : storeEvent q i s pLog = none := by
      unfold storeEvent assert
      rw [if_neg fun hc => hnpend hc.1, if_neg hcell]
      rfl
    have hnone : step q (.db_queue_event_log i pLog) = none := by
      show (db_queue_event_log q i pLog).map _ = none
      unfold db_queue_event_log isDuplicate
      rw [hs, Option.bind_eq_bind, Option.bind_some, if_neg hnpend, Option.bind_eq_bind,
        Option.bind_some, if_neg (by decide), hstore]
      rfl
    exact nomatch hstep.symm.trans hnone
  | _ => trivial

theorem Held.next (h : Held q l) (ha : Allowed q a) (hstep : step q a = some r) :
    ∃ l', Held r.1 l' ∧ Outcome q l a r l' := by
  obtain ⟨r', l', hstep', h', hout⟩ :=
    step_does h.consistent h.orderly ha (fits_of_step h.consistent ha hstep)
  obtain rfl := Option.some.inj (hstep'.symm.trans hstep)
  obtain ⟨A, hu⟩ := h.users
  exact ⟨l', ⟨h', hout.orderly h.orderly ha h', hout.users hu, hout.duplicates h.consistent h.few,
    hout.wake h.consistent h.wake⟩, hout⟩

theorem Run.held {may : EventUser ι α → Action ι α → Prop} (hmay : ∀ q a, may q a → Allowed q a)
    {tr : Trace ι α} (h : Run may tr q) : ∃ l, Held q l := by
  induction h with
  | start => exact ⟨[], held_init⟩
  | step _ ha hstep ih =>
    obtain ⟨l, hl⟩ := ih
    obtain ⟨l', hl', -⟩ := hl.next (hmay _ _ ha) hstep
    exact ⟨l', hl'⟩

/-! ### No assertion fails -/

/-- Few enough subscriptions are allocated when one is added. -/
def Spared (q : EventUser ι α) (a : Action ι α) : Prop := Allowed q a ∧ RoomToAdd q a

theorem Run.room {tr : Trace ι α} (h : Run Spared tr q) :
    ∃ l A, Held q l ∧ Users q A ∧ Room q l A := by
  induction h with
  | start =>
    exact ⟨[], ∅, held_init, users_init, Nat.zero_le _⟩
  | step _ ha hstep ih =>
    obtain ⟨l, A, hl, hu, hroom⟩ := ih
    obtain ⟨l', hl', hout⟩ := hl.next ha.1 hstep
    obtain ⟨A', hu'⟩ := hl'.users
    exact ⟨l', A', hl', hu', hout.room hl.consistent hu hu' ha.1 ha.2 hl.few hroom⟩

/-- The room is what the first event of a subscription needs. -/
theorem Room.fits (hroom : Room q l A) (h : Consistent q l) (hu : Users q A) (ha : Allowed q a) :
    Fits l a := by
  cases a with
  | db_queue_event_log i pLog =>
    intro hnone
    obtain ⟨s, hs, huser⟩ := inUse_some ha
    have hmem : i ∈ idle q A := by
      rw [mem_idle hu, hs]
      simp [isIdle, huser, h.npend i s hs, hnone]
    have hpos := Finset.card_pos.mpr ⟨i, hmem⟩
    unfold Room at hroom
    omega
  | _ => trivial

/-- **No assertion fails** in a run in which a subscription is added only when at most `EVENTSPERQUE`
subscriptions and cancelled entries take room. -/
theorem events_fit {tr : Trace ι α} (h : Run Spared tr q) (ha : Allowed q a) :
    (step q a).isSome := by
  obtain ⟨l, A, hl, hu, hroom⟩ := h.room
  obtain ⟨r, l', hstep, -⟩ := step_does hl.consistent hl.orderly ha (hroom.fits hl.consistent hu ha)
  rw [hstep]
  rfl

instance (q : EventUser ι α) : (a : Action ι α) → Decidable (Allowed q a)
  | .db_add_event i => inferInstanceAs (Decidable (q.sub i = none))
  | .db_cancel_event i => inferInstanceAs (Decidable (inUse (q.sub i) = true))
  | .cancel_end i => inferInstanceAs (Decidable (inCancel (q.sub i) = true))
  | .db_queue_event_log i _ => inferInstanceAs (Decidable (inUse (q.sub i) = true))
  | .event_task => inferInstanceAs (Decidable (q.task = .waiting → q.ppendsem = true))
  | .db_event_flow_ctrl_mode_on => isTrue trivial
  | .db_event_flow_ctrl_mode_off => isTrue trivial
  | .signal => inferInstanceAs (Decidable (0 < q.signals))

/-- The actions one after the other, as long as they are allowed. -/
def perform (q : EventUser ι α) : List (Action ι α) → Option (EventUser ι α)
  | [] => some q
  | a :: as => if Allowed q a then (step q a).bind fun r => perform r.1 as else none

theorem Run.perform {tr : Trace ι α} (h : Run Allowed tr q) {as : List (Action ι α)}
    (has : perform q as = some q') : ∃ tr', Run Allowed tr' q' := by
  induction as generalizing q tr with
  | nil =>
    obtain rfl := Option.some.inj has
    exact ⟨tr, h⟩
  | cons a as ih =>
    unfold Event.perform at has
    split_ifs at has with ha
    obtain ⟨r, hstep, hrest⟩ := Option.bind_eq_some_iff.mp has
    exact ih (h.step ha hstep) hrest

/-- A client with one subscription. -/
def oneAdded : EventUser ℕ Unit := db_add_event db_init_events 0

theorem run_oneAdded : Run Spared [(.db_add_event 0, none)] oneAdded :=
  .step (q := db_init_events) (r := (oneAdded, none)) .start ⟨rfl, fun _ => by decide⟩ rfl

/-- It gets an event. -/
theorem events_fit_one : (step oneAdded (.db_queue_event_log 0 (.dbfl_type_val ()))).isSome :=
  events_fit run_oneAdded (by decide)

/-- A subscription fills the ring up to the spare cells, thirty others get their first event, and one of
them is cancelled and added again, three times. -/
def overrun : List (Action ℕ Unit) :=
  .db_add_event 0 :: List.replicate 96 (.db_queue_event_log 0 (.dbfl_type_val ())) ++
    ((List.range 30).flatMap fun i =>
      [.db_add_event (i + 1), .db_queue_event_log (i + 1) (.dbfl_type_val ())]) ++
    (List.replicate 2 [.db_cancel_event 1, .db_add_event 1,
      .db_queue_event_log 1 (.dbfl_type_val ())]).flatten ++
    [.db_cancel_event 1, .db_add_event 1]

set_option maxRecDepth 100000 in
/-- The next event finds no cell that is empty. -/
theorem overrun_fails : (perform db_init_events overrun).any (fun q =>
    inUse (q.sub 1) && (step q (.db_queue_event_log 1 (.dbfl_type_val ()))).isNone) = true := by
  decide +kernel

/-- **The ring can be overrun**: without the condition an assertion can fail. -/
theorem ring_overrun : ∃ (tr : Trace ℕ Unit) (q : EventUser ℕ Unit) (a : Action ℕ Unit),
    Run Allowed tr q ∧ Allowed q a ∧ step q a = none := by
  obtain ⟨q, hq, hlast⟩ := (Option.any_eq_true _ _).mp overrun_fails
  obtain ⟨tr, hrun⟩ := Run.perform .start hq
  rw [Bool.and_eq_true] at hlast
  exact ⟨tr, q, .db_queue_event_log 1 (.dbfl_type_val ()), hrun, hlast.1,
    Option.isNone_iff_eq_none.mp hlast.2⟩

/-! ### No wake-up is lost -/

/-- **No wake-up is lost.**  In every run a client that waits, although there is something to read which
flow control does not hold back, has been signalled, or a thread has still to signal it. -/
theorem wake_up {tr : Trace ι α} (h : Run Allowed tr q) (hwait : q.task = .waiting)
    (hread : (q.evque q.getix).isSome) (hflow : ¬ (q.flowCtrlMode = true ∧ q.nDuplicates = 0)) :
    q.ppendsem = true ∨ 0 < q.signals := by
  obtain ⟨l, hl⟩ := h.held fun _ _ ha => ha
  refine hl.wake hwait ⟨?_, hflow⟩
  rintro rfl
  have hcell := hl.consistent.ring.get_cell
  unfold cell at hcell
  rw [List.head?_nil, Option.map_eq_none_iff] at hcell
  rw [hcell] at hread
  exact nomatch hread

/-- The first event of a client that waits. -/
theorem wake_up_one : ∃ tr q, Run Allowed tr q ∧ (q : EventUser ℕ Unit).task = .waiting ∧
    (q.ppendsem = true ∨ 0 < q.signals) := by
  have hrun : Run Allowed _ oneAdded :=
    .step (a := .db_add_event 0) (r := (oneAdded, none)) .start (by decide) rfl
  have hpost := hrun.step (a := .db_queue_event_log 0 (.dbfl_type_val ())) (by decide) rfl
  exact ⟨_, _, hpost, rfl, wake_up hpost rfl (by decide) (by decide)⟩

end RackmonIoc.Event
