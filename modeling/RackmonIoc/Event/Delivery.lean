import RackmonIoc.Base.Monitor
import RackmonIoc.Event.Runs

/-!
# What a client gets

The logs that have been posted to a subscription, and those that its call back has got.

* `last_event_kept`: what the client has got and what still waits for it is what has been posted, without
  some of the logs, but with the last one.
* `event_task_drains`: the event task alone, when it is signalled, brings every client to the last log.
-/

namespace RackmonIoc.Event

/-! ### Logs that are left out -/

section Collapsed

variable {β : Type} {posted kept : List β} {b c : β}

/-- Some of the posted values have been left out, but not the last one. -/
structure Collapsed (posted kept : List β) : Prop where
  sublist : kept.Sublist posted
  last : kept.getLast? = posted.getLast?

namespace Collapsed

theorem nil : Collapsed ([] : List β) [] := ⟨.refl [], rfl⟩

theorem append (h : Collapsed posted kept) (b : β) : Collapsed (posted ++ [b]) (kept ++ [b]) :=
  ⟨h.sublist.append (.refl [b]), by simp⟩

/-- A value takes the place of the last one. -/
theorem replace (h : Collapsed posted (kept ++ [b])) (c : β) :
    Collapsed (posted ++ [c]) (kept ++ [c]) :=
  ⟨((List.sublist_append_left kept [b]).trans h.sublist).append (.refl [c]), by simp⟩

/-- The last value comes once more. -/
theorem ignore (h : Collapsed posted (kept ++ [b])) : Collapsed (posted ++ [b]) (kept ++ [b]) :=
  ⟨h.sublist.trans (List.sublist_append_left posted [b]), by simp⟩

end Collapsed

end Collapsed

/-! ### Logs that wait -/

variable {ι α : Type} [DecidableEq ι] {q q' : EventUser ι α} {l l' m : List (Entry ι α)} {i j : ι}
  {s : EvSubscrip} {a : Action ι α} {r : EventUser ι α × Option (ι × FieldLog α)} {tr : Trace ι α}
  {log : Option (FieldLog α)} {pLog : FieldLog α}

/-- The logs of a subscription in the ring. -/
def pending (i : ι) (l : List (Entry ι α)) : List (FieldLog α) :=
  l.filterMap fun e => if e.1 = .sub i then e.2 else none

theorem pending_append (i : ι) (l m : List (Entry ι α)) :
    pending i (l ++ m) = pending i l ++ pending i m := List.filterMap_append

theorem pending_own (i : ι) (pLog : FieldLog α) (l : List (Entry ι α)) :
    pending i ((.sub i, some pLog) :: l) = pLog :: pending i l :=
  List.filterMap_cons_some (if_pos rfl)

theorem pending_other {slot : Slot ι} (h : slot ≠ .sub i) (log : Option (FieldLog α))
    (l : List (Entry ι α)) : pending i ((slot, log) :: l) = pending i l :=
  List.filterMap_cons_none (if_neg h)

@[simp] theorem pending_canceled (i : ι) (log : Option (FieldLog α)) (l : List (Entry ι α)) :
    pending i ((.canceledEvent, log) :: l) = pending i l :=
  pending_other (by simp) log l

theorem pending_none (h : entries i l = 0) : pending i l = [] := by
  unfold pending
  rw [List.filterMap_eq_nil_iff]
  rintro ⟨slot, log⟩ he
  have hslot : slot ≠ .sub i := by
    rintro rfl
    obtain ⟨k, hk⟩ := List.mem_iff_getElem?.mp he
    have hpos := entries_pos.mpr ⟨k, log, hk⟩
    omega
  exact if_neg hslot

/-- There are as many logs as entries. -/
theorem Consistent.pending_length (h : Consistent q l) (i : ι) :
    (pending i l).length = entries i l := by
  have hlogged := h.logged
  clear h
  induction l with
  | nil => rfl
  | cons e l ih =>
    obtain ⟨slot, log⟩ := e
    have ih' := ih fun e he => hlogged e (List.mem_cons_of_mem _ he)
    have hlog := hlogged _ List.mem_cons_self
    cases slot with
    | canceledEvent =>
      rw [pending_canceled, entries_canceled, ih']
    | sub j =>
      rcases log with _ | log
      · simp at hlog
      · rw [entries_sub]
        by_cases hji : j = i
        · rw [hji, pending_own, List.length_cons, ih', if_pos rfl]
        · rw [pending_other (by simpa using hji), ih', if_neg hji]
          rfl

/-- Another subscription is cancelled. -/
theorem pending_cancelEntry (h : j ≠ i) (l : List (Entry ι α)) :
    pending i (l.map (cancelEntry j)) = pending i l := by
  unfold pending
  rw [List.filterMap_map]
  refine List.filterMap_congr fun e _ => ?_
  unfold cancelEntry
  by_cases he : e.1 = .sub j
  · simp [he, h]
  · simp [he]

/-- The last log of a subscription, and another one in its place. -/
theorem pending_set {k : ℕ} {old : FieldLog α} (hk : l[k]? = some (.sub j, some old))
    (hlast : ∀ m log', k < m → l[m]? ≠ some (.sub j, log')) (i : ι) (pLog : FieldLog α) :
    if j = i then ∃ before, pending i l = before ++ [old] ∧
      pending i (l.set k (.sub j, some pLog)) = before ++ [pLog]
    else pending i (l.set k (.sub j, some pLog)) = pending i l := by
  obtain ⟨hlt, hget⟩ := List.getElem?_eq_some_iff.mp hk
  have hset : ∀ e, l.set k e = l.take k ++ e :: l.drop (k + 1) := fun e => by
    rw [List.set_eq_take_append_cons_drop, if_pos hlt]
  have hsame : l = l.take k ++ (.sub j, some old) :: l.drop (k + 1) := by
    rw [← hset, ← hget, List.set_getElem_self]
  have hrest : entries j (l.drop (k + 1)) = 0 := by
    by_contra hpos
    obtain ⟨m, log', hm⟩ := entries_pos.mp (Nat.pos_of_ne_zero hpos)
    rw [List.getElem?_drop] at hm
    exact hlast _ log' (by omega) hm
  rw [hset]
  split_ifs with hji
  · subst hji
    refine ⟨pending j (l.take k), ?_, ?_⟩
    · conv_lhs => rw [hsame]
      rw [pending_append, pending_own, pending_none hrest]
    · rw [pending_append, pending_own, pending_none hrest]
  · have hne : (Slot.sub j) ≠ .sub i := by simpa using hji
    conv_rhs => rw [hsame]
    rw [pending_append, pending_append, pending_other hne, pending_other hne]

/-! ### Logs of a run -/

/-- The logs that have been posted to the subscription since it was added. -/
def posted (i : ι) : Trace ι α → List (FieldLog α)
  | [] => []
  | (.db_add_event j, _) :: tr => if j = i then [] else posted i tr
  | (.db_queue_event_log j pLog, _) :: tr => if j = i then posted i tr ++ [pLog] else posted i tr
  | _ :: tr => posted i tr

/-- The logs that its call back has got since then. -/
def delivered (i : ι) : Trace ι α → List (FieldLog α)
  | [] => []
  | (.db_add_event j, _) :: tr => if j = i then [] else delivered i tr
  | (_, some (j, log)) :: tr => if j = i then delivered i tr ++ [log] else delivered i tr
  | (_, none) :: tr => delivered i tr

/-- Nothing but what is left out is lost on the way. -/
def Conveys (i : ι) (tr : Trace ι α) (q : EventUser ι α) (l : List (Entry ι α)) : Prop :=
  inUse (q.sub i) → Collapsed (posted i tr) (delivered i tr ++ pending i l)

theorem Outcome.conveys (hout : Outcome q l a r l') (h : Consistent q l) (ha : Allowed q a)
    (hc : Conveys i tr q l) : Conveys i ((a, r.2) :: tr) r.1 l' := by
  cases hout with
  | @added j hsub _ =>
    intro huse
    show Collapsed (if j = i then [] else posted i tr) ((if j = i then [] else delivered i tr) ++ _)
    split_ifs with hji
    · rw [← hji, pending_none (h.freed j hsub)]
      exact .nil
    · refine hc ?_
      rwa [setSub_other (Ne.symm hji)] at huse
  | @refused j =>
    intro huse
    show Collapsed (if j = i then [] else posted i tr) ((if j = i then [] else delivered i tr) ++ _)
    have hji : j ≠ i := by
      rintro rfl
      have hnone : q.sub j = none := ha
      rw [hnone] at huse
      exact nomatch huse
    rw [if_neg hji, if_neg hji]
    exact hc huse
  | @cancelling j s q₁ hs hpurged _ =>
    intro huse
    have hji : j ≠ i := by
      rintro rfl
      obtain ⟨s₁, hs₁, huser, -⟩ := hpurged.own_of
      rw [hs₁] at huse
      exact nomatch huser.symm.trans huse
    rw [pending_cancelEntry hji]
    exact hc (hpurged.other_of (Ne.symm hji) ▸ huse)
  | @cancelled j s q₁ hs hpurged _ =>
    intro huse
    have hji : j ≠ i := by
      rintro rfl
      rw [freeSub_own] at huse
      exact nomatch huse
    rw [pending_cancelEntry hji]
    exact hc (hpurged.other_of (Ne.symm hji) ▸ freeSub_other (Ne.symm hji) ▸ huse)
  | @ended j s hs _ _ =>
    intro huse
    have hji : j ≠ i := by
      rintro rfl
      rw [freeSub_own] at huse
      exact nomatch huse
    exact hc (freeSub_other (Ne.symm hji) ▸ huse)
  | @ignored j s k hs hk hlast =>
    intro huse
    show Collapsed (if j = i then posted i tr ++ [_] else posted i tr) _
    have hset := pending_set hk hlast i (.dbfl_type_rec : FieldLog α)
    split_ifs at hset ⊢ with hji
    · obtain ⟨before, hbefore, -⟩ := hset
      have hcollapsed := hc huse
      rw [hbefore, ← List.append_assoc] at hcollapsed
      rw [hbefore, ← List.append_assoc]
      exact hcollapsed.ignore
    · exact hc huse
  | @replaced j s pLog old k ix hs hk hlast =>
    intro huse
    show Collapsed (if j = i then posted i tr ++ [pLog] else posted i tr) _
    have hset := pending_set hk hlast i pLog
    split_ifs at hset ⊢ with hji
    · obtain ⟨before, hbefore, hafter⟩ := hset
      subst hji
      rw [replaceLast_own] at huse
      have hcollapsed := hc (hs ▸ huse)
      rw [hbefore, ← List.append_assoc] at hcollapsed
      rw [hafter, ← List.append_assoc]
      exact hcollapsed.replace pLog
    · rw [hset]
      exact hc (replaceLast_other (Ne.symm hji) ▸ huse)
  | @filled j s pLog hs _ _ =>
    intro huse
    show Collapsed (if j = i then posted i tr ++ [pLog] else posted i tr) _
    rw [pending_append]
    split_ifs with hji
    · subst hji
      rw [pending_own, ← List.append_assoc]
      exact (hc ha).append pLog
    · rw [pending_other (by simpa using hji)]
      have hsame : (fillEntry q j s pLog).sub i = q.sub i := Function.update_of_ne (Ne.symm hji) _ _
      show Collapsed _ (_ ++ (pending i l ++ []))
      rw [List.append_nil]
      exact hc (hsame ▸ huse)
  | @called j s log l' _ hl hs huser =>
    intro huse
    show Collapsed (posted i tr) ((if j = i then delivered i tr ++ [log] else delivered i tr) ++ _)
    subst hl
    split_ifs with hji
    · subst hji
      have hcollapsed := hc (by rw [hs]; exact huser)
      rw [pending_own] at hcollapsed
      rw [List.append_assoc]
      exact hcollapsed
    · have hsame : (setSub { removed q q.getix none j s with
          getix := RNGINC q.getix
          task := .callBack j } j (some (inCallBack s))).sub i = q.sub i :=
        (setSub_other (Ne.symm hji)).trans (setSub_other (Ne.symm hji))
      have hcollapsed := hc (hsame ▸ huse)
      rwa [pending_other (by simpa using hji)] at hcollapsed
  | @skipped log l' _ hl =>
    subst hl
    intro huse
    have hcollapsed := hc huse
    rwa [pending_canceled] at hcollapsed
  | @returned j s _ hs =>
    intro huse
    refine hc ?_
    by_cases hji : i = j
    · subst hji
      rw [setSub_own] at huse
      exact hs ▸ huse
    · rwa [setSub_other hji] at huse
  | _ => exact hc

theorem Run.conveys (h : Run Allowed tr q) : ∃ l, Held q l ∧ ∀ i, Conveys i tr q l := by
  induction h with
  | start => exact ⟨[], held_init, fun _ huse => nomatch huse⟩
  | step _ ha hstep ih =>
    obtain ⟨l, hl, hc⟩ := ih
    obtain ⟨l', hl', hout⟩ := hl.next ha hstep
    exact ⟨l', hl', fun i => hout.conveys hl.consistent ha (hc i)⟩

/-- A call back that nothing waits for has got the last log. -/
theorem Run.caught_up (h : Run Allowed tr q) (hs : q.sub i = some s) (huser : s.user_sub = true)
    (hnpend : s.npend = 0) : (delivered i tr).getLast? = (posted i tr).getLast? := by
  obtain ⟨l, hl, hc⟩ := h.conveys
  have hnone : entries i l = 0 := (hl.consistent.npend i s hs).symm.trans hnpend
  have hlast := (hc i (by rw [hs]; exact huser)).last
  rwa [pending_none hnone, List.append_nil] at hlast

/-- **The last event is never lost.**  In every run the logs that a call back has got, with the `npend` logs
that still wait for it, are some of those that have been posted, in their order and with the last one. -/
theorem last_event_kept (h : Run Allowed tr q) (hs : q.sub i = some s) (huser : s.user_sub = true) :
    ∃ waits : List (FieldLog α), waits.length = s.npend ∧
      (delivered i tr ++ waits).Sublist (posted i tr) ∧
      (delivered i tr ++ waits).getLast? = (posted i tr).getLast? := by
  obtain ⟨l, hl, hc⟩ := h.conveys
  have hcollapsed := hc i (by rw [hs]; exact huser)
  refine ⟨pending i l, ?_, hcollapsed.sublist, hcollapsed.last⟩
  rw [hl.consistent.pending_length, hl.consistent.npend i s hs]

/-- The second of two events takes the place of the first one, in flow control. -/
theorem last_event_kept_two : ∃ tr, ∃ q : EventUser ℕ ℕ, Run Allowed tr q ∧
    posted 0 tr = [.dbfl_type_val 5, .dbfl_type_val 6] ∧ ∃ waits, waits.length = 1 ∧
      (delivered 0 tr ++ waits).Sublist (posted 0 tr) ∧
      (delivered 0 tr ++ waits).getLast? = (posted 0 tr).getLast? := by
  have h₁ : Run Allowed _ (db_add_event db_init_events 0 : EventUser ℕ ℕ) :=
    .step (a := .db_add_event 0) (r := (_, none)) .start (by decide) rfl
  have h₂ := h₁.step (a := .db_event_flow_ctrl_mode_on) (by decide) rfl
  have h₃ := h₂.step (a := .db_queue_event_log 0 (.dbfl_type_val 5)) (by decide) rfl
  have h₄ := h₃.step (a := .db_queue_event_log 0 (.dbfl_type_val 6)) (by decide) rfl
  exact ⟨_, _, h₄, rfl, last_event_kept h₄ (s := ⟨1, 1, some 0, true, false⟩) rfl rfl⟩

/-! ### The event task catches up -/

/-- What the event task needs to go on: its own steps, and the signals that are on their way. -/
def TaskOnly : Action ι α → Prop
  | .event_task | .signal => True
  | _ => False

/-- The run goes on, by the event task alone, until the ring is empty. -/
def Drains (tr : Trace ι α) (q : EventUser ι α) : Prop :=
  ∃ tr' q', Run Allowed (tr' ++ tr) q' ∧ (∀ x ∈ tr', TaskOnly x.1) ∧ Held q' [] ∧
    ∀ i, inUse (q'.sub i) = inUse (q.sub i)

theorem Drains.refl (h : Run Allowed tr q) (hl : Held q []) : Drains tr q :=
  ⟨[], q, h, nofun, hl, fun _ => rfl⟩

theorem Drains.head (ha : TaskOnly a) (huse : ∀ i, inUse (r.1.sub i) = inUse (q.sub i))
    (h : Drains ((a, r.2) :: tr) r.1) : Drains tr q := by
  obtain ⟨tr', q', hrun, honly, hl, huse'⟩ := h
  refine ⟨tr' ++ [(a, r.2)], q', by simpa using hrun, fun x hx => ?_, hl,
    fun i => (huse' i).trans (huse i)⟩
  rcases List.mem_append.mp hx with hx | hx
  · exact honly x hx
  · obtain rfl := List.mem_singleton.mp hx
    exact ha

/-- The event task can always go on when it is not waiting. -/
theorem Held.task_step (h : Held q l) (ha : q.task = .waiting → q.ppendsem = true) :
    ∃ r l', step q .event_task = some r ∧ Held r.1 l' ∧ Outcome q l .event_task r l' := by
  obtain ⟨r, -, hstep, -⟩ := step_does h.consistent h.orderly (a := .event_task) ha trivial
  obtain ⟨l', hl', hout⟩ := h.next (a := .event_task) ha hstep
  exact ⟨r, l', hstep, hl', hout⟩

/-- The event task leaves the subscriptions in use as they are. -/
theorem Outcome.task_inUse (hout : Outcome q l .event_task r l') (j : ι) :
    inUse (r.1.sub j) = inUse (q.sub j) := by
  cases hout with
  | @called i s log l' _ _ hs _ =>
    by_cases hji : j = i
    · rw [hji, setSub_own, hs]
      rfl
    · rw [setSub_other hji]
      exact congrArg inUse (setSub_other hji)
  | @returned i s _ hs =>
    by_cases hji : j = i
    · rw [hji, setSub_own, hs]
      rfl
    · rw [setSub_other hji]
  | _ => rfl

/-- After a call back the event task reads on. -/
theorem drains_callBack (hread : ∀ (tr : Trace ι α) q, Run Allowed tr q → Held q l →
    q.task = .reading → Drains tr q) (h : Run Allowed tr q) (hl : Held q l)
    (htask : q.task = .callBack i) : Drains tr q := by
  obtain ⟨r, l', hstep, hl', hout⟩ := hl.task_step fun hwait => nomatch htask.symm.trans hwait
  have hrun := h.step (a := .event_task) (fun hwait => nomatch htask.symm.trans hwait) hstep
  have huse := hout.task_inUse
  cases hout with
  | suspended hwait => exact nomatch htask.symm.trans hwait
  | started hwait => exact nomatch htask.symm.trans hwait
  | emptied hreading => exact nomatch htask.symm.trans hreading
  | skipped hreading => exact nomatch htask.symm.trans hreading
  | called hreading => exact nomatch htask.symm.trans hreading
  | returned => exact .head (a := .event_task) trivial huse (hread _ _ hrun hl' rfl)

/-- The event task reads the ring to its end; the induction is on the entries. -/
theorem drains_reading (l : List (Entry ι α)) : ∀ (tr : Trace ι α) q, Run Allowed tr q → Held q l →
    q.task = .reading → Drains tr q := by
  induction l with
  | nil => exact fun tr q h hl _ => .refl h hl
  | cons e l ih =>
    intro tr q h hl htask
    obtain ⟨r, l', hstep, hl', hout⟩ := hl.task_step fun hwait => nomatch htask.symm.trans hwait
    have hrun := h.step (a := .event_task) (fun hwait => nomatch htask.symm.trans hwait) hstep
    have huse := hout.task_inUse
    cases hout with
    | suspended hwait => exact nomatch htask.symm.trans hwait
    | started hwait => exact nomatch htask.symm.trans hwait
    | emptied _ hnil => exact nomatch hnil
    | returned hcall => exact nomatch htask.symm.trans hcall
    | skipped _ hcons =>
      obtain ⟨-, rfl⟩ := List.cons.inj hcons
      exact .head (a := .event_task) trivial huse (ih _ _ hrun hl' htask)
    | called _ hcons =>
      obtain ⟨-, rfl⟩ := List.cons.inj hcons
      exact .head (a := .event_task) trivial huse (drains_callBack ih hrun hl' rfl)

/-- The event task has been signalled. -/
theorem drains_woken (h : Run Allowed tr q) (hl : Held q l) (hwait : q.task = .waiting)
    (hppend : q.ppendsem = true) (hflow : q.flowCtrlMode = false) : Drains tr q := by
  obtain ⟨r, l', hstep, hl', hout⟩ := hl.task_step fun _ => hppend
  have hrun := h.step (a := .event_task) (fun _ => hppend) hstep
  have huse := hout.task_inUse
  cases hout with
  | suspended _ hon => exact nomatch hflow.symm.trans hon
  | started _ _ =>
    exact .head (a := .event_task) trivial huse (drains_reading _ _ _ hrun hl' rfl)
  | emptied hreading => exact nomatch hwait.symm.trans hreading
  | skipped hreading => exact nomatch hwait.symm.trans hreading
  | called hreading => exact nomatch hwait.symm.trans hreading
  | returned hcall => exact nomatch hwait.symm.trans hcall

theorem drains (h : Run Allowed tr q) (hl : Held q l) (hflow : q.flowCtrlMode = false) :
    Drains tr q := by
  cases htask : q.task with
  | reading => exact drains_reading l tr q h hl htask
  | callBack i => exact drains_callBack (drains_reading l) h hl htask
  | waiting =>
    by_cases hnil : l = []
    · exact .refl h (hnil ▸ hl)
    · have hread : Readable q l := ⟨hnil, fun hc => nomatch hflow.symm.trans hc.1⟩
      rcases hl.wake htask hread with hppend | hsignals
      · exact drains_woken h hl htask hppend hflow
      · -- the signal comes first
        have hrun := h.step (a := .signal) (r := (signal q, none)) hsignals rfl
        obtain ⟨l', hl', -⟩ := hl.next (a := .signal) (r := (signal q, none)) hsignals rfl
        exact .head (a := .signal) (r := (signal q, none)) trivial (fun _ => rfl)
          (drains_woken hrun hl' htask rfl hflow)

theorem posted_taskOnly (i : ι) {tr' : Trace ι α} (h : ∀ x ∈ tr', TaskOnly x.1) (tr : Trace ι α) :
    posted i (tr' ++ tr) = posted i tr := by
  induction tr' with
  | nil => rfl
  | cons x tr' ih =>
    obtain ⟨a, out⟩ := x
    have ih' := ih fun x hx => h x (List.mem_cons_of_mem _ hx)
    have ha : TaskOnly a := h _ List.mem_cons_self
    cases a with
    | event_task => exact ih'
    | signal => exact ih'
    | _ => exact ha.elim

/-- **The event task catches up.**  From every state of every run, without flow control, its own steps, and
the signals that are on their way, lead to an empty ring, where every subscription in use has got the last
log that has been posted to it. -/
theorem event_task_drains (h : Run Allowed tr q) (hflow : q.flowCtrlMode = false) :
    ∃ tr' q', Run Allowed (tr' ++ tr) q' ∧ (∀ x ∈ tr', TaskOnly x.1) ∧
      ringSpace q' = EVENTQUESIZE ∧
      ∀ i, inUse (q.sub i) → (delivered i (tr' ++ tr)).getLast? = (posted i tr).getLast? := by
  obtain ⟨l, hl⟩ := h.held fun _ _ ha => ha
  obtain ⟨tr', q', hrun, honly, hempty, huse⟩ := drains h hl hflow
  refine ⟨tr', q', hrun, honly, ?_, fun i hi => ?_⟩
  · rw [ringSpace_eq hempty.consistent]
    rfl
  · obtain ⟨s, hs, huser⟩ := inUse_some ((huse i).trans hi)
    rw [← posted_taskOnly i honly tr]
    exact hrun.caught_up hs huser (hempty.consistent.npend i s hs)

/-- An event task that waits, and has not been signalled yet. -/
theorem event_task_drains_one : ∃ tr q, Run Allowed tr q ∧ (q : EventUser ℕ ℕ).task = .waiting ∧
    q.ppendsem = false ∧ ∃ tr' q', Run Allowed (tr' ++ tr) q' ∧ (∀ x ∈ tr', TaskOnly x.1) ∧
      ringSpace q' = EVENTQUESIZE ∧
      ∀ i, inUse (q.sub i) → (delivered i (tr' ++ tr)).getLast? = (posted i tr).getLast? := by
  have h₁ : Run Allowed _ (db_add_event db_init_events 0 : EventUser ℕ ℕ) :=
    .step (a := .db_add_event 0) (r := (_, none)) .start (by decide) rfl
  have h₂ := h₁.step (a := .db_queue_event_log 0 (.dbfl_type_val 5)) (by decide) rfl
  exact ⟨_, _, h₂, rfl, rfl, event_task_drains h₂ rfl⟩

/-! ### What the client knows -/

section Client

open Base

variable {ρ : Type}

/-- The logs of the posts that a subscriber hears. -/
def heard (s : Subscriber) (posts : List (Post ρ)) : List (FieldLog ρ) :=
  (posts.filter fun p => s.Hears p).map fun p => .dbfl_type_val p.prec

/-- The record as the client has last got it, the first time with the subscription to `prec`. -/
def got (prec : ρ) (logs : List (FieldLog ρ)) : ρ :=
  match logs.getLast? with
  | some (.dbfl_type_val r) => r
  | _ => prec

theorem got_heard (s : Subscriber) (prec : ρ) (posts : List (Post ρ)) :
    got prec (heard s posts) = s.last prec posts := by
  induction posts using List.reverseRecOn with
  | nil => rfl
  | append_singleton posts p ih =>
    rw [Subscriber.last_append]
    show _ = if s.Hears p then p.prec else s.last prec posts
    have hsplit : heard s (posts ++ [p]) =
        heard s posts ++ if s.Hears p then [.dbfl_type_val p.prec] else [] := by
      unfold heard
      by_cases hp : s.Hears p <;> simp [hp]
    rw [hsplit]
    by_cases hp : s.Hears p
    · rw [if_pos hp, if_pos hp]
      unfold got
      rw [List.getLast?_concat]
    · rw [if_neg hp, if_neg hp, List.append_nil]
      exact ih

/-- A client that is up to date with the posts of its subscription. -/
theorem Run.known {tr : Trace ι ρ} {q : EventUser ι ρ} (h : Run Allowed tr q)
    (hs : q.sub i = some s) (huser : s.user_sub = true) (hnpend : s.npend = 0) {c : Subscriber}
    {posts : List (Post ρ)} (hposted : posted i tr = heard c posts) (prec : ρ) :
    got prec (delivered i tr) = c.last prec posts := by
  rw [← got_heard, ← hposted]
  unfold got
  rw [h.caught_up hs huser hnpend]

end Client

end RackmonIoc.Event
