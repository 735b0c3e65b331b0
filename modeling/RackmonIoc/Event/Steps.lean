import RackmonIoc.Event.Entries

/-!
# The steps of an event queue

What every action does to the entries of the ring.  `Outcome` lists the cases; `step_does` says that a
step which does not overrun the ring is one of them, so that no other assertion can fail.
-/

namespace RackmonIoc.Event

open CLib

variable {ι α : Type} {q q' : EventUser ι α} {l m : List (Entry ι α)} {i : ι} {s : EvSubscrip}

/-! ### Cancelling -/

/-- What the loop of `db_cancel_event` leaves alone. -/
structure Purged (i : ι) (q q' : EventUser ι α) : Prop where
  getix : q'.getix = q.getix
  quota : q'.quota = q.quota
  flowCtrlMode : q'.flowCtrlMode = q.flowCtrlMode
  ppendsem : q'.ppendsem = q.ppendsem
  signals : q'.signals = q.signals
  task : q'.task = q.task
  duplicates : q'.nDuplicates ≤ q.nDuplicates
  other : ∀ j ≠ i, q'.sub j = q.sub j
  own : ∀ s, q.sub i = some s → ∃ s', q'.sub i = some s' ∧ s'.user_sub = s.user_sub ∧
    s'.callBackInProgress = s.callBackInProgress

theorem Purged.refl (i : ι) (q : EventUser ι α) : Purged i q q :=
  ⟨rfl, rfl, rfl, rfl, rfl, rfl, Nat.le_refl _, fun _ _ => rfl, fun s hs => ⟨s, hs, rfl, rfl⟩⟩

theorem Purged.trans {q'' : EventUser ι α} (h : Purged i q q') (h' : Purged i q' q'') :
    Purged i q q'' where
  getix := h'.getix.trans h.getix
  quota := h'.quota.trans h.quota
  flowCtrlMode := h'.flowCtrlMode.trans h.flowCtrlMode
  ppendsem := h'.ppendsem.trans h.ppendsem
  signals := h'.signals.trans h.signals
  task := h'.task.trans h.task
  duplicates := h'.duplicates.trans h.duplicates
  other j hj := (h'.other j hj).trans (h.other j hj)
  own s hs := by
    obtain ⟨s₁, hs₁, huser, hcall⟩ := h.own s hs
    obtain ⟨s₂, hs₂, huser', hcall'⟩ := h'.own s₁ hs₁
    exact ⟨s₂, hs₂, huser'.trans huser, hcall'.trans hcall⟩

variable [DecidableEq ι]

/-- The entry after `i` has been cancelled. -/
def cancelEntry (i : ι) (e : Entry ι α) : Entry ι α :=
  if e.1 = .sub i then (.canceledEvent, none) else e

theorem entries_cancelEntry (i : ι) (l : List (Entry ι α)) :
    entries i (l.map (cancelEntry i)) = 0 := by
  by_contra hpos
  obtain ⟨k, log, hk⟩ := entries_pos.mp (Nat.pos_of_ne_zero hpos)
  rw [List.getElem?_map] at hk
  obtain ⟨e, -, he⟩ := Option.map_eq_some_iff.mp hk
  unfold cancelEntry at he
  split_ifs at he with hown
  · exact nomatch he
  · exact hown (by rw [he])

theorem purged_removed (hs : q.sub i = some s) (index : ℕ) (placeHolder : Option (Slot ι)) :
    Purged i q (removed { q with nCanceled := q.nCanceled + 1 } index placeHolder i s) := by
  refine ⟨rfl, rfl, rfl, rfl, rfl, rfl, ?_, fun j hj => ?_, fun s' hs' => ?_⟩
  · show (if s.npend = 1 then q.nDuplicates else q.nDuplicates - 1) ≤ q.nDuplicates
    split_ifs <;> omega
  · exact Function.update_of_ne hj _ _
  · obtain rfl := Option.some.inj (hs.symm.trans hs')
    exact ⟨lessPending s, Function.update_self _ _ _, rfl, rfl⟩

/-- **The loop of `db_cancel_event`** comes to an end and cancels the entries of the subscription. -/
theorem purge_spec (m : List (Entry ι α)) :
    ∀ (l : List (Entry ι α)) (q : EventUser ι α), Consistent q (l ++ m) → entries i l = 0 →
      (q.sub i).isSome → l.length < EVENTQUESIZE →
      ∃ q', purge i (EVENTQUESIZE - l.length) q ((q.getix + l.length) % EVENTQUESIZE) = some q' ∧
        Consistent q' (l ++ m.map (cancelEntry i)) ∧ Purged i q q' := by
  induction m with
  | nil =>
    intro l q h _ _ hlt
    obtain ⟨fuel, hfuel⟩ := Nat.exists_eq_add_of_lt hlt
    have hput := h.ring.put_cell (by simpa using hlt)
    rw [h.ring.put, List.append_nil] at hput
    have hnone : q.evque ((q.getix + l.length) % EVENTQUESIZE) = none := by
      simpa [cell] using hput
    refine ⟨q, ?_, h, .refl i q⟩
    rw [show EVENTQUESIZE - l.length = fuel + 1 by omega]
    unfold purge
    rw [hnone]
    rfl
  | cons e m ih =>
    intro l q h hfirst hsub hlt
    obtain ⟨slot, log⟩ := e
    obtain ⟨s, hs⟩ := Option.isSome_iff_exists.mp hsub
    obtain ⟨hslot, -⟩ := h.slot
    -- one round, which leaves the entries before and behind alone
    have hround : ∃ q₁,
        purgeEntry i q ((q.getix + l.length) % EVENTQUESIZE) slot = some q₁ ∧
        Consistent q₁ ((l ++ [cancelEntry i (slot, log)]) ++ m) ∧ Purged i q q₁ := by
      by_cases hown : slot = .sub i
      · subst hown
        have hcanceled : q.nCanceled < 65535 := by
          have hdup := h.duplicates
          have hle := h.ring.length_le
          have hsize : EVENTQUESIZE = 128 := rfl
          omega
        obtain ⟨s', hs', hnpend⟩ := h.sub_of_entry
        obtain rfl := Option.some.inj (hs.symm.trans hs')
        have hremove := event_remove_eq (q := { q with nCanceled := q.nCanceled + 1 }) hslot hs
          (by omega) (h.counts hs).2 (some .canceledEvent)
        refine ⟨_, ?_, ?_, purged_removed hs ((q.getix + l.length) % EVENTQUESIZE)
          (some .canceledEvent)⟩
        · unfold purgeEntry assert
          rw [if_pos rfl, if_pos hcanceled]
          exact hremove
        · rw [List.append_assoc]
          unfold cancelEntry
          rw [if_pos rfl]
          exact h.cancel_entry hs hfirst
      · refine ⟨q, if_neg hown, ?_, .refl i q⟩
        rw [List.append_assoc]
        unfold cancelEntry
        rw [if_neg hown]
        exact h
    obtain ⟨q₁, hq₁, h₁, hpurged⟩ := hround
    have hlen : (l ++ [cancelEntry i (slot, log)]).length = l.length + 1 := by simp
    have hle := h₁.ring.length_le
    rw [List.length_append, hlen] at hle
    have hplace : RNGINC ((q.getix + l.length) % EVENTQUESIZE) =
        (q₁.getix + (l.length + 1)) % EVENTQUESIZE := by
      rw [hpurged.getix]
      exact ringInc_place h.ring.pos _ _
    have hunfold : purge i (EVENTQUESIZE - l.length) q ((q.getix + l.length) % EVENTQUESIZE) =
        if (q₁.getix + (l.length + 1)) % EVENTQUESIZE = q₁.getix then some q₁
        else purge i (EVENTQUESIZE - (l.length + 1)) q₁
          ((q₁.getix + (l.length + 1)) % EVENTQUESIZE) := by
      obtain ⟨fuel, hfuel⟩ := Nat.exists_eq_add_of_lt hlt
      rw [show EVENTQUESIZE - l.length = fuel + 1 by omega,
        show EVENTQUESIZE - (l.length + 1) = fuel by omega, ← hplace]
      conv_lhs => unfold purge
      rw [hslot]
      dsimp only
      rw [hq₁]
      rfl
    by_cases hlast : l.length + 1 = EVENTQUESIZE
    · -- the loop is back at `getix`
      obtain rfl : m = [] := List.eq_nil_of_length_eq_zero (by omega)
      refine ⟨q₁, ?_, ?_, hpurged⟩
      · rw [hunfold, hlast, Nat.add_mod_right, Nat.mod_eq_of_lt h₁.ring.get_lt, if_pos rfl]
      · simpa using h₁
    · have hne : (q₁.getix + (l.length + 1)) % EVENTQUESIZE ≠ q₁.getix := by
        intro hback
        have hzero : (q₁.getix + 0) % EVENTQUESIZE = q₁.getix := Nat.mod_eq_of_lt h₁.ring.get_lt
        exact absurd (place_inj (by omega) h₁.ring.pos (hback.trans hzero.symm)) (by omega)
      have hfirst' : entries i (l ++ [cancelEntry i (slot, log)]) = 0 := by
        have hone := entries_cancelEntry i [(slot, log)]
        rw [entries_append, hfirst, Nat.zero_add]
        exact hone
      have hsub₁ : (q₁.sub i).isSome := by
        obtain ⟨s', hs', -⟩ := hpurged.own s hs
        rw [hs']
        rfl
      obtain ⟨q₂, hq₂, h₂, hpurged₂⟩ := ih (l ++ [cancelEntry i (slot, log)]) q₁ h₁ hfirst' hsub₁
        (by rw [hlen]; omega)
      rw [hlen] at hq₂
      refine ⟨q₂, ?_, ?_, hpurged.trans hpurged₂⟩
      · rw [hunfold, if_neg hne, hq₂]
      · simpa using h₂

/-- The subscription is given back. -/
def freeSub (q : EventUser ι α) (i : ι) : EventUser ι α :=
  setSub { q with quota := q.quota - EVENTENTRIES } i none

theorem Consistent.free (h : Consistent q l) (hi : entries i l = 0) : Consistent (freeSub q i) l where
  ring := h.ring
  logged := h.logged
  npend j s hs := by
    by_cases hji : j = i
    · subst hji
      simp [freeSub, setSub] at hs
    · exact h.npend j s (by simpa [freeSub, setSub, hji] using hs)
  freed j hj := by
    by_cases hji : j = i
    · exact hji ▸ hi
    · exact h.freed j (by simpa [freeSub, setSub, hji] using hj)
  last j s hs hpos := by
    by_cases hji : j = i
    · subst hji
      simp [freeSub, setSub] at hs
    · exact h.last j s (by simpa [freeSub, setSub, hji] using hs) hpos
  canceled := h.canceled
  duplicates := h.duplicates

/-- A subscription that keeps its entries. -/
theorem Consistent.setSub_same (h : Consistent q l) (hs : q.sub i = some s) {s' : EvSubscrip}
    (hnpend : s'.npend = s.npend) (hlast : s'.pLastLog = s.pLastLog) :
    Consistent (setSub q i (some s')) l := by
  refine h.change rfl h.ring (fun e he => .inl he) (hnpend.trans (h.npend i s hs)) (fun _ _ => rfl)
    (fun hpos => ?_) (fun _ _ _ _ hix => hix) h.canceled h.duplicates
  rw [hlast]
  exact h.last i s hs (hnpend ▸ hpos)

/-- A subscription after it has been cancelled. -/
def noCallBack (s : EvSubscrip) : EvSubscrip := { s with user_sub := false }

theorem db_cancel_event_spec (h : Consistent q l) (hs : q.sub i = some s) :
    ∃ q₁, Consistent q₁ (l.map (cancelEntry i)) ∧
      Purged i (setSub q i (some (noCallBack s))) q₁ ∧ db_cancel_event q i = cancel_end q₁ i := by
  have h₀ : Consistent (setSub q i (some (noCallBack s))) ([] ++ l) := h.setSub_same hs rfl rfl
  have hsome : (setSub q i (some (noCallBack s))).sub i = some (noCallBack s) :=
    Function.update_self _ _ _
  obtain ⟨q₁, hpurge, h₁, hpurged⟩ := purge_spec l [] _ h₀ rfl (by rw [hsome]; rfl) h.ring.pos
  obtain ⟨s₁, hs₁, -⟩ := hpurged.own _ hsome
  refine ⟨q₁, h₁, hpurged, ?_⟩
  have hnpend : s₁.npend = 0 := (h₁.npend i s₁ hs₁).trans (entries_cancelEntry i l)
  have hpurge' : purge i EVENTQUESIZE (setSub q i (some (noCallBack s))) q.getix = some q₁ := by
    have hget : (q.getix + 0) % EVENTQUESIZE = q.getix := Nat.mod_eq_of_lt h.ring.get_lt
    rw [← hget]
    exact hpurge
  unfold db_cancel_event
  rw [hs, Option.bind_eq_bind, Option.bind_some]
  show (purge i EVENTQUESIZE (setSub q i (some (noCallBack s))) q.getix).bind _ = _
  rw [hpurge', Option.bind_some, hs₁, Option.bind_some]
  unfold assert
  rw [if_pos hnpend]
  rfl

/-! ### Steps -/

theorem inUse_some {o : Option EvSubscrip} (h : inUse o) : ∃ s, o = some s ∧ s.user_sub = true := by
  cases o with
  | none => exact nomatch h
  | some s => exact ⟨s, rfl, h⟩

theorem inCancel_some {o : Option EvSubscrip} (h : inCancel o) :
    ∃ s, o = some s ∧ s.user_sub = false := by
  cases o with
  | none => exact nomatch h
  | some s => exact ⟨s, rfl, by simpa [inCancel] using h⟩

/-- What the threads see to between them: a call back is in progress while the event task runs it, and a
subscription that is being cancelled has no entries. -/
structure Orderly (q : EventUser ι α) : Prop where
  task : ∀ i s, q.sub i = some s → (s.callBackInProgress = true ↔ q.task = .callBack i)
  busy : ∀ i, q.task = .callBack i → (q.sub i).isSome
  gone : ∀ i s, q.sub i = some s → s.user_sub = false → s.npend = 0

/-- The subscription after an entry has been read, for its call back. -/
def inCallBack (s : EvSubscrip) : EvSubscrip := { lessPending s with callBackInProgress := true }

/-- **What an action does**, to the queue and to its entries. -/
inductive Outcome (q : EventUser ι α) (l : List (Entry ι α)) :
    Action ι α → EventUser ι α × Option (ι × FieldLog α) → List (Entry ι α) → Prop
  | added {i : ι} : q.sub i = none → q.quota + q.nCanceled < EVENTQUESIZE - EVENTENTRIES →
    Outcome q l (.db_add_event i)
      (setSub { q with quota := q.quota + EVENTENTRIES } i (some ⟨0, 0, none, true, false⟩), none) l
  | refused {i : ι} : Outcome q l (.db_add_event i) (q, none) l
  | cancelling {i : ι} {s : EvSubscrip} {q₁ : EventUser ι α} : q.sub i = some s →
    Purged i (setSub q i (some (noCallBack s))) q₁ → s.callBackInProgress = true →
    Outcome q l (.db_cancel_event i) (q₁, none) (l.map (cancelEntry i))
  | cancelled {i : ι} {s : EvSubscrip} {q₁ : EventUser ι α} : q.sub i = some s →
    Purged i (setSub q i (some (noCallBack s))) q₁ → s.callBackInProgress = false →
    Outcome q l (.db_cancel_event i) (freeSub q₁ i, none) (l.map (cancelEntry i))
  | waits {i : ι} : Outcome q l (.cancel_end i) (q, none) l
  | ended {i : ι} {s : EvSubscrip} : q.sub i = some s → s.user_sub = false →
    s.callBackInProgress = false → Outcome q l (.cancel_end i) (freeSub q i, none) l
  | ignored {i : ι} {s : EvSubscrip} {k : ℕ} : q.sub i = some s →
    l[k]? = some (.sub i, some .dbfl_type_rec) →
    (∀ m log, k < m → l[m]? ≠ some (.sub i, log)) →
    Outcome q l (.db_queue_event_log i .dbfl_type_rec) (q, none) l
  | replaced {i : ι} {s : EvSubscrip} {pLog log : FieldLog α} {k ix : ℕ} : q.sub i = some s →
    l[k]? = some (.sub i, some log) → (∀ m log', k < m → l[m]? ≠ some (.sub i, log')) →
    Outcome q l (.db_queue_event_log i pLog) (replaceLast q i s ix pLog, none)
      (l.set k (.sub i, some pLog))
  | filled {i : ι} {s : EvSubscrip} {pLog : FieldLog α} : q.sub i = some s →
    l.length < EVENTQUESIZE →
    (0 < s.npend → q.flowCtrlMode = false ∧ EVENTSPERQUE + l.length < EVENTQUESIZE) →
    Outcome q l (.db_queue_event_log i pLog) (fillEntry q i s pLog, none)
      (l ++ [(.sub i, some pLog)])
  | suspended : q.task = .waiting → q.flowCtrlMode = true → q.nDuplicates = 0 →
    Outcome q l .event_task ({ q with ppendsem := false, task := .waiting }, none) l
  | started : q.task = .waiting → ¬ (q.flowCtrlMode = true ∧ q.nDuplicates = 0) →
    Outcome q l .event_task ({ q with ppendsem := false, task := .reading }, none) l
  | emptied : q.task = .reading → l = [] →
    Outcome q l .event_task ({ q with task := .waiting }, none) l
  | skipped {log : Option (FieldLog α)} {l' : List (Entry ι α)} : q.task = .reading →
    l = (.canceledEvent, log) :: l' →
    Outcome q l .event_task ({ setEntry q q.getix none none with
      getix := RNGINC q.getix
      nCanceled := q.nCanceled - 1 }, none) l'
  | called {i : ι} {s : EvSubscrip} {log : FieldLog α} {l' : List (Entry ι α)} : q.task = .reading →
    l = (.sub i, some log) :: l' → q.sub i = some s → s.user_sub = true →
    Outcome q l .event_task (setSub { removed q q.getix none i s with
      getix := RNGINC q.getix
      task := .callBack i } i (some (inCallBack s)), some (i, log)) l'
  | returned {i : ι} {s : EvSubscrip} : q.task = .callBack i → q.sub i = some s →
    Outcome q l .event_task
      (setSub { q with task := .reading } i (some { s with callBackInProgress := false }), none) l
  | flow_on : Outcome q l .db_event_flow_ctrl_mode_on (db_event_flow_ctrl_mode_on q, none) l
  | flow_off : Outcome q l .db_event_flow_ctrl_mode_off (db_event_flow_ctrl_mode_off q, none) l
  | signalled : Outcome q l .signal (signal q, none) l

theorem step_waiting (h : q.task = .waiting) :
    step q .event_task = some (event_read { q with ppendsem := false }, none) := by
  show event_task q = _
  unfold event_task
  rw [h]

theorem step_reading (h : q.task = .reading) : step q .event_task = event_read_next q := by
  show event_task q = _
  unfold event_task
  rw [h]

theorem step_callBack (h : q.task = .callBack i) :
    step q .event_task = (call_back_done q i).map fun q => (q, none) := by
  show event_task q = _
  unfold event_task
  rw [h]

/-- The step goes through, and the ring holds the entries of an outcome. -/
def Does (q : EventUser ι α) (l : List (Entry ι α)) (a : Action ι α) : Prop :=
  ∃ r l', step q a = some r ∧ Consistent r.1 l' ∧ Outcome q l a r l'

/-- The ring takes the event, if it is the first one of its subscription. -/
def Fits (l : List (Entry ι α)) : Action ι α → Prop
  | .db_queue_event_log i _ => entries i l = 0 → l.length < EVENTQUESIZE
  | _ => True

section Specs

variable (h : Consistent q l)
include h

theorem does_add (hsub : q.sub i = none) : Does q l (.db_add_event i) := by
  by_cases hquota : q.quota + q.nCanceled < EVENTQUESIZE - EVENTENTRIES
  · have hadd : db_add_event q i = setSub { q with quota := q.quota + EVENTENTRIES } i
        (some ⟨0, 0, none, true, false⟩) := if_pos hquota
    refine ⟨_, l, rfl, ?_, by rw [hadd]; exact .added hsub hquota⟩
    rw [hadd]
    exact h.change rfl h.ring (fun e he => .inl he) (h.freed i hsub).symm (fun _ _ => rfl)
      (fun hpos => absurd hpos (lt_irrefl 0)) (fun _ _ _ _ hix => hix) h.canceled h.duplicates
  · have hadd : db_add_event q i = q := if_neg hquota
    refine ⟨_, l, rfl, ?_, by rw [hadd]; exact .refused⟩
    rw [hadd]
    exact h

theorem does_cancel (hs : q.sub i = some s) : Does q l (.db_cancel_event i) := by
  obtain ⟨q₁, h₁, hpurged, hcancel⟩ := db_cancel_event_spec h hs
  obtain ⟨s₁, hs₁, -, hcall⟩ := hpurged.own _ (Function.update_self _ _ _)
  have hcall' : s₁.callBackInProgress = s.callBackInProgress := hcall
  have hend : cancel_end q₁ i = if s₁.callBackInProgress then some q₁ else some (freeSub q₁ i) := by
    unfold cancel_end
    rw [hs₁]
    rfl
  show ∃ r l', (db_cancel_event q i).map (fun q => (q, none)) = some r ∧ _
  rw [hcancel, hend, hcall']
  cases hc : s.callBackInProgress with
  | true => exact ⟨_, _, rfl, h₁, .cancelling hs hpurged hc⟩
  | false => exact ⟨_, _, rfl, h₁.free (entries_cancelEntry i l), .cancelled hs hpurged hc⟩

theorem does_cancel_end (ho : Orderly q) (hs : q.sub i = some s) (huser : s.user_sub = false) :
    Does q l (.cancel_end i) := by
  have hend : cancel_end q i = if s.callBackInProgress then some q else some (freeSub q i) := by
    unfold cancel_end
    rw [hs]
    rfl
  show ∃ r l', (cancel_end q i).map (fun q => (q, none)) = some r ∧ _
  rw [hend]
  cases hc : s.callBackInProgress with
  | true => exact ⟨_, l, rfl, h, .waits⟩
  | false =>
    refine ⟨_, l, rfl, h.free ?_, .ended hs huser hc⟩
    rw [← h.npend i s hs]
    exact ho.gone i s hs huser

theorem put_cell_none (hroom : l.length < EVENTQUESIZE) :
    assert ((q.evque q.putix).isNone = true) = some () := by
  have hcell := h.ring.put_cell hroom
  unfold cell at hcell
  rw [Option.map_eq_none_iff] at hcell
  rw [hcell]
  rfl

/-- The last log of a subscription that has entries. -/
theorem last_log_spec (hs : q.sub i = some s) (hpos : 0 < s.npend) (pLog : FieldLog α) :
    ∃ k ix log, s.pLastLog = some ix ∧ last_log q s = some (ix, log) ∧
      l[k]? = some (.sub i, some log) ∧ (∀ m log', k < m → l[m]? ≠ some (.sub i, log')) ∧
      Consistent (replaceLast q i s ix pLog) (l.set k (.sub i, some pLog)) := by
  obtain ⟨k, ix, hix, hk, hlast, hreplace⟩ := h.replace hs hpos pLog
  have hlogged := h.logged _ (List.mem_of_getElem? hk)
  rcases hv : q.valque ix with _ | log
  · rw [hv] at hlogged
    simp at hlogged
  · refine ⟨k, ix, log, hix, ?_, hv ▸ hk, hlast, hreplace⟩
    unfold last_log
    rw [hix, Option.bind_eq_bind, Option.bind_some, hv]
    rfl

theorem storeEvent_fill (pLog : FieldLog α) (hroom : l.length < EVENTQUESIZE)
    (hfull : ¬ (0 < s.npend ∧ (q.flowCtrlMode = true ∨ ringSpace q ≤ EVENTSPERQUE))) :
    storeEvent q i s pLog = some (fillEntry q i s pLog) := by
  unfold storeEvent
  rw [if_neg hfull, put_cell_none h hroom]
  rfl

theorem does_event (hs : q.sub i = some s) (pLog : FieldLog α)
    (hfits : Fits l (.db_queue_event_log i pLog)) : Does q l (.db_queue_event_log i pLog) := by
  have hnpend := h.npend i s hs
  have hspace := ringSpace_eq h
  have hqueue : step q (.db_queue_event_log i pLog) =
      ((isDuplicate q s pLog).bind fun ignored =>
        if ignored then some q else storeEvent q i s pLog).map fun q => (q, none) := by
    show (db_queue_event_log q i pLog).map _ = _
    unfold db_queue_event_log
    rw [hs]
    rfl
  unfold Does
  rw [hqueue]
  unfold isDuplicate
  by_cases hpos : 0 < s.npend
  · obtain ⟨k, ix, log, hix, hlastlog, hk, hlast, hreplace⟩ := last_log_spec h hs hpos pLog
    rw [if_pos hpos, hlastlog, Option.map_some, Option.bind_some]
    dsimp only
    by_cases hrec : (log.isRec && pLog.isRec) = true
    · have hboth : log = .dbfl_type_rec ∧ pLog = .dbfl_type_rec := by
        cases log <;> cases pLog <;> simp_all [FieldLog.isRec]
      obtain ⟨rfl, rfl⟩ := hboth
      exact ⟨_, l, rfl, h, .ignored hs hk hlast⟩
    · rw [if_neg hrec]
      by_cases hfull : q.flowCtrlMode = true ∨ ringSpace q ≤ EVENTSPERQUE
      · have hstore : storeEvent q i s pLog = some (replaceLast q i s ix pLog) := by
          unfold storeEvent
          rw [if_pos ⟨hpos, hfull⟩, hix]
          rfl
        rw [hstore]
        exact ⟨_, _, rfl, hreplace, .replaced hs hk hlast⟩
      · have hroom : l.length < EVENTQUESIZE := by
          rw [not_or, hspace] at hfull
          omega
        rw [storeEvent_fill h pLog hroom fun hc => hfull hc.2]
        rw [not_or, hspace] at hfull
        exact ⟨_, _, rfl, h.fill hs hroom pLog,
          .filled hs hroom fun _ => ⟨by simpa using hfull.1, by omega⟩⟩
  · have hroom : l.length < EVENTQUESIZE := hfits (by omega)
    rw [if_neg hpos, Option.bind_some, if_neg (by decide),
      storeEvent_fill h pLog hroom fun hc => hpos hc.1]
    exact ⟨_, _, rfl, h.fill hs hroom pLog, .filled hs hroom fun hp => absurd hp hpos⟩

/-- The task, the semaphore and the flow control do not touch the ring. -/
theorem Consistent.control (flow ppend : Bool) (n : ℕ) (task : Task ι) :
    Consistent { q with flowCtrlMode := flow, ppendsem := ppend, signals := n, task := task } l :=
  ⟨h.ring, h.logged, h.npend, h.freed, h.last, h.canceled, h.duplicates⟩

theorem does_wake (htask : q.task = .waiting) : Does q l .event_task := by
  unfold Does
  rw [step_waiting htask]
  by_cases hsuspend : q.flowCtrlMode = true ∧ q.nDuplicates = 0
  · have hread : event_read { q with ppendsem := false } =
        { q with ppendsem := false, task := .waiting } := if_pos hsuspend
    rw [hread]
    exact ⟨_, l, rfl, h.control _ _ _ _, .suspended htask hsuspend.1 hsuspend.2⟩
  · have hread : event_read { q with ppendsem := false } =
        { q with ppendsem := false, task := .reading } := if_neg hsuspend
    rw [hread]
    exact ⟨_, l, rfl, h.control _ _ _ _, .started htask hsuspend⟩

end Specs

/-- The next entry to read. -/
theorem Consistent.head {slot : Slot ι} {log : Option (FieldLog α)}
    (h : Consistent q ((slot, log) :: l)) :
    q.evque q.getix = some slot ∧ q.valque q.getix = log := by
  have hslot := Consistent.slot (l := []) h
  rwa [List.length_nil, Nat.add_zero, Nat.mod_eq_of_lt h.ring.get_lt] at hslot

theorem does_empty (h : Consistent q ([] : List (Entry ι α))) (htask : q.task = .reading) :
    Does q [] .event_task := by
  have hget : q.evque q.getix = none := by
    have hcell := h.ring.get_cell
    unfold cell at hcell
    rwa [List.head?_nil, Option.map_eq_none_iff] at hcell
  have hstep : step q .event_task = some ({ q with task := .waiting }, none) := by
    rw [step_reading htask]
    unfold event_read_next
    rw [hget]
    rfl
  exact ⟨_, [], hstep, h.control _ _ _ _, .emptied htask rfl⟩

theorem does_skip {log : Option (FieldLog α)} (h : Consistent q ((.canceledEvent, log) :: l))
    (htask : q.task = .reading) : Does q ((.canceledEvent, log) :: l) .event_task := by
  have hpos : 0 < q.nCanceled := by
    rw [h.canceled, cancelled_canceled]
    exact Nat.succ_pos _
  have hstep : step q .event_task = some ({ setEntry q q.getix none none with
      getix := RNGINC q.getix
      nCanceled := q.nCanceled - 1 }, none) := by
    rw [step_reading htask]
    unfold event_read_next
    rw [h.head.1]
    dsimp only
    unfold assert
    rw [if_pos hpos]
    rfl
  exact ⟨_, l, hstep, h.pop_canceled, .skipped htask rfl⟩

theorem does_call {log : Option (FieldLog α)} (h : Consistent q ((.sub i, log) :: l))
    (ho : Orderly q) (htask : q.task = .reading) : Does q ((.sub i, log) :: l) .event_task := by
  obtain ⟨s, hs, hnpend⟩ := Consistent.sub_of_entry (l := []) h
  have huser : s.user_sub = true := by
    by_contra hnot
    have h0 := ho.gone i s hs (by simpa using hnot)
    omega
  rcases log with _ | log
  · -- an entry of a subscription has a log
    have hlogged := h.logged _ List.mem_cons_self
    simp at hlogged
  have hremove := event_remove_eq h.head.1 hs (by omega) (Consistent.counts (l := []) h hs).2 none
  have hown : (removed q q.getix none i s).sub i = some (lessPending s) :=
    Function.update_self _ _ _
  have hstep : step q .event_task = some (setSub { removed q q.getix none i s with
      getix := RNGINC q.getix
      task := .callBack i } i (some (inCallBack s)), some (i, log)) := by
    rw [step_reading htask]
    unfold event_read_next
    rw [h.head.1]
    dsimp only
    rw [hremove, h.head.2, Option.bind_eq_bind, Option.bind_some]
    rw [hown, Option.bind_eq_bind, Option.bind_some]
    have huser' : (lessPending s).user_sub = true := huser
    rw [if_pos huser']
    rfl
  refine ⟨_, l, hstep, ?_, .called htask rfl hs huser⟩
  have hpop := (h.pop_sub hs).control q.flowCtrlMode q.ppendsem q.signals (.callBack i)
  exact hpop.setSub_same hown rfl rfl

theorem does_return (h : Consistent q l) (ho : Orderly q) (htask : q.task = .callBack i) :
    Does q l .event_task := by
  obtain ⟨s, hs⟩ := Option.isSome_iff_exists.mp (ho.busy i htask)
  have hstep : step q .event_task = some
      (setSub { q with task := .reading } i (some { s with callBackInProgress := false }), none) := by
    rw [step_callBack htask]
    unfold call_back_done
    rw [hs]
    rfl
  refine ⟨_, l, hstep, ?_, .returned htask hs⟩
  exact (h.control q.flowCtrlMode q.ppendsem q.signals .reading).setSub_same hs rfl rfl

/-- **Every step goes through** that does not overrun the ring. -/
theorem step_does {a : Action ι α} (h : Consistent q l) (ho : Orderly q) (ha : Allowed q a)
    (hfits : Fits l a) : Does q l a := by
  cases a with
  | db_add_event i => exact does_add h ha
  | db_cancel_event i =>
    obtain ⟨s, hs⟩ := inUse_some ha
    exact does_cancel h hs.1
  | cancel_end i =>
    obtain ⟨s, hs, huser⟩ := inCancel_some ha
    exact does_cancel_end h ho hs huser
  | db_queue_event_log i pLog =>
    obtain ⟨s, hs⟩ := inUse_some ha
    exact does_event h hs.1 pLog hfits
  | event_task =>
    cases htask : q.task with
    | waiting => exact does_wake h htask
    | callBack i => exact does_return h ho htask
    | reading =>
      rcases l with _ | ⟨⟨slot, log⟩, l⟩
      · exact does_empty h htask
      · cases slot with
        | sub i => exact does_call h ho htask
        | canceledEvent => exact does_skip h htask
  | db_event_flow_ctrl_mode_on => exact ⟨_, l, rfl, h.control _ _ _ _, .flow_on⟩
  | db_event_flow_ctrl_mode_off => exact ⟨_, l, rfl, h.control _ _ _ _, .flow_off⟩
  | signal => exact ⟨_, l, rfl, h.control _ _ _ _, .signalled⟩

end RackmonIoc.Event
