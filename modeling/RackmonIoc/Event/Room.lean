import RackmonIoc.Event.Steps

/-!
# The room in an event queue

What the outcomes of the steps keep: the order of the threads, the quota of the subscriptions that are
allocated, and, if none is added when there are too many, a cell of the ring for the first event of each
subscription that has no entry (`Outcome.room`).
-/

namespace RackmonIoc.Event

open CLib

variable {ι α : Type} [DecidableEq ι] {q q' : EventUser ι α} {l l' : List (Entry ι α)} {i : ι}
  {s s' : EvSubscrip} {a : Action ι α} {r : EventUser ι α × Option (ι × FieldLog α)}
  {A A' : Finset ι}

/-! ### The order of the threads -/

namespace Orderly

omit [DecidableEq ι] in
theorem same (ho : Orderly q) (hsub : q'.sub = q.sub)
    (htask : ∀ j, q'.task = .callBack j ↔ q.task = .callBack j) : Orderly q' where
  task j t ht := (ho.task j t (hsub ▸ ht)).trans (htask j).symm
  busy j hj := hsub ▸ ho.busy j ((htask j).mp hj)
  gone j t ht := ho.gone j t (hsub ▸ ht)

/-- One subscription has changed. -/
theorem change (ho : Orderly q) (hother : ∀ j ≠ i, q'.sub j = q.sub j) (hown : q'.sub i = some s')
    (hcall : s'.callBackInProgress = true ↔ q'.task = .callBack i)
    (htask : ∀ j ≠ i, q'.task = .callBack j ↔ q.task = .callBack j)
    (hgone : s'.user_sub = false → s'.npend = 0) : Orderly q' where
  task j t ht := by
    by_cases hji : j = i
    · subst hji
      obtain rfl := Option.some.inj (hown.symm.trans ht)
      exact hcall
    · rw [hother j hji] at ht
      exact (ho.task j t ht).trans (htask j hji).symm
  busy j hj := by
    by_cases hji : j = i
    · rw [hji, hown]
      rfl
    · rw [hother j hji]
      exact ho.busy j ((htask j hji).mp hj)
  gone j t ht := by
    by_cases hji : j = i
    · subst hji
      obtain rfl := Option.some.inj (hown.symm.trans ht)
      exact hgone
    · rw [hother j hji] at ht
      exact ho.gone j t ht

/-- A subscription has been given back. -/
theorem free (ho : Orderly q) (hother : ∀ j ≠ i, q'.sub j = q.sub j) (hown : q'.sub i = none)
    (htask : q'.task = q.task) (hidle : q.task ≠ .callBack i) : Orderly q' where
  task j t ht := by
    by_cases hji : j = i
    · rw [hji, hown] at ht
      exact nomatch ht
    · rw [hother j hji] at ht
      rw [htask]
      exact ho.task j t ht
  busy j hj := by
    rw [htask] at hj
    have hji : j ≠ i := fun hji => hidle (hji ▸ hj)
    rw [hother j hji]
    exact ho.busy j hj
  gone j t ht := by
    by_cases hji : j = i
    · rw [hji, hown] at ht
      exact nomatch ht
    · rw [hother j hji] at ht
      exact ho.gone j t ht

end Orderly

/-- What a purge has left of the other subscriptions. -/
theorem Purged.other_of {t : EvSubscrip} (h : Purged i (setSub q i (some t)) q') {j : ι} (hj : j ≠ i) :
    q'.sub j = q.sub j :=
  (h.other j hj).trans (Function.update_of_ne hj _ _)

theorem Purged.own_of {t : EvSubscrip} (h : Purged i (setSub q i (some t)) q') :
    ∃ t', q'.sub i = some t' ∧ t'.user_sub = t.user_sub ∧
      t'.callBackInProgress = t.callBackInProgress :=
  h.own t (Function.update_self _ _ _)

theorem setSub_other {t : Option EvSubscrip} {j : ι} (hj : j ≠ i) : (setSub q i t).sub j = q.sub j :=
  Function.update_of_ne hj _ _

theorem setSub_own {t : Option EvSubscrip} : (setSub q i t).sub i = t := Function.update_self _ _ _

theorem freeSub_other {j : ι} (hj : j ≠ i) : (freeSub q i).sub j = q.sub j :=
  Function.update_of_ne hj _ _

theorem freeSub_own : (freeSub q i).sub i = none := Function.update_self _ _ _

theorem replaceLast_other {ix : ℕ} {pLog : FieldLog α} {j : ι} (hj : j ≠ i) :
    (replaceLast q i s ix pLog).sub j = q.sub j := by
  unfold replaceLast
  split_ifs <;> exact Function.update_of_ne hj _ _

theorem replaceLast_own {ix : ℕ} {pLog : FieldLog α} :
    (replaceLast q i s ix pLog).sub i = some { s with nreplace := s.nreplace + 1 } := by
  unfold replaceLast
  split_ifs <;> exact Function.update_self _ _ _

/-- A replacement changes the logs and the subscription only. -/
theorem replaceLast_eq (ix : ℕ) (pLog : FieldLog α) : ∃ evque valque sub,
    replaceLast q i s ix pLog = { q with evque := evque, valque := valque, sub := sub } := by
  unfold replaceLast
  split_ifs <;> exact ⟨_, _, _, rfl⟩

theorem replaceLast_task {ix : ℕ} {pLog : FieldLog α} :
    (replaceLast q i s ix pLog).task = q.task := by
  obtain ⟨evque, valque, sub, heq⟩ := replaceLast_eq (q := q) (i := i) (s := s) ix pLog
  rw [heq]

theorem replaceLast_quota {ix : ℕ} {pLog : FieldLog α} :
    (replaceLast q i s ix pLog).quota = q.quota := by
  obtain ⟨evque, valque, sub, heq⟩ := replaceLast_eq (q := q) (i := i) (s := s) ix pLog
  rw [heq]

theorem Outcome.orderly (hout : Outcome q l a r l') (ho : Orderly q) (ha : Allowed q a)
    (h' : Consistent r.1 l') : Orderly r.1 := by
  have hidle : ∀ i s, q.sub i = some s → s.callBackInProgress = false → q.task ≠ .callBack i := by
    intro i s hs hcall htask
    rw [(ho.task i s hs).mpr htask] at hcall
    exact nomatch hcall
  cases hout with
  | @added i hsub _ =>
    refine ho.change (i := i) (fun j hj => Function.update_of_ne hj _ _) (Function.update_self _ _ _)
      ⟨nofun, fun hc => ?_⟩ (fun _ _ => Iff.rfl) nofun
    have hbusy := ho.busy i hc
    rw [hsub] at hbusy
    exact nomatch hbusy
  | refused => exact ho
  | @cancelling i s q₁ hs hpurged _ =>
    obtain ⟨s₁, hs₁, -, hcall⟩ := hpurged.own_of
    refine ho.change (i := i) (fun j hj => hpurged.other_of hj) hs₁ ?_
      (fun j _ => by rw [hpurged.task]; rfl) fun _ => ?_
    · rw [hcall, hpurged.task]
      exact ho.task i s hs
    · exact (h'.npend i s₁ hs₁).trans (entries_cancelEntry i l)
  | @cancelled i s q₁ hs hpurged hcall =>
    exact ho.free (i := i) (fun j hj => (freeSub_other hj).trans (hpurged.other_of hj)) freeSub_own
      hpurged.task (hidle i s hs hcall)
  | waits => exact ho
  | @ended i s hs _ hcall =>
    exact ho.free (i := i) (fun j hj => freeSub_other hj) freeSub_own rfl (hidle i s hs hcall)
  | ignored => exact ho
  | @replaced i s pLog log k ix hs _ _ =>
    refine ho.change (i := i) (fun j hj => replaceLast_other hj) replaceLast_own ?_
      (fun j _ => by rw [replaceLast_task]) (ho.gone i s hs)
    rw [replaceLast_task]
    exact ho.task i s hs
  | @filled i s pLog hs _ _ =>
    obtain ⟨s', hs', huser⟩ := inUse_some ha
    obtain rfl := Option.some.inj (hs.symm.trans hs')
    refine ho.change (i := i) (fun j hj => Function.update_of_ne hj _ _) (Function.update_self _ _ _)
      (ho.task i s hs) (fun _ _ => Iff.rfl) fun hc => ?_
    exact nomatch huser.symm.trans hc
  | suspended htask _ _ => exact ho.same rfl fun j => by simp [htask]
  | started htask _ => exact ho.same rfl fun j => by simp [htask]
  | emptied htask _ => exact ho.same rfl fun j => by simp [htask]
  | skipped _ _ => exact ho.same rfl fun _ => Iff.rfl
  | @called i s log l' htask _ hs huser =>
    refine ho.change (i := i) (fun j hj => ?_) (Function.update_self _ _ _) ⟨fun _ => rfl, fun _ => rfl⟩
      (fun j hj => ?_) fun hc => ?_
    · exact (setSub_other hj).trans (setSub_other hj)
    · rw [htask]
      exact ⟨fun hc => absurd (Task.callBack.inj hc).symm hj, nofun⟩
    · exact nomatch huser.symm.trans hc
  | @returned i s htask hs =>
    refine ho.change (i := i) (fun j hj => Function.update_of_ne hj _ _) (Function.update_self _ _ _)
      ⟨nofun, nofun⟩ (fun j hj => ?_) (ho.gone i s hs)
    rw [htask]
    exact ⟨nofun, fun hc => absurd (Task.callBack.inj hc).symm hj⟩
  | flow_on => exact ho.same rfl fun _ => Iff.rfl
  | flow_off => exact ho.same rfl fun _ => Iff.rfl
  | signalled => exact ho.same rfl fun _ => Iff.rfl

/-! ### The quota -/

/-- `A` are the subscriptions that are allocated, and the quota is for them. -/
structure Users (q : EventUser ι α) (A : Finset ι) : Prop where
  mem : ∀ j, j ∈ A ↔ (q.sub j).isSome
  quota : q.quota = EVENTENTRIES * A.card
  few : A.card < EVENTSPERQUE

namespace Users

omit [DecidableEq ι] in
theorem same (hu : Users q A) (hsome : ∀ j, (q'.sub j).isSome = (q.sub j).isSome)
    (hquota : q'.quota = q.quota) : Users q' A where
  mem j := by rw [hsome, hu.mem]
  quota := hquota.trans hu.quota
  few := hu.few

/-- One subscription has changed. -/
theorem change (hu : Users q A) (hother : ∀ j ≠ i, q'.sub j = q.sub j) (hs : q.sub i = some s)
    (hown : q'.sub i = some s') (hquota : q'.quota = q.quota) : Users q' A := by
  refine hu.same (fun j => ?_) hquota
  by_cases hji : j = i
  · rw [hji, hown, hs]
    rfl
  · rw [hother j hji]

theorem free (hu : Users q A) (hother : ∀ j ≠ i, q'.sub j = q.sub j) (hs : q.sub i = some s)
    (hown : q'.sub i = none) (hquota : q'.quota = q.quota - EVENTENTRIES) :
    Users q' (A.erase i) where
  mem j := by
    rw [Finset.mem_erase, hu.mem]
    by_cases hji : j = i
    · simp [hji, hown]
    · rw [hother j hji]
      simp [hji]
  quota := by
    have hmem : i ∈ A := by
      rw [hu.mem, hs]
      rfl
    rw [hquota, hu.quota, Finset.card_erase_of_mem hmem, Nat.mul_sub, Nat.mul_one]
  few := Nat.lt_of_le_of_lt (Finset.card_erase_le) hu.few

theorem add (hu : Users q A) (hsub : q.sub i = none)
    (hquota : q.quota + q.nCanceled < EVENTQUESIZE - EVENTENTRIES) (s : EvSubscrip) :
    Users (setSub { q with quota := q.quota + EVENTENTRIES } i (some s)) (insert i A) := by
  have hnot : i ∉ A := by
    rw [hu.mem, hsub]
    exact nofun
  have hcard := Finset.card_insert_of_notMem hnot
  refine ⟨fun j => ?_, ?_, ?_⟩
  · rw [Finset.mem_insert, hu.mem]
    by_cases hji : j = i
    · simp [hji, setSub]
    · simp [hji, setSub]
  · show q.quota + EVENTENTRIES = _
    rw [hu.quota, hcard, Nat.mul_add, Nat.mul_one]
  · have hq := hu.quota
    have hsize : EVENTQUESIZE = 128 ∧ EVENTENTRIES = 4 ∧ EVENTSPERQUE = 32 := ⟨rfl, rfl, rfl⟩
    rw [hsize.2.1] at hq hquota
    omega

end Users

theorem Outcome.users (hout : Outcome q l a r l') (hu : Users q A) : ∃ A', Users r.1 A' := by
  cases hout with
  | added hsub hquota => exact ⟨_, hu.add hsub hquota _⟩
  | @cancelling i s q₁ hs hpurged _ =>
    obtain ⟨s₁, hs₁, -⟩ := hpurged.own_of
    exact ⟨A, hu.change (fun j hj => hpurged.other_of hj) hs hs₁ hpurged.quota⟩
  | @cancelled i s q₁ hs hpurged _ =>
    exact ⟨_, hu.free (fun j hj => (freeSub_other hj).trans (hpurged.other_of hj)) hs freeSub_own
      (congrArg (· - EVENTENTRIES) hpurged.quota)⟩
  | ended hs _ _ => exact ⟨_, hu.free (fun j hj => freeSub_other hj) hs freeSub_own rfl⟩
  | @replaced i s pLog log k ix hs _ _ =>
    exact ⟨A, hu.change (fun j hj => replaceLast_other hj) hs replaceLast_own replaceLast_quota⟩
  | filled hs _ _ =>
    exact ⟨A, hu.change (fun j hj => Function.update_of_ne hj _ _) hs (Function.update_self _ _ _) rfl⟩
  | called _ _ hs _ =>
    exact ⟨A, hu.change (fun j hj => (setSub_other hj).trans (setSub_other hj)) hs setSub_own rfl⟩
  | returned _ hs =>
    exact ⟨A, hu.change (fun j hj => Function.update_of_ne hj _ _) hs (Function.update_self _ _ _) rfl⟩
  | _ => exact ⟨A, hu.mem, hu.quota, hu.few⟩

/-! ### The room -/

/-- The next event of the subscription will be its first one. -/
def isIdle : Option EvSubscrip → Bool
  | some s => s.user_sub && s.npend == 0
  | none => false

theorem isIdle_unused (h : s.user_sub = false) : isIdle (some s) = false := by
  show (s.user_sub && s.npend == 0) = false
  rw [h]
  rfl

/-- The subscriptions that have room to get. -/
def idle (q : EventUser ι α) (A : Finset ι) : Finset ι := A.filter fun j => isIdle (q.sub j)

/-- The ring takes the first events of all of them. -/
def Room (q : EventUser ι α) (l : List (Entry ι α)) (A : Finset ι) : Prop :=
  (idle q A).card + l.length ≤ EVENTQUESIZE

omit [DecidableEq ι] in
theorem mem_idle (hu : Users q A) {j : ι} : j ∈ idle q A ↔ isIdle (q.sub j) := by
  unfold idle
  rw [Finset.mem_filter, hu.mem, and_iff_right_iff_imp]
  rcases q.sub j with _ | s
  · exact nofun
  · exact fun _ => rfl

/-- A subscription that waits is not idle. -/
theorem idle_card_le (h : Consistent q l) (hu : Users q A) :
    (idle q A).card + (waiting l).card ≤ A.card := by
  have hdisjoint : Disjoint (idle q A) (waiting l) := by
    rw [Finset.disjoint_left]
    intro j hj hwait
    rw [mem_idle hu] at hj
    rw [mem_waiting] at hwait
    rcases hs : q.sub j with _ | s
    · rw [hs] at hj
      exact nomatch hj
    · have hnpend := h.npend j s hs
      simp only [hs, isIdle, Bool.and_eq_true, beq_iff_eq] at hj
      omega
  rw [← Finset.card_union_of_disjoint hdisjoint]
  refine Finset.card_le_card (Finset.union_subset (Finset.filter_subset _ _) fun j hj => ?_)
  rw [hu.mem]
  by_contra hnone
  have h0 := h.freed j (by simpa using hnone)
  have hpos := mem_waiting.mp hj
  omega

omit [DecidableEq ι] in
theorem idle_mono (hu : Users q A) (hu' : Users q' A')
    (hidle : ∀ j, isIdle (q'.sub j) → isIdle (q.sub j)) : (idle q' A').card ≤ (idle q A).card := by
  refine Finset.card_le_card fun j hj => ?_
  rw [mem_idle hu'] at hj
  rw [mem_idle hu]
  exact hidle j hj

/-- Only `i` can have become idle. -/
theorem idle_grows (hu : Users q A) (hu' : Users q' A')
    (hidle : ∀ j ≠ i, q'.sub j = q.sub j) : (idle q' A').card ≤ (idle q A).card + 1 := by
  refine (Finset.card_le_card (t := insert i (idle q A)) fun j hj => ?_).trans
    (Finset.card_insert_le i _)
  rw [mem_idle hu'] at hj
  rw [Finset.mem_insert, mem_idle hu]
  by_cases hji : j = i
  · exact .inl hji
  · rw [hidle j hji] at hj
    exact .inr hj

/-- `i` is not idle any more. -/
theorem idle_shrinks (hu : Users q A) (hu' : Users q' A') (hidle : ∀ j ≠ i, q'.sub j = q.sub j)
    (hbefore : isIdle (q.sub i)) (hafter : isIdle (q'.sub i) = false) :
    (idle q' A').card + 1 ≤ (idle q A).card := by
  have hmem : i ∈ idle q A := (mem_idle hu).mpr hbefore
  rw [← Finset.card_erase_add_one hmem]
  refine Nat.succ_le_succ (Finset.card_le_card fun j hj => ?_)
  rw [mem_idle hu'] at hj
  have hji : j ≠ i := by
    rintro rfl
    rw [hafter] at hj
    exact nomatch hj
  rw [Finset.mem_erase, mem_idle hu, ← hidle j hji]
  exact ⟨hji, hj⟩

/-- A change of one subscription that does not make it idle. -/
theorem idle_of_change (hu : Users q A) (hu' : Users q' A') (hidle : ∀ j ≠ i, q'.sub j = q.sub j)
    (hown : isIdle (q'.sub i) → isIdle (q.sub i)) : (idle q' A').card ≤ (idle q A).card := by
  refine idle_mono hu hu' fun j hj => ?_
  by_cases hji : j = i
  · exact hji ▸ hown (hji ▸ hj)
  · rwa [hidle j hji] at hj

/-- There are not many events that are not the first one of their subscription. -/
theorem Outcome.duplicates (hout : Outcome q l a r l') (h : Consistent q l)
    (hdup : q.nDuplicates < EVENTQUESIZE - EVENTSPERQUE) :
    r.1.nDuplicates < EVENTQUESIZE - EVENTSPERQUE := by
  have hremoved : ∀ (ix : ℕ) (slot : Option (Slot ι)) (i : ι) (s : EvSubscrip),
      (removed q ix slot i s).nDuplicates ≤ q.nDuplicates := by
    intro ix slot i s
    show (if s.npend = 1 then q.nDuplicates else q.nDuplicates - 1) ≤ q.nDuplicates
    split_ifs <;> omega
  cases hout with
  | cancelling _ hpurged _ => exact Nat.lt_of_le_of_lt hpurged.duplicates hdup
  | cancelled _ hpurged _ => exact Nat.lt_of_le_of_lt hpurged.duplicates hdup
  | @replaced i s pLog log k ix hs _ _ =>
    obtain ⟨evque, valque, sub, heq⟩ := replaceLast_eq (q := q) (i := i) (s := s) ix pLog
    rw [heq]
    exact hdup
  | @filled i s pLog hs _ hspace =>
    show (if 0 < s.npend then q.nDuplicates + 1 else q.nDuplicates) < _
    split_ifs with hpos
    · -- the subscription waits, and the ring is not yet filled up to the spare cells
      have hwait : 0 < (waiting l).card := by
        rw [Finset.card_pos]
        exact ⟨i, mem_waiting.mpr (by rwa [← h.npend i s hs])⟩
      have hcount := h.duplicates
      have hroom := (hspace hpos).2
      omega
    · exact hdup
  | @called i s log l' _ _ _ _ => exact Nat.lt_of_le_of_lt (hremoved q.getix none i s) hdup
  | _ => exact hdup

/-- A subscription is added only when there are few enough. -/
def RoomToAdd (q : EventUser ι α) : Action ι α → Prop
  | .db_add_event _ => q.quota + q.nCanceled < EVENTQUESIZE - EVENTENTRIES →
      q.quota / EVENTENTRIES + q.nCanceled ≤ EVENTSPERQUE
  | _ => True

theorem Outcome.room (hout : Outcome q l a r l') (h : Consistent q l) (hu : Users q A)
    (hu' : Users r.1 A') (ha : Allowed q a) (hadd : RoomToAdd q a)
    (hdup : q.nDuplicates < EVENTQUESIZE - EVENTSPERQUE) (hroom : Room q l A) : Room r.1 l' A' := by
  have hsize : EVENTQUESIZE = 128 ∧ EVENTENTRIES = 4 ∧ EVENTSPERQUE = 32 := ⟨rfl, rfl, rfl⟩
  have hcard := idle_card_le h hu
  have hcount := h.duplicates
  have hfew := hu'.few
  have hkeep : (idle r.1 A').card ≤ (idle q A).card → l'.length ≤ l.length → Room r.1 l' A' :=
    fun hidle hlen => (Nat.add_le_add hidle hlen).trans hroom
  unfold Room at hroom ⊢
  cases hout with
  | @added i hsub hquota =>
    have hgrows := idle_grows hu hu' (i := i) fun j hj => Function.update_of_ne hj _ _
    have hfits := hadd hquota
    rw [hu.quota, Nat.mul_div_cancel_left _ (by decide)] at hfits
    omega
  | @cancelling i s q₁ hs hpurged _ =>
    obtain ⟨s₁, hs₁, huser, -⟩ := hpurged.own_of
    refine hkeep (idle_of_change hu hu' (i := i) (fun j hj => hpurged.other_of hj) ?_)
      (Nat.le_of_eq (List.length_map _))
    show isIdle (q₁.sub i) → _
    rw [hs₁, isIdle_unused huser]
    exact nofun
  | @cancelled i s q₁ hs hpurged _ =>
    refine hkeep (idle_of_change hu hu' (i := i)
      (fun j hj => (freeSub_other hj).trans (hpurged.other_of hj)) ?_) (Nat.le_of_eq (List.length_map _))
    rw [freeSub_own]
    exact nofun
  | @ended i s hs _ _ =>
    refine hkeep (idle_of_change hu hu' (i := i) (fun j hj => freeSub_other hj) ?_) le_rfl
    rw [freeSub_own]
    exact nofun
  | @replaced i s pLog log k ix hs _ _ =>
    refine hkeep (idle_of_change hu hu' (i := i) (fun j hj => replaceLast_other hj) ?_)
      (Nat.le_of_eq (List.length_set))
    rw [replaceLast_own, hs]
    exact id
  | @filled i s pLog hs _ hspace =>
    rw [List.length_append, List.length_singleton]
    show (idle (fillEntry q i s pLog) A').card + (l.length + 1) ≤ EVENTQUESIZE
    by_cases hpos : 0 < s.npend
    · have hlen := (hspace hpos).2
      have hle : (idle (fillEntry q i s pLog) A').card ≤ A'.card := Finset.card_filter_le _ _
      omega
    · obtain ⟨s', hs', huser⟩ := inUse_some ha
      obtain rfl := Option.some.inj (hs.symm.trans hs')
      have hbefore : isIdle (q.sub i) := by
        rw [hs]
        simp only [isIdle, huser, Bool.true_and, beq_iff_eq]
        omega
      have hshrinks : (idle (fillEntry q i s pLog) A').card + 1 ≤ (idle q A).card :=
        idle_shrinks hu hu' (i := i) (fun j hj => Function.update_of_ne hj _ _) hbefore
          (by simp [fillEntry, setSub, isIdle])
      omega
  | @called i s log l' _ hl _ _ =>
    have hgrows := idle_grows hu hu' (i := i) fun j hj =>
      (setSub_other hj).trans (setSub_other hj)
    rw [hl, List.length_cons] at hroom
    omega
  | @returned i s _ hs =>
    refine hkeep (idle_of_change hu hu' (i := i) (fun j hj => Function.update_of_ne hj _ _) ?_) le_rfl
    simp only [setSub, Function.update_self, hs]
    exact id
  | @skipped log l' _ hl =>
    refine hkeep (idle_mono hu hu' fun j hj => hj) ?_
    rw [hl, List.length_cons]
    exact Nat.le_succ _
  | _ => exact hkeep (idle_mono hu hu' fun j hj => hj) le_rfl

end RackmonIoc.Event
