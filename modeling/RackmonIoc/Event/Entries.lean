import Mathlib.Data.Finset.Card
import RackmonIoc.Event.Queue

/-!
# The entries of an event queue

The ring of a queue as a list of entries, `Consistent`, with what the counters of the queue and of its
subscriptions say of the list; and what the functions that change the ring do to the list.
-/

namespace RackmonIoc.Event

open CLib

/-! ### Counting -/

/-- An entry with its log. -/
abbrev Entry (ι α : Type) := Slot ι × Option (FieldLog α)

def Slot.owner {ι : Type} : Slot ι → Option ι
  | sub i => some i
  | canceledEvent => none

section Counting

variable {ι α : Type} [DecidableEq ι]

/-- The number of entries of a subscription. -/
def entries (i : ι) (l : List (Entry ι α)) : ℕ := (l.map Prod.fst).count (.sub i)

/-- The number of entries that have been cancelled. -/
def cancelled (l : List (Entry ι α)) : ℕ := (l.map Prod.fst).count .canceledEvent

/-- The subscriptions that have entries. -/
def waiting (l : List (Entry ι α)) : Finset ι := ((l.map Prod.fst).filterMap Slot.owner).toFinset

theorem mem_waiting {i : ι} {l : List (Entry ι α)} : i ∈ waiting l ↔ 0 < entries i l := by
  have howner : ∀ slot : Slot ι, slot.owner = some i ↔ slot = .sub i := by
    intro slot
    cases slot <;> simp [Slot.owner]
  unfold waiting entries
  rw [List.mem_toFinset, List.mem_filterMap, List.count_pos_iff]
  simp only [howner, exists_eq_right]

@[simp] theorem entries_nil (i : ι) : entries i ([] : List (Entry ι α)) = 0 := rfl
@[simp] theorem cancelled_nil : cancelled ([] : List (Entry ι α)) = 0 := rfl
@[simp] theorem waiting_nil : waiting ([] : List (Entry ι α)) = ∅ := rfl

theorem entries_append (i : ι) (l m : List (Entry ι α)) :
    entries i (l ++ m) = entries i l + entries i m := by
  unfold entries
  rw [List.map_append, List.count_append]

theorem cancelled_append (l m : List (Entry ι α)) :
    cancelled (l ++ m) = cancelled l + cancelled m := by
  unfold cancelled
  rw [List.map_append, List.count_append]

theorem waiting_append (l m : List (Entry ι α)) : waiting (l ++ m) = waiting l ∪ waiting m := by
  unfold waiting
  rw [List.map_append, List.filterMap_append, List.toFinset_append]

theorem entries_sub (i j : ι) (log : Option (FieldLog α)) (l : List (Entry ι α)) :
    entries i ((.sub j, log) :: l) = entries i l + if j = i then 1 else 0 := by
  unfold entries
  rw [List.map_cons, List.count_cons]
  congr 1
  by_cases h : j = i <;> simp [h]

@[simp] theorem entries_canceled (i : ι) (log : Option (FieldLog α)) (l : List (Entry ι α)) :
    entries i ((.canceledEvent, log) :: l) = entries i l := by
  unfold entries
  rw [List.map_cons, List.count_cons]
  simp

@[simp] theorem cancelled_sub (i : ι) (log : Option (FieldLog α)) (l : List (Entry ι α)) :
    cancelled ((.sub i, log) :: l) = cancelled l := by
  unfold cancelled
  rw [List.map_cons, List.count_cons]
  simp

@[simp] theorem cancelled_canceled (log : Option (FieldLog α)) (l : List (Entry ι α)) :
    cancelled ((.canceledEvent, log) :: l) = cancelled l + 1 := by
  unfold cancelled
  rw [List.map_cons, List.count_cons]
  simp

@[simp] theorem waiting_sub (i : ι) (log : Option (FieldLog α)) (l : List (Entry ι α)) :
    waiting ((.sub i, log) :: l) = insert i (waiting l) := by
  have howner : (Slot.sub i).owner = some i := rfl
  unfold waiting
  rw [List.map_cons, List.filterMap_cons_some howner, List.toFinset_cons]

@[simp] theorem waiting_canceled (log : Option (FieldLog α)) (l : List (Entry ι α)) :
    waiting ((.canceledEvent, log) :: l) = waiting l := by
  unfold waiting
  rw [List.map_cons, List.filterMap_cons_none rfl]

/-- No more subscriptions wait than there are entries. -/
theorem waiting_card_le (l : List (Entry ι α)) : (waiting l).card + cancelled l ≤ l.length := by
  induction l with
  | nil => exact Nat.le_refl 0
  | cons e l ih =>
    obtain ⟨slot, log⟩ := e
    cases slot with
    | sub i =>
      have hcard := Finset.card_insert_le i (waiting l)
      rw [waiting_sub, cancelled_sub, List.length_cons]
      omega
    | canceledEvent =>
      rw [waiting_canceled, cancelled_canceled, List.length_cons]
      omega

/-- The subscriptions that wait, without one entry of `i`. -/
theorem card_waiting_split (i : ι) (log : Option (FieldLog α)) (l m : List (Entry ι α)) :
    (waiting (l ++ (.sub i, log) :: m)).card =
      (waiting (l ++ m)).card + if entries i (l ++ m) = 0 then 1 else 0 := by
  have hinsert : waiting (l ++ (.sub i, log) :: m) = insert i (waiting (l ++ m)) := by
    rw [waiting_append, waiting_append, waiting_sub, Finset.union_insert]
  rw [hinsert]
  by_cases h : entries i (l ++ m) = 0
  · have hnot : i ∉ waiting (l ++ m) := fun hmem => absurd (mem_waiting.mp hmem) (by omega)
    rw [if_pos h, Finset.card_insert_of_notMem hnot]
  · rw [if_neg h, Finset.insert_eq_of_mem (mem_waiting.mpr (by omega))]
    rfl

/-- The counts depend on the slots only. -/
theorem counts_of_slots {l m : List (Entry ι α)} (h : l.map Prod.fst = m.map Prod.fst) :
    (∀ i, entries i l = entries i m) ∧ cancelled l = cancelled m ∧ waiting l = waiting m := by
  unfold entries cancelled waiting
  rw [h]
  exact ⟨fun _ => rfl, rfl, rfl⟩

end Counting

/-! ### The ring as a list -/

section Cell

variable {ι α : Type}

/-- A cell of the ring. -/
def cell (q : EventUser ι α) (ix : ℕ) : Option (Entry ι α) :=
  (q.evque ix).map fun slot => (slot, q.valque ix)

theorem cell_setEntry (q : EventUser ι α) (ix : ℕ) (slot : Option (Slot ι))
    (log : Option (FieldLog α)) :
    cell (setEntry q ix slot log) = Function.update (cell q) ix (slot.map fun s => (s, log)) := by
  funext j
  unfold cell setEntry
  by_cases h : j = ix
  · subst h
    simp
  · simp [h]

end Cell

section Consistent

variable {ι α : Type} [DecidableEq ι]

/-- `pLastLog` is the place of the last entry of the subscription. -/
def LastLog (getix : ℕ) (l : List (Entry ι α)) (i : ι) (ix : Option ℕ) : Prop :=
  ∃ (k : ℕ) (log : _), l[k]? = some (.sub i, log) ∧ ix = some ((getix + k) % EVENTQUESIZE) ∧
    ∀ m log', k < m → l[m]? ≠ some (.sub i, log')

/-- The ring holds the list, and the counters count it. -/
structure Consistent (q : EventUser ι α) (l : List (Entry ι α)) : Prop where
  ring : Ring EVENTQUESIZE (cell q) q.getix q.putix l
  logged : ∀ e ∈ l, e.2 = none ↔ e.1 = .canceledEvent
  npend : ∀ i s, q.sub i = some s → s.npend = entries i l
  freed : ∀ i, q.sub i = none → entries i l = 0
  last : ∀ i s, q.sub i = some s → 0 < s.npend → LastLog q.getix l i s.pLastLog
  canceled : q.nCanceled = cancelled l
  duplicates : q.nDuplicates + q.nCanceled + (waiting l).card = l.length

theorem consistent_init : Consistent (db_init_events : EventUser ι α) [] where
  ring := .empty (by decide)
  logged := by simp
  npend _ _ h := nomatch h
  freed _ _ := rfl
  last _ _ h := nomatch h
  canceled := rfl
  duplicates := rfl

theorem ringSpace_eq {q : EventUser ι α} {l : List (Entry ι α)} (h : Consistent q l) :
    ringSpace q = EVENTQUESIZE - l.length := by
  have hcell : ∀ ix, (q.evque ix).isNone = (cell q ix).isNone := by
    intro ix
    unfold cell
    rw [Option.isNone_map]
  have hspace : ringSpace q = ringFree EVENTQUESIZE (cell q) q.getix q.putix := by
    unfold ringSpace ringFree
    rw [hcell]
  rw [hspace, h.ring.free]

/-- What stands in the ring. -/
theorem Consistent.slot {q : EventUser ι α} {l m : List (Entry ι α)} {slot : Slot ι}
    {log : Option (FieldLog α)} (h : Consistent q (l ++ (slot, log) :: m)) :
    q.evque ((q.getix + l.length) % EVENTQUESIZE) = some slot ∧
      q.valque ((q.getix + l.length) % EVENTQUESIZE) = log := by
  have hget := h.ring.holds_get (k := l.length) (by simp)
  rw [List.getElem_append_right (Nat.le_refl _)] at hget
  simp only [Nat.sub_self, List.getElem_cons_zero] at hget
  unfold cell at hget
  obtain ⟨slot', hslot, heq⟩ := Option.map_eq_some_iff.mp hget
  obtain ⟨rfl, rfl⟩ := Prod.mk.inj heq
  exact ⟨hslot, rfl⟩

end Consistent

/-! ### What happens to an entry -/

section Lists

variable {A : Type} {l m : List A} {a b : A} {k : ℕ}

theorem getElem?_split (l m : List A) (a : A) : (l ++ a :: m)[l.length]? = some a := by
  rw [List.getElem?_append_right (Nat.le_refl _), Nat.sub_self]
  rfl

theorem getElem?_split_ne (h : k ≠ l.length) : (l ++ a :: m)[k]? = (l ++ b :: m)[k]? := by
  have hset : l ++ a :: m = (l ++ b :: m).set l.length a := by
    rw [List.set_append_right _ _ (Nat.le_refl _), Nat.sub_self]
    rfl
  rw [hset, List.getElem?_set_ne (Ne.symm h)]

end Lists

section LastLog

variable {ι α : Type} {l : List (Entry ι α)} {i j : ι} {log : Option (FieldLog α)} {getix : ℕ}
  {ix : Option ℕ} {e : Entry ι α}

/-- An entry of another subscription is written. -/
theorem LastLog.push (h : LastLog getix l j ix) (he : e.1 ≠ .sub j) :
    LastLog getix (l ++ [e]) j ix := by
  obtain ⟨k, log, hk, rfl, hlast⟩ := h
  have hlt : k < l.length := List.getElem?_eq_some_iff.mp hk |>.1
  refine ⟨k, log, by rw [List.getElem?_append_left hlt, hk], rfl, fun m log' hm hml => ?_⟩
  by_cases hml' : m < l.length
  · rw [List.getElem?_append_left hml'] at hml
    exact hlast m log' hm hml
  · rw [List.getElem?_append_right (by omega), List.getElem?_singleton] at hml
    split_ifs at hml
    exact he (congrArg Prod.fst (Option.some.inj hml))

/-- The entry that has just been written. -/
theorem LastLog.push_self (getix : ℕ) (l : List (Entry ι α)) (j : ι) (log : Option (FieldLog α)) :
    LastLog getix (l ++ [(.sub j, log)]) j (some ((getix + l.length) % EVENTQUESIZE)) := by
  refine ⟨l.length, log, getElem?_split l [] _, rfl, fun m log' hm => ?_⟩
  rw [List.getElem?_eq_none (by simp; omega)]
  simp

/-- A log is replaced. -/
theorem LastLog.set (h : LastLog getix l j ix) {k : ℕ} {log' : Option (FieldLog α)}
    (hk : l[k]? = some (.sub i, log)) : LastLog getix (l.set k (.sub i, log')) j ix := by
  have hlt : k < l.length := List.getElem?_eq_some_iff.mp hk |>.1
  obtain ⟨k', log₁, hk', rfl, hlast⟩ := h
  by_cases hkk : k' = k
  · subst hkk
    obtain ⟨hij, -⟩ := Prod.mk.inj (Option.some.inj (hk.symm.trans hk'))
    obtain rfl := Slot.sub.inj hij
    refine ⟨k', log', List.getElem?_set_self hlt, rfl, fun m log₂ hm hml => ?_⟩
    rw [List.getElem?_set_ne (by omega)] at hml
    exact hlast m log₂ hm hml
  · refine ⟨k', log₁, by rw [List.getElem?_set_ne (Ne.symm hkk), hk'], rfl, fun m log₂ hm hml => ?_⟩
    by_cases hmk : k = m
    · subst hmk
      rw [List.getElem?_set_self hlt] at hml
      obtain ⟨hij, -⟩ := Prod.mk.inj (Option.some.inj hml)
      obtain rfl := Slot.sub.inj hij
      exact hlast k log hm hk
    · rw [List.getElem?_set_ne hmk] at hml
      exact hlast m log₂ hm hml

end LastLog

section Entries

variable {ι α : Type} [DecidableEq ι] {q : EventUser ι α} {l m : List (Entry ι α)} {i j : ι}
  {s : EvSubscrip} {log : Option (FieldLog α)}

theorem entries_pos : 0 < entries i l ↔ ∃ (k : ℕ) (log : _), l[k]? = some (.sub i, log) := by
  unfold entries
  rw [List.count_pos_iff, List.mem_map]
  constructor
  · rintro ⟨⟨slot, log⟩, he, rfl⟩
    obtain ⟨k, hk⟩ := List.mem_iff_getElem?.mp he
    exact ⟨k, log, hk⟩
  · rintro ⟨k, log, hk⟩
    exact ⟨_, List.mem_of_getElem? hk, rfl⟩

/-- An entry of a subscription that is allocated. -/
theorem Consistent.sub_of_entry (h : Consistent q (l ++ (.sub i, log) :: m)) :
    ∃ s, q.sub i = some s ∧ s.npend = entries i (l ++ m) + 1 := by
  have hentries : entries i (l ++ (.sub i, log) :: m) = entries i (l ++ m) + 1 := by
    rw [entries_append, entries_append, entries_sub, if_pos rfl, Nat.add_assoc]
  rcases hs : q.sub i with _ | s
  · have h0 := h.freed i hs
    omega
  · exact ⟨s, rfl, (h.npend i s hs).trans hentries⟩

/-- The subscription after one of its entries has been removed. -/
def lessPending (s : EvSubscrip) : EvSubscrip :=
  { s with pLastLog := if s.npend = 1 then none else s.pLastLog, npend := s.npend - 1 }

/-- The queue after an entry of `i` has been removed. -/
def removed (q : EventUser ι α) (index : ℕ) (placeHolder : Option (Slot ι)) (i : ι)
    (s : EvSubscrip) : EventUser ι α :=
  setSub { setEntry q index placeHolder none with
    nDuplicates := if s.npend = 1 then q.nDuplicates else q.nDuplicates - 1 } i (some (lessPending s))

theorem event_remove_eq {index : ℕ} (hslot : q.evque index = some (.sub i)) (hs : q.sub i = some s)
    (hpos : 0 < s.npend) (hdup : 1 < s.npend → 1 ≤ q.nDuplicates)
    (placeHolder : Option (Slot ι)) :
    event_remove q index placeHolder = some (removed q index placeHolder i s) := by
  unfold event_remove
  rw [hslot]
  dsimp only
  rw [hs, Option.bind_eq_bind, Option.bind_some]
  unfold removed lessPending
  by_cases h1 : s.npend = 1
  · rw [if_pos h1, if_pos h1, if_pos h1]
    rfl
  · have hlt : 1 < s.npend := by omega
    have hdup' : 1 ≤ (setEntry q index placeHolder none).nDuplicates := hdup hlt
    rw [if_neg h1, if_neg h1, if_neg h1]
    unfold assert
    rw [if_pos hlt, if_pos hdup']
    rfl

/-- The entries of the ring, without one of `i`. -/
theorem Consistent.counts (h : Consistent q (l ++ (.sub i, log) :: m)) (hs : q.sub i = some s) :
    (if s.npend = 1 then q.nDuplicates else q.nDuplicates - 1) + q.nCanceled +
        (waiting (l ++ m)).card = (l ++ m).length ∧
      (1 < s.npend → 1 ≤ q.nDuplicates) := by
  obtain ⟨s', hs', hnpend⟩ := h.sub_of_entry
  obtain rfl := Option.some.inj (hs.symm.trans hs')
  have hdup := h.duplicates
  have hcard := card_waiting_split i log l m
  have hle := waiting_card_le (l ++ m)
  have hcanceled := h.canceled
  rw [cancelled_append, cancelled_sub, ← cancelled_append] at hcanceled
  rw [List.length_append, List.length_cons] at hdup
  rw [List.length_append] at hle ⊢
  split_ifs at hcard ⊢ <;> omega

section Last

variable {getix : ℕ} {ix : Option ℕ} {e e' : Entry ι α}

/-- The first entry is read, and there is another one. -/
theorem LastLog.pop (hget : getix < EVENTQUESIZE) (h : LastLog getix (e :: l) j ix)
    (hpos : 0 < entries j l) : LastLog (RNGINC getix) l j ix := by
  obtain ⟨k, log, hk, rfl, hlast⟩ := h
  rcases k with _ | k
  · obtain ⟨k', log', hk'⟩ := entries_pos.mp hpos
    exact absurd hk' (hlast (k' + 1) log' (Nat.succ_pos k'))
  · refine ⟨k, log, hk, ?_, fun m log' hm hml => hlast (m + 1) log' (by omega) hml⟩
    unfold RNGINC
    rw [ringInc_eq hget, Nat.mod_add_mod, Nat.add_assoc, Nat.add_comm 1]

/-- An entry is cancelled that is not the last one of the subscription. -/
theorem LastLog.split (h : LastLog getix (l ++ e :: m) j ix) (he : e.1 ≠ .sub j ∨ 0 < entries j m)
    (he' : e'.1 ≠ .sub j) : LastLog getix (l ++ e' :: m) j ix := by
  obtain ⟨k, log, hk, rfl, hlast⟩ := h
  have hne : k ≠ l.length := by
    rintro rfl
    rw [getElem?_split] at hk
    rcases he with he | hpos
    · exact he (congrArg Prod.fst (Option.some.inj hk))
    · obtain ⟨k', log', hk'⟩ := entries_pos.mp hpos
      refine hlast (l.length + (k' + 1)) log' (by omega) ?_
      rw [List.getElem?_append_right (by omega), Nat.add_sub_cancel_left]
      exact hk'
  refine ⟨k, log, by rw [getElem?_split_ne hne, hk], rfl, fun m' log' hm hml => ?_⟩
  by_cases hm' : m' = l.length
  · subst hm'
    rw [getElem?_split] at hml
    exact he' (congrArg Prod.fst (Option.some.inj hml))
  · rw [getElem?_split_ne hm'] at hml
    exact hlast m' log' hm hml

end Last

/-! ### The functions on the list -/

/-- Where the ring holds a new list and one subscription has changed, it is enough to look at that one, and
at the places of the last entries of the other ones. -/
theorem Consistent.change {q' : EventUser ι α} {l' : List (Entry ι α)} {s' : EvSubscrip}
    (h : Consistent q l) (hsub : q'.sub = Function.update q.sub i (some s'))
    (hring : Ring EVENTQUESIZE (cell q') q'.getix q'.putix l')
    (hlogged : ∀ e ∈ l', e ∈ l ∨ (e.2 = none ↔ e.1 = .canceledEvent))
    (hown : s'.npend = entries i l') (hother : ∀ j ≠ i, entries j l' = entries j l)
    (hlast : 0 < s'.npend → LastLog q'.getix l' i s'.pLastLog)
    (hlasts : ∀ j ≠ i, ∀ ix, 0 < entries j l' → LastLog q.getix l j ix → LastLog q'.getix l' j ix)
    (hcanceled : q'.nCanceled = cancelled l')
    (hduplicates : q'.nDuplicates + q'.nCanceled + (waiting l').card = l'.length) :
    Consistent q' l' where
  ring := hring
  logged e he := (hlogged e he).elim (h.logged e) id
  npend j t ht := by
    rw [hsub] at ht
    by_cases hji : j = i
    · subst hji
      rw [Function.update_self] at ht
      exact Option.some.inj ht ▸ hown
    · rw [Function.update_of_ne hji] at ht
      exact (h.npend j t ht).trans (hother j hji).symm
  freed j hj := by
    rw [hsub] at hj
    have hji : j ≠ i := by
      rintro rfl
      rw [Function.update_self] at hj
      exact nomatch hj
    rw [Function.update_of_ne hji] at hj
    exact (hother j hji).trans (h.freed j hj)
  last j t ht hpos := by
    rw [hsub] at ht
    by_cases hji : j = i
    · subst hji
      rw [Function.update_self] at ht
      obtain rfl := Option.some.inj ht
      exact hlast hpos
    · rw [Function.update_of_ne hji] at ht
      have hpos' : 0 < entries j l' := by
        rw [hother j hji, ← h.npend j t ht]
        exact hpos
      exact hlasts j hji _ hpos' (h.last j t ht hpos)
  canceled := hcanceled
  duplicates := hduplicates

section Less

variable (h : Consistent q (l ++ (.sub i, log) :: m)) (hs : q.sub i = some s)
include h hs

/-- Of the counters, `lessPending` changes `npend` only. -/
theorem Consistent.npend_less : (lessPending s).npend = entries i (l ++ m) := by
  obtain ⟨s', hs', hnpend⟩ := h.sub_of_entry
  obtain rfl := Option.some.inj (hs.symm.trans hs')
  exact Nat.sub_eq_of_eq_add hnpend

/-- As long as there are entries, `pLastLog` stays. -/
theorem Consistent.last_less (hpos : 0 < (lessPending s).npend) :
    LastLog q.getix (l ++ (.sub i, log) :: m) i (lessPending s).pLastLog := by
  have hlt : 1 < s.npend := Nat.lt_of_sub_pos hpos
  have hsame : (lessPending s).pLastLog = s.pLastLog := if_neg (by omega)
  rw [hsame]
  exact h.last i s hs (by omega)

end Less

/-- **The event task reads an event.** -/
theorem Consistent.pop_sub (h : Consistent q ((.sub i, log) :: l)) (hs : q.sub i = some s) :
    Consistent { removed q q.getix none i s with getix := RNGINC q.getix } l := by
  have hcell : cell (removed q q.getix none i s) = Function.update (cell q) q.getix none :=
    cell_setEntry q q.getix none none
  have hless := Consistent.npend_less (l := []) h hs
  refine h.change rfl ?_ (fun e he => .inl (List.mem_cons_of_mem _ he)) hless (fun j hj => ?_)
    (fun hpos => ?_) (fun j hj ix hpos hix => hix.pop h.ring.get_lt hpos) ?_
    (Consistent.counts (l := []) h hs).1
  · have hring := h.ring.pop
    rw [← hcell] at hring
    exact hring
  · rw [entries_sub, if_neg (Ne.symm hj)]
    rfl
  · exact (Consistent.last_less (l := []) h hs hpos).pop h.ring.get_lt (hless ▸ hpos)
  · rw [← cancelled_sub i log l]
    exact h.canceled

/-- **The event task skips an event that has been cancelled.** -/
theorem Consistent.pop_canceled (h : Consistent q ((.canceledEvent, log) :: l)) :
    Consistent { setEntry q q.getix none none with
      getix := RNGINC q.getix
      nCanceled := q.nCanceled - 1 } l := by
  have hcanceled := h.canceled
  have hdup := h.duplicates
  rw [cancelled_canceled] at hcanceled
  rw [waiting_canceled, List.length_cons] at hdup
  refine ⟨?_, fun e he => h.logged e (List.mem_cons_of_mem _ he), fun j s' hs' => ?_,
    fun j hj => ?_, fun j s' hs' hpos => ?_, ?_, ?_⟩
  · have hring := h.ring.pop
    have hcell : cell (setEntry q q.getix none none) = Function.update (cell q) q.getix none :=
      cell_setEntry q q.getix none none
    rw [← hcell] at hring
    exact hring
  · rw [h.npend j s' hs', entries_canceled]
  · rw [← entries_canceled j log l]
    exact h.freed j hj
  · have hpos' : 0 < entries j l := by
      rw [← entries_canceled j log l, ← h.npend j s' hs']
      exact hpos
    exact (h.last j s' hs' hpos).pop h.ring.get_lt hpos'
  · show q.nCanceled - 1 = _
    omega
  · show q.nDuplicates + (q.nCanceled - 1) + _ = _
    omega

/-- **An event is cancelled** that is the first one of its subscription. -/
theorem Consistent.cancel_entry (h : Consistent q (l ++ (.sub i, log) :: m)) (hs : q.sub i = some s)
    (hfirst : entries i l = 0) :
    Consistent (removed { q with nCanceled := q.nCanceled + 1 }
        ((q.getix + l.length) % EVENTQUESIZE) (some .canceledEvent) i s)
      (l ++ (.canceledEvent, none) :: m) := by
  have hless := h.npend_less hs
  have hentries : ∀ j, entries j (l ++ (.canceledEvent, (none : Option (FieldLog α))) :: m) =
      entries j (l ++ m) := by
    intro j
    rw [entries_append, entries_append, entries_canceled]
  refine h.change rfl ?_ (fun e he => ?_) (hless.trans (hentries i).symm) (fun j hj => ?_)
    (fun hpos => ?_) (fun j hj ix _ hix => ?_) ?_ ?_
  · have hlt : l.length < (l ++ (.sub i, log) :: m).length := by simp
    have hring := h.ring.set (a := (.canceledEvent, none)) hlt
    have hcell : cell (setEntry q ((q.getix + l.length) % EVENTQUESIZE) (some .canceledEvent) none) =
        Function.update (cell q) ((q.getix + l.length) % EVENTQUESIZE)
          (some (.canceledEvent, none)) := cell_setEntry q _ _ none
    rw [← hcell, List.set_append_right _ _ (Nat.le_refl _), Nat.sub_self] at hring
    exact hring
  · rcases List.mem_append.mp he with he | he
    · exact .inl (List.mem_append_left _ he)
    · rcases List.mem_cons.mp he with rfl | he
      · exact .inr (by simp)
      · exact .inl (List.mem_append_right _ (List.mem_cons_of_mem _ he))
  · rw [hentries, entries_append, entries_append, entries_sub, if_neg (Ne.symm hj)]
    rfl
  · have hm : 0 < entries i m := by
      rw [hless, entries_append, hfirst, Nat.zero_add] at hpos
      exact hpos
    exact (h.last_less hs hpos).split (.inr hm) (by simp)
  · exact hix.split (.inl (by simpa using Ne.symm hj)) (by simp)
  · have hcanceled := h.canceled
    rw [cancelled_append, cancelled_sub] at hcanceled
    show q.nCanceled + 1 = _
    rw [cancelled_append, cancelled_canceled, hcanceled, Nat.add_assoc]
  · have hdup := (h.counts hs).1
    show (if s.npend = 1 then q.nDuplicates else q.nDuplicates - 1) + (q.nCanceled + 1) + _ = _
    rw [waiting_append, waiting_canceled, ← waiting_append]
    rw [List.length_append] at hdup
    rw [List.length_append, List.length_cons]
    omega

/-- **A log takes the place of the last one.** -/
theorem Consistent.replace (h : Consistent q l) (hs : q.sub i = some s) (hpos : 0 < s.npend)
    (pLog : FieldLog α) :
    ∃ k ix, s.pLastLog = some ix ∧ l[k]? = some (.sub i, q.valque ix) ∧
      (∀ m log', k < m → l[m]? ≠ some (.sub i, log')) ∧
      Consistent (replaceLast q i s ix pLog) (l.set k (.sub i, some pLog)) := by
  obtain ⟨k, log, hk, hix, hlast⟩ := h.last i s hs hpos
  obtain ⟨hlt, hget⟩ := List.getElem?_eq_some_iff.mp hk
  have hplace := h.ring.holds_get hlt
  rw [hget] at hplace
  obtain ⟨slot, hslot, heq⟩ := Option.map_eq_some_iff.mp hplace
  obtain ⟨rfl, hlog⟩ := Prod.mk.inj heq
  refine ⟨k, _, hix, by rw [hlog]; exact hk, hlast, ?_⟩
  have hsome : (q.valque ((q.getix + k) % EVENTQUESIZE)).isSome = true := by
    have hlogged := h.logged _ (List.mem_of_getElem? hk)
    rw [hlog]
    cases log with
    | none => simp at hlogged
    | some log => rfl
  have hslots : (l.set k (.sub i, some pLog)).map Prod.fst = l.map Prod.fst := by
    rw [List.map_set]
    refine List.ext_getElem? fun n => ?_
    by_cases hn : k = n
    · subst hn
      rw [List.getElem?_set_self (by simpa using hlt), List.getElem?_map, hk]
      rfl
    · rw [List.getElem?_set_ne hn]
  obtain ⟨hentries, hcanceled, hwaiting⟩ := counts_of_slots hslots
  unfold replaceLast
  rw [if_pos hsome]
  refine h.change rfl ?_ (fun e he => ?_) ((h.npend i s hs).trans (hentries i).symm)
    (fun j _ => hentries j) (fun hpos => (h.last i s hs hpos).set hk) (fun j _ ix _ hix => hix.set hk)
    (h.canceled.trans hcanceled.symm) ?_
  · have hcell : cell (setEntry q ((q.getix + k) % EVENTQUESIZE)
        (q.evque ((q.getix + k) % EVENTQUESIZE)) (some pLog)) =
        Function.update (cell q) ((q.getix + k) % EVENTQUESIZE) (some (.sub i, some pLog)) := by
      rw [cell_setEntry, hslot]
      rfl
    have hring := h.ring.set (a := (.sub i, some pLog)) hlt
    rw [← hcell] at hring
    exact hring
  · rcases List.mem_or_eq_of_mem_set he with he | rfl
    · exact .inl he
    · exact .inr (by simp)
  · rw [hwaiting, List.length_set]
    exact h.duplicates

/-- **An event is written.** -/
theorem Consistent.fill (h : Consistent q l) (hs : q.sub i = some s)
    (hroom : l.length < EVENTQUESIZE) (pLog : FieldLog α) :
    Consistent (fillEntry q i s pLog) (l ++ [(.sub i, some pLog)]) := by
  have hnpend := h.npend i s hs
  have hentries : ∀ j, entries j (l ++ [(.sub i, some pLog)]) =
      entries j l + if i = j then 1 else 0 := by
    intro j
    rw [entries_append, entries_sub, entries_nil, Nat.zero_add]
  refine h.change rfl ?_ (fun e he => ?_) ?_ (fun j hj => ?_) (fun _ => ?_)
    (fun j hj ix _ hix => hix.push (by simpa using Ne.symm hj)) ?_ ?_
  · have hcell : cell (setEntry q q.putix (some (.sub i)) (some pLog)) =
        Function.update (cell q) q.putix (some (.sub i, some pLog)) := cell_setEntry q _ _ _
    have hring := h.ring.push (a := (.sub i, some pLog)) hroom
    rw [← hcell] at hring
    exact hring
  · rcases List.mem_append.mp he with he | he
    · exact .inl he
    · obtain rfl := List.mem_singleton.mp he
      exact .inr (by simp)
  · rw [hentries, if_pos rfl, ← hnpend]
  · rw [hentries, if_neg (Ne.symm hj)]
    rfl
  · show LastLog q.getix _ i (some q.putix)
    rw [h.ring.put]
    exact .push_self q.getix l i (some pLog)
  · rw [cancelled_append, cancelled_sub]
    exact h.canceled
  · have hcard := card_waiting_split i (some pLog) l []
    have hdup := h.duplicates
    rw [List.append_nil, ← hnpend] at hcard
    rw [List.length_append, List.length_singleton, hcard]
    show (if 0 < s.npend then q.nDuplicates + 1 else q.nDuplicates) + q.nCanceled + _ = _
    split_ifs <;> omega

end Entries

end RackmonIoc.Event
