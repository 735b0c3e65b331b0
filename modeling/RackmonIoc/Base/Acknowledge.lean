import RackmonIoc.Base.Monitor

/-!
# The acknowledgement of alarms

`putAckt` and `putAcks` of `dbAccess.c`, which an operator's client writes through, beside
`recGblResetAlarms`.  What the fields ACKS and ACKT are for is a list of alarms that nobody has
acknowledged yet: with ACKT every alarm stays on it, without only the current one.  ACKS is the highest
severity on the list.
-/

namespace RackmonIoc.Base

/-! ### The code -/

def putAckt (prec : DbCommon) (trans : Bool) : DbCommon × List (Post DbCommon) :=
  if trans = prec.ackt then (prec, []) else
  let prec := { prec with ackt := trans }
  let posts := [⟨some .ACKT, [.VALUE, .ALARM], prec⟩]
  let (prec, posts) :=
    if !prec.ackt ∧ prec.sevr < prec.acks then
      let prec := { prec with acks := prec.sevr }
      (prec, posts ++ [⟨some .ACKS, [.VALUE, .ALARM], prec⟩])
    else (prec, posts)
  (prec, posts ++ [⟨none, [.ALARM], prec⟩])

/-- `sev` is an `unsigned short`. -/
def putAcks (prec : DbCommon) (sev : ℕ) : DbCommon × List (Post DbCommon) :=
  if prec.acks.toNat ≤ sev then
    let prec := { prec with acks := .NO_ALARM }
    (prec, [⟨some .ACKS, [.VALUE, .ALARM], prec⟩, ⟨none, [.ALARM], prec⟩])
  else (prec, [])

theorem putAckt_fst (prec : DbCommon) (trans : Bool) :
    (putAckt prec trans).1 =
      if trans = prec.ackt then prec
      else { prec with
        ackt := trans
        acks := if !trans ∧ prec.sevr < prec.acks then prec.sevr else prec.acks } := by
  unfold putAckt
  by_cases h : trans = prec.ackt
  · rw [if_pos h, if_pos h]
  · rw [if_neg h, if_neg h]
    dsimp only
    split <;> rfl

theorem putAcks_fst (prec : DbCommon) (sev : ℕ) :
    (putAcks prec sev).1 = if prec.acks.toNat ≤ sev then { prec with acks := .NO_ALARM } else prec := by
  unfold putAcks
  split <;> rfl

/-- The puts of an operator leave the alarm as it is, and post the whole record with DBE_ALARM only. -/
structure OperatorPut (prec : DbCommon) (r : DbCommon × List (Post DbCommon)) : Prop where
  sevr : r.1.sevr = prec.sevr
  stat : r.1.stat = prec.stat
  posts : ∀ p ∈ r.2, (p.field = some .ACKS ∨ p.field = some .ACKT ∨ p.mask = [.ALARM]) ∧
    p.prec.sevr = prec.sevr ∧ p.prec.stat = prec.stat

theorem operatorPut_putAckt (prec : DbCommon) (trans : Bool) :
    OperatorPut prec (putAckt prec trans) := by
  unfold putAckt
  split
  · exact ⟨rfl, rfl, by simp⟩
  · dsimp only
    split <;> exact ⟨rfl, rfl, by simp⟩

theorem operatorPut_putAcks (prec : DbCommon) (sev : ℕ) : OperatorPut prec (putAcks prec sev) := by
  unfold putAcks
  split <;> exact ⟨rfl, rfl, by simp⟩

section Subscribers

variable {s : Subscriber} {prec known : DbCommon}

/-- **A subscriber of SEVR, STAT, ACKS or ACKT** still knows the field when ACKT has been put. -/
theorem KnowsField.putAckt (hs : .VALUE ∈ s.select) (h : KnowsField s known prec) (trans : Bool) :
    KnowsField s (s.last known (putAckt prec trans).2) (putAckt prec trans).1 := by
  unfold Base.putAckt
  by_cases hsame : trans = prec.ackt
  · rw [if_pos hsame]
    exact h
  rw [if_neg hsame]
  by_cases hlower : !trans ∧ prec.sevr < prec.acks
  · simp only [hlower, and_self, if_true]
    refine ⟨fun hf => ?_, fun hf => ?_, fun hf => ?_, fun hf => ?_⟩
    · exact Subscriber.last_posted hs (by simp [hf]) (by simp) (h.sevr hf)
    · exact Subscriber.last_posted hs (by simp [hf]) (by simp) (h.stat hf)
    · exact Subscriber.last_posted hs (by simp [hf]) (by simp [hf]) (h.acks hf)
    · exact Subscriber.last_posted hs (by simp [hf]) (by simp [hf]) (h.ackt hf)
  · simp only [hlower, if_false]
    refine ⟨fun hf => ?_, fun hf => ?_, fun hf => ?_, fun hf => ?_⟩
    · exact Subscriber.last_posted hs (by simp [hf]) (by simp) (h.sevr hf)
    · exact Subscriber.last_posted hs (by simp [hf]) (by simp) (h.stat hf)
    · exact Subscriber.last_posted hs (by simp [hf]) (by simp) (h.acks hf)
    · exact Subscriber.last_posted hs (by simp [hf]) (by simp [hf]) (h.ackt hf)

/-- The same for ACKS. -/
theorem KnowsField.putAcks (hs : .VALUE ∈ s.select) (h : KnowsField s known prec) (sev : ℕ) :
    KnowsField s (s.last known (putAcks prec sev).2) (putAcks prec sev).1 := by
  unfold Base.putAcks
  by_cases hle : prec.acks.toNat ≤ sev
  · rw [if_pos hle]
    refine ⟨fun hf => ?_, fun hf => ?_, fun hf => ?_, fun hf => ?_⟩
    · exact Subscriber.last_posted hs (by simp [hf]) (by simp) (h.sevr hf)
    · exact Subscriber.last_posted hs (by simp [hf]) (by simp) (h.stat hf)
    · exact Subscriber.last_posted hs (by simp [hf]) (by simp [hf]) (h.acks hf)
    · exact Subscriber.last_posted hs (by simp [hf]) (by simp) (h.ackt hf)
  · rw [if_neg hle]
    exact h

end Subscribers

/-! ### The purpose -/

theorem Severity.toNat_injective : Function.Injective Severity.toNat := by
  intro a b h
  cases a <;> cases b <;> first | rfl | exact nomatch h

/-- The current alarm, the severities that are not acknowledged, newest first, and whether one that has
gone stays. -/
structure Unacknowledged where
  stat : AlarmStat
  sevr : Severity
  alarms : List Severity
  transient : Bool

/-- What happens to the alarm of a record: a processing that ends with the alarm `stat`, `sevr`, and the
two puts of an operator. -/
inductive AlarmEvent where
  | processed (stat : AlarmStat) (sevr : Severity)
  | putAckt (trans : Bool)
  | putAcks (sev : ℕ)

/-- The highest severity of a list. -/
def highest (alarms : List Severity) : Severity :=
  alarms.foldr (fun a b => if b ≤ a then a else b) .NO_ALARM

theorem highest_cons (a : Severity) (alarms : List Severity) :
    highest (a :: alarms) = if highest alarms ≤ a then a else highest alarms := rfl

theorem highest_single (a : Severity) : highest [a] = a := if_pos (e := .NO_ALARM) a.toNat.zero_le

/-- The highest severity is a bound, and it is the least one. -/
theorem highest_le {alarms : List Severity} {n : ℕ} :
    (highest alarms).toNat ≤ n ↔ ∀ a ∈ alarms, a.toNat ≤ n := by
  induction alarms with
  | nil => simp [highest, Severity.toNat]
  | cons a alarms ih =>
    rw [highest_cons, List.forall_mem_cons, ← ih]
    by_cases h : highest alarms ≤ a
    · have h' : (highest alarms).toNat ≤ a.toNat := h
      rw [if_pos h]
      omega
    · have h' : ¬ (highest alarms).toNat ≤ a.toNat := h
      rw [if_neg h]
      omega

namespace Unacknowledged

/-- A new alarm is put on the list, if it is another one. -/
def change (u : Unacknowledged) (stat : AlarmStat) (sevr : Severity) : Unacknowledged :=
  if u.sevr ≠ sevr ∨ u.stat ≠ stat then
    { u with stat, sevr, alarms := if u.transient then sevr :: u.alarms else [sevr] }
  else u

/-- From now on alarms that have gone stay, or only the current one does. -/
def keep (u : Unacknowledged) (trans : Bool) : Unacknowledged :=
  { u with alarms := if trans then u.alarms else u.alarms.take 1, transient := trans }

/-- An acknowledgement of all alarms up to `sev`; it counts if there is no higher one. -/
def acknowledge (u : Unacknowledged) (sev : ℕ) : Unacknowledged :=
  if ∀ a ∈ u.alarms, a.toNat ≤ sev then { u with alarms := [] } else u

def step (u : Unacknowledged) : AlarmEvent → Unacknowledged
  | .processed stat sevr => u.change stat sevr
  | .putAckt t => u.keep t
  | .putAcks sev => u.acknowledge sev

/-- The list after the events. -/
def run (u : Unacknowledged) (events : List AlarmEvent) : Unacknowledged := events.foldl step u

/-- The alarm of a record with nothing to acknowledge. -/
def start (prec : DbCommon) : Unacknowledged := ⟨prec.stat, prec.sevr, [], prec.ackt⟩

end Unacknowledged

/-! ### The code keeps the list -/

/-- The record shows the list: ACKS is the highest severity on it, and its newest alarm is the current
one. -/
structure Shows (u : Unacknowledged) (prec : DbCommon) : Prop where
  stat : prec.stat = u.stat
  sevr : prec.sevr = u.sevr
  acks : prec.acks = highest u.alarms
  ackt : prec.ackt = u.transient
  current : ∀ a ∈ u.alarms.head?, u.sevr = a
  single : u.transient = false → u.alarms.length ≤ 1

namespace Shows

variable {u : Unacknowledged} {prec : DbCommon}

theorem start (h : prec.acks = .NO_ALARM) : Shows (.start prec) prec :=
  ⟨rfl, rfl, h, rfl, fun _ ha => (nomatch ha), fun _ => Nat.zero_le _⟩

/-- The list depends on these fields only. -/
theorem of_fields {prec' : DbCommon} (h : Shows u prec) (hstat : prec'.stat = prec.stat)
    (hsevr : prec'.sevr = prec.sevr) (hacks : prec'.acks = prec.acks)
    (hackt : prec'.ackt = prec.ackt) : Shows u prec' :=
  ⟨hstat.trans h.stat, hsevr.trans h.sevr, hacks.trans h.acks, hackt.trans h.ackt, h.current,
    h.single⟩

/-- A change of the alarm is put on the list. -/
theorem reset (h : Shows u prec) :
    Shows (u.change prec.nsta prec.nsev) (recGblResetAlarms prec) := by
  have hchanges : AlarmChanges prec ↔ u.sevr ≠ prec.nsev ∨ u.stat ≠ prec.nsta := by
    rw [← h.sevr, ← h.stat]
    rfl
  unfold Unacknowledged.change
  by_cases hchange : AlarmChanges prec
  · rw [if_pos (hchanges.mp hchange)]
    refine ⟨rfl, rfl, ?_, h.ackt, ?_, ?_⟩
    · -- without ACKT the new alarm replaces the list, with it the list grows
      rw [recGblResetAlarms_acks]
      cases htrans : u.transient with
      | false =>
        have hraised : AcksRaised prec := ⟨hchange, .inl (by simp [h.ackt, htrans])⟩
        rw [if_pos hraised]
        exact (highest_single prec.nsev).symm
      | true =>
        have hackt : prec.ackt = true := h.ackt.trans htrans
        rw [if_pos rfl, highest_cons, ← h.acks]
        exact if_congr (by simp [AcksRaised, hchange, hackt]) rfl rfl
    · cases u.transient <;> rintro a ⟨⟩ <;> rfl
    · intro htrans
      have hfalse : u.transient = false := htrans
      simp [hfalse]
  · rw [if_neg (mt hchanges.mpr hchange)]
    have hsame : prec.sevr = prec.nsev ∧ prec.stat = prec.nsta := by
      unfold AlarmChanges at hchange
      simpa using hchange
    refine h.of_fields hsame.2.symm hsame.1.symm ?_ rfl
    rw [recGblResetAlarms_acks, if_neg fun h => hchange h.1]

/-- ACKT is put; a list without transient alarms has one alarm at most already. -/
theorem putAckt (h : Shows u prec) (trans : Bool) :
    Shows (u.keep trans) (Base.putAckt prec trans).1 := by
  rw [putAckt_fst]
  by_cases hsame : trans = prec.ackt
  · rw [if_pos hsame]
    have hkeep : u.keep trans = u := by
      have htrans : u.transient = trans := (hsame.trans h.ackt).symm
      unfold Unacknowledged.keep
      cases trans with
      | true => rw [if_pos rfl, ← htrans]
      | false => rw [if_neg (by simp), List.take_of_length_le (h.single htrans), ← htrans]
    rw [hkeep]
    exact h
  · rw [if_neg hsame]
    cases trans with
    | true => exact ⟨h.stat, h.sevr, h.acks, rfl, h.current, fun ht => nomatch ht⟩
    | false =>
      have hacks := h.acks
      refine ⟨h.stat, h.sevr, ?_, rfl, ?_, fun _ => by simp [Unacknowledged.keep]⟩
      · -- ACKS falls to the current alarm, unless that has been acknowledged
        rcases halarms : u.alarms with _ | ⟨a, alarms⟩
        · have hno : prec.acks = .NO_ALARM := by rw [hacks, halarms, highest]; rfl
          rw [hno, if_neg fun h => prec.sevr.not_lt_no_alarm h.2]
          simp [Unacknowledged.keep, halarms, highest]
        · have hcur : prec.sevr = a := h.sevr.trans (h.current a (by simp [halarms]))
          have hle : a.toNat ≤ prec.acks.toNat := by
            rw [hacks]
            exact highest_le.mp le_rfl a (by simp [halarms])
          have hkeep : highest (u.keep false).alarms = a := by
            simp [Unacknowledged.keep, halarms, highest_single]
          rw [hkeep, hcur]
          by_cases hlt : a < prec.acks
          · simp [hlt]
          · have hge : ¬ a.toNat < prec.acks.toNat := hlt
            simp only [hlt, and_false, if_false]
            exact Severity.toNat_injective (by omega)
      · have hcur := h.current
        unfold Unacknowledged.keep
        rcases halarms : u.alarms with _ | ⟨a, alarms⟩
        · exact fun _ ha => nomatch ha
        · rw [halarms] at hcur
          exact hcur

/-- An acknowledgement empties the list, or does nothing. -/
theorem putAcks (h : Shows u prec) (sev : ℕ) :
    Shows (u.acknowledge sev) (Base.putAcks prec sev).1 := by
  have hall : prec.acks.toNat ≤ sev ↔ ∀ a ∈ u.alarms, a.toNat ≤ sev := by
    rw [h.acks]
    exact highest_le
  rw [putAcks_fst]
  unfold Unacknowledged.acknowledge
  by_cases hle : prec.acks.toNat ≤ sev
  · rw [if_pos hle, if_pos (hall.mp hle)]
    exact ⟨h.stat, h.sevr, rfl, h.ackt, fun _ ha => (nomatch ha), fun _ => Nat.zero_le _⟩
  · rw [if_neg hle, if_neg (mt hall.mpr hle)]
    exact h

end Shows

end RackmonIoc.Base
